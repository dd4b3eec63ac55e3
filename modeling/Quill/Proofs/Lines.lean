import Quill.Proofs.Reading
import Quill.Proofs.Renaming

/-!
# Lines do not matter

A program that is moved down, or whose lines are numbered in any other way, is
the same program: the readers put lines into the tree and into errors and never
look at one. Each function of the readers is shown to commute with a change of
lines, from there one step of reading does, and so does reading a list of
tokens. How the end of the input is tried out needs a word of its own, since the
line end that stands for it is on no line.

With what is known about runs this covers a source text from beginning to end.
Line feeds in front of it move its lines and are skipped by the reader, so it
runs as before and fails, if it fails, further down.
-/

namespace Quill

variable (f : Nat → Nat)

/-! ## What a change of lines does to a reader -/

def Ident.relabel (x : Ident) : Ident :=
  { x with line := f x.line }

def SyntaxError.relabel (e : SyntaxError) : SyntaxError :=
  { e with line := f e.line }

/-- What was read, or why it could not be, with other lines. -/
def relabelResult {α : Type} (g : α → α) :
    Except SyntaxError α → Except SyntaxError α
  | .ok a => .ok (g a)
  | .error e => .error (e.relabel f)

theorem relabelResult_map {α : Type} {g h h' : α → α} (x : Except SyntaxError α)
    (hh : ∀ a, h' (g a) = g (h a)) :
    (relabelResult f g x).map h' = relabelResult f g (x.map h) := by
  cases x with
  | error e => rfl
  | ok a => exact congrArg Except.ok (hh a)

def Pending.relabel (p : Pending) : Pending :=
  ⟨(Renaming.lines f).expr p.left, (Renaming.lines f).token p.op, p.level⟩

def Opening.relabel : Opening → Opening
  | .group => .group
  | .call g args => .call (g.relabel f) (args.map (Renaming.lines f).expr)

def Focus.relabel : Focus → Focus
  | .operand => .operand
  | .name x => .name (x.relabel f)
  | .arguments g => .arguments (g.relabel f)
  | .value e => .value ((Renaming.lines f).expr e)

def ExprReader.relabel (r : ExprReader) : ExprReader :=
  ⟨r.pending.map (Pending.relabel f),
    r.nested.map fun (o, ps) => (o.relabel f, ps.map (Pending.relabel f)),
    r.focus.relabel f⟩

def ExprReader.Progress.relabel : ExprReader.Progress → ExprReader.Progress
  | .reading r => .reading (r.relabel f)
  | .finished e => .finished ((Renaming.lines f).expr e)

def Arm.relabel (arm : Arm) : Arm :=
  ((Renaming.lines f).expr arm.1, arm.2.map (Renaming.lines f).stmt)

def Slot.relabel : Slot → Slot
  | .init ty x => .init ((Renaming.lines f).typeName ty) (x.relabel f)
  | .value x => .value (x.relabel f)
  | .result line => .result (f line)
  | .branch earlier => .branch (earlier.map (Arm.relabel f))
  | .loop => .loop
  | .argument g args =>
    .argument (g.relabel f) (args.map (Renaming.lines f).expr)

def Owner.relabel : Owner → Owner
  | .function g params =>
    .function (g.relabel f) (params.map (Renaming.lines f).param)
  | .branch c earlier =>
    .branch ((Renaming.lines f).expr c) (earlier.map (Arm.relabel f))
  | .otherwise arm earlier =>
    .otherwise (arm.relabel f) (earlier.map (Arm.relabel f))
  | .loop c => .loop ((Renaming.lines f).expr c)

def Mode.relabel : Mode → Mode
  | .ready => .ready
  | .ended => .ended
  | .branched arm earlier newline =>
    .branched (arm.relabel f) (earlier.map (Arm.relabel f)) newline
  | .elseRead arm earlier =>
    .elseRead (arm.relabel f) (earlier.map (Arm.relabel f))
  | .typed ty => .typed ((Renaming.lines f).typeName ty)
  | .typedName ty x => .typedName ((Renaming.lines f).typeName ty) (x.relabel f)
  | .named x => .named (x.relabel f)
  | .calling g => .calling (g.relabel f)
  | .returning line => .returning (f line)
  | .function => .function
  | .functionName g => .functionName (g.relabel f)
  | .params g => .params (g.relabel f)
  | .paramType g ps =>
    .paramType (g.relabel f) (ps.map (Renaming.lines f).param)
  | .paramName g ps ty =>
    .paramName (g.relabel f) (ps.map (Renaming.lines f).param)
      ((Renaming.lines f).typeName ty)
  | .paramEnd g ps => .paramEnd (g.relabel f) (ps.map (Renaming.lines f).param)
  | .block owner => .block (owner.relabel f)
  | .expr slot r => .expr (slot.relabel f) (r.relabel f)

def Reader.relabel (r : Reader) : Reader :=
  ⟨r.mode.relabel f, r.done.map (Renaming.lines f).stmt,
    r.outer.map fun (o, before) =>
      (o.relabel f, before.map (Renaming.lines f).stmt)⟩

/-! ## Expressions -/

theorem Pending.fold_relabel (level : Nat) (ps : List Pending) (e : Expr) :
    Pending.fold level (ps.map (Pending.relabel f))
      ((Renaming.lines f).expr e) =
      ((Pending.fold level ps e).1.map (Pending.relabel f),
        (Renaming.lines f).expr (Pending.fold level ps e).2) := by
  induction ps generalizing e with
  | nil => rfl
  | cons p ps ih =>
      rw [List.map_cons, fold, fold]
      by_cases hlevel : level ≤ p.level
      · have hlevel' : level ≤ (p.relabel f).level := hlevel
        rw [if_pos hlevel, if_pos hlevel', ← ih]
        rfl
      · have hlevel' : ¬ level ≤ (p.relabel f).level := hlevel
        rw [if_neg hlevel, if_neg hlevel']
        rfl

namespace ExprReader

theorem takeOperand_relabel (r : ExprReader) (t : Token) :
    ((r.relabel f).takeOperand ((Renaming.lines f).token t)).map
        Progress.reading =
      relabelResult f (Progress.relabel f)
        ((r.takeOperand t).map .reading) := by
  obtain ⟨kind, text, line⟩ := t
  cases kind with
  | keyword k => cases k <;> rfl
  | symbol s => cases s <;> rfl
  | _ => rfl

theorem takeAfter_relabel (r : ExprReader) (e : Expr) (t : Token) :
    (r.relabel f).takeAfter ((Renaming.lines f).expr e)
      ((Renaming.lines f).token t) =
      relabelResult f (Progress.relabel f) (r.takeAfter e t) := by
  obtain ⟨pending, nested, focus⟩ := r
  obtain ⟨kind, text, line⟩ := t
  simp only [takeAfter, Renaming.token, relabel, Pending.fold_relabel]
  cases kind.level? with
  | some level => rfl
  | none =>
      generalize (Pending.fold 0 pending e).2 = e
      match nested with
      | [] => rfl
      | (.group, outer) :: nested =>
          cases kind with
          | symbol s => cases s <;> rfl
          | _ => rfl
      | (.call g args, outer) :: nested =>
          cases kind with
          | symbol s =>
              cases s with
              | rparen =>
                  simp only [List.map_cons, Opening.relabel, relabelResult,
                    Progress.relabel, relabel, Focus.relabel, Renaming.expr,
                    Renaming.exprs_eq_map, List.map_reverse]
                  rfl
              | _ => rfl
          | _ => rfl

theorem step_relabel (r : ExprReader) (t : Token) :
    (r.relabel f).step ((Renaming.lines f).token t) =
      relabelResult f (Progress.relabel f) (r.step t) := by
  obtain ⟨pending, nested, focus⟩ := r
  obtain ⟨kind, text, line⟩ := t
  cases focus with
  | operand =>
      exact takeOperand_relabel f ⟨pending, nested, .operand⟩ ⟨kind, text, line⟩
  | name x =>
      have hafter :=
        takeAfter_relabel f ⟨pending, nested, .name x⟩ (.var x)
          ⟨kind, text, line⟩
      cases kind with
      | symbol s =>
          cases s with
          | lparen => rfl
          | _ => exact hafter
      | _ => exact hafter
  | arguments g =>
      have hfirst :=
        takeOperand_relabel f ⟨[], (.call g [], pending) :: nested, .operand⟩
          ⟨kind, text, line⟩
      cases kind with
      | symbol s =>
          cases s with
          | rparen => rfl
          | _ => exact hfirst
      | _ => exact hfirst
  | value e =>
      exact takeAfter_relabel f ⟨pending, nested, .value e⟩ e ⟨kind, text, line⟩

end ExprReader

/-! ## Statements -/

theorem closeArms_relabel (next : ElseChain) (arm : Arm) (earlier : List Arm) :
    closeArms ((Renaming.lines f).chain next) (arm.relabel f)
      (earlier.map (Arm.relabel f)) =
      (Renaming.lines f).stmt (closeArms next arm earlier) := by
  induction earlier generalizing next arm with
  | nil =>
      rw [List.map_nil, closeArms, closeArms, Renaming.stmt,
        Renaming.stmts_eq_map]
      rfl
  | cons before earlier ih =>
      rw [List.map_cons, closeArms, closeArms, ← ih, Renaming.chain,
        Renaming.stmts_eq_map]
      rfl

namespace Reader

theorem add_relabel (r : Reader) (s : Stmt) :
    (r.relabel f).add ((Renaming.lines f).stmt s) = (r.add s).relabel f :=
  rfl

theorem closeBlock_relabel (r : Reader) (t : Token) :
    (r.relabel f).closeBlock ((Renaming.lines f).token t) =
      relabelResult f (relabel f) (r.closeBlock t) := by
  obtain ⟨mode, done, outer⟩ := r
  have hbody : (done.map (Renaming.lines f).stmt).reverse =
      done.reverse.map (Renaming.lines f).stmt := List.map_reverse.symm
  simp only [closeBlock, relabel, hbody]
  cases outer with
  | nil => rfl
  | cons o outer =>
      obtain ⟨owner, before⟩ := o
      cases owner with
      | branch c earlier => rfl
      | otherwise arm earlier =>
          simp only [List.map_cons, Owner.relabel, relabelResult, relabel,
            ← closeArms_relabel, Renaming.chain, Renaming.stmts_eq_map]
          rfl
      | _ =>
          simp only [List.map_cons, Owner.relabel, relabelResult, relabel,
            Renaming.stmt, Renaming.stmts_eq_map]
          rfl

theorem openBlock_relabel (r : Reader) (owner : Owner) (t : Token) :
    (r.relabel f).openBlock (owner.relabel f) ((Renaming.lines f).token t) =
      relabelResult f (relabel f) (r.openBlock owner t) := by
  obtain ⟨kind, text, line⟩ := t
  cases kind with
  | symbol s => cases s <;> rfl
  | _ => rfl

theorem separate_relabel (r : Reader) (t : Token) :
    (r.relabel f).separate ((Renaming.lines f).token t) =
      relabelResult f (relabel f) (r.separate t) := by
  have hclose := closeBlock_relabel f r t
  obtain ⟨kind, text, line⟩ := t
  cases kind with
  | symbol s =>
      cases s with
      | rbrace => exact hclose
      | _ => rfl
  | _ => rfl

theorem begin_relabel (r : Reader) (t : Token) :
    (r.relabel f).begin ((Renaming.lines f).token t) =
      relabelResult f (relabel f) (r.begin t) := by
  have hclose := closeBlock_relabel f r t
  -- which fault it is depends on whether a block is open
  have houter : (r.relabel f).outer.isEmpty = r.outer.isEmpty :=
    List.isEmpty_map
  have hfault : relabelResult f (relabel f) (.error (t.blame
      (if r.outer.isEmpty then .unexpectedCharacter
        else .expectClosingBrace))) =
      .error (((Renaming.lines f).token t).blame
        (if (r.relabel f).outer.isEmpty then .unexpectedCharacter
          else .expectClosingBrace)) := by
    rw [houter]
    rfl
  obtain ⟨kind, text, line⟩ := t
  cases kind with
  | symbol s =>
      cases s with
      | rbrace => exact hclose
      | _ => exact hfault.symm
  | keyword k =>
      cases k with
      | «else» => exact hfault.symm
      | falseWord => exact hfault.symm
      | «for» => exact hfault.symm
      | nullWord => exact hfault.symm
      | trueWord => exact hfault.symm
      | _ => rfl
  | newline => rfl
  | name => rfl
  | _ => exact hfault.symm

theorem fill_relabel (r : Reader) (slot : Slot) (e : Expr) (t : Token) :
    (r.relabel f).fill (slot.relabel f) ((Renaming.lines f).expr e)
      ((Renaming.lines f).token t) =
      relabelResult f (relabel f) (r.fill slot e t) := by
  cases slot with
  | init ty x => exact separate_relabel f (r.add (.declare ty x e)) t
  | value x => exact separate_relabel f (r.add (.assign x e)) t
  | result line => exact separate_relabel f (r.add (.ret line (some e))) t
  | branch earlier => exact openBlock_relabel f r (.branch e earlier) t
  | loop => exact openBlock_relabel f r (.loop e) t
  | argument g args =>
      obtain ⟨kind, text, line⟩ := t
      cases kind with
      | symbol s =>
          cases s with
          | rparen =>
              have hargs : (Renaming.lines f).stmt
                  (.call g (e :: args).reverse) =
                  .call (g.relabel f)
                    ((e :: args).map (Renaming.lines f).expr).reverse := by
                rw [Renaming.stmt, Renaming.exprs_eq_map, List.map_reverse]
                rfl
              simp only [fill, Renaming.token, relabelResult, ← add_relabel,
                hargs]
              rfl
          | _ => rfl
      | _ => rfl

theorem advance_relabel (r : Reader) (slot : Slot) (er : ExprReader)
    (t : Token) :
    (r.relabel f).advance (slot.relabel f) (er.relabel f)
      ((Renaming.lines f).token t) =
      relabelResult f (relabel f) (r.advance slot er t) := by
  simp only [advance, ExprReader.step_relabel]
  cases er.step t with
  | error e => rfl
  | ok progress =>
      cases progress with
      | reading er => rfl
      | finished e => exact fill_relabel f r slot e t

theorem takeName_relabel (r : Reader) (t : Token) (mode mode' : Ident → Mode)
    (hmode : ∀ x, mode' (x.relabel f) = (mode x).relabel f) :
    (r.relabel f).takeName ((Renaming.lines f).token t) mode' =
      relabelResult f (relabel f) (r.takeName t mode) := by
  obtain ⟨kind, text, line⟩ := t
  cases kind with
  | name =>
      exact congrArg (fun m => Except.ok { r.relabel f with mode := m })
        (hmode ⟨text, line⟩)
  | _ => rfl

theorem takeParamType_relabel (r : Reader) (g : Ident) (params : List Param)
    (t : Token) :
    (r.relabel f).takeParamType (g.relabel f)
      (params.map (Renaming.lines f).param)
        ((Renaming.lines f).token t) =
      relabelResult f (relabel f) (r.takeParamType g params t) := by
  obtain ⟨kind, text, line⟩ := t
  cases kind with
  | keyword k => cases k <;> rfl
  | _ => rfl

theorem takeSymbol_relabel (r : Reader) (t : Token) (s : Symbol)
    (fault : SyntaxFault) (mode : Mode) :
    (r.relabel f).takeSymbol ((Renaming.lines f).token t) s fault
      (mode.relabel f) =
      relabelResult f (relabel f) (r.takeSymbol t s fault mode) := by
  unfold takeSymbol
  by_cases h : t.kind = .symbol s
  · have h' : ((Renaming.lines f).token t).kind = .symbol s := h
    rw [if_pos h, if_pos h']
    rfl
  · have h' : ¬ ((Renaming.lines f).token t).kind = .symbol s := h
    rw [if_neg h, if_neg h']
    rfl

/-- After the block of an `if`, a token that goes on with no `else`. -/
theorem branched_relabel (r : Reader) (arm : Arm) (earlier : List Arm)
    (newline : Bool) (t : Token) :
    (let r' := (r.relabel f).add
      (closeArms .none (arm.relabel f) (earlier.map (Arm.relabel f)))
      if newline then r'.begin ((Renaming.lines f).token t)
      else r'.separate ((Renaming.lines f).token t)) =
    relabelResult f (relabel f) (
      let r' := r.add (closeArms .none arm earlier)
      if newline then r'.begin t else r'.separate t) := by
  have hadd : (r.relabel f).add
      (closeArms .none (arm.relabel f) (earlier.map (Arm.relabel f))) =
      (r.add (closeArms .none arm earlier)).relabel f := by
    rw [← add_relabel, ← closeArms_relabel]
    rfl
  dsimp only
  rw [hadd]
  cases newline with
  | true => exact begin_relabel f _ t
  | false => exact separate_relabel f _ t

theorem step_relabel (r : Reader) (t : Token) :
    (r.relabel f).step ((Renaming.lines f).token t) =
      relabelResult f (relabel f) (r.step t) := by
  obtain ⟨mode, done, outer⟩ := r
  cases mode with
  | ready => exact begin_relabel f ⟨.ready, done, outer⟩ t
  | ended => exact separate_relabel f ⟨.ended, done, outer⟩ t
  | branched arm earlier newline =>
      have hrest :=
        branched_relabel f ⟨.branched arm earlier newline, done, outer⟩ arm
          earlier newline t
      obtain ⟨kind, text, line⟩ := t
      cases kind with
      | newline => rfl
      | keyword k =>
          cases k with
          | «else» => rfl
          | _ => exact hrest
      | _ => exact hrest
  | elseRead arm earlier =>
      have hblock := openBlock_relabel f ⟨.elseRead arm earlier, done, outer⟩
        (.otherwise arm earlier) t
      obtain ⟨kind, text, line⟩ := t
      cases kind with
      | keyword k =>
          cases k with
          | «if» => rfl
          | _ => exact hblock
      | _ => exact hblock
  | typed ty =>
      exact takeName_relabel f ⟨.typed ty, done, outer⟩ t _ _ fun _ => rfl
  | typedName ty x =>
      exact takeSymbol_relabel f ⟨.typedName ty x, done, outer⟩ t .assign
        .expectAssign (.expr (.init ty x) .start)
  | named x =>
      have hassign :=
        takeSymbol_relabel f ⟨.named x, done, outer⟩ t .assign .expectAssign
          (.expr (.value x) .start)
      obtain ⟨kind, text, line⟩ := t
      cases kind with
      | symbol s =>
          cases s with
          | lparen => rfl
          | _ => exact hassign
      | _ => exact hassign
  | calling g =>
      have hfirst :=
        advance_relabel f ⟨.calling g, done, outer⟩ (.argument g []) .start t
      obtain ⟨kind, text, line⟩ := t
      cases kind with
      | symbol s =>
          cases s with
          | rparen => rfl
          | _ => exact hfirst
      | _ => exact hfirst
  | returning line =>
      have hend :=
        separate_relabel f (add ⟨.returning line, done, outer⟩ (.ret line none))
          t
      have hvalue :=
        advance_relabel f ⟨.returning line, done, outer⟩ (.result line) .start t
      obtain ⟨kind, text, l⟩ := t
      cases kind with
      | newline => exact hend
      | symbol s =>
          cases s with
          | rbrace => exact hend
          | _ => exact hvalue
      | _ => exact hvalue
  | function =>
      exact takeName_relabel f ⟨.function, done, outer⟩ t _ _ fun _ => rfl
  | functionName g =>
      exact takeSymbol_relabel f ⟨.functionName g, done, outer⟩ t .lparen
        .expectOpeningParen (.params g)
  | params g =>
      have htype := takeParamType_relabel f ⟨.params g, done, outer⟩ g [] t
      obtain ⟨kind, text, line⟩ := t
      cases kind with
      | symbol s =>
          cases s with
          | rparen => rfl
          | _ => exact htype
      | _ => exact htype
  | paramType g params =>
      exact takeParamType_relabel f
        ⟨.paramType g params, done, outer⟩ g params t
  | paramName g params ty =>
      exact takeName_relabel f ⟨.paramName g params ty, done, outer⟩ t
        (fun x => .paramEnd g (⟨ty, x⟩ :: params))
        (fun x => .paramEnd (g.relabel f)
          (⟨(Renaming.lines f).typeName ty, x⟩ :: params.map
            (Renaming.lines f).param)) fun _ => rfl
  | paramEnd g params =>
      have hparams : Mode.relabel f (.block (.function g params.reverse)) =
          .block (.function (g.relabel f)
            (params.map (Renaming.lines f).param).reverse) := by
        rw [← List.map_reverse]
        rfl
      have hclose :=
        takeSymbol_relabel f ⟨.paramEnd g params, done, outer⟩ t .rparen
          .expectClosingParen (.block (.function g params.reverse))
      rw [hparams] at hclose
      obtain ⟨kind, text, line⟩ := t
      cases kind with
      | symbol s =>
          cases s with
          | comma => rfl
          | _ => exact hclose
      | _ => exact hclose
  | block owner => exact openBlock_relabel f ⟨.block owner, done, outer⟩ owner t
  | expr slot er =>
      exact advance_relabel f ⟨.expr slot er, done, outer⟩ slot er t

theorem foldlM_relabel (r : Reader) (ts : List Token) :
    (ts.map (Renaming.lines f).token).foldlM step (r.relabel f) =
      relabelResult f (relabel f) (ts.foldlM step r) := by
  induction ts generalizing r with
  | nil => rfl
  | cons t ts ih =>
      rw [List.map_cons, List.foldlM_cons, List.foldlM_cons, step_relabel]
      cases r.step t with
      | error e => rfl
      | ok r' => exact ih r'

/-! ## The end of the input -/

theorem statements?_relabel (r : Reader) :
    (r.relabel f).statements? = r.statements?.map (Renaming.lines f).stmts := by
  obtain ⟨mode, done, outer⟩ := r
  cases outer with
  | cons o outer => rfl
  | nil =>
      cases mode with
      | ready =>
          simp only [statements?, relabel, Option.map_some,
            Renaming.stmts_eq_map, List.map_reverse]
          rfl
      | branched arm earlier newline =>
          simp only [statements?, relabel, Option.map_some,
            Renaming.stmts_eq_map, List.map_reverse, List.map_cons,
            ← closeArms_relabel]
          rfl
      | _ => rfl

/-- On which line the end of the input is tried out makes no difference. -/
theorem finish?_eq (r : Reader) (line : Nat) :
    r.finish? = match r.step ⟨.newline, "\n", line⟩ with
      | .ok r => r.statements?
      | .error _ => none := by
  obtain ⟨mode, done, outer⟩ := r
  cases mode with
  | expr slot er =>
      obtain ⟨pending, nested, focus⟩ := er
      -- an operand may be followed by a line end only where no parenthesis is
      -- open
      cases focus with
      | operand => rfl
      | arguments g => rfl
      | name x =>
          match nested with
          | [] => cases slot <;> rfl
          | (.group, _) :: _ => rfl
          | (.call _ _, _) :: _ => rfl
      | value e =>
          match nested with
          | [] => cases slot <;> rfl
          | (.group, _) :: _ => rfl
          | (.call _ _, _) :: _ => rfl
  | _ => rfl

theorem finish?_relabel (r : Reader) :
    (r.relabel f).finish? = r.finish?.map (Renaming.lines f).stmts := by
  have hstep := step_relabel f r ⟨.newline, "\n", 0⟩
  rw [finish?_eq _ (f 0), finish?]
  simp only [Renaming.token, Renaming.lines] at hstep
  rw [hstep]
  cases r.step ⟨.newline, "\n", 0⟩ with
  | error e => rfl
  | ok r' => exact statements?_relabel f r'

end Reader

theorem getLast?_line_relabel {ts : List Token} (hne : ts ≠ []) :
    ((ts.map (Renaming.lines f).token).getLast?.map Token.line).getD 1 =
      f ((ts.getLast?.map Token.line).getD 1) := by
  rw [List.getLast?_map, List.getLast?_eq_some_getLast hne]
  rfl

/-- Reading tokens with other lines reads the same, with other lines. -/
theorem ofTokens_relabel (ts : List Token) :
    Program.ofTokens (ts.map (Renaming.lines f).token) =
      relabelResult f (Renaming.lines f).stmts (Program.ofTokens ts) := by
  by_cases hne : ts = []
  · subst hne
    rfl
  · have hfold := Reader.foldlM_relabel f .start ts
    have hstart : Reader.start.relabel f = .start := rfl
    rw [hstart] at hfold
    rw [Program.ofTokens, Program.ofTokens, hfold]
    cases ts.foldlM Reader.step Reader.start with
    | error e => rfl
    | ok r =>
        simp only [relabelResult, Reader.finish?_relabel,
          getLast?_line_relabel f hne]
        cases r.finish? <;> rfl

/-! ## Line feeds in front of a source text -/

theorem lexemes_of_first? {line : Nat} {c : Char} {rest : List Char}
    {k : Token.Kind} (hk : Token.Kind.first? (c :: rest) = some k) :
    lexemes line (c :: rest) =
      (lexemes
        (Lexeme.nextLine ⟨k, (c :: rest).take (k.width (c :: rest)), line⟩)
        ((c :: rest).drop (k.width (c :: rest)))).map
        (⟨k, (c :: rest).take (k.width (c :: rest)), line⟩ :: ·) := by
  rw [lexemes]
  split
  · next hnone =>
      rw [hk] at hnone
      cases hnone
  · next k' hk' =>
      rw [hk] at hk'
      cases hk'
      dsimp only
      split
      · next hls => rw [hls]; rfl
      · next he => rw [he]; rfl

theorem lexemes_of_first?_eq_none {line : Nat} {c : Char} {rest : List Char}
    (hk : Token.Kind.first? (c :: rest) = none) :
    lexemes line (c :: rest) = .error ⟨.unknownCharacter, line,
      some (String.ofList ((c :: rest).takeWhile (!isBlank ·)))⟩ := by
  rw [lexemes]
  split
  · rfl
  · next k hk' =>
      rw [hk] at hk'
      cases hk'

def Lexeme.relabel (l : Lexeme) : Lexeme :=
  { l with line := f l.line }

theorem tokens_relabel (ls : List Lexeme) :
    ((ls.map (Lexeme.relabel f)).filter (!·.kind.isTrivia)).map Lexeme.token =
      ((ls.filter (!·.kind.isTrivia)).map Lexeme.token).map
        (Renaming.lines f).token := by
  rw [List.filter_map, List.map_map, List.map_map]
  rfl

theorem Lexeme.nextLine_add (kind : Token.Kind) (piece : List Char)
    (line k : Nat) :
    nextLine ⟨kind, piece, line + k⟩ = nextLine ⟨kind, piece, line⟩ + k := by
  unfold nextLine
  by_cases hk : kind = .newline
  · rw [if_pos hk, if_pos hk]
    exact Nat.add_right_comm line k 1
  · rw [if_neg hk, if_neg hk]

/-- A text that begins further down is cut in the same way, further down. -/
theorem lexemes_add (k line : Nat) (cs : List Char) :
    lexemes (line + k) cs =
      relabelResult (· + k) (List.map (Lexeme.relabel (· + k)))
        (lexemes line cs) := by
  induction hn : cs.length using Nat.strongRecOn generalizing line cs with
  | _ n ih =>
      cases cs with
      | nil =>
          rw [lexemes, lexemes]
          rfl
      | cons c rest =>
          cases hkind : Token.Kind.first? (c :: rest) with
          | none =>
              rw [lexemes_of_first?_eq_none hkind,
                lexemes_of_first?_eq_none hkind]
              rfl
          | some kind =>
              have hwidth := Token.Kind.width_pos_of_first? hkind
              have hshorter :
                  ((c :: rest).drop (kind.width (c :: rest))).length < n := by
                rw [List.length_drop, hn]
                rw [List.length_cons] at hn
                omega
              rw [lexemes_of_first? hkind, lexemes_of_first? hkind,
                Lexeme.nextLine_add, ih _ hshorter _ _ rfl]
              exact relabelResult_map _ _ fun _ => rfl

theorem lexemes_newline (line : Nat) (cs : List Char) :
    lexemes line ('\n' :: cs) =
      (lexemes (line + 1) cs).map (⟨.newline, ['\n'], line⟩ :: ·) :=
  lexemes_of_first? rfl

def Diagnostic.relabel : Diagnostic → Diagnostic
  | .parsing e => .parsing (e.relabel f)
  | .running e => .running { e with line := f e.line }

end Quill
