import Quill.Proofs.Derivable

/-!
# What is read is derived

The other direction: every state of the reader spells out what it has read. The
tokens so far are cut along the state, block by block and layer by layer, and
each piece is derived by the nonterminal that the state holds its tree for. One
token keeps this, so a whole run does, and where the program may end the pieces
are the derivation.

Waiting operators are where the cut is not obvious. They stand with levels that
fall towards the outside, each with a left operand of its own level, so folding
them is a row of binary productions.
-/

namespace Quill

open Grammar

/-! ## Expressions -/

/-- The tokens of the waiting operators and their left operands. -/
inductive Pending.Spelled : List Token → List Pending → Prop
  | nil : Spelled [] []
  | cons {ts us : List Token} {p : Pending} {ps : List Pending} :
      Spelled ts ps → Below p.level ps → Level p.level us p.left →
      p.op.kind.level? = some p.level → Spelled (ts ++ us ++ [p.op]) (p :: ps)

theorem Pending.Spelled.fold {ts : List Token} {ps : List Pending}
    (h : Spelled ts ps) {us : List Token} {e : Expr} {n m : Nat}
    (he : Level m us e) (hps : Below m ps) (hm : m ≤ 6) (hn : n ≤ m) :
    ∃ ts' us', ts ++ us = ts' ++ us' ∧ Spelled ts' (Pending.fold n ps e).1 ∧
      Below n (Pending.fold n ps e).1 ∧
        Level n us' (Pending.fold n ps e).2 := by
  induction h generalizing us e m with
  | nil =>
      exact ⟨[], us, rfl, .nil,
        fun _ h => absurd h List.not_mem_nil, he.lower hn hm⟩
  | @cons ts ls p ps hts hbelow hleft hop ih =>
      have hlt : p.level < m := hps p (by simp)
      rw [Pending.fold]
      split
      · next hle =>
          -- The operand and what waits for it are one binary production.
          obtain ⟨s, hs, hkind⟩ := level?_eq_some_iff.1 hop
          have hbin := Level.binary hleft hs hkind (he.lower hlt hm)
          have h5 := level?_le hop
          obtain ⟨ts', us', heq, hrest⟩ := ih hbin hbelow (by omega) hle
          refine ⟨ts', us', ?_, hrest⟩
          rw [← heq]
          simp
      · next hle =>
          refine ⟨_, us, rfl, .cons hts hbelow hleft hop, ?_, he.lower hn hm⟩
          exact .cons (by omega) (hbelow.mono (by omega))

/-- Folding everything that waits gives an expression. -/
theorem Pending.Spelled.fold_zero {ts : List Token} {ps : List Pending}
    (h : Spelled ts ps) {us : List Token} {e : Expr} (he : Primary us e)
    (hps : Below 6 ps) : Level 0 (ts ++ us) (Pending.fold 0 ps e).2 := by
  obtain ⟨ts', us', heq, hts', hbelow, hlevel⟩ :=
    h.fold (.primary he) hps (Nat.le_refl 6) (Nat.zero_le 6)
  generalize (Pending.fold 0 ps e).1 = waiting at hts' hbelow
  cases hts' with
  | nil =>
      rw [heq]
      exact hlevel
  | cons => exact absurd (hbelow _ List.mem_cons_self) (Nat.not_lt_zero _)

theorem Pending.Spelled.below_six {ts : List Token} {ps : List Pending}
    (h : Spelled ts ps) : Below 6 ps := by
  cases h with
  | nil => exact fun _ h => absurd h List.not_mem_nil
  | cons _ hbelow _ hop =>
      have h5 := level?_le hop
      exact .cons (by omega) (hbelow.mono (by omega))

/-- Arguments with a comma after each, the latest first. -/
inductive ArgsBefore : List Token → List Expr → Prop
  | nil : ArgsBefore [] []
  | cons {c : Token} {ts us : List Token} {e : Expr} {es : List Expr} :
      ArgsBefore ts es → Level 0 us e → c.kind = .symbol .comma →
      ArgsBefore (ts ++ us ++ [c]) (e :: es)

theorem ArgsBefore.args {ts us : List Token} {es fs : List Expr}
    (h : ArgsBefore ts es) (hargs : Args us fs) :
    Args (ts ++ us) (es.reverse ++ fs) := by
  induction h generalizing us fs with
  | nil => exact hargs
  | cons _ he hc ih =>
      have h := ih (.more he hc hargs)
      simpa using h

/-- The tokens of the open layers: for each, what waits around it and what opens
it. -/
inductive Layers : List Token → List (Opening × List Pending) → Prop
  | nil : Layers [] []
  | group {lp : Token} {ts us : List Token} {ps : List Pending}
      {nested : List (Opening × List Pending)} :
      Layers ts nested → Pending.Spelled us ps → lp.kind = .symbol .lparen →
      Layers (ts ++ us ++ [lp]) ((.group, ps) :: nested)
  | call {lp : Token} {f : Ident} {ts us vs : List Token} {args : List Expr}
      {ps : List Pending} {nested : List (Opening × List Pending)} :
      Layers ts nested → Pending.Spelled us ps → lp.kind = .symbol .lparen →
      ArgsBefore vs args →
      Layers (ts ++ us ++ f.token :: lp :: vs) ((.call f args, ps) :: nested)

inductive Focus.Spelled : List Token → Focus → Prop
  | operand : Spelled [] .operand
  | name (x : Ident) : Spelled [x.token] (.name x)
  | arguments {f : Ident} {lp : Token} :
      lp.kind = .symbol .lparen → Spelled [f.token, lp] (.arguments f)
  | value {ts : List Token} {e : Expr} : Primary ts e → Spelled ts (.value e)

namespace ExprReader

/-- The tokens that the reader has read. -/
inductive Spelled : List Token → ExprReader → Prop
  | cut {ts us vs : List Token} {pending : List Pending}
      {nested : List (Opening × List Pending)} {focus : Focus} :
      Layers ts nested → Pending.Spelled us pending → Focus.Spelled vs focus →
      Spelled (ts ++ us ++ vs) ⟨pending, nested, focus⟩

theorem Spelled.cast {ts us : List Token} {r : ExprReader} (h : Spelled ts r)
    (heq : us = ts) : Spelled us r :=
  heq ▸ h

theorem spelled_start : Spelled [] start :=
  (Spelled.cut .nil .nil .operand).cast rfl

/-- One more token is read, or the expression was complete before it. -/
def Progress.Spelled (ts : List Token) (t : Token) : Progress → Prop
  | .reading r => ExprReader.Spelled (ts ++ [t]) r
  | .finished e => Level 0 ts e

theorem spelled_takeOperand {ts us : List Token} {pending : List Pending}
    {nested : List (Opening × List Pending)} {focus : Focus}
    {r : ExprReader} {t : Token} (hlayers : Layers ts nested)
    (hpending : Pending.Spelled us pending)
    (h : takeOperand ⟨pending, nested, focus⟩ t = .ok r) :
    Spelled (ts ++ us ++ [t]) r := by
  rw [takeOperand] at h
  split at h
  · next v hv =>
      cases h
      obtain rfl := Literal.ofToken?_eq_some_iff.1 hv
      exact .cut hlayers hpending (.value (.literal v))
  · split at h
    · next hk =>
        cases h
        obtain ⟨kind, text, line⟩ := t
        cases hk
        exact .cut hlayers hpending (.name ⟨text, line⟩)
    · next hk =>
        cases h
        exact (Spelled.cut (.group hlayers hpending hk) .nil .operand).cast
          (by simp)
    · cases h

theorem spelled_takeAfter {ts us vs : List Token} {pending : List Pending}
    {nested : List (Opening × List Pending)} {focus : Focus}
    {e : Expr} {t : Token} {p : Progress} (hlayers : Layers ts nested)
    (hpending : Pending.Spelled us pending) (he : Primary vs e)
    (h : takeAfter ⟨pending, nested, focus⟩ e t = .ok p) :
    p.Spelled (ts ++ us ++ vs) t := by
  have hwhole := hpending.fold_zero he hpending.below_six
  rw [takeAfter] at h
  split at h
  · next n hlevel =>
      have h5 := level?_le hlevel
      obtain ⟨us', vs', heq, hus', hbelow, hleft⟩ :=
        hpending.fold (n := n) (.primary he) hpending.below_six
          (Nat.le_refl 6) (by omega)
      cases h
      refine (Spelled.cut hlayers (.cons hus' hbelow hleft hlevel)
        .operand).cast ?_
      rw [List.append_assoc ts us vs, heq]
      simp
  · generalize (Pending.fold 0 pending e).2 = w at hwhole h
    cases hlayers with
    | nil =>
        cases h
        exact hwhole
    | group hlayers hps hlp =>
        simp only at h
        split at h
        · next hrp =>
            cases h
            exact (Spelled.cut hlayers hps
              (.value (.group hlp hwhole hrp))).cast (by simp)
        · cases h
    | @call lp f ts us' vs' args ps nested hlayers hps hlp hargs =>
        simp only at h
        split at h
        · next hc =>
            cases h
            exact (Spelled.cut (.call hlayers hps hlp (.cons hargs hwhole hc))
              .nil .operand).cast (by simp)
        · next hrp =>
            cases h
            have hall := hargs.args (.one hwhole)
            rw [← List.reverse_cons] at hall
            exact (Spelled.cut hlayers hps
              (.value (.call (.applied hlp hall hrp)))).cast (by simp)
        · cases h

theorem map_eq_ok {x : Except SyntaxError ExprReader} {p : Progress}
    (h : x.map .reading = .ok p) : ∃ r, x = .ok r ∧ p = .reading r := by
  match x, h with
  | .ok r, h =>
      cases h
      exact ⟨r, rfl, rfl⟩

theorem Spelled.step {ts : List Token} {r : ExprReader} {t : Token}
    {p : Progress} (hr : Spelled ts r) (h : r.step t = .ok p) :
    p.Spelled ts t := by
  obtain ⟨hlayers, hpending, hfocus⟩ := hr
  cases hfocus with
  | operand =>
      obtain ⟨r', hr', rfl⟩ := map_eq_ok h
      exact (spelled_takeOperand hlayers hpending hr').cast (by simp)
  | name x =>
      simp only [ExprReader.step] at h
      split at h
      · next hlp =>
          cases h
          exact (Spelled.cut hlayers hpending (.arguments hlp)).cast (by simp)
      · exact spelled_takeAfter hlayers hpending (.var x) h
  | arguments hlp =>
      simp only [ExprReader.step] at h
      split at h
      · next hrp =>
          cases h
          exact (Spelled.cut hlayers hpending
            (.value (.call (.bare hlp hrp)))).cast (by simp)
      · obtain ⟨r', hr', rfl⟩ := map_eq_ok h
        exact (spelled_takeOperand (.call hlayers hpending hlp .nil) .nil
          hr').cast (by simp)
  | value he => exact spelled_takeAfter hlayers hpending he h

end ExprReader

/-! ## Heads of statements

What stands of a statement before the expression or the block that is being
read. -/

/-- Parameters with a comma after each, the latest first. -/
inductive ParamsBefore : List Token → List Param → Prop
  | nil : ParamsBefore [] []
  | cons (p : Param) {c : Token} {ts : List Token} {ps : List Param} :
      ParamsBefore ts ps → c.kind = .symbol .comma →
      ParamsBefore (ts ++ [p.type.token, p.name.token, c]) (p :: ps)

theorem ParamsBefore.params {ts us : List Token} {ps qs : List Param}
    (h : ParamsBefore ts ps) (hparams : Params us qs) :
    Params (ts ++ us) (ps.reverse ++ qs) := by
  induction h generalizing us qs with
  | nil => exact hparams
  | cons p _ hc ih =>
      have h := ih (.more p hc hparams)
      simpa using h

mutual

/-- A conditional up to the `if` of its next arm. -/
inductive BranchHead : List Token → List Arm → Prop
  | first {kw : Token} : kw.kind = .keyword .if → BranchHead [kw] []
  | next {kw : Token} {ts : List Token} {arm : Arm} {earlier : List Arm} :
      ElseHead ts arm earlier → kw.kind = .keyword .if →
      BranchHead (ts ++ [kw]) (arm :: earlier)

/-- A conditional up to the end of its arm `arm`. -/
inductive Arms : List Token → Arm → List Arm → Prop
  | arm {ts us vs : List Token} {c : Expr} {body : List Stmt}
      {earlier : List Arm} :
      BranchHead ts earlier → Level 0 us c → Block vs body →
      Arms (ts ++ us ++ vs) (c, body) earlier

/-- A conditional up to the `else` after its arm `arm`. -/
inductive ElseHead : List Token → Arm → List Arm → Prop
  | read {el : Token} {ts nl : List Token} {arm : Arm} {earlier : List Arm} :
      Arms ts arm earlier → Newlines nl → el.kind = .keyword .else →
      ElseHead (ts ++ nl ++ [el]) arm earlier

end

mutual

theorem BranchHead.statement {ts us : List Token}
    {earlier : List Arm} {c : Expr} {body : List Stmt} {next : ElseChain}
    (h : BranchHead ts earlier) (htail : IfTail us c body next) :
    Statement (ts ++ us) (closeArms next (c, body) earlier) := by
  match h with
  | .first hkw => exact .cond hkw htail
  | .next (.read harms hnl hel) hkw =>
      have hs := Arms.statement harms (.elseIf hnl hel hkw htail)
      simpa [closeArms] using hs

theorem Arms.statement {ts us : List Token} {arm : Arm} {earlier : List Arm}
    {next : ElseChain} (h : Arms ts arm earlier) (htail : ElseTail us next) :
    Statement (ts ++ us) (closeArms next arm earlier) := by
  match h with
  | .arm hhead hc hbody =>
      have hs := BranchHead.statement hhead (.tail hc hbody htail)
      simpa using hs

end

theorem Arms.last {ts : List Token} {arm : Arm} {earlier : List Arm}
    (h : Arms ts arm earlier) :
    ∃ us rb, ts = us ++ [rb] ∧ rb.kind = .symbol .rbrace := by
  cases h with
  | @arm ts us vs c body earlier _ _ hbody =>
      cases hbody with
      | @braces lb rb vs ss _ _ hrb =>
          exact ⟨ts ++ us ++ (lb :: vs), rb, by simp, hrb⟩

/-- The tokens of a statement before the expression in this place. -/
inductive Slot.Spelled : List Token → Slot → Prop
  | init {eq : Token} (ty : TypeName) (x : Ident) :
      eq.kind = .symbol .assign → Spelled [ty.token, x.token, eq] (.init ty x)
  | value {eq : Token} (x : Ident) :
      eq.kind = .symbol .assign → Spelled [x.token, eq] (.value x)
  | result {kw : Token} :
      kw.kind = .keyword .return → Spelled [kw] (.result kw.line)
  | branch {ts : List Token} {earlier : List Arm} :
      BranchHead ts earlier → Spelled ts (.branch earlier)
  | loop {kw : Token} : kw.kind = .keyword .while → Spelled [kw] .loop
  | argument {f : Ident} {lp : Token} {ts : List Token} {args : List Expr} :
      lp.kind = .symbol .lparen → ArgsBefore ts args →
      Spelled (f.token :: lp :: ts) (.argument f args)

/-- The tokens of a statement before its block. -/
inductive Owner.Spelled : List Token → Owner → Prop
  | function {ts : List Token} {f : Ident} {ps : List Param} :
      FunctionHead ts f ps → Spelled ts (.function f ps)
  | branch {ts us : List Token} {c : Expr} {earlier : List Arm} :
      BranchHead ts earlier → Level 0 us c →
        Spelled (ts ++ us) (.branch c earlier)
  | otherwise {ts : List Token} {arm : Arm} {earlier : List Arm} :
      ElseHead ts arm earlier → Spelled ts (.otherwise arm earlier)
  | loop {kw : Token} {ts : List Token} {c : Expr} :
      kw.kind = .keyword .while → Level 0 ts c → Spelled (kw :: ts) (.loop c)

/-- The tokens of the statement that is being read. -/
inductive Mode.Spelled : List Token → Mode → Prop
  | ready : Spelled [] .ready
  | branched {ts nl : List Token} {arm : Arm} {earlier : List Arm}
      {newline : Bool} :
      Arms ts arm earlier → Newlines nl → (newline = true ↔ nl ≠ []) →
      Spelled (ts ++ nl) (.branched arm earlier newline)
  | elseRead {ts : List Token} {arm : Arm} {earlier : List Arm} :
      ElseHead ts arm earlier → Spelled ts (.elseRead arm earlier)
  | typed (ty : TypeName) : Spelled [ty.token] (.typed ty)
  | typedName (ty : TypeName) (x : Ident) :
      Spelled [ty.token, x.token] (.typedName ty x)
  | named (x : Ident) : Spelled [x.token] (.named x)
  | calling {f : Ident} {lp : Token} :
      lp.kind = .symbol .lparen → Spelled [f.token, lp] (.calling f)
  | returning {kw : Token} :
      kw.kind = .keyword .return → Spelled [kw] (.returning kw.line)
  | function {fn : Token} : fn.kind = .keyword .fun → Spelled [fn] .function
  | functionName {fn : Token} {f : Ident} :
      fn.kind = .keyword .fun → Spelled [fn, f.token] (.functionName f)
  | params {fn lp : Token} {f : Ident} :
      fn.kind = .keyword .fun → lp.kind = .symbol .lparen →
        Spelled [fn, f.token, lp] (.params f)
  | paramType {fn lp : Token} {f : Ident} {ts : List Token} {ps : List Param} :
      fn.kind = .keyword .fun → lp.kind = .symbol .lparen → ParamsBefore ts ps →
      Spelled (fn :: f.token :: lp :: ts) (.paramType f ps)
  | paramName {fn lp : Token} {f : Ident} {ts : List Token} {ps : List Param}
      {ty : TypeName} :
      fn.kind = .keyword .fun → lp.kind = .symbol .lparen → ParamsBefore ts ps →
      Spelled (fn :: f.token :: lp :: (ts ++ [ty.token])) (.paramName f ps ty)
  | paramEnd {fn lp : Token} {f : Ident} {ts : List Token} {p : Param}
      {ps : List Param} :
      fn.kind = .keyword .fun → lp.kind = .symbol .lparen → ParamsBefore ts ps →
      Spelled (fn :: f.token :: lp :: (ts ++ [p.type.token, p.name.token]))
        (.paramEnd f (p :: ps))
  | block {ts : List Token} {owner : Owner} :
      owner.Spelled ts → Spelled ts (.block owner)
  | expr {ts us : List Token} {slot : Slot} {er : ExprReader} :
      slot.Spelled ts → er.Spelled us → Spelled (ts ++ us) (.expr slot er)

/-! ## Bodies -/

/-- Statements with line ends after each, the latest first, and line ends
before. -/
inductive LinesBefore : List Token → List Stmt → Prop
  | nil {nl : List Token} : Newlines nl → LinesBefore nl []
  | cons {ts us nl : List Token} {s : Stmt} {ss : List Stmt} :
      LinesBefore ts ss → Statement us s → Newlines nl → nl ≠ [] →
      LinesBefore (ts ++ us ++ nl) (s :: ss)

theorem Grammar.Newlines.snoc {t : Token} {nl : List Token} (h : Newlines nl)
    (ht : t.kind = .newline) : Newlines (nl ++ [t]) := by
  intro u hu
  rcases List.mem_append.1 hu with hu | hu
  · exact h u hu
  · exact newlines_singleton ht u hu

theorem LinesBefore.newline {t : Token} {ts : List Token} {ss : List Stmt}
    (h : LinesBefore ts ss) (ht : t.kind = .newline) :
    LinesBefore (ts ++ [t]) ss := by
  cases h with
  | nil hnl => exact .nil (hnl.snoc ht)
  | cons hlines hs hnl hne =>
      rw [List.append_assoc]
      exact .cons hlines hs (hnl.snoc ht) (by simp)

theorem LinesBefore.body_statements {ts us after : List Token}
    {ss rest : List Stmt} (h : LinesBefore ts ss) (hrest : Statements us rest)
    (hafter : Newlines after) :
    Body (ts ++ us ++ after) (ss.reverse ++ rest) := by
  induction h generalizing us rest with
  | nil hnl => exact .statements hnl hrest hafter
  | cons _ hs hnl hne ih =>
      have h := ih (.more hs hnl hne hrest)
      simpa using h

theorem LinesBefore.body {ts : List Token} {ss : List Stmt}
    (h : LinesBefore ts ss) : Body ts ss.reverse := by
  cases h with
  | nil hnl => exact .empty hnl
  | cons hlines hs hnl _ =>
      rw [List.reverse_cons]
      exact hlines.body_statements (.one hs) hnl

theorem LinesBefore.body_statement {ts us : List Token} {s : Stmt}
    {ss : List Stmt} (h : LinesBefore ts ss) (hs : Statement us s) :
    Body (ts ++ us) (s :: ss).reverse := by
  have hbody := h.body_statements (.one hs) newlines_nil
  rw [List.append_nil] at hbody
  rw [List.reverse_cons]
  exact hbody

/-- A line end at the end of the lines is not needed there. -/
theorem LinesBefore.body_of_snoc {t : Token} {ts : List Token} {ss : List Stmt}
    (h : LinesBefore (ts ++ [t]) ss) : Body ts ss.reverse := by
  generalize hts : ts ++ [t] = lines at h
  cases h with
  | nil hnl =>
      subst hts
      exact .empty fun u hu => hnl u (List.mem_append_left _ hu)
  | @cons ts' us nl s ss hlines hs hnl hne =>
      obtain ⟨nl', u, rfl⟩ := (List.eq_nil_or_concat nl).resolve_left hne
      rw [List.concat_eq_append] at hts hnl
      rw [← List.append_assoc] at hts
      obtain ⟨rfl, -⟩ := List.append_inj' hts rfl
      rw [List.reverse_cons]
      exact hlines.body_statements (.one hs) fun v hv =>
        hnl v (List.mem_append_left _ hv)

/-- The tokens of the open blocks: for each, the statements before its owner,
the owner and the brace. -/
inductive Outer : List Token → List (Owner × List Stmt) → Prop
  | nil : Outer [] []
  | cons {lb : Token} {ts us vs : List Token} {owner : Owner} {done : List Stmt}
      {outer : List (Owner × List Stmt)} :
      Outer ts outer → LinesBefore us done → owner.Spelled vs →
        lb.kind = .symbol .lbrace →
      Outer (ts ++ us ++ vs ++ [lb]) ((owner, done) :: outer)

/-! ## The reader -/

namespace Reader

/-- The tokens that the reader has read. -/
inductive Spelled : List Token → Reader → Prop
  | ended {ts us vs : List Token} {s : Stmt} {done : List Stmt}
      {outer : List (Owner × List Stmt)} :
      Outer ts outer → LinesBefore us done → Statement vs s →
      Spelled (ts ++ us ++ vs) ⟨.ended, s :: done, outer⟩
  | within {ts us vs : List Token} {mode : Mode} {done : List Stmt}
      {outer : List (Owner × List Stmt)} :
      Outer ts outer → LinesBefore us done → mode.Spelled vs →
      Spelled (ts ++ us ++ vs) ⟨mode, done, outer⟩

theorem Spelled.cast {ts us : List Token} {r : Reader} (h : Spelled ts r)
    (heq : us = ts) : Spelled us r :=
  heq ▸ h

theorem spelled_start : Spelled [] start :=
  (Spelled.within .nil (.nil newlines_nil) .ready).cast rfl

theorem spelled_closeBlock {ts us : List Token} {mode : Mode} {done : List Stmt}
    {outer : List (Owner × List Stmt)} {t : Token} {r : Reader}
    (houter : Outer ts outer) (hbody : Body us done.reverse)
    (ht : t.kind = .symbol .rbrace)
    (h : closeBlock ⟨mode, done, outer⟩ t = .ok r) :
    Spelled (ts ++ us ++ [t]) r := by
  cases houter with
  | nil => cases h
  | cons houter hlines howner hlb =>
      have hblock := Block.braces hlb hbody ht
      cases howner with
      | function hf =>
          cases h
          exact (Spelled.ended houter hlines (.function hf hblock)).cast
            (by simp)
      | branch hhead hc =>
          cases h
          have harms := Arms.arm hhead hc hblock
          exact (Spelled.within houter hlines
            (.branched harms newlines_nil (by simp))).cast (by simp)
      | otherwise helse =>
          cases h
          cases helse with
          | read harms hnl hel =>
              have hs := harms.statement (.otherwise hnl hel hblock)
              exact (Spelled.ended houter hlines hs).cast (by simp)
      | loop hkw hc =>
          cases h
          exact (Spelled.ended houter hlines (.loop hkw hc hblock)).cast
            (by simp)

theorem spelled_openBlock {ts us vs : List Token} {mode : Mode}
    {done : List Stmt} {outer : List (Owner × List Stmt)} {owner : Owner}
    {t : Token} {r : Reader} (houter : Outer ts outer)
    (hlines : LinesBefore us done) (howner : owner.Spelled vs)
    (h : openBlock ⟨mode, done, outer⟩ owner t = .ok r) :
    Spelled (ts ++ us ++ vs ++ [t]) r := by
  rw [openBlock] at h
  split at h
  · next hlb =>
      cases h
      exact (Spelled.within (.cons houter hlines howner hlb) (.nil newlines_nil)
        .ready).cast (by simp)
  · cases h

theorem spelled_separate {ts us vs : List Token} {mode : Mode} {s : Stmt}
    {done : List Stmt} {outer : List (Owner × List Stmt)} {t : Token}
    {r : Reader} (houter : Outer ts outer) (hlines : LinesBefore us done)
    (hs : Statement vs s) (h : separate ⟨mode, s :: done, outer⟩ t = .ok r) :
    Spelled (ts ++ us ++ vs ++ [t]) r := by
  rw [separate] at h
  split at h
  · next hnl =>
      cases h
      have hlines' :=
        LinesBefore.cons hlines hs (newlines_singleton hnl) (by simp)
      exact (Spelled.within houter hlines' .ready).cast (by simp)
  · next hrb =>
      exact (spelled_closeBlock houter (hlines.body_statement hs) hrb h).cast
        (by simp)
  · cases h

theorem spelled_begin {ts us : List Token} {mode : Mode} {done : List Stmt}
    {outer : List (Owner × List Stmt)} {t : Token} {r : Reader}
    (houter : Outer ts outer) (hlines : LinesBefore us done)
    (h : begin ⟨mode, done, outer⟩ t = .ok r) :
    Spelled (ts ++ us ++ [t]) r := by
  rw [begin] at h
  split at h
  · next ty hty =>
      cases h
      obtain rfl := TypeName.ofToken?_eq_some_iff.1 hty
      exact .within houter hlines (.typed ty)
  · split at h
    · next hnl =>
        cases h
        exact (Spelled.within houter (hlines.newline hnl) .ready).cast (by simp)
    · next hrb => exact spelled_closeBlock houter hlines.body hrb h
    · next hfn =>
        cases h
        exact .within houter hlines (.function hfn)
    · next hname =>
        cases h
        obtain ⟨kind, text, line⟩ := t
        cases hname
        exact .within houter hlines (.named ⟨text, line⟩)
    · next hkw =>
        cases h
        exact .within houter hlines (.returning hkw)
    · next hkw =>
        cases h
        exact .within houter hlines
          (.expr (.branch (.first hkw)) ExprReader.spelled_start)
    · next hkw =>
        cases h
        exact .within houter hlines (.expr (.loop hkw) ExprReader.spelled_start)
    · cases h

theorem spelled_fill {ts us vs ws : List Token} {mode : Mode} {done : List Stmt}
    {outer : List (Owner × List Stmt)} {slot : Slot} {e : Expr} {t : Token}
    {r : Reader} (houter : Outer ts outer) (hlines : LinesBefore us done)
    (hslot : slot.Spelled vs) (he : Level 0 ws e)
    (h : fill ⟨mode, done, outer⟩ slot e t = .ok r) :
    Spelled (ts ++ us ++ (vs ++ ws) ++ [t]) r := by
  cases hslot with
  | init ty x heq => exact spelled_separate houter hlines (.declare heq he) h
  | value x heq => exact spelled_separate houter hlines (.assign heq he) h
  | result hkw => exact spelled_separate houter hlines (.yield hkw he) h
  | branch hhead => exact spelled_openBlock houter hlines (.branch hhead he) h
  | loop hkw => exact spelled_openBlock houter hlines (.loop hkw he) h
  | argument hlp hargs =>
      simp only [fill] at h
      split at h
      · next hc =>
          cases h
          exact (Spelled.within houter hlines
            (.expr (.argument hlp (.cons hargs he hc))
              ExprReader.spelled_start)).cast (by simp)
      · next hrp =>
          cases h
          have hall := hargs.args (.one he)
          rw [← List.reverse_cons] at hall
          exact (Spelled.ended houter hlines
            (.call (.applied hlp hall hrp))).cast (by simp)
      · cases h

theorem spelled_advance {ts us vs ws : List Token} {mode : Mode}
    {done : List Stmt} {outer : List (Owner × List Stmt)} {slot : Slot}
    {er : ExprReader} {t : Token} {r : Reader} (houter : Outer ts outer)
    (hlines : LinesBefore us done) (hslot : slot.Spelled vs)
    (her : er.Spelled ws) (h : advance ⟨mode, done, outer⟩ slot er t = .ok r) :
    Spelled (ts ++ us ++ (vs ++ ws) ++ [t]) r := by
  rw [advance] at h
  split at h
  · cases h
  · next er' hstep =>
      cases h
      have her' := her.step hstep
      exact (Spelled.within houter hlines (.expr hslot her')).cast (by simp)
  · next e hstep => exact spelled_fill houter hlines hslot (her.step hstep) h

theorem takeName_eq_ok {r r' : Reader} {t : Token} {mode : Ident → Mode}
    (h : r.takeName t mode = .ok r') :
    ∃ x : Ident, t = x.token ∧ r' = { r with mode := mode x } := by
  rw [takeName] at h
  split at h
  · next hname =>
      cases h
      obtain ⟨kind, text, line⟩ := t
      cases hname
      exact ⟨⟨text, line⟩, rfl, rfl⟩
  · cases h

theorem takeSymbol_eq_ok {r r' : Reader} {t : Token} {s : Symbol}
    {fault : SyntaxFault} {mode : Mode}
    (h : r.takeSymbol t s fault mode = .ok r') :
    t.kind = .symbol s ∧ r' = { r with mode := mode } := by
  rw [takeSymbol] at h
  split at h
  · next hk =>
      cases h
      exact ⟨hk, rfl⟩
  · cases h

theorem takeParamType_eq_ok {r r' : Reader} {t : Token} {f : Ident}
    {params : List Param} (h : r.takeParamType f params t = .ok r') :
    ∃ ty : TypeName, t = ty.token ∧
      r' = { r with mode := .paramName f params ty } := by
  rw [takeParamType] at h
  split at h
  · next ty hty =>
      cases h
      exact ⟨ty, (TypeName.ofToken?_eq_some_iff.1 hty).symm, rfl⟩
  · cases h

/-- The step lemma: one token more is read, and one token more is spelled. -/
theorem Spelled.step {ts : List Token} {r r' : Reader} {t : Token}
    (hr : Spelled ts r) (h : r.step t = .ok r') : Spelled (ts ++ [t]) r' := by
  cases hr with
  | ended houter hlines hs => exact spelled_separate houter hlines hs h
  | within houter hlines hmode =>
      cases hmode with
      | ready => exact (spelled_begin houter hlines h).cast (by simp)
      | branched harms hnl hnewline =>
          simp only [Reader.step] at h
          split at h
          · next ht =>
              cases h
              exact (Spelled.within houter hlines
                (.branched harms (hnl.snoc ht) (by simp))).cast (by simp)
          · next ht =>
              cases h
              exact (Spelled.within houter hlines
                (.elseRead (.read harms hnl ht))).cast (by simp)
          · have hs := harms.statement .none
            rw [List.append_nil] at hs
            split at h
            · next htrue =>
                -- The line ends after the block were the end of the statement.
                have hlines' := hlines.cons hs hnl (hnewline.1 htrue)
                exact (spelled_begin houter hlines' h).cast (by simp)
            · next hfalse =>
                have hnil : _ = [] :=
                  Classical.not_not.1 fun hne => hfalse (hnewline.2 hne)
                subst hnil
                exact (spelled_separate houter hlines hs h).cast (by simp)
      | elseRead helse =>
          simp only [Reader.step] at h
          split at h
          · next hkw =>
              cases h
              exact (Spelled.within houter hlines
                (.expr (.branch (.next helse hkw))
                  ExprReader.spelled_start)).cast (by simp)
          · exact spelled_openBlock houter hlines (.otherwise helse) h
      | typed ty =>
          obtain ⟨x, rfl, rfl⟩ := takeName_eq_ok h
          exact (Spelled.within houter hlines (.typedName ty x)).cast (by simp)
      | typedName ty x =>
          obtain ⟨heq, rfl⟩ := takeSymbol_eq_ok h
          exact (Spelled.within houter hlines
            (.expr (.init ty x heq) ExprReader.spelled_start)).cast (by simp)
      | named x =>
          simp only [Reader.step] at h
          split at h
          · next hlp =>
              cases h
              exact (Spelled.within houter hlines (.calling hlp)).cast (by simp)
          · obtain ⟨heq, rfl⟩ := takeSymbol_eq_ok h
            exact (Spelled.within houter hlines
              (.expr (.value x heq) ExprReader.spelled_start)).cast (by simp)
      | calling hlp =>
          simp only [Reader.step] at h
          split at h
          · next hrp =>
              cases h
              exact (Spelled.ended houter hlines (.call (.bare hlp hrp))).cast
                (by simp)
          · exact (spelled_advance houter hlines (.argument hlp .nil)
              ExprReader.spelled_start h).cast (by simp)
      | returning hkw =>
          simp only [Reader.step] at h
          split at h
          · exact spelled_separate houter hlines (.leave hkw) h
          · exact spelled_separate houter hlines (.leave hkw) h
          · exact (spelled_advance houter hlines (.result hkw)
              ExprReader.spelled_start h).cast (by simp)
      | function hfn =>
          obtain ⟨f, rfl, rfl⟩ := takeName_eq_ok h
          exact (Spelled.within houter hlines (.functionName hfn)).cast
            (by simp)
      | functionName hfn =>
          obtain ⟨hlp, rfl⟩ := takeSymbol_eq_ok h
          exact (Spelled.within houter hlines (.params hfn hlp)).cast (by simp)
      | params hfn hlp =>
          simp only [Reader.step] at h
          split at h
          · next hrp =>
              cases h
              exact (Spelled.within houter hlines
                (.block (.function (.bare hfn hlp hrp)))).cast (by simp)
          · obtain ⟨ty, rfl, rfl⟩ := takeParamType_eq_ok h
            exact (Spelled.within houter hlines (.paramName hfn hlp .nil)).cast
              (by simp)
      | paramType hfn hlp hparams =>
          obtain ⟨ty, rfl, rfl⟩ := takeParamType_eq_ok h
          exact (Spelled.within houter hlines (.paramName hfn hlp hparams)).cast
            (by simp)
      | paramName hfn hlp hparams =>
          simp only [Reader.step] at h
          obtain ⟨x, rfl, rfl⟩ := takeName_eq_ok h
          exact (Spelled.within houter hlines (.paramEnd hfn hlp hparams)).cast
            (by simp)
      | @paramEnd fn lp f ts p ps hfn hlp hparams =>
          simp only [Reader.step] at h
          split at h
          · next hc =>
              cases h
              exact (Spelled.within houter hlines
                (.paramType hfn hlp (.cons p hparams hc))).cast (by simp)
          · obtain ⟨hrp, rfl⟩ := takeSymbol_eq_ok h
            have hall := hparams.params (.one p)
            rw [← List.reverse_cons] at hall
            exact (Spelled.within houter hlines
              (.block (.function (.withParams hfn hlp hall hrp)))).cast
              (by simp)
      | block howner => exact spelled_openBlock houter hlines howner h
      | expr hslot her => exact spelled_advance houter hlines hslot her h

/-- The run lemma: whatever is read is spelled. -/
theorem Spelled.reads {ts us : List Token} {r r' : Reader} (hr : Spelled ts r)
    (h : r.Reads us r') : Spelled (ts ++ us) r' := by
  induction us generalizing ts r with
  | nil =>
      cases h
      exact hr.cast (by simp)
  | cons t us ih =>
      rw [Reads, List.foldlM_cons] at h
      cases hstep : r.step t with
      | error e =>
          rw [hstep] at h
          cases h
      | ok m =>
          rw [hstep] at h
          exact (ih (hr.step hstep) h).cast (by simp)

/-- After a line end, a reader outside every block has read whole lines. -/
theorem Spelled.lines {ts : List Token} {t : Token} {r : Reader} {p : Program}
    (hr : Spelled (ts ++ [t]) r) (ht : t.kind = .newline)
    (h : r.statements? = some p) : LinesBefore (ts ++ [t]) p.reverse := by
  obtain ⟨mode, done, outer⟩ := r
  rw [statements?] at h
  split at h
  · next houter hmode =>
      cases h
      cases houter
      cases hmode
      generalize ts ++ [t] = lines at hr
      cases hr with
      | within houter hlines hmode =>
          cases houter
          cases hmode
          simpa using hlines
  · next arm earlier newline houter hmode =>
      cases h
      cases houter
      cases hmode
      generalize hts : ts ++ [t] = lines at hr
      cases hr with
      | within houter hlines hmode =>
          cases houter
          cases hmode with
          | @branched us nl _ _ _ harms hnl hnewline =>
              have hs := harms.statement .none
              rw [List.append_nil] at hs
              by_cases hne : nl = []
              · subst hne
                obtain ⟨vs, rb, rfl, hrb⟩ := harms.last
                rw [List.nil_append, List.append_nil, ← List.append_assoc]
                  at hts
                obtain ⟨-, hlast⟩ := List.append_inj' hts rfl
                cases hlast
                rw [ht] at hrb
                cases hrb
              · have hall := hlines.cons hs hnl hne
                simpa using hall
  · cases h

/-- Where the program may end, the reader has read a derivation of it. -/
theorem Spelled.body {ts : List Token} {r : Reader} {p : Program}
    (hr : Spelled ts r) (h : r.finish? = some p) : Body ts p := by
  rw [finish?] at h
  split at h
  · next r' hstep =>
      have hlines := (hr.step hstep).lines rfl h
      rw [← List.reverse_reverse p]
      exact hlines.body_of_snoc
  · cases h

end Reader

/-- The reader accepts nothing but what the grammar derives. -/
theorem derives_of_ofTokens_eq_ok {ts : List Token} {p : Program}
    (h : Program.ofTokens ts = .ok p) : Derives ts p := by
  rw [Program.ofTokens] at h
  split at h
  · cases h
  · next r hreads =>
      have hr := Reader.spelled_start.reads hreads
      split at h
      · next q hq =>
          cases h
          exact hr.body hq
      · cases h

/-- The reader accepts exactly the grammar and builds the grammar's tree. The
tokens in the tree are tokens of the text, in its order, and no text has two
trees. -/
theorem ofTokens_eq_ok_iff_derives (ts : List Token) (p : Program) :
    (Program.ofTokens ts = .ok p ↔ Derives ts p) ∧
      (Derives ts p → (Stmt.listTokens p).Sublist ts) ∧
      ∀ q, Derives ts p → Derives ts q → p = q := by
  refine ⟨⟨derives_of_ofTokens_eq_ok, Derives.ofTokens_eq_ok⟩,
    Body.tokens_sublist, ?_⟩
  intro q hp hq
  have h := hp.ofTokens_eq_ok
  rw [hq.ofTokens_eq_ok] at h
  cases h
  rfl

end Quill
