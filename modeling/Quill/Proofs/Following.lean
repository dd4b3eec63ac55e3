import Quill.Proofs.Derivable
import Quill.Proofs.ViablePrefix
import Quill.Proofs.Productions

/-!
# Following a production with a reader

The productions take the tokens by calling each other; the reader takes them one
by one into a pushdown state. To compare them, a reader is put where a
production begins. If the production fails, reading on must come to the same
failure. If it is done, reading on must come to the same as for a reader behind
what it took, with its tree in place.

A reader decides some things a token later than a production does: whether a
name is a call, whether the block of an `if` has an `else`, where an expression
ends. Two readers that take the next token alike are therefore as good as one,
and the end of the tokens counts as a line end. This file says so for each place
where the two meet.
-/

namespace Quill

open Grammar Production

/-! ## Reading on -/

/-- The next token. The end of the tokens ends a line. -/
def ahead : List Token → Token
  | [] => ⟨.newline, "\n", 0⟩
  | t :: _ => t

namespace Reader

/-- What reading all of the tokens comes to. -/
def readAll (r : Reader) : List Token → Except Failure Program
  | [] => r.finish?.elim (.error .atEnd) .ok
  | t :: ts =>
    match r.step t with
    | .ok r => r.readAll ts
    | .error e => .error (.refused e)

variable {r r' : Reader} {t : Token} {ts : List Token}

theorem readAll_of_step_ok (h : r.step t = .ok r') :
    r.readAll (t :: ts) = r'.readAll ts := by
  simp only [readAll, h]

theorem readAll_of_step_error {e : SyntaxError} (h : r.step t = .error e) :
    r.readAll (t :: ts) = .error (.refused e) := by
  simp only [readAll, h]

/-- At the end of the tokens a reader that a line end does not suit has
failed. -/
theorem readAll_nil_of_step_error {e : SyntaxError}
    (h : r.step (ahead []) = .error e) : r.readAll [] = .error .atEnd := by
  have hfinish : r.finish? = none := by
    simp only [finish?, show r.step ⟨.newline, "\n", 0⟩ = .error e from h]
  rw [readAll, hfinish]
  rfl

/-- Readers that take the next token alike read alike. -/
theorem readAll_congr (h : r.step (ahead ts) = r'.step (ahead ts)) :
    r.readAll ts = r'.readAll ts := by
  cases ts with
  | nil =>
      have hstep : r.step ⟨.newline, "\n", 0⟩ = r'.step ⟨.newline, "\n", 0⟩ := h
      simp only [readAll, finish?, hstep]
  | cons t ts =>
      have hstep : r.step t = r'.step t := h
      simp only [readAll, hstep]

theorem Reads.readAll {us : List Token} (h : r.Reads ts r') :
    r.readAll (ts ++ us) = r'.readAll us := by
  induction ts generalizing r with
  | nil =>
      cases h
      rfl
  | cons t ts ih =>
      have hfold : (t :: ts).foldlM Reader.step r = .ok r' := h
      rw [List.foldlM_cons] at hfold
      cases hstep : r.step t with
      | error e =>
          rw [hstep] at hfold
          cases hfold
      | ok m =>
          rw [hstep] at hfold
          rw [List.cons_append, readAll_of_step_ok hstep]
          exact ih hfold

end Reader

/-- The error that a failure is reported as, when the tokens were `ts`. -/
def Production.Failure.error (ts : List Token) : Failure → SyntaxError
  | .refused e => e
  | .atEnd => ⟨.unexpectedEnd, (ts.getLast?.map Token.line).getD 1, none⟩

theorem ofTokens_eq_readAll (ts : List Token) :
    Program.ofTokens ts =
      (Reader.start.readAll ts).mapError (Failure.error ts) := by
  cases hfold : ts.foldlM Reader.step Reader.start with
  | error e =>
      obtain ⟨us, t, vs, m, rfl, hreads, hstep⟩ :=
        Reader.exists_refused_of_error hfold
      have hrefused := ofTokens_append_eq_error hreads hstep vs
      rw [List.append_assoc, List.singleton_append] at hrefused
      rw [hrefused, hreads.readAll, Reader.readAll_of_step_error hstep]
      rfl
  | ok r =>
      have hreads : Reader.start.Reads ts r := hfold
      have hall : Reader.start.readAll (ts ++ []) = r.readAll [] :=
        hreads.readAll
      rw [List.append_nil] at hall
      rw [ofTokens_of_reads hreads, hall, Reader.readAll]
      cases r.finish? <;> rfl

/-! ## Following a production -/

namespace Production

variable {α β : Type}

/-- The answer fits what reading comes to: it is the same failure, or `post`
holds of the tree and the tokens left. A spent budget says nothing. -/
def Answer.Fits (x : Except Failure Program) (post : α → List Token → Prop) :
    Answer α → Prop
  | .spent => True
  | .failed f => x = .error f
  | .done a rest => post a rest

theorem Answer.Fits.andThen {x : Except Failure Program} {o : Answer α}
    {post : α → List Token → Prop} {next : α → List Token → Answer β}
    {post' : β → List Token → Prop} (h : o.Fits x post)
    (hnext : ∀ a rest, post a rest → (next a rest).Fits x post') :
    (o.andThen next).Fits x post' := by
  cases o with
  | spent => trivial
  | failed f => exact h
  | done a rest => exact hnext a rest h

theorem Answer.Fits.imp {x : Except Failure Program} {o : Answer α}
    {post post' : α → List Token → Prop} (h : o.Fits x post)
    (himp : ∀ a rest, post a rest → post' a rest) : o.Fits x post' := by
  cases o with
  | spent => trivial
  | failed f => exact h
  | done a rest => exact himp a rest h

/-- The answer of a production on `ts` fits the reader `r` in front of it, and
behind its tree the reader stands as `after` says. -/
def Answer.Leads (r : Reader) (ts : List Token) (after : α → Reader)
    (o : Answer α) : Prop :=
  o.Fits (r.readAll ts) fun a rest => r.readAll ts = (after a).readAll rest

namespace Answer.Leads

variable {r : Reader} {ts : List Token} {after : α → Reader}
  {after' : β → Reader} {o : Answer α}

theorem andThen {next : α → List Token → Answer β} (h : o.Leads r ts after)
    (hnext : ∀ a rest, (next a rest).Leads (after a) rest after') :
    (o.andThen next).Leads r ts after' := by
  refine Fits.andThen h fun a rest hread => ?_
  rw [hread]
  exact hnext a rest

theorem map {f : α → β} (h : o.Leads r ts after)
    (hafter : ∀ a, after a = after' (f a)) :
    (o.andThen fun a rest => .done (f a) rest).Leads r ts after' :=
  h.andThen fun a rest => congrArg (Reader.readAll · rest) (hafter a)

/-- A reader in front that takes the next token alike will do. -/
theorem of_step_eq {r' : Reader} (h : o.Leads r ts after)
    (hstep : r'.step (ahead ts) = r.step (ahead ts)) : o.Leads r' ts after := by
  unfold Leads
  rw [Reader.readAll_congr hstep]
  exact h

/-- A token that is read leads to the production behind it. -/
theorem cons {r' : Reader} {t : Token} (h : o.Leads r' ts after)
    (hstep : r.step t = .ok r') : o.Leads r (t :: ts) after := by
  unfold Leads
  rw [Reader.readAll_of_step_ok hstep]
  exact h

end Answer.Leads

/-- The reader `r` takes what `want` wants, and blames everything else for
`fault`. -/
structure Takes (r : Reader) (want : Token → Option α) (fault : SyntaxFault)
    (after : α → Reader) (t : Token) : Prop where
  wanted : ∀ a, want t = some a → r.step t = .ok (after a)
  refused : want t = none → r.step t = .error (t.blame fault)

theorem leads_take {r : Reader} {want : Token → Option α} {fault : SyntaxFault}
    {after : α → Reader} {ts : List Token}
    (h : Takes r want fault after (ahead ts)) (hend : want (ahead []) = none) :
    (take want fault ts).Leads r ts after := by
  cases ts with
  | nil => exact Reader.readAll_nil_of_step_error (h.refused hend)
  | cons t ts =>
      simp only [take]
      cases hwant : want t with
      | none => exact Reader.readAll_of_step_error (h.refused hwant)
      | some a => exact Reader.readAll_of_step_ok (h.wanted a hwant)

theorem takes_symbol {r : Reader} {s : Symbol} {fault : SyntaxFault}
    {after : Reader} {t : Token}
    (hwanted : t.kind = .symbol s → r.step t = .ok after)
    (hrefused : t.kind ≠ .symbol s → r.step t = .error (t.blame fault)) :
    Takes r (symbol? s) fault (fun _ => after) t := by
  unfold symbol?
  refine ⟨fun a h => hwanted ?_, fun h => hrefused ?_⟩
  · split at h
    · assumption
    · cases h
  · split at h
    · cases h
    · assumption

theorem takes_name {mode : Mode} {after : Ident → Mode} {done : List Stmt}
    {outer : List (Owner × List Stmt)} {t : Token}
    (h : Reader.step ⟨mode, done, outer⟩ t =
      Reader.takeName ⟨mode, done, outer⟩ t after) :
    Takes ⟨mode, done, outer⟩ name? .expectId
      (fun x => ⟨after x, done, outer⟩) t := by
  unfold name?
  refine ⟨fun x hx => ?_, fun hx => ?_⟩
  · split at hx
    · next hname =>
        cases hx
        simp only [h, Reader.takeName, hname]
    · cases hx
  · split at hx
    · cases hx
    · simp only [h, Reader.takeName]

theorem exists_cons_of_nextIs {k : Token.Kind} {ts : List Token}
    (h : nextIs k ts = true) : ∃ t us, ts = t :: us ∧ t.kind = k := by
  cases ts with
  | nil => cases h
  | cons t us => exact ⟨t, us, rfl, of_decide_eq_true h⟩

theorem takes_takeSymbol {mode mode' : Mode} {s : Symbol} {fault : SyntaxFault}
    {done : List Stmt} {outer : List (Owner × List Stmt)} {t : Token}
    (h : Reader.step ⟨mode, done, outer⟩ t =
      Reader.takeSymbol ⟨mode, done, outer⟩ t s fault mode') :
    Takes ⟨mode, done, outer⟩ (symbol? s) fault
      (fun _ => ⟨mode', done, outer⟩) t := by
  refine takes_symbol (fun ht => ?_) (fun ht => ?_)
  · rw [h, Reader.takeSymbol, if_pos ht]
  · rw [h, Reader.takeSymbol, if_neg ht]

theorem atTerminator_iff {ts : List Token} :
    atTerminator ts = true ↔ (ahead ts).kind = .newline ∨
      (ahead ts).kind = .symbol .rbrace := by
  cases ts <;> simp [atTerminator, ahead]

theorem nextIs_iff {k : Token.Kind} {ts : List Token} (hk : k ≠ .newline) :
    nextIs k ts = true ↔ (ahead ts).kind = k := by
  cases ts with
  | nil =>
      exact ⟨fun h => absurd h Bool.false_ne_true, fun h => absurd h.symm hk⟩
  | cons t ts => exact decide_eq_true_iff

/-! ## Expressions -/

/-- Where an expression stands: in which statement, and inside which
parentheses. -/
structure Place where
  slot : Slot
  nested : List (Opening × List Pending)
  done : List Stmt
  outer : List (Owner × List Stmt)

/-- The reader at a focus of the expression, with the operators `ps` waiting. -/
def Place.reader (c : Place) (ps : List Pending) (focus : Focus) : Reader :=
  ⟨.expr c.slot ⟨ps, c.nested, focus⟩, c.done, c.outer⟩

theorem below_nil (k : Nat) : Pending.Below k [] :=
  fun _ h => absurd h List.not_mem_nil

/-- No operator of level `k` or above comes next. -/
def Unextended (k : Nat) (ts : List Token) : Prop :=
  ∀ l, (ahead ts).kind.level? = some l → l < k

theorem Unextended.level?_eq_none {ts : List Token} (h : Unextended 0 ts) :
    (ahead ts).kind.level? = none := by
  cases hl : (ahead ts).kind.level? with
  | none => rfl
  | some l => exact absurd (h l hl) (Nat.not_lt_zero l)

theorem unextended_nil (k : Nat) : Unextended k [] := by
  intro l hl
  cases hl

namespace Place

variable {c : Place} {ps ps' : List Pending} {focus focus' : Focus} {t : Token}

/-- Only the expression's own reader decides how a token is taken. -/
theorem step_congr
    (h : ExprReader.step ⟨ps, c.nested, focus⟩ t =
      ExprReader.step ⟨ps', c.nested, focus'⟩ t) :
    (c.reader ps focus).step t = (c.reader ps' focus').step t := by
  obtain ⟨slot, nested, done, outer⟩ := c
  simp only [reader, Reader.step, Reader.advance, h]
  cases ExprReader.step ⟨ps', nested, focus'⟩ t with
  | error e => rfl
  | ok progress =>
      cases progress with
      | reading er => rfl
      | finished e => cases slot <;> rfl

theorem step_operand {er : ExprReader}
    (h : ExprReader.takeOperand ⟨ps, c.nested, .operand⟩ t = .ok er) :
    (c.reader ps .operand).step t = .ok ⟨.expr c.slot er, c.done, c.outer⟩ := by
  simp only [reader, Reader.step, Reader.advance, ExprReader.step, h,
    Except.map]

theorem step_operand_error {e : SyntaxError}
    (h : ExprReader.takeOperand ⟨ps, c.nested, .operand⟩ t = .error e) :
    (c.reader ps .operand).step t = .error e := by
  simp only [reader, Reader.step, Reader.advance, ExprReader.step, h,
    Except.map]

/-- A name that no argument list follows is an operand. -/
theorem step_name {x : Ident} (ht : t.kind ≠ .symbol .lparen) :
    (c.reader ps (.name x)).step t =
      (c.reader ps (.value (.var x))).step t := by
  refine step_congr ?_
  simp only [ExprReader.step]
  rfl

theorem step_operator {k : Nat} {left : Expr} (ht : t.kind.level? = some k)
    (hps : Pending.Below k ps) :
    (c.reader ps (.value left)).step t =
      .ok (c.reader (⟨left, t, k⟩ :: ps) .operand) := by
  simp only [reader, Reader.step, Reader.advance, ExprReader.step,
    ExprReader.takeAfter, ht, Pending.fold_of_below hps]

/-- An operator whose right operand is complete makes one operand of both,
unless something tighter comes next. -/
theorem step_binary {k : Nat} {op : Token} {left right : Expr}
    (ht : ∀ l, t.kind.level? = some l → l < k + 1) :
    (c.reader (⟨left, op, k⟩ :: ps) (.value right)).step t =
      (c.reader ps (.value (.binary op left right))).step t := by
  have hfold : ∀ l, l ≤ k → Pending.fold l (⟨left, op, k⟩ :: ps) right =
      Pending.fold l ps (.binary op left right) := by
    intro l hl
    rw [Pending.fold, if_pos hl]
  refine step_congr ?_
  simp only [ExprReader.step, ExprReader.takeAfter]
  cases hl : t.kind.level? with
  | none => simp only [hfold 0 (Nat.zero_le k)]
  | some l => simp only [hfold l (Nat.le_of_lt_succ (ht l hl))]

theorem takes_group {e : Expr} (ht : t.kind.level? = none) :
    Takes ({ c with nested := (.group, ps) :: c.nested }.reader [] (.value e))
      (symbol? .rparen) .expectClosingParen
      (fun _ => c.reader ps (.value e)) t := by
  refine takes_symbol (fun h => ?_) (fun h => ?_)
  · simp only [reader, Reader.step, Reader.advance, ExprReader.step,
      ExprReader.takeAfter, h, Token.Kind.level?, Pending.fold]
  · simp only [reader, Reader.step, Reader.advance, ExprReader.step,
      ExprReader.takeAfter, ht]

/-- Behind an expression that ends its statement the statement may end. -/
theorem step_statement {slot : Slot} {e : Expr} {s : Stmt}
    (hs : slot.statement? e = some s) (ht : t.kind.level? = none)
    (done : List Stmt) (outer : List (Owner × List Stmt)) :
    (reader ⟨slot, [], done, outer⟩ [] (.value e)).step t =
      Reader.step ⟨.ended, s :: done, outer⟩ t := by
  simp only [reader, Reader.step, Reader.advance, ExprReader.step,
    ExprReader.takeAfter, ht, Pending.fold]
  cases slot <;> cases hs <;> rfl

/-- Behind a condition its block must begin. -/
theorem step_owner {slot : Slot} {e : Expr} {owner : Owner}
    (ho : slot.owner? e = some owner) (ht : t.kind.level? = none)
    (done : List Stmt) (outer : List (Owner × List Stmt)) :
    (reader ⟨slot, [], done, outer⟩ [] (.value e)).step t =
      Reader.step ⟨.block owner, done, outer⟩ t := by
  simp only [reader, Reader.step, Reader.advance, ExprReader.step,
    ExprReader.takeAfter, ht, Pending.fold]
  cases slot <;> cases ho <;> rfl

end Place

/-! ## Lists in parentheses -/

/-- A list in parentheses is read up to its end: a closing parenthesis leads to
`after`, and nothing else may follow. -/
def Closes (x : Except Failure Program) (ts : List Token) (after : Reader) :
    Prop :=
  ∃ r : Reader, x = r.readAll ts ∧
    Takes r (symbol? .rparen) .expectClosingParen (fun _ => after) (ahead ts)

section

variable {call : ⦃β : Type⦄ → Production β → List Token → Answer β}
  {items : Production (List α)} {r : Reader} {after : List α → Reader}
  {ts : List Token}

theorem leads_runListed
    (hempty : (ahead ts).kind = .symbol .rparen →
      r.step (ahead ts) = .ok (after []))
    (hitems : (ahead ts).kind ≠ .symbol .rparen →
      (call items ts).Fits (r.readAll ts)
        fun as rest => Closes (r.readAll ts) rest (after as)) :
    (runListed call items ts).Leads r ts after := by
  have hlist : (if nextIs (.symbol .rparen) ts then .done [] ts
      else call items ts : Answer _).Fits (r.readAll ts)
        fun as rest => Closes (r.readAll ts) rest (after as) := by
    split
    · next h =>
        have hkind := (nextIs_iff (by decide)).1 h
        exact ⟨r, rfl, takes_symbol hempty fun hne => absurd hkind hne⟩
    · next h => exact hitems fun hkind => h ((nextIs_iff (by decide)).2 hkind)
  refine hlist.andThen fun as rest hcloses => ?_
  obtain ⟨r', hread, htakes⟩ := hcloses
  rw [hread]
  exact (leads_take htakes rfl).map fun _ => rfl

theorem fits_runMore {a : α} {x : Except Failure Program}
    (hcomma : ∀ (t : Token) (us : List Token), ts = t :: us →
      t.kind = .symbol .comma →
      (call items us).Fits x fun as rest => Closes x rest (after (a :: as)))
    (hlast : (ahead ts).kind ≠ .symbol .comma → Closes x ts (after [a])) :
    (runMore call items a ts).Fits x fun as rest =>
      Closes x rest (after as) := by
  unfold runMore
  split
  · next h =>
      obtain ⟨t, us, rfl, ht⟩ := exists_cons_of_nextIs h
      exact (hcomma t us rfl ht).andThen fun as rest hcloses => hcloses
  · next h => exact hlast fun hkind => h ((nextIs_iff (by decide)).2 hkind)

end

/-- Where a call stands: as an operand, or as a statement. -/
inductive CallSite where
  | operand (c : Place) (ps : List Pending)
  | statement (done : List Stmt) (outer : List (Owner × List Stmt))

namespace CallSite

/-- The reader behind the opening parenthesis of a call. -/
def opened (f : Ident) : CallSite → Reader
  | .operand c ps => c.reader ps (.arguments f)
  | .statement done outer => ⟨.calling f, done, outer⟩

/-- Where an argument behind `args`, the latest first, stands. -/
def argument (f : Ident) (args : List Expr) : CallSite → Place
  | .operand c ps => { c with nested := (.call f args, ps) :: c.nested }
  | .statement done outer => ⟨.argument f args, [], done, outer⟩

/-- The reader behind the call. -/
def closed (f : Ident) (args : List Expr) : CallSite → Reader
  | .operand c ps => c.reader ps (.value (.call f args))
  | .statement done outer => ⟨.ended, .call f args :: done, outer⟩

variable {f : Ident} {args : List Expr} {e : Expr} {t : Token}

theorem step_opened_rparen (s : CallSite) (h : t.kind = .symbol .rparen) :
    (s.opened f).step t = .ok (s.closed f []) := by
  cases s with
  | operand c ps =>
      simp only [opened, closed, Place.reader, Reader.step, Reader.advance,
        ExprReader.step, h]
  | statement done outer =>
      simp only [opened, closed, Reader.step, Reader.add, h]

theorem step_opened (s : CallSite) (h : t.kind ≠ .symbol .rparen) :
    (s.opened f).step t = ((s.argument f []).reader [] .operand).step t := by
  cases s with
  | operand c ps =>
      simp only [opened, argument, Place.reader, Reader.step, Reader.advance,
        ExprReader.step]
      cases ExprReader.takeOperand _ t <;> rfl
  | statement done outer =>
      simp only [opened, argument, Place.reader, Reader.step, Reader.advance]
      rfl

theorem step_comma (s : CallSite) (h : t.kind = .symbol .comma) :
    ((s.argument f args).reader [] (.value e)).step t =
      .ok ((s.argument f (e :: args)).reader [] .operand) := by
  cases s <;>
    simp only [argument, Place.reader, Reader.step, Reader.advance,
      ExprReader.step, ExprReader.takeAfter, h, Token.Kind.level?, Pending.fold,
      Reader.fill, ExprReader.start]

/-- Behind an argument that no comma follows, the call may end. -/
theorem takes_argument (s : CallSite) (hlevel : t.kind.level? = none)
    (hcomma : t.kind ≠ .symbol .comma) :
    Takes ((s.argument f args).reader [] (.value e)) (symbol? .rparen)
      .expectClosingParen (fun _ => s.closed f (args.reverse ++ [e])) t := by
  refine takes_symbol (fun h => ?_) (fun h => ?_)
  · cases s <;>
      simp only [argument, closed, Place.reader, Reader.step, Reader.advance,
        ExprReader.step, ExprReader.takeAfter, h, Token.Kind.level?,
        Pending.fold, Reader.fill, Reader.add, List.reverse_cons]
  · cases s <;>
      simp only [argument, Place.reader, Reader.step, Reader.advance,
        ExprReader.step, ExprReader.takeAfter, hlevel, Pending.fold,
        Reader.fill]

end CallSite

/-- Behind a parameter that no comma follows, the list may end. -/
theorem takes_paramEnd {f : Ident} {before : List Param} {p : Param}
    {done : List Stmt} {outer : List (Owner × List Stmt)} {t : Token}
    (hcomma : t.kind ≠ .symbol .comma) :
    Takes ⟨.paramEnd f (p :: before), done, outer⟩ (symbol? .rparen)
      .expectClosingParen
      (fun _ => ⟨.block (.function f (before.reverse ++ [p])), done, outer⟩)
      t := by
  refine takes_symbol (fun h => ?_) (fun h => ?_)
  · simp only [Reader.step, Reader.takeSymbol, h, if_pos, List.reverse_cons]
  · simp only [Reader.step, Reader.takeSymbol, if_neg h]

end Production

/-! ## Statements and blocks -/

/-- The reader behind the block `body` of a statement, in front of which `done`
were read. -/
def Owner.closed (body done : List Stmt) (outer : List (Owner × List Stmt)) :
    Owner → Reader
  | .function f ps => ⟨.ended, .function f ps body :: done, outer⟩
  | .branch c earlier => ⟨.branched (c, body) earlier false, done, outer⟩
  | .otherwise arm earlier =>
    ⟨.ended, closeArms (.otherwise body) arm earlier :: done, outer⟩
  | .loop c => ⟨.ended, .loop c body :: done, outer⟩

namespace Reader

variable {arm : Arm} {earlier : List Arm} {done : List Stmt}
  {outer : List (Owner × List Stmt)} {t : Token} {ts : List Token}

theorem begin_of_not_starts {r : Reader} (hnl : t.kind ≠ .newline)
    (hrb : t.kind ≠ .symbol .rbrace) (h : startsStatement t.kind = false) :
    r.begin t =
      .error (t.blame (if r.outer.isEmpty then .unexpectedCharacter
        else .expectClosingBrace)) := by
  unfold begin
  split
  · next ty hty =>
      have hstarts := startsStatement_typeName ty
      rw [TypeName.ofToken?_eq_some_iff.1 hty, h] at hstarts
      cases hstarts
  · split <;> simp_all [startsStatement]

theorem closeBlock_eq_closed (mode : Mode) (body : List Stmt) (owner : Owner) :
    closeBlock ⟨mode, body, (owner, done) :: outer⟩ t =
      .ok (owner.closed body.reverse done outer) := by
  cases owner <;> rfl

theorem readAll_skipNewlines (ts : List Token) :
    readAll ⟨.ready, done, outer⟩ ts =
      readAll ⟨.ready, done, outer⟩ (skipNewlines ts) := by
  induction ts with
  | nil => rfl
  | cons t ts ih =>
      rw [skipNewlines]
      split
      · next h => rw [readAll_of_step_ok (Between.ready.step_newline h), ih]
      · rfl

/-- Where no `else` follows, the block of an `if` is the end of its
statement. -/
theorem readAll_branched (h : behindElse? ts = none) (newline : Bool) :
    readAll ⟨.branched arm earlier newline, done, outer⟩ ts =
      readAll ⟨if newline then .ready else .ended,
        closeArms .none arm earlier :: done, outer⟩ ts := by
  induction ts generalizing newline with
  | nil => cases newline <;> cases outer <;> rfl
  | cons t ts ih =>
      by_cases ht : t.kind = .newline
      · have helse : behindElse? ts = none := by
          simpa only [behindElse?, skipNewlines, ht, if_pos] using h
        have hbranched : step ⟨.branched arm earlier newline, done, outer⟩ t =
            .ok ⟨.branched arm earlier true, done, outer⟩ := by
          simp only [step, ht]
        rw [readAll_of_step_ok hbranched, ih helse true]
        cases newline with
        | true =>
            exact (readAll_of_step_ok (Between.ready.step_newline ht)).symm
        | false =>
            refine (readAll_of_step_ok ?_).symm
            exact separate_newline ht
      · have hne : t.kind ≠ .keyword .else := by
          intro hel
          simp [behindElse?, skipNewlines, hel] at h
        -- any other token is what shows that the statement has ended
        refine readAll_congr ?_
        simp only [ahead, step]
        cases newline <;> rfl

theorem readAll_branched_else {rest : List Token}
    (h : behindElse? ts = some rest) (newline : Bool) :
    readAll ⟨.branched arm earlier newline, done, outer⟩ ts =
      readAll ⟨.elseRead arm earlier, done, outer⟩ rest := by
  induction ts generalizing newline with
  | nil => cases h
  | cons t ts ih =>
      by_cases ht : t.kind = .newline
      · have helse : behindElse? ts = some rest := by
          simpa only [behindElse?, skipNewlines, ht, if_pos] using h
        have hbranched : step ⟨.branched arm earlier newline, done, outer⟩ t =
            .ok ⟨.branched arm earlier true, done, outer⟩ := by
          simp only [step, ht]
        rw [readAll_of_step_ok hbranched, ih helse true]
      · simp only [behindElse?, skipNewlines, if_neg ht] at h
        split at h
        · next hel =>
            cases h
            exact readAll_of_step_ok (by simp only [step, hel])
        · cases h

end Reader

namespace Production

theorem skipNewlines_ne_newline {ts rest : List Token} {t : Token}
    (h : skipNewlines ts = t :: rest) : t.kind ≠ .newline := by
  induction ts with
  | nil => cases h
  | cons u ts ih =>
      rw [skipNewlines] at h
      split at h
      · exact ih h
      · next hu =>
          cases h
          exact hu

theorem leads_terminator (done : List Stmt) (outer : List (Owner × List Stmt))
    (ts : List Token) :
    (terminator ts).Leads ⟨.ended, done, outer⟩ ts fun _ =>
      ⟨.ready, done, outer⟩ := by
  cases ts with
  | nil => exact Reader.readAll_congr rfl
  | cons t ts =>
      simp only [terminator]
      split
      · next h => exact Reader.readAll_of_step_ok (Reader.separate_newline h)
      · next h =>
          refine Reader.readAll_congr ?_
          exact (Reader.separate_rbrace h).trans (Reader.begin_rbrace h).symm
      · refine Reader.readAll_of_step_error ?_
        simp only [Reader.step, Reader.separate]

end Production

end Quill
