import Quill.Proofs.Grammar

/-!
# Where a reader stands

A reader is a pushdown state, and most of what a state holds does not matter for
what comes next. This file names the places that do matter and says what the
next token does at each of them.

An expression is complete when nothing is nested and an operand is read: every
token that neither continues it nor makes a call of its last name then finishes
it. A body can be closed when a line end or a closing brace may come. Both hold
at several kinds of states, because neither reader looks ahead: a name may still
become a call, and the block of an `if` may still get an `else`, so a statement
that ends in one of them is complete before its state says so.
-/

namespace Quill

open Grammar

/-- The operand that is read, if one is. -/
def Focus.operand? : Focus → Option Expr
  | .name x => some (.var x)
  | .value e => some e
  | .operand | .arguments _ => none

/-! ## Folding

Folding down to a level in one go or in two stops is the same, and it leaves
looser operators alone. -/

/-- All of the waiting operators bind less tightly than `n`. -/
def Pending.Below (n : Nat) (ps : List Pending) : Prop :=
  ∀ p ∈ ps, p.level < n

theorem Pending.Below.mono {n m : Nat} {ps : List Pending} (h : Below n ps)
    (hnm : n ≤ m) : Below m ps :=
  fun p hp => Nat.lt_of_lt_of_le (h p hp) hnm

theorem Pending.Below.cons {n : Nat} {p : Pending} {ps : List Pending}
    (hp : p.level < n) (h : Below n ps) : Below n (p :: ps) := by
  intro q hq
  rcases List.mem_cons.1 hq with rfl | hq
  · exact hp
  · exact h q hq

theorem Pending.fold_of_below {n : Nat} {ps : List Pending}
    (h : Below n ps) (e : Expr) : fold n ps e = (ps, e) := by
  match ps with
  | [] => rfl
  | p :: ps =>
      have hp : p.level < n := h p (by simp)
      rw [fold, if_neg (by omega)]

theorem Pending.fold_fold {n m : Nat} (hnm : n ≤ m)
    (ps : List Pending) (e : Expr) :
    fold n (fold m ps e).1 (fold m ps e).2 = fold n ps e := by
  induction ps generalizing e with
  | nil => rfl
  | cons p ps ih =>
      rw [fold]
      split
      · next hm =>
          rw [ih, fold, if_pos (by omega)]
      · rfl

/-! ## Expressions -/

namespace ExprReader

/-- The tokens `ts` take the reader `r` to `r'`, in the same expression. -/
inductive Reads : ExprReader → List Token → ExprReader → Prop
  | nil (r : ExprReader) : Reads r [] r
  | cons {r m r' : ExprReader} {t : Token} {ts : List Token} :
      r.step t = .ok (.reading m) → Reads m ts r' → Reads r (t :: ts) r'

theorem Reads.single {r r' : ExprReader} {t : Token}
    (h : r.step t = .ok (.reading r')) : Reads r [t] r' :=
  .cons h (.nil r')

theorem Reads.append {r m r' : ExprReader} {ts us : List Token}
    (h₁ : Reads r ts m) (h₂ : Reads m us r') : Reads r (ts ++ us) r' := by
  induction h₁ with
  | nil => exact h₂
  | cons hstep _ ih => exact .cons hstep (ih h₂)

/-- All of an expression is read, and it is `e`. -/
structure Complete (r : ExprReader) (e : Expr) : Prop where
  nested : r.nested = []
  operand : ∃ v, r.focus.operand? = some v ∧ (Pending.fold 0 r.pending v).2 = e

/-- After an operand, everything but `(` is taken alike, whether the operand may
still become a call or not. -/
theorem step_of_operand? {r : ExprReader} {v : Expr} {t : Token}
    (h : r.focus.operand? = some v) (ht : t.kind ≠ .symbol .lparen) :
    r.step t = r.takeAfter v t := by
  obtain ⟨pending, nested, focus⟩ := r
  cases focus with
  | operand => cases h
  | arguments => cases h
  | value e => cases h; rfl
  | name x =>
      cases h
      simp only [step]

theorem Complete.step {r : ExprReader} {e : Expr} {t : Token} (h : r.Complete e)
    (hlevel : t.kind.level? = none) (ht : t.kind ≠ .symbol .lparen) :
    r.step t = .ok (.finished e) := by
  obtain ⟨hnested, v, hv, rfl⟩ := h
  rw [step_of_operand? hv ht, takeAfter, hlevel, hnested]

end ExprReader

/-! ## Statements -/

/-- The statement that ends with the expression `e` in this place, if one
does. -/
def Slot.statement? (e : Expr) : Slot → Option Stmt
  | .init ty x => some (.declare ty x e)
  | .value x => some (.assign x e)
  | .result line => some (.ret line (some e))
  | .branch _ | .loop | .argument _ _ => none

/-- The block that begins after the expression `e` in this place, if one
does. -/
def Slot.owner? (e : Expr) : Slot → Option Owner
  | .branch earlier => some (.branch e earlier)
  | .loop => some (.loop e)
  | .init _ _ | .value _ | .result _ | .argument _ _ => none

namespace Reader

/-- The tokens `ts` take the reader `r` to `r'`. -/
def Reads (r : Reader) (ts : List Token) (r' : Reader) : Prop :=
  ts.foldlM step r = .ok r'

theorem Reads.nil (r : Reader) : Reads r [] r :=
  rfl

theorem Reads.cons {r m r' : Reader} {t : Token} {ts : List Token}
    (h : r.step t = .ok m) (hts : Reads m ts r') : Reads r (t :: ts) r' := by
  rw [Reads, List.foldlM_cons, h]
  exact hts

theorem Reads.single {r r' : Reader} {t : Token} (h : r.step t = .ok r') :
    Reads r [t] r' :=
  .cons h (.nil r')

theorem Reads.append {r m r' : Reader} {ts us : List Token} (h₁ : Reads r ts m)
    (h₂ : Reads m us r') : Reads r (ts ++ us) r' := by
  rw [Reads, List.foldlM_append, h₁]
  exact h₂

/-- Two readers that take a token alike read alike from there on. -/
theorem Reads.of_step_eq {r m r' : Reader} {t : Token} {ts : List Token}
    (heq : m.step t = r.step t) (h : Reads r (t :: ts) r') :
    Reads m (t :: ts) r' := by
  rw [Reads, List.foldlM_cons, heq, ← List.foldlM_cons]
  exact h

/-- An expression is read inside its statement. -/
theorem reads_expr {er er' : ExprReader} {ts : List Token} (h : er.Reads ts er')
    (slot : Slot) (done : List Stmt) (outer : List (Owner × List Stmt)) :
    Reads ⟨.expr slot er, done, outer⟩ ts ⟨.expr slot er', done, outer⟩ := by
  induction h with
  | nil => exact .nil _
  | cons hstep _ ih =>
      refine .cons ?_ ih
      simp only [step, advance, hstep]

/-- Once the expression for `slot` is complete, a token that ends it goes to the
statement around. -/
theorem step_of_complete {er : ExprReader} {e : Expr} {t : Token}
    (h : er.Complete e) (hlevel : t.kind.level? = none)
    (ht : t.kind ≠ .symbol .lparen) (slot : Slot) (done : List Stmt)
    (outer : List (Owner × List Stmt)) :
    step ⟨.expr slot er, done, outer⟩ t =
      fill ⟨.expr slot er, done, outer⟩ slot e t := by
  simp only [step, advance, h.step hlevel ht]

/-- Between the statements of a body, of which `done` are read, the latest
first. The last of them may be a conditional that an `else` would still
continue. -/
inductive Between : Reader → List Stmt → List (Owner × List Stmt) → Prop
  | ready {done : List Stmt} {outer : List (Owner × List Stmt)} :
      Between ⟨.ready, done, outer⟩ done outer
  | branched {arm : Arm} {earlier : List Arm} {done : List Stmt}
      {outer : List (Owner × List Stmt)} :
      Between ⟨.branched arm earlier true, done, outer⟩
        (closeArms .none arm earlier :: done) outer

/-- The body may end here with the statements `done`, and a line may. -/
structure Closable (r : Reader) (done : List Stmt)
    (outer : List (Owner × List Stmt)) : Prop where
  newline : ∀ t : Token, t.kind = .newline → ∃ r', r.step t = .ok r' ∧
    Between r' done outer
  rbrace : ∀ t : Token, t.kind = .symbol .rbrace →
    r.step t = closeBlock ⟨.ready, done, outer⟩ t

/-- Only an `else` tells a finished conditional from the place between
statements. -/
theorem Between.step_eq_begin {r : Reader} {done : List Stmt}
    {outer : List (Owner × List Stmt)} {t : Token} (h : Between r done outer)
    (hnl : t.kind ≠ .newline) (helse : t.kind ≠ .keyword .else) :
    r.step t = begin ⟨.ready, done, outer⟩ t := by
  cases h with
  | ready => rfl
  | branched =>
      simp only [step]
      rfl

theorem begin_newline {r : Reader} {t : Token} (h : t.kind = .newline) :
    r.begin t = .ok { r with mode := .ready } := by
  simp [begin, TypeName.ofToken?, DeclType.ofTokenKind?, h]

theorem begin_rbrace {r : Reader} {t : Token} (h : t.kind = .symbol .rbrace) :
    r.begin t = r.closeBlock t := by
  simp [begin, TypeName.ofToken?, DeclType.ofTokenKind?, h]

/-- Between statements a line end changes nothing. -/
theorem Between.step_newline {r : Reader} {done : List Stmt}
    {outer : List (Owner × List Stmt)} (h : Between r done outer) {t : Token}
    (ht : t.kind = .newline) : r.step t = .ok r := by
  cases h with
  | ready => exact begin_newline ht
  | branched => simp only [step, ht]

theorem Between.closable {r : Reader} {done : List Stmt}
    {outer : List (Owner × List Stmt)} (h : Between r done outer) :
    Closable r done outer := by
  refine ⟨fun t ht => ⟨r, h.step_newline ht, h⟩, fun t ht => ?_⟩
  rw [h.step_eq_begin (by simp [ht]) (by simp [ht]), begin_rbrace ht]

theorem separate_newline {r : Reader} {t : Token} (h : t.kind = .newline) :
    r.separate t = .ok { r with mode := .ready } := by
  simp only [separate, h]

theorem separate_rbrace {r : Reader} {t : Token}
    (h : t.kind = .symbol .rbrace) : r.separate t = r.closeBlock t := by
  simp only [separate, h]

/-- A state at which the statement `s` is handed over to its end can be
closed. -/
theorem closable_of_separate (r₀ : Reader) {r : Reader} {s : Stmt}
    {done : List Stmt} {outer : List (Owner × List Stmt)}
    (hdone : r₀.done = done) (houter : r₀.outer = outer)
    (h : ∀ t : Token, t.kind = .newline ∨ t.kind = .symbol .rbrace →
      r.step t = (r₀.add s).separate t) : Closable r (s :: done) outer := by
  subst hdone houter
  refine ⟨fun t ht => ⟨_, ?_, .ready⟩, fun t ht => ?_⟩
  · rw [h t (.inl ht), separate_newline ht]
    rfl
  · rw [h t (.inr ht), separate_rbrace ht]
    rfl

theorem closable_ended {done : List Stmt} {outer : List (Owner × List Stmt)} :
    Closable ⟨.ended, done, outer⟩ done outer :=
  ⟨fun _ ht => ⟨_, separate_newline ht, .ready⟩, fun _ ht => separate_rbrace ht⟩

theorem closable_branched {arm : Arm} {earlier : List Arm} {newline : Bool}
    {done : List Stmt} {outer : List (Owner × List Stmt)} :
    Closable ⟨.branched arm earlier newline, done, outer⟩
      (closeArms .none arm earlier :: done) outer := by
  refine ⟨fun t ht => ⟨_, by simp only [step, ht], .branched⟩, fun t ht => ?_⟩
  simp only [step, ht]
  cases newline with
  | true => exact begin_rbrace ht
  | false => exact separate_rbrace ht

theorem closable_returning {line : Nat} {done : List Stmt}
    {outer : List (Owner × List Stmt)} :
    Closable ⟨.returning line, done, outer⟩ (.ret line none :: done) outer := by
  refine closable_of_separate ⟨.returning line, done, outer⟩ rfl rfl
    fun t ht => ?_
  rcases ht with ht | ht <;> simp only [step, ht]

theorem closable_expr {er : ExprReader} {e : Expr} {slot : Slot} {s : Stmt}
    (he : er.Complete e) (hs : slot.statement? e = some s) {done : List Stmt}
    {outer : List (Owner × List Stmt)} :
    Closable ⟨.expr slot er, done, outer⟩ (s :: done) outer := by
  refine closable_of_separate ⟨.expr slot er, done, outer⟩ rfl rfl
    fun t ht => ?_
  have hend : t.kind.level? = none ∧ t.kind ≠ .symbol .lparen := by
    rcases ht with ht | ht <;> rw [ht] <;> decide
  rw [step_of_complete he hend.1 hend.2]
  cases slot with
  | init ty x => cases hs; rfl
  | value x => cases hs; rfl
  | result line => cases hs; rfl
  | branch => cases hs
  | loop => cases hs
  | argument => cases hs

/-- The program may end where its body can be closed. -/
theorem Closable.finish? {r : Reader} {done : List Stmt}
    (h : Closable r done []) : r.finish? = some done.reverse := by
  obtain ⟨r', hstep, hr'⟩ := h.newline ⟨.newline, "\n", 0⟩ rfl
  rw [Reader.finish?, hstep]
  cases hr' with
  | ready => rfl
  | branched => rfl

/-- Between statements the end of the input has nothing left to end. -/
theorem Between.finish?_eq {r : Reader} {done : List Stmt}
    {outer : List (Owner × List Stmt)} (h : r.Between done outer) :
    r.finish? = r.statements? := by
  rw [finish?, h.step_newline rfl]

theorem Between.reads_newlines {nl : List Token} (hnl : Newlines nl)
    {r : Reader} {done : List Stmt} {outer : List (Owner × List Stmt)}
    (h : Between r done outer) : Reads r nl r := by
  induction nl with
  | nil => exact .nil r
  | cons t nl ih => exact .cons (h.step_newline (hnl t (by simp))) (ih hnl.tail)

/-! ## Blocks -/

/-- The block of `owner` must begin here, after the statements `done`. -/
def Opens (r : Reader) (owner : Owner) (done : List Stmt)
    (outer : List (Owner × List Stmt)) : Prop :=
  ∀ t : Token, t.kind = .symbol .lbrace →
    r.step t = .ok ⟨.ready, [], (owner, done) :: outer⟩

theorem opens_block {owner : Owner} {done : List Stmt}
    {outer : List (Owner × List Stmt)} :
    Opens ⟨.block owner, done, outer⟩ owner done outer := by
  intro t ht
  simp only [step, openBlock, ht]

theorem opens_elseRead {arm : Arm} {earlier : List Arm} {done : List Stmt}
    {outer : List (Owner × List Stmt)} :
    Opens ⟨.elseRead arm earlier, done, outer⟩
      (.otherwise arm earlier) done outer := by
  intro t ht
  simp only [step, openBlock, ht]

theorem opens_expr {er : ExprReader} {e : Expr} {slot : Slot} {owner : Owner}
    (he : er.Complete e) (ho : slot.owner? e = some owner) {done : List Stmt}
    {outer : List (Owner × List Stmt)} :
    Opens ⟨.expr slot er, done, outer⟩ owner done outer := by
  intro t ht
  rw [step_of_complete he (by rw [ht]; rfl) (by rw [ht]; decide)]
  cases slot with
  | branch => cases ho; simp only [fill, openBlock, ht]
  | loop => cases ho; simp only [fill, openBlock, ht]
  | init => cases ho
  | value => cases ho
  | result => cases ho
  | argument => cases ho

end Reader

end Quill
