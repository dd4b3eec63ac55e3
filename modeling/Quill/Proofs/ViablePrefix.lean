import Quill.Proofs.Reading

/-!
# Errors stand at the first token that cannot be right

Every state of the reader can be finished: whatever is open can be closed, layer
by layer and block by block, and nothing that has been read stands in the way.
So a prefix that the reader has taken is the prefix of some program, and a token
that it refuses is the first one after which there is none. What comes later
plays no part, since the reader has not seen it.

The converse matters as much: an error always blames the token at which it
arises, and running out of tokens is the only one that blames none.
-/

namespace Quill

open Grammar

/-! ## Every state can be finished -/

/-- A token that spells the symbol. -/
def Symbol.token (s : Symbol) : Token :=
  ⟨.symbol s, s.spelling, 1⟩

theorem ExprReader.exists_complete_of_operand
    (nested : List (Opening × List Pending)) (pending : List Pending)
    (focus : Focus) {v : Expr} (h : focus.operand? = some v) :
    ∃ ts r e, ExprReader.Reads ⟨pending, nested, focus⟩ ts r ∧
      r.Complete e := by
  induction nested generalizing pending focus v with
  | nil => exact ⟨[], _, _, .nil _, rfl, v, h, rfl⟩
  | cons layer nested ih =>
      -- One closing parenthesis takes the reader out of the innermost layer.
      have hclose : ∃ outer w, ExprReader.step ⟨pending, layer :: nested, focus⟩
          Symbol.rparen.token = .ok (.reading ⟨outer, nested, .value w⟩) := by
        rw [ExprReader.step_of_operand? h (by decide)]
        match layer with
        | (.group, outer) => exact ⟨outer, _, rfl⟩
        | (.call f args, outer) => exact ⟨outer, _, rfl⟩
      obtain ⟨outer, w, hstep⟩ := hclose
      obtain ⟨ts, r, e, hreads, hr⟩ := ih outer (.value w) rfl
      exact ⟨_, r, e, .cons hstep hreads, hr⟩

theorem ExprReader.exists_complete (r : ExprReader) :
    ∃ ts r' e, r.Reads ts r' ∧ r'.Complete e := by
  obtain ⟨pending, nested, focus⟩ := r
  cases focus with
  | operand =>
      obtain ⟨ts, r, e, hreads, hr⟩ :=
        exists_complete_of_operand nested pending (.name ⟨"x", 1⟩) rfl
      exact ⟨Ident.token ⟨"x", 1⟩ :: ts, r, e, .cons rfl hreads, hr⟩
  | arguments f =>
      obtain ⟨ts, r, e, hreads, hr⟩ :=
        exists_complete_of_operand nested pending (.value (.call f [])) rfl
      exact ⟨Symbol.rparen.token :: ts, r, e, .cons rfl hreads, hr⟩
  | name x => exact exists_complete_of_operand nested pending (.name x) rfl
  | value e => exact exists_complete_of_operand nested pending (.value e) rfl

namespace Reader

/-- Some tokens finish the program. -/
def Completable (r : Reader) : Prop :=
  ∃ ts r' p, r.Reads ts r' ∧ r'.finish? = some p

theorem Completable.of_reads {r m : Reader} {ts : List Token} (h : r.Reads ts m)
    (hm : m.Completable) : r.Completable := by
  obtain ⟨us, r', p, hreads, hp⟩ := hm
  exact ⟨ts ++ us, r', p, h.append hreads, hp⟩

theorem Completable.of_step {r m : Reader} (t : Token) (h : r.step t = .ok m)
    (hm : m.Completable) : r.Completable :=
  .of_reads (.single h) hm

theorem closeBlock_closable (owner : Owner) (body before : List Stmt)
    (outer : List (Owner × List Stmt)) (t : Token) :
    ∃ r s, closeBlock ⟨.ready, body, (owner, before) :: outer⟩ t = .ok r ∧
      r.Closable (s :: before) outer := by
  cases owner with
  | function f params => exact ⟨_, _, rfl, closable_ended⟩
  | branch c earlier => exact ⟨_, _, rfl, closable_branched⟩
  | otherwise arm earlier => exact ⟨_, _, rfl, closable_ended⟩
  | loop c => exact ⟨_, _, rfl, closable_ended⟩

/-- Where the innermost block can be closed, all of them can. -/
theorem Closable.completable {r : Reader} {done : List Stmt}
    {outer : List (Owner × List Stmt)} (h : r.Closable done outer) :
    r.Completable := by
  induction outer generalizing r done with
  | nil => exact ⟨[], r, done.reverse, .nil r, h.finish?⟩
  | cons block outer ih =>
      obtain ⟨owner, before⟩ := block
      obtain ⟨m, s, hclose, hm⟩ :=
        closeBlock_closable owner done before outer Symbol.rbrace.token
      refine .of_step Symbol.rbrace.token ?_ (ih hm)
      rw [h.rbrace _ rfl, hclose]

theorem Opens.completable {r : Reader} {owner : Owner} {done : List Stmt}
    {outer : List (Owner × List Stmt)} (h : r.Opens owner done outer) :
    r.Completable :=
  .of_step Symbol.lbrace.token (h _ rfl) Between.ready.closable.completable

theorem completable_ended (done : List Stmt)
    (outer : List (Owner × List Stmt)) : Completable ⟨.ended, done, outer⟩ :=
  .of_step ⟨.newline, "\n", 1⟩ rfl Between.ready.closable.completable

theorem completable_expr (slot : Slot) (er : ExprReader) (done : List Stmt)
    (outer : List (Owner × List Stmt)) :
    Completable ⟨.expr slot er, done, outer⟩ := by
  obtain ⟨ts, er', e, hreads, her'⟩ := er.exists_complete
  refine .of_reads (reads_expr hreads slot done outer) ?_
  cases slot with
  | init ty x => exact (closable_expr her' rfl).completable
  | value x => exact (closable_expr her' rfl).completable
  | result line => exact (closable_expr her' rfl).completable
  | branch earlier => exact (opens_expr her' rfl).completable
  | loop => exact (opens_expr her' rfl).completable
  | argument f args =>
      refine .of_step Symbol.rparen.token ?_
        (completable_ended (.call f (e :: args).reverse :: done) outer)
      rw [step_of_complete her' rfl (by decide)]
      rfl

/-- Nothing that has been read rules out every continuation. -/
theorem completable (r : Reader) : r.Completable := by
  obtain ⟨mode, done, outer⟩ := r
  have hinit : ∀ ty x, Completable ⟨.typedName ty x, done, outer⟩ := fun ty x =>
    .of_step Symbol.assign.token rfl
      (completable_expr (.init ty x) .start done outer)
  have hparams : ∀ f, Completable ⟨.params f, done, outer⟩ := fun _ =>
    .of_step Symbol.rparen.token rfl opens_block.completable
  have hfunctionName : ∀ f, Completable ⟨.functionName f, done, outer⟩ :=
    fun f => .of_step Symbol.lparen.token rfl (hparams f)
  have hparamEnd : ∀ f params, Completable ⟨.paramEnd f params, done, outer⟩ :=
    fun _ _ => .of_step Symbol.rparen.token rfl opens_block.completable
  have hparamName : ∀ f params ty,
      Completable ⟨.paramName f params ty, done, outer⟩ :=
    fun _ _ _ => .of_step (Ident.token ⟨"x", 1⟩) rfl (hparamEnd _ _)
  cases mode with
  | ready => exact Between.ready.closable.completable
  | ended => exact completable_ended done outer
  | branched arm earlier newline => exact closable_branched.completable
  | elseRead arm earlier => exact opens_elseRead.completable
  | typed ty => exact .of_step (Ident.token ⟨"x", 1⟩) rfl (hinit ty _)
  | typedName ty x => exact hinit ty x
  | named x =>
      exact .of_step Symbol.assign.token rfl
        (completable_expr (.value x) .start done outer)
  | calling f =>
      exact .of_step Symbol.rparen.token rfl (completable_ended _ outer)
  | returning line => exact closable_returning.completable
  | function => exact .of_step (Ident.token ⟨"f", 1⟩) rfl (hfunctionName _)
  | functionName f => exact hfunctionName f
  | params f => exact hparams f
  | paramType f params =>
      exact .of_step (TypeName.token ⟨.int, "int", 1⟩) rfl
        (hparamName f params _)
  | paramName f params ty => exact hparamName f params ty
  | paramEnd f params => exact hparamEnd f params
  | block owner => exact opens_block.completable
  | expr slot er => exact completable_expr slot er done outer

end Reader

/-! ## Every error blames its token -/

/-- The faults that are found at a token. -/
def Reader.faults : List SyntaxFault :=
  [.expectAssign, .expectId, .expectNewline, .expectType, .expectOpeningParen,
    .expectClosingParen, .expectOpeningBrace, .expectClosingBrace,
    .invalidExpression, .unexpectedCharacter]

/-- The error is one of reading, at this token. -/
def SyntaxError.Blames (e : SyntaxError) (t : Token) : Prop :=
  ∃ fault ∈ Reader.faults, e = t.blame fault

theorem ExprReader.takeOperand_error {r : ExprReader} {t : Token}
    {e : SyntaxError} (h : r.takeOperand t = .error e) : e.Blames t := by
  rw [takeOperand] at h
  split at h
  · cases h
  · split at h
    · cases h
    · cases h
    · cases h
      exact ⟨_, by decide, rfl⟩

theorem ExprReader.takeAfter_error {r : ExprReader} {v : Expr} {t : Token}
    {e : SyntaxError} (h : r.takeAfter v t = .error e) : e.Blames t := by
  rw [takeAfter] at h
  split at h
  · cases h
  · split at h
    · cases h
    · split at h
      · cases h
      · cases h
        exact ⟨_, by decide, rfl⟩
    · split at h
      · cases h
      · cases h
      · cases h
        exact ⟨_, by decide, rfl⟩

theorem ExprReader.step_error {r : ExprReader} {t : Token} {e : SyntaxError}
    (h : r.step t = .error e) : e.Blames t := by
  have hoperand : ∀ r : ExprReader,
      (r.takeOperand t).map Progress.reading = .error e → e.Blames t := by
    intro r h
    cases hr : r.takeOperand t with
    | ok r' => rw [hr] at h; cases h
    | error e' =>
        rw [hr] at h
        cases h
        exact takeOperand_error hr
  rw [step] at h
  split at h
  · exact hoperand _ h
  · split at h
    · cases h
    · exact takeAfter_error h
  · split at h
    · cases h
    · exact hoperand _ h
  · exact takeAfter_error h

namespace Reader

theorem closeBlock_error {r : Reader} {t : Token} {e : SyntaxError}
    (h : r.closeBlock t = .error e) : e.Blames t := by
  rw [closeBlock] at h
  split at h
  · cases h
    exact ⟨_, by decide, rfl⟩
  · cases h
  · cases h
  · cases h
  · cases h

theorem openBlock_error {r : Reader} {owner : Owner} {t : Token}
    {e : SyntaxError} (h : r.openBlock owner t = .error e) : e.Blames t := by
  rw [openBlock] at h
  split at h
  · cases h
  · cases h
    exact ⟨_, by decide, rfl⟩

theorem separate_error {r : Reader} {t : Token} {e : SyntaxError}
    (h : r.separate t = .error e) : e.Blames t := by
  rw [separate] at h
  split at h
  · cases h
  · exact closeBlock_error h
  · cases h
    exact ⟨_, by decide, rfl⟩

theorem begin_error {r : Reader} {t : Token} {e : SyntaxError}
    (h : r.begin t = .error e) : e.Blames t := by
  rw [begin] at h
  split at h
  · cases h
  · split at h
    · cases h
    · exact closeBlock_error h
    · cases h
    · cases h
    · cases h
    · cases h
    · cases h
    · cases h
      refine ⟨_, ?_, rfl⟩
      split <;> decide

theorem fill_error {r : Reader} {slot : Slot} {v : Expr} {t : Token}
    {e : SyntaxError} (h : r.fill slot v t = .error e) : e.Blames t := by
  cases slot with
  | init ty x => exact separate_error h
  | value x => exact separate_error h
  | result line => exact separate_error h
  | branch earlier => exact openBlock_error h
  | loop => exact openBlock_error h
  | argument f args =>
      simp only [fill] at h
      split at h
      · cases h
      · cases h
      · cases h
        exact ⟨_, by decide, rfl⟩

theorem advance_error {r : Reader} {slot : Slot} {er : ExprReader} {t : Token}
    {e : SyntaxError} (h : r.advance slot er t = .error e) : e.Blames t := by
  rw [advance] at h
  split at h
  · next hstep =>
      cases h
      exact ExprReader.step_error hstep
  · cases h
  · exact fill_error h

theorem takeName_error {r : Reader} {t : Token} {mode : Ident → Mode}
    {e : SyntaxError} (h : r.takeName t mode = .error e) : e.Blames t := by
  rw [takeName] at h
  split at h
  · cases h
  · cases h
    exact ⟨_, by decide, rfl⟩

theorem takeParamType_error {r : Reader} {f : Ident}
    {params : List Param} {t : Token} {e : SyntaxError}
    (h : r.takeParamType f params t = .error e) : e.Blames t := by
  rw [takeParamType] at h
  split at h
  · cases h
  · cases h
    exact ⟨_, by decide, rfl⟩

theorem takeSymbol_error {r : Reader} {t : Token} {s : Symbol}
    {fault : SyntaxFault} {mode : Mode} {e : SyntaxError}
    (hfault : fault ∈ faults) (h : r.takeSymbol t s fault mode = .error e) :
    e.Blames t := by
  rw [takeSymbol] at h
  split at h
  · cases h
  · cases h
    exact ⟨fault, hfault, rfl⟩

theorem step_error {r : Reader} {t : Token} {e : SyntaxError}
    (h : r.step t = .error e) : e.Blames t := by
  obtain ⟨mode, done, outer⟩ := r
  cases mode with
  | ready => exact begin_error h
  | ended => exact separate_error h
  | branched arm earlier newline =>
      simp only [step] at h
      split at h
      · cases h
      · cases h
      · split at h
        · exact begin_error h
        · exact separate_error h
  | elseRead arm earlier =>
      simp only [step] at h
      split at h
      · cases h
      · exact openBlock_error h
  | typed ty => exact takeName_error h
  | typedName ty x => exact takeSymbol_error (by decide) h
  | named x =>
      simp only [step] at h
      split at h
      · cases h
      · exact takeSymbol_error (by decide) h
  | calling f =>
      simp only [step] at h
      split at h
      · cases h
      · exact advance_error h
  | returning line =>
      simp only [step] at h
      split at h
      · exact separate_error h
      · exact separate_error h
      · exact advance_error h
  | function => exact takeName_error h
  | functionName f => exact takeSymbol_error (by decide) h
  | params f =>
      simp only [step] at h
      split at h
      · cases h
      · exact takeParamType_error h
  | paramType f params => exact takeParamType_error h
  | paramName f params ty =>
      simp only [step] at h
      exact takeName_error h
  | paramEnd f params =>
      simp only [step] at h
      split at h
      · cases h
      · exact takeSymbol_error (by decide) h
  | block owner => exact openBlock_error h
  | expr slot er => exact advance_error h

/-- A run that fails does so at one token, after a run that does not. -/
theorem exists_refused_of_error {r : Reader} {ts : List Token} {e : SyntaxError}
    (h : ts.foldlM step r = .error e) :
    ∃ us t vs m, ts = us ++ t :: vs ∧ r.Reads us m ∧ m.step t = .error e := by
  induction ts generalizing r with
  | nil => cases h
  | cons t ts ih =>
      rw [List.foldlM_cons] at h
      cases hstep : r.step t with
      | error e' =>
          rw [hstep] at h
          cases h
          exact ⟨[], t, ts, r, rfl, .nil r, hstep⟩
      | ok m =>
          rw [hstep] at h
          obtain ⟨us, u, vs, m', rfl, hreads, hu⟩ := ih h
          exact ⟨t :: us, u, vs, m', rfl, .cons hstep hreads, hu⟩

end Reader

/-! ## The two ways to fail -/

/-- The faults of a list of tokens that is no program. -/
theorem fault_of_ofTokens_eq_error {ts : List Token} {e : SyntaxError}
    (h : Program.ofTokens ts = .error e) :
    e.fault ∈ SyntaxFault.unexpectedEnd :: Reader.faults := by
  rw [Program.ofTokens] at h
  split at h
  · next hfold =>
      cases h
      obtain ⟨_, t, _, r, -, -, hstep⟩ := Reader.exists_refused_of_error hfold
      obtain ⟨fault, hfault, rfl⟩ := Reader.step_error hstep
      exact List.mem_cons_of_mem _ hfault
  · split at h
    · cases h
    · cases h
      exact List.mem_cons_self

theorem exists_ofTokens_append_eq_ok {ts : List Token} {r : Reader}
    (h : Reader.start.Reads ts r) :
    ∃ ext p, Program.ofTokens (ts ++ ext) = .ok p := by
  obtain ⟨ext, r', p, hreads, hp⟩ := r.completable
  refine ⟨ext, p, ?_⟩
  have hall : (ts ++ ext).foldlM Reader.step Reader.start = .ok r' :=
    h.append hreads
  rw [Program.ofTokens, hall]
  simp only [hp]

theorem ofTokens_append_eq_error {ts : List Token} {t : Token} {r : Reader}
    {e : SyntaxError} (h : Reader.start.Reads ts r) (ht : r.step t = .error e)
    (ext : List Token) : Program.ofTokens (ts ++ [t] ++ ext) = .error e := by
  have hall : (ts ++ [t] ++ ext).foldlM Reader.step Reader.start =
      .error e := by
    rw [List.append_assoc, List.foldlM_append,
      show ts.foldlM Reader.step Reader.start = .ok r from h]
    show ([t] ++ ext).foldlM Reader.step r = .error e
    rw [List.singleton_append, List.foldlM_cons, ht]
    rfl
  rw [Program.ofTokens, hall]

/-- The text may be the beginning of a program, and the error is that it
ends. -/
structure EndsTooEarly (ts : List Token) (e : SyntaxError) : Prop where
  fault : e.fault = .unexpectedEnd
  found : e.found = none
  nonempty : ts ≠ []
  line : ts.getLast?.map Token.line = some e.line
  viable : ∃ ext p, Program.ofTokens (ts ++ ext) = .ok p

/-- The tokens before the one at `i` may begin a program. With it they do not,
and the error is this one whatever follows. -/
structure RefusedAt (ts : List Token) (e : SyntaxError) (i : Nat) : Prop where
  blamed : ∃ t, ts[i]? = some t ∧ e.line = t.line ∧
    e.found = if t.kind = .newline then none else some t.text
  viable : ∃ ext p, Program.ofTokens (ts.take i ++ ext) = .ok p
  refused : ∀ ext, Program.ofTokens (ts.take (i + 1) ++ ext) = .error e

theorem EndsTooEarly.not_refusedAt {ts : List Token} {e : SyntaxError}
    (h : EndsTooEarly ts e) (i : Nat) : ¬ RefusedAt ts e i := by
  intro hi
  obtain ⟨ext, p, hok⟩ := h.viable
  have herr := hi.refused (ts.drop (i + 1) ++ ext)
  rw [← List.append_assoc, List.take_append_drop, hok] at herr
  cases herr

theorem refusedAt_of_step_error {us : List Token} {t : Token} {r : Reader}
    {e : SyntaxError} (h : Reader.start.Reads us r) (ht : r.step t = .error e)
    (vs : List Token) : RefusedAt (us ++ t :: vs) e us.length := by
  obtain ⟨fault, -, rfl⟩ := Reader.step_error ht
  refine ⟨⟨t, ?_, rfl, rfl⟩, ?_, ?_⟩
  · rw [List.getElem?_append_right (Nat.le_refl _), Nat.sub_self,
      List.getElem?_cons_zero]
  · rw [List.take_left' rfl]
    exact exists_ofTokens_append_eq_ok h
  · have htake : (us ++ t :: vs).take (us.length + 1) = us ++ [t] := by
      rw [List.append_cons, List.take_left' (by simp)]
    rw [htake]
    exact ofTokens_append_eq_error h ht

theorem endsTooEarly_of_finish?_eq_none {ts : List Token} {r : Reader}
    (h : Reader.start.Reads ts r) (hr : r.finish? = none) :
    EndsTooEarly ts
      ⟨.unexpectedEnd, (ts.getLast?.map Token.line).getD 1, none⟩ := by
  have hne : ts ≠ [] := by
    rintro rfl
    cases h
    cases hr
  refine ⟨rfl, rfl, hne, ?_, exists_ofTokens_append_eq_ok h⟩
  rw [List.getLast?_eq_some_getLast hne]
  rfl

/-- A syntax error stands at the earliest possible place: either all of the text
may begin a program and only its end is wrong, or the error blames the first
token with which the text can no longer become one, and nothing after it
matters. -/
theorem ofTokens_error_earliest {ts : List Token} {e : SyntaxError}
    (h : Program.ofTokens ts = .error e) :
    (EndsTooEarly ts e ∧ ¬ ∃ i, RefusedAt ts e i) ∨
      (¬ EndsTooEarly ts e ∧ ∃ i, RefusedAt ts e i) := by
  rw [Program.ofTokens] at h
  split at h
  · next hfold =>
      cases h
      obtain ⟨us, t, vs, r, rfl, hreads, ht⟩ :=
        Reader.exists_refused_of_error hfold
      have hrefused := refusedAt_of_step_error hreads ht vs
      exact .inr ⟨fun hend => hend.not_refusedAt _ hrefused, _, hrefused⟩
  · next r hreads =>
      split at h
      · cases h
      · next hr =>
          cases h
          have hend := endsTooEarly_of_finish?_eq_none hreads hr
          exact .inl ⟨hend, fun ⟨i, hi⟩ => hend.not_refusedAt i hi⟩

theorem ofTokens_error_earliest_newline :
    ∃ i,
      RefusedAt [⟨.name, "x", 3⟩, ⟨.symbol .assign, "=", 3⟩,
        ⟨.newline, "\n", 3⟩]
      ⟨.invalidExpression, 3, none⟩ i := by
  have h : Program.ofTokens [⟨.name, "x", 3⟩, ⟨.symbol .assign, "=", 3⟩,
      ⟨.newline, "\n", 3⟩] = .error ⟨.invalidExpression, 3, none⟩ := rfl
  rcases ofTokens_error_earliest h with ⟨hend, -⟩ | ⟨-, hrefused⟩
  · exact absurd hend.fault (by decide)
  · exact hrefused

/-! ## Programs and the reader at their end -/

theorem ofTokens_of_reads {ts : List Token} {r : Reader}
    (h : Reader.start.Reads ts r) :
    Program.ofTokens ts = r.finish?.elim
      (.error ⟨.unexpectedEnd, (ts.getLast?.map Token.line).getD 1, none⟩)
      .ok := by
  have hfold : ts.foldlM Reader.step Reader.start = .ok r := h
  rw [Program.ofTokens, hfold]
  dsimp only
  cases r.finish? <;> rfl

theorem exists_reads_of_ofTokens_eq_ok {ts : List Token} {p : Program}
    (h : Program.ofTokens ts = .ok p) :
    ∃ r, Reader.start.Reads ts r ∧ r.finish? = some p := by
  cases hfold : ts.foldlM Reader.step Reader.start with
  | error e =>
      rw [Program.ofTokens, hfold] at h
      cases h
  | ok r =>
      refine ⟨r, hfold, ?_⟩
      rw [ofTokens_of_reads hfold] at h
      cases hr : r.finish? with
      | none =>
          rw [hr] at h
          cases h
      | some q =>
          rw [hr] at h
          cases h
          rfl

end Quill
