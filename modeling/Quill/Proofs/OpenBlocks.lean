import Quill.Proofs.ViablePrefix

/-!
# Where a statement cannot begin

Between statements the reader refuses a token with one of two faults, and they
tell whether a block is open: outside every block the token is unexpected,
inside one the closing brace is missing. Whoever sees the first of them knows
that the text was a complete program up to there, and whoever sees the second
knows that it was not.

The first fault has a second source. A closing brace where no block is open is
found right behind a statement, in states that are not between statements but
may go there: behind an expression, behind `return`, behind the block of an
`if`. In all of them a line could end, and so could the program.

No other error has these faults, wherever in a statement it is found.
-/

namespace Quill

/-! ## Faults inside a statement -/

/-- The faults that are found between statements. -/
def SyntaxFault.isBetween : SyntaxFault → Bool
  | .unexpectedCharacter | .expectClosingBrace => true
  | _ => false

namespace ExprReader

theorem takeOperand_fault {r : ExprReader} {t : Token} {e : SyntaxError}
    (h : r.takeOperand t = .error e) : e.fault = .invalidExpression := by
  rw [takeOperand] at h
  split at h
  · cases h
  · split at h <;> cases h
    rfl

theorem takeAfter_fault {r : ExprReader} {v : Expr} {t : Token}
    {e : SyntaxError} (h : r.takeAfter v t = .error e) :
    e.fault = .expectClosingParen := by
  rw [takeAfter] at h
  split at h
  · cases h
  · split at h
    · cases h
    · split at h <;> cases h
      rfl
    · split at h <;> cases h
      rfl

theorem map_takeOperand_fault {r : ExprReader} {t : Token} {e : SyntaxError}
    (h : (r.takeOperand t).map Progress.reading = .error e) :
    e.fault = .invalidExpression := by
  cases hr : r.takeOperand t with
  | ok r' =>
      rw [hr] at h
      cases h
  | error e' =>
      rw [hr] at h
      cases h
      exact takeOperand_fault hr

theorem step_isBetween {r : ExprReader} {t : Token} {e : SyntaxError}
    (h : r.step t = .error e) : e.fault.isBetween = false := by
  have hoperand : ∀ r : ExprReader,
      (r.takeOperand t).map Progress.reading = .error e →
        e.fault.isBetween = false := by
    intro r hr
    rw [map_takeOperand_fault hr]
    rfl
  have hafter : ∀ v, r.takeAfter v t = .error e →
      e.fault.isBetween = false := by
    intro v hv
    rw [takeAfter_fault hv]
    rfl
  rw [step] at h
  split at h
  · exact hoperand _ h
  · split at h
    · cases h
    · exact hafter _ h
  · split at h
    · cases h
    · exact hoperand _ h
  · exact hafter _ h

/-- An expression that a token finishes was complete. -/
theorem complete_of_finished {r : ExprReader} {t : Token} {e : Expr}
    (h : r.step t = .ok (.finished e)) : r.Complete e := by
  have hoperand : ∀ r : ExprReader,
      (r.takeOperand t).map Progress.reading ≠ .ok (.finished e) := by
    intro r hr
    cases hr' : r.takeOperand t <;> rw [hr'] at hr <;> cases hr
  have hafter : ∀ v, r.focus.operand? = some v →
      r.takeAfter v t = .ok (.finished e) → r.Complete e := by
    intro v hv hfinished
    rw [takeAfter] at hfinished
    split at hfinished
    · cases hfinished
    · split at hfinished
      · next hnested =>
          cases hfinished
          exact ⟨hnested, v, hv, rfl⟩
      · split at hfinished <;> cases hfinished
      · split at hfinished <;> cases hfinished
  rw [step] at h
  split at h
  · exact absurd h (hoperand r)
  · next x hx =>
      split at h
      · cases h
      · exact hafter (.var x) (by rw [hx]; rfl) h
  · split at h
    · cases h
    · exact absurd h (hoperand _)
  · next v hv => exact hafter v (by rw [hv]; rfl) h

end ExprReader

namespace Reader

variable {r : Reader} {t : Token} {e : SyntaxError}

theorem openBlock_isBetween {owner : Owner}
    (h : r.openBlock owner t = .error e) : e.fault.isBetween = false := by
  rw [openBlock] at h
  split at h <;> cases h
  rfl

theorem takeName_isBetween {mode : Ident → Mode}
    (h : r.takeName t mode = .error e) : e.fault.isBetween = false := by
  rw [takeName] at h
  split at h <;> cases h
  rfl

theorem takeParamType_isBetween {f : Ident} {params : List Param}
    (h : r.takeParamType f params t = .error e) :
    e.fault.isBetween = false := by
  rw [takeParamType] at h
  split at h <;> cases h
  rfl

theorem takeSymbol_isBetween {s : Symbol} {fault : SyntaxFault} {mode : Mode}
    (hfault : fault.isBetween = false)
    (h : r.takeSymbol t s fault mode = .error e) :
    e.fault.isBetween = false := by
  rw [takeSymbol] at h
  split at h <;> cases h
  exact hfault

/-! ## Faults between statements -/

theorem closeBlock_fault (h : r.closeBlock t = .error e) :
    r.outer = [] ∧ e.fault = .unexpectedCharacter := by
  rw [closeBlock] at h
  split at h <;> cases h
  exact ⟨‹_›, rfl⟩

/-- Where a statement cannot begin, the fault says whether a block is open. -/
theorem begin_fault (h : r.begin t = .error e) :
    e.fault = if r.outer.isEmpty then .unexpectedCharacter
      else .expectClosingBrace := by
  rw [begin] at h
  split at h
  · cases h
  · split at h
    case h_2 =>
      obtain ⟨houter, hfault⟩ := closeBlock_fault h
      rw [hfault, houter]
      rfl
    case h_8 =>
      cases h
      rfl
    all_goals cases h

/-- Behind a statement only a closing brace that closes nothing has a fault of
this kind. -/
theorem separate_fault (h : r.separate t = .error e)
    (hfault : e.fault.isBetween = true) :
    r.outer = [] ∧ e.fault = .unexpectedCharacter := by
  rw [separate] at h
  split at h
  · cases h
  · exact closeBlock_fault h
  · cases h
    cases hfault

/-- What the fault of an error tells about the reader that found it. -/
structure Tells (r : Reader) (fault : SyntaxFault) : Prop where
  complete : fault = .unexpectedCharacter → ∃ done, r.Closable done []
  opened : fault = .expectClosingBrace → ∃ done, r.Between done r.outer ∧
    r.outer ≠ []

theorem tells_of_not_isBetween {fault : SyntaxFault}
    (h : fault.isBetween = false) : r.Tells fault := by
  refine ⟨?_, ?_⟩
  · rintro rfl
    cases h
  · rintro rfl
    cases h

theorem Between.tells {done : List Stmt} (hr : r.Between done r.outer)
    (h : e.fault = if r.outer.isEmpty then .unexpectedCharacter
      else .expectClosingBrace) :
    r.Tells e.fault := by
  rw [h]
  by_cases houter : r.outer = []
  · rw [houter] at hr ⊢
    refine ⟨fun _ => ⟨done, hr.closable⟩, fun hbrace => ?_⟩
    cases hbrace
  · rw [if_neg (by simpa using houter)]
    refine ⟨fun hcharacter => ?_, fun _ => ⟨done, hr, houter⟩⟩
    cases hcharacter

/-- Behind a statement, whatever the reader with that statement makes of the
token. -/
theorem Closable.tells {r₀ : Reader} {done : List Stmt}
    (hr : r.Closable done r₀.outer) (h : r₀.separate t = .error e) :
    r.Tells e.fault := by
  cases hfault : e.fault.isBetween with
  | false => exact tells_of_not_isBetween hfault
  | true =>
      obtain ⟨houter, hcharacter⟩ := separate_fault h hfault
      rw [houter] at hr
      rw [hcharacter]
      refine ⟨fun _ => ⟨done, hr⟩, fun hbrace => ?_⟩
      cases hbrace

theorem advance_tells {slot : Slot} {er : ExprReader} {done : List Stmt}
    {outer : List (Owner × List Stmt)}
    (h : advance ⟨.expr slot er, done, outer⟩ slot er t = .error e) :
    Tells ⟨.expr slot er, done, outer⟩ e.fault := by
  rw [advance] at h
  split at h
  · next hstep =>
      cases h
      exact tells_of_not_isBetween (ExprReader.step_isBetween hstep)
  · cases h
  · next v hstep =>
      have hv := ExprReader.complete_of_finished hstep
      cases slot with
      | init ty x => exact (closable_expr hv rfl).tells h
      | value x => exact (closable_expr hv rfl).tells h
      | result line => exact (closable_expr hv rfl).tells h
      | branch earlier => exact tells_of_not_isBetween (openBlock_isBetween h)
      | loop => exact tells_of_not_isBetween (openBlock_isBetween h)
      | argument f args =>
          simp only [fill] at h
          split at h <;> cases h
          exact tells_of_not_isBetween rfl

/-- The first token of an expression never finishes it. -/
theorem advance_start_isBetween {slot : Slot}
    (h : r.advance slot .start t = .error e) : e.fault.isBetween = false := by
  rw [advance] at h
  split at h
  · next hstep =>
      cases h
      exact ExprReader.step_isBetween hstep
  · cases h
  · next hstep =>
      obtain ⟨-, v, hv, -⟩ := ExprReader.complete_of_finished hstep
      cases hv

/-- One token: the error it causes tells whether a block is open. -/
theorem step_tells (h : r.step t = .error e) : r.Tells e.fault := by
  obtain ⟨mode, done, outer⟩ := r
  cases mode with
  | ready => exact Between.ready.tells (begin_fault h)
  | ended => exact closable_ended.tells h
  | branched arm earlier newline =>
      simp only [step] at h
      split at h
      · cases h
      · cases h
      · cases newline with
        | true =>
            have hfault := begin_fault h
            exact Between.branched.tells hfault
        | false => exact closable_branched.tells h
  | elseRead arm earlier =>
      simp only [step] at h
      split at h
      · cases h
      · exact tells_of_not_isBetween (openBlock_isBetween h)
  | typed ty => exact tells_of_not_isBetween (takeName_isBetween h)
  | typedName ty x => exact tells_of_not_isBetween (takeSymbol_isBetween rfl h)
  | named x =>
      simp only [step] at h
      split at h
      · cases h
      · exact tells_of_not_isBetween (takeSymbol_isBetween rfl h)
  | calling f =>
      simp only [step] at h
      split at h
      · cases h
      · exact tells_of_not_isBetween (advance_start_isBetween h)
  | returning line =>
      simp only [step] at h
      split at h
      · exact closable_returning.tells h
      · exact closable_returning.tells h
      · exact tells_of_not_isBetween (advance_start_isBetween h)
  | function => exact tells_of_not_isBetween (takeName_isBetween h)
  | functionName f => exact tells_of_not_isBetween (takeSymbol_isBetween rfl h)
  | params f =>
      simp only [step] at h
      split at h
      · cases h
      · exact tells_of_not_isBetween (takeParamType_isBetween h)
  | paramType f params =>
      exact tells_of_not_isBetween (takeParamType_isBetween h)
  | paramName f params ty =>
      simp only [step] at h
      exact tells_of_not_isBetween (takeName_isBetween h)
  | paramEnd f params =>
      simp only [step] at h
      split at h
      · cases h
      · exact tells_of_not_isBetween (takeSymbol_isBetween rfl h)
  | block owner => exact tells_of_not_isBetween (openBlock_isBetween h)
  | expr slot er => exact advance_tells h

/-- Inside a block the input may not end. -/
theorem Between.finish?_eq_none {done : List Stmt}
    {outer : List (Owner × List Stmt)} (hr : r.Between done outer)
    (houter : outer ≠ []) : r.finish? = none := by
  rw [hr.finish?_eq]
  cases outer with
  | nil => exact absurd rfl houter
  | cons block outer => cases hr <;> rfl

end Reader

/-! ## The text before the error -/

/-- What is said about an error without the reader is what the reader has
found. -/
theorem RefusedAt.exists_step {ts : List Token} {e : SyntaxError} {i : Nat}
    (h : RefusedAt ts e i) :
    ∃ t r, ts[i]? = some t ∧ Reader.start.Reads (ts.take i) r ∧
      r.step t = .error e := by
  obtain ⟨t, ht, -, -⟩ := h.blamed
  have htake : ts.take (i + 1) = ts.take i ++ [t] := by
    rw [List.take_add_one, ht]
    rfl
  have hrefused := h.refused
  rw [htake] at hrefused
  obtain ⟨ext, p, hviable⟩ := h.viable
  cases hread : (ts.take i).foldlM Reader.step Reader.start with
  | error e' =>
      rw [Program.ofTokens, List.foldlM_append, hread] at hviable
      cases hviable
  | ok r =>
      refine ⟨t, r, ht, hread, ?_⟩
      cases hstep : r.step t with
      | error e' =>
          have herror := ofTokens_append_eq_error hread hstep []
          rw [hrefused] at herror
          cases herror
          rfl
      | ok r' =>
          -- the reader could go on to the end of some program
          have hreads : Reader.start.Reads (ts.take i ++ [t]) r' :=
            .append hread (.single hstep)
          obtain ⟨ext', p', hok⟩ := exists_ofTokens_append_eq_ok hreads
          rw [hrefused] at hok
          cases hok

/-- The two faults of a token that can begin no statement tell whether a block
is open. A token that is unexpected stands behind a complete program. A token in
place of a closing brace stands behind the beginning of a program that ends too
early. And no list of tokens is refused with a fault that is not the
reader's. -/
theorem ofTokens_error_tells_block {ts : List Token} {e : SyntaxError}
    (h : Program.ofTokens ts = .error e) :
    (e.fault.isBetween = true → ∃ i, RefusedAt ts e i) ∧
      (∀ i, RefusedAt ts e i →
        (e.fault = .unexpectedCharacter →
          ∃ p, Program.ofTokens (ts.take i) = .ok p) ∧
        (e.fault = .expectClosingBrace →
          ∃ line, Program.ofTokens (ts.take i) =
            .error ⟨.unexpectedEnd, line, none⟩)) ∧
      e.fault ∉ [.unknownCharacter, .invalidStatement, .unknownError] := by
  refine ⟨fun hfault => ?_, fun i hi => ?_, ?_⟩
  · rw [Program.ofTokens] at h
    split at h
    · next hfold =>
        cases h
        obtain ⟨us, t, vs, r, rfl, hreads, ht⟩ :=
          Reader.exists_refused_of_error hfold
        exact ⟨_, refusedAt_of_step_error hreads ht vs⟩
    · split at h
      · cases h
      · cases h
        cases hfault
  · obtain ⟨t, r, -, hreads, hstep⟩ := hi.exists_step
    obtain ⟨hcomplete, hopened⟩ := Reader.step_tells hstep
    rw [ofTokens_of_reads hreads]
    refine ⟨fun hfault => ?_, fun hfault => ?_⟩
    · obtain ⟨done, hdone⟩ := hcomplete hfault
      exact ⟨done.reverse, by rw [hdone.finish?, Option.elim_some]⟩
    · obtain ⟨done, hdone, houter⟩ := hopened hfault
      exact ⟨_, by rw [hdone.finish?_eq_none houter, Option.elim_none]⟩
  · have hother : ∀ fault ∈ SyntaxFault.unexpectedEnd :: Reader.faults,
        fault ∉ [SyntaxFault.unknownCharacter, .invalidStatement,
          .unknownError] := by
      decide
    exact hother _ (fault_of_ofTokens_eq_error h)

/-- A brace that closes nothing behind a conditional, and a number in the block
of a loop. -/
theorem ofTokens_error_tells_block_braces :
    ∃ (ts us : List Token) (e e' : SyntaxError),
      ts =
        [⟨.keyword .if, "if", 1⟩, ⟨.name, "x", 1⟩, ⟨.symbol .lbrace, "\x7b", 1⟩,
          ⟨.symbol .rbrace, "\x7d", 1⟩, ⟨.symbol .rbrace, "\x7d", 1⟩] ∧
      us = [⟨.keyword .while, "while", 1⟩, ⟨.name, "x", 1⟩,
        ⟨.symbol .lbrace, "\x7b", 1⟩, ⟨.newline, "\n", 1⟩, ⟨.integer, "5", 2⟩] ∧
      e.fault = .unexpectedCharacter ∧ Program.ofTokens ts = .error e ∧
        RefusedAt ts e 4 ∧
      (∃ p, Program.ofTokens (ts.take 4) = .ok p) ∧
      e'.fault = .expectClosingBrace ∧ Program.ofTokens us = .error e' ∧
        RefusedAt us e' 4 ∧
      ∃ line, Program.ofTokens (us.take 4) =
        .error ⟨.unexpectedEnd, line, none⟩ := by
  have hif : ∃ r, Reader.start.Reads [⟨.keyword .if, "if", 1⟩, ⟨.name, "x", 1⟩,
      ⟨.symbol .lbrace, "\x7b", 1⟩, ⟨.symbol .rbrace, "\x7d", 1⟩] r ∧
      r.step ⟨.symbol .rbrace, "\x7d", 1⟩ =
        .error ⟨.unexpectedCharacter, 1, some "\x7d"⟩ :=
    ⟨_, rfl, rfl⟩
  have hwhile : ∃ r,
      Reader.start.Reads [⟨.keyword .while, "while", 1⟩, ⟨.name, "x", 1⟩,
        ⟨.symbol .lbrace, "\x7b", 1⟩, ⟨.newline, "\n", 1⟩] r ∧
      r.step ⟨.integer, "5", 2⟩ = .error ⟨.expectClosingBrace, 2, some "5"⟩ :=
    ⟨_, rfl, rfl⟩
  obtain ⟨r, hreads, hstep⟩ := hif
  obtain ⟨r', hreads', hstep'⟩ := hwhile
  have hrefused := refusedAt_of_step_error hreads hstep []
  have hrefused' := refusedAt_of_step_error hreads' hstep' []
  refine ⟨_, _, _, _, rfl, rfl, rfl, rfl, hrefused, ?_, rfl, rfl, hrefused', ?_⟩
  · exact ((ofTokens_error_tells_block rfl).2.1 4 hrefused).1 rfl
  · exact ((ofTokens_error_tells_block rfl).2.1 4 hrefused').2 rfl

end Quill
