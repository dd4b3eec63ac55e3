import Quill.Proofs.Changes

/-!
# The call limit only cuts runs short

The limit is looked at in one place: before a declared function is called. A
looser limit says the same there or lets the call go on, so the plans of a part
under two limits are equal, or the plan under the stricter one is to fail with
the fault of the limit. All that follows is about runs that agree up to such a
failure. Nothing catches it, so the whole run ends there, and since printed
lines are never taken back, what it has printed is where the other run's output
begins.

That the limit bounds how many bodies run inside each other is a matter of
counting right: the number of calls that the machine counts is the number of
bodies around the part that is running, at every moment, because whatever has
ended has left the count as it was.
-/

namespace Quill

/-! ## How many bodies run inside each other -/

def Setting.isBody : Setting → Bool
  | .body _ _ => true
  | .same | .block => false

/-- How many function bodies there are among the parts around a moment. -/
def activeBodies (stack : List Setting) : Nat :=
  stack.countP Setting.isBody

/-- Whatever has ended, in whatever way, has left the count of calls as it
was. -/
theorem Machine.steady_calls :
    Machine.Steady fun m m' => m'.calls = m.calls where
  change h := by cases h <;> rfl
  trans h₁ h₂ := h₂.trans h₁
  inside setting m m' h := by
    cases setting with
    | same => exact h
    | block => exact h
    | body f args =>
        show m'.calls - 1 = m.calls
        rw [h]
        rfl

theorem Setting.calls_enter (setting : Setting) (m : Machine) :
    (setting.enter m).calls = m.calls + if setting.isBody then 1 else 0 := by
  cases setting <;> rfl

/-- The machine counts the bodies that are running, and they are no more than
the limit. -/
def withinLimit (limit : Option Nat) : Invariant limit where
  pre stack _ _ m := m.calls = activeBodies stack ∧ ∀ most ∈ limit,
    activeBodies stack ≤ most
  post _ _ m _ m' := m'.calls = m.calls
  plan_meets := by
    rintro stack y task m ⟨hcalls, hmost⟩
    refine (Machine.steady_calls.meets (task.local_plan m) rfl).imp ?_
    rintro y setting task' m' ⟨hm', hallowed⟩
    have hactive : activeBodies (setting :: stack) =
        activeBodies stack + if setting.isBody then 1 else 0 := List.countP_cons
    refine ⟨by rw [Setting.calls_enter, hactive, hm', hcalls],
      fun most hlimit => ?_⟩
    rw [hactive]
    cases setting with
    | same => exact hmost most hlimit
    | block => exact hmost most hlimit
    | body f args =>
        have hany : limit.any (· ≤ m.calls) = false := hallowed
        rw [Option.mem_def.1 hlimit, Option.any_some, decide_eq_false_iff_not,
          hcalls] at hany
        show activeBodies stack + 1 ≤ most
        omega

/-! ## Two limits -/

/-- The second limit is no stricter than the first; no limit at all is the
loosest. -/
def LimitLe (limit limit' : Option Nat) : Prop :=
  ∀ most' ∈ limit', ∃ most ∈ limit, most ≤ most'

theorem LimitLe.any {limit limit' : Option Nat} (h : LimitLe limit limit')
    {calls : Nat} (hcalls : limit'.any (· ≤ calls) = true) :
    limit.any (· ≤ calls) = true := by
  obtain ⟨most', hmost', hle'⟩ := (Option.any_eq_true _ _).1 hcalls
  obtain ⟨most, hmost, hle⟩ := h most' hmost'
  rw [Option.mem_def.1 hmost, Option.any_some, decide_eq_true_eq]
  have := of_decide_eq_true hle'
  omega

/-- What two limits do to one step: nothing, or the stricter one refuses a
call. -/
theorem Task.plan_of_limitLe {limit limit' : Option Nat}
    (hle : LimitLe limit limit') {y : Yield} (task : Task y) (m : Machine) :
    task.plan limit m = task.plan limit' m ∨
      ∃ e, e.fault = .recursionLimit ∧
        task.plan limit m = .done (.error e) m := by
  cases task with
  | call f args =>
      simp only [plan, planCall]
      cases Builtin.ofName? f.text with
      | some b => exact .inl rfl
      | none =>
          cases m.memory.find f with
          | error e => exact .inl rfl
          | ok decl =>
              dsimp only
              by_cases hlength : decl.params.length ≠ args.length
              · exact .inl (by rw [if_pos hlength, if_pos hlength])
              · rw [if_neg hlength, if_neg hlength]
                by_cases hlimit : limit.any (· ≤ m.calls) = true
                · rw [if_pos hlimit]
                  exact .inr ⟨_, rfl, rfl⟩
                · have hlimit' : ¬ limit'.any (· ≤ m.calls) = true :=
                    fun h => hlimit (hle.any h)
                  rw [if_neg hlimit, if_neg hlimit']
                  exact .inl rfl
  | _ => exact .inl rfl

/-- The first run goes like the second, or is cut short by the limit: it ends
with that fault, and the second, if it ends, has printed all that the first
has. -/
def Outcome.CutsShort {α : Type} (o o' : Outcome α) : Prop :=
  o = o' ∨ ∃ e m, o = .ended (.error e) m ∧ e.fault = .recursionLimit ∧
    o'.Ends fun _ m' => m.printed <:+ m'.printed

namespace Outcome

variable {α β : Type} {o o' : Outcome α}

theorem cutsShort_refl (o : Outcome α) : o.CutsShort o :=
  .inl rfl

theorem CutsShort.atEnd (h : o.CutsShort o') {f : Machine → Machine}
    (hf : ∀ m, (f m).printed = m.printed) :
    (o.atEnd f).CutsShort (o'.atEnd f) := by
  rcases h with rfl | ⟨e, m, rfl, he, hends⟩
  · exact .inl rfl
  · refine .inr ⟨e, f m, rfl, he, hends.atEnd fun _ m' hm' => ?_⟩
    rw [hf, hf]
    exact hm'

theorem CutsShort.andThen (h : o.CutsShort o') {f g : α → Machine → Outcome β}
    (hfg : ∀ a m, (f a m).CutsShort (g a m))
    (hg : ∀ a m, (g a m).Ends fun _ m' => m.printed <:+ m'.printed) :
    (o.andThen f).CutsShort (o'.andThen g) := by
  rcases h with rfl | ⟨e, m, rfl, he, hends⟩
  · match o with
    | .spent => exact cutsShort_refl _
    | .ended (.error e) m => exact cutsShort_refl _
    | .ended (.ok a) m => exact hfg a m
  · refine .inr ⟨e, m, rfl, he,
      hends.andThen (fun _ _ hm' => hm') fun a m₁ h₁ => ?_⟩
    exact fun r m₂ h₂ => h₁.trans (hg a m₁ r m₂ h₂)

end Outcome

/-- A plan whose answers are cut short is cut short. -/
theorem Plan.exec_cutsShort {limit' : Option Nat} {n calls : Nat}
    {prints : Bool} {a : Answers}
    (ha : ∀ y (task : Task y) m,
      (a y task m).CutsShort (answers limit' n y task m))
    {y : Yield} {p : Plan y} {m₀ : Machine}
    (hp : p.Local prints limit' calls m₀) :
    (p.exec a).CutsShort (p.exec (answers limit' n)) := by
  induction p generalizing m₀ with
  | done r m => exact Outcome.cutsShort_refl _
  | ask setting task m next ih =>
      obtain ⟨-, -, hnext⟩ := hp
      refine ((ha _ task (setting.enter m)).atEnd setting.printed_leave).andThen
        (fun v m₁ => ih v m₁ (hnext v m₁)) fun v m₁ => ?_
      exact Machine.steady_printed.exec (hnext v m₁)

theorem Task.run_cutsShort {limit limit' : Option Nat}
    (hle : LimitLe limit limit') (n : Nat) {y : Yield} (task : Task y)
    (m : Machine) : (task.run limit n m).CutsShort (task.run limit' n m) := by
  induction n generalizing y m with
  | zero =>
      rw [run_zero, run_zero]
      exact Outcome.cutsShort_refl _
  | succ n ih =>
      rcases task.plan_of_limitLe hle m with hplan | ⟨e, he, hplan⟩
      · rw [run_succ, run_succ, hplan]
        exact Plan.exec_cutsShort (fun y task m => ih task m)
          (task.local_plan m)
      · refine .inr ⟨e, m, ?_, he, Machine.steady_printed.run (n + 1) task m⟩
        rw [run_succ, hplan, Plan.exec_done]

theorem runProgram_cutsShort {limit limit' : Option Nat}
    (hle : LimitLe limit limit') (n : Nat) (p : Program) (m : Machine) :
    (runProgram limit n p m).CutsShort (runProgram limit' n p m) := by
  induction p generalizing m with
  | nil => exact Outcome.cutsShort_refl _
  | cons s rest ih =>
      refine (Task.run_cutsShort hle n (.stmt s) m).andThen (fun _ m₁ => ih m₁)
        fun _ m₁ => ?_
      exact Machine.steady_printed.runProgram n rest m₁

/-- At every moment of a run no more bodies are running than the limit says. A
run that ends in any way but at the limit ends in the same way, with the same
machine, under every looser limit. What a run that ends at the limit has printed
is where the output of every run under a looser limit begins. -/
theorem callLimit_only_cuts {limit limit' : Option Nat}
    (hle : LimitLe limit limit') (p : Program) {m : Machine}
    (hm : m.calls = 0) :
    (∀ {stack : List Setting} {y : Yield} {task : Task y} {m' : Machine},
      p.Reaches limit m stack task m' →
        m'.calls = activeBodies stack ∧ ∀ most ∈ limit,
          activeBodies stack ≤ most) ∧
    (∀ {n : Nat} {r : Except RuntimeError Unit} {m' : Machine},
      runProgram limit n p m = .ended r m' →
        (∀ e, r = .error e → e.fault ≠ .recursionLimit) →
        runProgram limit' n p m = .ended r m') ∧
    (∀ {n k : Nat} {e : RuntimeError} {r : Except RuntimeError Unit}
      {m₁ m₂ : Machine},
      runProgram limit n p m = .ended (.error e) m₁ →
        e.fault = .recursionLimit →
        runProgram limit' k p m = .ended r m₂ → ∃ rest,
          m₂.output = m₁.output ++ rest) := by
  refine ⟨?_, ?_, ?_⟩
  · rintro stack y task m' ⟨before, s, after, n, m₁, -, hbefore, hreaches⟩
    have hcalls : m₁.calls = 0 := by
      rw [Machine.steady_calls.runProgram n before m _ m₁ hbefore, hm]
    exact (withinLimit limit).reaches
      ⟨hcalls, fun _ _ => Nat.zero_le _⟩ hreaches
  · intro n r m' hrun hr
    rcases runProgram_cutsShort hle n p m with heq | ⟨e, m₁, heq, he, -⟩
    · rw [← heq, hrun]
    · rw [hrun] at heq
      cases heq
      exact absurd he (hr e rfl)
  · intro n k e r m₁ m₂ hrun he hrun'
    -- Both runs are looked at under one budget that is enough for either.
    have hshort := runProgram_cutsShort hle (max n k) p m
    rw [runProgram_mono (Nat.le_max_left n k) hrun,
      runProgram_mono (Nat.le_max_right n k) hrun'] at hshort
    rcases hshort with heq | ⟨e', m', heq, -, hends⟩
    · cases heq
      exact ⟨"", (String.append_empty).symm⟩
    · cases heq
      exact Machine.output_of_printed_suffix (hends r m₂ rfl)

/-- A function that prints a line and calls itself. -/
def endless : FunDecl :=
  ⟨⟨"f", 1⟩, [],
    [.call ⟨"print", 2⟩ [.literal ⟨.str, "a", 2⟩], .call ⟨"f", 3⟩ []]⟩

/-- Under the limit one its body is reached once, and under the limit two a
second line is printed before that run is stopped as well. -/
theorem callLimit_only_cuts_endless :
    LimitLe (some 1) (some 2) ∧
    ∃ (p : Program) (stack : List Setting) (m m₁ m₂ : Machine),
      p = [endless.declaration, .call ⟨"f", 5⟩ []] ∧
      p.Reaches (some 1) .fresh stack (.statements endless.body) m ∧
      activeBodies stack = 1 ∧ m.calls = activeBodies stack ∧
      runProgram (some 1) 9 p .fresh =
        .ended (.error ⟨.recursionLimit, 3, some "f"⟩) m₁ ∧
      runProgram (some 2) 14 p .fresh =
        .ended (.error ⟨.recursionLimit, 3, some "f"⟩) m₂ ∧
      m₁.output = "a\n" ∧ m₂.output = "a\na\n" ∧ ∃ rest,
        m₂.output = m₁.output ++ rest := by
  have hle : LimitLe (some 1) (some 2) := by
    rintro _ ⟨⟩
    exact ⟨1, rfl, by decide⟩
  obtain ⟨hreached, -, houtput⟩ :=
    callLimit_only_cuts hle [endless.declaration, .call ⟨"f", 5⟩ []]
      (m := .fresh) rfl
  have hcall : (Task.stmt (.call ⟨"f", 5⟩ [])).Reaches (some 1)
      (Machine.fresh.declare endless)
      [.same] (.call ⟨"f", 5⟩ []) (Machine.fresh.declare endless) :=
    .step .start .now
  have hbody : ((Task.call ⟨"f", 5⟩ []).plan (some 1)
      (Machine.fresh.declare endless)).Asks (some 1)
      (.body endless []) (.statements endless.body)
      (Machine.fresh.declare endless) :=
    .later ⟨1, rfl⟩ .now
  have hprogram : Program.Reaches (some 1)
      [endless.declaration, .call ⟨"f", 5⟩ []] .fresh
      [.body endless [], .same] (.statements endless.body)
      (Setting.enter (.body endless []) (Machine.fresh.declare endless)) :=
    ⟨[endless.declaration], .call ⟨"f", 5⟩ [], [], 1, _, rfl, rfl,
      .step hcall hbody⟩
  exact ⟨hle, _, _, _, _, _, rfl, hprogram, rfl, (hreached hprogram).1, rfl,
    rfl, by decide, by decide, houtput (n := 9) (k := 14) rfl rfl rfl⟩

end Quill
