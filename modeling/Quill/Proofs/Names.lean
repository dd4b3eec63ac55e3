import Mathlib.Logic.Equiv.Basic
import Quill.Proofs.Renaming

/-!
# Names matter only up to equality

A program may call its variables and its functions what it likes. Variables are
looked up among variables and functions among functions, so the two are renamed
each in its own way, and a variable may even get the name of a function or of a
built-in. What stays is that different names stay different and that the three
built-ins keep theirs.

A run that ends is compared with the renamed run as a whole. One that never ends
is compared moment by moment: each moment of either run is a moment of the
other, renamed, and the two have printed the same by then.
-/

namespace Quill

/-- While the program runs from a fresh machine, there is a moment at which it
has printed just `text`. -/
def Program.ComesToPrint (limit : Option Nat) (p : Program) (text : String) :
    Prop :=
  ∃ (stack : List Setting) (y : Yield) (task : Task y) (m : Machine),
    p.Reaches limit .fresh stack task m ∧ m.output = text

namespace Renaming

/-- The renaming that changes names and no lines. -/
def names {var fn : String → String} (hvar : Function.Injective var)
    (hfn : Function.Injective fn)
    (hbuiltin : ∀ b : Builtin, fn b.name = b.name) : Renaming where
  line := id
  var := var
  fn := fn
  var_injective h := hvar h
  fn_injective h := hfn h
  fn_builtin := hbuiltin

variable (φ : Renaming) {limit : Option Nat}

/-! ## How the renamed run ends -/

theorem result_eq_ok {α β : Type} {g : α → β}
    {r : Except RuntimeError α} {b : β} (h : φ.result g r = .ok b) :
    ∃ a, r = .ok a ∧ g a = b := by
  cases r with
  | error e => cases h
  | ok a => exact ⟨a, rfl, Except.ok.inj h⟩

theorem outcome_eq_ended {α β : Type} {g : α → β} {o : Outcome α}
    {r' : Except RuntimeError β} {m' : Machine}
    (h : φ.outcome g o = .ended r' m') :
    ∃ r m, o = .ended r m ∧ φ.result g r = r' ∧ φ.machine m = m' := by
  cases o with
  | spent => cases h
  | ended r m =>
      cases h
      exact ⟨r, m, rfl, rfl, rfl⟩

theorem runs_task {y : Yield} {t : Task y} {m m' : Machine}
    {r : Except RuntimeError y.Result} (h : t.Runs limit m r m') :
    (φ.task t).Runs limit (φ.machine m) (φ.result (φ.yielded y) r)
      (φ.machine m') := by
  obtain ⟨n, hn⟩ := h
  refine ⟨n, ?_⟩
  have hrun := φ.run_task limit n y t m
  rw [answers, answers, hn] at hrun
  exact hrun

theorem exists_runs_of_task {y : Yield} {t : Task y} {m m' : Machine}
    {v' : y.Result} (h : (φ.task t).Runs limit (φ.machine m) (.ok v') m') :
    ∃ v m₁, t.Runs limit m (.ok v) m₁ ∧ φ.yielded y v = v' ∧
      φ.machine m₁ = m' := by
  obtain ⟨n, hn⟩ := h
  have hrun : (φ.task t).run limit n (φ.machine m) =
      φ.outcome (φ.yielded y) (t.run limit n m) :=
    φ.run_task limit n y t m
  rw [hn] at hrun
  obtain ⟨r, m₁, hm₁, hr, hm'⟩ := φ.outcome_eq_ended hrun.symm
  obtain ⟨v, rfl, hv⟩ := φ.result_eq_ok hr
  exact ⟨v, m₁, ⟨n, hm₁⟩, hv, hm'⟩

/-! ## The moments of the renamed run -/

section

variable {φ}

/-- The renamed plan comes to ask for what the plan asks for, renamed. -/
theorem PlanRel.asks {y y' : Yield} {p p' : Plan y} (h : φ.PlanRel p p')
    {s : Setting} {t : Task y'} {m : Machine} (ha : p.Asks limit s t m) :
    p'.Asks limit (φ.setting s) (φ.task t) (φ.machine m) := by
  induction ha generalizing p' with
  | now =>
      cases h with
      | ask hs ht hm _ =>
          rw [hs, ht, hm]
          exact .now
  | later hruns _ ih =>
      cases h with
      | ask hs ht hm hnext =>
          rw [hs, ht, hm]
          have hruns' := φ.runs_task hruns
          rw [← φ.enter_setting] at hruns'
          refine .later hruns' (ih ?_)
          rw [φ.leave_setting]
          exact hnext _ _

/-- The renamed plan asks for nothing else. -/
theorem PlanRel.exists_asks {y y' : Yield} {p p' : Plan y} (h : φ.PlanRel p p')
    {s' : Setting} {t' : Task y'} {m' : Machine} (ha : p'.Asks limit s' t' m') :
    ∃ s t m, p.Asks limit s t m ∧ φ.setting s = s' ∧ φ.task t = t' ∧
      φ.machine m = m' := by
  induction ha generalizing p with
  | now =>
      cases h with
      | ask hs ht hm _ => exact ⟨_, _, _, .now, hs.symm, ht.symm, hm.symm⟩
  | later hruns _ ih =>
      cases h with
      | ask hs ht hm hnext =>
          rw [hs, ht, hm, φ.enter_setting] at hruns
          obtain ⟨v, m₁, hv, rfl, rfl⟩ := φ.exists_runs_of_task hruns
          rw [hs, φ.leave_setting] at ih
          obtain ⟨s, t, m, hasks, hrest⟩ := ih (hnext v _)
          exact ⟨s, t, m, .later hv hasks, hrest⟩

end

theorem reaches_task {y y' : Yield} {t : Task y} {t' : Task y'} {m m' : Machine}
    {stack : List Setting} (h : t.Reaches limit m stack t' m') :
    (φ.task t).Reaches limit (φ.machine m) (stack.map φ.setting) (φ.task t')
      (φ.machine m') := by
  induction h with
  | start => exact .start
  | step _ hasks ih =>
      rw [← φ.enter_setting]
      exact .step ih ((planRel_plan _).asks hasks)

theorem exists_reaches_of_task {y y' : Yield} {t : Task y} {t' : Task y'}
    {m m' : Machine} {stack' : List Setting}
    (h : (φ.task t).Reaches limit (φ.machine m) stack' t' m') :
    ∃ stack t₁ m₁, t.Reaches limit m stack t₁ m₁ ∧ φ.task t₁ = t' ∧
      φ.machine m₁ = m' := by
  induction h with
  | start => exact ⟨[], t, m, .start, rfl, rfl⟩
  | step _ hasks ih =>
      obtain ⟨stack, t₁, m₁, hreaches, rfl, rfl⟩ := ih
      obtain ⟨s, t₂, m₂, hasks', rfl, rfl, rfl⟩ :=
        (planRel_plan t₁).exists_asks hasks
      exact ⟨s :: stack, t₂, s.enter m₂, .step hreaches hasks', rfl,
        (φ.enter_setting s m₂).symm⟩

theorem reaches_stmts {p : Program} {y : Yield} {t : Task y} {m m' : Machine}
    {stack : List Setting} (h : p.Reaches limit m stack t m') :
    Program.Reaches limit (φ.stmts p) (φ.machine m)
      (stack.map φ.setting) (φ.task t) (φ.machine m') := by
  obtain ⟨before, s, after, n, m₁, rfl, hbefore, hreaches⟩ := h
  refine ⟨φ.stmts before, φ.stmt s, φ.stmts after, n, φ.machine m₁, ?_, ?_,
    φ.reaches_task hreaches⟩
  · simp only [stmts_eq_map, List.map_append, List.map_cons]
  · rw [φ.runProgram_stmts, hbefore]
    rfl

theorem exists_reaches_of_stmts {p : Program} {y : Yield} {t' : Task y}
    {m m' : Machine} {stack' : List Setting}
    (h : Program.Reaches limit (φ.stmts p) (φ.machine m) stack' t' m') :
    ∃ (stack : List Setting) (t : Task y) (m₁ : Machine),
      p.Reaches limit m stack t m₁ ∧ φ.machine m₁ = m' := by
  obtain ⟨before', s', after', n, m₁', hp, hbefore, hreaches⟩ := h
  rw [stmts_eq_map] at hp
  obtain ⟨before, rest, rfl, rfl, hrest⟩ := List.map_eq_append_iff.1 hp
  obtain ⟨s, after, rfl, rfl, -⟩ := List.map_eq_cons_iff.1 hrest
  rw [← stmts_eq_map, φ.runProgram_stmts] at hbefore
  obtain ⟨r, m₁, hm₁, hr, rfl⟩ := φ.outcome_eq_ended hbefore
  obtain ⟨_, rfl, -⟩ := φ.result_eq_ok hr
  obtain ⟨stack, t, m₂, hreaches', -, hm₂⟩ :=
    φ.exists_reaches_of_task (t := .stmt s) hreaches
  exact ⟨stack, t, m₂, ⟨before, s, after, n, m₁, rfl, hm₁, hreaches'⟩, hm₂⟩

theorem comesToPrint_stmts (p : Program) (text : String) :
    Program.ComesToPrint limit (φ.stmts p) text ↔
      p.ComesToPrint limit text := by
  constructor
  · rintro ⟨stack', y, t', m', hreaches, rfl⟩
    obtain ⟨stack, t, m, hm, rfl⟩ :=
      φ.exists_reaches_of_stmts (m := .fresh) hreaches
    exact ⟨stack, y, t, m, hm, rfl⟩
  · rintro ⟨stack, y, t, m, hreaches, rfl⟩
    exact ⟨_, y, _, _, φ.reaches_stmts hreaches, rfl⟩

end Renaming

/-- Renaming the variables of a program, and its functions in another way,
neither of them making different names equal and the latter leaving the
built-ins alone, changes no run from a fresh machine: it ends if the run of the
program does, and has printed the same on its way; if the one succeeds, so does
the other, with the same output; and if the one fails, so does the other, with
the same output, fault and line, and the name that the error quotes is renamed
as a variable or as a function, whichever it is. -/
theorem names_irrelevant {var fn : String → String}
    (hvar : Function.Injective var) (hfn : Function.Injective fn)
    (hbuiltin : ∀ b : Builtin, fn b.name = b.name) (limit : Option Nat)
    (p : Program) :
    ((∃ n r m,
      runProgram limit n ((Renaming.names hvar hfn hbuiltin).stmts p) .fresh =
        .ended r m) ↔ ∃ n r m, runProgram limit n p .fresh = .ended r m) ∧
    (∀ text,
      Program.ComesToPrint limit
          ((Renaming.names hvar hfn hbuiltin).stmts p) text ↔
        p.ComesToPrint limit text) ∧
    (∀ {n m}, runProgram limit n p .fresh = .ended (.ok ()) m →
      ∃ m',
        runProgram limit n ((Renaming.names hvar hfn hbuiltin).stmts p) .fresh =
          .ended (.ok ()) m' ∧
        m'.output = m.output) ∧
    (∀ {n e m}, runProgram limit n p .fresh = .ended (.error e) m →
      ∃ m',
        runProgram limit n ((Renaming.names hvar hfn hbuiltin).stmts p) .fresh =
          .ended (.error ⟨e.fault, e.line, e.found.map
            ((Renaming.names hvar hfn hbuiltin).found e.fault)⟩) m' ∧
        m'.output = m.output) := by
  have hrun : ∀ n,
      runProgram limit n ((Renaming.names hvar hfn hbuiltin).stmts p) .fresh =
      (Renaming.names hvar hfn hbuiltin).outcome id
      (runProgram limit n p .fresh) :=
    fun n =>
      (Renaming.names hvar hfn hbuiltin).runProgram_stmts limit n p .fresh
  have hended : ∀ {n r m}, runProgram limit n p .fresh = .ended r m →
      runProgram limit n ((Renaming.names hvar hfn hbuiltin).stmts p) .fresh =
        .ended ((Renaming.names hvar hfn hbuiltin).result id r)
          ((Renaming.names hvar hfn hbuiltin).machine m) := by
    intro n r m hn
    rw [hrun, hn]
    rfl
  refine ⟨⟨?_, ?_⟩, (Renaming.names hvar hfn hbuiltin).comesToPrint_stmts p, ?_,
    ?_⟩
  · rintro ⟨n, r', m', hn⟩
    rw [hrun] at hn
    obtain ⟨r, m, hm, -, -⟩ := Renaming.outcome_eq_ended _ hn
    exact ⟨n, r, m, hm⟩
  · rintro ⟨n, r, m, hn⟩
    exact ⟨n, _, _, hended hn⟩
  · intro n m hn
    exact ⟨_, hended hn, rfl⟩
  · intro n e m hn
    exact ⟨_, hended hn, rfl⟩

/-- A program that prints what a function makes of a variable, and then calls
the function without an argument. -/
def printAndFail : Program :=
  [.declare ⟨.int, "int", 1⟩ ⟨"x", 1⟩ (.literal ⟨.int, "7", 1⟩),
    .function ⟨"f", 2⟩ [⟨⟨.int, "int", 2⟩, ⟨"y", 2⟩⟩]
    [.ret 2 (some (.var ⟨"y", 2⟩))],
    .call ⟨"print", 3⟩ [.call ⟨"f", 3⟩ [.var ⟨"x", 3⟩]], .call ⟨"f", 4⟩ []]

/-- Its variable may be called `print` and its function `x`, as the variable was
before. -/
theorem names_irrelevant_exchanged :
    ∃ (var fn : String → String) (hvar : Function.Injective var)
      (hfn : Function.Injective fn)
        (hbuiltin : ∀ b : Builtin, fn b.name = b.name) (m m' : Machine),
      var "x" = "print" ∧ fn "f" = "x" ∧
      runProgram none 9 printAndFail .fresh =
        .ended (.error ⟨.invalidNumberOfArgs, 4, some "f"⟩) m ∧
      runProgram none 9 ((Renaming.names hvar hfn hbuiltin).stmts printAndFail)
        .fresh = .ended (.error ⟨.invalidNumberOfArgs, 4, some "x"⟩) m' ∧
      m.output = "7\n" ∧ m'.output = m.output := by
  have hbuiltin : ∀ b : Builtin, Equiv.swap "f" "x" b.name = b.name := by
    intro b
    cases b <;> decide
  obtain ⟨m, hm⟩ : ∃ m, runProgram none 9 printAndFail .fresh =
      .ended (.error ⟨.invalidNumberOfArgs, 4, some "f"⟩) m := ⟨_, rfl⟩
  obtain ⟨m', hm', houtput⟩ :=
    (names_irrelevant (Equiv.swap "x" "print").injective
      (Equiv.swap "f" "x").injective hbuiltin none printAndFail).2.2.2 hm
  refine ⟨_, _, (Equiv.swap "x" "print").injective,
    (Equiv.swap "f" "x").injective, hbuiltin, m, m', by decide, by decide,
    hm, hm', ?_, houtput⟩
  cases hm
  decide

end Quill
