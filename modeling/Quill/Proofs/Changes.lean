import Quill.Proofs.Plan

/-!
# What a run does to the machine

Between the runs that a part asks for, it changes the machine at most once: it
prints, assigns or declares, and only calls of `print` print. So a relation
between machines that these changes keep, and that survives entering a scope or
a function body and leaving it again, holds between the beginning and the end of
every run. That printed lines stay printed is one, that the count of calls is
restored another.

The lines that a run prints are counted from the calls of `print` in it: one
more line stands printed for each of them that ended without an error.
-/

namespace Quill

/-! ## What a part does itself -/

/-- The calls of `print`. -/
def Task.isPrint : {y : Yield} → Task y → Bool
  | _, .call f _ => Builtin.ofName? f.text == some .print
  | _, _ => false

/-- What a part does to the machine itself, between the runs of the parts that
it asks for. The flag says whether it may print. -/
inductive Machine.Change (prints : Bool) : Machine → Machine → Prop
  | none (m : Machine) : Change prints m m
  | print (h : prints = true) (m : Machine) (text : String) :
      Change prints m (m.print text)
  | assign (m : Machine) (x : String) (v : Literal) :
      Change prints m (m.assign x v)
  | declare (m : Machine) (f : FunDecl) : Change prints m (m.declare f)

/-- A function body is entered only where the limit allows one more. -/
def Setting.Allowed (limit : Option Nat) (calls : Nat) : Setting → Prop
  | .body _ _ => limit.any (· ≤ calls) = false
  | .same | .block => True

/-- The plan, from the machine given, makes at most one change before each
question and before its end, and enters only what the limit allows. -/
def Plan.Local (prints : Bool) (limit : Option Nat) (calls : Nat) {y : Yield} :
    Machine → Plan y → Prop
  | m₀, .done _ m => m₀.Change prints m
  | m₀, .ask setting _ m next =>
    m₀.Change prints m ∧ setting.Allowed limit calls ∧
      ∀ v m₁, (next v m₁).Local prints limit calls m₁

namespace Task

variable {prints : Bool} {limit : Option Nat} {calls : Nat}

open Machine (Change)

theorem local_ask {setting : Setting} {y y' : Yield} {task : Task y'}
    {m : Machine} {next : y'.Result → Machine → Plan y}
    (hsetting : setting.Allowed limit calls)
    (hnext : ∀ v m₁, (next v m₁).Local prints limit calls m₁) :
    (Plan.ask setting task m next).Local prints limit calls m :=
  ⟨.none m, hsetting, hnext⟩

/-- A part whose value is handed on. -/
theorem local_ask_last {setting : Setting} {y : Yield} {task : Task y}
    {m : Machine} (hsetting : setting.Allowed limit calls) :
    (Plan.ask setting task m fun v m => .done (.ok v) m).Local prints
      limit calls m :=
  local_ask hsetting fun _ m₁ => Change.none m₁

theorem local_orElse {rest : Machine → Plan .optional}
    (hrest : ∀ m, (rest m).Local prints limit calls m) (v : Option Literal)
    (m : Machine) : (Plan.orElse rest v m).Local prints limit calls m := by
  cases v with
  | some v => exact Change.none m
  | none => exact hrest m

theorem local_builtin {b : Builtin}
    (hb : b = .print → prints = true) (f : Ident) (args : List Literal)
    (m : Machine) : (Plan.builtin b f args m).Local prints limit calls m := by
  unfold Plan.builtin
  split
  · exact Change.none m
  · next h =>
      rcases Builtin.call_eq_ok h with ⟨hprint, -⟩ | ⟨w, hw⟩
      · exact Change.print (hb hprint) m _
      · cases hw
  · exact Change.none m

theorem local_planExpr (e : Expr) (m : Machine) :
    (planExpr e m).Local prints limit calls m := by
  cases e with
  | literal v => exact Change.none m
  | var x => exact Change.none m
  | binary op l r =>
      refine local_ask trivial fun a m₁ => ?_
      exact local_ask trivial fun b m₂ => Change.none m₂
  | call f args =>
      refine local_ask trivial fun v m₁ => ?_
      cases v with
      | none => exact Change.none m₁
      | some v => exact Change.none m₁

theorem local_planArgs (es : List Expr) (m : Machine) :
    (planArgs es m).Local prints limit calls m := by
  cases es with
  | nil => exact Change.none m
  | cons e es =>
      refine local_ask trivial fun v m₁ => ?_
      exact local_ask trivial fun vs m₂ => Change.none m₂

/-- Calls are where the limit is looked at, and the count that is looked at is
the one before the arguments. -/
theorem local_planCall (f : Ident) (args : List Expr) (m : Machine) :
    (planCall limit f args m).Local (Task.call f args).isPrint
      limit m.calls m := by
  unfold planCall
  split
  · next b hb =>
      refine local_ask trivial fun vs m₁ =>
        local_builtin (fun hprint => ?_) f vs m₁
      rw [isPrint, hb, hprint]
      rfl
  · split
    · exact Change.none m
    · split
      · exact Change.none m
      · split
        · exact Change.none m
        · next hlimit =>
            refine local_ask trivial fun vs m₁ => local_ask_last ?_
            exact Bool.eq_false_iff.2 hlimit

theorem local_planStmt (s : Stmt) (m : Machine) :
    (planStmt s m).Local prints limit calls m := by
  cases s with
  | declare ty x init =>
      simp only [planStmt]
      split
      · exact Change.none m
      · refine local_ask trivial fun v m₁ => ?_
        split
        · exact Change.assign m₁ x.text v
        · exact Change.none m₁
  | function f params body =>
      simp only [planStmt]
      split
      · exact Change.none m
      · exact Change.declare m ⟨f, params, body⟩
  | assign x value =>
      simp only [planStmt]
      split
      · exact local_ask trivial fun v m₁ => Change.assign m₁ x.text v
      · exact Change.none m
  | ret line value => exact Change.none m
  | cond c body next => exact local_ask_last trivial
  | loop c body => exact local_ask_last trivial
  | call f args => exact local_ask_last trivial

theorem local_planBranch (c : Expr) (body : List Stmt) (next : ElseChain)
    (m : Machine) : (planBranch c body next m).Local prints limit calls m := by
  refine local_ask trivial fun v m₁ => ?_
  split
  · exact local_ask_last trivial
  · cases next with
    | none => exact Change.none m₁
    | elseIf c body next => exact local_ask_last trivial
    | otherwise body => exact local_ask_last trivial

theorem local_planLoop (c : Expr) (body : List Stmt) (m : Machine) :
    (planLoop c body m).Local prints limit calls m := by
  refine local_ask trivial fun v m₁ => ?_
  split
  · exact local_ask trivial (local_orElse fun m₂ => local_ask_last trivial)
  · exact Change.none m₁

theorem local_planBody (body : List Stmt) (m : Machine) :
    (planBody body m).Local prints limit calls m := by
  unfold planBody
  split
  · exact Change.none m
  · exact Change.none m
  · exact local_ask trivial fun v m₁ => Change.none m₁
  · exact local_ask trivial (local_orElse fun m₁ => local_ask_last trivial)

theorem local_plan {y : Yield} (task : Task y) (m : Machine) :
    (task.plan limit m).Local task.isPrint limit m.calls m := by
  cases task with
  | expr e => exact local_planExpr e m
  | arguments es => exact local_planArgs es m
  | call f args => exact local_planCall f args m
  | stmt s => exact local_planStmt s m
  | branch c body next => exact local_planBranch c body next m
  | loop c body => exact local_planLoop c body m
  | statements body => exact local_planBody body m

end Task

/-! ## What every run keeps -/

/-- A relation between the machines before and after a run that holds of every
run, because every change of the machine keeps it, and so does what is entered
and left again if what happens inside does. -/
structure Machine.Steady (R : Machine → Machine → Prop) : Prop where
  change : ∀ {prints m m'}, Machine.Change prints m m' → R m m'
  trans : ∀ {m₁ m₂ m₃}, R m₁ m₂ → R m₂ m₃ → R m₁ m₃
  inside : ∀ (setting : Setting) {m m'}, R (setting.enter m) m' →
    R m (setting.leave m')

namespace Machine.Steady

variable {R : Machine → Machine → Prop} (hR : Machine.Steady R) {prints : Bool}
  {limit : Option Nat}

include hR

theorem refl (m : Machine) : R m m :=
  hR.change (.none m : Change false m m)

theorem meets {calls : Nat} {y : Yield} {p : Plan y} {m m₀ : Machine}
    (hp : p.Local prints limit calls m₀) (h : R m m₀) :
    p.Meets (fun _ setting _ m' => R m m' ∧ setting.Allowed limit calls)
      (fun _ _ m _ m' => R m m') (fun _ m' => R m m') := by
  -- `m` stays where the whole plan began, `m₀` moves on to where the rest of it
  -- begins
  induction p generalizing m₀ with
  | done r m₁ => exact hR.trans h (hR.change hp)
  | ask setting task m₁ next ih =>
      obtain ⟨hchange, hallowed, hnext⟩ := hp
      have h₁ := hR.trans h (hR.change hchange)
      refine ⟨⟨h₁, hallowed⟩, fun e m₂ h₂ => hR.trans h₁ (hR.inside setting h₂),
        fun v m₂ h₂ => ?_⟩
      exact ih v _ (hnext v _) (hR.trans h₁ (hR.inside setting h₂))

/-- Every run keeps it, under every budget. -/
theorem run (n : Nat) {y : Yield} (task : Task y) (m : Machine) :
    (task.run limit n m).Ends fun _ m' => R m m' := by
  induction n generalizing y m with
  | zero =>
      rw [Task.run_zero]
      exact Outcome.ends_spent
  | succ n ih =>
      rw [Task.run_succ]
      exact (hR.meets (task.local_plan m) (hR.refl m)).ends
        fun y setting task m _ => ih task _

theorem exec {n calls : Nat} {y : Yield} {p : Plan y} {m : Machine}
    (hp : p.Local prints limit calls m) :
    (p.exec (answers limit n)).Ends fun _ m' => R m m' :=
  (hR.meets hp (hR.refl m)).ends fun _ _ task _ _ => hR.run n task _

theorem runProgram (n : Nat) (p : Program) (m : Machine) :
    (runProgram limit n p m).Ends fun _ m' => R m m' := by
  induction p generalizing m with
  | nil => exact Outcome.ends_ended (hR.refl m)
  | cons s rest ih =>
      refine (hR.run n (.stmt s) m).andThen (fun _ _ h => h) fun _ m₁ h₁ => ?_
      exact fun r m₂ h₂ => hR.trans h₁ (ih m₁ r m₂ h₂)

end Machine.Steady

/-! ## Printed lines stay printed -/

theorem Machine.steady_printed :
    Machine.Steady fun m m' => m.printed <:+ m'.printed where
  change h := by
    cases h with
    | print h m text => exact List.suffix_cons _ _
    | _ => exact List.suffix_rfl
  trans h₁ h₂ := h₁.trans h₂
  inside setting _ _ h := by cases setting <;> exact h

theorem Machine.output_of_printed_suffix {m m' : Machine}
    (h : m.printed <:+ m'.printed) : ∃ rest, m'.output = m.output ++ rest := by
  obtain ⟨later, hlater⟩ := h
  refine ⟨String.join later.reverse, ?_⟩
  rw [output, ← hlater, List.reverse_append, String.join_append]
  rfl

/-! ## One line for each call of `print` -/

/-- The run ended without an error. -/
def Outcome.succeeded {α : Type} : Outcome α → Bool
  | .ended (.ok _) _ => true
  | .ended (.error _) _ | .spent => false

/-- How much there is of something in a plan, if `count` says how much there is
in the runs that it asks for. -/
def Plan.sum (count : ∀ y : Yield, Task y → Machine → Nat) (a : Answers)
    {y : Yield} : Plan y → Nat
  | .done _ _ => 0
  | .ask setting task m next =>
    count _ task (setting.enter m) +
      match a _ task (setting.enter m) with
      | .ended (.ok v) m' => (next v (setting.leave m')).sum count a
      | .ended (.error _) _ | .spent => 0

/-- How many calls of `print` succeed in the run of a part, itself included. -/
def Task.prints (limit : Option Nat) :
    Nat → (y : Yield) → Task y → Machine → Nat
  | 0, _, _, _ => 0
  | n + 1, _, task, m =>
    (task.plan limit m).sum (Task.prints limit n) (answers limit n) +
      if task.isPrint && (task.run limit (n + 1) m).succeeded then 1 else 0

/-- How many calls of `print` succeed in the run of a program. -/
def Program.prints (limit : Option Nat) (n : Nat) : Program → Machine → Nat
  | [], _ => 0
  | s :: rest, m =>
    Task.prints limit n _ (.stmt s) m +
      match execStmt limit n s m with
      | .ended (.ok _) m' => Program.prints limit n rest m'
      | .ended (.error _) _ | .spent => 0

theorem Setting.printed_enter (setting : Setting) (m : Machine) :
    (setting.enter m).printed = m.printed := by
  cases setting <;> rfl

theorem Setting.printed_leave (setting : Setting) (m : Machine) :
    (setting.leave m).printed = m.printed := by
  cases setting <;> rfl

theorem Machine.Change.printed_eq {m m' : Machine} (h : Change false m m') :
    m'.printed = m.printed := by
  cases h with
  | print h m text => exact absurd h Bool.false_ne_true
  | _ => rfl

/-- A plan that prints nothing itself prints what the runs that it asks for
print. -/
theorem Plan.printed_exec {limit : Option Nat} {calls : Nat}
    {count : ∀ y : Yield, Task y → Machine → Nat} {a : Answers}
    (ha : ∀ y (task : Task y) m r m', a y task m = .ended r m' →
      m'.printed.length = m.printed.length + count y task m)
    {y : Yield} {p : Plan y} {m₀ m' : Machine}
    {r : Except RuntimeError y.Result} (hp : p.Local false limit calls m₀)
    (h : p.exec a = .ended r m') :
    m'.printed.length = m₀.printed.length + p.sum count a := by
  induction p generalizing m₀ with
  | done r₁ m =>
      cases h
      rw [hp.printed_eq]
      rfl
  | ask setting task m next ih =>
      obtain ⟨hchange, -, hnext⟩ := hp
      rcases exec_ask_eq_ended_iff.1 h with ⟨v, m₁, hm₁, hrest⟩ |
        ⟨e, m₁, hm₁, rfl, rfl⟩
      · have hfirst := ha _ _ _ _ _ hm₁
        have hlater := ih v _ (hnext v _) hrest
        rw [setting.printed_enter, hchange.printed_eq] at hfirst
        rw [setting.printed_leave] at hlater
        rw [sum, hm₁]
        dsimp only
        omega
      · have hfirst := ha _ _ _ _ _ hm₁
        rw [setting.printed_enter, hchange.printed_eq] at hfirst
        rw [sum, hm₁, setting.printed_leave]
        exact hfirst

/-- The run of a call of `print`: its arguments, and then one line. -/
theorem Task.run_print {limit : Option Nat} {n : Nat} {f : Ident}
    {args : List Expr} (hf : Builtin.ofName? f.text = some .print)
    (m : Machine) : (Task.call f args).run limit (n + 1) m =
      ((Task.arguments args).run limit n m).andThen fun vs m =>
        .ended (.ok none)
          (m.print (" ".intercalate
            ((vs.map Builtin.Value.ofLiteral).map Builtin.Value.text))) := by
  rw [run_succ, plan, planCall, hf, Plan.exec_ask_same]
  rfl

theorem Plan.sum_builtin {count : ∀ y : Yield, Task y → Machine → Nat}
    {a : Answers} (b : Builtin) (f : Ident) (args : List Literal)
    (m : Machine) : (Plan.builtin b f args m).sum count a = 0 := by
  unfold Plan.builtin
  split <;> rfl

/-- In a call of `print` there are those in its arguments, and itself if they
have values. -/
theorem Task.prints_print {limit : Option Nat} {n : Nat} {f : Ident}
    {args : List Expr} (hf : Builtin.ofName? f.text = some .print)
    (m : Machine) : (Task.call f args).prints limit (n + 1) .optional m =
      (Task.arguments args).prints limit n .values m +
        if ((Task.arguments args).run limit n m).succeeded then 1 else 0 := by
  have hprint : (Task.call f args).isPrint = true := by
    rw [isPrint, hf]
    rfl
  have hsum : ((Task.call f args).plan limit m).sum (Task.prints limit n)
      (answers limit n) = (Task.arguments args).prints limit n .values m := by
    rw [plan, planCall, hf]
    simp only [Plan.sum, Setting.enter]
    split
    · rw [Plan.sum_builtin, Nat.add_zero]
    · rfl
    · rfl
  rw [prints, hsum, run_print hf, hprint]
  cases (Task.arguments args).run limit n m with
  | spent => rfl
  | ended r m₁ => cases r <;> rfl

/-- The lines printed are as many as the calls of `print` that succeeded. -/
theorem Task.printed_run {limit : Option Nat} {n : Nat} {y : Yield}
    {task : Task y} {m m' : Machine} {r : Except RuntimeError y.Result}
    (h : task.run limit n m = .ended r m') :
    m'.printed.length = m.printed.length + task.prints limit n y m := by
  induction n generalizing y m m' with
  | zero =>
      rw [run_zero] at h
      cases h
  | succ n ih =>
      cases hprint : task.isPrint with
      | false =>
          have hlocal : (task.plan limit m).Local false limit m.calls m :=
            hprint ▸ task.local_plan m
          rw [run_succ] at h
          rw [prints, hprint, Bool.false_and, if_neg Bool.false_ne_true]
          exact Plan.printed_exec (fun y task m r m' => ih) hlocal h
      | true =>
          -- only a call is a call of `print`
          match task, hprint with
          | .call f args, hprint =>
              have hf : Builtin.ofName? f.text =
                  some .print := by simpa [isPrint] using hprint
              rw [prints_print hf]
              rw [run_print hf] at h
              rcases Outcome.andThen_eq_ended_iff.1 h
                with ⟨vs, m₁, hvs, hline⟩ | ⟨e, he, rfl⟩
              · have hargs := ih hvs
                cases hline
                rw [hvs, Outcome.succeeded, if_pos rfl, ← Nat.add_assoc,
                  ← hargs]
                rfl
              · rw [he, Outcome.succeeded, if_neg Bool.false_ne_true]
                exact ih he

theorem Program.printed_run {limit : Option Nat} {n : Nat} {p : Program}
    {m m' : Machine} {r : Except RuntimeError Unit}
    (h : runProgram limit n p m = .ended r m') :
    m'.printed.length = m.printed.length + p.prints limit n m := by
  induction p generalizing m with
  | nil =>
      cases h
      rfl
  | cons s rest ih =>
      rw [runProgram] at h
      have hs : ∀ {r m₁}, (Task.stmt s).run limit n m = .ended r m₁ →
          m₁.printed.length =
            m.printed.length + (Task.stmt s).prints limit n _ m :=
        Task.printed_run
      rcases Outcome.andThen_eq_ended_iff.1 h with ⟨v, m₁, hv, hrest⟩ |
        ⟨e, he, rfl⟩
      · rw [ih hrest, hs hv, prints, hv, Nat.add_assoc]
      · rw [prints, he]
        exact hs he

end Quill
