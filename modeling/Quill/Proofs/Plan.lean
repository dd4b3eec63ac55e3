import Quill.Program
import Quill.Proofs.Frame

/-!
# What one unit of the budget does

The evaluator is seven functions that call each other with one unit less. Seen
from one of them the others are oracles: it asks for runs of smaller parts, one
after the other, and goes on with what they answer. That is a plan, a tree with
a node for each question, and `Task.run_succ` says that a run under one more
unit carries out the plan of its part with the runs under the smaller budget as
answers.

So what holds of all runs can be proved from plans alone, with no word about the
evaluator's recursion. Three such results stand here. A run that has ended under
a budget ends the same under every larger one. What is asked for in a plan, in
the plans of what is asked for, and so on, are the moments of a run, also of one
that never ends. And a condition that every plan hands on, from the part that
asks to the parts asked for and from their answers to its own end, holds at
every moment and at the end of every run.
-/

namespace Quill

/-! ## Parts of programs -/

/-- What running a part of a program can yield. -/
inductive Yield where
  | value
  | values
  | optional

abbrev Yield.Result : Yield → Type
  | .value => Literal
  | .values => List Literal
  | .optional => Option Literal

/-- The values that are yielded. -/
def Yield.list : (y : Yield) → y.Result → List Literal
  | .value, v => [v]
  | .values, vs => vs
  | .optional, v => v.toList

/-- A part of a program that the evaluator runs. -/
inductive Task : Yield → Type where
  | expr (e : Expr) : Task .value
  | arguments (es : List Expr) : Task .values
  | call (f : Ident) (args : List Expr) : Task .optional
  | stmt (s : Stmt) : Task .optional
  | branch (c : Expr) (body : List Stmt) (next : ElseChain) : Task .optional
  | loop (c : Expr) (body : List Stmt) : Task .optional
  | statements (body : List Stmt) : Task .optional

/-- Runs a part. -/
def Task.run (limit : Option Nat) (n : Nat) :
    {y : Yield} → Task y → Machine → Outcome y.Result
  | _, .expr e => evalExpr limit n e
  | _, .arguments es => evalArgs limit n es
  | _, .call f args => evalCall limit n f args
  | _, .stmt s => execStmt limit n s
  | _, .branch c body next => execBranch limit n c body next
  | _, .loop c body => execLoop limit n c body
  | _, .statements body => execBody limit n body

theorem Task.run_zero (limit : Option Nat) {y : Yield} (task : Task y)
    (m : Machine) : task.run limit 0 m = .spent := by
  cases task <;> rfl

/-! ## Plans -/

/-- How a part is entered: in the scope that is open, in a scope of its own, or
as the body of a function, in a scope with its arguments. -/
inductive Setting where
  | same
  | block
  | body (f : FunDecl) (args : List Literal)

namespace Setting

def enter : Setting → Machine → Machine
  | .same, m => m
  | .block, m => m.enter []
  | .body f args, m => m.beginCall.enter ((f.params.map (·.name.text)).zip args)

def leave : Setting → Machine → Machine
  | .same, m => m
  | .block, m => m.leave
  | .body _ _, m => m.leave.endCall

end Setting

/-- A run cut into the runs that it asks for: it is done, or it asks for a run
of `task`, entered from the machine `m`, and goes on with what that yields. An
error is handed on. -/
inductive Plan (y : Yield) where
  | done (r : Except RuntimeError y.Result) (m : Machine)
  | ask {y' : Yield} (setting : Setting) (task : Task y') (m : Machine)
      (next : y'.Result → Machine → Plan y)

/-- Outcomes of runs, to answer a plan with. -/
abbrev Answers := ∀ y : Yield, Task y → Machine → Outcome y.Result

/-- The runs under a budget, as answers. -/
def answers (limit : Option Nat) (n : Nat) : Answers :=
  fun _ task m => task.run limit n m

namespace Plan

variable {y : Yield}

/-- Carries out a plan. -/
def exec (a : Answers) : Plan y → Outcome y.Result
  | .done r m => .ended r m
  | .ask setting task m next =>
    ((a _ task (setting.enter m)).atEnd setting.leave).andThen fun v m =>
      (next v m).exec a

/-- The plan that goes on with a value, and fails at `f` for want of one. -/
def expectValue (f : Ident) : Option Literal → Machine → Plan .value
  | some v, m => .done (.ok v) m
  | none, m => .done (.error (f.failure .expectedReturn)) m

/-- The plan that ends with a value, and goes on with `rest` if there is
none. -/
def orElse (rest : Machine → Plan .optional) :
    Option Literal → Machine → Plan .optional
  | some v, m => .done (.ok (some v)) m
  | none, m => rest m

/-- The plan of a built-in, once its arguments are evaluated. -/
def builtin (b : Builtin) (f : Ident) (args : List Literal) (m : Machine) :
    Plan .optional :=
  match b.call (args.map Builtin.Value.ofLiteral) with
  | .error fault => .done (.error (f.failure fault)) m
  | .ok (.line text) => .done (.ok none) (m.print text)
  | .ok (.value v) => .done (.ok (some (v.toLiteral f.line))) m

end Plan

namespace Task

/-- The plan of an expression. -/
def planExpr (e : Expr) (m : Machine) : Plan .value :=
  match e with
  | .literal v => .done (.ok v) m
  | .var x => .done (m.memory.read x) m
  | .binary op l r =>
    .ask .same (.expr l) m fun a m => .ask .same (.expr r) m fun b m =>
      .done (Operator.apply op a b) m
  | .call f args => .ask .same (.call f args) m (Plan.expectValue f)

def planArgs (es : List Expr) (m : Machine) : Plan .values :=
  match es with
  | [] => .done (.ok []) m
  | e :: es =>
    .ask .same (.expr e) m fun v m => .ask .same (.arguments es) m fun vs m =>
      .done (.ok (v :: vs)) m

def planCall (limit : Option Nat) (f : Ident) (args : List Expr) (m : Machine) :
    Plan .optional :=
  match Builtin.ofName? f.text with
  | some b => .ask .same (.arguments args) m (Plan.builtin b f)
  | none =>
    match m.memory.find f with
    | .error e => .done (.error e) m
    | .ok decl =>
      if decl.params.length ≠ args.length then
        .done (.error (f.failure .invalidNumberOfArgs)) m
      else if limit.any (· ≤ m.calls) then
        .done (.error (f.failure .recursionLimit)) m
      else
        .ask .same (.arguments args) m fun vs m =>
          .ask (.body decl vs) (.statements decl.body) m fun v m =>
            .done (.ok v) m

def planStmt (s : Stmt) (m : Machine) : Plan .optional :=
  match s with
  | .declare ty x init =>
    if m.memory.hasVariable x.text then
      .done (.error (x.failure .declaredVariable)) m
    else
      .ask .same (.expr init) m fun v m =>
        if v.kind = ty.type.kind then .done (.ok none) (m.assign x.text v)
        else .done (.error (x.failure .invalidVariableType)) m
  | .function f params body =>
    if m.memory.hasFunction f.text || (Builtin.ofName? f.text).isSome then
      .done (.error (f.failure .declaredFunction)) m
    else .done (.ok none) (m.declare ⟨f, params, body⟩)
  | .assign x value =>
    if m.memory.hasVariable x.text then
      .ask .same (.expr value) m fun v m => .done (.ok none) (m.assign x.text v)
    else .done (.error (x.failure .undeclaredVariable)) m
  | .ret line _ => .done (.error ⟨.invalidStatement, line, some "return"⟩) m
  | .cond c body next =>
    .ask .same (.branch c body next) m fun v m => .done (.ok v) m
  | .loop c body => .ask .same (.loop c body) m fun v m => .done (.ok v) m
  | .call f args => .ask .same (.call f args) m fun v m => .done (.ok v) m

/-- The plan of an else chain, once the conditions before it have failed. -/
def planNext (next : ElseChain) (m : Machine) : Plan .optional :=
  match next with
  | .none => .done (.ok none) m
  | .elseIf c body next =>
    .ask .same (.branch c body next) m fun v m => .done (.ok v) m
  | .otherwise body =>
    .ask .block (.statements body) m fun v m => .done (.ok v) m

def planBranch (c : Expr) (body : List Stmt) (next : ElseChain) (m : Machine) :
    Plan .optional :=
  .ask .same (.expr c) m fun v m =>
    if v.isTrue then .ask .block (.statements body) m fun v m => .done (.ok v) m
    else planNext next m

def planLoop (c : Expr) (body : List Stmt) (m : Machine) : Plan .optional :=
  .ask .same (.expr c) m fun v m =>
    if v.isTrue then
      .ask .block (.statements body) m (Plan.orElse fun m =>
        .ask .same (.loop c body) m fun v m => .done (.ok v) m)
    else .done (.ok none) m

def planBody (body : List Stmt) (m : Machine) : Plan .optional :=
  match body with
  | [] => .done (.ok none) m
  | .ret _ none :: _ => .done (.ok none) m
  | .ret _ (some e) :: _ =>
    .ask .same (.expr e) m fun v m => .done (.ok (some v)) m
  | s :: rest =>
    .ask .same (.stmt s) m (Plan.orElse fun m =>
      .ask .same (.statements rest) m fun v m => .done (.ok v) m)

theorem planBody_cons {s : Stmt} (hs : ∀ line v, s ≠ .ret line v)
    (rest : List Stmt) (m : Machine) :
    planBody (s :: rest) m = .ask .same (.stmt s) m (Plan.orElse fun m =>
      .ask .same (.statements rest) m fun v m => .done (.ok v) m) := by
  cases s with
  | ret line v => exact absurd rfl (hs line v)
  | _ => rfl

/-- The plan of a part, from the machine it begins on. -/
def plan (limit : Option Nat) : {y : Yield} → Task y → Machine → Plan y
  | _, .expr e => planExpr e
  | _, .arguments es => planArgs es
  | _, .call f args => planCall limit f args
  | _, .stmt s => planStmt s
  | _, .branch c body next => planBranch c body next
  | _, .loop c body => planLoop c body
  | _, .statements body => planBody body

end Task

/-! ## Plans are what the evaluator does -/

namespace Outcome

variable {α : Type}

@[simp] theorem atEnd_id (o : Outcome α) : o.atEnd (fun m => m) = o := by
  match o with
  | .spent => rfl
  | .ended _ _ => rfl

/-- A run that goes on with nothing but its own value ends as it does. -/
@[simp] theorem andThen_ended (o : Outcome α) :
    (o.andThen fun v m => .ended (.ok v) m) = o := by
  match o with
  | .spent => rfl
  | .ended (.ok _) _ => rfl
  | .ended (.error _) _ => rfl

theorem andThen_congr {β : Type} (o : Outcome α) {f g : α → Machine → Outcome β}
    (h : ∀ a m, f a m = g a m) : o.andThen f = o.andThen g := by
  match o with
  | .spent => rfl
  | .ended (.ok a) m => exact h a m
  | .ended (.error _) _ => rfl

theorem atEnd_atEnd (o : Outcome α) (f g : Machine → Machine) :
    (o.atEnd f).atEnd g = o.atEnd fun m => g (f m) := by
  match o with
  | .spent => rfl
  | .ended _ _ => rfl

end Outcome

namespace Plan

open Outcome

variable {a : Answers}

theorem exec_done {y : Yield} (r : Except RuntimeError y.Result) (m : Machine) :
    (Plan.done r m).exec a = .ended r m :=
  rfl

theorem exec_ask_same {y y' : Yield} (task : Task y') (m : Machine)
    (next : y'.Result → Machine → Plan y) :
    (Plan.ask .same task m next).exec a = (a _ task m).andThen fun v m =>
      (next v m).exec a := by
  show ((a _ task m).atEnd fun m => m).andThen _ = _
  rw [atEnd_id]

/-- The last question of a plan is the run that it asks for. -/
theorem exec_ask_last {y : Yield} (setting : Setting) (task : Task y)
    (m : Machine) :
    (Plan.ask setting task m fun v m => .done (.ok v) m).exec a =
      (a _ task (setting.enter m)).atEnd setting.leave :=
  andThen_ended _

/-- A question ends a plan with its error or hands a value to what follows. -/
theorem exec_ask_eq_ended_iff {y y' : Yield} {setting : Setting}
    {task : Task y'} {m m' : Machine} {next : y'.Result → Machine → Plan y}
    {r : Except RuntimeError y.Result} :
    (Plan.ask setting task m next).exec a = .ended r m' ↔
      (∃ v m₁, a _ task (setting.enter m) = .ended (.ok v) m₁ ∧
        (next v (setting.leave m₁)).exec a = .ended r m') ∨
      ∃ e m₁, a _ task (setting.enter m) = .ended (.error e) m₁ ∧
        .error e = r ∧ setting.leave m₁ = m' := by
  rw [exec, andThen_eq_ended_iff]
  constructor
  · rintro (⟨v, _, hv, hnext⟩ | ⟨e, he, hr⟩)
    · obtain ⟨m₁, hm₁, rfl⟩ := atEnd_eq_ended_iff.1 hv
      exact .inl ⟨v, m₁, hm₁, hnext⟩
    · obtain ⟨m₁, hm₁, hleave⟩ := atEnd_eq_ended_iff.1 he
      exact .inr ⟨e, m₁, hm₁, hr.symm, hleave⟩
  · rintro (⟨v, m₁, hm₁, hnext⟩ | ⟨e, m₁, hm₁, hr, hleave⟩)
    · exact .inl ⟨v, _, atEnd_eq_ended_iff.2 ⟨m₁, hm₁, rfl⟩, hnext⟩
    · exact .inr ⟨e, atEnd_eq_ended_iff.2 ⟨m₁, hm₁, hleave⟩, hr.symm⟩

theorem exec_builtin (b : Builtin) (f : Ident) (args : List Literal)
    (m : Machine) :
    (Plan.builtin b f args m).exec a = runBuiltin b f args m := by
  unfold Plan.builtin runBuiltin
  cases b.call (args.map Builtin.Value.ofLiteral) with
  | error fault => rfl
  | ok effect => cases effect <;> rfl

end Plan

namespace Task

open Outcome Plan

variable {limit : Option Nat} {n : Nat}

theorem evalExpr_succ (e : Expr) (m : Machine) :
    evalExpr limit (n + 1) e m = (planExpr e m).exec (answers limit n) := by
  cases e with
  | literal v => rfl
  | var x => rfl
  | binary op l r =>
      simp only [evalExpr, planExpr, exec_ask_same, exec_done]
      rfl
  | call f args =>
      simp only [evalExpr, planExpr, exec_ask_same]
      refine andThen_congr _ fun v m => ?_
      cases v <;> rfl

theorem evalArgs_succ (es : List Expr) (m : Machine) :
    evalArgs limit (n + 1) es m = (planArgs es m).exec (answers limit n) := by
  cases es with
  | nil => rfl
  | cons e es =>
      simp only [evalArgs, planArgs, exec_ask_same, exec_done]
      rfl

theorem evalCall_succ (f : Ident) (args : List Expr) (m : Machine) :
    evalCall limit (n + 1) f args m =
      (planCall limit f args m).exec (answers limit n) := by
  simp only [evalCall, planCall]
  cases Builtin.ofName? f.text with
  | some b =>
      simp only [exec_ask_same, exec_builtin]
      rfl
  | none =>
      cases m.memory.find f with
      | error e => rfl
      | ok decl =>
          dsimp only
          by_cases hlength : decl.params.length ≠ args.length
          · rw [if_pos hlength, if_pos hlength, exec_done]
          · by_cases hlimit : limit.any (· ≤ m.calls) = true
            · rw [if_neg hlength, if_neg hlength, if_pos hlimit, if_pos hlimit,
                exec_done]
            · rw [if_neg hlength, if_neg hlength, if_neg hlimit, if_neg hlimit,
                exec_ask_same]
              refine andThen_congr _ fun vs m => ?_
              rw [exec_ask_last]
              exact atEnd_atEnd _ _ _

theorem execStmt_succ (s : Stmt) (m : Machine) :
    execStmt limit (n + 1) s m = (planStmt s m).exec (answers limit n) := by
  cases s with
  | declare ty x init =>
      simp only [execStmt, planStmt]
      split
      · rfl
      · rw [exec_ask_same]
        refine andThen_congr _ fun v m => ?_
        split <;> rfl
  | function f params body =>
      simp only [execStmt, planStmt]
      split <;> rfl
  | assign x value =>
      simp only [execStmt, planStmt]
      split
      · rw [exec_ask_same]
        rfl
      · rfl
  | ret line value => rfl
  | cond c body next =>
      simp only [execStmt, planStmt, exec_ask_last]
      exact (atEnd_id _).symm
  | loop c body =>
      simp only [execStmt, planStmt, exec_ask_last]
      exact (atEnd_id _).symm
  | call f args =>
      simp only [execStmt, planStmt, exec_ask_last]
      exact (atEnd_id _).symm

theorem execBranch_succ (c : Expr) (body : List Stmt) (next : ElseChain)
    (m : Machine) : execBranch limit (n + 1) c body next m =
      (planBranch c body next m).exec (answers limit n) := by
  simp only [execBranch, planBranch, exec_ask_same]
  refine andThen_congr _ fun v m => ?_
  split
  · rw [exec_ask_last]
    rfl
  · cases next with
    | none => rfl
    | elseIf c body next =>
        simp only [planNext, exec_ask_last]
        exact (atEnd_id _).symm
    | otherwise body =>
        simp only [planNext, exec_ask_last]
        rfl

theorem execLoop_succ (c : Expr) (body : List Stmt) (m : Machine) :
    execLoop limit (n + 1) c body m =
      (planLoop c body m).exec (answers limit n) := by
  simp only [execLoop, planLoop, exec_ask_same]
  refine andThen_congr _ fun v m => ?_
  split
  · refine andThen_congr _ fun v m => ?_
    cases v with
    | some v => rfl
    | none =>
        simp only [Plan.orElse, exec_ask_last]
        exact (atEnd_id _).symm
  · rfl

theorem execBody_succ (body : List Stmt) (m : Machine) :
    execBody limit (n + 1) body m =
      (planBody body m).exec (answers limit n) := by
  simp only [execBody]
  split
  · rfl
  · rfl
  · rw [planBody, exec_ask_same]
    rfl
  · next s rest hnone hsome =>
      have hs : ∀ line v, s ≠ .ret line v := by
        intro line v
        cases v with
        | none => exact hnone line
        | some e => exact hsome line e
      rw [planBody_cons hs, exec_ask_same]
      refine andThen_congr _ fun v m => ?_
      cases v with
      | some v => rfl
      | none =>
          simp only [Plan.orElse, exec_ask_last]
          exact (atEnd_id _).symm

/-- One more unit of the budget carries out the plan with the runs under the
smaller budget as answers. -/
theorem run_succ {y : Yield} (task : Task y) (m : Machine) :
    task.run limit (n + 1) m = (task.plan limit m).exec (answers limit n) := by
  cases task with
  | expr e => exact evalExpr_succ e m
  | arguments es => exact evalArgs_succ es m
  | call f args => exact evalCall_succ f args m
  | stmt s => exact execStmt_succ s m
  | branch c body next => exact execBranch_succ c body next m
  | loop c body => exact execLoop_succ c body m
  | statements body => exact execBody_succ body m

end Task

/-! ## The budget does not matter once a run has ended -/

/-- Answers that end wherever others do, and in the same way. -/
def Answers.Extends (b a : Answers) : Prop :=
  ∀ y (task : Task y) m r m', a y task m = .ended r m' →
    b y task m = .ended r m'

theorem Plan.exec_of_extends {a b : Answers} (h : b.Extends a) {y : Yield}
    {p : Plan y} {r : Except RuntimeError y.Result} {m' : Machine}
    (hp : p.exec a = .ended r m') : p.exec b = .ended r m' := by
  induction p with
  | done r m => exact hp
  | ask setting task m next ih =>
      rw [exec_ask_eq_ended_iff] at hp ⊢
      rcases hp with ⟨v, m₁, hm₁, hnext⟩ | ⟨e, m₁, hm₁, hends⟩
      · exact .inl ⟨v, m₁, h _ _ _ _ _ hm₁, ih v _ hnext⟩
      · exact .inr ⟨e, m₁, h _ _ _ _ _ hm₁, hends⟩

theorem answers_succ_extends (limit : Option Nat) (n : Nat) :
    (answers limit (n + 1)).Extends (answers limit n) := by
  induction n with
  | zero =>
      intro y task m r m' h
      rw [answers, Task.run_zero] at h
      cases h
  | succ n ih =>
      intro y task m r m' h
      rw [answers, Task.run_succ] at h ⊢
      exact Plan.exec_of_extends ih h

/-- A run that has ended under a budget ends in the same way under every larger
one. -/
theorem Task.run_mono {limit : Option Nat} {n k : Nat} (hnk : n ≤ k) {y : Yield}
    {task : Task y} {m m' : Machine} {r : Except RuntimeError y.Result}
    (h : task.run limit n m = .ended r m') :
    task.run limit k m = .ended r m' := by
  induction hnk with
  | refl => exact h
  | step _ ih => exact answers_succ_extends limit _ y task m r m' ih

theorem runProgram_mono {limit : Option Nat} {n k : Nat} (hnk : n ≤ k)
    {p : Program} {m m' : Machine} {r : Except RuntimeError Unit}
    (h : runProgram limit n p m = .ended r m') :
    runProgram limit k p m = .ended r m' := by
  induction p generalizing m with
  | nil => exact h
  | cons s rest ih =>
      have hs : ∀ {r m'}, (Task.stmt s).run limit n m = .ended r m' →
          (Task.stmt s).run limit k m = .ended r m' := Task.run_mono hnk
      rw [runProgram] at h ⊢
      rcases Outcome.andThen_eq_ended_iff.1 h with ⟨v, m₁, hv, hrest⟩ |
        ⟨e, he, rfl⟩
      · have hv' : execStmt limit k s m = .ended (.ok v) m₁ := hs hv
        rw [hv']
        exact ih hrest
      · have he' : execStmt limit k s m = .ended (.error e) m' := hs he
        rw [he']
        rfl

/-! ## Runs under some budget -/

/-- The run of the part ends, under some budget, with `r` and leaves `m'`. -/
def Task.Runs (limit : Option Nat) {y : Yield} (task : Task y) (m : Machine)
    (r : Except RuntimeError y.Result) (m' : Machine) : Prop :=
  ∃ n, task.run limit n m = .ended r m'

/-- The plan, with runs under some budget as answers, ends with `r` and leaves
`m'`. -/
def Plan.Runs (limit : Option Nat) {y : Yield} (p : Plan y)
    (r : Except RuntimeError y.Result) (m' : Machine) : Prop :=
  ∃ n, p.exec (answers limit n) = .ended r m'

section

variable {limit : Option Nat} {y y' : Yield} {m m' : Machine}
  {r : Except RuntimeError y.Result}

theorem Task.runs_iff_plan {task : Task y} :
    task.Runs limit m r m' ↔ (task.plan limit m).Runs limit r m' := by
  constructor
  · rintro ⟨n, hn⟩
    cases n with
    | zero =>
        rw [Task.run_zero] at hn
        cases hn
    | succ n => exact ⟨n, by rw [← Task.run_succ, hn]⟩
  · rintro ⟨n, hn⟩
    exact ⟨n + 1, by rw [Task.run_succ, hn]⟩

/-- A question and what follows it have a budget each, and the larger one is
enough for both. -/
theorem Plan.runs_ask_iff {setting : Setting} {task : Task y'}
    {next : y'.Result → Machine → Plan y} :
    (Plan.ask setting task m next).Runs limit r m' ↔
      (∃ v m₁, task.Runs limit (setting.enter m) (.ok v) m₁ ∧
        (next v (setting.leave m₁)).Runs limit r m') ∨
      ∃ e m₁, task.Runs limit (setting.enter m) (.error e) m₁ ∧
        .error e = r ∧ setting.leave m₁ = m' := by
  constructor
  · rintro ⟨n, hn⟩
    rcases exec_ask_eq_ended_iff.1 hn with ⟨v, m₁, hv, hnext⟩ |
      ⟨e, m₁, he, hends⟩
    · exact .inl ⟨v, m₁, ⟨n, hv⟩, n, hnext⟩
    · exact .inr ⟨e, m₁, ⟨n, he⟩, hends⟩
  · rintro (⟨v, m₁, ⟨n, hn⟩, k, hk⟩ | ⟨e, m₁, ⟨n, hn⟩, hends⟩)
    · have hrun : task.run limit (max n k) (setting.enter m) =
          .ended (.ok v) m₁ :=
        Task.run_mono (Nat.le_max_left n k) hn
      have hnext : (next v (setting.leave m₁)).exec (answers limit (max n k)) =
          .ended r m' :=
        exec_of_extends (fun _ _ _ _ _ => Task.run_mono (Nat.le_max_right n k))
          hk
      exact ⟨max n k, exec_ask_eq_ended_iff.2 (.inl ⟨v, m₁, hrun, hnext⟩)⟩
    · exact ⟨n, exec_ask_eq_ended_iff.2 (.inr ⟨e, m₁, hn, hends⟩)⟩

theorem Plan.runs_done_iff {r' : Except RuntimeError y.Result} :
    (Plan.done r' m).Runs limit r m' ↔ r = r' ∧ m' = m := by
  constructor
  · rintro ⟨n, hn⟩
    cases hn
    exact ⟨rfl, rfl⟩
  · rintro ⟨rfl, rfl⟩
    exact ⟨0, rfl⟩

/-- A plan that ends without an error has a value for each of its questions. -/
theorem Plan.runs_ask_ok_iff {setting : Setting} {task : Task y'}
    {next : y'.Result → Machine → Plan y} {v : y.Result} :
    (Plan.ask setting task m next).Runs limit (.ok v) m' ↔
      ∃ w m₁, task.Runs limit (setting.enter m) (.ok w) m₁ ∧
        (next w (setting.leave m₁)).Runs limit (.ok v) m' := by
  rw [runs_ask_iff]
  constructor
  · rintro (h | ⟨e, m₁, -, he, -⟩)
    · exact h
    · cases he
  · exact .inl

theorem Task.Runs.unique {task : Task y} {m₁ m₂ : Machine}
    {r₁ r₂ : Except RuntimeError y.Result} (h₁ : task.Runs limit m r₁ m₁)
    (h₂ : task.Runs limit m r₂ m₂) : r₁ = r₂ ∧ m₁ = m₂ := by
  obtain ⟨n, hn⟩ := h₁
  obtain ⟨k, hk⟩ := h₂
  have h := Task.run_mono (Nat.le_max_left n k) hn
  rw [Task.run_mono (Nat.le_max_right n k) hk] at h
  cases h
  exact ⟨rfl, rfl⟩

/-- A question with a known answer leaves what follows it. -/
theorem Plan.runs_ask_iff_of_runs {setting : Setting} {task : Task y'}
    {next : y'.Result → Machine → Plan y} {v : y'.Result} {m₁ : Machine}
    (h : task.Runs limit (setting.enter m) (.ok v) m₁) :
    (Plan.ask setting task m next).Runs limit r m' ↔
      (next v (setting.leave m₁)).Runs limit r m' := by
  rw [runs_ask_iff]
  constructor
  · rintro (⟨w, m₂, hw, hnext⟩ | ⟨e, m₂, he, -⟩)
    · obtain ⟨hvw, rfl⟩ := h.unique hw
      cases hvw
      exact hnext
    · cases (h.unique he).1
  · exact fun hnext => .inl ⟨v, m₁, h, hnext⟩

theorem Plan.runs_ask_congr {setting : Setting} {task : Task y'}
    {next next' : y'.Result → Machine → Plan y}
    (h : ∀ v m₁, (next v m₁).Runs limit r m' ↔ (next' v m₁).Runs limit r m') :
    (Plan.ask setting task m next).Runs limit r m' ↔
      (Plan.ask setting task m next').Runs limit r m' := by
  simp only [runs_ask_iff, h]

theorem Plan.runs_ask_last_iff {setting : Setting} {task : Task y} :
    (Plan.ask setting task m fun v m => .done (.ok v) m).Runs limit r m' ↔
      ∃ m₁, task.Runs limit (setting.enter m) r m₁ ∧ setting.leave m₁ = m' := by
  constructor
  · rintro ⟨n, hn⟩
    rw [exec_ask_last] at hn
    obtain ⟨m₁, hm₁, hleave⟩ := Outcome.atEnd_eq_ended_iff.1 hn
    exact ⟨m₁, ⟨n, hm₁⟩, hleave⟩
  · rintro ⟨m₁, ⟨n, hn⟩, hleave⟩
    refine ⟨n, ?_⟩
    rw [exec_ask_last]
    exact Outcome.atEnd_eq_ended_iff.2 ⟨m₁, hn, hleave⟩

end

/-! ## The moments of a run -/

/-- The plan comes to ask for `task`, entered from `m`. -/
inductive Plan.Asks (limit : Option Nat) :
    {y : Yield} → Plan y → Setting → {y' : Yield} → Task y' → Machine → Prop
  | now {y y' : Yield} {setting : Setting} {task : Task y'} {m : Machine}
      {next : y'.Result → Machine → Plan y} :
      Asks limit (.ask setting task m next) setting task m
  | later {y y₁ y₂ : Yield} {setting setting' : Setting} {task : Task y₁}
      {task' : Task y₂} {m m₁ m' : Machine}
      {next : y₁.Result → Machine → Plan y} {v : y₁.Result} :
      task.Runs limit (setting.enter m) (.ok v) m₁ →
      Asks limit (next v (setting.leave m₁)) setting' task' m' →
      Asks limit (.ask setting task m next) setting' task' m'

/-- While `task` runs from `m`, the run comes to a part that begins on another
machine. The list holds how the parts around it were entered, from the innermost
to `task`. -/
inductive Task.Reaches (limit : Option Nat) {y : Yield} (task : Task y)
    (m : Machine) : List Setting → {y' : Yield} → Task y' → Machine → Prop
  | start : Reaches limit task m [] task m
  | step {stack : List Setting} {y₁ y₂ : Yield} {task₁ : Task y₁}
      {task₂ : Task y₂} {m₁ m₂ : Machine} {setting : Setting} :
      Reaches limit task m stack task₁ m₁ →
        (task₁.plan limit m₁).Asks limit setting task₂ m₂ →
      Reaches limit task m (setting :: stack) task₂ (setting.enter m₂)

/-- While the program runs from `m`, one of its statements is reached, and from
there a part of it. -/
def Program.Reaches (limit : Option Nat) (p : Program) (m : Machine)
    (stack : List Setting) {y : Yield} (task : Task y) (m' : Machine) : Prop :=
  ∃ before s after n m₁, p = before ++ s :: after ∧
    runProgram limit n before m = .ended (.ok ()) m₁ ∧
    (Task.stmt s).Reaches limit m₁ stack task m'

/-! ## What holds at every moment -/

/-- The plan asks only for what `ask` allows and ends as `post` says, if every
run that it asks for ends as `answer` says. -/
def Plan.Meets (ask : ∀ y : Yield, Setting → Task y → Machine → Prop)
    (answer : ∀ y : Yield, Task y → Machine → Except RuntimeError y.Result →
      Machine → Prop)
    {y : Yield} (post : Except RuntimeError y.Result → Machine → Prop) :
    Plan y → Prop
  | .done r m => post r m
  | .ask setting task m next =>
    ask _ setting task m ∧
    (∀ e m', answer _ task (setting.enter m) (.error e) m' →
      post (.error e) (setting.leave m')) ∧
    (∀ v m', answer _ task (setting.enter m) (.ok v) m' →
      (next v (setting.leave m')).Meets ask answer post)

/-- A condition on the parts that are reached, with how they were entered, and
one on how their runs end, such that every plan hands them on. -/
structure Invariant (limit : Option Nat) where
  pre : List Setting → ∀ y : Yield, Task y → Machine → Prop
  post : ∀ y : Yield, Task y → Machine → Except RuntimeError y.Result →
    Machine → Prop
  plan_meets : ∀ {stack : List Setting} {y : Yield} {task : Task y}
    {m : Machine}, pre stack y task m →
    (task.plan limit m).Meets
      (fun y setting task' m' =>
        pre (setting :: stack) y task' (setting.enter m'))
      post (post y task m)

section

variable {limit : Option Nat}
  {ask ask' : ∀ y : Yield, Setting → Task y → Machine → Prop}
  {answer answer' : ∀ y : Yield, Task y → Machine →
    Except RuntimeError y.Result → Machine → Prop} {y : Yield}
  {post post' : Except RuntimeError y.Result → Machine → Prop} {p : Plan y}

theorem Plan.Meets.imp (h : p.Meets ask answer post)
    (hask : ∀ y setting task m, ask y setting task m → ask' y setting task m) :
    p.Meets ask' answer post := by
  induction p with
  | done r m => exact h
  | ask setting task m next ih =>
      obtain ⟨hnow, herror, hok⟩ := h
      exact ⟨hask _ _ _ _ hnow, herror, fun v m' hm' => ih v _ (hok v m' hm')⟩

theorem Plan.Meets.and (h : p.Meets ask answer post)
    (h' : p.Meets ask' answer' post') :
    p.Meets
      (fun y setting task m => ask y setting task m ∧ ask' y setting task m)
      (fun y task m r m' => answer y task m r m' ∧ answer' y task m r m')
      fun r m => post r m ∧ post' r m := by
  induction p with
  | done r m => exact ⟨h, h'⟩
  | ask setting task m next ih =>
      obtain ⟨hask, herror, hok⟩ := h
      obtain ⟨hask', herror', hok'⟩ := h'
      exact ⟨⟨hask, hask'⟩,
        fun e m' ha => ⟨herror e m' ha.1, herror' e m' ha.2⟩,
        fun v m' ha => ih v _ (hok v m' ha.1) (hok' v m' ha.2)⟩

theorem Plan.Meets.ends (h : p.Meets ask answer post) {a : Answers}
    (ha : ∀ y setting (task : Task y) m, ask y setting task m →
      (a y task (setting.enter m)).Ends (answer y task (setting.enter m))) :
    (p.exec a).Ends post := by
  induction p with
  | done r m => exact Outcome.ends_ended h
  | ask setting task m next ih =>
      obtain ⟨hask, herror, hok⟩ := h
      have hrun := (ha _ _ _ _ hask).atEnd (f := setting.leave)
        (Q := fun r m => ∃ m', answer _ task (setting.enter _) r m' ∧
          setting.leave m' = m)
        fun r m' hr => ⟨m', hr, rfl⟩
      refine hrun.andThen ?_ ?_
      · rintro e _ ⟨m', hm', rfl⟩
        exact herror e m' hm'
      · rintro v _ ⟨m', hm', rfl⟩
        exact ih v _ (hok v m' hm')

theorem Plan.Meets.asks (h : p.Meets ask answer post)
    (ha : ∀ y setting (task : Task y) m r m', ask y setting task m →
      task.Runs limit (setting.enter m) r m' →
        answer y task (setting.enter m) r m')
    {setting : Setting} {y' : Yield} {task : Task y'} {m : Machine}
    (hp : p.Asks limit setting task m) : ask y' setting task m := by
  induction hp with
  | now => exact h.1
  | later hruns _ ih =>
      obtain ⟨hask, -, hok⟩ := h
      exact ih (hok _ _ (ha _ _ _ _ _ _ hask hruns))

end

namespace Invariant

variable {limit : Option Nat} (inv : Invariant limit) {stack : List Setting}
  {y y' : Yield} {task : Task y} {task' : Task y'} {m m' : Machine}

theorem ends (n : Nat) (h : inv.pre stack y task m) :
    (task.run limit n m).Ends (inv.post y task m) := by
  induction n generalizing stack y task m with
  | zero =>
      rw [Task.run_zero]
      exact Outcome.ends_spent
  | succ n ih =>
      rw [Task.run_succ]
      exact (inv.plan_meets h).ends fun y setting task m hask => ih hask

theorem runs {r : Except RuntimeError y.Result} (h : inv.pre stack y task m)
    (hr : task.Runs limit m r m') : inv.post y task m r m' := by
  obtain ⟨n, hn⟩ := hr
  exact inv.ends n h r m' hn

theorem reaches (h : inv.pre [] y task m)
    (hr : task.Reaches limit m stack task' m') : inv.pre stack y' task' m' := by
  induction hr with
  | start => exact h
  | step _ hasks ih =>
      exact (inv.plan_meets ih).asks
        (fun _ _ _ _ _ _ hask hruns => inv.runs hask hruns) hasks

end Invariant

end Quill
