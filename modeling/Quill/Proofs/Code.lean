import Quill.Proofs.WellFormed

/-!
# Runs stay in the text

A part of a program asks for parts that stand in its own text, or for the body
of a function that memory knows. It fails by itself in a few ways, each with the
line and the text that the error shows, and it changes the machine by itself in
a few others. `Plan.Follows` says all of this of a plan, and one walk through
the plans proves it of each.

Two things follow. A property of code that goes from a part to what stands in
it holds of everything that is ever run, if it holds of the program and of the
functions in memory. And an error can be traced to its place: the run has
reached a part that fails in just this way by itself.
-/

namespace Quill

/-! ## What a part does by itself -/

namespace Task

/-- Running the first part may ask for the second, entered as the setting says.
A `return` is never asked for: where one comes, its body asks for its value and
ends. -/
inductive Uses (mem : Memory) :
    {y y' : Yield} → Task y → Setting → Task y' → Prop
  | left {op : Token} {l r : Expr} :
      Uses mem (.expr (.binary op l r)) .same (.expr l)
  | right {op : Token} {l r : Expr} :
      Uses mem (.expr (.binary op l r)) .same (.expr r)
  | application {f : Ident} {args : List Expr} :
      Uses mem (.expr (.call f args)) .same (.call f args)
  | first {e : Expr} {es : List Expr} :
      Uses mem (.arguments (e :: es)) .same (.expr e)
  | others {e : Expr} {es : List Expr} :
      Uses mem (.arguments (e :: es)) .same (.arguments es)
  | arguments {f : Ident} {args : List Expr} :
      Uses mem (.call f args) .same (.arguments args)
  | body {f : Ident} {args : List Expr} {decl : FunDecl} {vs : List Literal} :
      mem.find f = .ok decl →
        Uses mem (.call f args) (.body decl vs) (.statements decl.body)
  | initial {ty : TypeName} {x : Ident} {init : Expr} :
      Uses mem (.stmt (.declare ty x init)) .same (.expr init)
  | assigned {x : Ident} {value : Expr} :
      Uses mem (.stmt (.assign x value)) .same (.expr value)
  | cond {c : Expr} {body : List Stmt} {next : ElseChain} :
      Uses mem (.stmt (.cond c body next)) .same (.branch c body next)
  | loop {c : Expr} {body : List Stmt} :
      Uses mem (.stmt (.loop c body)) .same (.loop c body)
  | call {f : Ident} {args : List Expr} :
      Uses mem (.stmt (.call f args)) .same (.call f args)
  | condition {c : Expr} {body : List Stmt} {next : ElseChain} :
      Uses mem (.branch c body next) .same (.expr c)
  | taken {c : Expr} {body : List Stmt} {next : ElseChain} :
      Uses mem (.branch c body next) .block (.statements body)
  | elseIf {c c' : Expr} {body body' : List Stmt} {next : ElseChain} :
      Uses mem (.branch c body (.elseIf c' body' next)) .same
        (.branch c' body' next)
  | otherwise {c : Expr} {body body' : List Stmt} :
      Uses mem (.branch c body (.otherwise body')) .block (.statements body')
  | loopCondition {c : Expr} {body : List Stmt} :
      Uses mem (.loop c body) .same (.expr c)
  | round {c : Expr} {body : List Stmt} :
      Uses mem (.loop c body) .block (.statements body)
  | again {c : Expr} {body : List Stmt} :
      Uses mem (.loop c body) .same (.loop c body)
  | result {line : Nat} {e : Expr} {rest : List Stmt} :
      Uses mem (.statements (.ret line (some e) :: rest)) .same (.expr e)
  | statement {s : Stmt} {rest : List Stmt} : (∀ line v, s ≠ .ret line v) →
      Uses mem (.statements (s :: rest)) .same (.stmt s)
  | rest {s : Stmt} {rest : List Stmt} : (∀ line v, s ≠ .ret line v) →
      Uses mem (.statements (s :: rest)) .same (.statements rest)

/-- The errors with which a part fails by itself. -/
inductive Fails : {y : Yield} → Task y → RuntimeError → Prop
  | unbound (x : Ident) : Fails (.expr (.var x)) (x.failure .undeclaredVariable)
  | operator {op : Token} {l r : Expr} {a b : Literal} {e : RuntimeError} :
      Operator.apply op a b = .error e → Fails (.expr (.binary op l r)) e
  | noValue (f : Ident) (args : List Expr) :
      Fails (.expr (.call f args)) (f.failure .expectedReturn)
  | builtin (f : Ident) (args : List Expr) {fault : RuntimeFault} :
      fault ∈ Builtin.faults → Fails (.call f args) (f.failure fault)
  | unknown (f : Ident) (args : List Expr) :
      Fails (.call f args) (f.failure .undeclaredFunction)
  | count (f : Ident) (args : List Expr) :
      Fails (.call f args) (f.failure .invalidNumberOfArgs)
  | limit (f : Ident) (args : List Expr) :
      Fails (.call f args) (f.failure .recursionLimit)
  | bound (ty : TypeName) (x : Ident) (init : Expr) :
      Fails (.stmt (.declare ty x init)) (x.failure .declaredVariable)
  | type (ty : TypeName) (x : Ident) (init : Expr) :
      Fails (.stmt (.declare ty x init)) (x.failure .invalidVariableType)
  | known (f : Ident) (params : List Param) (body : List Stmt) :
      Fails (.stmt (.function f params body)) (f.failure .declaredFunction)
  | unassignable (x : Ident) (value : Expr) :
      Fails (.stmt (.assign x value)) (x.failure .undeclaredVariable)
  | outside (line : Nat) (value : Option Expr) :
      Fails (.stmt (.ret line value)) ⟨.invalidStatement, line, some "return"⟩

/-- What a part does to the machine by itself. -/
inductive Leaves : {y : Yield} → Task y → Machine → Machine → Prop
  | same {y : Yield} (task : Task y) (m : Machine) : Leaves task m m
  | print (f : Ident) (args : List Expr) (m : Machine) (text : String) :
      Leaves (.call f args) m (m.print text)
  | declare (ty : TypeName) (x : Ident) (init : Expr) (m : Machine)
      (v : Literal) : Leaves (.stmt (.declare ty x init)) m (m.assign x.text v)
  | assign (x : Ident) (value : Expr) (m : Machine) (v : Literal) :
      Leaves (.stmt (.assign x value)) m (m.assign x.text v)
  | function (f : Ident) (params : List Param) (body : List Stmt)
      (m : Machine) :
      Leaves (.stmt (.function f params body)) m (m.declare ⟨f, params, body⟩)

end Task

/-- The plan, from the machine given, does nothing but what `task` does with the
functions of `mem`: it changes the machine only at its end. -/
def Plan.Follows {y₀ : Yield} (task : Task y₀) (mem : Memory) {y : Yield} :
    Machine → Plan y → Prop
  | m₀, .done r m => task.Leaves m₀ m ∧ ∀ e, r = .error e → task.Fails e
  | m₀, .ask setting t m next =>
    m = m₀ ∧ task.Uses mem setting t ∧ ∀ v m₁, (next v m₁).Follows task mem m₁

namespace Task

section

variable {y₀ y : Yield} {task : Task y₀} {mem : Memory} {m : Machine}

/-- The end of a plan, with a change of the machine. -/
theorem follows_leave {m' : Machine} (hm' : task.Leaves m m') {v : y.Result} :
    (Plan.done (.ok v) m' : Plan y).Follows task mem m := by
  refine ⟨hm', fun e he => ?_⟩
  cases he

theorem follows_done {v : y.Result} :
    (Plan.done (.ok v) m : Plan y).Follows task mem m :=
  follows_leave (.same task m)

theorem follows_error {e : RuntimeError} (he : task.Fails e) :
    (Plan.done (.error e) m : Plan y).Follows task mem m := by
  refine ⟨.same task m, ?_⟩
  rintro _ ⟨⟩
  exact he

theorem follows_result {r : Except RuntimeError y.Result}
    (hr : ∀ e, r = .error e → task.Fails e) :
    (Plan.done r m).Follows task mem m :=
  ⟨.same task m, hr⟩

theorem follows_ask {y' : Yield} {setting : Setting} {t : Task y'}
    {next : y'.Result → Machine → Plan y} (ht : task.Uses mem setting t)
    (hnext : ∀ v m₁, (next v m₁).Follows task mem m₁) :
    (Plan.ask setting t m next).Follows task mem m :=
  ⟨rfl, ht, hnext⟩

/-- A part whose value is handed on. -/
theorem follows_ask_last {setting : Setting} {t : Task y}
    (ht : task.Uses mem setting t) :
    (Plan.ask setting t m fun v m => .done (.ok v) m).Follows task mem m :=
  follows_ask ht fun _ _ => follows_done

theorem follows_orElse {rest : Machine → Plan .optional}
    (hrest : ∀ m, (rest m).Follows task mem m) (v : Option Literal)
    (m : Machine) : (Plan.orElse rest v m).Follows task mem m := by
  cases v with
  | some v => exact follows_done
  | none => exact hrest m

end

theorem follows_builtin (b : Builtin) (f : Ident) (es : List Expr)
    (mem : Memory) (args : List Literal) (m : Machine) :
    (Plan.builtin b f args m).Follows (.call f es) mem m := by
  unfold Plan.builtin
  split
  · next h => exact follows_error (.builtin f es (Builtin.mem_faults_of_call h))
  · exact follows_leave (.print f es m _)
  · exact follows_done

theorem follows_planExpr (e : Expr) (m : Machine) :
    (planExpr e m).Follows (.expr e) m.memory m := by
  cases e with
  | literal v => exact follows_done
  | var x =>
      refine follows_result fun e he => ?_
      rw [Memory.read] at he
      split at he
      · cases he
      · cases he
        exact .unbound x
  | binary op l r =>
      refine follows_ask .left fun a m₁ => follows_ask .right fun b m₂ => ?_
      exact follows_result fun e he => .operator he
  | call f args =>
      refine follows_ask .application fun v m₁ => ?_
      cases v with
      | none => exact follows_error (.noValue f args)
      | some v => exact follows_done

theorem follows_planArgs (es : List Expr) (m : Machine) :
    (planArgs es m).Follows (.arguments es) m.memory m := by
  cases es with
  | nil => exact follows_done
  | cons e es =>
      refine follows_ask .first fun v m₁ => follows_ask .others fun vs m₂ => ?_
      exact follows_done

/-- The body of a called function is the one that is known before the arguments
are evaluated. -/
theorem follows_planCall (limit : Option Nat) (f : Ident) (args : List Expr)
    (m : Machine) :
    (planCall limit f args m).Follows (.call f args) m.memory m := by
  unfold planCall
  split
  · next b _ =>
      exact follows_ask .arguments fun vs m₁ => follows_builtin b f args _ vs m₁
  · split
    · next e hfind =>
        refine follows_error ?_
        rw [Memory.find] at hfind
        split at hfind
        · cases hfind
        · cases hfind
          exact .unknown f args
    · next decl hfind =>
        split
        · exact follows_error (.count f args)
        · split
          · exact follows_error (.limit f args)
          · exact follows_ask .arguments fun vs m₁ =>
              follows_ask_last (.body hfind)

theorem follows_planStmt (s : Stmt) (m : Machine) :
    (planStmt s m).Follows (.stmt s) m.memory m := by
  cases s with
  | declare ty x init =>
      simp only [planStmt]
      split
      · exact follows_error (.bound ty x init)
      · refine follows_ask .initial fun v m₁ => ?_
        split
        · exact follows_leave (.declare ty x init m₁ v)
        · exact follows_error (.type ty x init)
  | function f params body =>
      simp only [planStmt]
      split
      · exact follows_error (.known f params body)
      · exact follows_leave (.function f params body m)
  | assign x value =>
      simp only [planStmt]
      split
      · exact follows_ask .assigned fun v m₁ =>
          follows_leave (.assign x value m₁ v)
      · exact follows_error (.unassignable x value)
  | ret line value => exact follows_error (.outside line value)
  | cond c body next => exact follows_ask_last .cond
  | loop c body => exact follows_ask_last .loop
  | call f args => exact follows_ask_last .call

theorem follows_planBranch (c : Expr) (body : List Stmt) (next : ElseChain)
    (m : Machine) :
    (planBranch c body next m).Follows (.branch c body next) m.memory m := by
  refine follows_ask .condition fun v m₁ => ?_
  split
  · exact follows_ask_last .taken
  · cases next with
    | none => exact follows_done
    | elseIf c' body' next => exact follows_ask_last .elseIf
    | otherwise body' => exact follows_ask_last .otherwise

theorem follows_planLoop (c : Expr) (body : List Stmt) (m : Machine) :
    (planLoop c body m).Follows (.loop c body) m.memory m := by
  refine follows_ask .loopCondition fun v m₁ => ?_
  split
  · exact follows_ask .round (follows_orElse fun m₂ => follows_ask_last .again)
  · exact follows_done

theorem follows_planBody (body : List Stmt) (m : Machine) :
    (planBody body m).Follows (.statements body) m.memory m := by
  unfold planBody
  split
  · exact follows_done
  · exact follows_done
  · exact follows_ask .result fun v m₁ => follows_done
  · next s rest hnone hsome =>
      have hs : ∀ line v, s ≠ .ret line v := by
        intro line v
        cases v with
        | none => exact hnone line
        | some e => exact hsome line e
      exact follows_ask (.statement hs)
        (follows_orElse fun m₁ => follows_ask_last (.rest hs))

theorem follows_plan (limit : Option Nat) {y : Yield} (task : Task y)
    (m : Machine) : (task.plan limit m).Follows task m.memory m := by
  cases task with
  | expr e => exact follows_planExpr e m
  | arguments es => exact follows_planArgs es m
  | call f args => exact follows_planCall limit f args m
  | stmt s => exact follows_planStmt s m
  | branch c body next => exact follows_planBranch c body next m
  | loop c body => exact follows_planLoop c body m
  | statements body => exact follows_planBody body m

end Task

/-! ## Properties of code -/

/-- All functions in memory have bodies of which `C` holds. -/
def Memory.Knows (C : ∀ y : Yield, Task y → Prop) (mem : Memory) : Prop :=
  mem.Holds (fun _ => True) fun f => C _ (.statements f.body)

/-- A property of code that a part hands on to all that it uses, and a function
to its body. -/
structure Hereditary (C : ∀ y : Yield, Task y → Prop) : Prop where
  uses : ∀ {y y' : Yield} {task : Task y} {t : Task y'} {mem : Memory}
    {setting : Setting}, task.Uses mem setting t → C y task → mem.Knows C →
      C y' t
  function : ∀ {f : Ident} {params : List Param} {body : List Stmt},
    C _ (.stmt (.function f params body)) → C _ (.statements body)

namespace Memory.Knows

variable {C : ∀ y : Yield, Task y → Prop} {mem : Memory} {m : Machine}

theorem fresh : Machine.fresh.memory.Knows C :=
  Memory.Holds.fresh

theorem of_find (h : mem.Knows C) {f : Ident} {decl : FunDecl}
    (hf : mem.find f = .ok decl) : C _ (.statements decl.body) := by
  rw [Memory.find] at hf
  split at hf
  · next hdecl =>
      cases hf
      exact h.of_function? hdecl
  · cases hf

theorem machineEnter (h : m.memory.Knows C) (bindings : Bindings Literal) :
    (m.enter bindings).memory.Knows C := by
  refine List.foldlRecOn (motive := Memory.Knows C) bindings _
    (Memory.Holds.enter h) ?_
  rintro mem hmem ⟨x, v⟩ _
  exact Memory.Holds.bind hmem x trivial

theorem settingEnter (h : m.memory.Knows C) (setting : Setting) :
    (setting.enter m).memory.Knows C := by
  cases setting with
  | same => exact h
  | block => exact h.machineEnter []
  | body f args => exact machineEnter (m := m.beginCall) h _

theorem settingLeave (h : m.memory.Knows C) (setting : Setting) :
    (setting.leave m).memory.Knows C := by
  cases setting with
  | same => exact h
  | block => exact Memory.Holds.leave h
  | body f args => exact Memory.Holds.leave h

theorem leaves (hC : Hereditary C) {y : Yield} {task : Task y}
    (htask : C y task) {m' : Machine} (h : m.memory.Knows C)
    (hm' : task.Leaves m m') : m'.memory.Knows C := by
  cases hm' with
  | same => exact h
  | print => exact h
  | declare => exact Memory.Holds.assign h _ trivial
  | assign => exact Memory.Holds.assign h _ trivial
  | function => exact Memory.Holds.declare h (hC.function htask)

end Memory.Knows

namespace Hereditary

variable {C : ∀ y : Yield, Task y → Prop} (hC : Hereditary C)

include hC

theorem meets {y₀ : Yield} {task : Task y₀} (htask : C y₀ task) {mem : Memory}
    (hmem : mem.Knows C) {y : Yield} {p : Plan y} {m₀ : Machine}
    (hp : p.Follows task mem m₀) (hm₀ : m₀.memory.Knows C) :
    p.Meets (fun y setting t m => C y t ∧ (setting.enter m).memory.Knows C)
      (fun _ _ _ _ m' => m'.memory.Knows C) fun _ m' => m'.memory.Knows C := by
  induction p generalizing m₀ with
  | done r m => exact hm₀.leaves hC htask hp.1
  | ask setting t m next ih =>
      obtain ⟨rfl, ht, hnext⟩ := hp
      refine ⟨⟨hC.uses ht htask hmem, hm₀.settingEnter setting⟩,
        fun e m' hm' => ?_, fun v m' hm' => ?_⟩
      · exact hm'.settingLeave setting
      · exact ih v _ (hnext v _) (hm'.settingLeave setting)

/-- What is run has the property, at every moment. -/
def invariant (limit : Option Nat) : Invariant limit where
  pre _ y task m := C y task ∧ m.memory.Knows C
  post _ _ _ _ m' := m'.memory.Knows C
  plan_meets :=
    fun {_ _ task m} h => hC.meets h.1 h.2 (task.follows_plan limit m) h.2

end Hereditary

/-! ## Properties of all statements in a text -/

mutual

/-- `p` holds of the statement and of all statements in it, also in the
functions that it declares. -/
def Stmt.every (p : Stmt → Bool) : Stmt → Bool
  | .function f params body =>
    p (.function f params body) && Stmt.listEvery p body
  | .cond c body next =>
    p (.cond c body next) && (Stmt.listEvery p body && next.every p)
  | .loop c body => p (.loop c body) && Stmt.listEvery p body
  | .declare ty x init => p (.declare ty x init)
  | .assign x value => p (.assign x value)
  | .ret line value => p (.ret line value)
  | .call f args => p (.call f args)

def Stmt.listEvery (p : Stmt → Bool) : List Stmt → Bool
  | [] => true
  | s :: rest => s.every p && Stmt.listEvery p rest

def ElseChain.every (p : Stmt → Bool) : ElseChain → Bool
  | .none => true
  | .elseIf _ body next => Stmt.listEvery p body && next.every p
  | .otherwise body => Stmt.listEvery p body

end

/-- `p` holds of all statements in the functions in memory. -/
def Memory.every (p : Stmt → Bool) (mem : Memory) : Bool :=
  mem.scopes.all fun s => s.funs.all fun (_, f) => Stmt.listEvery p f.body

/-- `p` holds of all statements in the part. A loop that is running is the
statement that it came from. -/
def Task.every (p : Stmt → Bool) : {y : Yield} → Task y → Bool
  | _, .expr _ | _, .arguments _ | _, .call _ _ => true
  | _, .stmt s => s.every p
  | _, .branch _ body next => Stmt.listEvery p body && next.every p
  | _, .loop c body => p (.loop c body) && Stmt.listEvery p body
  | _, .statements body => Stmt.listEvery p body

/-- The parts all of whose statements satisfy `p`, as a property of code. -/
def Every (p : Stmt → Bool) (y : Yield) (task : Task y) : Prop :=
  task.every p = true

theorem Memory.knows_every_iff {p : Stmt → Bool} {mem : Memory} :
    mem.Knows (Every p) ↔ mem.every p = true := by
  simp only [Memory.every, List.all_eq_true]
  constructor
  · intro h s hs b hb
    exact (h s hs).2 b hb
  · intro h s hs
    exact ⟨fun _ _ => trivial, h s hs⟩

theorem Stmt.holds_of_every {p : Stmt → Bool} {s : Stmt}
    (h : s.every p = true) : p s = true := by
  cases s <;> simp_all [Stmt.every]

theorem hereditary_every (p : Stmt → Bool) : Hereditary (Every p) where
  uses := by
    intro y y' task t mem setting huses htask hmem
    cases huses with
    | body hfind => exact hmem.of_find hfind
    | cond =>
        rw [Every, Task.every, Stmt.every, Bool.and_eq_true] at htask
        exact htask.2
    | loop =>
        rw [Every, Task.every, Stmt.every] at htask
        exact htask
    | taken => exact (Bool.and_eq_true_iff.1 htask).1
    | elseIf =>
        have hnext := (Bool.and_eq_true_iff.1 htask).2
        rw [ElseChain.every] at hnext
        exact hnext
    | otherwise =>
        have hnext := (Bool.and_eq_true_iff.1 htask).2
        rw [ElseChain.every] at hnext
        exact hnext
    | round => exact (Bool.and_eq_true_iff.1 htask).2
    | again => exact htask
    | statement _ =>
        rw [Every, Task.every, Stmt.listEvery, Bool.and_eq_true] at htask
        exact htask.1
    | rest _ =>
        rw [Every, Task.every, Stmt.listEvery, Bool.and_eq_true] at htask
        exact htask.2
    | _ => rfl
  function := by
    intro f params body htask
    rw [Every, Task.every, Stmt.every, Bool.and_eq_true] at htask
    exact htask.2

/-! ## Where an error comes from -/

namespace Task

variable {limit : Option Nat}

theorem Reaches.trans {y y₁ y₂ : Yield} {task : Task y} {t : Task y₁}
    {t' : Task y₂} {m m₁ m₂ : Machine} {outer inner : List Setting}
    (h₁ : task.Reaches limit m outer t m₁)
    (h₂ : t.Reaches limit m₁ inner t' m₂) :
    task.Reaches limit m (inner ++ outer) t' m₂ := by
  induction h₂ with
  | start => exact h₁
  | step _ hasks ih => exact .step ih hasks

theorem uses_of_asks {y₀ : Yield} {task : Task y₀} {mem : Memory} {y y' : Yield}
    {p : Plan y} {m₀ m : Machine} (hp : p.Follows task mem m₀)
    {setting : Setting} {t : Task y'} (h : p.Asks limit setting t m) :
    task.Uses mem setting t := by
  induction h generalizing m₀ with
  | now => exact hp.2.1
  | later _ _ ih => exact ih (hp.2.2 _ _)

/-- The error of a plan is the plan's own, or that of a run that it has asked
for. -/
theorem asks_of_exec_error {y₀ : Yield} {task : Task y₀} {mem : Memory}
    {n : Nat} {y : Yield} {p : Plan y} {m₀ m' : Machine} {e : RuntimeError}
    (hp : p.Follows task mem m₀)
    (h : p.exec (answers limit n) = .ended (.error e) m') :
    task.Fails e ∨
      ∃ (setting : Setting) (y' : Yield) (t : Task y') (m m₁ : Machine),
      p.Asks limit setting t m ∧ t.run limit n (setting.enter m) =
        .ended (.error e) m₁ := by
  induction p generalizing m₀ with
  | done r m =>
      cases h
      exact .inl (hp.2 e rfl)
  | ask setting t m next ih =>
      rcases Plan.exec_ask_eq_ended_iff.1 h with ⟨v, m₁, hv, hnext⟩ |
        ⟨e', m₁, he', heq, -⟩
      · rcases ih v _ (hp.2.2 v _) hnext with hfails |
          ⟨setting', y', t', m₂, m₃, hasks, hrun⟩
        · exact .inl hfails
        · exact .inr ⟨setting', y', t', m₂, m₃, .later ⟨n, hv⟩ hasks, hrun⟩
      · cases heq
        exact .inr ⟨setting, _, t, m, m₁, .now, he'⟩

/-- A run that ends with an error has reached a part that fails so by itself. -/
theorem exists_fails {n : Nat} {y : Yield} {task : Task y} {m m' : Machine}
    {e : RuntimeError} (h : task.run limit n m = .ended (.error e) m') :
    ∃ (stack : List Setting) (y' : Yield) (t : Task y') (m₁ : Machine),
      task.Reaches limit m stack t m₁ ∧ t.Fails e := by
  induction n generalizing y m m' with
  | zero =>
      rw [run_zero] at h
      cases h
  | succ n ih =>
      rw [run_succ] at h
      rcases asks_of_exec_error (task.follows_plan limit m) h with
        hfails | ⟨setting, y', t, m₁, m₂, hasks, hrun⟩
      · exact ⟨[], y, task, m, .start, hfails⟩
      · obtain ⟨stack, y₂, t', m₃, hreaches, hfails⟩ := ih hrun
        exact ⟨stack ++ [setting], y₂, t', m₃,
          (Reaches.step .start hasks).trans hreaches, hfails⟩

end Task

theorem runProgram_append (limit : Option Nat) (n : Nat)
    (before after : Program) (m : Machine) :
    runProgram limit n (before ++ after) m =
      (runProgram limit n before m).andThen fun _ m =>
        runProgram limit n after m := by
  induction before generalizing m with
  | nil => rfl
  | cons s before ih =>
      rw [List.cons_append, runProgram, runProgram]
      cases execStmt limit n s m with
      | spent => rfl
      | ended r m₁ =>
          cases r with
          | error e => rfl
          | ok v => exact ih m₁

/-- A program that ends with an error has reached a part that fails so by
itself. -/
theorem Program.exists_fails {limit : Option Nat} {n : Nat} {p : Program}
    {m m' : Machine} {e : RuntimeError}
    (h : runProgram limit n p m = .ended (.error e) m') :
    ∃ (stack : List Setting) (y : Yield) (t : Task y) (m₁ : Machine),
      p.Reaches limit m stack t m₁ ∧ t.Fails e := by
  induction p generalizing m with
  | nil => cases h
  | cons s rest ih =>
      rw [runProgram] at h
      rcases Outcome.andThen_eq_ended_iff.1 h with ⟨v, m₁, hv, hrest⟩ |
        ⟨e', he', heq⟩
      · obtain ⟨stack, y, t, m₂,
            ⟨before, s', after, k, m₃, rfl, hbefore, hreaches⟩, hfails⟩ :=
          ih hrest
        -- one budget for the first statement and for those between it and `s'`
        have hmono : ∀ {r m'}, (Task.stmt s).run limit n m = .ended r m' →
            (Task.stmt s).run limit (max n k) m = .ended r m' :=
          Task.run_mono (Nat.le_max_left n k)
        have hv' : execStmt limit (max n k) s m = .ended (.ok v) m₁ := hmono hv
        have hbefore' : runProgram limit (max n k) (s :: before) m =
            .ended (.ok ()) m₃ := by
          rw [runProgram, hv']
          exact runProgram_mono (Nat.le_max_right n k) hbefore
        exact ⟨stack, y, t, m₂,
          ⟨s :: before, s', after, _, m₃, rfl, hbefore', hreaches⟩, hfails⟩
      · cases heq
        have hrun : (Task.stmt s).run limit n m = .ended (.error e) m' := he'
        obtain ⟨stack, y, t, m₁, hreaches, hfails⟩ := Task.exists_fails hrun
        exact ⟨stack, y, t, m₁, ⟨[], s, rest, n, m, rfl, rfl, hreaches⟩, hfails⟩

theorem Program.Reaches.trans {limit : Option Nat} {p : Program}
    {m m₁ m₂ : Machine} {outer inner : List Setting} {y y' : Yield} {t : Task y}
    {t' : Task y'} (h₁ : p.Reaches limit m outer t m₁)
    (h₂ : t.Reaches limit m₁ inner t' m₂) :
    p.Reaches limit m (inner ++ outer) t' m₂ := by
  obtain ⟨before, s, after, n, m₀, rfl, hbefore, hreaches⟩ := h₁
  exact ⟨before, s, after, n, m₀, rfl, hbefore, hreaches.trans h₂⟩

namespace Hereditary

variable {C : ∀ y : Yield, Task y → Prop} (hC : Hereditary C)
  {limit : Option Nat} {p : Program} {m : Machine}

include hC

theorem run {y : Yield} {task : Task y} (htask : C y task)
    (hm : m.memory.Knows C) (n : Nat) :
    (task.run limit n m).Ends fun _ m' => m'.memory.Knows C := by
  have hpre : (hC.invariant limit).pre [] y task m := ⟨htask, hm⟩
  exact (hC.invariant limit).ends n hpre

theorem runProgram (hp : ∀ s ∈ p, C _ (.stmt s))
    (hm : m.memory.Knows C) (n : Nat) :
    (runProgram limit n p m).Ends fun _ m' => m'.memory.Knows C := by
  induction p generalizing m with
  | nil => exact Outcome.ends_ended hm
  | cons s rest ih =>
      obtain ⟨hs, hrest⟩ := List.forall_mem_cons.1 hp
      exact (hC.run hs hm n).andThen (fun _ _ h => h) fun _ m₁ h₁ => ih hrest h₁

/-- Whatever a program reaches has the property of code that its statements
have. -/
theorem reaches (hp : ∀ s ∈ p, C _ (.stmt s)) (hm : m.memory.Knows C)
    {stack : List Setting} {y : Yield} {t : Task y} {m' : Machine}
    (h : p.Reaches limit m stack t m') : C y t := by
  obtain ⟨before, s, after, n, m₁, rfl, hbefore, hreaches⟩ := h
  have hm₁ :=
    hC.runProgram (fun s hs => hp s (List.mem_append_left _ hs)) hm
      n _ _ hbefore
  have hs : C _ (.stmt s) := hp s (by simp)
  exact ((hC.invariant limit).reaches ⟨hs, hm₁⟩ hreaches).1

end Hereditary

end Quill
