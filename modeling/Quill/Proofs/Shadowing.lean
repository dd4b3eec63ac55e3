import Quill.Proofs.Code
import Quill.Proofs.Session

/-!
# Only parameters shadow

A declaration looks for its name in every open scope first, so it never binds a
name that is bound already. The parameters of a call are bound without looking,
on top of all the scopes of the caller. So these are the only names that can
hide others, and functions are never hidden at all.

The scopes of a machine do not say what has opened them. But a moment of a run
comes with how the parts around it were entered, and that is the same list of
scopes seen from the program: `openers` reads it off. `Layered` compares the two
lists scope by scope. Setting a variable keeps it without any condition, for it
binds a name only where no scope has it. Declaring a function keeps it because
the look-up and the declaration have nothing between them.
-/

namespace Quill

/-! ## Scopes and what has opened them -/

/-- For each scope of a moment, the innermost first, the function whose body it
is the scope of. The scopes of blocks and the global one belong to none. -/
def openers : List Setting → List (Option FunDecl)
  | [] => [none]
  | .same :: stack => openers stack
  | .block :: stack => none :: openers stack
  | .body f _ :: stack => some f :: openers stack

theorem length_openers_pos (stack : List Setting) :
    0 < (openers stack).length := by
  induction stack with
  | nil => exact Nat.one_pos
  | cons setting stack ih => cases setting <;> simp [openers, ih]

theorem exists_body_of_mem_openers {f : FunDecl} {stack : List Setting}
    (h : some f ∈ openers stack) : ∃ args, Setting.body f args ∈ stack := by
  induction stack with
  | nil => simp [openers] at h
  | cons setting stack ih =>
      have hlater : some f ∈ openers stack → ∃ args,
          Setting.body f args ∈ setting :: stack := by
        intro hf
        obtain ⟨args, hargs⟩ := ih hf
        exact ⟨args, List.mem_cons_of_mem _ hargs⟩
      cases setting with
      | same => exact hlater h
      | block => exact hlater (by simpa [openers] using h)
      | body g args =>
          rcases List.mem_cons.1 h with hfg | hf
          · cases hfg
            exact ⟨args, List.mem_cons_self⟩
          · exact hlater hf

/-- The parameters of a function, by name. -/
def FunDecl.paramNames (f : FunDecl) : List String :=
  f.params.map (·.name.text)

/-- The scope `inner` hides no name of `outer`, a scope around it, but for
parameters of the function that has opened it. -/
structure Scope.Frame.Apart (opener : Option FunDecl)
    (inner outer : Scope.Frame) : Prop where
  vars : ∀ x ∈ inner.vars, x ∈ outer.vars → ∃ f ∈ opener, x ∈ f.paramNames
  funs : ∀ f ∈ inner.funs.names, f ∉ outer.funs.names

/-- Every scope is apart from all those around it and has no function with the
name of a built-in. -/
inductive Layered : List (Option FunDecl) → List Scope.Frame → Prop
  | nil : Layered [] []
  | cons {opener : Option FunDecl} {s : Scope.Frame}
      {openers : List (Option FunDecl)} {scopes : List Scope.Frame} :
      (∀ outer ∈ scopes, s.Apart opener outer) →
      (∀ f ∈ s.funs.names, Builtin.ofName? f = none) →
      Layered openers scopes → Layered (opener :: openers) (s :: scopes)

namespace Layered

variable {os : List (Option FunDecl)} {scopes : List Scope.Frame} {fr : Frame}

theorem length_eq (h : Layered os scopes) : scopes.length = os.length := by
  induction h with
  | nil => rfl
  | cons _ _ _ ih => rw [List.length_cons, List.length_cons, ih]

theorem ofName?_eq_none (h : Layered os scopes) :
    ∀ s ∈ scopes, ∀ f ∈ s.funs.names, Builtin.ofName? f = none := by
  induction h with
  | nil => exact nofun
  | cons _ hbuiltin _ ih => exact List.forall_mem_cons.2 ⟨hbuiltin, ih⟩

/-- Two scopes at different places: the one further in is apart from the
other. -/
theorem apart (h : Layered os scopes) {i j : Nat} (hij : i < j)
    {inner outer : Scope.Frame} (hi : scopes[i]? = some inner)
    (hj : scopes[j]? = some outer) :
    ∃ opener, os[i]? = some opener ∧ inner.Apart opener outer := by
  induction h generalizing i j with
  | nil => simp at hi
  | @cons opener s os scopes hapart _ _ ih =>
      obtain ⟨j, rfl⟩ : ∃ k, j = k + 1 := ⟨j - 1, by omega⟩
      rw [List.getElem?_cons_succ] at hj
      cases i with
      | zero =>
          rw [List.getElem?_cons_zero, Option.some.injEq] at hi
          subst hi
          exact ⟨opener, rfl, hapart outer (List.mem_of_getElem? hj)⟩
      | succ i =>
          rw [List.getElem?_cons_succ] at hi
          exact ih (by omega) hi hj

/-- A variable that is bound nowhere may be declared. -/
theorem addVar (h : Layered os fr.scopes) {x : String}
    (hx : ∀ s ∈ fr.scopes, x ∉ s.vars) : Layered os (fr.addVar x).scopes := by
  obtain ⟨scopes, calls⟩ := fr
  cases h with
  | nil => exact .nil
  | @cons opener s os scopes hapart hbuiltin hrest =>
      refine .cons
        (fun outer houter => ⟨fun y hy hyo => ?_, (hapart outer houter).funs⟩)
          hbuiltin hrest
      rcases List.mem_append.1 hy with hys | hyx
      · exact (hapart outer houter).vars y hys hyo
      · rw [List.mem_singleton.1 hyx] at hyo
        exact absurd hyo (hx outer (List.mem_cons_of_mem _ houter))

/-- A function that is bound nowhere, and is no built-in, may be declared. -/
theorem addFun (h : Layered os fr.scopes) {f : FunDecl}
    (hf : ∀ s ∈ fr.scopes, f.name.text ∉ s.funs.names)
    (hbuiltin : Builtin.ofName? f.name.text = none) :
    Layered os (fr.addFun f).scopes := by
  obtain ⟨scopes, calls⟩ := fr
  cases h with
  | nil => exact .nil
  | @cons opener s os scopes hapart hnone hrest =>
      have hnames : (s.funs ++ [(f.name.text, f)] : Bindings FunDecl).names =
          s.funs.names ++ [f.name.text] := List.map_append
      refine .cons
        (fun outer houter => ⟨(hapart outer houter).vars, fun g hg => ?_⟩)
        (fun g hg => ?_) hrest
      · rw [hnames, List.mem_append, List.mem_singleton] at hg
        rcases hg with hgs | rfl
        · exact (hapart outer houter).funs g hgs
        · exact hf outer (List.mem_cons_of_mem _ houter)
      · rw [hnames, List.mem_append, List.mem_singleton] at hg
        rcases hg with hgs | rfl
        · exact hnone g hgs
        · exact hbuiltin

/-- A new scope may bind the parameters of the function that opens it. -/
theorem enter (h : Layered os scopes) {opener : Option FunDecl}
    {vars : List String} (hvars : ∀ x ∈ vars, ∃ f ∈ opener, x ∈ f.paramNames) :
    Layered (opener :: os) (⟨vars, []⟩ :: scopes) :=
  .cons (fun _ _ => ⟨fun x hx _ => hvars x hx, nofun⟩) nofun h

theorem tail {opener : Option FunDecl} (h : Layered (opener :: os) scopes) :
    Layered os scopes.tail := by
  cases h with
  | cons _ _ hrest => exact hrest

end Layered

/-! ## Machines -/

/-- At this moment no name is hidden by another but for parameters. -/
def Machine.Unshadowed (stack : List Setting) (m : Machine) : Prop :=
  Layered (openers stack) m.frame.scopes

theorem Machine.hasFunction_iff_frame {m : Machine} {f : String} :
    m.memory.hasFunction f = true ↔ ∃ s ∈ m.frame.scopes, f ∈ s.funs.names := by
  rw [Memory.hasFunction_iff]
  constructor
  · rintro ⟨s, hs, hf⟩
    exact ⟨s.frame, List.mem_map_of_mem hs,
      Bindings.contains_iff_mem_names.1 hf⟩
  · rintro ⟨_, hframe, hf⟩
    obtain ⟨s, hs, rfl⟩ := List.mem_map.1 hframe
    exact ⟨s, hs, Bindings.contains_iff_mem_names.2 hf⟩

/-- The scope that is opened with bindings has their names and no functions. -/
theorem Machine.frame_enter (m : Machine) (bindings : Bindings Literal) :
    ∃ vars, (m.enter bindings).frame.scopes = ⟨vars, []⟩ :: m.frame.scopes ∧
      ∀ x ∈ vars, x ∈ bindings.names := by
  have hscopes : ∃ s : Scope, (m.enter bindings).memory.scopes =
      s :: m.memory.scopes ∧
      s.funs = [] ∧ ∀ x ∈ s.vars.names, x ∈ bindings.names := by
    refine List.foldlRecOn (motive := fun mem : Memory => ∃ s : Scope,
      mem.scopes = s :: m.memory.scopes ∧ s.funs = [] ∧ ∀ x ∈ s.vars.names,
      x ∈ bindings.names) bindings _ ⟨.empty, rfl, rfl, nofun⟩ ?_
    rintro mem ⟨s, hs, hfuns, hvars⟩ ⟨x, v⟩ hx
    refine ⟨{ s with vars := s.vars.set x v }, ?_, hfuns, fun y hy => ?_⟩
    · simp [Memory.bind, Memory.inInnermost, hs]
    · rw [Bindings.names_set] at hy
      split at hy
      · exact hvars y hy
      · rcases List.mem_append.1 hy with hy | hy
        · exact hvars y hy
        · rw [List.mem_singleton.1 hy]
          exact List.mem_map_of_mem hx
  obtain ⟨s, hs, hfuns, hvars⟩ := hscopes
  refine ⟨s.vars.names, ?_, hvars⟩
  simp only [frame, hs, List.map_cons, Scope.frame, hfuns]

namespace Machine.Unshadowed

variable {stack : List Setting} {m : Machine}

theorem fresh : Machine.fresh.Unshadowed [] :=
  .cons nofun nofun .nil

theorem depth_pos (h : m.Unshadowed stack) : 0 < m.memory.depth := by
  rw [← m.length_frame_scopes, h.length_eq]
  exact length_openers_pos stack

/-- A variable is set where it is bound, or it is bound nowhere. -/
theorem assign (h : m.Unshadowed stack) (x : String) (v : Literal) :
    (m.assign x v).Unshadowed stack := by
  cases hx : m.memory.hasVariable x with
  | true =>
      rw [Unshadowed, Machine.frame_assign_of_hasVariable hx]
      exact h
  | false =>
      rw [Unshadowed, Machine.frame_assign_of_not_hasVariable hx h.depth_pos]
      refine h.addVar fun s hs hxs => ?_
      exact Bool.eq_false_iff.1 hx
        (Machine.hasVariable_iff_frame.2 ⟨s, hs, hxs⟩)

theorem declare (h : m.Unshadowed stack) {f : FunDecl}
    (hf : m.memory.hasFunction f.name.text = false)
    (hbuiltin : Builtin.ofName? f.name.text = none) :
    (m.declare f).Unshadowed stack := by
  rw [Unshadowed, Machine.frame_declare hf h.depth_pos]
  refine h.addFun (fun s hs hfs => ?_) hbuiltin
  exact Bool.eq_false_iff.1 hf (Machine.hasFunction_iff_frame.2 ⟨s, hs, hfs⟩)

/-- The scope of a body may have any of its arguments, not only all of them. -/
theorem enterBody (h : m.Unshadowed stack) {f : FunDecl} {args : List Literal}
    {bindings : Bindings Literal}
    (hbindings : bindings ⊆ f.paramNames.zip args) :
    (m.beginCall.enter bindings).Unshadowed (.body f args :: stack) := by
  obtain ⟨vars, hscopes, hvars⟩ := m.beginCall.frame_enter bindings
  rw [Unshadowed, hscopes]
  refine Layered.enter h fun x hx => ⟨f, rfl, ?_⟩
  obtain ⟨⟨y, v⟩, hyv, rfl⟩ := List.mem_map.1 (hvars x hx)
  exact (List.of_mem_zip (hbindings hyv)).1

theorem enter (h : m.Unshadowed stack) (setting : Setting) :
    (setting.enter m).Unshadowed (setting :: stack) := by
  cases setting with
  | same => exact h
  | block => exact Layered.enter h nofun
  | body f args => exact h.enterBody (List.Subset.refl _)

theorem leave {setting : Setting} (h : m.Unshadowed (setting :: stack)) :
    (setting.leave m).Unshadowed stack := by
  have hleave : Layered (openers stack) m.leave.frame.scopes ↔
      Layered (openers stack) m.frame.scopes.tail := by
    rw [m.frame_leave]
    rfl
  cases setting with
  | same => exact h
  | block => exact hleave.2 h.tail
  | body f args => exact hleave.2 h.tail

end Machine.Unshadowed

/-! ## Runs -/

/-- Whatever the scopes around it, the second machine hides no name if the first
does not. -/
def Machine.StaysUnshadowed (m m' : Machine) : Prop :=
  ∀ stack, m.Unshadowed stack → m'.Unshadowed stack

/-- The declarations of functions. -/
def Task.isFunction : {y : Yield} → Task y → Bool
  | _, .stmt (.function _ _ _) => true
  | _, _ => false

theorem Task.Leaves.staysUnshadowed {y : Yield} {task : Task y}
    (htask : task.isFunction = false) {m m' : Machine} (h : task.Leaves m m') :
    m.StaysUnshadowed m' := by
  intro stack hm
  cases h with
  | same => exact hm
  | print => exact hm
  | declare ty x init m v => exact hm.assign x.text v
  | assign x value m v => exact hm.assign x.text v
  | function => cases htask

/-- What is asked for begins, and what is done ends, with no name hidden. -/
theorem Plan.Follows.meets_unshadowed {y₀ : Yield} {task : Task y₀}
    (htask : task.isFunction = false) {mem : Memory} {y : Yield} {p : Plan y}
    {m m₀ : Machine} {stack : List Setting} (hp : p.Follows task mem m₀)
    (hm : m.Unshadowed stack) (h : m.StaysUnshadowed m₀) :
    p.Meets (fun _ setting _ m' =>
      (setting.enter m').Unshadowed (setting :: stack)) (fun _ _ m _ m' =>
        m.StaysUnshadowed m') fun _ m' => m.StaysUnshadowed m' := by
  -- `m` stays where the whole plan began, `m₀` moves on to where the rest of it
  -- begins
  induction p generalizing m₀ with
  | done r m₁ =>
      exact fun stack hstack =>
        hp.1.staysUnshadowed htask stack (h stack hstack)
  | ask setting t m₁ next ih =>
      obtain ⟨rfl, -, hnext⟩ := hp
      have hinside : ∀ m', (setting.enter m₁).StaysUnshadowed m' →
          m.StaysUnshadowed (setting.leave m') :=
        fun m' hm' stack hstack =>
          (hm' _ ((h stack hstack).enter setting)).leave
      refine ⟨(h stack hm).enter setting, fun e m' hm' => hinside m' hm',
        fun v m' hm' => ?_⟩
      exact ih v _ (hnext v _) (hinside m' hm')

theorem Task.meets_unshadowed_function (f : Ident) (params : List Param)
    (body : List Stmt) (m : Machine)
    {ask : ∀ y : Yield, Setting → Task y → Machine → Prop}
    {answer : ∀ y : Yield, Task y → Machine → Except RuntimeError y.Result →
      Machine → Prop} :
    (planStmt (.function f params body) m).Meets ask answer fun _ m' =>
      m.StaysUnshadowed m' := by
  simp only [planStmt]
  split
  · exact fun stack hstack => hstack
  · next hf =>
      simp only [Bool.or_eq_true, not_or, Bool.not_eq_true,
        Option.isSome_eq_false_iff, Option.isNone_iff_eq_none] at hf
      exact fun stack hstack => hstack.declare hf.1 hf.2

/-- At every moment no name is hidden by another but for parameters. -/
def unshadowed (limit : Option Nat) : Invariant limit where
  pre stack _ _ m := m.Unshadowed stack
  post _ _ m _ m' := m.StaysUnshadowed m'
  plan_meets := by
    intro stack y task m hm
    cases htask : task.isFunction with
    | false =>
      exact (task.follows_plan limit m).meets_unshadowed htask hm fun _ h => h
    | true =>
        match task, htask with
        | .stmt (.function f params body), _ =>
          exact Task.meets_unshadowed_function f params body m

theorem Task.ends_unshadowed (limit : Option Nat) (n : Nat) {y : Yield}
    (task : Task y) {m : Machine} {stack : List Setting}
    (hm : m.Unshadowed stack) :
    (task.run limit n m).Ends fun _ m' => m'.Unshadowed stack := by
  have hpre : (unshadowed limit).pre stack y task m := hm
  exact fun r m' hr => (unshadowed limit).ends n hpre r m' hr stack hm

theorem runProgram_ends_unshadowed (limit : Option Nat) (n : Nat) (p : Program)
    {m : Machine} {stack : List Setting} (hm : m.Unshadowed stack) :
    (runProgram limit n p m).Ends fun _ m' => m'.Unshadowed stack := by
  induction p generalizing m with
  | nil => exact Outcome.ends_ended hm
  | cons s rest ih =>
      exact (Task.ends_unshadowed limit n (.stmt s) hm).andThen (fun _ _ h => h)
        fun _ m₁ h₁ => ih h₁

/-! ## Sessions -/

theorem Session.unshadowed {log : List Entry} {m : Machine}
    (h : Session log m) : m.Unshadowed [] := by
  induction h with
  | fresh => exact .fresh
  | @run log m m' limit n s r _ hs ih =>
      exact Task.ends_unshadowed limit n (.stmt s) ih r m' hs

/-- The machines that a session passes, with how the parts around each moment
were entered. Under way it is running a program, which may be a single
statement. -/
inductive Session.Passes : List Setting → Machine → Prop
  /-- Nothing is running. -/
  | idle {log : List Entry} {m : Machine} : Session log m → Passes [] m
  /-- A part of the program begins. -/
  | begins {log : List Entry} {limit : Option Nat} {p : Program}
      {m m' : Machine} {stack : List Setting} {y : Yield} {task : Task y} :
      Session log m → p.Reaches limit m stack task m' → Passes stack m'
  /-- A part of the program has ended, with a value or with an error. -/
  | ends {log : List Entry} {limit : Option Nat} {p : Program}
      {m m₁ m₂ : Machine} {stack : List Setting} {y : Yield} {task : Task y}
      {r : Except RuntimeError y.Result} :
      Session log m → p.Reaches limit m stack task m₁ →
        task.Runs limit m₁ r m₂ →
      Passes stack m₂
  /-- The scope of a body is open and has the first `k` of its arguments. -/
  | binds {log : List Entry} {limit : Option Nat} {p : Program}
      {m m₁ m₂ : Machine} {stack : List Setting} {y y' : Yield} {task : Task y}
      {task' : Task y'} {f : FunDecl} {args : List Literal} (k : Nat) :
      Session log m → p.Reaches limit m stack task m₁ →
      (task.plan limit m₁).Asks limit (.body f args) task' m₂ →
      Passes (.body f args :: stack)
        (m₂.beginCall.enter ((f.paramNames.zip args).take k))

theorem Session.unshadowed_of_reaches {log : List Entry} {limit : Option Nat}
    {p : Program} {m m' : Machine} {stack : List Setting} {y : Yield}
    {task : Task y} (h : Session log m) (hr : p.Reaches limit m stack task m') :
    m'.Unshadowed stack := by
  obtain ⟨before, s, after, n, m₁, rfl, hbefore, hreaches⟩ := hr
  have hm₁ : m₁.Unshadowed [] :=
    runProgram_ends_unshadowed limit n before h.unshadowed _ _ hbefore
  exact (Quill.unshadowed limit).reaches hm₁ hreaches

/-- What a body is entered from hides no name: it is what is left of the scopes
inside. -/
theorem Machine.Unshadowed.of_asks_body {limit : Option Nat}
    {stack : List Setting} {m m' : Machine} {y y' : Yield} {task : Task y}
    {task' : Task y'} {f : FunDecl} {args : List Literal}
    (h : m.Unshadowed stack)
    (hasks : (task.plan limit m).Asks limit (.body f args) task' m') :
    m'.Unshadowed stack := by
  have hbody : (Setting.enter (.body f args) m').Unshadowed
      (.body f args :: stack) :=
    ((unshadowed limit).plan_meets h).asks
      (fun _ _ _ _ _ _ hask hruns => (unshadowed limit).runs hask hruns) hasks
  have hleft : Layered (openers stack)
      (m'.beginCall.enter (f.paramNames.zip args)).frame.outer.scopes :=
    hbody.tail
  rw [m'.beginCall.outer_frame_enter] at hleft
  exact hleft

theorem Session.Passes.unshadowed {stack : List Setting} {m : Machine}
    (h : Session.Passes stack m) : m.Unshadowed stack := by
  cases h with
  | idle h => exact h.unshadowed
  | begins h hreaches => exact h.unshadowed_of_reaches hreaches
  | ends h hreaches hruns =>
      have hm₁ := h.unshadowed_of_reaches hreaches
      exact (Quill.unshadowed _).runs hm₁ hruns _ hm₁
  | @binds log limit p m m₁ m₂ stack y y' task task' f args k h
      hreaches hasks =>
      have hm₂ := (h.unshadowed_of_reaches hreaches).of_asks_body hasks
      exact hm₂.enterBody (List.take_subset k _)

/-- At every moment of every session, whether its programs end, fail or run on:
the scopes of the machine are those of the parts that are running; each declared
function has its name in one scope only, and never the name of a built-in; and
where two scopes bind one variable, the inner of them is the scope of a function
body that is running, and the variable is one of its parameters. -/
theorem only_parameters_shadow {stack : List Setting} {m : Machine}
    (h : Session.Passes stack m) :
    m.memory.scopes.length = (openers stack).length ∧
    (∀ {i j : Nat} {s s' : Scope} {f : String}, m.memory.scopes[i]? = some s →
      m.memory.scopes[j]? = some s' → f ∈ s.funs.names →
        f ∈ s'.funs.names → i = j) ∧
    (∀ s ∈ m.memory.scopes, ∀ f ∈ s.funs.names, ∀ b : Builtin, f ≠ b.name) ∧
    (∀ {i j : Nat} {inner outer : Scope} {x : String}, i < j →
      m.memory.scopes[i]? = some inner → m.memory.scopes[j]? = some outer →
      x ∈ inner.vars.names → x ∈ outer.vars.names →
        ∃ f args, Setting.body f args ∈ stack ∧
          (openers stack)[i]? = some (some f) ∧ x ∈ f.paramNames) := by
  have hm : Layered (openers stack) (m.memory.scopes.map Scope.frame) :=
    h.unshadowed
  have hget : ∀ {i : Nat} {s : Scope}, m.memory.scopes[i]? = some s →
      (m.memory.scopes.map Scope.frame)[i]? = some s.frame := by
    intro i s hs
    rw [List.getElem?_map, hs]
    rfl
  have hfuns : ∀ {i j : Nat} {s s' : Scope} {f : String}, i < j →
      m.memory.scopes[i]? = some s →
      m.memory.scopes[j]? = some s' → f ∈ s.funs.names → f ∉ s'.funs.names := by
    intro i j s s' f hij hs hs' hf
    obtain ⟨_, -, hapart⟩ := hm.apart hij (hget hs) (hget hs')
    exact hapart.funs f hf
  refine ⟨?_, ?_, ?_, ?_⟩
  · rw [← hm.length_eq, List.length_map]
  · intro i j s s' f hs hs' hf hf'
    rcases Nat.lt_trichotomy i j with hij | rfl | hji
    · exact absurd hf' (hfuns hij hs hs' hf)
    · rfl
    · exact absurd hf (hfuns hji hs' hs hf')
  · rintro s hs f hf b rfl
    have hnone := hm.ofName?_eq_none s.frame (List.mem_map_of_mem hs) _ hf
    rw [Builtin.ofName?_eq_some_iff.2 rfl] at hnone
    cases hnone
  · intro i j inner outer x hij hi hj hx hx'
    obtain ⟨opener, hopener, hapart⟩ := hm.apart hij (hget hi) (hget hj)
    obtain ⟨f, hf, hparam⟩ := hapart.vars x hx hx'
    rw [Option.mem_def.1 hf] at hopener
    obtain ⟨args, hargs⟩ :=
      exists_body_of_mem_openers (List.mem_of_getElem? hopener)
    exact ⟨f, args, hargs, hopener, hparam⟩

/-- A function with a parameter that prints it. -/
def shower : FunDecl :=
  ⟨⟨"f", 2⟩, [⟨⟨.int, "int", 2⟩, ⟨"x", 2⟩⟩],
    [.call ⟨"print", 3⟩ [.var ⟨"x", 3⟩]]⟩

/-- Its parameter has the name of a global variable, so in its body two scopes
bind it. -/
theorem only_parameters_shadow_global :
    ∃ (stack : List Setting) (m : Machine) (inner outer : Scope),
      Session.Passes stack m ∧ m.memory.scopes = [inner, outer] ∧
      "x" ∈ inner.vars.names ∧ "x" ∈ outer.vars.names ∧
        outer.funs.names = ["f"] ∧
      ∃ f args, Setting.body f args ∈ stack ∧
        (openers stack)[0]? = some (some f) ∧ "x" ∈ f.paramNames := by
  let globals : Program :=
    [.declare ⟨.int, "int", 1⟩ ⟨"x", 1⟩ (.literal ⟨.int, "1", 1⟩),
      shower.declaration]
  let m := (Machine.fresh.assign "x" ⟨.int, "1", 1⟩).declare shower
  have hcall : (Task.stmt (.call ⟨"f", 5⟩ [.literal ⟨.int, "2", 5⟩])).Reaches
      none m [.same] (.call ⟨"f", 5⟩ [.literal ⟨.int, "2", 5⟩]) m :=
    .step .start .now
  have hbody : ((Task.call ⟨"f", 5⟩ [.literal ⟨.int, "2", 5⟩]).plan none m).Asks
      none (.body shower [⟨.int, "2", 5⟩]) (.statements shower.body) m :=
    .later ⟨2, rfl⟩ .now
  have hpasses : Session.Passes [.body shower [⟨.int, "2", 5⟩], .same]
      (Setting.enter (.body shower [⟨.int, "2", 5⟩]) m) :=
    .begins .fresh ⟨globals, _, [], 2, m, rfl, rfl, .step hcall hbody⟩
  exact ⟨_, _, _, _, hpasses, rfl, by decide, by decide, rfl,
    (only_parameters_shadow hpasses).2.2.2 (i := 0) (j := 1) Nat.one_pos rfl
    rfl (by decide)
      (by decide)⟩

end Quill
