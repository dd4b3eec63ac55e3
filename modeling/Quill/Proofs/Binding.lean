import Quill.Proofs.Plan

/-!
# Names are bound as they were looked up

A declaration looks for its name in all scopes, then evaluates its initial value
and only then binds the name. An assignment does the same the other way round.
In between any code may run: it may open scopes, bind the same name there and
assign to it. And what both do at their end is one operation, which replaces a
binding if it finds one and adds one if not, so that nothing but the look-up
before keeps a declaration from overwriting and an assignment from declaring.

The look-up is still right at the end because an expression keeps the frame: the
same scopes are open and bind the same names, though not to the same values.
-/

namespace Quill

/-! ## Where a name is bound -/

namespace Memory

/-- How many scopes stand inside the innermost one that binds the variable. -/
def binder? (mem : Memory) (x : String) : Option Nat :=
  mem.scopes.findIdx? (·.vars.contains x)

/-- The second memory is the first with one binding more, in its innermost
scope. -/
inductive Adds (x : String) (v : Literal) : Memory → Memory → Prop
  | intro (vars : Bindings Literal) (funs : Bindings FunDecl)
      (rest : List Scope) :
      Adds x v ⟨⟨vars, funs⟩ :: rest⟩ ⟨⟨vars ++ [(x, v)], funs⟩ :: rest⟩

/-- The second memory is the first with another value in one binding, that of
`x` in the scope which `k` others stand inside of. -/
inductive Replaces (k : Nat) (x : String) (v : Literal) : Memory → Memory → Prop
  | intro {inner : List Scope} {before : Bindings Literal} (old : Literal)
      (after : Bindings Literal) (funs : Bindings FunDecl)
      (outer : List Scope) : inner.length = k → x ∉ before.names →
      Replaces k x v ⟨inner ++ ⟨before ++ (x, old) :: after, funs⟩ :: outer⟩
        ⟨inner ++ ⟨before ++ (x, v) :: after, funs⟩ :: outer⟩

end Memory

namespace Bindings

variable {α : Type} {b : Bindings α} {x : String}

/-- The binding of a name cuts the bindings in two. -/
theorem exists_split (h : b.contains x = true) :
    ∃ before v after, b = before ++ (x, v) :: after ∧ x ∉ names before := by
  induction b with
  | nil => cases h
  | cons p b ih =>
      obtain ⟨y, w⟩ := p
      by_cases hy : y = x
      · subst hy
        exact ⟨[], w, b, rfl, List.not_mem_nil⟩
      · have hb : contains b x = true := by simpa [contains, get?, hy] using h
        obtain ⟨before, v, after, rfl, hbefore⟩ := ih hb
        refine ⟨(y, w) :: before, v, after, rfl, ?_⟩
        rw [names, List.map_cons, List.mem_cons, not_or]
        exact ⟨Ne.symm hy, hbefore⟩

theorem set_split {before : Bindings α} (hbefore : x ∉ before.names) (v old : α)
    (after : Bindings α) :
    set (before ++ (x, old) :: after) x v = before ++ (x, v) :: after := by
  induction before with
  | nil => exact if_pos rfl
  | cons p before ih =>
      rw [names, List.map_cons, List.mem_cons, not_or] at hbefore
      rw [List.cons_append, set, if_neg (Ne.symm hbefore.1), ih hbefore.2,
        List.cons_append]

end Bindings

namespace Memory

variable {mem mem' : Memory} {x : String} {v : Literal} {k : Nat}

theorem hasVariable_eq_false_iff :
    mem.hasVariable x = false ↔ ∀ s ∈ mem.scopes, x ∉ s.vars.names := by
  rw [Bool.eq_false_iff, Ne, hasVariable_iff]
  simp only [Bindings.contains_iff_mem_names, not_exists, not_and]

theorem exists_binder? :
    mem.hasVariable x = true ↔ ∃ k, mem.binder? x = some k := by
  rw [← Option.isSome_iff_exists, binder?, List.findIdx?_isSome,
    List.any_eq_true, hasVariable_iff]

/-- The innermost scope that binds a name cuts the stack in two. -/
theorem exists_split (h : mem.binder? x = some k) :
    ∃ inner s outer, mem.scopes = inner ++ s :: outer ∧ inner.length = k ∧
      (∀ t ∈ inner, t.vars.contains x = false) ∧ s.vars.contains x = true := by
  obtain ⟨hk, hs, hinner⟩ := List.findIdx?_eq_some_iff_getElem.1 h
  refine ⟨mem.scopes.take k, mem.scopes[k], mem.scopes.drop (k + 1), ?_, ?_, ?_,
    hs⟩
  · rw [List.getElem_cons_drop, List.take_append_drop]
  · exact List.length_take_of_le (Nat.le_of_lt hk)
  · intro t ht
    obtain ⟨j, hj, rfl⟩ := List.mem_take_iff_getElem.1 ht
    exact Bool.eq_false_iff.2 (hinner j (by omega))

theorem replace_split {inner : List Scope}
    (hinner : ∀ t ∈ inner, t.vars.contains x = false) {s : Scope}
    (hs : s.vars.contains x = true) (v : Literal) (outer : List Scope) :
    replace x v (inner ++ s :: outer) =
      inner ++ { s with vars := s.vars.set x v } :: outer := by
  induction inner with
  | nil => exact if_pos hs
  | cons t inner ih =>
      obtain ⟨ht, hrest⟩ := List.forall_mem_cons.1 hinner
      rw [List.cons_append, replace, if_neg (Bool.eq_false_iff.1 ht), ih hrest,
        List.cons_append]

/-- Setting a variable that is bound nowhere adds a binding. -/
theorem adds_iff (hmem : 0 < mem.depth) (hx : mem.hasVariable x = false) :
    mem.Adds x v mem' ↔ mem' = mem.assign x v := by
  have hassign : mem.assign x v = mem.bind x v :=
    if_neg (Bool.eq_false_iff.1 hx)
  obtain ⟨scopes⟩ := mem
  cases scopes with
  | nil => exact absurd hmem (Nat.lt_irrefl 0)
  | cons s rest =>
      have hs : s.vars.contains x = false := by
        have hnames := hasVariable_eq_false_iff.1 hx s List.mem_cons_self
        rwa [← Bindings.contains_iff_mem_names, Bool.not_eq_true] at hnames
      have hbind : Memory.bind ⟨s :: rest⟩ x v =
          ⟨⟨s.vars ++ [(x, v)], s.funs⟩ :: rest⟩ := by
        simp only [Memory.bind, inInnermost, Bindings.set_of_not_contains hs]
      rw [hassign, hbind]
      constructor
      · intro h
        cases h
        rfl
      · rintro rfl
        exact .intro s.vars s.funs rest

/-- Setting a variable that is bound replaces its innermost binding. -/
theorem replaces_iff (hx : mem.binder? x = some k) :
    mem.Replaces k x v mem' ↔ mem' = mem.assign x v := by
  have hassign : mem.assign x v = ⟨replace x v mem.scopes⟩ :=
    if_pos (exists_binder?.2 ⟨k, hx⟩)
  obtain ⟨inner, ⟨vars, funs⟩, outer, hscopes, hlength, hinner, hs⟩ :=
    exists_split hx
  rw [hassign, hscopes, replace_split hinner hs]
  constructor
  · rintro ⟨old, after, funs', outer', hlength', hbefore⟩
    obtain ⟨rfl, htail⟩ := List.append_inj hscopes (hlength'.trans hlength.symm)
    cases htail
    rw [Bindings.set_split hbefore]
  · rintro rfl
    obtain ⟨before, old, after, rfl, hbefore⟩ := Bindings.exists_split hs
    obtain ⟨scopes⟩ := mem
    dsimp only at hscopes
    rw [hscopes, Bindings.set_split hbefore]
    exact .intro old after funs outer hlength hbefore

end Memory

/-- Machines with one frame bind a variable in the same scope. -/
theorem Machine.binder?_eq_of_frame {m m' : Machine} (h : m'.frame = m.frame)
    (x : String) : m'.memory.binder? x = m.memory.binder? x := by
  have hframe : ∀ m : Machine, m.memory.binder? x =
      m.frame.scopes.findIdx? fun s => decide (x ∈ s.vars) := by
    intro m
    rw [Memory.binder?, frame, List.findIdx?_map]
    congr 1
    funext s
    rw [Bool.eq_iff_iff, Bindings.contains_iff_mem_names]
    exact decide_eq_true_iff.symm
  rw [hframe, hframe, h]

/-! ## The two statements -/

namespace Task

variable {limit : Option Nat} {m m' : Machine} {v : Option Literal}

theorem frame_of_runs_expr {e : Expr} {r : Except RuntimeError Literal}
    (h : (Task.expr e).Runs limit m r m') : m'.frame = m.frame := by
  obtain ⟨n, hn⟩ := h
  exact (balanced limit n).expr e rfl r m' hn

theorem runs_declare_iff {ty : TypeName} {x : Ident} {init : Expr} :
    (Task.stmt (.declare ty x init)).Runs limit m (.ok v) m' ↔
      v = none ∧ m.memory.hasVariable x.text = false ∧ ∃ w m₁,
        (Task.expr init).Runs limit m (.ok w) m₁ ∧ w.kind = ty.type.kind ∧
          m' = m₁.assign x.text w := by
  rw [runs_iff_plan, plan, planStmt]
  split
  · next hx =>
      rw [Plan.runs_done_iff, hx]
      constructor
      · rintro ⟨he, -⟩
        cases he
      · rintro ⟨-, hfree, -⟩
        cases hfree
  · next hx =>
      rw [Plan.runs_ask_ok_iff]
      constructor
      · rintro ⟨w, m₁, hw, hend⟩
        split at hend
        · next hkind =>
            obtain ⟨hv, rfl⟩ := Plan.runs_done_iff.1 hend
            cases hv
            exact ⟨rfl, Bool.eq_false_iff.2 hx, w, m₁, hw, hkind, rfl⟩
        · cases (Plan.runs_done_iff.1 hend).1
      · rintro ⟨rfl, -, w, m₁, hw, hkind, rfl⟩
        refine ⟨w, m₁, hw, ?_⟩
        rw [if_pos hkind]
        exact Plan.runs_done_iff.2 ⟨rfl, rfl⟩

theorem runs_assign_iff {x : Ident} {value : Expr} :
    (Task.stmt (.assign x value)).Runs limit m (.ok v) m' ↔
      v = none ∧ m.memory.hasVariable x.text = true ∧ ∃ w m₁,
        (Task.expr value).Runs limit m (.ok w) m₁ ∧
          m' = m₁.assign x.text w := by
  rw [runs_iff_plan, plan, planStmt]
  split
  · next hx =>
      rw [Plan.runs_ask_ok_iff]
      constructor
      · rintro ⟨w, m₁, hw, hend⟩
        obtain ⟨hv, rfl⟩ := Plan.runs_done_iff.1 hend
        cases hv
        exact ⟨rfl, hx, w, m₁, hw, rfl⟩
      · rintro ⟨rfl, -, w, m₁, hw, rfl⟩
        exact ⟨w, m₁, hw, Plan.runs_done_iff.2 ⟨rfl, rfl⟩⟩
  · next hx =>
      rw [Plan.runs_done_iff]
      constructor
      · rintro ⟨he, -⟩
        cases he
      · rintro ⟨-, hbound, -⟩
        exact absurd hbound hx

/-- When a declaration binds its name, the name is as free as it was looked
up. -/
theorem runs_declare_iff_adds (limit : Option Nat) (hm : 0 < m.memory.depth)
    (ty : TypeName) (x : Ident) (init : Expr) (v : Option Literal)
    (m' : Machine) : (Task.stmt (.declare ty x init)).Runs limit m (.ok v) m' ↔
      v = none ∧ (∀ s ∈ m.memory.scopes, x.text ∉ s.vars.names) ∧
      ∃ w m₁, (Task.expr init).Runs limit m (.ok w) m₁ ∧
        (∀ s ∈ m₁.memory.scopes, x.text ∉ s.vars.names) ∧
          w.kind = ty.type.kind ∧
        ∃ mem, m₁.memory.Adds x.text w mem ∧
          m' = { m₁ with memory := mem } := by
  rw [runs_declare_iff, Memory.hasVariable_eq_false_iff]
  refine and_congr_right fun _ => and_congr_right fun hx => ?_
  refine exists_congr fun w => exists_congr fun m₁ => and_congr_right
    fun hw => ?_
  have hframe : m₁.frame = m.frame := frame_of_runs_expr hw
  have hx₁ : m₁.memory.hasVariable x.text = false := by
    rw [Machine.hasVariable_eq_of_frame hframe]
    exact Memory.hasVariable_eq_false_iff.2 hx
  have hm₁ : 0 < m₁.memory.depth := by
    rw [Machine.depth_eq_of_frame hframe]
    exact hm
  simp only [Memory.adds_iff hm₁ hx₁, exists_eq_left,
    ← Memory.hasVariable_eq_false_iff, hx₁, true_and]
  rfl

/-- When an assignment sets its variable, the innermost scope that binds it is
the one that was looked up. -/
theorem runs_assign_iff_replaces (limit : Option Nat) (m : Machine) (x : Ident)
    (value : Expr) (v : Option Literal) (m' : Machine) :
    (Task.stmt (.assign x value)).Runs limit m (.ok v) m' ↔
      v = none ∧
      ∃ k w m₁, m.memory.binder? x.text = some k ∧
        (Task.expr value).Runs limit m (.ok w) m₁ ∧
        m₁.memory.binder? x.text = some k ∧
        ∃ mem, m₁.memory.Replaces k x.text w mem ∧
          m' = { m₁ with memory := mem } := by
  rw [runs_assign_iff, Memory.exists_binder?]
  refine and_congr_right fun _ => ?_
  constructor
  · rintro ⟨⟨k, hk⟩, w, m₁, hw, rfl⟩
    have hk₁ : m₁.memory.binder? x.text = some k := by
      rw [Machine.binder?_eq_of_frame (frame_of_runs_expr hw), hk]
    exact ⟨k, w, m₁, hk, hw, hk₁, _, (Memory.replaces_iff hk₁).2 rfl, rfl⟩
  · rintro ⟨k, w, m₁, hk, hw, hk₁, mem, hmem, rfl⟩
    rw [(Memory.replaces_iff hk₁).1 hmem]
    exact ⟨⟨k, hk⟩, w, m₁, hw, rfl⟩

end Task

/-- A declaration succeeds just if no scope binds its name and its initial value
is of the declared kind. No scope binds the name then when the value has been
evaluated either, and what is left is the machine at that point with the name
added to its innermost scope. An assignment succeeds just if some scope binds
its name and its value can be evaluated. The innermost scope that binds it is
then the same when that is done, and what is left is the machine at that point
with the value replaced in this one binding. Evaluating an expression leaves as
many scopes open as it found, and an assignment adds no name, however it
ends. -/
theorem bound_as_looked_up (limit : Option Nat) {m : Machine}
    (hm : 0 < m.memory.depth) : (∀ ty x init v m',
      (∃ n, execStmt limit n (.declare ty x init) m = .ended (.ok v) m') ↔
        v = none ∧ (∀ s ∈ m.memory.scopes, x.text ∉ s.vars.names) ∧
        ∃ w m₁, (∃ n, evalExpr limit n init m = .ended (.ok w) m₁) ∧
          (∀ s ∈ m₁.memory.scopes, x.text ∉ s.vars.names) ∧
            w.kind = ty.type.kind ∧
          ∃ mem, m₁.memory.Adds x.text w mem ∧ m' = { m₁ with memory := mem }) ∧
    (∀ x value v m',
      (∃ n, execStmt limit n (.assign x value) m = .ended (.ok v) m') ↔
        v = none ∧
        ∃ k w m₁, m.memory.binder? x.text = some k ∧
          (∃ n, evalExpr limit n value m = .ended (.ok w) m₁) ∧
          m₁.memory.binder? x.text = some k ∧
          ∃ mem, m₁.memory.Replaces k x.text w mem ∧
            m' = { m₁ with memory := mem }) ∧
    (∀ e n r m₁, evalExpr limit n e m = .ended r m₁ →
      m₁.memory.depth = m.memory.depth) ∧
    (∀ x value n r m', execStmt limit n (.assign x value) m = .ended r m' →
      m'.frame = m.frame) := by
  refine ⟨fun ty x init v m' => ?_, fun x value v m' => ?_,
    fun e n r m₁ he => ?_, fun x value n r m' hs => ?_⟩
  · exact Task.runs_declare_iff_adds limit hm ty x init v m'
  · exact Task.runs_assign_iff_replaces limit m x value v m'
  · exact Machine.depth_eq_of_frame ((balanced limit n).expr e rfl r m₁ he)
  · exact (balanced limit n).stmt (.assign x value) hm r m' hs

/-- A function that overwrites its parameter and has what it wrote as its
value. -/
def overwriter : FunDecl :=
  ⟨⟨"f", 1⟩, [⟨⟨.int, "int", 1⟩, ⟨"x", 1⟩⟩],
    [.assign ⟨"x", 2⟩ (.literal ⟨.int, "2", 2⟩), .ret 3 (some (.var ⟨"x", 3⟩))]⟩

/-- A variable with the name of that parameter, declared with a call as its
initial value and then assigned another: between look-up and binding the calls
bind the name and write to it. -/
theorem bound_as_looked_up_overwriter :
    ∃ m m',
      execStmt none 9
        (.declare ⟨.int, "int", 5⟩ ⟨"x", 5⟩
          (.call ⟨"f", 5⟩ [.literal ⟨.int, "1", 5⟩]))
        (Machine.fresh.declare overwriter) = .ended (.ok none) m ∧
      (∃ (w : Literal) (m₁ : Machine) (mem : Memory),
        (∀ s ∈ m₁.memory.scopes, "x" ∉ s.vars.names) ∧
          m₁.memory.Adds "x" w mem ∧
        m = { m₁ with memory := mem }) ∧
      execStmt none 9 (.assign ⟨"x", 6⟩ (.call ⟨"f", 6⟩ [.var ⟨"x", 6⟩])) m =
        .ended (.ok none) m' ∧
      ∃ (k : Nat) (w : Literal) (m₁ : Machine) (mem : Memory),
        m.memory.binder? "x" = some k ∧ m₁.memory.binder? "x" = some k ∧
        m₁.memory.Replaces k "x" w mem ∧ m' = { m₁ with memory := mem } := by
  obtain ⟨m, m', hdepth, hdeclare, hassign⟩ : ∃ m m', 0 < m.memory.depth ∧
      execStmt none 9
        (.declare ⟨.int, "int", 5⟩ ⟨"x", 5⟩
          (.call ⟨"f", 5⟩ [.literal ⟨.int, "1", 5⟩]))
        (Machine.fresh.declare overwriter) = .ended (.ok none) m ∧
      execStmt none 9 (.assign ⟨"x", 6⟩ (.call ⟨"f", 6⟩ [.var ⟨"x", 6⟩])) m =
        .ended (.ok none) m' := ⟨_, _, Nat.one_pos, rfl, rfl⟩
  obtain ⟨-, -, w, m₁, -, hfree, -, mem, hadds, rfl⟩ :=
    ((bound_as_looked_up none (m := Machine.fresh.declare overwriter)
      Nat.one_pos).1 _ _ _ _ _).1 ⟨9, hdeclare⟩
  obtain ⟨-, k, w', m₂, hk, -, hk₂, mem', hreplaces, rfl⟩ :=
    ((bound_as_looked_up none hdepth).2.1 _ _ _ _).1 ⟨9, hassign⟩
  exact ⟨_, _, hdeclare, ⟨w, m₁, mem, hfree, hadds, rfl⟩, hassign, k, w', m₂,
    mem', hk, hk₂, hreplaces, rfl⟩

end Quill
