import Quill.Proofs.Changes

/-!
# An empty scope is invisible

A scope without names in the stack changes no look-up, and an assignment passes
it by. Only a declaration could fill it, and declarations go to the innermost
scope. So of two runs, one of which has an empty scope more somewhere in its
stack, both spend their budget, or both end with the same result and with
machines that differ in that scope alone, unless the run declares something
while the empty scope is the innermost one.

The two runs are compared plan by plan. The scopes that are opened under way
stand in front of the empty one, so its place moves inwards with every scope
that is entered and back with every scope that is left, however that happens.

An assignment, a conditional, a loop and a call declare nothing in the scope
where they stand. Hence a block around one of them changes nothing, and an
`else if` is an `else` with a conditional in its block.
-/

namespace Quill

/-! ## Machines with one more scope -/

/-- Memory with one more scope, an empty one, behind the `k` innermost
scopes. -/
def Memory.pad (k : Nat) (mem : Memory) : Memory :=
  ⟨mem.scopes.insertIdx k .empty⟩

def Machine.pad (k : Nat) (m : Machine) : Machine :=
  { m with memory := m.memory.pad k }

namespace Memory

variable {k : Nat} {mem : Memory}

theorem findSome?_pad {α : Type} {look : Scope → Option α}
    (hlook : look .empty = none) (k : Nat) (scopes : List Scope) :
    (scopes.insertIdx k .empty).findSome? look = scopes.findSome? look := by
  induction scopes generalizing k with
  | nil => cases k <;> simp [hlook]
  | cons s rest ih => cases k <;> simp [List.findSome?_cons, hlook, ih]

@[simp] theorem value?_pad (k : Nat) (mem : Memory) (x : String) :
    (mem.pad k).value? x = mem.value? x :=
  findSome?_pad rfl k mem.scopes

@[simp] theorem function?_pad (k : Nat) (mem : Memory) (f : String) :
    (mem.pad k).function? f = mem.function? f :=
  findSome?_pad rfl k mem.scopes

@[simp] theorem hasVariable_pad (k : Nat) (mem : Memory) (x : String) :
    (mem.pad k).hasVariable x = mem.hasVariable x := by
  rw [hasVariable, value?_pad, hasVariable]

@[simp] theorem hasFunction_pad (k : Nat) (mem : Memory) (f : String) :
    (mem.pad k).hasFunction f = mem.hasFunction f := by
  rw [hasFunction, function?_pad, hasFunction]

@[simp] theorem read_pad (k : Nat) (mem : Memory) (x : Ident) :
    (mem.pad k).read x = mem.read x := by
  rw [read, value?_pad, read]

@[simp] theorem find_pad (k : Nat) (mem : Memory) (f : Ident) :
    (mem.pad k).find f = mem.find f := by
  rw [find, function?_pad, find]

theorem replace_pad (x : String) (v : Literal) (k : Nat) (scopes : List Scope) :
    replace x v (scopes.insertIdx k .empty) =
      (replace x v scopes).insertIdx k .empty := by
  induction scopes generalizing k with
  | nil => cases k <;> rfl
  | cons s rest ih =>
      cases k with
      | zero => rfl
      | succ k =>
          rw [List.insertIdx_succ_cons, replace, replace]
          split
          · rfl
          · rw [ih, List.insertIdx_succ_cons]

theorem inInnermost_pad (hk : 0 < k) (hmem : 0 < mem.depth)
    (change : Scope → Scope) :
    (mem.pad k).inInnermost change = (mem.inInnermost change).pad k := by
  obtain ⟨scopes⟩ := mem
  match k, scopes with
  | _ + 1, _ :: _ => rfl
  | _ + 1, [] => exact absurd hmem (Nat.lt_irrefl 0)

/-- An assignment passes the empty scope by, unless it is the innermost and the
variable is new. -/
theorem assign_pad {x : String}
    (h : mem.hasVariable x = true ∨ 0 < k ∧ 0 < mem.depth) (v : Literal) :
    (mem.pad k).assign x v = (mem.assign x v).pad k := by
  rw [assign, assign, hasVariable_pad]
  split
  · exact congrArg Memory.mk (replace_pad x v k mem.scopes)
  · next hx =>
      obtain ⟨hk, hmem⟩ := h.resolve_left hx
      exact inInnermost_pad hk hmem _

theorem depth_bind_pos (mem : Memory) (x : String) (v : Literal) :
    0 < (mem.bind x v).depth := by
  obtain ⟨scopes⟩ := mem
  cases scopes <;> exact Nat.succ_pos _

theorem foldl_bind_pad (bindings : Bindings Literal)
    (hmem : 0 < mem.depth) (k : Nat) :
    bindings.foldl (fun mem (x, v) => mem.bind x v) (mem.pad (k + 1)) =
      (bindings.foldl (fun mem (x, v) => mem.bind x v) mem).pad (k + 1) := by
  induction bindings generalizing mem with
  | nil => rfl
  | cons b bindings ih =>
      obtain ⟨x, v⟩ := b
      have hbind : (mem.pad (k + 1)).bind x v = (mem.bind x v).pad (k + 1) :=
        inInnermost_pad (Nat.succ_pos k) hmem _
      rw [List.foldl_cons, List.foldl_cons, ← ih (mem.depth_bind_pos x v),
        ← hbind]

end Memory

namespace Machine

variable {k : Nat} {m : Machine}

theorem assign_pad {x : String}
    (h : m.memory.hasVariable x = true ∨ 0 < k ∧ 0 < m.memory.depth)
    (v : Literal) : (m.pad k).assign x v = (m.assign x v).pad k := by
  rw [assign, pad, Memory.assign_pad h]
  rfl

theorem declare_pad (hk : 0 < k) (hm : 0 < m.memory.depth) (f : FunDecl) :
    (m.pad k).declare f = (m.declare f).pad k := by
  rw [declare, pad, Memory.declare, Memory.inInnermost_pad hk hm]
  rfl

theorem enter_pad (k : Nat) (m : Machine) (bindings : Bindings Literal) :
    (m.pad k).enter bindings = (m.enter bindings).pad (k + 1) := by
  have hdepth : 0 < m.memory.enter.depth := Nat.succ_pos _
  exact congrArg (fun mem => { m with memory := mem })
    (Memory.foldl_bind_pad bindings hdepth k)

theorem leave_pad (hm : 0 < m.memory.depth) (k : Nat) :
    (m.pad (k + 1)).leave = m.leave.pad k := by
  obtain ⟨⟨scopes⟩, calls, printed⟩ := m
  cases scopes with
  | nil => exact absurd hm (Nat.lt_irrefl 0)
  | cons s rest => rfl

end Machine

/-! ## Scopes stay open and keep their variables -/

/-- Below the innermost scope, which may get new names, the same scopes are open
with the same names. -/
def Machine.Grows (m m' : Machine) : Prop :=
  ∀ s rest, m.frame.scopes = s :: rest →
    ∃ s', m'.frame.scopes = s' :: rest ∧ s.vars ⊆ s'.vars

namespace Machine

variable {m m' : Machine}

theorem grows_of_scopes_eq (h : m'.frame.scopes = m.frame.scopes) :
    m.Grows m' := by
  intro s rest hm
  exact ⟨s, by rw [h, hm], List.Subset.refl _⟩

theorem grows_assign (m : Machine) (x : String) (v : Literal) :
    m.Grows (m.assign x v) := by
  cases hx : m.memory.hasVariable x with
  | true =>
      exact grows_of_scopes_eq
        (congrArg Frame.scopes (frame_assign_of_hasVariable hx v))
  | false =>
      intro s rest hm
      have hdepth : 0 < m.memory.depth := by
        rw [← m.length_frame_scopes, hm]
        exact Nat.succ_pos _
      refine ⟨{ s with vars := s.vars ++ [x] }, ?_, List.subset_append_left _ _⟩
      simp only [frame_assign_of_not_hasVariable hx hdepth, Frame.addVar,
        Frame.onInnermost, hm, List.modifyHead_cons]

theorem grows_declare (m : Machine) (f : FunDecl) : m.Grows (m.declare f) := by
  intro s rest hm
  obtain ⟨scope, scopes, hscopes, rfl, rfl⟩ := List.map_eq_cons_iff.1 hm
  refine ⟨Scope.frame { scope with funs := scope.funs.set f.name.text f }, ?_,
    List.Subset.refl _⟩
  simp [frame, declare, Memory.declare, Memory.inInnermost, hscopes]

theorem steady_grows : Machine.Steady Machine.Grows where
  change h := by
    cases h with
    | none => exact grows_of_scopes_eq rfl
    | print _ _ text => exact grows_of_scopes_eq rfl
    | assign _ x v => exact grows_assign _ x v
    | declare _ f => exact grows_declare _ f
  trans h₁ h₂ := by
    intro s rest hm
    obtain ⟨s₁, hm₁, hs₁⟩ := h₁ s rest hm
    obtain ⟨s₂, hm₂, hs₂⟩ := h₂ s₁ rest hm₁
    exact ⟨s₂, hm₂, fun x hx => hs₂ (hs₁ hx)⟩
  inside setting m m' h := by
    -- what was entered stands in front of the scopes of `m`, and leaving takes
    -- it away
    have hback : ∀ bindings, (m.enter bindings).Grows m' →
        m'.frame.outer.scopes = m.frame.scopes := by
      intro bindings hgrows
      obtain ⟨s, hs⟩ := m.exists_scopes_enter bindings
      obtain ⟨s', hs', -⟩ :=
        hgrows s.frame m.frame.scopes (by rw [frame, hs]; rfl)
      rw [Frame.outer, hs']
      rfl
    cases setting with
    | same => exact h
    | block =>
        apply grows_of_scopes_eq
        show m'.leave.frame.scopes = m.frame.scopes
        rw [frame_leave, hback [] h]
    | body f args =>
        apply grows_of_scopes_eq
        show m'.leave.frame.scopes = m.frame.scopes
        rw [frame_leave, hback _ h]

theorem Grows.depth_pos (h : m.Grows m') (hm : 0 < m.memory.depth) :
    0 < m'.memory.depth := by
  rw [← length_frame_scopes] at hm ⊢
  obtain ⟨s, rest, hs⟩ := List.exists_cons_of_length_pos hm
  obtain ⟨s', hs', -⟩ := h s rest hs
  rw [hs']
  exact Nat.succ_pos _

theorem Grows.hasVariable (h : m.Grows m') {x : String}
    (hx : m.memory.hasVariable x = true) : m'.memory.hasVariable x = true := by
  obtain ⟨s, hs, hvar⟩ := hasVariable_iff_frame.1 hx
  obtain ⟨first, rest, hm⟩ := List.exists_cons_of_ne_nil (List.ne_nil_of_mem hs)
  obtain ⟨first', hm', hvars⟩ := h first rest hm
  rw [hm, List.mem_cons] at hs
  rcases hs with rfl | hs
  · exact hasVariable_iff_frame.2 ⟨first', by simp [hm'], hvars hvar⟩
  · exact hasVariable_iff_frame.2 ⟨s, by simp [hm', hs], hvar⟩

end Machine

/-! ## Entering and leaving -/

/-- How many scopes are opened where a part is entered so. -/
def Setting.opens : Setting → Nat
  | .same => 0
  | .block | .body _ _ => 1

theorem Setting.enter_pad (setting : Setting) (k : Nat) (m : Machine) :
    setting.enter (m.pad k) = (setting.enter m).pad (k + setting.opens) := by
  cases setting with
  | same => rfl
  | block => exact m.enter_pad k []
  | body f args => exact m.beginCall.enter_pad k _

theorem Setting.leave_pad (setting : Setting) (k : Nat) {m m' : Machine}
    (h : (setting.enter m).Grows m') :
    setting.leave (m'.pad (k + setting.opens)) = (setting.leave m').pad k := by
  cases setting with
  | same => rfl
  | block => exact Machine.leave_pad (h.depth_pos (m.depth_enter_pos [])) k
  | body f args =>
      have hdepth : 0 < m'.memory.depth :=
        h.depth_pos (m.beginCall.depth_enter_pos _)
      exact congrArg Machine.endCall (Machine.leave_pad hdepth k)

/-! ## Plans with one more scope -/

/-- The parts that may declare a name in the scope where they begin. -/
def Task.binds : {y : Yield} → Task y → Bool
  | _, .stmt (.declare _ _ _) | _, .stmt (.function _ _ _) | _, .statements _ =>
    true
  | _, _ => false

/-- What the part declares in the scope where it begins does not go to the empty
one. -/
def Task.Fits {y : Yield} (task : Task y) (k : Nat) (m : Machine) : Prop :=
  task.binds = true → 0 < k ∧ 0 < m.memory.depth

/-- The second plan does with one more scope what the first does without, as
long as the runs that are asked for keep the scopes open. -/
inductive Plan.Pads (k : Nat) {y : Yield} : Plan y → Plan y → Prop
  | done (r : Except RuntimeError y.Result) (m : Machine) :
      Pads k (.done r m) (.done r (m.pad k))
  | ask {y' : Yield} {setting : Setting} {task : Task y'} {m : Machine}
      {next next' : y'.Result → Machine → Plan y} :
      task.Fits (k + setting.opens) (setting.enter m) →
      (∀ v m₁, m.Grows m₁ → Pads k (next v m₁) (next' v (m₁.pad k))) →
      Pads k (.ask setting task m next) (.ask setting task (m.pad k) next')

theorem Plan.Pads.exec {k : Nat} {y : Yield} {p p' : Plan y} (h : p.Pads k p')
    {a : Answers} (hpad : ∀ y (task : Task y) k m, task.Fits k m →
      a y task (m.pad k) = (a y task m).atEnd (Machine.pad k))
    (hgrows : ∀ y (task : Task y) m, (a y task m).Ends fun _ m' => m.Grows m') :
    p'.exec a = (p.exec a).atEnd (Machine.pad k) := by
  induction h with
  | done r m => rfl
  | @ask y' setting task m next next' hfits _ ih =>
      rw [Plan.exec, setting.enter_pad, hpad _ _ _ _ hfits, Plan.exec]
      cases ho : a _ task (setting.enter m) with
      | spent => rfl
      | ended r m₁ =>
          have hm₁ : (setting.enter m).Grows m₁ := hgrows _ _ _ r m₁ ho
          have hleave := setting.leave_pad k hm₁
          cases r with
          | error e => exact congrArg (Outcome.ended (.error e)) hleave
          | ok v =>
              have hnext := ih v _ (Machine.steady_grows.inside setting hm₁)
              rw [← hleave] at hnext
              exact hnext

namespace Task

variable {limit : Option Nat} {k : Nat}

theorem fits_of_not_binds {y : Yield} {task : Task y} {m : Machine}
    (h : task.binds = false) : task.Fits k m :=
  fun hbinds => absurd hbinds (by simp [h])

/-- A block has a scope of its own in front of the empty one. -/
theorem fits_block (body : List Stmt) (m : Machine)
    (bindings : Bindings Literal) :
    (Task.statements body).Fits (k + 1) (m.enter bindings) :=
  fun _ => ⟨Nat.succ_pos k, m.depth_enter_pos bindings⟩

theorem Fits.grows {y y' : Yield} {task : Task y} {task' : Task y'}
    {m m' : Machine} (h : task.Fits k m) (hbinds : task.binds = true)
    (hm' : m.Grows m') : task'.Fits k m' :=
  fun _ => ⟨(h hbinds).1, hm'.depth_pos (h hbinds).2⟩

theorem pads_ask_last {setting : Setting} {y : Yield} {task : Task y}
    {m : Machine} (h : task.Fits (k + setting.opens) (setting.enter m)) :
    (Plan.ask setting task m fun v m => .done (.ok v) m).Pads k
      (.ask setting task (m.pad k) fun v m => .done (.ok v) m) :=
  .ask h fun _ m₁ _ => .done _ m₁

theorem pads_orElse {rest : Machine → Plan .optional} {m : Machine}
    (hrest : (rest m).Pads k (rest (m.pad k))) (v : Option Literal) :
    (Plan.orElse rest v m).Pads k (Plan.orElse rest v (m.pad k)) := by
  cases v with
  | some v => exact .done _ m
  | none => exact hrest

theorem pads_builtin (b : Builtin) (f : Ident) (args : List Literal)
    (m : Machine) :
    (Plan.builtin b f args m).Pads k (Plan.builtin b f args (m.pad k)) := by
  unfold Plan.builtin
  split
  · exact .done _ m
  · exact .done _ (m.print _)
  · exact .done _ m

theorem pads_planExpr (e : Expr) (m : Machine) :
    (planExpr e m).Pads k (planExpr e (m.pad k)) := by
  cases e with
  | literal v => exact .done _ m
  | var x =>
      have hread : (m.pad k).memory.read x = m.memory.read x :=
        Memory.read_pad k m.memory x
      rw [planExpr, planExpr, hread]
      exact .done _ m
  | binary op l r =>
      refine .ask (fits_of_not_binds rfl) fun a m₁ _ => ?_
      exact .ask (fits_of_not_binds rfl) fun b m₂ _ => .done _ m₂
  | call f args =>
      refine .ask (fits_of_not_binds rfl) fun v m₁ _ => ?_
      cases v with
      | none => exact .done _ m₁
      | some v => exact .done _ m₁

theorem pads_planArgs (es : List Expr) (m : Machine) :
    (planArgs es m).Pads k (planArgs es (m.pad k)) := by
  cases es with
  | nil => exact .done _ m
  | cons e es =>
      refine .ask (fits_of_not_binds rfl) fun v m₁ _ => ?_
      exact .ask (fits_of_not_binds rfl) fun vs m₂ _ => .done _ m₂

theorem pads_planCall (f : Ident) (args : List Expr) (m : Machine) :
    (planCall limit f args m).Pads k (planCall limit f args (m.pad k)) := by
  have hfind : (m.pad k).memory.find f = m.memory.find f :=
    Memory.find_pad k m.memory f
  have hcalls : (m.pad k).calls = m.calls := rfl
  unfold planCall
  rw [hfind, hcalls]
  split
  · exact .ask (fits_of_not_binds rfl) fun vs m₁ _ => pads_builtin _ f vs m₁
  · split
    · exact .done _ m
    · split
      · exact .done _ m
      · split
        · exact .done _ m
        · refine .ask (fits_of_not_binds rfl) fun vs m₁ _ => pads_ask_last ?_
          exact fits_block _ m₁.beginCall _

/-- Declarations need a scope in front of the empty one. An assignment needs
none, for its variable is still there when its value has been evaluated. -/
theorem pads_planStmt {s : Stmt} {m : Machine} (h : (Task.stmt s).Fits k m) :
    (planStmt s m).Pads k (planStmt s (m.pad k)) := by
  have hvariable : ∀ x, (m.pad k).memory.hasVariable x =
      m.memory.hasVariable x :=
    Memory.hasVariable_pad k m.memory
  have hfunction : ∀ f, (m.pad k).memory.hasFunction f =
      m.memory.hasFunction f :=
    Memory.hasFunction_pad k m.memory
  cases s with
  | declare ty x init =>
      obtain ⟨hk, hm⟩ := h rfl
      simp only [planStmt, hvariable]
      split
      · exact .done _ m
      · refine .ask (fits_of_not_binds rfl) fun v m₁ hm₁ => ?_
        split
        · rw [Machine.assign_pad (.inr ⟨hk, hm₁.depth_pos hm⟩)]
          exact .done _ _
        · exact .done _ m₁
  | function f params body =>
      obtain ⟨hk, hm⟩ := h rfl
      simp only [planStmt, hfunction]
      split
      · exact .done _ m
      · rw [Machine.declare_pad hk hm]
        exact .done _ _
  | assign x value =>
      simp only [planStmt, hvariable]
      split
      · next hx =>
          refine .ask (fits_of_not_binds rfl) fun v m₁ hm₁ => ?_
          rw [Machine.assign_pad (.inl (hm₁.hasVariable hx))]
          exact .done _ _
      · exact .done _ m
  | ret line value => exact .done _ m
  | cond c body next => exact pads_ask_last (fits_of_not_binds rfl)
  | loop c body => exact pads_ask_last (fits_of_not_binds rfl)
  | call f args => exact pads_ask_last (fits_of_not_binds rfl)

theorem pads_planNext (next : ElseChain) (m : Machine) :
    (planNext next m).Pads k (planNext next (m.pad k)) := by
  cases next with
  | none => exact .done _ m
  | elseIf c body next => exact pads_ask_last (fits_of_not_binds rfl)
  | otherwise body => exact pads_ask_last (fits_block body m [])

theorem pads_planBranch (c : Expr) (body : List Stmt) (next : ElseChain)
    (m : Machine) :
    (planBranch c body next m).Pads k (planBranch c body next (m.pad k)) := by
  refine .ask (fits_of_not_binds rfl) fun v m₁ _ => ?_
  split
  · exact pads_ask_last (fits_block body m₁ [])
  · exact pads_planNext next m₁

theorem pads_planLoop (c : Expr) (body : List Stmt) (m : Machine) :
    (planLoop c body m).Pads k (planLoop c body (m.pad k)) := by
  refine .ask (fits_of_not_binds rfl) fun v m₁ _ => ?_
  split
  · refine .ask (fits_block body m₁ []) fun v m₂ _ => pads_orElse ?_ v
    exact pads_ask_last (fits_of_not_binds rfl)
  · exact .done _ m₁

theorem pads_planBody {body : List Stmt} {m : Machine}
    (h : (Task.statements body).Fits k m) :
    (planBody body m).Pads k (planBody body (m.pad k)) := by
  unfold planBody
  split
  · exact .done _ m
  · exact .done _ m
  · exact .ask (fits_of_not_binds rfl) fun v m₁ _ => .done _ m₁
  · refine .ask (fun _ => h rfl) fun v m₁ hm₁ => pads_orElse ?_ v
    exact pads_ask_last (h.grows rfl hm₁)

theorem pads_plan {y : Yield} {task : Task y} {m : Machine}
    (h : task.Fits k m) :
    (task.plan limit m).Pads k (task.plan limit (m.pad k)) := by
  cases task with
  | expr e => exact pads_planExpr e m
  | arguments es => exact pads_planArgs es m
  | call f args => exact pads_planCall f args m
  | stmt s => exact pads_planStmt h
  | branch c body next => exact pads_planBranch c body next m
  | loop c body => exact pads_planLoop c body m
  | statements body => exact pads_planBody h

/-- With one more scope a run goes as without, and leaves that scope empty. -/
theorem run_pad (n : Nat) {y : Yield} {task : Task y} {m : Machine}
    (h : task.Fits k m) :
    task.run limit n (m.pad k) =
      (task.run limit n m).atEnd (Machine.pad k) := by
  induction n generalizing k y m with
  | zero =>
      rw [run_zero, run_zero]
      rfl
  | succ n ih =>
      rw [run_succ, run_succ]
      exact (pads_plan h).exec (fun y task k m => ih) fun y task m =>
        Machine.steady_grows.run n task m

end Task

/-! ## Blocks around one statement -/

/-- The statements that do something where they stand and declare nothing
there. -/
def Stmt.isAction : Stmt → Bool
  | .assign _ _ | .cond _ _ _ | .loop _ _ | .call _ _ => true
  | .declare _ _ _ | .function _ _ _ | .ret _ _ => false

theorem Stmt.ne_ret_of_isAction {s : Stmt} (h : s.isAction = true) (line : Nat)
    (v : Option Expr) : s ≠ .ret line v := by
  rintro rfl
  cases h

theorem Stmt.not_binds_of_isAction {s : Stmt} (h : s.isAction = true) :
    (Task.stmt s).binds = false := by
  cases s with
  | declare ty x init => cases h
  | function f params body => cases h
  | _ => rfl

namespace Task

variable {limit : Option Nat} {s : Stmt} {m m' : Machine}
  {r : Except RuntimeError (Option Literal)}

theorem run_statements_singleton (hs : ∀ line v, s ≠ .ret line v) (n : Nat)
    (m : Machine) :
    (Task.statements [s]).run limit (n + 2) m =
      (Task.stmt s).run limit (n + 1) m := by
  rw [run_succ, plan, planBody_cons hs, Plan.exec_ask_same]
  have hnext : ∀ v m,
      (Plan.orElse (fun m => .ask .same (.statements []) m
        fun v m => .done (.ok v) m) v m).exec (answers limit (n + 1)) =
        .ended (.ok v) m := by
    intro v m
    cases v <;> rfl
  rw [Outcome.andThen_congr _ hnext, Outcome.andThen_ended]
  rfl

/-- A block around one statement that declares nothing ends as the statement
does. -/
theorem runs_block_iff (hs : s.isAction = true) :
    (Plan.ask .block (.statements [s]) m fun v m => .done (.ok v) m).Runs
        limit r m' ↔
      (Task.stmt s).Runs limit m r m' := by
  have hrun : ∀ n,
      (Task.statements [s]).run limit (n + 2) (Setting.block.enter m) =
        ((Task.stmt s).run limit (n + 1) m).atEnd (Machine.pad 0) := by
    intro n
    have henter : Setting.block.enter m = m.pad 0 := rfl
    rw [run_statements_singleton (Stmt.ne_ret_of_isAction hs), henter]
    exact run_pad (n + 1) (fits_of_not_binds (Stmt.not_binds_of_isAction hs))
  rw [Plan.runs_ask_last_iff]
  constructor
  · rintro ⟨m₁, ⟨n, hn⟩, rfl⟩
    have hn₂ := run_mono (Nat.le_add_right n 2) hn
    rw [hrun] at hn₂
    obtain ⟨m₂, hm₂, rfl⟩ := Outcome.atEnd_eq_ended_iff.1 hn₂
    exact ⟨n + 1, hm₂⟩
  · rintro ⟨n, hn⟩
    refine ⟨m'.pad 0, ⟨n + 2, ?_⟩, rfl⟩
    rw [hrun, run_mono (Nat.le_add_right n 1) hn]
    rfl

theorem runs_cond_iff {c : Expr} {body : List Stmt} {next : ElseChain} :
    (Task.stmt (.cond c body next)).Runs limit m r m' ↔
      (planBranch c body next m).Runs limit r m' := by
  have hplan : (Task.stmt (.cond c body next)).plan limit m =
      .ask .same (.branch c body next) m fun v m => .done (.ok v) m := rfl
  rw [runs_iff_plan, hplan, Plan.runs_ask_last_iff]
  constructor
  · rintro ⟨m₁, hm₁, rfl⟩
    exact runs_iff_plan.1 hm₁
  · intro h
    exact ⟨m', runs_iff_plan.2 h, rfl⟩

/-- A condition behind an `else` is a conditional in a block behind it. -/
theorem runs_planNext_elseIf_iff {c : Expr} {body : List Stmt}
    {next : ElseChain} : (planNext (.elseIf c body next) m).Runs limit r m' ↔
      (planNext (.otherwise [.cond c body next]) m).Runs limit r m' := by
  have hcond : (Task.stmt (.cond c body next)).Runs limit m r m' ↔
      (planNext (.elseIf c body next) m).Runs limit r m' := runs_iff_plan
  rw [← hcond]
  exact (runs_block_iff rfl).symm

theorem runs_elseIf_iff {c d : Expr} {body body' : List Stmt}
    {next : ElseChain} :
    (Task.stmt (.cond c body (.elseIf d body' next))).Runs limit m r m' ↔
      (Task.stmt (.cond c body (.otherwise [.cond d body' next]))).Runs
        limit m r m' := by
  rw [runs_cond_iff, runs_cond_iff, planBranch, planBranch]
  refine Plan.runs_ask_congr fun v m₁ => ?_
  split
  · rfl
  · exact runs_planNext_elseIf_iff

end Task

/-- A block around an assignment, a conditional, a loop or a call is invisible:
from every machine, if one of the two ends then so does the other, with the same
value or error, and they leave the same machine. So an `else if` is an `else`
with a conditional in its block. -/
theorem block_around_action (limit : Option Nat) (m : Machine) :
    (∀ s : Stmt, s.isAction = true → ∀ r m',
      (∃ n, m.inScope [] (execBody limit n [s]) = .ended r m') ↔
        ∃ n, execStmt limit n s m = .ended r m') ∧
    (∀ c body d body' next r m',
      (∃ n, execStmt limit n (.cond c body (.elseIf d body' next)) m =
          .ended r m') ↔
        ∃ n, execStmt limit n
          (.cond c body (.otherwise [.cond d body' next])) m =
            .ended r m') := by
  constructor
  · intro s hs r m'
    have hblock : (∃ n, m.inScope [] (execBody limit n [s]) = .ended r m') ↔
        (Plan.ask .block (.statements [s]) m fun v m => .done (.ok v) m).Runs
          limit r m' := by
      refine exists_congr fun n => ?_
      rw [Plan.exec_ask_last]
      rfl
    rw [hblock]
    exact Task.runs_block_iff hs
  · intro c body d body' next r m'
    have helse : (Task.stmt (.cond c body (.elseIf d body' next))).Runs
        limit m r m' ↔
        (Task.stmt (.cond c body (.otherwise [.cond d body' next]))).Runs
          limit m r m' :=
      Task.runs_elseIf_iff
    exact helse

/-- A loop that ends after one round, which assigns to a variable around the
loop what a variable of its own holds. -/
def oneRound : Stmt :=
  .loop (.var ⟨"x", 1⟩)
    [.declare ⟨.bool, "bool", 2⟩ ⟨"y", 2⟩ (.literal ⟨.bool false, "false", 2⟩),
      .assign ⟨"x", 3⟩ (.var ⟨"y", 3⟩)]

/-- In a block of its own the loop still reaches the variable around it. -/
theorem block_around_action_oneRound :
    ∃ m', oneRound.isAction = true ∧
      execStmt none 9 oneRound
        (Machine.fresh.assign "x" ⟨.bool true, "true", 1⟩) =
        .ended (.ok none) m' ∧
      (∃ n, (Machine.fresh.assign "x" ⟨.bool true, "true", 1⟩).inScope []
        (execBody none n [oneRound]) = .ended (.ok none) m') ∧
      m'.memory.value? "x" = some ⟨.bool false, "false", 2⟩ ∧
        m'.memory.depth = 1 := by
  obtain ⟨m', hrun, hvalue, hdepth⟩ : ∃ m',
      execStmt none 9 oneRound
        (Machine.fresh.assign "x" ⟨.bool true, "true", 1⟩) =
        .ended (.ok none) m' ∧
      m'.memory.value? "x" = some ⟨.bool false, "false", 2⟩ ∧
        m'.memory.depth = 1 :=
    ⟨_, rfl, rfl, rfl⟩
  exact ⟨m', rfl, hrun,
    ((block_around_action none _).1 oneRound rfl _ m').2 ⟨9, hrun⟩, hvalue,
    hdepth⟩

end Quill
