import Quill.Proofs.Code

/-!
# Bindings that a run cannot touch

A function body sees the variables of all its callers and may assign to them, so
a call can change any variable in the stack. Two things hold it back.

An assignment writes to the innermost scope that binds its name and to no other.
Behind that scope the name is out of reach for as long as the scope is open, for
whatever is opened under way stands in front of it and is closed again. The
parameters of a call are bound in a scope of its own before its body begins, so
what the callers have under these names is safe until that scope is closed.

And a variable that no code assigns to is a constant. Declarations do not count:
they end with an operation that would overwrite a binding, but one that is there
when a declaration begins makes it fail. Code is what runs and what memory holds
of functions, where nothing is added under way that did not stand in the former.
-/

namespace Quill

/-! ## The bindings of one name -/

namespace Memory

/-- What each open scope binds the variable to, the innermost scope first. -/
def slots (mem : Memory) (x : String) : List (Option Literal) :=
  mem.scopes.map (·.vars.get? x)

variable {mem : Memory} {x y : String} {a : Option Literal}
  {below : List (Option Literal)}

theorem depth_pos_of_mem_slots (h : a ∈ mem.slots x) : 0 < mem.depth := by
  obtain ⟨s, hs, -⟩ := List.mem_map.1 h
  exact List.length_pos_of_mem hs

theorem exists_slots_eq_cons (hmem : 0 < mem.depth) (x : String) :
    ∃ a below, mem.slots x = a :: below :=
  List.exists_cons_of_length_pos (by rwa [slots, List.length_map])

theorem hasVariable_iff_slots :
    mem.hasVariable x = true ↔ ∃ v, some v ∈ mem.slots x := by
  rw [hasVariable_iff]
  constructor
  · rintro ⟨s, hs, hx⟩
    obtain ⟨v, hv⟩ := Option.isSome_iff_exists.1 hx
    exact ⟨v, List.mem_map.2 ⟨s, hs, hv⟩⟩
  · rintro ⟨v, hv⟩
    obtain ⟨s, hs, hx⟩ := List.mem_map.1 hv
    exact ⟨s, hs, Option.isSome_iff_exists.2 ⟨v, hx⟩⟩

/-- A change of the innermost scope changes the first slot at most. -/
theorem slots_inInnermost (h : mem.slots x = a :: below)
    {change : Scope → Scope} {a' : Option Literal}
    (hchange : ∀ s : Scope, s.vars.get? x = a →
      (change s).vars.get? x = a') :
    (mem.inInnermost change).slots x = a' :: below := by
  obtain ⟨s, rest, hscopes, hs, rfl⟩ := List.map_eq_cons_iff.1 h
  simp only [inInnermost, hscopes, slots, List.map_cons, hchange s hs]

theorem slots_bind_self (h : mem.slots x = a :: below) (v : Literal) :
    (mem.bind x v).slots x = some v :: below :=
  slots_inInnermost h fun s _ => s.vars.get?_set_self x v

theorem slots_bind_of_ne (h : mem.slots x = a :: below) (hxy : x ≠ y)
    (v : Literal) : (mem.bind y v).slots x = a :: below :=
  slots_inInnermost h fun s hs => (s.vars.get?_set_of_ne v hxy).trans hs

theorem slots_declare (hmem : 0 < mem.depth) (f : FunDecl) (x : String) :
    (mem.declare f).slots x = mem.slots x := by
  obtain ⟨a, below, h⟩ := exists_slots_eq_cons hmem x
  rw [h]
  exact slots_inInnermost h fun _ hs => hs

theorem slots_replace_of_ne (hxy : x ≠ y) (v : Literal) (scopes : List Scope) :
    slots ⟨replace y v scopes⟩ x = slots ⟨scopes⟩ x := by
  induction scopes with
  | nil => rfl
  | cons s rest ih =>
      simp only [slots] at ih
      rw [replace]
      split
      · simp only [slots, List.map_cons, s.vars.get?_set_of_ne v hxy]
      · simp only [slots, List.map_cons, ih]

theorem slots_assign_of_ne (hmem : 0 < mem.depth) (hxy : x ≠ y) (v : Literal) :
    (mem.assign y v).slots x = mem.slots x := by
  unfold assign
  split
  · exact slots_replace_of_ne hxy v mem.scopes
  · obtain ⟨a, below, h⟩ := exists_slots_eq_cons hmem x
    rw [h, slots_bind_of_ne h hxy]

/-- An assignment fills the first slot that is not empty. -/
theorem slots_replace_self {scopes : List Scope} {k : Nat} {w : Literal}
    (h : slots ⟨scopes⟩ x = List.replicate k none ++ some w :: below)
    (v : Literal) :
    slots ⟨replace x v scopes⟩ x =
      List.replicate k none ++ some v :: below := by
  induction k generalizing scopes with
  | zero =>
      obtain ⟨s, rest, rfl, hs, rfl⟩ := List.map_eq_cons_iff.1 h
      have hfilled : s.vars.contains x = true :=
        Option.isSome_iff_exists.2 ⟨w, hs⟩
      rw [replace, if_pos hfilled]
      simp [slots]
  | succ k ih =>
      obtain ⟨s, rest, rfl, hs, hrest⟩ := List.map_eq_cons_iff.1 h
      have hempty : s.vars.contains x = false := by
        rw [Bindings.contains, hs]
        rfl
      have hlater : slots ⟨replace x v rest⟩ x =
          List.replicate k none ++ some v :: below :=
        ih hrest
      rw [replace, if_neg (Bool.eq_false_iff.1 hempty)]
      simp only [slots, List.map_cons, hs] at hlater ⊢
      rw [hlater]
      rfl

theorem slots_assign_self {k : Nat} {w : Literal}
    (h : mem.slots x = List.replicate k none ++ some w :: below) (v : Literal) :
    (mem.assign x v).slots x = List.replicate k none ++ some v :: below := by
  have hx : mem.hasVariable x = true := hasVariable_iff_slots.2 ⟨w, by simp [h]⟩
  rw [assign, if_pos hx]
  exact slots_replace_self h v

end Memory

theorem Machine.slots_leave (m : Machine) (x : String) :
    m.leave.memory.slots x = (m.memory.slots x).tail :=
  List.map_tail

/-- A scope that is opened has a slot of its own, which its bindings fill. -/
theorem Machine.exists_slots_enter (m : Machine) (bindings : Bindings Literal)
    (x : String) :
    ∃ a : Option Literal,
      (m.enter bindings).memory.slots x = a :: m.memory.slots x ∧
      (x ∈ bindings.names → a.isSome = true) := by
  have hfold : ∀ (mem : Memory) (a : Option Literal),
      mem.slots x = a :: m.memory.slots x →
      ∃ b : Option Literal,
        (bindings.foldl (fun mem b => mem.bind b.1 b.2) mem).slots x =
          b :: m.memory.slots x ∧
        (a.isSome = true ∨ x ∈ bindings.names → b.isSome = true) := by
    induction bindings with
    | nil =>
        intro mem a hmem
        refine ⟨a, hmem, ?_⟩
        rintro (ha | hx)
        · exact ha
        · exact absurd hx List.not_mem_nil
    | cons b bindings ih =>
        obtain ⟨y, v⟩ := b
        intro mem a hmem
        by_cases hxy : x = y
        · subst hxy
          obtain ⟨b, hb, hfilled⟩ := ih _ _ (Memory.slots_bind_self hmem v)
          exact ⟨b, hb, fun _ => hfilled (.inl rfl)⟩
        · obtain ⟨b, hb, hfilled⟩ := ih _ _ (Memory.slots_bind_of_ne hmem hxy v)
          refine ⟨b, hb, ?_⟩
          rintro (ha | hx)
          · exact hfilled (.inl ha)
          · exact hfilled (.inr (List.mem_of_ne_of_mem hxy hx))
  obtain ⟨a, ha, hfilled⟩ := hfold m.memory.enter none rfl
  exact ⟨a, ha, fun hx => hfilled (.inr hx)⟩

/-! ## Behind the innermost binding -/

/-- The innermost binding of the variable stays where it is, and all of its
bindings further out stay as they are. -/
def Machine.Shields (x : String) (m m' : Machine) : Prop :=
  ∀ k v below, m.memory.slots x = List.replicate k none ++ some v :: below →
    ∃ v', m'.memory.slots x = List.replicate k none ++ some v' :: below

namespace Machine.Shields

variable {x : String} {m m' : Machine}

theorem of_slots_eq (h : 0 < m.memory.depth →
      m'.memory.slots x = m.memory.slots x) :
    m.Shields x m' := by
  intro k v below hm
  have hv : some v ∈ m.memory.slots x := by simp [hm]
  exact ⟨v, (h (Memory.depth_pos_of_mem_slots hv)).trans hm⟩

/-- What happens in a scope that is closed again. Either the scope binds the
variable, and then all bindings around it are behind that one, or it does not,
and then the same binding is the innermost outside. -/
theorem leave {bindings : Bindings Literal}
    (h : (m.enter bindings).Shields x m') : m.Shields x m'.leave := by
  intro k v below hm
  obtain ⟨a, ha, -⟩ := m.exists_slots_enter bindings x
  cases a with
  | none =>
      obtain ⟨v', hv'⟩ :=
        h (k + 1) v below
          (by rw [ha, hm, List.replicate_succ, List.cons_append])
      exact ⟨v', by
        rw [slots_leave, hv', List.replicate_succ, List.cons_append,
          List.tail_cons]⟩
  | some w =>
      obtain ⟨w', hw'⟩ := h 0 w _ ha
      exact ⟨v, by
        rw [slots_leave, hw', List.replicate_zero, List.nil_append,
          List.tail_cons, hm]⟩

end Machine.Shields

theorem Machine.steady_shields (x : String) :
    Machine.Steady (Machine.Shields x) where
  change h := by
    cases h with
    | none => exact .of_slots_eq fun _ => rfl
    | print => exact .of_slots_eq fun _ => rfl
    | declare m f => exact .of_slots_eq fun hm => Memory.slots_declare hm f x
    | assign m y v =>
        by_cases hxy : x = y
        · subst hxy
          exact fun k w below hm => ⟨v, Memory.slots_assign_self hm v⟩
        · exact .of_slots_eq fun hm => Memory.slots_assign_of_ne hm hxy v
  trans h₁ h₂ := by
    intro k v below hm
    obtain ⟨v₁, hv₁⟩ := h₁ k v below hm
    exact h₂ k v₁ below hv₁
  inside setting m m' h := by
    cases setting with
    | same => exact h
    | block => exact h.leave
    | body f args => exact Machine.Shields.leave (m := m.beginCall) h

/-- What runs in a scope with bindings reaches none of the bindings of their
names around it. -/
theorem Machine.ends_inScope_slots (limit : Option Nat) (n : Nat) (m : Machine)
    (body : List Stmt) {bindings : Bindings Literal} {x : String}
    (hx : x ∈ bindings.names) :
    (m.inScope bindings (execBody limit n body)).Ends fun _ m' =>
      m'.memory.slots x = m.memory.slots x := by
  have hrun : ((Task.statements body).run limit n (m.enter bindings)).Ends
      fun _ m' => (m.enter bindings).Shields x m' :=
    (steady_shields x).run n _ _
  refine hrun.atEnd fun r m' hm' => ?_
  obtain ⟨a, ha, hfilled⟩ := m.exists_slots_enter bindings x
  obtain ⟨v, rfl⟩ := Option.isSome_iff_exists.1 (hfilled hx)
  obtain ⟨v', hv'⟩ := hm' 0 v _ ha
  rw [slots_leave, hv', List.replicate_zero, List.nil_append, List.tail_cons]

namespace Task

variable {limit : Option Nat} {m m' : Machine}

theorem length_of_runs_arguments {es : List Expr} {vs : List Literal}
    (h : (Task.arguments es).Runs limit m (.ok vs) m') :
    vs.length = es.length := by
  induction es generalizing m m' vs with
  | nil =>
      rw [runs_iff_plan, plan, planArgs, Plan.runs_done_iff] at h
      cases h.1
      rfl
  | cons e es ih =>
      rw [runs_iff_plan, plan, planArgs, Plan.runs_ask_ok_iff] at h
      obtain ⟨w, m₁, -, hrest⟩ := h
      obtain ⟨ws, m₂, hws, hend⟩ := Plan.runs_ask_ok_iff.1 hrest
      cases (Plan.runs_done_iff.1 hend).1
      rw [List.length_cons, List.length_cons, ih hws]

/-- The call of a declared function is refused, or its arguments fail, or its
body runs where they are evaluated. -/
theorem runs_call_cases {f : Ident} {args : List Expr} {decl : FunDecl}
    {r : Except RuntimeError (Option Literal)}
    (hf : Builtin.ofName? f.text = none) (hdecl : m.memory.find f = .ok decl)
    (h : (Task.call f args).Runs limit m r m') :
    (∃ fault, r = .error (f.failure fault) ∧ m' = m) ∨
      (∃ e, (Task.arguments args).Runs limit m (.error e) m' ∧ r = .error e) ∨
      ∃ vs m₁ n m₂, (Task.arguments args).Runs limit m (.ok vs) m₁ ∧
        vs.length = decl.params.length ∧
        m₁.beginCall.inScope ((decl.params.map (·.name.text)).zip vs)
          (execBody limit n decl.body) = .ended r m₂ ∧ m' = m₂.endCall := by
  rw [runs_iff_plan, plan, planCall, hf, hdecl] at h
  dsimp only at h
  split at h
  · exact .inl ⟨_, Plan.runs_done_iff.1 h⟩
  · next hcount =>
      split at h
      · exact .inl ⟨_, Plan.runs_done_iff.1 h⟩
      · rcases Plan.runs_ask_iff.1 h with ⟨vs, m₁, hvs, hbody⟩ |
          ⟨e, m₁, he, rfl, rfl⟩
        · have hlength : vs.length = decl.params.length := by
            rw [length_of_runs_arguments hvs, Decidable.not_not.1 hcount]
          obtain ⟨m₂, ⟨n, hn⟩, rfl⟩ := Plan.runs_ask_last_iff.1 hbody
          refine .inr (.inr ⟨vs, m₁, n, m₂.leave, hvs, hlength, ?_, rfl⟩)
          exact Outcome.atEnd_eq_ended_iff.2 ⟨m₂, hn, rfl⟩
        · exact .inr (.inl ⟨e, he, rfl⟩)

end Task

/-- A block leaves the bindings of all names that it is entered with as they are
in the scopes around it, however it ends and whatever it runs. So a call of a
declared function is refused and does nothing, or ends with an argument, or
leaves what its callers bind its parameters to as it is when the arguments have
been evaluated. -/
theorem parameters_shield (limit : Option Nat) (m : Machine) :
    (∀ n bindings body r m',
      m.inScope bindings (execBody limit n body) = .ended r m' →
      ∀ x ∈ bindings.names, m'.memory.slots x = m.memory.slots x) ∧
    (∀ n f args decl r m', Builtin.ofName? f.text = none →
      m.memory.find f = .ok decl → evalCall limit n f args m = .ended r m' →
        (∃ fault, r = .error (f.failure fault) ∧ m' = m) ∨
        (∃ k e, evalArgs limit k args m = .ended (.error e) m' ∧ r = .error e) ∨
        ∃ k vs m₁, evalArgs limit k args m = .ended (.ok vs) m₁ ∧
          ∀ x ∈ decl.params.map (·.name.text),
            m'.memory.slots x = m₁.memory.slots x) := by
  constructor
  · intro n bindings body r m' h x hx
    exact m.ends_inScope_slots limit n body hx r m' h
  · intro n f args decl r m' hf hdecl h
    have hruns : (Task.call f args).Runs limit m r m' := ⟨n, h⟩
    rcases Task.runs_call_cases hf hdecl hruns with
      hrefused | ⟨e, ⟨k, he⟩, rfl⟩ |
        ⟨vs, m₁, n', m₂, ⟨k, hvs⟩, hlength, hbody, rfl⟩
    · exact .inl hrefused
    · exact .inr (.inl ⟨k, e, he, rfl⟩)
    · refine .inr (.inr ⟨k, vs, m₁, hvs, fun x hx => ?_⟩)
      have hnames : x ∈
          Bindings.names ((decl.params.map (·.name.text)).zip vs) := by
        rw [Bindings.names,
          List.map_fst_zip (Nat.le_of_eq (by rw [List.length_map, hlength]))]
        exact hx
      exact m₁.beginCall.ends_inScope_slots limit n' decl.body hnames r m₂ hbody

/-- A function that assigns to a variable which is not its own. -/
def intruder : FunDecl :=
  ⟨⟨"g", 1⟩, [], [.assign ⟨"x", 2⟩ (.literal ⟨.int, "3", 2⟩)]⟩

/-- A function with a parameter of that name which calls it. -/
def shielder : FunDecl :=
  ⟨⟨"f", 4⟩, [⟨⟨.int, "int", 4⟩, ⟨"x", 4⟩⟩], [.call ⟨"g", 5⟩ []]⟩

/-- A block that is entered with a value for the variable, and a call that has
it as its parameter, while there is a global variable of this name: the
assignment two levels down goes to the block and to the parameter. -/
theorem parameters_shield_intruder :
    ∃ m m₁ m₂,
      m = ((Machine.fresh.assign "x" ⟨.int, "1", 1⟩).declare
        intruder).declare shielder ∧
      m.memory.slots "x" = [some ⟨.int, "1", 1⟩] ∧
      m.inScope [("x", ⟨.int, "2", 7⟩)] (execBody none 9 [.call ⟨"g", 8⟩ []]) =
        .ended (.ok none) m₁ ∧ m₁.memory.slots "x" = m.memory.slots "x" ∧
      evalCall none 9 ⟨"f", 9⟩ [.literal ⟨.int, "2", 9⟩] m =
        .ended (.ok none) m₂ ∧
      ∃ k vs m', evalArgs none k [.literal ⟨.int, "2", 9⟩] m =
        .ended (.ok vs) m' ∧
        m₂.memory.slots "x" = m'.memory.slots "x" := by
  obtain ⟨m, m₁, m₂, hm, hslots, hblock, hfind, hcall⟩ : ∃ m m₁ m₂,
      m = ((Machine.fresh.assign "x" ⟨.int, "1", 1⟩).declare
        intruder).declare shielder ∧
      m.memory.slots "x" = [some ⟨.int, "1", 1⟩] ∧
      m.inScope [("x", ⟨.int, "2", 7⟩)] (execBody none 9 [.call ⟨"g", 8⟩ []]) =
        .ended (.ok none) m₁ ∧ m.memory.find ⟨"f", 9⟩ = .ok shielder ∧
      evalCall none 9 ⟨"f", 9⟩ [.literal ⟨.int, "2", 9⟩] m =
        .ended (.ok none) m₂ :=
    ⟨_, _, _, rfl, rfl, rfl, rfl, rfl⟩
  obtain ⟨hblocks, hcalls⟩ := parameters_shield none m
  rcases hcalls _ _ _ _ _ _ (by decide) hfind hcall with
    ⟨fault, hr, -⟩ | ⟨k, e, -, hr⟩ | ⟨k, vs, m', hvs, hparams⟩
  · cases hr
  · cases hr
  · exact ⟨m, m₁, m₂, hm, hslots, hblock,
      hblocks _ _ _ _ _ hblock "x" (by decide), hcall, k, vs, m', hvs,
      hparams "x" (by decide)⟩

/-! ## Variables that nothing assigns to -/

/-- The assignments to `x`. -/
def Stmt.assignsTo (x : String) : Stmt → Bool
  | .assign y _ => y.text == x
  | _ => false

/-- The declarations of the variable `x`. -/
def Task.declares (x : String) : {y : Yield} → Task y → Bool
  | _, .stmt (.declare _ y _) => y.text == x
  | _, _ => false

/-- Every binding of the variable stays as it is. -/
def Machine.Retains (x : String) (m m' : Machine) : Prop :=
  ∀ (i : Nat) (v : Literal), (m.memory.slots x)[i]? = some (some v) →
    (m'.memory.slots x)[i]? = some (some v)

namespace Machine.Retains

variable {x : String} {m m' m'' : Machine}

theorem of_slots_eq (h : 0 < m.memory.depth →
      m'.memory.slots x = m.memory.slots x) :
    m.Retains x m' := by
  intro i v hv
  rw [h (Memory.depth_pos_of_mem_slots (List.mem_of_getElem? hv)), hv]

theorem of_not_hasVariable (h : m.memory.hasVariable x = false) (m' : Machine) :
    m.Retains x m' := by
  intro i v hv
  have hx := Memory.hasVariable_iff_slots.2 ⟨v, List.mem_of_getElem? hv⟩
  rw [h] at hx
  cases hx

theorem refl (x : String) (m : Machine) : m.Retains x m :=
  fun _ _ hv => hv

theorem trans (h : m.Retains x m') (h' : m'.Retains x m'') : m.Retains x m'' :=
  fun i v hv => h' i v (h i v hv)

theorem leave {bindings : Bindings Literal}
    (h : (m.enter bindings).Retains x m') : m.Retains x m'.leave := by
  intro i v hv
  obtain ⟨a, ha, -⟩ := m.exists_slots_enter bindings x
  rw [slots_leave, List.getElem?_tail]
  exact h (i + 1) v (by rw [ha, List.getElem?_cons_succ, hv])

theorem inside (setting : Setting) (h : (setting.enter m).Retains x m') :
    m.Retains x (setting.leave m') := by
  cases setting with
  | same => exact h
  | block => exact h.leave
  | body f args => exact leave (m := m.beginCall) h

end Machine.Retains

/-- What a part does by itself, if it neither assigns to the variable nor
declares it. -/
theorem Task.Leaves.retains {x : String} {y : Yield} {task : Task y}
    (htask : Every (fun s => !s.assignsTo x) y task)
    (hdeclares : task.declares x = false) {m m' : Machine}
    (h : task.Leaves m m') : m.Retains x m' := by
  have hother : ∀ {y : String}, (y == x) = false → ∀ v,
      m.Retains x (m.assign y v) := by
    intro y hy v
    refine .of_slots_eq fun hm => Memory.slots_assign_of_ne hm ?_ v
    rintro rfl
    simp at hy
  cases h with
  | same => exact .refl x m
  | print => exact .of_slots_eq fun _ => rfl
  | declare ty y init m v => exact hother hdeclares v
  | assign y value m v =>
      have hy := Stmt.holds_of_every htask
      rw [Bool.not_eq_true'] at hy
      exact hother hy v
  | function f params body m =>
      exact .of_slots_eq fun hm => Memory.slots_declare hm _ x

theorem Plan.Follows.meets_retains {x : String} {y₀ : Yield} {task : Task y₀}
    (hleaves : ∀ m m', task.Leaves m m' → m.Retains x m') {mem : Memory}
    {y : Yield} {p : Plan y} {m m₀ : Machine} (hp : p.Follows task mem m₀)
    (h : m.Retains x m₀) :
    p.Meets (fun _ _ _ _ => True) (fun _ _ m _ m' => m.Retains x m')
      fun _ m' => m.Retains x m' := by
  -- `m` stays where the whole plan began, `m₀` moves on to where the rest of it
  -- begins
  induction p generalizing m₀ with
  | done r m₁ => exact h.trans (hleaves _ _ hp.1)
  | ask setting t m₁ next ih =>
      obtain ⟨rfl, -, hnext⟩ := hp
      refine ⟨trivial, fun e m' hm' => h.trans (.inside setting hm'),
        fun v m' hm' => ?_⟩
      exact ih v _ (hnext v _) (h.trans (.inside setting hm'))

/-- A declaration of the variable fails at once, or there is no binding to
keep. -/
theorem Task.meets_retains_declare (ty : TypeName) (x : Ident) (init : Expr)
    (m : Machine) :
    (planStmt (.declare ty x init) m).Meets (fun _ _ _ _ => True)
      (fun _ _ m _ m' => m.Retains x.text m') fun _ m' =>
        m.Retains x.text m' := by
  simp only [planStmt]
  split
  · exact Machine.Retains.refl x.text m
  · next hx =>
      have hall : ∀ m', m.Retains x.text m' :=
        Machine.Retains.of_not_hasVariable (Bool.eq_false_iff.2 hx)
      refine ⟨trivial, fun e m' _ => hall _, fun v m' _ => ?_⟩
      dsimp only
      split
      · exact hall _
      · exact hall _

theorem Task.meets_retains (limit : Option Nat) {x : String} {y : Yield}
    {task : Task y} (htask : Every (fun s => !s.assignsTo x) y task)
    (m : Machine) :
    (task.plan limit m).Meets (fun _ _ _ _ => True)
      (fun _ _ m _ m' => m.Retains x m') fun _ m' => m.Retains x m' := by
  cases hdeclares : task.declares x with
  | false =>
      refine (task.follows_plan limit m).meets_retains ?_ (.refl x m)
      exact fun _ _ h => h.retains htask hdeclares
  | true =>
      match task, hdeclares with
      | .stmt (.declare ty y init), hdeclares =>
          cases eq_of_beq hdeclares
          exact meets_retains_declare ty y init m

/-- Neither what runs nor what memory knows assigns to the variable, and its
bindings stay as they are. -/
def retained (limit : Option Nat) (x : String) : Invariant limit where
  pre _ y task m := Every (fun s => !s.assignsTo x) y task ∧
    m.memory.Knows (Every fun s => !s.assignsTo x)
  post _ _ m _ m' := m'.memory.Knows (Every fun s => !s.assignsTo x) ∧
    m.Retains x m'
  plan_meets := by
    rintro stack y task m ⟨htask, hm⟩
    have hcode := (hereditary_every fun s => !s.assignsTo x).meets htask hm
      (task.follows_plan limit m) hm
    exact (hcode.and (Task.meets_retains limit htask m)).imp
      fun _ _ _ _ h => h.1

/-- A variable is a constant as far as nothing assigns to it: if there is no
assignment to it in a statement, nor in the functions in memory, then the
statement leaves all its bindings as they are, in the same scopes and with the
same values, however it ends. The statement may declare variables and parameters
of this name. -/
theorem unassigned_constant {limit : Option Nat} {n : Nat}
    {x : String} {s : Stmt} {m m' : Machine}
    {r : Except RuntimeError (Option Literal)} (hm : 0 < m.memory.depth)
    (hfuns : m.memory.every (fun s => !s.assignsTo x) = true)
    (hs : s.every (fun s => !s.assignsTo x) = true)
    (h : execStmt limit n s m = .ended r m') :
    m'.memory.depth = m.memory.depth ∧
      ∀ (i : Nat) (v : Literal), (m.memory.slots x)[i]? = some (some v) →
        (m'.memory.slots x)[i]? = some (some v) := by
  have hpre : (retained limit x).pre [] _ (.stmt s) m :=
    ⟨hs, Memory.knows_every_iff.2 hfuns⟩
  exact ⟨Machine.depth_of_frame_after ((balanced limit n).stmt s hm r m' h),
    ((retained limit x).ends n hpre r m' h).2⟩

/-- A function with a parameter that it declares once more. -/
def redeclarer : FunDecl :=
  ⟨⟨"f", 2⟩, [⟨⟨.int, "int", 2⟩, ⟨"x", 2⟩⟩],
    [.declare ⟨.int, "int", 3⟩ ⟨"x", 3⟩ (.literal ⟨.int, "2", 3⟩)]⟩

/-- Its call fails, and a global variable with the name of the parameter keeps
its value. -/
theorem unassigned_constant_redeclarer :
    ∃ m m', m = (Machine.fresh.assign "x" ⟨.int, "1", 1⟩).declare redeclarer ∧
      execStmt none 9 (.call ⟨"f", 5⟩ [.literal ⟨.int, "7", 5⟩]) m =
        .ended (.error ⟨.declaredVariable, 3, some "x"⟩) m' ∧
      (m.memory.slots "x")[0]? = some (some ⟨.int, "1", 1⟩) ∧
      (m'.memory.slots "x")[0]? = some (some ⟨.int, "1", 1⟩) := by
  obtain ⟨m, m', hm, hdepth, hfuns, hslots, hrun⟩ : ∃ m m',
      m = (Machine.fresh.assign "x" ⟨.int, "1", 1⟩).declare redeclarer ∧
        0 < m.memory.depth ∧
      m.memory.every (fun s => !s.assignsTo "x") = true ∧
      (m.memory.slots "x")[0]? = some (some ⟨.int, "1", 1⟩) ∧
      execStmt none 9 (.call ⟨"f", 5⟩ [.literal ⟨.int, "7", 5⟩]) m =
        .ended (.error ⟨.declaredVariable, 3, some "x"⟩) m' :=
    ⟨_, _, rfl, Nat.one_pos, by decide, rfl, rfl⟩
  exact ⟨m, m', hm, hrun, hslots,
    (unassigned_constant hdepth hfuns (by decide) hrun).2 0 _ hslots⟩

end Quill
