import Quill.Proofs.Untouched

/-!
# What leaving a scope restores

Operations on memory may come in any order: scopes are opened and closed, also
when none is open, names are bound in the innermost scope, and an assignment
goes wherever its name is bound, or to the innermost scope for want of a
binding.

Two things hold throughout. Variables and functions could as well be kept on a
stack each, with operations that look at the one they change and at nothing
else: the two stacks stay level. And whatever is done inside a scope, closing it
brings back the scopes around it with all their names and functions. Of the
values in there only those differ that have been assigned to from inside, at a
moment when no scope further in bound the name.

The argument for the second is about one operation. It changes the scopes
further out in no other way than by such an assignment, and to them that is an
assignment like any other.
-/

namespace Quill

namespace Memory

/-- What can be done to a memory. -/
inductive Op where
  | enter
  | leave
  | assign (x : String) (v : Literal)
  | bind (x : String) (v : Literal)
  | declare (f : FunDecl)

def Op.apply : Op → Memory → Memory
  | .enter, mem => mem.enter
  | .leave, mem => mem.leave
  | .assign x v, mem => mem.assign x v
  | .bind x v, mem => mem.bind x v
  | .declare f, mem => mem.declare f

/-- Carries out operations, the first one first. -/
def run (mem : Memory) (ops : List Op) : Memory :=
  ops.foldl (fun mem op => op.apply mem) mem

end Memory

/-! ## Two stacks -/

/-- Memory with variables and functions on stacks of their own, the innermost
scope first. -/
structure Stacks where
  vars : List (Bindings Literal)
  funs : List (Bindings FunDecl)

namespace Stacks

def enter (s : Stacks) : Stacks :=
  ⟨[] :: s.vars, [] :: s.funs⟩

def fresh : Stacks :=
  enter ⟨[], []⟩

/-- Pops what there is to pop. -/
def leave (s : Stacks) : Stacks :=
  ⟨s.vars.tail, s.funs.tail⟩

def hasVariable (s : Stacks) (x : String) : Bool :=
  s.vars.any (·.contains x)

def hasFunction (s : Stacks) (f : String) : Bool :=
  s.funs.any (·.contains f)

/-- Binds a variable on the innermost level. That there is none is seen from the
variables. -/
def bind (s : Stacks) (x : String) (v : Literal) : Stacks :=
  let s := if s.vars.isEmpty then s.enter else s
  { s with vars := s.vars.modifyHead (·.set x v) }

/-- Declares a function on the innermost level. That there is none is seen from
the functions. -/
def declare (s : Stacks) (f : FunDecl) : Stacks :=
  let s := if s.funs.isEmpty then s.enter else s
  { s with funs := s.funs.modifyHead (·.set f.name.text f) }

/-- Gives `x` the value `v` on the innermost level that binds it, if one
does. -/
def overwrite (x : String) (v : Literal) :
    List (Bindings Literal) → Option (List (Bindings Literal))
  | [] => none
  | b :: rest =>
    if b.contains x then some (b.set x v :: rest)
      else (overwrite x v rest).map (b :: ·)

def assign (s : Stacks) (x : String) (v : Literal) : Stacks :=
  match overwrite x v s.vars with
  | some vars => { s with vars := vars }
  | none => s.bind x v

def apply : Memory.Op → Stacks → Stacks
  | .enter, s => s.enter
  | .leave, s => s.leave
  | .assign x v, s => s.assign x v
  | .bind x v, s => s.bind x v
  | .declare f, s => s.declare f

/-- Carries out operations, the first one first. -/
def run (s : Stacks) (ops : List Memory.Op) : Stacks :=
  ops.foldl (fun s op => s.apply op) s

end Stacks

namespace Memory

variable {mem : Memory} {x : String} {v : Literal}

/-- The scopes taken apart. -/
def unzip (mem : Memory) : Stacks :=
  ⟨mem.scopes.map Scope.vars, mem.scopes.map Scope.funs⟩

theorem hasVariable_unzip (mem : Memory) (x : String) :
    mem.unzip.hasVariable x = mem.hasVariable x := by
  rw [Bool.eq_iff_iff, hasVariable_iff]
  simp [Stacks.hasVariable, unzip]

theorem hasFunction_unzip (mem : Memory) (f : String) :
    mem.unzip.hasFunction f = mem.hasFunction f := by
  rw [Bool.eq_iff_iff, hasFunction_iff]
  simp [Stacks.hasFunction, unzip]

theorem overwrite_vars (x : String) (v : Literal) (scopes : List Scope) :
    Stacks.overwrite x v (scopes.map Scope.vars) =
      if hasVariable ⟨scopes⟩ x then some ((replace x v scopes).map Scope.vars)
      else none := by
  induction scopes with
  | nil => rfl
  | cons s rest ih =>
      rw [List.map_cons, Stacks.overwrite, replace]
      by_cases hs : s.vars.contains x = true
      · have hbound : hasVariable ⟨s :: rest⟩ x = true :=
          hasVariable_iff.2 ⟨s, List.mem_cons_self, hs⟩
        simp only [hs, hbound, if_true, List.map_cons]
      · have hrest : hasVariable ⟨s :: rest⟩ x = hasVariable ⟨rest⟩ x := by
          rw [Bool.eq_iff_iff, hasVariable_iff, hasVariable_iff]
          simp [hs]
        rw [if_neg hs, if_neg hs, ih, hrest]
        split <;> rfl

theorem funs_replace (x : String) (v : Literal) (scopes : List Scope) :
    (replace x v scopes).map Scope.funs = scopes.map Scope.funs := by
  induction scopes with
  | nil => rfl
  | cons s rest ih =>
      rw [replace]
      split
      · rfl
      · rw [List.map_cons, ih, List.map_cons]

theorem unzip_bind (mem : Memory) (x : String) (v : Literal) :
    (mem.bind x v).unzip = mem.unzip.bind x v := by
  obtain ⟨scopes⟩ := mem
  cases scopes <;> rfl

theorem unzip_declare (mem : Memory) (f : FunDecl) :
    (mem.declare f).unzip = mem.unzip.declare f := by
  obtain ⟨scopes⟩ := mem
  cases scopes <;> rfl

theorem unzip_assign (mem : Memory) (x : String) (v : Literal) :
    (mem.assign x v).unzip = mem.unzip.assign x v := by
  have hvars : Stacks.overwrite x v mem.unzip.vars =
      if mem.hasVariable x then some ((replace x v mem.scopes).map Scope.vars)
      else none :=
    overwrite_vars x v mem.scopes
  rw [assign, Stacks.assign, hvars]
  split
  · rw [unzip, funs_replace]
    rfl
  · exact unzip_bind mem x v

theorem unzip_apply (op : Op) (mem : Memory) :
    (op.apply mem).unzip = Stacks.apply op mem.unzip := by
  cases op with
  | enter => rfl
  | leave =>
      simp [Op.apply, Stacks.apply, leave, Stacks.leave, unzip, List.map_tail]
  | assign x v => exact unzip_assign mem x v
  | bind x v => exact unzip_bind mem x v
  | declare f => exact unzip_declare mem f

/-- Kept apart, the two stacks go through the same operations as the one stack
of scopes. -/
theorem unzip_run (mem : Memory) (ops : List Op) :
    (mem.run ops).unzip = mem.unzip.run ops := by
  induction ops generalizing mem with
  | nil => rfl
  | cons op ops ih =>
      calc ((op.apply mem).run ops).unzip
          = (op.apply mem).unzip.run ops := ih (op.apply mem)
        _ = (Stacks.apply op mem.unzip).run ops := by rw [unzip_apply]

/-! ## The scopes further out -/

/-- The outermost `d` scopes. -/
def base (mem : Memory) (d : Nat) : Memory :=
  ⟨mem.scopes.drop (mem.depth - d)⟩

/-- A scope inside the outermost `d` binds the variable. -/
def shadows (mem : Memory) (d : Nat) (x : String) : Bool :=
  (mem.scopes.take (mem.depth - d)).any (·.vars.contains x)

variable {d : Nat} {inner outer : List Scope}

theorem depth_append_sub (h : outer.length = d) :
    depth ⟨inner ++ outer⟩ - d = inner.length := by
  simp [depth, h]

theorem base_append (h : outer.length = d) :
    base ⟨inner ++ outer⟩ d = ⟨outer⟩ := by
  rw [base, depth_append_sub h, List.drop_left]

theorem shadows_append (h : outer.length = d) :
    shadows ⟨inner ++ outer⟩ d x = inner.any (·.vars.contains x) := by
  rw [shadows, depth_append_sub h, List.take_left]

theorem exists_inner (h : d < mem.depth) :
    ∃ s inner outer, mem = ⟨s :: inner ++ outer⟩ ∧ outer.length = d := by
  obtain ⟨scopes⟩ := mem
  have hlength : d < scopes.length := h
  obtain ⟨s, inner, hinner⟩ : ∃ s inner,
      scopes.take (scopes.length - d) = s :: inner :=
    List.exists_cons_of_length_pos (by rw [List.length_take]; omega)
  refine ⟨s, inner, scopes.drop (scopes.length - d), ?_, ?_⟩
  · rw [← hinner, List.take_append_drop]
  · rw [List.length_drop]
    omega

theorem base_enter (mem : Memory) : mem.enter.base mem.depth = mem := by
  show base ⟨[.empty] ++ mem.scopes⟩ mem.depth = mem
  exact base_append rfl

theorem leave_eq_base (h : mem.depth = d + 1) : mem.leave = mem.base d := by
  rw [leave, base, h, Nat.add_sub_cancel_left, List.drop_one]

theorem hasVariable_append :
    hasVariable ⟨inner ++ outer⟩ x =
      (inner.any (·.vars.contains x) || hasVariable ⟨outer⟩ x) := by
  rw [Bool.eq_iff_iff, Bool.or_eq_true, hasVariable_iff, hasVariable_iff]
  simp [or_and_right, exists_or]

theorem replace_append (x : String) (v : Literal) (inner outer : List Scope) :
    replace x v (inner ++ outer) =
      if inner.any (·.vars.contains x) then replace x v inner ++ outer
      else inner ++ replace x v outer := by
  induction inner with
  | nil => rfl
  | cons s inner ih =>
      rw [List.cons_append, replace, replace, List.any_cons]
      by_cases hs : s.vars.contains x = true
      · simp only [hs, if_true, Bool.true_or, List.cons_append]
      · simp only [hs, Bool.false_eq_true, if_false, Bool.false_or, ih]
        split <;> rfl

theorem length_replace (x : String) (v : Literal) (scopes : List Scope) :
    (replace x v scopes).length = scopes.length := by
  simpa using congrArg List.length (funs_replace x v scopes)

theorem base_inInnermost (h : d < mem.depth) (change : Scope → Scope) :
    (mem.inInnermost change).base d = mem.base d := by
  obtain ⟨s, inner, outer, rfl, houter⟩ := exists_inner h
  show base ⟨change s :: inner ++ outer⟩ d = base ⟨s :: inner ++ outer⟩ d
  rw [base_append houter, base_append houter]

/-- An assignment to a name that no scope further in binds is one to the scopes
further out, if these bind it. All others leave them as they are. -/
theorem base_assign (h : d < mem.depth) (x : String) (v : Literal) :
    (mem.assign x v).base d =
      if mem.shadows d x = false ∧ (mem.base d).hasVariable x = true then
        (mem.base d).assign x v
      else mem.base d := by
  by_cases hbound : mem.hasVariable x = true
  · obtain ⟨s, inner, outer, rfl, houter⟩ := exists_inner h
    rw [assign, if_pos hbound, replace_append, shadows_append houter,
      base_append houter]
    rw [hasVariable_append, Bool.or_eq_true] at hbound
    -- the innermost binding is on one side of the cut
    by_cases hinner : (s :: inner).any (·.vars.contains x) = true
    · rw [if_pos hinner, base_append houter,
        if_neg fun hout => by simp [hinner] at hout]
    · have hbase : hasVariable ⟨outer⟩ x = true := hbound.resolve_left hinner
      rw [if_neg hinner, base_append ((length_replace ..).trans houter),
        if_pos ⟨Bool.eq_false_iff.2 hinner, hbase⟩, assign, if_pos hbase]
  · -- bound nowhere, so the assignment binds it in the innermost scope
    have hbase : ¬ (mem.base d).hasVariable x = true := by
      intro hbase
      obtain ⟨s, hs, hx⟩ := hasVariable_iff.1 hbase
      exact hbound (hasVariable_iff.2 ⟨s, List.mem_of_mem_drop hs, hx⟩)
    rw [assign, if_neg hbound, if_neg fun hout => hbase hout.2]
    exact base_inInnermost h _

/-- What one operation does to the scopes further out. -/
theorem base_apply (h : d < mem.depth) (op : Op) :
    (op.apply mem).base d = mem.base d ∨
      ∃ x v, op = .assign x v ∧ mem.shadows d x = false ∧
        (mem.base d).hasVariable x = true ∧
        (op.apply mem).base d = (mem.base d).assign x v := by
  cases op with
  | enter =>
      obtain ⟨s, inner, outer, rfl, houter⟩ := exists_inner h
      left
      show base ⟨.empty :: s :: inner ++ outer⟩ d = _
      rw [base_append houter, base_append houter]
  | leave =>
      -- there is a scope further in, and it is the one that is closed
      obtain ⟨s, inner, outer, rfl, houter⟩ := exists_inner h
      left
      show base ⟨inner ++ outer⟩ d = _
      rw [base_append houter, base_append houter]
  | bind x v => exact .inl (base_inInnermost h _)
  | declare f => exact .inl (base_inInnermost h _)
  | assign x v =>
      have hassign := base_assign h x v
      split at hassign
      · next hout => exact .inr ⟨x, v, rfl, hout.1, hout.2, hassign⟩
      · exact .inl hassign

/-! ## Values and names after an assignment -/

theorem value?_eq_slots (mem : Memory) (x : String) :
    mem.value? x = (mem.slots x).findSome? id := by
  rw [slots, List.findSome?_map]
  rfl

theorem value?_assign_of_ne {y : String} (hxy : x ≠ y)
    (hy : mem.hasVariable y = true) (v : Literal) :
    (mem.assign y v).value? x = mem.value? x := by
  rw [assign, if_pos hy, value?_eq_slots, value?_eq_slots,
    slots_replace_of_ne hxy]

theorem value?_assign_self (hx : mem.hasVariable x = true) (v : Literal) :
    (mem.assign x v).value? x = some v := by
  rw [assign, if_pos hx]
  obtain ⟨scopes⟩ := mem
  show value? ⟨replace x v scopes⟩ x = some v
  induction scopes with
  | nil => cases hx
  | cons s rest ih =>
      rw [replace]
      by_cases hs : s.vars.contains x = true
      · rw [if_pos hs, value?, List.findSome?_cons, Bindings.get?_set_self]
      · have hnone : s.vars.get? x = none := by
          simpa [Bindings.contains] using hs
        have hrest : hasVariable ⟨rest⟩ x = true := by
          simpa [hasVariable, value?, hnone] using hx
        rw [if_neg hs, value?, List.findSome?_cons, hnone]
        exact ih hrest

/-- What the scopes declare. -/
def frames (mem : Memory) : List Scope.Frame :=
  mem.scopes.map Scope.frame

theorem frames_assign (hx : mem.hasVariable x = true) (v : Literal) :
    (mem.assign x v).frames = mem.frames := by
  rw [assign, if_pos hx]
  exact Machine.map_frame_replace x v mem.scopes

theorem hasVariable_eq_of_frames {mem' : Memory} (h : mem'.frames = mem.frames)
    (x : String) : mem'.hasVariable x = mem.hasVariable x := by
  have hframe : Machine.frame ⟨mem', 0, []⟩ = Machine.frame ⟨mem, 0, []⟩ :=
    congrArg (Frame.mk · 0) h
  exact Machine.hasVariable_eq_of_frame hframe x

theorem function?_eq_of_frames {mem' : Memory} (h : mem'.frames = mem.frames)
    (f : String) : mem'.function? f = mem.function? f := by
  have hfunction (mem : Memory) :
      mem.function? f = mem.frames.findSome? fun s => s.funs.get? f := by
    rw [frames, List.findSome?_map]
    rfl
  rw [hfunction, hfunction, h]

/-! ## Runs inside a scope -/

/-- After `k` operations there comes an assignment of `v` to `x` that goes past
all scopes inside the outermost `d`. -/
def WritesOut (mem : Memory) (w : List Op) (d : Nat) (x : String) (v : Literal)
    (k : Nat) : Prop :=
  w[k]? = some (.assign x v) ∧ (mem.run (w.take k)).shadows d x = false

variable {w : List Op}

theorem run_take_succ {k : Nat} {op : Op} (h : w[k]? = some op) (mem : Memory) :
    mem.run (w.take (k + 1)) = op.apply (mem.run (w.take k)) := by
  rw [List.take_add_one, h, run, List.foldl_append]
  rfl

/-- While the outermost `d` scopes and one more are open, the `d` declare what
they did. -/
theorem frames_base_run (hstay : ∀ k ≤ w.length, d < (mem.run (w.take k)).depth)
    {k : Nat} (hk : k ≤ w.length) :
    ((mem.run (w.take k)).base d).frames = (mem.base d).frames := by
  induction k with
  | zero => rfl
  | succ k ih =>
      rw [run_take_succ (List.getElem?_eq_getElem hk), ← ih (Nat.le_of_lt hk)]
      rcases base_apply (hstay k (Nat.le_of_lt hk)) w[k] with hsame |
        ⟨x, v, -, -, hx, hassign⟩
      · rw [hsame]
      · rw [hassign, frames_assign hx]

/-- In the outermost `d` scopes a variable keeps its value up to the next
assignment that goes past the scopes inside them. -/
theorem value?_base_run (hstay : ∀ k ≤ w.length, d < (mem.run (w.take k)).depth)
    {j k : Nat} (hjk : j ≤ k) (hk : k ≤ w.length)
    (hno : ∀ v i, j ≤ i → ¬ mem.WritesOut w d x v i) :
    ((mem.run (w.take k)).base d).value? x =
      ((mem.run (w.take j)).base d).value? x := by
  induction hjk with
  | refl => rfl
  | @step k hjk ih =>
      have hop : w[k]? = some w[k] := List.getElem?_eq_getElem hk
      rw [run_take_succ hop, ← ih (Nat.le_of_lt hk)]
      rcases base_apply (hstay k (Nat.le_of_lt hk)) w[k] with
        hsame | ⟨y, v, hy, hshadow, hbound, hassign⟩
      · rw [hsame]
      · rw [hassign]
        refine value?_assign_of_ne ?_ hbound v
        rintro rfl
        exact hno v k hjk ⟨hop.trans (congrArg some hy), hshadow⟩

/-- And the last such assignment, if the variable is bound there, is what it
keeps. -/
theorem value?_base_run_of_last (hstay : ∀ k ≤ w.length,
      d < (mem.run (w.take k)).depth)
    (hbound : (mem.base d).hasVariable x = true) {k : Nat}
    (hwrite : mem.WritesOut w d x v k)
    (hlast : ∀ v' j, k < j → ¬ mem.WritesOut w d x v' j) :
    ((mem.run w).base d).value? x = some v := by
  obtain ⟨hop, hshadow⟩ := hwrite
  obtain ⟨hk, -⟩ := List.getElem?_eq_some_iff.1 hop
  have hdepth := hstay k (Nat.le_of_lt hk)
  have hthere : ((mem.run (w.take k)).base d).hasVariable x = true := by
    rw [hasVariable_eq_of_frames (frames_base_run hstay (Nat.le_of_lt hk)),
      hbound]
  have hrest :=
    value?_base_run hstay hk (Nat.le_refl _) fun v' j hj => hlast v' j hj
  rw [List.take_length] at hrest
  rw [hrest, run_take_succ hop]
  show (((mem.run (w.take k)).assign x v).base d).value? x = some v
  rw [base_assign hdepth, if_pos ⟨hshadow, hthere⟩, value?_assign_self hthere]

theorem hasVariable_iff_read {x : Ident} :
    mem.hasVariable x.text = true ↔ ∃ v, mem.read x = .ok v := by
  rw [hasVariable, read]
  cases mem.value? x.text <;> simp

theorem hasFunction_iff_find {f : Ident} :
    mem.hasFunction f.text = true ↔ ∃ decl, mem.find f = .ok decl := by
  rw [hasFunction, find]
  cases mem.function? f.text <;> simp

/-- The memory `mem` is back, after `w` has been carried out in a scope inside
it. -/
structure Restored (mem : Memory) (w : List Op) (mem' : Memory) : Prop where
  depth : mem'.depth = mem.depth
  hasVariable : ∀ x, mem'.hasVariable x = mem.hasVariable x
  find : ∀ f, mem'.find f = mem.find f
  /-- A variable has the value it had, unless it was bound and `w` has assigned
  to it from inside while nothing in there bound it. -/
  read : ∀ x : Ident, (mem.hasVariable x.text = true →
    ∀ v k, ¬ mem.enter.WritesOut w mem.depth x.text v k) →
    mem'.read x = mem.read x
  /-- Then it has the value that came last. -/
  read_written : ∀ (x : Ident) v k, mem.hasVariable x.text = true →
    mem.enter.WritesOut w mem.depth x.text v k →
    (∀ v' j, k < j → ¬ mem.enter.WritesOut w mem.depth x.text v' j) →
    mem'.read x = .ok v

theorem restored
    (hstay : ∀ k ≤ w.length, mem.depth < (mem.enter.run (w.take k)).depth)
    (hend : (mem.enter.run w).depth = mem.depth + 1) :
    mem.Restored w (mem.enter.run w).leave := by
  rw [leave_eq_base hend]
  have hframes : ((mem.enter.run w).base mem.depth).frames = mem.frames := by
    have hrun := frames_base_run hstay (Nat.le_refl _)
    rwa [List.take_length, base_enter] at hrun
  refine ⟨?_, hasVariable_eq_of_frames hframes, fun f => ?_, fun x hx => ?_,
    fun x v k hx hwrite hlast => ?_⟩
  · simpa [frames, Memory.depth] using congrArg List.length hframes
  · rw [Memory.find, function?_eq_of_frames hframes]
    rfl
  · have hvalue : ((mem.enter.run w).base mem.depth).value? x.text =
        mem.value? x.text := by
      by_cases hbound : mem.hasVariable x.text = true
      · have hrun :=
          value?_base_run hstay (Nat.zero_le _) (Nat.le_refl _)
            fun v k _ => hx hbound v k
        rw [List.take_length] at hrun
        exact hrun.trans (congrArg (value? · x.text) mem.base_enter)
      · have hafter : ¬ ((mem.enter.run w).base mem.depth).hasVariable x.text =
            true := by
          rwa [hasVariable_eq_of_frames hframes]
        rw [Option.not_isSome_iff_eq_none.1 hbound,
          Option.not_isSome_iff_eq_none.1 hafter]
    rw [Memory.read, hvalue]
    rfl
  · have hbound : (mem.enter.base mem.depth).hasVariable x.text = true := by
      rw [base_enter, hx]
    rw [Memory.read, value?_base_run_of_last hstay hbound hwrite hlast]

/-- Operations on a fresh memory, in whatever order, keep the stacks of
variables and functions level, and a name is bound just if it can be looked up.
A scope that is opened then and closed again, whatever is done inside, leaves
the memory it was opened in, except for the values of variables that have been
assigned to from inside past all scopes in there. -/
theorem leave_restores {ops : List Op} {mem : Memory} {s : Stacks}
    (hmem : fresh.run ops = mem) (hs : Stacks.fresh.run ops = s) :
    (s = mem.unzip ∧ s.vars.length = s.funs.length) ∧
    (∀ x : Ident, s.hasVariable x.text = mem.hasVariable x.text ∧
      (mem.hasVariable x.text = true ↔ ∃ v, mem.read x = .ok v)) ∧
    (∀ f : Ident, s.hasFunction f.text = mem.hasFunction f.text ∧
      (mem.hasFunction f.text = true ↔ ∃ decl, mem.find f = .ok decl)) ∧
    ∀ w, (∀ k ≤ w.length, mem.depth < (mem.enter.run (w.take k)).depth) →
      (mem.enter.run w).depth = mem.depth + 1 →
        mem.Restored w (mem.enter.run w).leave := by
  have hunzip : s = mem.unzip := by
    rw [← hs, ← hmem, unzip_run]
    rfl
  refine ⟨⟨hunzip, ?_⟩, fun x => ⟨?_, hasVariable_iff_read⟩,
    fun f => ⟨?_, hasFunction_iff_find⟩,
    fun w hstay hend => restored hstay hend⟩
  · simp [hunzip, unzip]
  · rw [hunzip, hasVariable_unzip]
  · rw [hunzip, hasFunction_unzip]

/-- One assignment from inside, before the name is bound there, and one after
it, with a function declared further in. -/
def shadowingOps : List Op :=
  [.assign "x" ⟨.int, "2", 3⟩, .bind "x" ⟨.int, "3", 4⟩,
    .assign "x" ⟨.int, "4", 5⟩, .enter, .declare ⟨⟨"f", 6⟩, [], []⟩, .leave]

/-- The global scope is closed, and once more with none left, so that binding a
variable opens one. In a scope inside, the first assignment reaches this
variable and the second does not. -/
theorem leave_restores_shadowingOps :
    ∃ mem s, fresh.run [.leave, .leave, .bind "x" ⟨.int, "1", 1⟩] = mem ∧
      Stacks.fresh.run [.leave, .leave, .bind "x" ⟨.int, "1", 1⟩] = s ∧
      s.vars.length = s.funs.length ∧
      (∀ k ≤ shadowingOps.length,
        mem.depth < (mem.enter.run (shadowingOps.take k)).depth) ∧
      (mem.enter.run shadowingOps).depth = mem.depth + 1 ∧
      mem.read ⟨"x", 7⟩ = .ok ⟨.int, "1", 1⟩ ∧
      (mem.enter.run shadowingOps).leave.read ⟨"x", 7⟩ = .ok ⟨.int, "2", 3⟩ ∧
      (mem.enter.run shadowingOps).leave.find ⟨"f", 8⟩ = mem.find ⟨"f", 8⟩ := by
  obtain ⟨mem, s, hmem, hs, hstay, hend, hread, hbound, hwrite, hlast⟩ :
      ∃ mem s,
      fresh.run [.leave, .leave, .bind "x" ⟨.int, "1", 1⟩] = mem ∧
      Stacks.fresh.run [.leave, .leave, .bind "x" ⟨.int, "1", 1⟩] = s ∧
      (∀ k ≤ shadowingOps.length,
        mem.depth < (mem.enter.run (shadowingOps.take k)).depth) ∧
      (mem.enter.run shadowingOps).depth = mem.depth + 1 ∧
      mem.read ⟨"x", 7⟩ = .ok ⟨.int, "1", 1⟩ ∧ mem.hasVariable "x" = true ∧
      mem.enter.WritesOut shadowingOps mem.depth "x" ⟨.int, "2", 3⟩ 0 ∧
      ∀ v j, 0 < j → ¬ mem.enter.WritesOut shadowingOps mem.depth "x" v j := by
    refine ⟨_, _, rfl, rfl, by decide, rfl, rfl, rfl, ⟨rfl, rfl⟩, ?_⟩
    rintro v j hj ⟨hop, hshadow⟩
    match j, hj with
    | 2, _ => cases hshadow
    | 1, _ | 3, _ | 4, _ | 5, _ | _ + 6, _ => cases hop
  obtain ⟨⟨-, hlevel⟩, -, -, hrestored⟩ := leave_restores hmem hs
  have hback := hrestored shadowingOps hstay hend
  exact ⟨mem, s, hmem, hs, hlevel, hstay, hend, hread,
    hback.read_written ⟨"x", 7⟩ _ 0 hbound hwrite hlast, hback.find ⟨"f", 8⟩⟩

end Memory

end Quill
