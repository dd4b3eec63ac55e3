import Quill.Eval

/-!
# Runs keep the frame of the machine

The frame of a machine is what declarations make: which scopes are open, the
names of the variables of each, its functions, and how many calls are running.
Assignments change the values of variables and leave the frame as it is, and
every scope that a run opens it closes, however it ends. So expressions, calls
and blocks keep the frame, and a statement keeps it but for the one name that a
successful declaration adds.

All of it is one induction on the budget: `Balanced` says what every function
of the evaluator does to the frame under a budget, and each function under one
unit more calls the others under that budget.
-/

namespace Quill

/-! ## How runs can end -/

namespace Outcome

variable {α β : Type} {P : Except RuntimeError α → Machine → Prop}
  {Q : Except RuntimeError β → Machine → Prop}

/-- Every way in which the run can end, with a value or an error, satisfies
`P`. -/
def Ends (o : Outcome α) (P : Except RuntimeError α → Machine → Prop) : Prop :=
  ∀ r m, o = .ended r m → P r m

theorem ends_spent : (Outcome.spent : Outcome α).Ends P :=
  nofun

theorem ends_ended {r : Except RuntimeError α} {m : Machine} (h : P r m) :
    (Outcome.ended r m).Ends P := by
  intro r' m' he
  cases he
  exact h

theorem Ends.andThen {o : Outcome α} {f : α → Machine → Outcome β}
    (ho : o.Ends P) (herror : ∀ e m, P (.error e) m → Q (.error e) m)
    (hf : ∀ a m, P (.ok a) m → (f a m).Ends Q) : (o.andThen f).Ends Q := by
  intro r m h
  rcases andThen_eq_ended_iff.1 h with ⟨a, m₁, ha, hr⟩ | ⟨e, he, rfl⟩
  · exact hf a m₁ (ho _ _ ha) r m hr
  · exact herror e m (ho _ _ he)

theorem Ends.atEnd {o : Outcome α} {f : Machine → Machine}
    {Q : Except RuntimeError α → Machine → Prop} (ho : o.Ends P)
    (hf : ∀ r m, P r m → Q r (f m)) : (o.atEnd f).Ends Q := by
  intro r m h
  obtain ⟨m₁, hm₁, rfl⟩ := atEnd_eq_ended_iff.1 h
  exact hf r m₁ (ho _ _ hm₁)

end Outcome

/-! ## Bindings and their names -/

namespace Bindings

variable {α : Type}

theorem contains_iff_mem_names {b : Bindings α} {x : String} :
    b.contains x = true ↔ x ∈ b.names := by
  induction b with
  | nil => simp [contains, get?, names]
  | cons p b ih =>
      by_cases h : p.1 = x
      · simp [contains, get?, names, h]
      · simp only [contains, names] at ih
        simp [contains, get?, names, h, Ne.symm h, ih]

theorem set_of_not_contains {b : Bindings α} {x : String}
    (h : b.contains x = false) (v : α) : b.set x v = b ++ [(x, v)] := by
  induction b with
  | nil => rfl
  | cons p b ih =>
      by_cases hx : p.1 = x
      · simp [contains, get?, hx] at h
      · have hb : contains b x = false := by simpa [contains, get?, hx] using h
        rw [set, if_neg hx, ih hb]
        rfl

end Bindings

namespace Memory

theorem hasVariable_iff {m : Memory} {x : String} :
    m.hasVariable x = true ↔ ∃ s ∈ m.scopes, s.vars.contains x = true :=
  List.findSome?_isSome_iff

theorem hasFunction_iff {m : Memory} {f : String} :
    m.hasFunction f = true ↔ ∃ s ∈ m.scopes, s.funs.contains f = true :=
  List.findSome?_isSome_iff

end Memory

/-! ## Frames -/

/-- What a scope declares. -/
structure Scope.Frame where
  vars : List String
  funs : Bindings FunDecl

def Scope.frame (s : Scope) : Scope.Frame :=
  ⟨s.vars.names, s.funs⟩

/-- What the open scopes declare, the innermost first, and how many calls are
running. -/
structure Frame where
  scopes : List Scope.Frame
  calls : Nat

def Machine.frame (m : Machine) : Frame :=
  ⟨m.memory.scopes.map Scope.frame, m.calls⟩

namespace Frame

def onInnermost (fr : Frame) (change : Scope.Frame → Scope.Frame) : Frame :=
  ⟨fr.scopes.modifyHead change, fr.calls⟩

/-- The frame with one more variable in its innermost scope. -/
def addVar (fr : Frame) (x : String) : Frame :=
  fr.onInnermost fun s => { s with vars := s.vars ++ [x] }

/-- The frame with one more function in its innermost scope. -/
def addFun (fr : Frame) (f : FunDecl) : Frame :=
  fr.onInnermost fun s => { s with funs := s.funs ++ [(f.name.text, f)] }

/-- What a statement that ends with `r` makes of the frame: a declaration that
succeeds adds its name, and nothing else changes it. -/
def after (fr : Frame) : Stmt → Except RuntimeError (Option Literal) → Frame
  | .declare _ x _, .ok _ => fr.addVar x.text
  | .function f params body, .ok _ => fr.addFun ⟨f, params, body⟩
  | _, _ => fr

/-- The frame around the innermost scope. -/
def outer (fr : Frame) : Frame :=
  ⟨fr.scopes.tail, fr.calls⟩

theorem outer_onInnermost (fr : Frame) (change : Scope.Frame → Scope.Frame) :
    (fr.onInnermost change).outer = fr.outer := by
  simp [onInnermost, outer]

theorem length_onInnermost (fr : Frame) (change : Scope.Frame → Scope.Frame) :
    (fr.onInnermost change).scopes.length = fr.scopes.length := by
  simp [onInnermost]

theorem outer_after (fr : Frame) (s : Stmt)
    (r : Except RuntimeError (Option Literal)) :
    (fr.after s r).outer = fr.outer := by
  unfold after
  split
  · exact outer_onInnermost ..
  · exact outer_onInnermost ..
  · rfl

theorem length_after (fr : Frame) (s : Stmt)
    (r : Except RuntimeError (Option Literal)) :
    (fr.after s r).scopes.length = fr.scopes.length := by
  unfold after
  split
  · exact length_onInnermost ..
  · exact length_onInnermost ..
  · rfl

theorem calls_after (fr : Frame) (s : Stmt)
    (r : Except RuntimeError (Option Literal)) :
    (fr.after s r).calls = fr.calls := by
  unfold after
  split <;> rfl

end Frame

/-! ## What the machine's operations do to the frame -/

namespace Machine

theorem length_frame_scopes (m : Machine) :
    m.frame.scopes.length = m.memory.depth :=
  List.length_map ..

theorem depth_eq_of_frame {m m' : Machine} (h : m'.frame = m.frame) :
    m'.memory.depth = m.memory.depth := by
  rw [← length_frame_scopes, ← length_frame_scopes, h]

theorem depth_of_frame_after {m m' : Machine} {s : Stmt}
    {r : Except RuntimeError (Option Literal)}
    (h : m'.frame = m.frame.after s r) : m'.memory.depth = m.memory.depth := by
  rw [← length_frame_scopes, ← length_frame_scopes, h, Frame.length_after]

theorem calls_of_frame_after {m m' : Machine} {s : Stmt}
    {r : Except RuntimeError (Option Literal)}
    (h : m'.frame = m.frame.after s r) : m'.calls = m.calls :=
  (congrArg Frame.calls h).trans (Frame.calls_after ..)

theorem frame_leave (m : Machine) : m.leave.frame = m.frame.outer := by
  simp [frame, leave, Memory.leave, Frame.outer, List.map_tail]

theorem frame_print (m : Machine) (text : String) :
    (m.print text).frame = m.frame :=
  rfl

theorem hasVariable_iff_frame {m : Machine} {x : String} :
    m.memory.hasVariable x = true ↔ ∃ s ∈ m.frame.scopes, x ∈ s.vars := by
  rw [Memory.hasVariable_iff]
  constructor
  · rintro ⟨s, hs, hx⟩
    exact ⟨s.frame, List.mem_map_of_mem hs,
      Bindings.contains_iff_mem_names.1 hx⟩
  · rintro ⟨_, hframe, hx⟩
    obtain ⟨s, hs, rfl⟩ := List.mem_map.1 hframe
    exact ⟨s, hs, Bindings.contains_iff_mem_names.2 hx⟩

theorem hasVariable_eq_of_frame {m m' : Machine} (h : m'.frame = m.frame)
    (x : String) : m'.memory.hasVariable x = m.memory.hasVariable x := by
  rw [Bool.eq_iff_iff, hasVariable_iff_frame, hasVariable_iff_frame, h]

theorem map_frame_replace (x : String) (v : Literal) (scopes : List Scope) :
    (Memory.replace x v scopes).map Scope.frame = scopes.map Scope.frame := by
  induction scopes with
  | nil => rfl
  | cons s rest ih =>
      rw [Memory.replace]
      split
      · next hx =>
          -- the name is there already, so setting it adds none
          simp [Scope.frame, Bindings.names_set, hx]
      · rw [List.map_cons, ih, List.map_cons]

theorem frame_assign_of_hasVariable {m : Machine} {x : String}
    (h : m.memory.hasVariable x = true) (v : Literal) :
    (m.assign x v).frame = m.frame := by
  simp only [frame, assign, Memory.assign, if_pos h, map_frame_replace]

theorem frame_assign_of_not_hasVariable {m : Machine} {x : String}
    (h : m.memory.hasVariable x = false) (hm : 0 < m.memory.depth)
    (v : Literal) : (m.assign x v).frame = m.frame.addVar x := by
  obtain ⟨⟨scopes⟩, calls, printed⟩ := m
  cases scopes with
  | nil => exact absurd hm (Nat.lt_irrefl 0)
  | cons s rest =>
      have hs : s.vars.contains x = false := by
        rw [← Bool.not_eq_true] at h ⊢
        exact fun hc =>
          h (Memory.hasVariable_iff.2 ⟨s, List.mem_cons_self .., hc⟩)
      simp [frame, assign, Memory.assign, h, Memory.bind, Memory.inInnermost,
        Frame.addVar, Frame.onInnermost, Scope.frame, Bindings.names_set, hs]

theorem frame_declare {m : Machine} {f : FunDecl}
    (h : m.memory.hasFunction f.name.text = false) (hm : 0 < m.memory.depth) :
    (m.declare f).frame = m.frame.addFun f := by
  obtain ⟨⟨scopes⟩, calls, printed⟩ := m
  cases scopes with
  | nil => exact absurd hm (Nat.lt_irrefl 0)
  | cons s rest =>
      have hs : s.funs.contains f.name.text = false := by
        rw [← Bool.not_eq_true] at h ⊢
        exact fun hc =>
          h (Memory.hasFunction_iff.2 ⟨s, List.mem_cons_self .., hc⟩)
      simp [frame, declare, Memory.declare, Memory.inInnermost, Frame.addFun,
        Frame.onInnermost, Scope.frame, Bindings.set_of_not_contains hs]

/-- Opening a scope, with whatever bindings, puts one scope in front of those
there. -/
theorem exists_scopes_enter (m : Machine) (bindings : Bindings Literal) :
    ∃ s, (m.enter bindings).memory.scopes = s :: m.memory.scopes := by
  refine List.foldlRecOn (motive := fun mem : Memory => ∃ s,
    mem.scopes = s :: m.memory.scopes) bindings _ ⟨.empty, rfl⟩ ?_
  rintro mem ⟨s, hs⟩ ⟨x, v⟩ -
  refine ⟨{ s with vars := s.vars.set x v }, ?_⟩
  simp [Memory.bind, Memory.inInnermost, hs]

theorem depth_enter_pos (m : Machine) (bindings : Bindings Literal) :
    0 < (m.enter bindings).memory.depth := by
  obtain ⟨s, hs⟩ := m.exists_scopes_enter bindings
  simp [Memory.depth, hs]

theorem outer_frame_enter (m : Machine) (bindings : Bindings Literal) :
    (m.enter bindings).frame.outer = m.frame := by
  obtain ⟨s, hs⟩ := m.exists_scopes_enter bindings
  simp only [frame, hs, Frame.outer, List.map_cons, List.tail_cons]
  rfl

theorem frame_endCall {m m' : Machine} (h : m'.frame = m.beginCall.frame) :
    m'.endCall.frame = m.frame := by
  obtain ⟨hscopes, hcalls⟩ := Frame.mk.inj h
  simp only [frame, endCall, hscopes, hcalls]
  rfl

end Machine

/-! ## One unit of the budget -/

/-- The run leaves a machine with the frame `fr`, however it ends. -/
def Outcome.Keeps {α : Type} (o : Outcome α) (fr : Frame) : Prop :=
  o.Ends fun _ m => m.frame = fr

theorem Outcome.Keeps.andThen {α β : Type} {o : Outcome α}
    {f : α → Machine → Outcome β} {fr : Frame} (ho : o.Keeps fr)
    (hf : ∀ a m, m.frame = fr → (f a m).Keeps fr) : (o.andThen f).Keeps fr :=
  Ends.andThen ho (fun _ _ h => h) hf

theorem Outcome.keeps_ended {α : Type} {r : Except RuntimeError α} {m : Machine}
    {fr : Frame} (h : m.frame = fr) : (Outcome.ended r m).Keeps fr :=
  ends_ended h

/-- What running under the budget `n` does to the frame. Only statements and the
bodies of blocks, which run in the scope they find, need one to be open. -/
structure Balanced (limit : Option Nat) (n : Nat) : Prop where
  expr : ∀ {fr : Frame} (e : Expr) {m : Machine}, m.frame = fr →
    (evalExpr limit n e m).Keeps fr
  args : ∀ {fr : Frame} (es : List Expr) {m : Machine}, m.frame = fr →
    (evalArgs limit n es m).Keeps fr
  call : ∀ {fr : Frame} (f : Ident) (es : List Expr) {m : Machine},
    m.frame = fr →
    (evalCall limit n f es m).Keeps fr
  stmt : ∀ (s : Stmt) {m : Machine}, 0 < m.memory.depth →
    (execStmt limit n s m).Ends fun r m' => m'.frame = m.frame.after s r
  branch : ∀ {fr : Frame} (c : Expr) (body : List Stmt) (next : ElseChain)
    {m : Machine}, m.frame = fr → (execBranch limit n c body next m).Keeps fr
  loop : ∀ {fr : Frame} (c : Expr) (body : List Stmt) {m : Machine},
    m.frame = fr →
    (execLoop limit n c body m).Keeps fr
  body : ∀ {fr : Frame} (body : List Stmt) {m : Machine}, 0 < m.memory.depth →
    m.frame.outer = fr → (execBody limit n body m).Ends fun _ m' =>
      m'.frame.outer = fr

namespace Balanced

open Outcome

variable {limit : Option Nat} {n : Nat} {fr : Frame}

theorem inScope (h : Balanced limit n) (bindings : Bindings Literal)
    (body : List Stmt) {m : Machine} (hm : m.frame = fr) :
    (m.inScope bindings (execBody limit n body)).Keeps fr := by
  have hbody :=
    h.body body (m.depth_enter_pos bindings) (m.outer_frame_enter bindings)
  exact hbody.atEnd fun r m' hm' => by rw [m'.frame_leave, hm', hm]

theorem evalExpr_succ (h : Balanced limit n) (e : Expr) {m : Machine}
    (hm : m.frame = fr) : (evalExpr limit (n + 1) e m).Keeps fr := by
  cases e with
  | literal v => exact keeps_ended hm
  | var x => exact keeps_ended hm
  | binary op l r =>
      simp only [evalExpr]
      refine (h.expr l hm).andThen fun a m hm => ?_
      refine (h.expr r hm).andThen fun b m hm => ?_
      exact keeps_ended hm
  | call f es =>
      simp only [evalExpr]
      refine (h.call f es hm).andThen fun v m hm => ?_
      cases v with
      | none => exact keeps_ended hm
      | some v => exact keeps_ended hm

theorem evalArgs_succ (h : Balanced limit n) (es : List Expr) {m : Machine}
    (hm : m.frame = fr) : (evalArgs limit (n + 1) es m).Keeps fr := by
  cases es with
  | nil => exact keeps_ended hm
  | cons e es =>
      simp only [evalArgs]
      refine (h.expr e hm).andThen fun v m hm => ?_
      refine (h.args es hm).andThen fun vs m hm => ?_
      exact keeps_ended hm

theorem runBuiltin_keeps (b : Builtin) (f : Ident) (vs : List Literal)
    {m : Machine} (hm : m.frame = fr) : (runBuiltin b f vs m).Keeps fr := by
  unfold runBuiltin
  split
  · exact keeps_ended hm
  · next text _ => exact keeps_ended ((m.frame_print text).trans hm)
  · exact keeps_ended hm

theorem evalCall_succ (h : Balanced limit n) (f : Ident) (es : List Expr)
    {m : Machine} (hm : m.frame = fr) :
    (evalCall limit (n + 1) f es m).Keeps fr := by
  simp only [evalCall]
  split
  · next b _ =>
      exact (h.args es hm).andThen fun vs m hm => runBuiltin_keeps b f vs hm
  · split
    · exact keeps_ended hm
    · next decl _ =>
        split
        · exact keeps_ended hm
        · split
          · exact keeps_ended hm
          · refine (h.args es hm).andThen fun vs m hm => ?_
            refine (h.inScope _ decl.body rfl).atEnd fun r m' hm' => ?_
            rw [Machine.frame_endCall hm', hm]

theorem execBranch_succ (h : Balanced limit n) (c : Expr) (body : List Stmt)
    (next : ElseChain) {m : Machine} (hm : m.frame = fr) :
    (execBranch limit (n + 1) c body next m).Keeps fr := by
  simp only [execBranch]
  refine (h.expr c hm).andThen fun v m hm => ?_
  split
  · exact h.inScope [] body hm
  · cases next with
    | none => exact keeps_ended hm
    | elseIf c body next => exact h.branch c body next hm
    | otherwise body => exact h.inScope [] body hm

theorem execLoop_succ (h : Balanced limit n) (c : Expr) (body : List Stmt)
    {m : Machine} (hm : m.frame = fr) :
    (execLoop limit (n + 1) c body m).Keeps fr := by
  simp only [execLoop]
  refine (h.expr c hm).andThen fun v m hm => ?_
  split
  · refine (h.inScope [] body hm).andThen fun v m hm => ?_
    cases v with
    | none => exact h.loop c body hm
    | some v => exact keeps_ended hm
  · exact keeps_ended hm

/-- A declaration: the initial value is computed before the name is bound, and
computing it binds no name, so the name is still new. -/
theorem execStmt_declare (h : Balanced limit n) (ty : TypeName) (x : Ident)
    (init : Expr) {m : Machine} (hdepth : 0 < m.memory.depth) :
    (execStmt limit (n + 1) (.declare ty x init) m).Ends fun r m' =>
      m'.frame = m.frame.after (.declare ty x init) r := by
  simp only [execStmt]
  split
  · exact ends_ended rfl
  · next hx =>
      refine Ends.andThen (h.expr init rfl) (fun e m' hm' => hm')
        fun v m' hm' => ?_
      split
      · have hx' : m'.memory.hasVariable x.text = false := by
          rw [Machine.hasVariable_eq_of_frame hm', Bool.eq_false_iff]
          exact hx
        have hdepth' : 0 < m'.memory.depth := by
          rw [Machine.depth_eq_of_frame hm']
          exact hdepth
        apply ends_ended
        rw [Machine.frame_assign_of_not_hasVariable hx' hdepth', hm']
        rfl
      · exact ends_ended hm'

theorem execStmt_function (f : Ident) (params : List Param) (body : List Stmt)
    {m : Machine} (hdepth : 0 < m.memory.depth) :
    (execStmt limit (n + 1) (.function f params body) m).Ends fun r m' =>
      m'.frame = m.frame.after (.function f params body) r := by
  simp only [execStmt]
  split
  · exact ends_ended rfl
  · next hf =>
      have hf : m.memory.hasFunction f.text = false := by
        simp only [Bool.or_eq_true, not_or, Bool.not_eq_true] at hf
        exact hf.1
      exact ends_ended (Machine.frame_declare hf hdepth)

theorem execStmt_assign (h : Balanced limit n) (x : Ident) (value : Expr)
    {m : Machine} :
    (execStmt limit (n + 1) (.assign x value) m).Ends fun r m' =>
      m'.frame = m.frame.after (.assign x value) r := by
  simp only [execStmt]
  split
  · next hx =>
      refine (h.expr value rfl).andThen fun v m' hm' => ?_
      have hx' : m'.memory.hasVariable x.text = true := by
        rw [Machine.hasVariable_eq_of_frame hm', hx]
      exact keeps_ended ((Machine.frame_assign_of_hasVariable hx' v).trans hm')
  · exact ends_ended rfl

theorem execStmt_succ (h : Balanced limit n) (s : Stmt) {m : Machine}
    (hdepth : 0 < m.memory.depth) :
    (execStmt limit (n + 1) s m).Ends fun r m' => m'.frame =
      m.frame.after s r := by
  cases s with
  | declare ty x init => exact h.execStmt_declare ty x init hdepth
  | function f params body => exact execStmt_function f params body hdepth
  | assign x value => exact h.execStmt_assign x value
  | ret line value => exact ends_ended rfl
  | cond c body next => exact h.branch c body next rfl
  | loop c body => exact h.loop c body rfl
  | call f es => exact h.call f es rfl

theorem execBody_succ (h : Balanced limit n) (body : List Stmt) {m : Machine}
    (hdepth : 0 < m.memory.depth) (hm : m.frame.outer = fr) :
    (execBody limit (n + 1) body m).Ends fun _ m' => m'.frame.outer = fr := by
  simp only [execBody]
  split
  · exact ends_ended hm
  · exact ends_ended hm
  · next e _ =>
      refine Ends.andThen (h.expr e rfl) (fun _ m' hm' => ?_) fun v m' hm' =>
        ends_ended ?_
      · rw [hm', hm]
      · rw [hm', hm]
  · next s rest _ _ =>
      refine Ends.andThen (h.stmt s hdepth) (fun _ m' hm' => ?_)
        fun v m' hm' => ?_
      · rw [hm', Frame.outer_after, hm]
      · have houter : m'.frame.outer = fr := by rw [hm', Frame.outer_after, hm]
        cases v with
        | some v => exact ends_ended houter
        | none =>
            refine h.body rest ?_ houter
            rw [Machine.depth_of_frame_after hm']
            exact hdepth

end Balanced

theorem balanced (limit : Option Nat) (n : Nat) : Balanced limit n := by
  induction n with
  | zero =>
      constructor
      all_goals intros
      all_goals exact Outcome.ends_spent
  | succ n ih =>
      exact ⟨ih.evalExpr_succ, ih.evalArgs_succ, ih.evalCall_succ,
        ih.execStmt_succ, ih.execBranch_succ, ih.execLoop_succ,
        ih.execBody_succ⟩

end Quill
