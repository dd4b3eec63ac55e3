import Quill.Proofs.Frame

/-!
# Sessions

A session runs statements one after the other on a machine that begins fresh,
each of them whatever became of the ones before it. Its log holds the
statements with their results. Between two statements a session is always at
the top level, and its global names can be read off the log: they are the names
of the declarations in it that succeeded, in that order.
-/

namespace Quill

/-- A statement that has been run, with its result. -/
abbrev Entry := Stmt × Except RuntimeError (Option Literal)

/-- The variable that the statement has declared, if it has. -/
def Entry.var? : Entry → Option String
  | (.declare _ x _, .ok _) => some x.text
  | _ => none

/-- The function that the statement has declared, if it has. -/
def Entry.function? : Entry → Option (String × FunDecl)
  | (.function f params body, .ok _) => some (f.text, ⟨f, params, body⟩)
  | _ => none

/-- The machines that sessions reach, with the log of what they have run. The
bounds of the runs may change from one statement to the next. -/
inductive Session : List Entry → Machine → Prop
  | fresh : Session [] .fresh
  | run {log : List Entry} {m m' : Machine} {limit : Option Nat}
      {n : Nat} {s : Stmt} {r : Except RuntimeError (Option Literal)} :
      Session log m → execStmt limit n s m = .ended r m' →
        Session (log ++ [(s, r)]) m'

namespace Session

variable {log : List Entry} {m m' : Machine}

/-- The frame with one scope, which declares `vars` and `funs`, outside every
call. -/
def topLevel (vars : List String) (funs : Bindings FunDecl) : Frame :=
  ⟨[⟨vars, funs⟩], 0⟩

theorem after_topLevel (vars : List String) (funs : Bindings FunDecl) (s : Stmt)
    (r : Except RuntimeError (Option Literal)) :
    (topLevel vars funs).after s r =
      topLevel (vars ++ [(s, r)].filterMap Entry.var?)
        (funs ++ [(s, r)].filterMap Entry.function?) := by
  cases r with
  | error e =>
      have hvar : [(s, .error e)].filterMap Entry.var? =
          [] := by cases s <;> rfl
      have hfunction : [(s, .error e)].filterMap Entry.function? =
          [] := by cases s <;> rfl
      rw [hvar, hfunction, List.append_nil, List.append_nil]
      cases s <;> rfl
  | ok v =>
      cases s with
      | declare ty x init =>
          show _ = topLevel (vars ++ [x.text]) (funs ++ [])
          rw [List.append_nil]
          rfl
      | function f params body =>
          show _ = topLevel (vars ++ []) (funs ++ [(f.text, ⟨f, params, body⟩)])
          rw [List.append_nil]
          rfl
      | _ =>
          show _ = topLevel (vars ++ []) (funs ++ [])
          rw [List.append_nil, List.append_nil]
          rfl

theorem frame_eq (h : Session log m) :
    m.frame =
      topLevel (log.filterMap Entry.var?) (log.filterMap Entry.function?) := by
  induction h with
  | fresh => rfl
  | @run log m m' limit n s r _ hs ih =>
      have hdepth : 0 < m.memory.depth := by
        rw [← m.length_frame_scopes, ih]
        exact Nat.one_pos
      rw [(balanced limit n).stmt s hdepth r m' hs, ih, after_topLevel,
        List.filterMap_append, List.filterMap_append]

theorem globals (h : Session log m) :
    m.memory.depth = 1 ∧ m.calls = 0 ∧ ∃ globals, m.memory.scopes = [globals] ∧
      globals.vars.names = log.filterMap Entry.var? ∧
      globals.funs = log.filterMap Entry.function? := by
  obtain ⟨hscopes, hcalls⟩ := Frame.mk.inj h.frame_eq
  obtain ⟨globals, rest, hm, hglobals, hrest⟩ := List.map_eq_cons_iff.1 hscopes
  obtain rfl := List.map_eq_nil_iff.1 hrest
  obtain ⟨hvars, hfuns⟩ := Scope.Frame.mk.inj hglobals
  refine ⟨?_, hcalls, globals, hm, hvars, hfuns⟩
  rw [Memory.depth, hm]
  rfl

/-- A program is run as a session would run its statements, up to the first that
fails. -/
theorem runProgram {limit : Option Nat} {n : Nat} {p : List Stmt}
    {r : Except RuntimeError Unit} (h : Session log m)
    (hp : runProgram limit n p m = .ended r m') :
    ∃ done, Session (log ++ done) m' ∧ done.map Prod.fst <+: p ∧
      (r = .ok () → done.map Prod.fst = p) := by
  induction p generalizing log m with
  | nil =>
      cases hp
      exact ⟨[], by rwa [List.append_nil], List.nil_prefix, fun _ => rfl⟩
  | cons s rest ih =>
      rcases Outcome.andThen_eq_ended_iff.1 hp with ⟨v, m₁, hs, hrest⟩ |
        ⟨e, hs, rfl⟩
      · obtain ⟨done, hdone, hprefix, hall⟩ := ih (h.run hs) hrest
        rw [List.append_assoc] at hdone
        refine ⟨(s, .ok v) :: done, hdone, ?_, fun hr => ?_⟩
        · exact List.cons_prefix_cons.2 ⟨rfl, hprefix⟩
        · rw [List.map_cons, hall hr]
      · refine ⟨[(s, .error e)], h.run hs, ?_, nofun⟩
        exact List.cons_prefix_cons.2 ⟨rfl, List.nil_prefix⟩

end Session

theorem not_hasVariable_of_declare {limit : Option Nat} {n : Nat}
    {ty : TypeName} {x : Ident} {init : Expr} {v : Option Literal}
    {m m' : Machine}
    (h : execStmt limit n (.declare ty x init) m = .ended (.ok v) m') :
    m.memory.hasVariable x.text = false := by
  cases n with
  | zero => cases h
  | succ n =>
      simp only [execStmt] at h
      split at h
      · cases h
      · next hx => exact Bool.eq_false_iff.2 hx

theorem not_hasFunction_of_function {limit : Option Nat} {n : Nat} {f : Ident}
    {params : List Param} {body : List Stmt} {v : Option Literal}
    {m m' : Machine}
    (h : execStmt limit n (.function f params body) m = .ended (.ok v) m') :
    m.memory.hasFunction f.text = false := by
  cases n with
  | zero => cases h
  | succ n =>
      simp only [execStmt] at h
      split at h
      · cases h
      · next hf =>
          simp only [Bool.or_eq_true, not_or, Bool.not_eq_true] at hf
          exact hf.1

/-- Runs are balanced, whether they end with a value or with an error.
Expressions, calls and blocks keep the frame: the same scopes are open with the
same variables and functions, and as many calls are running. So does a
statement, but for the one new name that a successful declaration adds to the
innermost scope. Hence a session is always at the top level with the names of
its successful declarations, and so is one that runs whole programs. -/
theorem frames_balanced :
    (∀ (limit : Option Nat) (n : Nat) (m : Machine), 0 < m.memory.depth →
      (∀ e r m', evalExpr limit n e m = .ended r m' → m'.frame = m.frame) ∧
      (∀ f args r m', evalCall limit n f args m = .ended r m' →
        m'.frame = m.frame) ∧
      (∀ bindings body r m',
        m.inScope bindings (execBody limit n body) = .ended r m' →
          m'.frame = m.frame) ∧
      (∀ s r m', execStmt limit n s m = .ended r m' →
        m'.memory.depth = m.memory.depth ∧ m'.calls = m.calls ∧
          m'.frame = m.frame.after s r) ∧
      (∀ ty x init v m',
        execStmt limit n (.declare ty x init) m = .ended (.ok v) m' →
        m.memory.hasVariable x.text = false) ∧
      (∀ f params body v m',
        execStmt limit n (.function f params body) m = .ended (.ok v) m' →
        m.memory.hasFunction f.text = false)) ∧
    (∀ log m, Session log m →
      m.memory.depth = 1 ∧ m.calls = 0 ∧ ∃ globals,
        m.memory.scopes = [globals] ∧
        globals.vars.names = log.filterMap Entry.var? ∧
        globals.funs = log.filterMap Entry.function?) ∧
    (∀ log m limit n p r m', Session log m →
      runProgram limit n p m = .ended r m' →
      ∃ done, Session (log ++ done) m' ∧ done.map Prod.fst <+: p ∧
        (r = .ok () → done.map Prod.fst = p)) := by
  refine ⟨fun limit n m hm => ?_, fun log m h => h.globals,
    fun _ _ _ _ _ _ _ h => h.runProgram⟩
  have h := balanced limit n
  refine ⟨fun e => h.expr e rfl, fun f args => h.call f args rfl,
    fun bindings body => h.inScope bindings body rfl, fun s r m' hs => ?_,
    fun ty x init v m' hs => ?_, fun f params body v m' hs => ?_⟩
  · have hframe := h.stmt s hm r m' hs
    exact ⟨Machine.depth_of_frame_after hframe,
      Machine.calls_of_frame_after hframe, hframe⟩
  · exact not_hasVariable_of_declare hs
  · exact not_hasFunction_of_function hs

/-- A loop whose body fails, in a scope of its own that has declared a
variable. -/
theorem frames_balanced_failed_loop :
    ∃ m', execStmt none 9
        (.loop (.literal ⟨.bool true, "true", 1⟩)
          [.declare ⟨.int, "int", 2⟩ ⟨"x", 2⟩ (.literal ⟨.int, "1", 2⟩),
            .call ⟨"g", 3⟩ []])
        .fresh = .ended (.error ⟨.undeclaredFunction, 3, some "g"⟩) m' ∧
      m'.memory.depth = 1 ∧ m'.calls = 0 ∧ m'.frame = Machine.fresh.frame := by
  obtain ⟨m', hrun⟩ : ∃ m', execStmt none 9
      (.loop (.literal ⟨.bool true, "true", 1⟩)
        [.declare ⟨.int, "int", 2⟩ ⟨"x", 2⟩ (.literal ⟨.int, "1", 2⟩),
          .call ⟨"g", 3⟩ []])
      .fresh = .ended (.error ⟨.undeclaredFunction, 3, some "g"⟩) m' := ⟨_, rfl⟩
  exact ⟨m', hrun,
    (frames_balanced.1 none 9 .fresh Nat.one_pos).2.2.2.1 _ _ _ hrun⟩

end Quill
