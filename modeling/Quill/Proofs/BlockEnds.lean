import Quill.Proofs.Plan

/-!
# What ends a block

A block ends where its statements end, at a `return`, or with a value that one
of its statements yields. The first two are a matter of the text alone: what
stands behind a `return` plays no part, and a `return` without a value might as
well be the end.

The third one is not, since a value is handed up through conditionals, loops and
blocks as far as it goes. But it has to come from somewhere, and there are two
places: a `return` with a value, and a call that is a statement, because it
yields what the function does. Calls in expressions are not among them. Whatever
happens inside, their values go into the expression, and so a block that has
none of the two in its own text yields nothing, whatever branches it takes and
however often its loops go round.
-/

namespace Quill

/-! ## What stands behind a `return` -/

section

variable {limit : Option Nat}

/-- The statements of a body matter for what comes before only as far as they
run. -/
theorem execBody_cons_congr {rest rest' : List Stmt}
    (h : ∀ n m, execBody limit n rest m = execBody limit n rest' m)
    (s : Stmt) (n : Nat) (m : Machine) :
    execBody limit n (s :: rest) m = execBody limit n (s :: rest') m := by
  cases n with
  | zero => rfl
  | succ n =>
      cases s with
      | ret line value => cases value <;> rfl
      | _ =>
          simp only [execBody]
          refine Outcome.andThen_congr _ fun v m => ?_
          cases v with
          | some v => rfl
          | none => exact h n m

theorem execBody_append_congr {rest rest' : List Stmt}
    (h : ∀ n m, execBody limit n rest m = execBody limit n rest' m)
    (pre : List Stmt) (n : Nat) (m : Machine) :
    execBody limit n (pre ++ rest) m = execBody limit n (pre ++ rest') m := by
  induction pre generalizing n m with
  | nil => exact h n m
  | cons s pre ih => exact execBody_cons_congr ih s n m

theorem execBody_ret (line : Nat) (value : Option Expr)
    (post : List Stmt) (n : Nat) (m : Machine) :
    execBody limit n (.ret line value :: post) m =
      execBody limit n [.ret line value] m := by
  cases n with
  | zero => rfl
  | succ n => cases value <;> rfl

theorem execBody_bare_ret (line : Nat) (post : List Stmt) (n : Nat)
    (m : Machine) :
    execBody limit n (.ret line none :: post) m = execBody limit n [] m := by
  cases n <;> rfl

end

/-! ## Where values come from -/

mutual

/-- There is a `return` with a value in the statement, or a call as a statement
that is not one of `print`. The functions that are declared in it do not
count. -/
def Stmt.mayYield : Stmt → Bool
  | .ret _ value => value.isSome
  | .call f _ => f.text != "print"
  | .cond _ body next => Stmt.listMayYield body || next.mayYield
  | .loop _ body => Stmt.listMayYield body
  | .declare _ _ _ | .function _ _ _ | .assign _ _ => false

def Stmt.listMayYield : List Stmt → Bool
  | [] => false
  | s :: rest => s.mayYield || Stmt.listMayYield rest

def ElseChain.mayYield : ElseChain → Bool
  | .none => false
  | .elseIf _ body next => Stmt.listMayYield body || next.mayYield
  | .otherwise body => Stmt.listMayYield body

end

/-- The parts that may yield a value, as far as their own text says. -/
def Task.mayYield : {y : Yield} → Task y → Bool
  | _, .expr _ | _, .arguments _ => true
  | _, .call f _ => f.text != "print"
  | _, .stmt s => s.mayYield
  | _, .branch _ body next => Stmt.listMayYield body || next.mayYield
  | _, .loop _ body => Stmt.listMayYield body
  | _, .statements body => Stmt.listMayYield body

/-- Whatever the run has ended with, it is no value. -/
def Yield.Quiet (y : Yield) (r : Except RuntimeError y.Result) : Prop :=
  ∀ v, r = .ok v → y.list v = []

/-- The plan ends without a value, if the runs do that it asks of parts that may
not yield one. -/
def Plan.Quiet {y : Yield} (p : Plan y) : Prop :=
  p.Meets (fun _ _ _ _ => True)
    (fun y task _ r _ => task.mayYield = false → y.Quiet r)
    fun r _ => y.Quiet r

namespace Yield

theorem quiet_error {y : Yield} (e : RuntimeError) : y.Quiet (.error e) := by
  intro v hv
  cases hv

theorem quiet_none : Yield.optional.Quiet (.ok none) := by
  intro v hv
  cases hv
  rfl

/-- Without a value, a run that has ended well has ended with none. -/
theorem Quiet.eq_none {v : Option Literal} (h : Yield.optional.Quiet (.ok v)) :
    v = none := by
  have hlist : v.toList = [] := h v rfl
  cases v with
  | none => rfl
  | some v => cases hlist

end Yield

namespace Plan

variable {y y' : Yield} {setting : Setting} {m : Machine}

theorem quiet_ask {task : Task y'} {next : y'.Result → Machine → Plan y}
    (h : ∀ v m, (next v m).Quiet) : (Plan.ask setting task m next).Quiet :=
  ⟨trivial, fun e _ _ => Yield.quiet_error e, fun v _ _ => h v _⟩

/-- What a part yields that may not yield a value can be handed on. -/
theorem quiet_ask_last {task : Task .optional} (h : task.mayYield = false) :
    (Plan.ask setting task m fun v m => .done (.ok v) m).Quiet :=
  ⟨trivial, fun e _ _ => Yield.quiet_error e, fun _ _ hv => hv h⟩

/-- Behind such a part the plan goes on. -/
theorem quiet_ask_orElse {task : Task .optional} (h : task.mayYield = false)
    {rest : Machine → Plan .optional} (hrest : ∀ m, (rest m).Quiet) :
    (Plan.ask setting task m (Plan.orElse rest)).Quiet := by
  refine ⟨trivial, fun e _ _ => Yield.quiet_error e, fun v m' hv => ?_⟩
  cases (hv h).eq_none
  exact hrest _

theorem quiet_builtin_print (f : Ident) (args : List Literal) (m : Machine) :
    (Plan.builtin .print f args m).Quiet :=
  Yield.quiet_none

end Plan

namespace Task

variable {limit : Option Nat}

theorem quiet_planCall {f : Ident} {args : List Expr} (h : f.text = "print")
    (m : Machine) : (planCall limit f args m).Quiet := by
  have hprint : Builtin.ofName? f.text = some .print :=
    Builtin.ofName?_eq_some_iff.2 h.symm
  rw [planCall, hprint]
  exact Plan.quiet_ask fun vs m => Plan.quiet_builtin_print f vs m

theorem quiet_planStmt {s : Stmt} (h : s.mayYield = false) (m : Machine) :
    (planStmt s m).Quiet := by
  cases s with
  | declare ty x init =>
      simp only [planStmt]
      split
      · exact Yield.quiet_error _
      · refine Plan.quiet_ask fun v m => ?_
        split
        · exact Yield.quiet_none
        · exact Yield.quiet_error _
  | function f params body =>
      simp only [planStmt]
      split
      · exact Yield.quiet_error _
      · exact Yield.quiet_none
  | assign x value =>
      simp only [planStmt]
      split
      · exact Plan.quiet_ask fun v m => Yield.quiet_none
      · exact Yield.quiet_error _
  | ret line value => exact Yield.quiet_error _
  | cond c body next =>
      rw [Stmt.mayYield] at h
      exact Plan.quiet_ask_last h
  | loop c body =>
      rw [Stmt.mayYield] at h
      exact Plan.quiet_ask_last h
  | call f args =>
      rw [Stmt.mayYield] at h
      exact Plan.quiet_ask_last h

theorem quiet_planNext {next : ElseChain} (h : next.mayYield = false)
    (m : Machine) : (planNext next m).Quiet := by
  cases next with
  | none => exact Yield.quiet_none
  | elseIf c body next =>
      rw [ElseChain.mayYield] at h
      exact Plan.quiet_ask_last h
  | otherwise body =>
      rw [ElseChain.mayYield] at h
      exact Plan.quiet_ask_last h

theorem quiet_planBody {body : List Stmt} (h : Stmt.listMayYield body = false)
    (m : Machine) : (planBody body m).Quiet := by
  cases body with
  | nil => exact Yield.quiet_none
  | cons s rest =>
      rw [Stmt.listMayYield, Bool.or_eq_false_iff] at h
      obtain ⟨hs, hrest⟩ := h
      by_cases hret : ∃ line v, s = .ret line v
      · obtain ⟨line, v, rfl⟩ := hret
        cases v with
        | none => exact Yield.quiet_none
        | some e => cases hs
      · rw [planBody_cons fun line v hv => hret ⟨line, v, hv⟩]
        exact Plan.quiet_ask_orElse
          (show (Task.stmt s).mayYield = false from hs)
          fun m => Plan.quiet_ask_last hrest

/-- One unit of the budget: a part that may not yield a value asks for others
that may not, wherever it could hand on what they yield. -/
theorem quiet_plan {y : Yield} {task : Task y} (h : task.mayYield = false)
    (m : Machine) : (task.plan limit m).Quiet := by
  cases task with
  | expr e => cases h
  | arguments es => cases h
  | call f args => exact quiet_planCall (by simpa [mayYield] using h) m
  | stmt s => exact quiet_planStmt h m
  | branch c body next =>
      rw [mayYield, Bool.or_eq_false_iff] at h
      refine Plan.quiet_ask fun v m => ?_
      split
      · exact Plan.quiet_ask_last h.1
      · exact quiet_planNext h.2 m
  | loop c body =>
      have hbody : (Task.statements body).mayYield = false := h
      refine Plan.quiet_ask fun v m => ?_
      split
      · exact Plan.quiet_ask_orElse hbody fun m => Plan.quiet_ask_last h
      · exact Yield.quiet_none
  | statements body => exact quiet_planBody h m

/-- However long it runs, a part that may not yield a value yields none. -/
theorem quiet_run (n : Nat) {y : Yield} {task : Task y}
    (h : task.mayYield = false) (m : Machine) :
    (task.run limit n m).Ends fun r _ => y.Quiet r := by
  induction n generalizing y task m with
  | zero =>
      rw [run_zero]
      exact Outcome.ends_spent
  | succ n ih =>
      rw [run_succ]
      refine (quiet_plan h m).ends fun y setting task m _ => ?_
      intro r m' hr htask
      exact ih htask _ r m' hr

end Task

/-- What ends a block is decided by its text. From every machine, with every
budget and with whatever the block is entered with: what stands behind a
`return` plays no part, a `return` without a value is as good as the end of the
block, and a block without a `return` with a value and without calls as
statements, those of `print` apart, yields no value. -/
theorem block_ends_by_text (limit : Option Nat) (n : Nat) (m : Machine)
    (bindings : Bindings Literal) :
    (∀ pre line value post,
      m.inScope bindings (execBody limit n (pre ++ [.ret line value] ++ post)) =
        m.inScope bindings (execBody limit n (pre ++ [.ret line value]))) ∧
    (∀ pre line post,
      m.inScope bindings (execBody limit n (pre ++ [.ret line none] ++ post)) =
        m.inScope bindings (execBody limit n pre)) ∧
    ∀ block, Stmt.listMayYield block = false → ∀ v m',
      m.inScope bindings (execBody limit n block) ≠
        .ended (.ok (some v)) m' := by
  refine ⟨fun pre line value post => ?_, fun pre line post => ?_,
    fun block hblock v m' h => ?_⟩
  · rw [List.append_assoc]
    exact congrArg (m.inScope bindings) (funext fun m =>
      execBody_append_congr (execBody_ret line value post) pre n m)
  · rw [List.append_assoc]
    refine congrArg (m.inScope bindings) (funext fun m => ?_)
    calc execBody limit n (pre ++ .ret line none :: post) m
        = execBody limit n (pre ++ []) m :=
          execBody_append_congr (execBody_bare_ret line post) pre n m
      _ = execBody limit n pre m := by rw [List.append_nil]
  · obtain ⟨m₁, hrun, -⟩ := Outcome.atEnd_eq_ended_iff.1 h
    have htask : (Task.statements block).mayYield = false := hblock
    have hquiet : Yield.optional.Quiet (.ok (some v)) :=
      Task.quiet_run n htask _ _ m₁ hrun
    cases hquiet.eq_none

/-- A function that yields what it is called with. -/
def echo : FunDecl :=
  ⟨⟨"f", 1⟩, [⟨⟨.bool, "bool", 1⟩, ⟨"x", 1⟩⟩], [.ret 2 (some (.var ⟨"x", 2⟩))]⟩

/-- A loop that takes a value from a call and then has its round ended by a
`return`. -/
def cutShort : Stmt :=
  .loop (.var ⟨"x", 4⟩)
    [.assign ⟨"x", 5⟩ (.call ⟨"f", 5⟩ [.literal ⟨.bool false, "false", 5⟩]),
      .ret 6 none]

/-- The value goes into the assignment. The `return` ends the round, not the
block around the loop, and what follows the loop there is run. -/
theorem block_ends_by_text_cutShort :
    ∃ m m',
      m = (Machine.fresh.assign "x" ⟨.bool true, "true", 3⟩).declare echo ∧
      Stmt.listMayYield [cutShort, .call ⟨"print", 8⟩ [.var ⟨"x", 8⟩]] = false ∧
      m.inScope []
          (execBody none 9 [cutShort, .call ⟨"print", 8⟩ [.var ⟨"x", 8⟩]]) =
        .ended (.ok none) m' ∧ m'.printed = ["false\n"] ∧
      ∀ v, m.inScope []
          (execBody none 9 [cutShort, .call ⟨"print", 8⟩ [.var ⟨"x", 8⟩]]) ≠
        .ended (.ok (some v)) m' := by
  refine ⟨_, _, rfl, rfl, rfl, by decide, fun v => ?_⟩
  exact (block_ends_by_text none 9 _ []).2.2 _ rfl v _

end Quill
