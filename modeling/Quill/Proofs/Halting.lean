import Quill.Proofs.CallLimit
import Quill.Proofs.Code

/-!
# Without loops every run under a call limit ends

A part of a program asks for parts of its own text, which are smaller, or for
the body of a function, which may be larger than the call and come from
anywhere. But a body runs one level deeper than its call, and there are no more
levels than the limit says. So the levels that are left, and at one level the
size of the part, go down from the part that asks to the part that is asked for.
A loop is the one part that asks for itself.

Function bodies come from memory, so memory has to know no loops either, and it
never learns one: what is declared under way stands in a part that runs.
-/

namespace Quill

/-! ## Code without loops -/

/-- The statement itself is no `while`. -/
def Stmt.isNoLoop : Stmt → Bool
  | .loop _ _ => false
  | .declare _ _ _ | .function _ _ _ | .assign _ _ | .ret _ _ | .cond _ _ _
  | .call _ _ => true

/-- The size of a part. A call stands between an expression and its arguments,
and a branch between a statement and its blocks, so these lie between two sizes
of text. -/
noncomputable def Task.size : {y : Yield} → Task y → Nat
  | _, .expr e => 2 * sizeOf e
  | _, .arguments es => 2 * sizeOf es
  | _, .call _ args => 2 * sizeOf args + 1
  | _, .stmt s => 2 * sizeOf s
  | _, .branch c body next => 2 * (sizeOf c + sizeOf body + sizeOf next) + 1
  | _, .loop c body => 2 * (sizeOf c + sizeOf body) + 1
  | _, .statements body => 2 * sizeOf body

/-- What a part without loops asks for is smaller than itself, or the body of a
function. -/
theorem Task.Uses.isBody_or_size_lt {y y' : Yield} {task : Task y} {t : Task y'}
    {mem : Memory} {setting : Setting} (h : task.Uses mem setting t)
    (htask : Every Stmt.isNoLoop y task) :
    setting.isBody = true ∨ setting.isBody = false ∧ t.size < task.size := by
  cases h with
  | body _ => exact .inl rfl
  | again => cases htask
  | _ =>
      refine .inr ⟨rfl, ?_⟩
      simp only [size, Expr.binary.sizeOf_spec, Expr.call.sizeOf_spec,
        Stmt.declare.sizeOf_spec, Stmt.assign.sizeOf_spec, Stmt.ret.sizeOf_spec,
        Stmt.cond.sizeOf_spec, Stmt.loop.sizeOf_spec, Stmt.call.sizeOf_spec,
        ElseChain.elseIf.sizeOf_spec, ElseChain.otherwise.sizeOf_spec,
        List.cons.sizeOf_spec, Option.some.sizeOf_spec]
      omega

/-! ## Plans that end -/

section

variable {limit : Option Nat}
  {ask : ∀ y : Yield, Setting → Task y → Machine → Prop}
  {answer : ∀ y : Yield, Task y → Machine → Except RuntimeError y.Result →
    Machine → Prop} {y : Yield}
  {post : Except RuntimeError y.Result → Machine → Prop} {p : Plan y}

theorem Plan.Follows.meets_uses {y₀ : Yield} {task : Task y₀} {mem : Memory}
    {m₀ : Machine} (hp : p.Follows task mem m₀) :
    p.Meets (fun _ setting t _ => task.Uses mem setting t)
      (fun _ _ _ _ _ => True) fun _ _ => True := by
  induction p generalizing m₀ with
  | done r m => trivial
  | ask setting t m next ih =>
      obtain ⟨-, ht, hnext⟩ := hp
      exact ⟨ht, fun _ _ _ => trivial, fun v m' _ => ih v _ (hnext v _)⟩

/-- A plan ends if every run that it asks for does. -/
theorem Plan.Meets.exists_runs (h : p.Meets ask answer post)
    (ha : ∀ y setting (task : Task y) m, ask y setting task m →
      ∃ r m', task.Runs limit (setting.enter m) r m' ∧
        answer y task (setting.enter m) r m') :
    ∃ r m', p.Runs limit r m' := by
  induction p with
  | done r m => exact ⟨r, m, 0, rfl⟩
  | ask setting task m next ih =>
      obtain ⟨hask, -, hok⟩ := h
      obtain ⟨r, m₁, hruns, hanswer⟩ := ha _ _ _ _ hask
      cases r with
      | error e =>
          exact ⟨.error e, _, runs_ask_iff.2 (.inr ⟨e, m₁, hruns, rfl, rfl⟩)⟩
      | ok v =>
          obtain ⟨r, m', hnext⟩ := ih v _ (hok v m₁ hanswer)
          exact ⟨r, m', runs_ask_iff.2 (.inl ⟨v, m₁, hruns, hnext⟩)⟩

end

/-! ## Runs -/

/-- At the level of `m` and below it, every part without loops has a run that
ends. -/
theorem Task.exists_runs (most : Nat) {y : Yield} (task : Task y) {m : Machine}
    (htask : Every Stmt.isNoLoop y task)
    (hm : m.memory.Knows (Every Stmt.isNoLoop)) :
    ∃ r m', task.Runs (some most) m r m' := by
  have hlocal :
      (task.plan (some most) m).Local task.isPrint (some most) m.calls m :=
    task.local_plan m
  have hfollows := task.follows_plan (some most) m
  have hmeets := ((Machine.steady_calls.meets hlocal rfl).and
    ((hereditary_every Stmt.isNoLoop).meets htask hm hfollows hm)).and
    hfollows.meets_uses
  obtain ⟨r, m', hruns⟩ : ∃ r m',
      (task.plan (some most) m).Runs (some most) r m' := by
    refine hmeets.exists_runs ?_
    rintro y' setting t m₁ ⟨⟨⟨hm₁, hallowed⟩, ht, hknows⟩, hts⟩
    obtain ⟨r, m₂, n, hn⟩ := Task.exists_runs most t ht hknows
    have hcalls₂ := Machine.steady_calls.run n t (setting.enter m₁) r m₂ hn
    have hknows₂ := (hereditary_every Stmt.isNoLoop).run ht hknows n r m₂ hn
    exact ⟨r, m₂, ⟨n, hn⟩, ⟨hcalls₂, hknows₂⟩, trivial⟩
  exact ⟨r, m', runs_iff_plan.2 hruns⟩
termination_by (most - m.calls, task.size)
decreasing_by
  rcases hts.isBody_or_size_lt htask with hbody | ⟨hbody, hlt⟩
  · -- a body runs one level deeper, and the limit allows that level
    match setting, hbody with
    | .body f args, _ =>
        have hlevel : m.calls < most := by
          have hany : (some most).any (· ≤ m.calls) = false := hallowed
          rw [Option.any_some, decide_eq_false_iff_not] at hany
          omega
        apply Prod.Lex.left
        rw [Setting.calls_enter, hm₁]
        show most - (m.calls + 1) < most - m.calls
        omega
  · have hsame : (setting.enter m₁).calls = m.calls := by
      rw [Setting.calls_enter, hm₁, hbody]
      rfl
    rw [hsame]
    exact Prod.Lex.right _ hlt

theorem Stmt.exists_run (most : Nat) {s : Stmt}
    (hs : s.every Stmt.isNoLoop = true) {m : Machine}
    (hm : m.memory.Knows (Every Stmt.isNoLoop)) :
    ∃ n r m', (∀ k, n ≤ k → execStmt (some most) k s m = .ended r m') ∧
      m'.memory.Knows (Every Stmt.isNoLoop) := by
  have htask : Every Stmt.isNoLoop .optional (.stmt s) := hs
  obtain ⟨r, m', n, hn⟩ := Task.exists_runs most (.stmt s) htask hm
  have hmono : ∀ k, n ≤ k → (Task.stmt s).run (some most) k m = .ended r m' :=
    fun k hk => Task.run_mono hk hn
  exact ⟨n, r, m', hmono,
    (hereditary_every Stmt.isNoLoop).run htask hm n r m' hn⟩

theorem Program.exists_run (most : Nat) {p : Program}
    (hp : Stmt.listEvery Stmt.isNoLoop p = true) {m : Machine}
    (hm : m.memory.Knows (Every Stmt.isNoLoop)) :
    ∃ n r m', ∀ k, n ≤ k → runProgram (some most) k p m = .ended r m' := by
  induction p generalizing m with
  | nil => exact ⟨0, .ok (), m, fun _ _ => rfl⟩
  | cons s rest ih =>
      rw [Stmt.listEvery, Bool.and_eq_true] at hp
      obtain ⟨hs, hrest⟩ := hp
      obtain ⟨n, r, m₁, hn, hm₁⟩ := Stmt.exists_run most hs hm
      cases r with
      | error e =>
          refine ⟨n, .error e, m₁, fun k hk => ?_⟩
          rw [runProgram, hn k hk]
          rfl
      | ok v =>
          obtain ⟨n', r, m', hn'⟩ := ih hrest hm₁
          refine ⟨max n n', r, m', fun k hk => ?_⟩
          rw [runProgram, hn k (by omega)]
          exact hn' k (by omega)

/-- Under whatever limit on calls, from a machine whose functions have no loops,
every statement without loops ends, and so does every program of such
statements: with a value or with an error, and with the same one under every
budget that is large enough. -/
theorem loopFree_ends (most : Nat) {m : Machine}
    (hm : m.memory.every Stmt.isNoLoop = true) :
    (∀ s : Stmt, s.every Stmt.isNoLoop = true →
      ∃ n r m', ∀ k, n ≤ k → execStmt (some most) k s m = .ended r m') ∧
    (∀ p : Program, Stmt.listEvery Stmt.isNoLoop p = true →
      ∃ n r m', ∀ k, n ≤ k → runProgram (some most) k p m = .ended r m') := by
  have hknows := Memory.knows_every_iff.2 hm
  constructor
  · intro s hs
    obtain ⟨n, r, m', hn, -⟩ := Stmt.exists_run most hs hknows
    exact ⟨n, r, m', hn⟩
  · intro p hp
    exact Program.exists_run most hp hknows

/-- A function that calls itself ends under the limit two, and so does a program
that declares it inside a function and calls it there. -/
theorem loopFree_ends_endless :
    (Machine.fresh.declare endless).memory.every Stmt.isNoLoop = true ∧
    (∃ n r m', ∀ k, n ≤ k →
      execStmt (some 2) k (.call ⟨"f", 5⟩ []) (Machine.fresh.declare endless) =
        .ended r m') ∧
    (∃ n r m', ∀ k, n ≤ k →
      runProgram (some 2) k
        [.function ⟨"g", 1⟩ [] [endless.declaration, .call ⟨"f", 5⟩ []],
          .call ⟨"g", 7⟩ []]
        (Machine.fresh.declare ⟨⟨"h", 1⟩, [], []⟩) = .ended r m') := by
  have hm : (Machine.fresh.declare endless).memory.every Stmt.isNoLoop =
      true := by decide
  exact ⟨hm, (loopFree_ends 2 hm).1 _ (by decide),
    (loopFree_ends 2 (m := Machine.fresh.declare ⟨⟨"h", 1⟩, [], []⟩)
      (by decide)).2 _ (by decide)⟩

end Quill
