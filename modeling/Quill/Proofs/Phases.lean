import Quill.Proofs.Code
import Quill.Proofs.Printing
import Quill.Proofs.Spelling

/-!
# Which errors come from where

Three phases can fail, each in ways of its own. The scanner knows one fault. The
reader knows those of `Reader.faults` and that of a text that ends too early. A
run knows the rest, and of these some are there only for trees that no text
spells: a derivation puts binary operators into a tree and nothing else, so no
run of a program that was read finds an operator that it cannot apply.

That a `return` stands outside every block is found by a run and not by the
reader. It is found at a statement of the program itself and never below one,
however blocks, chains, loops and calls are nested: a body deals with its own
`return`s and never asks for one to be run.
-/

namespace Quill

open Grammar

/-! ## Faults of a text -/

theorem fault_of_lexemes_eq_error {line : Nat} {cs : List Char}
    {e : SyntaxError} (h : lexemes line cs = .error e) :
    e.fault = .unknownCharacter := by
  fun_induction lexemes line cs with
  | case1 => cases h
  | case2 => cases h; rfl
  | case3 => cases h
  | case4 line c rest k hk n l e' he' ih =>
      cases h
      exact ih he'

/-- The faults of texts that are no programs. -/
def Program.faults : List SyntaxFault :=
  .unknownCharacter :: .unexpectedEnd :: Reader.faults

theorem fault_of_ofSource_eq_error {source : String} {e : SyntaxError}
    (h : Program.ofSource source = .error e) : e.fault ∈ Program.faults := by
  rw [Program.ofSource, scan] at h
  split at h
  · exact List.mem_cons_of_mem _ (fault_of_ofTokens_eq_error h)
  · next hscan =>
      cases h
      split at hscan
      · cases hscan
      · next hlex =>
          cases hscan
          rw [fault_of_lexemes_eq_error hlex]
          exact List.mem_cons_self

/-! ## The operators of a program that was read -/

theorem allBinary_nil : AllBinary [] :=
  nofun

theorem AllBinary.append {ops ops' : List Token} (h : AllBinary ops)
    (h' : AllBinary ops') : AllBinary (ops ++ ops') :=
  List.forall_mem_append.2 ⟨h, h'⟩

namespace Grammar

mutual

theorem Level.allBinary {n : Nat} {ts : List Token} {e : Expr}
    (h : Level n ts e) : AllBinary e.operators := by
  match h with
  | .primary hp => exact Primary.allBinary hp
  | .tighter _ h => exact Level.allBinary h
  | @Level.binary n ls rs l r op s hl hs hop hr =>
      have hlevel : op.kind.level? = some n := level?_eq_some_iff.2 ⟨s, hs, hop⟩
      have hne : op.kind.level? ≠ none := by
        rw [hlevel]
        exact Option.some_ne_none n
      rw [Expr.operators]
      exact List.forall_mem_cons.2
        ⟨hne, (Level.allBinary hl).append (Level.allBinary hr)⟩

theorem Primary.allBinary {ts : List Token} {e : Expr} (h : Primary ts e) :
    AllBinary e.operators := by
  match h with
  | .literal v => rw [Expr.operators]; exact allBinary_nil
  | .var x => rw [Expr.operators]; exact allBinary_nil
  | .call hc => rw [Expr.operators]; exact Call.allBinary hc
  | .group _ he _ => exact Level.allBinary he

theorem Call.allBinary {ts : List Token} {f : Ident} {args : List Expr}
    (h : Call ts f args) : AllBinary (Expr.listOperators args) := by
  match h with
  | .bare _ _ => rw [Expr.listOperators]; exact allBinary_nil
  | .applied _ hargs _ => exact Args.allBinary hargs

theorem Args.allBinary {ts : List Token} {es : List Expr} (h : Args ts es) :
    AllBinary (Expr.listOperators es) := by
  match h with
  | .one he =>
      rw [Expr.listOperators, Expr.listOperators, List.append_nil]
      exact Level.allBinary he
  | .more he _ hrest =>
      rw [Expr.listOperators]
      exact (Level.allBinary he).append (Args.allBinary hrest)

end

mutual

theorem Body.allBinary {ts : List Token} {ss : List Stmt} (h : Body ts ss) :
    AllBinary (Stmt.listOperators ss) := by
  match h with
  | .empty _ => rw [Stmt.listOperators]; exact allBinary_nil
  | .statements _ hss _ => exact Statements.allBinary hss

theorem Statements.allBinary {ts : List Token} {ss : List Stmt}
    (h : Statements ts ss) : AllBinary (Stmt.listOperators ss) := by
  match h with
  | .one hs =>
      rw [Stmt.listOperators, Stmt.listOperators, List.append_nil]
      exact Statement.allBinary hs
  | .more hs _ _ hss =>
      rw [Stmt.listOperators]
      exact (Statement.allBinary hs).append (Statements.allBinary hss)

theorem Block.allBinary {ts : List Token} {ss : List Stmt} (h : Block ts ss) :
    AllBinary (Stmt.listOperators ss) := by
  match h with
  | .braces _ hbody _ => exact Body.allBinary hbody

theorem Statement.allBinary {ts : List Token} {s : Stmt} (h : Statement ts s) :
    AllBinary s.operators := by
  match h with
  | .declare _ he => rw [Stmt.operators]; exact he.allBinary
  | .function _ hbody => rw [Stmt.operators]; exact Block.allBinary hbody
  | .assign _ he => rw [Stmt.operators]; exact he.allBinary
  | .call hc => rw [Stmt.operators]; exact hc.allBinary
  | .leave _ => rw [Stmt.operators]; exact allBinary_nil
  | .yield _ he => rw [Stmt.operators]; exact he.allBinary
  | .cond _ htail => rw [Stmt.operators]; exact IfTail.allBinary htail
  | .loop _ hc hbody =>
      rw [Stmt.operators]; exact hc.allBinary.append (Block.allBinary hbody)

theorem IfTail.allBinary {ts : List Token} {c : Expr} {body : List Stmt}
    {next : ElseChain} (h : IfTail ts c body next) :
    AllBinary (c.operators ++ Stmt.listOperators body ++ next.operators) := by
  match h with
  | .tail hc hbody hnext =>
      exact (hc.allBinary.append (Block.allBinary hbody)).append
        (ElseTail.allBinary hnext)

theorem ElseTail.allBinary {ts : List Token} {next : ElseChain}
    (h : ElseTail ts next) : AllBinary next.operators := by
  match h with
  | .none => rw [ElseChain.operators]; exact allBinary_nil
  | .elseIf _ _ _ htail =>
      rw [ElseChain.operators]; exact IfTail.allBinary htail
  | .otherwise _ _ hbody =>
      rw [ElseChain.operators]; exact Block.allBinary hbody

end

end Grammar

theorem allBinary_of_mem {s : Stmt} {ss : List Stmt}
    (h : AllBinary (Stmt.listOperators ss)) (hs : s ∈ ss) :
    AllBinary s.operators := by
  induction ss with
  | nil => cases hs
  | cons s' ss ih =>
      rw [Stmt.listOperators] at h
      rcases List.mem_cons.1 hs with rfl | hmem
      · exact h.left
      · exact ih h.right hmem

theorem allBinary_of_ofSource {source : String} {p : Program}
    (h : Program.ofSource source = .ok p) :
    AllBinary (Stmt.listOperators p) := by
  obtain ⟨ts, -, hts⟩ := Program.exists_scan_of_ofSource h
  exact (derives_of_ofTokens_eq_ok hts).allBinary

/-! ## The faults of operators -/

namespace Operator

/-- The faults of the binary operators. -/
def faults : List RuntimeFault :=
  [.expectedInteger, .integerOverflow, .divisionByZero]

/-- Where two computations one after the other fail, one of them does. -/
theorem of_bind_eq_error {ε α β : Type} {x : Except ε α}
    {f : α → Except ε β} {e : ε} (h : x >>= f = .error e) :
    x = .error e ∨ ∃ a, x = .ok a ∧ f a = .error e := by
  cases x with
  | error e' =>
      cases h
      exact .inl rfl
  | ok a => exact .inr ⟨a, rfl, h⟩

variable {op : Token} {l r : Literal} {e : RuntimeError}

theorem fault_of_integer {v : Literal} (h : integer op v = .error e) :
    e.fault = .expectedInteger := by
  unfold integer at h
  split at h
  · cases h
  · cases h
    rfl

theorem fault_of_integers (h : integers op l r = .error e) :
    e.fault = .expectedInteger := by
  rcases of_bind_eq_error h with hl | ⟨a, -, hrest⟩
  · exact fault_of_integer hl
  · rcases of_bind_eq_error hrest with hr | ⟨b, -, hpure⟩
    · exact fault_of_integer hr
    · cases hpure

theorem fault_of_exact {z : Int} (h : exact op z = .error e) :
    e.fault = .integerOverflow := by
  unfold exact at h
  split at h
  · cases h
  · cases h
    rfl

theorem fault_of_compare {rel : Int → Int → Bool}
    (h : compare op rel l r = .error e) : e.fault = .expectedInteger := by
  rcases of_bind_eq_error h with hargs | ⟨ab, -, htruth⟩
  · exact fault_of_integers hargs
  · cases htruth

theorem fault_of_compute {f : Int → Int → Int}
    (h : compute op f l r = .error e) :
    e.fault = .expectedInteger ∨ e.fault = .integerOverflow := by
  rcases of_bind_eq_error h with hargs | ⟨ab, -, hexact⟩
  · exact .inl (fault_of_integers hargs)
  · exact .inr (fault_of_exact hexact)

theorem mem_faults_of_divide {f : Int → Int → Int}
    (h : divide op f l r = .error e) : e.fault ∈ faults := by
  have hoverflow : ∀ {z}, exact op z = .error e → e.fault ∈ faults := by
    intro z hz
    rw [fault_of_exact hz]
    decide
  rcases of_bind_eq_error h with hargs | ⟨⟨a, b⟩, -, hrest⟩
  · rw [fault_of_integers hargs]
    decide
  · dsimp only at hrest
    split at hrest
    · cases hrest
      show RuntimeFault.divisionByZero ∈ faults
      decide
    · rcases of_bind_eq_error hrest with hq | ⟨q, -, hexact⟩
      · exact hoverflow hq
      · exact hoverflow hexact

/-- A binary operator fails as integers do. -/
theorem mem_faults_of_apply (hop : op.kind.level? ≠ none)
    (h : apply op l r = .error e) : e.fault ∈ faults := by
  have hcompare : ∀ {rel}, compare op rel l r = .error e →
      e.fault ∈ faults := by
    intro rel hrel
    rw [fault_of_compare hrel]
    decide
  have hcompute : ∀ {f}, compute op f l r = .error e → e.fault ∈ faults := by
    intro f hf
    rcases fault_of_compute hf with hfault | hfault <;> rw [hfault] <;> decide
  unfold apply at h
  split at h
  · cases h
  · cases h
  · cases h
  · cases h
  · exact hcompare h
  · exact hcompare h
  · exact hcompare h
  · exact hcompare h
  · split at h
    · cases h
    · exact hcompute h
  · exact hcompute h
  · exact hcompute h
  · exact mem_faults_of_divide h
  · exact mem_faults_of_divide h
  · next hnone =>
      -- every kind that has a level is one of the cases above
      refine absurd ?_ hop
      unfold Token.Kind.level?
      split <;> simp_all

end Operator

/-! ## The faults of a run -/

namespace Task

/-- The operators in a part. -/
def operators : {y : Yield} → Task y → List Token
  | _, .expr e => e.operators
  | _, .arguments es => Expr.listOperators es
  | _, .call _ args => Expr.listOperators args
  | _, .stmt s => s.operators
  | _, .branch c body next =>
    c.operators ++ Stmt.listOperators body ++ next.operators
  | _, .loop c body => c.operators ++ Stmt.listOperators body
  | _, .statements body => Stmt.listOperators body

/-- The part is a `return` statement on this line. -/
inductive Returns : {y : Yield} → Task y → Nat → Prop
  | ret (line : Nat) (value : Option Expr) :
      Returns (.stmt (.ret line value)) line

/-- The faults of runs of programs that were read, apart from that of a `return`
that stands outside every block. -/
def faults : List RuntimeFault :=
  [.declaredFunction, .declaredVariable, .divisionByZero, .expectedInteger,
    .expectedReturn, .integerOverflow, .invalidNumberOfArgs,
    .invalidVariableType, .recursionLimit, .undeclaredFunction,
    .undeclaredVariable]

theorem Uses.not_returns {y y' : Yield} {task : Task y} {t : Task y'}
    {mem : Memory} {setting : Setting} (h : task.Uses mem setting t)
    (line : Nat) : ¬ t.Returns line := by
  intro hret
  cases hret with
  | ret _ value =>
      cases h with
      | statement hs => exact hs line value rfl

/-- Where all operators are binary, a part fails in one of the ways of `faults`,
or it is a `return`. -/
theorem Fails.mem_faults_or_returns {y : Yield} {t : Task y} {e : RuntimeError}
    (h : t.Fails e) (hops : AllBinary t.operators) :
    e.fault ∈ faults ∨ ∃ line, t.Returns line ∧
      e = ⟨.invalidStatement, line, some "return"⟩ := by
  cases h with
  | operator happly =>
      rw [operators, Expr.operators] at hops
      have hsub : ∀ fault ∈ Operator.faults, fault ∈ faults := by decide
      exact .inl (hsub _
        (Operator.mem_faults_of_apply (hops _ List.mem_cons_self) happly))
  | builtin f args hmem =>
      have hsub : ∀ fault ∈ Builtin.faults, fault ∈ faults := by decide
      exact .inl (hsub _ hmem)
  | outside line value => exact .inr ⟨line, .ret line value, rfl⟩
  | _ => exact .inl (by simp [Ident.failure, faults])

end Task

theorem hereditary_allBinary : Hereditary fun _ t => AllBinary t.operators where
  uses := by
    intro y y' task t mem setting h hops hmem
    cases h with
    | left =>
        rw [Task.operators, Expr.operators] at hops
        exact hops.tail.left
    | right =>
        rw [Task.operators, Expr.operators] at hops
        exact hops.tail.right
    | application =>
        rw [Task.operators, Expr.operators] at hops
        exact hops
    | first =>
        rw [Task.operators, Expr.listOperators] at hops
        exact hops.left
    | others =>
        rw [Task.operators, Expr.listOperators] at hops
        exact hops.right
    | arguments => exact hops
    | body hfind => exact hmem.of_find hfind
    | initial | assigned | cond | loop | call =>
        rw [Task.operators, Stmt.operators] at hops
        exact hops
    | condition => exact hops.left.left
    | taken => exact hops.left.right
    | elseIf | otherwise =>
        rw [Task.operators, ElseChain.operators] at hops
        exact hops.right
    | loopCondition => exact hops.left
    | round => exact hops.right
    | again => exact hops
    | result =>
        rw [Task.operators, Stmt.listOperators, Stmt.operators] at hops
        exact hops.left
    | statement =>
        rw [Task.operators, Stmt.listOperators] at hops
        exact hops.left
    | rest =>
        rw [Task.operators, Stmt.listOperators] at hops
        exact hops.right
  function := by
    intro f params body h
    rw [Task.operators, Stmt.operators] at h
    exact h

/-! ## Runs of programs that were read -/

variable {limit : Option Nat} {source : String} {p : Program} {e : RuntimeError}

/-- Below a statement of the program no `return` is ever asked for. -/
theorem Program.Reaches.not_returns {m m' : Machine} {setting : Setting}
    {stack : List Setting} {y : Yield} {t : Task y}
    (h : p.Reaches limit m (setting :: stack) t m') (line : Nat) :
    ¬ t.Returns line := by
  obtain ⟨before, s, after, n, m₁, -, -, hreaches⟩ := h
  cases hreaches with
  | step _ hasks =>
      exact (Task.uses_of_asks (Task.follows_plan limit _ _) hasks).not_returns
        line

/-- What the run of a program that was read comes to fails in one of the ways of
`faults`, unless it is a `return` of the program itself. -/
theorem fails_of_reaches (hp : Program.ofSource source = .ok p)
    {stack : List Setting} {y : Yield} {t : Task y} {m : Machine}
    (h : p.Reaches limit .fresh stack t m) (hfails : t.Fails e) :
    e.fault ∈ Task.faults ∨
      stack = [] ∧ ∃ line, t.Returns line ∧
        e = ⟨.invalidStatement, line, some "return"⟩ := by
  have hops : ∀ s ∈ p, AllBinary s.operators :=
    fun s => allBinary_of_mem (allBinary_of_ofSource hp)
  have ht := hereditary_allBinary.reaches hops .fresh h
  rcases hfails.mem_faults_or_returns ht with hmem | ⟨line, hret, he⟩
  · exact .inl hmem
  · cases stack with
    | nil => exact .inr ⟨rfl, line, hret, he⟩
    | cons setting stack => exact absurd hret (h.not_returns line)

theorem faults_of_runProgram (hp : Program.ofSource source = .ok p) {n : Nat}
    {m : Machine} (h : runProgram limit n p .fresh = .ended (.error e) m) :
    e.fault ∈ Task.faults ∨ ∃ before line value after k m₁,
      p = before ++ .ret line value :: after ∧
      runProgram limit k before .fresh = .ended (.ok ()) m₁ ∧
      e = ⟨.invalidStatement, line, some "return"⟩ := by
  obtain ⟨stack, y, t, m₁, hreaches, hfails⟩ := Program.exists_fails h
  rcases fails_of_reaches hp hreaches hfails with hmem | ⟨rfl, line, hret, he⟩
  · exact .inl hmem
  · obtain ⟨before, s, after, k, m₂, rfl, hbefore, hs⟩ := hreaches
    cases hs
    cases hret with
    | ret _ value =>
        exact .inr ⟨before, line, value, after, k, _, rfl, hbefore, he⟩

/-- A `return` that the program itself comes to ends its run. -/
theorem runProgram_ret {k n : Nat} {before after : Program} {line : Nat}
    {value : Option Expr} {m m₁ m' : Machine} {r : Except RuntimeError Unit}
    (hbefore : runProgram limit k before m = .ended (.ok ()) m₁)
    (h : runProgram limit n (before ++ .ret line value :: after) m =
      .ended r m') :
    r = .error ⟨.invalidStatement, line, some "return"⟩ := by
  -- a budget that is enough for both runs and for the statement itself
  have hall := runProgram_mono (show n ≤ max k n + 1 by omega) h
  rw [runProgram_append,
    runProgram_mono (show k ≤ max k n + 1 by omega) hbefore] at hall
  cases hall
  rfl

/-- How a run of a source text can have ended. -/
theorem runSource_cases {n : Nat} {fin : Finished}
    (h : runSource limit n source = some fin) :
    (∃ e, Program.ofSource source = .error e ∧
      fin = ⟨some (.parsing e), .fresh⟩) ∨
      ∃ p, Program.ofSource source = .ok p ∧
        ((∃ m, runProgram limit n p .fresh = .ended (.ok ()) m ∧
          fin = ⟨none, m⟩) ∨
          ∃ e m, runProgram limit n p .fresh = .ended (.error e) m ∧
            fin = ⟨some (.running e), m⟩) := by
  rw [runSource] at h
  split at h
  · next e he =>
      cases h
      exact .inl ⟨e, he, rfl⟩
  · next p hp =>
      split at h
      · cases h
      · next m hm =>
          cases h
          exact .inr ⟨p, hp, .inl ⟨m, hm, rfl⟩⟩
      · next e m hm =>
          cases h
          exact .inr ⟨p, hp, .inr ⟨e, m, hm, rfl⟩⟩

theorem fault_of_parsing {n : Nat} {fin : Finished}
    (h : runSource limit n source = some fin) {e : SyntaxError}
    (he : fin.diagnostic = some (.parsing e)) :
    e.fault ∈ Program.faults ∧ fin.machine = .fresh := by
  rcases runSource_cases h with
    ⟨e', hsource, rfl⟩ | ⟨p, -, ⟨m, -, rfl⟩ | ⟨e', m, -, rfl⟩⟩
  · cases he
    exact ⟨fault_of_ofSource_eq_error hsource, rfl⟩
  · cases he
  · cases he

theorem fault_of_running {n : Nat} {fin : Finished}
    (h : runSource limit n source = some fin)
    (he : fin.diagnostic = some (.running e)) :
    e.fault ∈ Task.faults ∨ ∃ before line value after k m,
      Program.ofSource source = .ok (before ++ .ret line value :: after) ∧
      runProgram limit k before .fresh = .ended (.ok ()) m ∧
      e = ⟨.invalidStatement, line, some "return"⟩ := by
  rcases runSource_cases h with
    ⟨e', -, rfl⟩ | ⟨p, hp, ⟨m, -, rfl⟩ | ⟨e', m, hm, rfl⟩⟩
  · cases he
  · cases he
  · cases he
    rcases faults_of_runProgram hp hm with hmem |
      ⟨before, line, value, after, k, m₁, rfl, hret⟩
    · exact .inl hmem
    · exact .inr ⟨before, line, value, after, k, m₁, hp, hret⟩

/-- A `return` among the statements of a program that its run comes to is what
it fails for. -/
theorem running_of_ret {n k : Nat} {fin : Finished}
    (h : runSource limit n source = some fin) {before after : Program}
    {line : Nat} {value : Option Expr} {m : Machine}
    (hp : Program.ofSource source = .ok (before ++ .ret line value :: after))
    (hbefore : runProgram limit k before .fresh = .ended (.ok ()) m) :
    fin.diagnostic =
      some (.running ⟨.invalidStatement, line, some "return"⟩) := by
  rcases runSource_cases h with
    ⟨e', he', -⟩ | ⟨p, hp', ⟨m₁, hm₁, -⟩ | ⟨e', m₁, hm₁, rfl⟩⟩
  · rw [hp] at he'
    cases he'
  · rw [hp] at hp'
    cases hp'
    cases runProgram_ret hbefore hm₁
  · rw [hp] at hp'
    cases hp'
    cases runProgram_ret hbefore hm₁
    rfl

/-- No run of what stands below a statement of the program fails for a `return`
out of place. -/
theorem fault_ne_invalidStatement_of_reaches
    (hp : Program.ofSource source = .ok p) {setting : Setting}
    {stack : List Setting} {y : Yield} {t : Task y} {m m' : Machine}
    (h : p.Reaches limit .fresh (setting :: stack) t m)
    (hrun : t.Runs limit m (.error e) m') : e.fault ≠ .invalidStatement := by
  obtain ⟨n, hn⟩ := hrun
  obtain ⟨inner, y', t', m₁, hreaches, hfails⟩ := Task.exists_fails hn
  rcases fails_of_reaches hp (h.trans hreaches) hfails with hmem | ⟨hnil, -⟩
  · intro hfault
    rw [hfault] at hmem
    exact absurd hmem (by decide)
  · cases inner <;> cases hnil

/-- The phases rule out each other's errors. An error in the text is none of a
run, and nothing has been printed; an error of a run is never one that only a
tree not read from a text can have. And a run fails for a `return` out of place
exactly when it comes to one among the statements of the program itself, with
its line, and not below them, wherever it stands. -/
theorem runSource_fault_by_phase {n : Nat} {fin : Finished}
    (h : runSource limit n source = some fin) :
    (∀ e, fin.diagnostic = some (.parsing e) →
      e.fault ≠ .invalidStatement ∧ e.fault ≠ .unknownError ∧
        fin.machine.output = "") ∧
    (∀ e, fin.diagnostic = some (.running e) →
      e.fault ≠ .invalidExpression ∧ e.fault ≠ .expectedBoolean ∧
        e.fault ≠ .expectedString ∧ e.fault ≠ .unknownError) ∧
    (∀ e, fin.diagnostic = some (.running e) ∧ e.fault = .invalidStatement ↔
      ∃ before line value after k m,
        Program.ofSource source = .ok (before ++ .ret line value :: after) ∧
        runProgram limit k before .fresh = .ended (.ok ()) m ∧
        e = ⟨.invalidStatement, line, some "return"⟩) ∧
    (∀ p, Program.ofSource source = .ok p →
      ∀ (setting : Setting) (stack : List Setting) (y : Yield) (t : Task y)
        (m : Machine), p.Reaches limit .fresh (setting :: stack) t m →
        (∀ line, ¬ t.Returns line) ∧
          ∀ e m', t.Runs limit m (.error e) m' →
            e.fault ≠ .invalidStatement) := by
  refine ⟨fun e he => ?_, fun e he => ?_, fun e => ⟨?_, ?_⟩, ?_⟩
  · obtain ⟨hmem, hfresh⟩ := fault_of_parsing h he
    have hnot : ∀ fault ∈ Program.faults, fault ≠ .invalidStatement ∧
        fault ≠ .unknownError := by
      decide
    rw [hfresh]
    exact ⟨(hnot _ hmem).1, (hnot _ hmem).2, rfl⟩
  · rcases fault_of_running h he with hmem |
      ⟨before, line, value, after, k, m, -, -, rfl⟩
    · have hnot : ∀ fault ∈ Task.faults, fault ≠ .invalidExpression ∧
          fault ≠ .expectedBoolean ∧
          fault ≠ .expectedString ∧ fault ≠ .unknownError := by
        decide
      exact hnot _ hmem
    · exact ⟨nofun, nofun, nofun, nofun⟩
  · rintro ⟨he, hfault⟩
    rcases fault_of_running h he with hmem | hret
    · rw [hfault] at hmem
      exact absurd hmem (by decide)
    · exact hret
  · rintro ⟨before, line, value, after, k, m, hp, hbefore, rfl⟩
    exact ⟨running_of_ret h hp hbefore, rfl⟩
  · intro p hp setting stack y t m hreaches
    exact ⟨hreaches.not_returns,
      fun e m' => fault_ne_invalidStatement_of_reaches hp hreaches⟩

/-- Of two `return`s the one in a block is passed and the one behind it is
found. -/
theorem runSource_fault_by_phase_return_behind_block :
    ∃ source fin before value after k m,
      source = "print(1)\nif true \x7b\nreturn 2\n\x7d\nreturn 3\nprint(4)" ∧
      runSource none 6 source = some fin ∧ fin.machine.output = "1\n" ∧
      fin.diagnostic = some (.running ⟨.invalidStatement, 5, some "return"⟩) ∧
      Program.ofSource source = .ok (before ++ .ret 5 value :: after) ∧
      runProgram none k before .fresh = .ended (.ok ()) m := by
  have htokens :
      (scan
        "print(1)\nif true \x7b\nreturn 2\n\x7d\nreturn 3\nprint(4)").toOption =
      some [⟨.name, "print", 1⟩, ⟨.symbol .lparen, "(", 1⟩, ⟨.integer, "1", 1⟩,
        ⟨.symbol .rparen, ")", 1⟩, ⟨.newline, "\n", 1⟩, ⟨.keyword .if, "if", 2⟩,
        ⟨.keyword .trueWord, "true", 2⟩, ⟨.symbol .lbrace, "\x7b", 2⟩,
        ⟨.newline, "\n", 2⟩, ⟨.keyword .return, "return", 3⟩,
        ⟨.integer, "2", 3⟩, ⟨.newline, "\n", 3⟩, ⟨.symbol .rbrace, "\x7d", 4⟩,
        ⟨.newline, "\n", 4⟩, ⟨.keyword .return, "return", 5⟩,
        ⟨.integer, "3", 5⟩, ⟨.newline, "\n", 5⟩, ⟨.name, "print", 6⟩,
        ⟨.symbol .lparen, "(", 6⟩, ⟨.integer, "4", 6⟩,
        ⟨.symbol .rparen, ")", 6⟩] := by
    decide +kernel
  have hrun : ∃ m,
      runSource none 6
        "print(1)\nif true \x7b\nreturn 2\n\x7d\nreturn 3\nprint(4)" =
      some ⟨some (.running ⟨.invalidStatement, 5, some "return"⟩), m⟩ ∧
        m.output = "1\n" := by
    rw [runSource, Program.ofSource_of_scan htokens]
    exact ⟨_, rfl, by decide⟩
  obtain ⟨m, hrun, houtput⟩ := hrun
  obtain ⟨before, line, value, after, k, m₁, hp, hbefore, he⟩ :=
    ((runSource_fault_by_phase hrun).2.2.1 _).1 ⟨rfl, rfl⟩
  cases he
  exact ⟨_, _, before, value, after, k, m₁, rfl, hrun, houtput, rfl, hp,
    hbefore⟩

end Quill
