import Quill.Proofs.Plan

/-!
# Runs do not look at names and lines

Lines are kept for diagnostics, and names to be compared with each other. So
changing the lines in any way, and the names of variables and of functions in
any way that keeps different names different, changes no run: it goes through
the same steps, prints the same, and what it leaves is changed in the same way.
The built-ins alone are known by their names, and a renaming leaves those as
they are.

A renaming acts on everything that has lines or names in it, and each operation
commutes with it. From that the plans of a part and of the renamed part ask for
the same parts, up to the renaming, and the rest is induction.
-/

namespace Quill

/-- A change of lines, of names of variables and of names of functions. -/
structure Renaming where
  line : Nat → Nat
  var : String → String
  fn : String → String
  var_injective : ∀ {x y}, var x = var y → x = y
  fn_injective : ∀ {f g}, fn f = fn g → f = g
  fn_builtin : ∀ b : Builtin, fn b.name = b.name

namespace Renaming

/-- The renaming that changes lines and no names. -/
def lines (f : Nat → Nat) : Renaming where
  line := f
  var := id
  fn := id
  var_injective := id
  fn_injective := id
  fn_builtin _ := rfl

variable (φ : Renaming)

/-! ## What a renaming does to trees -/

def token (t : Token) : Token :=
  { t with line := φ.line t.line }

def literal (v : Literal) : Literal :=
  { v with line := φ.line v.line }

def variableName (x : Ident) : Ident :=
  ⟨φ.var x.text, φ.line x.line⟩

def functionName (f : Ident) : Ident :=
  ⟨φ.fn f.text, φ.line f.line⟩

def typeName (ty : TypeName) : TypeName :=
  { ty with line := φ.line ty.line }

def param (p : Param) : Param :=
  ⟨φ.typeName p.type, φ.variableName p.name⟩

mutual

def expr : Expr → Expr
  | .literal v => .literal (φ.literal v)
  | .var x => .var (φ.variableName x)
  | .binary op l r => .binary (φ.token op) (expr l) (expr r)
  | .call f args => .call (φ.functionName f) (exprs args)

def exprs : List Expr → List Expr
  | [] => []
  | e :: es => expr e :: exprs es

end

mutual

def stmt : Stmt → Stmt
  | .declare ty x init =>
    .declare (φ.typeName ty) (φ.variableName x) (φ.expr init)
  | .function f params body =>
    .function (φ.functionName f) (params.map φ.param) (stmts body)
  | .assign x value => .assign (φ.variableName x) (φ.expr value)
  | .ret line value => .ret (φ.line line) (value.map φ.expr)
  | .cond c body next => .cond (φ.expr c) (stmts body) (chain next)
  | .loop c body => .loop (φ.expr c) (stmts body)
  | .call f args => .call (φ.functionName f) (φ.exprs args)

def stmts : List Stmt → List Stmt
  | [] => []
  | s :: ss => stmt s :: stmts ss

def chain : ElseChain → ElseChain
  | .none => .none
  | .elseIf c body next => .elseIf (φ.expr c) (stmts body) (chain next)
  | .otherwise body => .otherwise (stmts body)

end

theorem exprs_eq_map (es : List Expr) : φ.exprs es = es.map φ.expr := by
  induction es with
  | nil => rfl
  | cons e es ih => rw [exprs, ih, List.map_cons]

theorem stmts_eq_map (ss : List Stmt) : φ.stmts ss = ss.map φ.stmt := by
  induction ss with
  | nil => rfl
  | cons s ss ih => rw [stmts, ih, List.map_cons]

def decl (f : FunDecl) : FunDecl :=
  ⟨φ.functionName f.name, f.params.map φ.param, φ.stmts f.body⟩

/-! ## What a renaming does to machines and results -/

def vars (b : Bindings Literal) : Bindings Literal :=
  b.map fun (x, v) => (φ.var x, φ.literal v)

def funs (b : Bindings FunDecl) : Bindings FunDecl :=
  b.map fun (f, d) => (φ.fn f, φ.decl d)

def scope (s : Scope) : Scope :=
  ⟨φ.vars s.vars, φ.funs s.funs⟩

def memory (mem : Memory) : Memory :=
  ⟨mem.scopes.map φ.scope⟩

/-- Printed lines stay as they are. -/
def machine (m : Machine) : Machine :=
  { m with memory := φ.memory m.memory }

/-- What the quoted text of an error becomes: which faults quote the name of a
variable, and which that of a function. -/
def found : RuntimeFault → String → String
  | .declaredVariable | .undeclaredVariable | .invalidVariableType => φ.var
  | .declaredFunction | .undeclaredFunction | .invalidNumberOfArgs |
      .recursionLimit
  | .expectedReturn => φ.fn
  | _ => id

def error (e : RuntimeError) : RuntimeError :=
  ⟨e.fault, φ.line e.line, e.found.map (φ.found e.fault)⟩

def result {α β : Type} (g : α → β) :
    Except RuntimeError α → Except RuntimeError β
  | .ok a => .ok (g a)
  | .error e => .error (φ.error e)

def outcome {α β : Type} (g : α → β) : Outcome α → Outcome β
  | .spent => .spent
  | .ended r m => .ended (φ.result g r) (φ.machine m)

/-- What is yielded, renamed. -/
def yielded : (y : Yield) → y.Result → y.Result
  | .value => φ.literal
  | .values => List.map φ.literal
  | .optional => Option.map φ.literal

def task : {y : Yield} → Task y → Task y
  | _, .expr e => .expr (φ.expr e)
  | _, .arguments es => .arguments (φ.exprs es)
  | _, .call f args => .call (φ.functionName f) (φ.exprs args)
  | _, .stmt s => .stmt (φ.stmt s)
  | _, .branch c body next => .branch (φ.expr c) (φ.stmts body) (φ.chain next)
  | _, .loop c body => .loop (φ.expr c) (φ.stmts body)
  | _, .statements body => .statements (φ.stmts body)

def setting : Setting → Setting
  | .same => .same
  | .block => .block
  | .body f args => .body (φ.decl f) (args.map φ.literal)

section Bindings

variable {α : Type} {name : String → String}
  (hname : ∀ {x y}, name x = name y → x = y) (g : α → α)

include hname

theorem get?_map (b : Bindings α) (x : String) :
    Bindings.get? (b.map fun (x, v) => (name x, g v)) (name x) =
      (b.get? x).map g := by
  induction b with
  | nil => rfl
  | cons p b ih =>
      obtain ⟨y, w⟩ := p
      simp only [List.map_cons, Bindings.get?]
      by_cases h : y = x
      · rw [if_pos h, if_pos (congrArg name h)]
        rfl
      · rw [if_neg h, if_neg fun hxy => h (hname hxy)]
        exact ih

theorem set_map (b : Bindings α) (x : String) (v : α) :
    Bindings.set (b.map fun (x, v) => (name x, g v)) (name x) (g v) =
      (b.set x v).map fun (x, v) => (name x, g v) := by
  induction b with
  | nil => rfl
  | cons p b ih =>
      obtain ⟨y, w⟩ := p
      simp only [List.map_cons, Bindings.set]
      by_cases h : y = x
      · rw [if_pos h, if_pos (congrArg name h)]
        rfl
      · rw [if_neg h, if_neg fun hxy => h (hname hxy), ih]
        rfl

end Bindings

/-! ## Memory -/

/-- The innermost scope that has an answer is the same one. -/
theorem findSome?_scopes {α : Type} {g : α → α} {get get' : Scope → Option α}
    (h : ∀ s, get' (φ.scope s) = (get s).map g) (scopes : List Scope) :
    (scopes.map φ.scope).findSome? get' = (scopes.findSome? get).map g := by
  induction scopes with
  | nil => rfl
  | cons s rest ih =>
      rw [List.map_cons, List.findSome?_cons, List.findSome?_cons, h]
      cases get s with
      | none => exact ih
      | some a => rfl

theorem value?_memory (mem : Memory) (x : String) :
    (φ.memory mem).value? (φ.var x) = (mem.value? x).map φ.literal :=
  φ.findSome?_scopes (fun s => get?_map φ.var_injective φ.literal s.vars x)
    mem.scopes

theorem function?_memory (mem : Memory) (f : String) :
    (φ.memory mem).function? (φ.fn f) = (mem.function? f).map φ.decl :=
  φ.findSome?_scopes (fun s => get?_map φ.fn_injective φ.decl s.funs f)
    mem.scopes

theorem hasVariable_memory (mem : Memory) (x : String) :
    (φ.memory mem).hasVariable (φ.var x) = mem.hasVariable x := by
  rw [Memory.hasVariable, value?_memory, Option.isSome_map]
  rfl

theorem hasFunction_memory (mem : Memory) (f : String) :
    (φ.memory mem).hasFunction (φ.fn f) = mem.hasFunction f := by
  rw [Memory.hasFunction, function?_memory, Option.isSome_map]
  rfl

theorem read_memory (mem : Memory) (x : Ident) :
    (φ.memory mem).read (φ.variableName x) =
      φ.result φ.literal (mem.read x) := by
  simp only [Memory.read, variableName, value?_memory]
  cases mem.value? x.text <;> rfl

theorem find_memory (mem : Memory) (f : Ident) :
    (φ.memory mem).find (φ.functionName f) = φ.result φ.decl (mem.find f) := by
  simp only [Memory.find, functionName, function?_memory]
  cases mem.function? f.text <;> rfl

theorem inInnermost_memory {change change' : Scope → Scope}
    (h : ∀ s, change' (φ.scope s) = φ.scope (change s)) (mem : Memory) :
    (φ.memory mem).inInnermost change' = φ.memory (mem.inInnermost change) := by
  obtain ⟨scopes⟩ := mem
  cases scopes with
  | nil =>
      have hempty := h .empty
      simp only [memory, Memory.inInnermost, List.map_nil, List.map_cons,
        ← hempty]
      rfl
  | cons s rest => simp only [memory, Memory.inInnermost, List.map_cons, h]

theorem bind_memory (mem : Memory) (x : String) (v : Literal) :
    (φ.memory mem).bind (φ.var x) (φ.literal v) = φ.memory (mem.bind x v) := by
  refine φ.inInnermost_memory (fun s => ?_) mem
  simp only [scope, vars, set_map φ.var_injective φ.literal]

theorem declare_memory (mem : Memory) (f : FunDecl) :
    (φ.memory mem).declare (φ.decl f) = φ.memory (mem.declare f) := by
  refine φ.inInnermost_memory (fun s => ?_) mem
  have hset := set_map φ.fn_injective φ.decl s.funs f.name.text f
  simp only [scope, funs, decl, functionName] at hset ⊢
  rw [hset]

theorem replace_scopes (scopes : List Scope) (x : String) (v : Literal) :
    Memory.replace (φ.var x) (φ.literal v) (scopes.map φ.scope) =
      (Memory.replace x v scopes).map φ.scope := by
  induction scopes with
  | nil => rfl
  | cons s rest ih =>
      have hcontains : (φ.scope s).vars.contains (φ.var x) =
          s.vars.contains x := by
        simp only [Bindings.contains, scope, vars,
          get?_map φ.var_injective φ.literal, Option.isSome_map]
      simp only [List.map_cons, Memory.replace, hcontains]
      split
      · rw [List.map_cons]
        simp only [scope, vars, set_map φ.var_injective φ.literal]
      · rw [List.map_cons, ih]

theorem assign_memory (mem : Memory) (x : String) (v : Literal) :
    (φ.memory mem).assign (φ.var x) (φ.literal v) =
      φ.memory (mem.assign x v) := by
  simp only [Memory.assign, hasVariable_memory]
  split
  · simp only [memory, replace_scopes]
  · exact φ.bind_memory mem x v

theorem enter_memory (bindings : Bindings Literal) (mem : Memory) :
    (φ.vars bindings).foldl (fun mem (x, v) => mem.bind x v) (φ.memory mem) =
      φ.memory (bindings.foldl (fun mem (x, v) => mem.bind x v) mem) := by
  induction bindings generalizing mem with
  | nil => rfl
  | cons b rest ih =>
      simp only [vars, List.map_cons, List.foldl_cons] at ih ⊢
      rw [bind_memory, ih]

/-! ## The machine -/

theorem assign_machine (m : Machine) (x : String) (v : Literal) :
    (φ.machine m).assign (φ.var x) (φ.literal v) =
      φ.machine (m.assign x v) := by
  simp only [Machine.assign, machine, assign_memory]

theorem declare_machine (m : Machine) (f : FunDecl) :
    (φ.machine m).declare (φ.decl f) = φ.machine (m.declare f) := by
  simp only [Machine.declare, machine, declare_memory]

theorem enter_machine (m : Machine) (bindings : Bindings Literal) :
    (φ.machine m).enter (φ.vars bindings) = φ.machine (m.enter bindings) := by
  simp only [Machine.enter, machine, ← enter_memory]
  rfl

theorem leave_machine (m : Machine) :
    (φ.machine m).leave = φ.machine m.leave := by
  simp only [Machine.leave, machine, Memory.leave, memory, List.map_tail]

theorem enter_setting (s : Setting) (m : Machine) :
    (φ.setting s).enter (φ.machine m) = φ.machine (s.enter m) := by
  cases s with
  | same => rfl
  | block => exact φ.enter_machine m []
  | body f args =>
      have hnames : (φ.decl f).params.map (·.name.text) =
          (f.params.map (·.name.text)).map φ.var := by
        rw [decl, List.map_map, List.map_map]
        rfl
      have hbindings : ((φ.decl f).params.map (·.name.text)).zip
          (args.map φ.literal) =
          φ.vars ((f.params.map (·.name.text)).zip args) := by
        rw [hnames, List.zip_map]
        rfl
      simp only [setting, Setting.enter, hbindings]
      exact φ.enter_machine m.beginCall _

theorem leave_setting (s : Setting) (m : Machine) :
    (φ.setting s).leave (φ.machine m) = φ.machine (s.leave m) := by
  cases s with
  | same => rfl
  | block => exact φ.leave_machine m
  | body f args =>
      simp only [setting, Setting.leave, leave_machine]
      rfl

/-! ## Operators and built-ins -/

theorem result_bind {α α' β β' : Type} {g : α → α'} {k : β → β'}
    (x : Except RuntimeError α) (f : α → Except RuntimeError β)
    (f' : α' → Except RuntimeError β') (h : ∀ a, f' (g a) = φ.result k (f a)) :
    φ.result g x >>= f' = φ.result k (x >>= f) := by
  cases x with
  | error e => rfl
  | ok a => exact h a

section Operators

variable (op : Token) (l r : Literal)

theorem integer_literal (v : Literal) :
    Operator.integer (φ.token op) (φ.literal v) =
      φ.result id (Operator.integer op v) := by
  simp only [Operator.integer, literal, Literal.word?]
  cases Word.ofText? v.text <;> rfl

theorem integers_literal :
    Operator.integers (φ.token op) (φ.literal l) (φ.literal r) =
      φ.result id (Operator.integers op l r) := by
  simp only [Operator.integers, integer_literal]
  refine φ.result_bind _ _ _ fun a => ?_
  exact φ.result_bind _ _ _ fun b => rfl

theorem exact_token (z : Int) :
    Operator.exact (φ.token op) z =
      φ.result φ.literal (Operator.exact op z) := by
  simp only [Operator.exact]
  cases Word.ofInt? z <;> rfl

theorem compare_literal (rel : Int → Int → Bool) :
    Operator.compare (φ.token op) rel (φ.literal l) (φ.literal r) =
      φ.result φ.literal (Operator.compare op rel l r) := by
  simp only [Operator.compare, integers_literal]
  exact φ.result_bind _ _ _ fun ab => rfl

theorem compute_literal (f : Int → Int → Int) :
    Operator.compute (φ.token op) f (φ.literal l) (φ.literal r) =
      φ.result φ.literal (Operator.compute op f l r) := by
  simp only [Operator.compute, integers_literal]
  exact φ.result_bind _ _ _ fun ab => φ.exact_token op _

theorem divide_literal (f : Int → Int → Int) :
    Operator.divide (φ.token op) f (φ.literal l) (φ.literal r) =
      φ.result φ.literal (Operator.divide op f l r) := by
  simp only [Operator.divide, integers_literal]
  refine φ.result_bind _ _ _ fun ab => ?_
  obtain ⟨a, b⟩ := ab
  dsimp only [id]
  split
  · rfl
  · rw [exact_token]
    exact φ.result_bind _ _ _ fun q => φ.exact_token op _

/-- The value of an operation stands on the operator's line, and so does its
failure. -/
theorem apply_literal :
    Operator.apply (φ.token op) (φ.literal l) (φ.literal r) =
      φ.result φ.literal (Operator.apply op l r) := by
  obtain ⟨kind, text, line⟩ := op
  cases kind with
  | symbol s =>
      cases s with
      | le => exact φ.compare_literal ⟨_, text, line⟩ l r (· ≤ ·)
      | ge => exact φ.compare_literal ⟨_, text, line⟩ l r (· ≥ ·)
      | gt => exact φ.compare_literal ⟨_, text, line⟩ l r (· > ·)
      | lt => exact φ.compare_literal ⟨_, text, line⟩ l r (· < ·)
      | plus =>
          simp only [Operator.apply, token]
          by_cases hstr : l.kind = .str ∨ r.kind = .str
          · have hstr' : (φ.literal l).kind = .str ∨
                (φ.literal r).kind = .str := hstr
            rw [if_pos hstr, if_pos hstr']
            rfl
          · have hstr' : ¬ ((φ.literal l).kind = .str ∨
                (φ.literal r).kind = .str) := hstr
            rw [if_neg hstr, if_neg hstr']
            exact φ.compute_literal ⟨_, text, line⟩ l r _
      | minus => exact φ.compute_literal ⟨_, text, line⟩ l r _
      | star => exact φ.compute_literal ⟨_, text, line⟩ l r _
      | slash => exact φ.divide_literal ⟨_, text, line⟩ l r _
      | percent => exact φ.divide_literal ⟨_, text, line⟩ l r _
      | _ => rfl
  | _ => rfl

end Operators

theorem ofName?_fn (f : String) :
    Builtin.ofName? (φ.fn f) = Builtin.ofName? f := by
  cases h : Builtin.ofName? f with
  | some b =>
      rw [← Builtin.ofName?_eq_some_iff.1 h, φ.fn_builtin]
      exact Builtin.ofName?_eq_some_iff.2 rfl
  | none =>
      cases h' : Builtin.ofName? (φ.fn f) with
      | none => rfl
      | some b =>
          have hname := Builtin.ofName?_eq_some_iff.1 h'
          rw [← φ.fn_builtin b] at hname
          rw [← φ.fn_injective hname, Builtin.ofName?_eq_some_iff.2 rfl] at h
          cases h

/-- The faults of a built-in quote its name, which stays. -/
theorem found_of_mem_faults {fault : RuntimeFault} (h : fault ∈ Builtin.faults)
    {f : String} (hf : φ.fn f = f) : φ.found fault f = f := by
  simp only [Builtin.faults, List.mem_cons, List.not_mem_nil, or_false] at h
  rcases h with rfl | rfl | rfl | rfl
  · rfl
  · rfl
  · rfl
  · exact hf

/-! ## Plans -/

/-- The second plan is the first one renamed: it asks for the renamed parts, and
goes on in that way with whatever they yield. -/
inductive PlanRel {y : Yield} : Plan y → Plan y → Prop
  | done {r r' : Except RuntimeError y.Result} {m m' : Machine} :
      r' = φ.result (φ.yielded y) r → m' = φ.machine m →
        PlanRel (.done r m) (.done r' m')
  | ask {y' : Yield} {s s' : Setting} {t t' : Task y'} {m m' : Machine}
      {next next' : y'.Result → Machine → Plan y} :
      s' = φ.setting s → t' = φ.task t → m' = φ.machine m →
      (∀ v m, PlanRel (next v m) (next' (φ.yielded y' v) (φ.machine m))) →
      PlanRel (.ask s t m next) (.ask s' t' m' next')

theorem outcome_andThen {α α' β β' : Type} {g : α → α'} {k : β → β'}
    (o : Outcome α) (f : α → Machine → Outcome β)
    (f' : α' → Machine → Outcome β')
    (h : ∀ a m, f' (g a) (φ.machine m) = φ.outcome k (f a m)) :
    (φ.outcome g o).andThen f' = φ.outcome k (o.andThen f) := by
  match o with
  | .spent => rfl
  | .ended (.error e) m => rfl
  | .ended (.ok a) m => exact h a m

theorem outcome_atEnd {α β : Type} {g : α → β} (o : Outcome α)
    {f f' : Machine → Machine} (h : ∀ m, f' (φ.machine m) = φ.machine (f m)) :
    (φ.outcome g o).atEnd f' = φ.outcome g (o.atEnd f) := by
  match o with
  | .spent => rfl
  | .ended r m => exact congrArg (Outcome.ended _) (h m)

/-- Answers to the renamed questions are the answers renamed. -/
def Commutes (a : Answers) : Prop :=
  ∀ y (t : Task y) m, a y (φ.task t) (φ.machine m) =
    φ.outcome (φ.yielded y) (a y t m)

theorem PlanRel.exec {a : Answers} (ha : φ.Commutes a) {y : Yield}
    {p p' : Plan y} (h : φ.PlanRel p p') :
    p'.exec a = φ.outcome (φ.yielded y) (p.exec a) := by
  induction h with
  | done hr hm =>
      rw [Plan.exec, hr, hm]
      rfl
  | @ask y' s s' t t' m m' next next' hs ht hm hnext ih =>
      rw [Plan.exec, Plan.exec, hs, ht, hm, φ.enter_setting,
        ha y' t (s.enter m)]
      rw [φ.outcome_atEnd _ (φ.leave_setting s)]
      exact φ.outcome_andThen _ _ _ ih

section Plans

variable {φ} {m : Machine} {limit : Option Nat}

theorem PlanRel.ask_last {y : Yield} {s : Setting} {t : Task y} :
    φ.PlanRel (.ask s t m fun v m => .done (.ok v) m)
      (.ask (φ.setting s) (φ.task t) (φ.machine m) fun v m =>
        .done (.ok v) m) :=
  .ask rfl rfl rfl fun _ _ => .done rfl rfl

theorem PlanRel.orElse {rest rest' : Machine → Plan .optional}
    (h : ∀ m, φ.PlanRel (rest m) (rest' (φ.machine m))) (v : Option Literal)
    (m : Machine) :
    φ.PlanRel (Plan.orElse rest v m)
      (Plan.orElse rest' (φ.yielded .optional v) (φ.machine m)) := by
  cases v with
  | some v => exact .done rfl rfl
  | none => exact h m

theorem planRel_builtin {b : Builtin} {f : Ident}
    (hb : Builtin.ofName? f.text = some b) (args : List Literal) (m : Machine) :
    φ.PlanRel (Plan.builtin b f args m)
      (Plan.builtin b (φ.functionName f) (φ.yielded .values args)
        (φ.machine m)) := by
  have hargs : (φ.yielded .values args).map Builtin.Value.ofLiteral =
      args.map Builtin.Value.ofLiteral := List.map_map
  have hf : φ.fn f.text = f.text := by
    rw [← Builtin.ofName?_eq_some_iff.1 hb, φ.fn_builtin]
  simp only [Plan.builtin, hargs]
  cases hcall : b.call (args.map Builtin.Value.ofLiteral) with
  | error fault =>
      refine .done ?_ rfl
      have hfound := φ.found_of_mem_faults (Builtin.mem_faults_of_call hcall) hf
      simp only [Ident.failure, result, error, functionName, Option.map_some,
        hf, hfound]
  | ok effect =>
      cases effect with
      | line text => exact .done rfl rfl
      | value v => exact .done (by cases v <;> rfl) rfl

theorem planRel_planExpr (e : Expr) :
    φ.PlanRel (Task.planExpr e m) (Task.planExpr (φ.expr e) (φ.machine m)) := by
  cases e with
  | literal v => exact .done rfl rfl
  | var x => exact .done (φ.read_memory m.memory x) rfl
  | binary op l r =>
      rw [expr]
      refine .ask rfl rfl rfl fun a m₁ => .ask rfl rfl rfl fun b m₂ => ?_
      exact .done (φ.apply_literal op a b) rfl
  | call f args =>
      rw [expr]
      refine .ask rfl rfl rfl fun v m₁ => ?_
      cases v with
      | none => exact .done rfl rfl
      | some v => exact .done rfl rfl

theorem planRel_planArgs (es : List Expr) :
    φ.PlanRel (Task.planArgs es m)
      (Task.planArgs (φ.exprs es) (φ.machine m)) := by
  cases es with
  | nil => exact .done rfl rfl
  | cons e es =>
      rw [exprs]
      refine .ask rfl rfl rfl fun v m₁ => .ask rfl rfl rfl fun vs m₂ => ?_
      exact .done rfl rfl

theorem planRel_planCall (f : Ident) (args : List Expr) :
    φ.PlanRel (Task.planCall limit f args m)
      (Task.planCall limit (φ.functionName f) (φ.exprs args)
        (φ.machine m)) := by
  have hname : Builtin.ofName? (φ.functionName f).text =
      Builtin.ofName? f.text :=
    φ.ofName?_fn f.text
  have hfind : (φ.machine m).memory.find (φ.functionName f) =
      φ.result φ.decl (m.memory.find f) :=
    φ.find_memory m.memory f
  unfold Task.planCall
  rw [hname, hfind]
  cases hb : Builtin.ofName? f.text with
  | some b => exact .ask rfl rfl rfl fun vs m₁ => planRel_builtin hb vs m₁
  | none =>
      cases m.memory.find f with
      | error e => exact .done rfl rfl
      | ok decl =>
          have hlength : (φ.decl decl).params.length = decl.params.length :=
            List.length_map ..
          have hargs : (φ.exprs args).length =
              args.length := by rw [exprs_eq_map, List.length_map]
          dsimp only [result]
          rw [hlength, hargs]
          by_cases hcount : decl.params.length ≠ args.length
          · rw [if_pos hcount, if_pos hcount]
            exact .done rfl rfl
          · rw [if_neg hcount, if_neg hcount]
            by_cases hlimit : limit.any (· ≤ m.calls) = true
            · have hlimit' : limit.any (· ≤ (φ.machine m).calls) = true :=
                hlimit
              rw [if_pos hlimit, if_pos hlimit']
              exact .done rfl rfl
            · have hlimit' : ¬ limit.any (· ≤ (φ.machine m).calls) = true :=
                hlimit
              rw [if_neg hlimit, if_neg hlimit']
              refine .ask rfl rfl rfl fun vs m₁ => ?_
              exact .ask rfl rfl rfl fun v m₂ => .done rfl rfl

theorem planRel_planStmt (s : Stmt) :
    φ.PlanRel (Task.planStmt s m) (Task.planStmt (φ.stmt s) (φ.machine m)) := by
  cases s with
  | declare ty x init =>
      have hvar : (φ.machine m).memory.hasVariable (φ.variableName x).text =
          m.memory.hasVariable x.text := φ.hasVariable_memory m.memory x.text
      simp only [stmt, Task.planStmt, hvar]
      split
      · exact .done rfl rfl
      · refine .ask rfl rfl rfl fun v m₁ => ?_
        by_cases hkind : v.kind = ty.type.kind
        · have hkind' : (φ.yielded .value v).kind = (φ.typeName ty).type.kind :=
            hkind
          rw [if_pos hkind, if_pos hkind']
          exact .done rfl (φ.assign_machine m₁ x.text v)
        · have hkind' : ¬ (φ.yielded .value v).kind =
              (φ.typeName ty).type.kind := hkind
          rw [if_neg hkind, if_neg hkind']
          exact .done rfl rfl
  | function f params body =>
      have hfun : (φ.machine m).memory.hasFunction (φ.functionName f).text =
          m.memory.hasFunction f.text := φ.hasFunction_memory m.memory f.text
      have hname : Builtin.ofName? (φ.functionName f).text =
          Builtin.ofName? f.text :=
        φ.ofName?_fn f.text
      simp only [stmt, Task.planStmt, hfun, hname]
      split
      · exact .done rfl rfl
      · exact .done rfl (φ.declare_machine m ⟨f, params, body⟩)
  | assign x value =>
      have hvar : (φ.machine m).memory.hasVariable (φ.variableName x).text =
          m.memory.hasVariable x.text := φ.hasVariable_memory m.memory x.text
      simp only [stmt, Task.planStmt, hvar]
      split
      · refine .ask rfl rfl rfl fun v m₁ => ?_
        exact .done rfl (φ.assign_machine m₁ x.text v)
      · exact .done rfl rfl
  | ret line value =>
      rw [stmt]
      exact .done rfl rfl
  | cond c body next =>
      rw [stmt]
      exact .ask_last
  | loop c body =>
      rw [stmt]
      exact .ask_last
  | call f args =>
      rw [stmt]
      exact .ask_last

theorem planRel_planBranch (c : Expr) (body : List Stmt) (next : ElseChain) :
    φ.PlanRel (Task.planBranch c body next m)
      (Task.planBranch (φ.expr c) (φ.stmts body) (φ.chain next)
        (φ.machine m)) := by
  refine .ask rfl rfl rfl fun v m₁ => ?_
  have htrue : (φ.yielded .value v).isTrue = v.isTrue := rfl
  rw [htrue]
  split
  · exact .ask_last
  · cases next with
    | none => exact .done rfl rfl
    | elseIf c body next =>
        rw [chain]
        exact .ask_last
    | otherwise body =>
        rw [chain]
        exact .ask_last

theorem planRel_planLoop (c : Expr) (body : List Stmt) :
    φ.PlanRel (Task.planLoop c body m)
      (Task.planLoop (φ.expr c) (φ.stmts body) (φ.machine m)) := by
  refine .ask rfl rfl rfl fun v m₁ => ?_
  have htrue : (φ.yielded .value v).isTrue = v.isTrue := rfl
  rw [htrue]
  split
  · exact .ask rfl rfl rfl (.orElse fun m₂ => .ask_last)
  · exact .done rfl rfl

theorem planRel_planBody (body : List Stmt) :
    φ.PlanRel (Task.planBody body m)
      (Task.planBody (φ.stmts body) (φ.machine m)) := by
  cases body with
  | nil => exact .done rfl rfl
  | cons s rest =>
      rw [stmts]
      cases s with
      | ret line value =>
          rw [stmt]
          cases value with
          | none => exact .done rfl rfl
          | some e => exact .ask rfl rfl rfl fun v m₁ => .done rfl rfl
      | _ =>
          -- a body looks only at whether a statement is a `return`
          rw [stmt]
          exact .ask rfl rfl rfl (.orElse fun m₁ => .ask_last)

theorem planRel_plan {y : Yield} (t : Task y) :
    φ.PlanRel (t.plan limit m) ((φ.task t).plan limit (φ.machine m)) := by
  cases t with
  | expr e => exact planRel_planExpr e
  | arguments es => exact planRel_planArgs es
  | call f args => exact planRel_planCall f args
  | stmt s => exact planRel_planStmt s
  | branch c body next => exact planRel_planBranch c body next
  | loop c body => exact planRel_planLoop c body
  | statements body => exact planRel_planBody body

end Plans

/-! ## Runs -/

theorem run_task (limit : Option Nat) (n : Nat) :
    φ.Commutes (answers limit n) := by
  intro y t m
  induction n generalizing y m with
  | zero =>
      rw [answers, Task.run_zero, answers, Task.run_zero]
      rfl
  | succ n ih =>
      rw [answers, Task.run_succ, answers, Task.run_succ]
      exact PlanRel.exec φ (fun y t m => ih y t m) (planRel_plan t)

/-- Running the renamed program on the renamed machine is the run renamed. -/
theorem runProgram_stmts (limit : Option Nat) (n : Nat) (p : Program)
    (m : Machine) :
    runProgram limit n (φ.stmts p) (φ.machine m) =
      φ.outcome id (runProgram limit n p m) := by
  induction p generalizing m with
  | nil => rfl
  | cons s rest ih =>
      have hs : execStmt limit n (φ.stmt s) (φ.machine m) =
          φ.outcome (φ.yielded .optional) (execStmt limit n s m) :=
        φ.run_task limit n _ (.stmt s) m
      rw [stmts, runProgram, runProgram, hs]
      exact φ.outcome_andThen _ _ _ fun _ m₁ => ih m₁

end Renaming

end Quill
