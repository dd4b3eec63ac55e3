import Quill.Machine
import Quill.Operator

/-!
# Running programs

A statement yields a value or none, and yielding a value is how a program leaves
its blocks early: a block ends with the first value that one of its statements
yields, and so does every block around it, up to the body of the function that
is running. `return` with a value yields it; `return` alone ends its own block
and yields nothing; a call that is a statement yields what the function does.

`limit` bounds how many bodies of declared functions may run inside each other;
without it they may nest as deep as they like. Every function below spends one
unit of its budget before it hands the rest on, so the budget bounds how deep
the evaluation goes, counting each round of a loop as one level, and not how
long it takes.
-/

namespace Quill

/-- A fault at a name: it is on the name's line and quotes it. -/
def Ident.failure (x : Ident) (fault : RuntimeFault) : RuntimeError :=
  ⟨fault, x.line, some x.text⟩

/-- Calls the built-in `b` from the place of the name `f`. -/
def runBuiltin (b : Builtin) (f : Ident) (args : List Literal) (m : Machine) :
    Outcome (Option Literal) :=
  match b.call (args.map Builtin.Value.ofLiteral) with
  | .error fault => .ended (.error (f.failure fault)) m
  | .ok (.line text) => .ended (.ok none) (m.print text)
  | .ok (.value v) => .ended (.ok (some (v.toLiteral f.line))) m

mutual

/-- The value of an expression. -/
def evalExpr (limit : Option Nat) : Nat → Expr → Machine → Outcome Literal
  | 0, _, _ => .spent
  | n + 1, e, m =>
    match e with
    | .literal v => .ended (.ok v) m
    | .var x => .ended (m.memory.read x) m
    | .binary op l r =>
      (evalExpr limit n l m).andThen fun a m =>
      (evalExpr limit n r m).andThen fun b m =>
      .ended (Operator.apply op a b) m
    | .call f args =>
      (evalCall limit n f args m).andThen fun v m =>
      match v with
      | some v => .ended (.ok v) m
      | none => .ended (.error (f.failure .expectedReturn)) m

/-- The values of expressions, from left to right. -/
def evalArgs (limit : Option Nat) :
    Nat → List Expr → Machine → Outcome (List Literal)
  | 0, _, _ => .spent
  | n + 1, es, m =>
    match es with
    | [] => .ended (.ok []) m
    | e :: es =>
      (evalExpr limit n e m).andThen fun v m =>
      (evalArgs limit n es m).andThen fun vs m =>
      .ended (.ok (v :: vs)) m

/-- Calls a function, a built-in if there is one of that name. Whether a
declared function may be called is settled before its arguments are
evaluated. -/
def evalCall (limit : Option Nat) :
    Nat → Ident → List Expr → Machine → Outcome (Option Literal)
  | 0, _, _, _ => .spent
  | n + 1, f, args, m =>
    match Builtin.ofName? f.text with
    | some b => (evalArgs limit n args m).andThen (runBuiltin b f)
    | none =>
      match m.memory.find f with
      | .error e => .ended (.error e) m
      | .ok decl =>
        if decl.params.length ≠ args.length then
          .ended (.error (f.failure .invalidNumberOfArgs)) m
        else if limit.any (· ≤ m.calls) then
          .ended (.error (f.failure .recursionLimit)) m
        else
          (evalArgs limit n args m).andThen fun vs m =>
          let bindings := (decl.params.map (·.name.text)).zip vs
          (m.beginCall.inScope bindings (execBody limit n decl.body)).atEnd
            Machine.endCall

/-- Runs a statement. A `return` has a meaning only inside a block, so one that
comes here stands outside every block. -/
def execStmt (limit : Option Nat) :
    Nat → Stmt → Machine → Outcome (Option Literal)
  | 0, _, _ => .spent
  | n + 1, s, m =>
    match s with
    | .declare ty x init =>
      if m.memory.hasVariable x.text then
        .ended (.error (x.failure .declaredVariable)) m
      else
        (evalExpr limit n init m).andThen fun v m =>
        if v.kind = ty.type.kind then .ended (.ok none) (m.assign x.text v)
        else .ended (.error (x.failure .invalidVariableType)) m
    | .function f params body =>
      if m.memory.hasFunction f.text || (Builtin.ofName? f.text).isSome then
        .ended (.error (f.failure .declaredFunction)) m
      else
        .ended (.ok none) (m.declare ⟨f, params, body⟩)
    | .assign x value =>
      if m.memory.hasVariable x.text then
        (evalExpr limit n value m).andThen fun v m =>
          .ended (.ok none) (m.assign x.text v)
      else
        .ended (.error (x.failure .undeclaredVariable)) m
    | .ret line _ => .ended (.error ⟨.invalidStatement, line, some "return"⟩) m
    | .cond c body next => execBranch limit n c body next m
    | .loop c body => execLoop limit n c body m
    | .call f args => evalCall limit n f args m

/-- Runs `body` if the condition holds, and otherwise what follows it. -/
def execBranch (limit : Option Nat) :
    Nat → Expr → List Stmt → ElseChain → Machine → Outcome (Option Literal)
  | 0, _, _, _, _ => .spent
  | n + 1, c, body, next, m =>
    (evalExpr limit n c m).andThen fun v m =>
    if v.isTrue then
      m.inScope [] (execBody limit n body)
    else
      match next with
      | .none => .ended (.ok none) m
      | .elseIf c body next => execBranch limit n c body next m
      | .otherwise body => m.inScope [] (execBody limit n body)

/-- Runs `body` as long as the condition holds and the body yields no value. -/
def execLoop (limit : Option Nat) :
    Nat → Expr → List Stmt → Machine → Outcome (Option Literal)
  | 0, _, _, _ => .spent
  | n + 1, c, body, m =>
    (evalExpr limit n c m).andThen fun v m =>
    if v.isTrue then
      (m.inScope [] (execBody limit n body)).andThen fun v m =>
      match v with
      | some v => .ended (.ok (some v)) m
      | none => execLoop limit n c body m
    else
      .ended (.ok none) m

/-- Runs the statements of a block one after the other, in the scope they
find. -/
def execBody (limit : Option Nat) :
    Nat → List Stmt → Machine → Outcome (Option Literal)
  | 0, _, _ => .spent
  | n + 1, body, m =>
    match body with
    | [] => .ended (.ok none) m
    | .ret _ none :: _ => .ended (.ok none) m
    | .ret _ (some e) :: _ =>
      (evalExpr limit n e m).andThen fun v m => .ended (.ok (some v)) m
    | s :: rest =>
      (execStmt limit n s m).andThen fun v m =>
      match v with
      | some v => .ended (.ok (some v)) m
      | none => execBody limit n rest m

end

/-- Runs the statements of a program; what they yield is dropped. -/
def runProgram (limit : Option Nat) (n : Nat) :
    List Stmt → Machine → Outcome Unit
  | [], m => .ended (.ok ()) m
  | s :: rest, m =>
    (execStmt limit n s m).andThen fun _ m => runProgram limit n rest m

end Quill
