import Quill.Diagnostic
import Quill.Tree.Basic

/-!
# Reading expressions

An expression is read one token at a time. What has been read so far is kept as
a pushdown state: the operators of the innermost open expression that still
wait for a right operand, and one layer for each parenthesis or argument list
around it. Nothing is read twice and nothing is looked at ahead: an operator
first folds the waiting operators that bind at least as tightly as itself, which
makes every level group to the left, and a name becomes a call only when the
next token opens its argument list.

A token that cannot continue the expression ends it. Whether the token may
stand there is for the statement around to say.
-/

namespace Quill

/-- A fault at a token. A line end has no text worth showing. -/
def Token.blame (t : Token) (fault : SyntaxFault) : SyntaxError :=
  ⟨fault, t.line, if t.kind = .newline then none else some t.text⟩

/-- An operator with its left operand, waiting for the right one. -/
structure Pending where
  left : Expr
  op : Token
  level : Nat
  deriving Repr

/-- Folds into `e` the waiting operators, innermost first, that bind at least as
tightly as `level`. The others are left waiting. -/
def Pending.fold (level : Nat) : List Pending → Expr → List Pending × Expr
  | [], e => ([], e)
  | p :: ps, e =>
    if level ≤ p.level then Pending.fold level ps (.binary p.op p.left e)
      else (p :: ps, e)

/-- What has opened a nested expression. -/
inductive Opening where
  | group
  /-- The arguments of a call that are already read, the latest first. -/
  | call (f : Ident) (args : List Expr)
  deriving Repr

/-- Where in the innermost open expression the reader stands. -/
inductive Focus where
  /-- An operand must follow. -/
  | operand
  /-- A name is read: an operand, or a call if its arguments follow. -/
  | name (x : Ident)
  /-- The arguments of a call are opened: the first one or their end must
  follow. -/
  | arguments (f : Ident)
  /-- An operand is read. -/
  | value (e : Expr)
  deriving Repr

/-- An expression that is partly read. -/
structure ExprReader where
  /-- The waiting operators of the innermost open expression, innermost
  first. -/
  pending : List Pending
  /-- What has opened each nested expression, innermost first, with the waiting
  operators of the expression around it. -/
  nested : List (Opening × List Pending)
  focus : Focus
  deriving Repr

/-- What one more token does to an expression. -/
inductive ExprReader.Progress where
  | reading (r : ExprReader)
  /-- The expression was complete before the token. -/
  | finished (e : Expr)
  deriving Repr

namespace ExprReader

/-- The reader of an expression of which nothing is read. -/
def start : ExprReader :=
  ⟨[], [], .operand⟩

/-- Reads a token where an operand must follow. -/
def takeOperand (r : ExprReader) (t : Token) : Except SyntaxError ExprReader :=
  match Literal.ofToken? t with
  | some v => .ok { r with focus := .value (.literal v) }
  | none =>
    match t.kind with
    | .name => .ok { r with focus := .name ⟨t.text, t.line⟩ }
    | .symbol .lparen => .ok ⟨[], (.group, r.pending) :: r.nested, .operand⟩
    | _ => .error (t.blame .invalidExpression)

/-- Reads a token after the operand `e`. -/
def takeAfter (r : ExprReader) (e : Expr) (t : Token) :
    Except SyntaxError Progress :=
  match t.kind.level? with
  | some level =>
    let (pending, left) := Pending.fold level r.pending e
    .ok (.reading
      { r with pending := ⟨left, t, level⟩ :: pending, focus := .operand })
  | none =>
    let e := (Pending.fold 0 r.pending e).2
    match r.nested with
    | [] => .ok (.finished e)
    | (.group, outer) :: nested =>
      match t.kind with
      | .symbol .rparen => .ok (.reading ⟨outer, nested, .value e⟩)
      | _ => .error (t.blame .expectClosingParen)
    | (.call f args, outer) :: nested =>
      match t.kind with
      | .symbol .comma =>
        .ok (.reading ⟨[], (.call f (e :: args), outer) :: nested, .operand⟩)
      | .symbol .rparen =>
        .ok (.reading ⟨outer, nested, .value (.call f (e :: args).reverse)⟩)
      | _ => .error (t.blame .expectClosingParen)

/-- Reads one token. -/
def step (r : ExprReader) (t : Token) : Except SyntaxError Progress :=
  match r.focus with
  | .operand => (r.takeOperand t).map .reading
  | .name x =>
    match t.kind with
    | .symbol .lparen => .ok (.reading { r with focus := .arguments x })
    | _ => r.takeAfter (.var x) t
  | .arguments f =>
    match t.kind with
    | .symbol .rparen => .ok (.reading { r with focus := .value (.call f []) })
    | _ =>
      let first : ExprReader :=
        ⟨[], (.call f [], r.pending) :: r.nested, .operand⟩
      (first.takeOperand t).map .reading
  | .value e => r.takeAfter e t

end ExprReader

end Quill
