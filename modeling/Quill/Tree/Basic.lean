import Quill.Literal

/-!
# Programs as trees

A program is a list of statements. Every node keeps the tokens it was made
from, as far as a diagnostic or a listing can show them: names and constants
with their lines, operators and type words whole. An operator is any token, as
a tree need not come from a source text; one that is no binary operator fails
when it is evaluated.

The statements after an `if` are kept as a chain: `else if` is a link of the
same conditional and not a block with another conditional in it.
-/

namespace Quill

/-- A name where it is written: a variable, a parameter or a function. -/
structure Ident where
  text : String
  line : Nat
  deriving DecidableEq, Repr

def Ident.token (x : Ident) : Token :=
  ⟨.name, x.text, x.line⟩

/-- The types that a variable can be declared with. -/
inductive DeclType where
  | int
  | str
  | bool
  deriving DecidableEq, Repr

namespace DeclType

/-- The kind of the values of a type. -/
def kind : DeclType → ValueKind
  | .int => .int
  | .str => .str
  | .bool => .bool

def keyword : DeclType → Keyword
  | .int => .int
  | .str => .str
  | .bool => .bool

def ofTokenKind? : Token.Kind → Option DeclType
  | .keyword .int => some .int
  | .keyword .str => some .str
  | .keyword .bool => some .bool
  | _ => none

theorem ofTokenKind?_eq_some_iff {k : Token.Kind} {ty : DeclType} :
    ofTokenKind? k = some ty ↔ .keyword ty.keyword = k := by
  constructor
  · intro h
    unfold ofTokenKind? at h
    split at h <;> cases h <;> rfl
  · rintro rfl
    cases ty <;> rfl

end DeclType

/-- A type where it is written. -/
structure TypeName where
  type : DeclType
  text : String
  line : Nat
  deriving DecidableEq, Repr

namespace TypeName

def token (ty : TypeName) : Token :=
  ⟨.keyword ty.type.keyword, ty.text, ty.line⟩

/-- The type that a type word names. -/
def ofToken? (t : Token) : Option TypeName :=
  (DeclType.ofTokenKind? t.kind).map fun ty => ⟨ty, t.text, t.line⟩

theorem ofToken?_eq_some_iff {t : Token} {ty : TypeName} :
    ofToken? t = some ty ↔ ty.token = t := by
  constructor
  · intro h
    obtain ⟨d, hd, rfl⟩ := Option.map_eq_some_iff.1 h
    rw [token, DeclType.ofTokenKind?_eq_some_iff.1 hd]
  · rintro rfl
    rw [ofToken?, token, DeclType.ofTokenKind?_eq_some_iff.2 rfl]
    rfl

end TypeName

/-- A parameter of a function. Its type is kept and never checked. -/
structure Param where
  type : TypeName
  name : Ident
  deriving DecidableEq, Repr

inductive Expr where
  | literal (v : Literal)
  | var (x : Ident)
  | binary (op : Token) (left right : Expr)
  | call (f : Ident) (args : List Expr)
  deriving Repr

/-- The line a diagnostic gives for an expression. -/
def Expr.line : Expr → Nat
  | .literal v => v.line
  | .var x => x.line
  | .binary op _ _ => op.line
  | .call f _ => f.line

mutual

inductive Stmt where
  /-- A declaration, `type x = init`. -/
  | declare (type : TypeName) (x : Ident) (init : Expr)
  /-- A function, `fun f(params) body`. -/
  | function (f : Ident) (params : List Param) (body : List Stmt)
  /-- An assignment, `x = value`. -/
  | assign (x : Ident) (value : Expr)
  /-- A `return` with or without a value. -/
  | ret (line : Nat) (value : Option Expr)
  /-- A conditional, `if cond body` and what follows it. -/
  | cond (cond : Expr) (body : List Stmt) (next : ElseChain)
  /-- A loop, `while cond body`. -/
  | loop (cond : Expr) (body : List Stmt)
  /-- A call, `f(args)`, for its effect. -/
  | call (f : Ident) (args : List Expr)

/-- What follows the block of an `if`. -/
inductive ElseChain where
  | none
  /-- A further condition, `else if cond body` and what follows it. -/
  | elseIf (cond : Expr) (body : List Stmt) (next : ElseChain)
  /-- The last block, `else body`. -/
  | otherwise (body : List Stmt)

end

/-- A declared function. -/
structure FunDecl where
  name : Ident
  params : List Param
  body : List Stmt

/-- The statement that declares the function. -/
def FunDecl.declaration (f : FunDecl) : Stmt :=
  .function f.name f.params f.body

/-- The line a listing gives for a statement. -/
def Stmt.line : Stmt → Nat
  | .declare ty _ _ => ty.line
  | .function f _ _ => f.line
  | .assign x _ => x.line
  | .ret line _ => line
  | .cond c _ _ => c.line
  | .loop c _ => c.line
  | .call f _ => f.line

end Quill
