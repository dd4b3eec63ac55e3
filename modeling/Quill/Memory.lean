import Quill.Diagnostic
import Quill.Tree.Basic

/-!
# Memory

Memory is a stack of scopes, and a scope binds variables and functions by name,
each in a name space of its own. A look-up goes from the innermost scope
outwards through the whole stack: a function body sees the variables of its
callers.

Bindings are kept in the order in which their names came in. Setting a name
that is there already replaces its value where it stands, so it leaves the
list of names as it is.
-/

namespace Quill

/-- Named values, each name once, in the order in which the names came in. -/
abbrev Bindings (α : Type) := List (String × α)

namespace Bindings

variable {α : Type}

/-- The names that are bound. -/
def names (b : Bindings α) : List String :=
  b.map Prod.fst

/-- The value of a name. -/
def get? : Bindings α → String → Option α
  | [], _ => none
  | (y, w) :: b, x => if y = x then some w else get? b x

def contains (b : Bindings α) (x : String) : Bool :=
  (b.get? x).isSome

/-- Gives a name a value: in its place if it is bound, at the end if it is
new. -/
def set : Bindings α → String → α → Bindings α
  | [], x, v => [(x, v)]
  | (y, w) :: b, x, v => if y = x then (y, v) :: b else (y, w) :: set b x v

@[simp] theorem get?_set_self (b : Bindings α) (x : String) (v : α) :
    (b.set x v).get? x = some v := by
  induction b with
  | nil => simp [set, get?]
  | cons p b ih => by_cases h : p.1 = x <;> simp [set, get?, h, ih]

theorem get?_set_of_ne (b : Bindings α) {x y : String} (v : α) (h : y ≠ x) :
    (b.set x v).get? y = b.get? y := by
  induction b with
  | nil => simp [set, get?, Ne.symm h]
  | cons p b ih =>
      by_cases hx : p.1 = x
      · simp [set, get?, hx, Ne.symm h]
      · simp [set, get?, hx, ih]

/-- Setting a name adds it to the names unless it is one of them. -/
theorem names_set (b : Bindings α) (x : String) (v : α) :
    (b.set x v).names = if b.contains x then b.names else b.names ++ [x] := by
  induction b with
  | nil => rfl
  | cons p b ih =>
      by_cases hx : p.1 = x
      · simp [set, names, contains, get?, hx]
      · simp only [names, contains] at ih
        by_cases hb : (get? b x).isSome <;>
          simp [set, names, contains, get?, hx, ih, hb]

end Bindings

/-- The names that one block declares. -/
structure Scope where
  vars : Bindings Literal
  funs : Bindings FunDecl

/-- A scope without names. -/
def Scope.empty : Scope :=
  ⟨[], []⟩

/-- The open scopes, the innermost first. -/
structure Memory where
  scopes : List Scope

namespace Memory

/-- Memory with the global scope alone. -/
def fresh : Memory :=
  ⟨[.empty]⟩

/-- How many scopes are open. -/
def depth (m : Memory) : Nat :=
  m.scopes.length

/-- Opens a scope. -/
def enter (m : Memory) : Memory :=
  ⟨.empty :: m.scopes⟩

/-- Closes the innermost scope, if there is one. -/
def leave (m : Memory) : Memory :=
  ⟨m.scopes.tail⟩

/-- The innermost value of a variable. -/
def value? (m : Memory) (x : String) : Option Literal :=
  m.scopes.findSome? (·.vars.get? x)

def hasVariable (m : Memory) (x : String) : Bool :=
  (m.value? x).isSome

/-- The innermost function of a name. -/
def function? (m : Memory) (f : String) : Option FunDecl :=
  m.scopes.findSome? (·.funs.get? f)

def hasFunction (m : Memory) (f : String) : Bool :=
  (m.function? f).isSome

/-- Changes the innermost scope, after opening one if none is open. -/
def inInnermost (m : Memory) (change : Scope → Scope) : Memory :=
  match m.scopes with
  | [] => ⟨[change .empty]⟩
  | s :: rest => ⟨change s :: rest⟩

/-- Binds a variable in the innermost scope, whatever the scopes around bind. -/
def bind (m : Memory) (x : String) (v : Literal) : Memory :=
  m.inInnermost fun s => { s with vars := s.vars.set x v }

/-- Declares a function in the innermost scope. -/
def declare (m : Memory) (f : FunDecl) : Memory :=
  m.inInnermost fun s => { s with funs := s.funs.set f.name.text f }

/-- Gives `x` the value `v` in the innermost of `scopes` that binds it. -/
def replace (x : String) (v : Literal) : List Scope → List Scope
  | [] => []
  | s :: rest =>
    if s.vars.contains x then { s with vars := s.vars.set x v } :: rest
    else s :: replace x v rest

/-- Gives a variable a value where it is bound, or in the innermost scope if it
is bound nowhere. -/
def assign (m : Memory) (x : String) (v : Literal) : Memory :=
  if m.hasVariable x then ⟨replace x v m.scopes⟩ else m.bind x v

/-- The value of a variable where it is read. -/
def read (m : Memory) (x : Ident) : Except RuntimeError Literal :=
  match m.value? x.text with
  | some v => .ok v
  | none => .error ⟨.undeclaredVariable, x.line, some x.text⟩

/-- The function of a name where it is called. -/
def find (m : Memory) (f : Ident) : Except RuntimeError FunDecl :=
  match m.function? f.text with
  | some decl => .ok decl
  | none => .error ⟨.undeclaredFunction, f.line, some f.text⟩

end Memory

end Quill
