import Quill.Diagnostic
import Quill.Literal

/-!
# Binary operators

Operators work on the texts of their operands. Truth is the text `true`,
equality is equality of texts, so `4 == 04` is false, and an integer is
whatever reads as a word. Arithmetic is done on exact integers and fails where
the result is no word. A result stands on the operator's line, and so does a
failure.
-/

namespace Quill.Operator

/-- A failure of the operator itself. -/
def failure (op : Token) (fault : RuntimeFault) : RuntimeError :=
  ⟨fault, op.line, some op.text⟩

/-- An operand as an integer; one that does not read as a word is quoted. -/
def integer (op : Token) (v : Literal) : Except RuntimeError Int :=
  match v.word? with
  | some w => .ok w.toInt
  | none => .error ⟨.expectedInteger, op.line, some v.text⟩

/-- Both operands as integers. The left one is looked at first. -/
def integers (op : Token) (l r : Literal) :
    Except RuntimeError (Int × Int) := do
  let a ← integer op l
  let b ← integer op r
  return (a, b)

/-- An exact result, which must be a word. -/
def exact (op : Token) (z : Int) : Except RuntimeError Literal :=
  match Word.ofInt? z with
  | some w => .ok (.ofWord w op.line)
  | none => .error (failure op .integerOverflow)

/-- A truth value as a result. -/
def truth (op : Token) (b : Bool) : Except RuntimeError Literal :=
  .ok (.ofBool b op.line)

def compare (op : Token) (rel : Int → Int → Bool) (l r : Literal) :
    Except RuntimeError Literal := do
  let (a, b) ← integers op l r
  truth op (rel a b)

def compute (op : Token) (f : Int → Int → Int) (l r : Literal) :
    Except RuntimeError Literal := do
  let (a, b) ← integers op l r
  exact op (f a b)

/-- Division toward zero. There is a remainder only where there is a quotient:
the least word divided by -1 has neither. -/
def divide (op : Token) (f : Int → Int → Int) (l r : Literal) :
    Except RuntimeError Literal := do
  let (a, b) ← integers op l r
  if b = 0 then throw (failure op .divisionByZero)
  let _ ← exact op (a.tdiv b)
  exact op (f a b)

/-- The value of `l op r`. -/
def apply (op : Token) (l r : Literal) : Except RuntimeError Literal :=
  match op.kind with
  | .symbol .orOr => truth op (l.isTrue || r.isTrue)
  | .symbol .andAnd => truth op (l.isTrue && r.isTrue)
  | .symbol .eqEq => truth op (l.text == r.text)
  | .symbol .ne => truth op (l.text != r.text)
  | .symbol .le => compare op (· ≤ ·) l r
  | .symbol .ge => compare op (· ≥ ·) l r
  | .symbol .gt => compare op (· > ·) l r
  | .symbol .lt => compare op (· < ·) l r
  | .symbol .plus =>
    if l.kind = .str ∨ r.kind = .str then
      .ok (.ofString (l.text ++ r.text) op.line)
    else compute op (· + ·) l r
  | .symbol .minus => compute op (· - ·) l r
  | .symbol .star => compute op (· * ·) l r
  | .symbol .slash => divide op Int.tdiv l r
  | .symbol .percent => divide op Int.tmod l r
  | _ => .error (failure op .invalidExpression)

end Quill.Operator
