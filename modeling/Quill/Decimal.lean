/-!
# Decimal integers

Integers are written with the fewest digits and a minus sign where they are
negative. They are read more freely: leading zeros and a plus sign are allowed.
The numbers a program computes with are the 64-bit words, and a word carries
its range, so no arithmetic outside it can go unnoticed: a result is an exact
integer first and a word only if it fits.
-/

namespace Quill

namespace Decimal

/-- The shortest decimal text of an integer. -/
def text : Int → String
  | .ofNat n => n.repr
  | .negSucc n => "-" ++ (n + 1).repr

/-- Reads one or more ASCII digits. -/
def digits? (cs : List Char) : Option Nat :=
  if cs ≠ [] ∧ cs.all Char.isDigit then some (Nat.ofDigitChars 10 cs 0)
  else none

/-- Reads digits after an optional plus sign. -/
def natural? (s : String) : Option Nat :=
  match s.toList with
  | '+' :: cs => digits? cs
  | cs => digits? cs

/-- Reads digits after an optional sign. -/
def integer? (s : String) : Option Int :=
  match s.toList with
  | '-' :: cs => (digits? cs).map fun n => -(n : Int)
  | '+' :: cs => (digits? cs).map fun n => (n : Int)
  | cs => (digits? cs).map fun n => (n : Int)

theorem digits?_repr (n : Nat) : digits? n.repr.toList = some n := by
  have digits : (Nat.toDigits 10 n).all Char.isDigit = true := by
    simpa using fun c => Nat.isDigit_of_mem_toDigits (by decide) (by decide)
  simp [digits?, Nat.repr_eq_ofList_toDigits, Nat.toDigits_ne_nil, digits,
    Nat.ofDigitChars_toDigits]

/-- Digits have no sign in front of them. -/
theorem integer?_of_digits? {s : String} {n : Nat}
    (h : digits? s.toList = some n) : integer? s = some (n : Int) := by
  have hsign : ∀ c cs, c.isDigit = false → s.toList ≠ c :: cs := by
    intro c cs hc hs
    simp [hs, digits?, hc] at h
  unfold integer?
  split
  · next cs hs => exact absurd hs (hsign '-' cs (by decide))
  · next cs hs => exact absurd hs (hsign '+' cs (by decide))
  · rw [h]
    rfl

theorem integer?_text (z : Int) : integer? (text z) = some z := by
  cases z with
  | ofNat n => exact integer?_of_digits? (digits?_repr n)
  | negSucc n =>
      have hsign : (text (.negSucc n)).toList = '-' :: (n + 1).repr.toList :=
        String.toList_append
      simp only [integer?, hsign, digits?_repr]
      rfl

end Decimal

/-- An integer that fits in 64 bits, one of them the sign. -/
structure Word where
  toInt : Int
  lower : -0x8000000000000000 ≤ toInt
  upper : toInt < 0x8000000000000000
  deriving DecidableEq, Repr

namespace Word

/-- The word with this value, if the value fits. -/
def ofInt? (z : Int) : Option Word :=
  if h : -0x8000000000000000 ≤ z ∧ z < 0x8000000000000000 then
    some ⟨z, h.1, h.2⟩
  else none

/-- Reads a word: an optional sign and digits, in range. -/
def ofText? (s : String) : Option Word :=
  (Decimal.integer? s).bind ofInt?

/-- The shortest decimal text of a word. -/
def text (w : Word) : String :=
  Decimal.text w.toInt

theorem ofInt?_eq_some_iff {z : Int} {w : Word} :
    ofInt? z = some w ↔ w.toInt = z := by
  constructor
  · intro h
    unfold ofInt? at h
    split at h
    · rw [← Option.some.inj h]
    · simp at h
  · rintro rfl
    exact dif_pos ⟨w.lower, w.upper⟩

@[simp] theorem ofInt?_toInt (w : Word) : ofInt? w.toInt = some w :=
  ofInt?_eq_some_iff.2 rfl

@[simp] theorem ofText?_text (w : Word) : ofText? w.text = some w := by
  rw [ofText?, text, Decimal.integer?_text, Option.bind_some, ofInt?_toInt]

end Word

end Quill
