import Quill.Diagnostic
import Quill.Literal

/-!
# Built-in functions

The built-ins see a value as the thing it stands for: an integer is a word, and
only one too wide for a word stays a text. What a built-in does is either to
write a line or to have a value. A failure is a fault alone; where it happened
is for the call to say.
-/

namespace Quill

/-- A value as the built-ins see it. -/
inductive Builtin.Value where
  | int (w : Word)
  /-- An integer that is no word, as it is written. -/
  | wide (text : String)
  | bool (b : Bool)
  | str (text : String)
  | null
  deriving DecidableEq, Repr

namespace Builtin.Value

def ofLiteral (v : Literal) : Value :=
  match v.kind with
  | .int =>
    match v.word? with
    | some w => .int w
    | none => .wide v.text
  | .bool => .bool v.isTrue
  | .str => .str v.text
  | .null => .null

/-- The value as a literal. There is no null literal to give back, so null
becomes the string `null`. -/
def toLiteral (line : Nat) : Value → Literal
  | .int w => .ofWord w line
  | .wide text => .ofIntText text line
  | .bool b => .ofBool b line
  | .str text => .ofString text line
  | .null => .ofString "null" line

def text : Value → String
  | .int w => w.text
  | .wide text => text
  | .bool true => "true"
  | .bool false => "false"
  | .str text => text
  | .null => "null"

/-- Integers of any width. -/
def isInteger : Value → Bool
  | .int _ | .wide _ => true
  | .bool _ | .str _ | .null => false

end Builtin.Value

/-- The functions that every program has. -/
inductive Builtin where
  | print
  | pow
  | len
  deriving DecidableEq, Repr

/-- What a call of a built-in does: it writes a line or has a value. -/
inductive Builtin.Effect where
  | line (text : String)
  | value (v : Builtin.Value)
  deriving DecidableEq, Repr

namespace Builtin

def name : Builtin → String
  | .print => "print"
  | .pow => "pow"
  | .len => "len"

def all : List Builtin :=
  [.print, .pow, .len]

/-- The built-in with this name. -/
def ofName? (name : String) : Option Builtin :=
  all.find? fun b => b.name == name

theorem ofName?_eq_some_iff {name : String} {b : Builtin} :
    ofName? name = some b ↔ b.name = name := by
  constructor
  · intro h
    simpa using List.find?_some h
  · rintro rfl
    cases b <;> decide

/-- The power `b ^ e` toward zero, for `b ≠ 0` or `e ≥ 0`; none if it is
certainly no word. A base beyond ±1 has doubled past every word after 64
factors, so larger exponents need no multiplication. -/
def power? (b e : Int) : Option Int :=
  if b = 1 then some 1
  else if b = -1 then some (if e % 2 = 0 then 1 else -1)
  else if e < 0 then some 0
  else if b = 0 then some (if e = 0 then 1 else 0)
  else if e < 64 then some (b.pow e.toNat)
  else none

/-- Exact exponentiation of words. -/
def power (b e : Word) : Except RuntimeFault Word :=
  if b.toInt = 0 ∧ e.toInt < 0 then .error .divisionByZero
  else
    match (power? b.toInt e.toInt).bind Word.ofInt? with
    | some w => .ok w
    | none => .error .integerOverflow

/-- A result as a word. -/
def exact (z : Int) : Except RuntimeFault Word :=
  match Word.ofInt? z with
  | some w => .ok w
  | none => .error .integerOverflow

/-- How many characters the text of a value has. -/
def length (v : Value) : Except RuntimeFault Word :=
  exact v.text.length

/-- Calls a built-in. -/
def call : Builtin → List Value → Except RuntimeFault Effect
  | .print, args => .ok (.line (" ".intercalate (args.map Value.text)))
  | .pow, [.int b, .int e] => (power b e).map fun w => .value (.int w)
  | .pow, [b, e] =>
    .error (if b.isInteger && e.isInteger then .integerOverflow
      else .expectedInteger)
  | .pow, _ => .error .invalidNumberOfArgs
  | .len, [v] => (length v).map fun w => .value (.int w)
  | .len, _ => .error .invalidNumberOfArgs

/-- What a call does that does not fail: `print` writes a line, and the others
have words as values. -/
theorem call_eq_ok {b : Builtin} {args : List Value} {effect : Effect}
    (h : b.call args = .ok effect) :
    (b = .print ∧ effect = .line (" ".intercalate (args.map Value.text))) ∨
      ∃ w, effect = .value (.int w) := by
  have word : ∀ {r : Except RuntimeFault Word},
      (r.map fun w => Effect.value (.int w)) = .ok effect → ∃ w,
        effect = .value (.int w) := by
    intro r hr
    cases r with
    | error fault => cases hr
    | ok w => exact ⟨w, (Except.ok.inj hr).symm⟩
  unfold call at h
  split at h
  · exact .inl ⟨rfl, (Except.ok.inj h).symm⟩
  · exact .inr (word h)
  · cases h
  · cases h
  · exact .inr (word h)
  · cases h

theorem power_eq_error {b e : Word} {fault : RuntimeFault}
    (h : power b e = .error fault) :
    fault = .divisionByZero ∨ fault = .integerOverflow := by
  unfold power at h
  split at h
  · exact .inl (Except.error.inj h).symm
  · split at h
    · cases h
    · exact .inr (Except.error.inj h).symm

theorem exact_eq_error {z : Int} {fault : RuntimeFault}
    (h : exact z = .error fault) : fault = .integerOverflow := by
  unfold exact at h
  split at h
  · cases h
  · exact (Except.error.inj h).symm

/-- The faults of the built-ins. -/
def faults : List RuntimeFault :=
  [.divisionByZero, .expectedInteger, .integerOverflow, .invalidNumberOfArgs]

theorem mem_faults_of_call {b : Builtin} {args : List Value}
    {fault : RuntimeFault} (h : b.call args = .error fault) :
    fault ∈ faults := by
  have word : ∀ {r : Except RuntimeFault Word},
      (r.map fun w => Effect.value (.int w)) = .error fault →
        r = .error fault := by
    intro r hr
    cases r with
    | error fault => exact congrArg Except.error (Except.error.inj hr)
    | ok w => cases hr
  unfold call at h
  split at h
  · cases h
  · rcases power_eq_error (word h) with rfl | rfl <;> decide
  · rw [← Except.error.inj h]
    split <;> decide
  · rw [← Except.error.inj h]
    decide
  · rw [exact_eq_error (word h)]
    decide
  · rw [← Except.error.inj h]
    decide

end Builtin

end Quill
