import Quill.Decimal
import Quill.Token.Basic

/-!
# Literals

A literal is both a constant in a source text and a value at run time, and what
a program does with one is decided by its text alone: `true` is whatever reads
`true`, and an integer is whatever reads as one. The tag says which constant
token the literal is, so a literal always has exactly one kind.
-/

namespace Quill

/-- The kinds of values. -/
inductive ValueKind where
  | int
  | str
  | bool
  | null
  deriving DecidableEq, Repr

def ValueKind.word : ValueKind → String
  | .int => "int"
  | .str => "str"
  | .bool => "bool"
  | .null => "null"

/-- The constant tokens. -/
inductive Literal.Tag where
  | int
  | str
  | bool (b : Bool)
  | null
  deriving DecidableEq, Repr

namespace Literal.Tag

def kind : Tag → ValueKind
  | .int => .int
  | .str => .str
  | .bool _ => .bool
  | .null => .null

def tokenKind : Tag → Token.Kind
  | .int => .integer
  | .str => .string
  | .bool true => .keyword .trueWord
  | .bool false => .keyword .falseWord
  | .null => .keyword .nullWord

/-- The constant that tokens of this kind are; most kinds are none. -/
def ofTokenKind? : Token.Kind → Option Tag
  | .integer => some .int
  | .string => some .str
  | .keyword .trueWord => some (.bool true)
  | .keyword .falseWord => some (.bool false)
  | .keyword .nullWord => some .null
  | _ => none

theorem ofTokenKind?_eq_some_iff {k : Token.Kind} {tag : Tag} :
    ofTokenKind? k = some tag ↔ tag.tokenKind = k := by
  constructor
  · intro h
    unfold ofTokenKind? at h
    split at h <;> cases h <;> rfl
  · rintro rfl
    cases tag with
    | bool b => cases b <;> rfl
    | _ => rfl

end Literal.Tag

/-- A constant or a value: its tag, its text and the line it comes from. -/
structure Literal where
  tag : Literal.Tag
  text : String
  line : Nat
  deriving DecidableEq, Repr

namespace Literal

def kind (v : Literal) : ValueKind :=
  v.tag.kind

/-- The literal as a token. -/
def token (v : Literal) : Token :=
  ⟨v.tag.tokenKind, v.text, v.line⟩

/-- The literal that a constant token stands for; its text stays as it is. -/
def ofToken? (t : Token) : Option Literal :=
  (Tag.ofTokenKind? t.kind).map fun tag => ⟨tag, t.text, t.line⟩

theorem ofToken?_eq_some_iff {t : Token} {v : Literal} :
    ofToken? t = some v ↔ v.token = t := by
  constructor
  · intro h
    obtain ⟨tag, htag, rfl⟩ := Option.map_eq_some_iff.1 h
    rw [token, Tag.ofTokenKind?_eq_some_iff.1 htag]
  · rintro rfl
    rw [ofToken?, token, Tag.ofTokenKind?_eq_some_iff.2 rfl]
    rfl

def ofWord (w : Word) (line : Nat) : Literal :=
  ⟨.int, w.text, line⟩

/-- An integer given by its text, which need not fit in a word. -/
def ofIntText (text : String) (line : Nat) : Literal :=
  ⟨.int, text, line⟩

def ofString (text : String) (line : Nat) : Literal :=
  ⟨.str, text, line⟩

def ofBool (b : Bool) (line : Nat) : Literal :=
  ⟨.bool b, if b then "true" else "false", line⟩

/-- Whether the value counts as true in a condition. -/
def isTrue (v : Literal) : Bool :=
  v.text == "true"

/-- The integer the value reads as, whatever its kind. -/
def word? (v : Literal) : Option Word :=
  Word.ofText? v.text

/-- The literal as source text shows it: strings stand in quotes. -/
def display (v : Literal) : String :=
  match v.kind with
  | .str => "\"" ++ v.text ++ "\""
  | _ => v.text

end Literal

end Quill
