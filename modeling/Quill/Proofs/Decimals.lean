import Quill.Proofs.Arithmetic

/-!
# Texts and words convert faithfully

All arithmetic goes through texts: an operand is read, the result is written,
and the built-ins see a value only after reading it and give theirs back by
writing it. So the two ways have to fit together, and what is read has to be
what the digits say by their places, sign and range included.

Writing and reading again gives every value back but for two of them. There is
no null to write, so null comes back as the string `null`. And a wide integer is
any text at all, so one that does read as a word comes back as that word.
-/

namespace Quill

namespace Decimal

/-- The value of digits by their places, the ones last. -/
def placeValue : List Char → Nat
  | [] => 0
  | c :: cs => (c.toNat - '0'.toNat) * 10 ^ cs.length + placeValue cs

/-- The signs that may stand in front of digits, and what they multiply the
value by. -/
def signs : List (List Char × Int) :=
  [([], 1), (['+'], 1), (['-'], -1)]

/-- The text is an optional sign and one or more digits, and `z` is their signed
value. -/
def Represents (cs : List Char) (z : Int) : Prop :=
  ∃ sign ∈ signs, ∃ ds, cs = sign.1 ++ ds ∧ IsNumeral ds ∧
    z = sign.2 * placeValue ds

/-- Digits read behind `n` push it up by as many places. -/
theorem ofDigitChars_eq_placeValue (cs : List Char) (n : Nat) :
    Nat.ofDigitChars 10 cs n = n * 10 ^ cs.length + placeValue cs := by
  induction cs generalizing n with
  | nil => simp [placeValue]
  | cons c cs ih =>
      calc Nat.ofDigitChars 10 (c :: cs) n
          = (10 * n + (c.toNat - '0'.toNat)) * 10 ^ cs.length +
              placeValue cs := by
            rw [Nat.ofDigitChars_cons, ih]
        _ = n * 10 ^ (c :: cs).length + placeValue (c :: cs) := by
            rw [placeValue, List.length_cons, Nat.pow_succ, Nat.add_mul,
              Nat.mul_comm 10 n, Nat.mul_assoc, Nat.mul_comm 10, Nat.add_assoc]

theorem denotes_iff_represents {cs : List Char} {z : Int} :
    Denotes cs z ↔ Represents cs z := by
  have hvalue : ∀ ds, Nat.ofDigitChars 10 ds 0 = placeValue ds := by
    intro ds
    rw [ofDigitChars_eq_placeValue, Nat.zero_mul, Nat.zero_add]
  constructor
  · intro h
    cases h with
    | bare hds =>
        exact ⟨([], 1), by decide, cs, rfl, hds, by rw [hvalue, Int.one_mul]⟩
    | plus hds =>
        exact ⟨(['+'], 1), by decide, _, rfl, hds, by rw [hvalue, Int.one_mul]⟩
    | minus hds =>
        exact ⟨(['-'], -1), by decide, _, rfl,
          hds, by rw [hvalue, Int.neg_one_mul]⟩
  · rintro ⟨sign, hsign, ds, rfl, hds, rfl⟩
    simp only [signs, List.mem_cons, List.not_mem_nil, or_false] at hsign
    rw [← hvalue]
    rcases hsign with rfl | rfl | rfl
    · rw [Int.one_mul]
      exact .bare hds
    · rw [Int.one_mul]
      exact .plus hds
    · rw [Int.neg_one_mul]
      exact .minus hds

end Decimal

theorem Word.ofText?_eq_some_iff_represents {s : String} {w : Word} :
    ofText? s = some w ↔ Decimal.Represents s.toList w.toInt :=
  ofText?_eq_some_iff.trans Decimal.denotes_iff_represents

/-! ## Reading a value -/

theorem Literal.reads_iff {v : Literal} {z : Int} :
    v.Reads z ↔ Decimal.Represents v.text.toList z ∧ Word.Fits z :=
  and_congr_left fun _ => Decimal.denotes_iff_represents

theorem Literal.reads_iff_word? {v : Literal} {z : Int} :
    v.Reads z ↔ ∃ w, v.word? = some w ∧ w.toInt = z := by
  refine ⟨Reads.exists_word, ?_⟩
  rintro ⟨w, hw, rfl⟩
  exact ⟨Word.ofText?_eq_some_iff.1 hw, w.fits⟩

theorem Literal.word?_ofWord (w : Word) (line : Nat) :
    (ofWord w line).word? = some w :=
  Word.ofText?_text w

theorem Operator.integer_eq_ok_iff {op : Token} {v : Literal} {z : Int} :
    integer op v = .ok z ↔ v.Reads z := by
  rw [Literal.reads_iff_word?, integer]
  cases v.word? with
  | none => simp
  | some w => simp

namespace Builtin.Value

theorem ofLiteral_eq_int_iff {v : Literal} {w : Word} :
    ofLiteral v = .int w ↔ v.kind = .int ∧ v.word? = some w := by
  unfold ofLiteral
  cases v.kind with
  | int => cases v.word? <;> simp
  | bool => simp
  | str => simp
  | null => simp

/-! ## Writing a value and reading it again -/

theorem ofLiteral_ofWord (w : Word) (line : Nat) :
    ofLiteral (.ofWord w line) = .int w :=
  ofLiteral_eq_int_iff.2 ⟨rfl, Literal.word?_ofWord w line⟩

theorem ofLiteral_ofIntText (text : String) (line : Nat) :
    ofLiteral (.ofIntText text line) =
      (Word.ofText? text).elim (.wide text) .int := by
  simp only [ofLiteral, Literal.ofIntText, Literal.kind, Literal.Tag.kind,
    Literal.word?]
  cases Word.ofText? text <;> rfl

theorem ofLiteral_ofBool (b : Bool) (line : Nat) :
    ofLiteral (.ofBool b line) = .bool b := by
  cases b <;> rfl

/-- What a value is once it has been written and read again. -/
inductive ComesBackAs : Value → Value → Prop
  | int (w : Word) : ComesBackAs (.int w) (.int w)
  | narrow {text : String} {w : Word}
      (h : Decimal.Represents text.toList w.toInt) :
      ComesBackAs (.wide text) (.int w)
  | wide {text : String}
      (h : ∀ w : Word, ¬ Decimal.Represents text.toList w.toInt) :
      ComesBackAs (.wide text) (.wide text)
  | bool (b : Bool) : ComesBackAs (.bool b) (.bool b)
  | str (text : String) : ComesBackAs (.str text) (.str text)
  | null : ComesBackAs .null (.str "null")

theorem comesBackAs_ofLiteral_toLiteral (x : Value) (line : Nat) :
    ComesBackAs x (ofLiteral (x.toLiteral line)) := by
  cases x with
  | int w =>
      rw [toLiteral, ofLiteral_ofWord]
      exact .int w
  | wide text =>
      rw [toLiteral, ofLiteral_ofIntText]
      cases hw : Word.ofText? text with
      | none =>
          refine .wide fun w hrepresents => ?_
          rw [Word.ofText?_eq_some_iff_represents.2 hrepresents] at hw
          cases hw
      | some w => exact .narrow (Word.ofText?_eq_some_iff_represents.1 hw)
  | bool b =>
      rw [toLiteral, ofLiteral_ofBool]
      exact .bool b
  | str text => exact .str text
  | null => exact .null

theorem ComesBackAs.unique {x y y' : Value} (h : ComesBackAs x y)
    (h' : ComesBackAs x y') : y = y' := by
  cases h with
  | narrow hw =>
      cases h' with
      | narrow hw' =>
          rw [← Word.ofText?_eq_some_iff_represents] at hw hw'
          rw [hw] at hw'
          rw [Option.some.inj hw']
      | wide hnot => exact absurd hw (hnot _)
  | wide hnot =>
      cases h' with
      | narrow hw => exact absurd hw (hnot _)
      | wide _ => rfl
  | int w | bool b | str text | null =>
      cases h'
      rfl

end Builtin.Value

/-- An operand is read as the integer that its text represents, if that is a
word, and so is an integer that a built-in sees. Every word is read as it was
written, and so is every value of a built-in, but for null and wide integers
that are none. -/
theorem decimals_faithful (v : Literal) (op : Token) (z : Int) (w : Word)
    (x y : Builtin.Value) (line : Nat) :
    (Operator.integer op v = .ok z ↔ Decimal.Represents v.text.toList z ∧
      Word.Fits z) ∧ ((∃ u, Builtin.Value.ofLiteral v = .int u ∧ u.toInt = z) ↔
        v.kind = .int ∧ Decimal.Represents v.text.toList z ∧ Word.Fits z) ∧
      Operator.integer op (.ofWord w line) = .ok w.toInt ∧
      Builtin.Value.ofLiteral (.ofWord w line) = .int w ∧
      (Builtin.Value.ofLiteral (x.toLiteral line) = y ↔ x.ComesBackAs y) := by
  refine ⟨?_, ?_, ?_, Builtin.Value.ofLiteral_ofWord w line, ?_⟩
  · rw [Operator.integer_eq_ok_iff, Literal.reads_iff]
  · rw [← Literal.reads_iff, Literal.reads_iff_word?]
    constructor
    · rintro ⟨u, hu, rfl⟩
      obtain ⟨hkind, hu⟩ := Builtin.Value.ofLiteral_eq_int_iff.1 hu
      exact ⟨hkind, u, hu, rfl⟩
    · rintro ⟨hkind, u, hu, rfl⟩
      exact ⟨u, Builtin.Value.ofLiteral_eq_int_iff.2 ⟨hkind, hu⟩, rfl⟩
  · rw [Operator.integer_eq_ok_iff, Literal.reads_iff_word?]
    exact ⟨w, Literal.word?_ofWord w line, rfl⟩
  · constructor
    · rintro rfl
      exact x.comesBackAs_ofLiteral_toLiteral line
    · exact (x.comesBackAs_ofLiteral_toLiteral line).unique

end Quill
