import Mathlib.Algebra.Ring.Int.Parity
import Quill.Builtin
import Quill.Operator

/-!
# Arithmetic is exact

An integer operator reads its operands as decimals, computes with the exact
integers, and either has the exact result or says why not. What a text denotes
is said here without reference to how it is read, and so is what a quotient and
a remainder are, so that `/` and `%` are held to the equation between them
rather than to a division that happens to round the same way.

Only two things can go wrong behind the reading: a divisor that is zero and a
result that does not fit. Quotients fit with a single exception, the least word
by -1, and that exception takes the remainder with it, although the remainder
would fit.

The power of words is exact too, but it is computed for few exponents. Beyond ±1
every further factor doubles a power at least, so 64 of them leave the words
behind, and a reciprocal is cut to zero.
-/

namespace Quill

/-! ## Texts of integers -/

namespace Decimal

/-- One or more digits. -/
def IsNumeral (cs : List Char) : Prop :=
  cs ≠ [] ∧ ∀ c ∈ cs, c.isDigit = true

/-- The text is a decimal of the integer: digits, with or without a sign in
front. -/
inductive Denotes : List Char → Int → Prop
  | bare {cs : List Char} (h : IsNumeral cs) :
      Denotes cs (Nat.ofDigitChars 10 cs 0)
  | plus {cs : List Char} (h : IsNumeral cs) :
      Denotes ('+' :: cs) (Nat.ofDigitChars 10 cs 0)
  | minus {cs : List Char} (h : IsNumeral cs) :
      Denotes ('-' :: cs) (-Nat.ofDigitChars 10 cs 0)

/-- Digits read as an integer. -/
theorem digits?_eq_some_iff {cs : List Char} {z : Int} :
    (do let n ← digits? cs; pure (n : Int)) = some z ↔
      IsNumeral cs ∧ z = Nat.ofDigitChars 10 cs 0 := by
  rw [digits?, IsNumeral, ← List.all_eq_true]
  split
  · next h =>
      exact ⟨fun hz => ⟨h, (Option.some.inj hz).symm⟩,
        fun hz => congrArg some hz.2.symm⟩
  · next h =>
      refine ⟨fun hz => ?_, fun hz => absurd hz.1 h⟩
      cases hz

theorem integer?_eq_some_iff {s : String} {z : Int} :
    integer? s = some z ↔ Denotes s.toList z := by
  unfold integer?
  constructor
  · intro h
    split at h <;> obtain ⟨n, hn, rfl⟩ := Option.map_eq_some_iff.1 h <;>
      obtain ⟨hnumeral, rfl⟩ := digits?_eq_some_iff.1 hn
    · next hs => rw [hs]; exact .minus hnumeral
    · next hs => rw [hs]; exact .plus hnumeral
    · exact .bare hnumeral
  · intro h
    generalize s.toList = cs at h
    cases h with
    | bare hnumeral =>
        have hread := digits?_eq_some_iff.2 ⟨hnumeral, rfl⟩
        split
        · exact absurd (hnumeral.2 '-' List.mem_cons_self) (by decide)
        · exact absurd (hnumeral.2 '+' List.mem_cons_self) (by decide)
        · rw [hread]
          rfl
    | plus hnumeral =>
        simp only [digits?_eq_some_iff.2 ⟨hnumeral, rfl⟩]
        rfl
    | minus hnumeral =>
        simp only [digits?_eq_some_iff.2 ⟨hnumeral, rfl⟩]
        rfl

end Decimal

namespace Word

/-- The integers that are words. -/
def Fits (z : Int) : Prop :=
  -2 ^ 63 ≤ z ∧ z < 2 ^ 63

instance (z : Int) : Decidable (Fits z) :=
  inferInstanceAs (Decidable (_ ∧ _))

theorem ofText?_eq_some_iff {s : String} {w : Word} :
    ofText? s = some w ↔ Decimal.Denotes s.toList w.toInt := by
  rw [ofText?, Option.bind_eq_some_iff]
  constructor
  · rintro ⟨z, hz, hw⟩
    rw [ofInt?_eq_some_iff.1 hw]
    exact Decimal.integer?_eq_some_iff.1 hz
  · intro h
    exact ⟨w.toInt, Decimal.integer?_eq_some_iff.2 h, ofInt?_toInt w⟩

theorem fits (w : Word) : Fits w.toInt :=
  ⟨w.lower, w.upper⟩

theorem exists_ofInt?_of_fits {z : Int} (h : Fits z) :
    ∃ w, ofInt? z = some w ∧ w.toInt = z :=
  ⟨⟨z, h.1, h.2⟩, dif_pos h, rfl⟩

theorem ofInt?_eq_none_iff {z : Int} : ofInt? z = none ↔ ¬ Fits z := by
  constructor
  · intro h hfits
    obtain ⟨w, hw, -⟩ := exists_ofInt?_of_fits hfits
    rw [h] at hw
    cases hw
  · exact fun h => dif_neg h

end Word

namespace Literal

/-- The text of the value is a decimal of the integer, and the integer is a
word. -/
def Reads (v : Literal) (a : Int) : Prop :=
  Decimal.Denotes v.text.toList a ∧ Word.Fits a

instance (v : Literal) (a : Int) : Decidable (v.Reads a) :=
  decidable_of_iff (Decimal.integer? v.text = some a ∧ Word.Fits a)
    (and_congr_left fun _ => Decimal.integer?_eq_some_iff)

theorem Reads.exists_word {v : Literal} {a : Int} (h : v.Reads a) :
    ∃ w, v.word? = some w ∧ w.toInt = a := by
  obtain ⟨w, -, rfl⟩ := Word.exists_ofInt?_of_fits h.2
  exact ⟨w, Word.ofText?_eq_some_iff.2 h.1, rfl⟩

theorem word?_eq_none_iff {v : Literal} :
    v.word? = none ↔ ∀ a, ¬ v.Reads a := by
  constructor
  · intro hv a ha
    obtain ⟨w, hw, -⟩ := ha.exists_word
    rw [hv] at hw
    cases hw
  · intro h
    cases hv : v.word? with
    | none => rfl
    | some w => exact absurd ⟨Word.ofText?_eq_some_iff.1 hv, w.fits⟩ (h w.toInt)

end Literal

/-! ## Division toward zero -/

/-- `q` and `m` are the quotient and the remainder of `a` by `b`, rounded toward
zero. -/
structure TruncatedDivision (a b q m : Int) : Prop where
  eq : a = q * b + m
  lt : m.natAbs < b.natAbs
  sign : m = 0 ∨ m.sign = a.sign

theorem truncatedDivision_tdiv (a : Int) {b : Int} (hb : b ≠ 0) :
    TruncatedDivision a b (a.tdiv b) (a.tmod b) where
  eq := (Int.tdiv_mul_add_tmod a b).symm
  lt := by
    rw [Int.natAbs_tmod]
    exact Nat.mod_lt _ (Int.natAbs_pos.2 hb)
  sign := by
    have hsign := Int.sign_tmod a b
    split at hsign
    · exact .inl (Int.sign_eq_zero_iff_zero.1 hsign)
    · exact .inr hsign

theorem natAbs_tdiv_le_half (a : Int) {b : Int} (hb : b.natAbs ≠ 1) :
    (a.tdiv b).natAbs ≤ a.natAbs / 2 := by
  have hquotient : (a.tdiv b).natAbs = a.natAbs / b.natAbs :=
    Int.natAbs_tdiv a b
  rw [hquotient]
  rcases Nat.eq_zero_or_pos b.natAbs with hzero | hpos
  · rw [hzero, Nat.div_zero]
    exact Nat.zero_le _
  · exact Nat.div_le_div_left (by omega) (by decide)

namespace Word

/-- Every quotient of words is a word, but for the least word by -1. -/
theorem fits_tdiv_iff (a b : Word) :
    Fits (a.toInt.tdiv b.toInt) ↔ ¬ (a.toInt = -2 ^ 63 ∧ b.toInt = -1) := by
  have ha := a.fits
  constructor
  · rintro hfits ⟨hleast, hminus⟩
    rw [hleast, hminus] at hfits
    exact absurd hfits.2 (by decide)
  · intro hne
    by_cases hone : b.toInt.natAbs = 1
    · rcases Int.natAbs_eq b.toInt with hb | hb
      · have hplus : b.toInt = 1 := by omega
        rw [hplus, Int.tdiv_one]
        exact ha
      · have hminus : b.toInt = -1 := by omega
        have hleast : a.toInt ≠ -2 ^ 63 := fun h => hne ⟨h, hminus⟩
        rw [hminus, Int.tdiv_neg, Int.tdiv_one]
        unfold Fits at *
        omega
    · have hhalf := natAbs_tdiv_le_half a.toInt hone
      unfold Fits at *
      omega

theorem fits_tmod (a : Word) {b : Word} (hb : b.toInt ≠ 0) :
    Fits (a.toInt.tmod b.toInt) := by
  have hlt := (truncatedDivision_tdiv a.toInt hb).lt
  have hfits := b.fits
  unfold Fits at *
  omega

end Word

/-! ## Operators -/

namespace Operator

/-- The operators that take integers. The sum is among them where neither
operand is a string. -/
def onIntegers : List Symbol :=
  [.lt, .le, .gt, .ge, .plus, .minus, .star, .slash, .percent]

/-- The answer is the exact result, or that it does not fit. -/
def IsExact (op : Token) (z : Int) (answer : Except RuntimeError Literal) :
    Prop :=
  (Word.Fits z → answer = .ok ⟨.int, Decimal.text z, op.line⟩) ∧
    (¬ Word.Fits z → answer = .error ⟨.integerOverflow, op.line, some op.text⟩)

/-- The answer is what `part` takes of the quotient and the remainder, or that
there are none. -/
def IsDivision (op : Token) (part : Int → Int → Int) (a b : Int)
    (answer : Except RuntimeError Literal) : Prop :=
  (answer = .error ⟨.divisionByZero, op.line, some op.text⟩ ↔ b = 0) ∧
    (answer = .error ⟨.integerOverflow, op.line, some op.text⟩ ↔
      a = -2 ^ 63 ∧ b = -1) ∧
    (b ≠ 0 → ¬ (a = -2 ^ 63 ∧ b = -1) → ∃ q m, TruncatedDivision a b q m ∧
      answer = .ok ⟨.int, Decimal.text (part q m), op.line⟩)

/-- What the operator answers to the integers `a` and `b`. -/
def Answers (op : Token) (a b : Int) (answer : Except RuntimeError Literal) :
    Symbol → Prop
  | .lt => answer = .ok (.ofBool (decide (a < b)) op.line)
  | .le => answer = .ok (.ofBool (decide (a ≤ b)) op.line)
  | .gt => answer = .ok (.ofBool (decide (a > b)) op.line)
  | .ge => answer = .ok (.ofBool (decide (a ≥ b)) op.line)
  | .plus => IsExact op (a + b) answer
  | .minus => IsExact op (a - b) answer
  | .star => IsExact op (a * b) answer
  | .slash => IsDivision op (fun q _ => q) a b answer
  | .percent => IsDivision op (fun _ m => m) a b answer
  | _ => False

variable {op : Token} {l r : Literal}

/-! ### Reading the operands -/

theorem integers_of_left (hl : l.word? = none) :
    integers op l r = .error ⟨.expectedInteger, op.line, some l.text⟩ := by
  rw [integers, integer, hl]
  rfl

theorem integers_of_right {a : Word} (hl : l.word? = some a)
    (hr : r.word? = none) :
    integers op l r = .error ⟨.expectedInteger, op.line, some r.text⟩ := by
  rw [integers, integer, integer, hl, hr]
  rfl

theorem integers_of_words {a b : Word} (hl : l.word? = some a)
    (hr : r.word? = some b) : integers op l r = .ok (a.toInt, b.toInt) := by
  rw [integers, integer, integer, hl, hr]
  rfl

/-- An operator on integers reads both of its operands before it does anything
else. -/
theorem exists_apply_eq_bind {s : Symbol} (hkind : op.kind = .symbol s)
    (hs : s ∈ onIntegers) (hplus : s = .plus → l.kind ≠ .str ∧ r.kind ≠ .str) :
    ∃ rest, apply op l r = integers op l r >>= rest := by
  cases s with
  | plus =>
      obtain ⟨hl, hr⟩ := hplus rfl
      simp only [apply, hkind, hl, hr, or_self, if_false]
      exact ⟨_, rfl⟩
  | lt | le | gt | ge | minus | star | slash | percent =>
      simp only [apply, hkind]
      exact ⟨_, rfl⟩
  | _ => exact absurd hs (by decide)

/-! ### Computing with them -/

theorem isExact_exact (op : Token) (z : Int) : IsExact op z (exact op z) := by
  rw [exact]
  constructor
  · intro hfits
    obtain ⟨w, hw, rfl⟩ := Word.exists_ofInt?_of_fits hfits
    rw [hw]
    rfl
  · intro hnot
    rw [Word.ofInt?_eq_none_iff.2 hnot]
    rfl

/-- The three answers of a division differ, so it is enough to know when each is
given. -/
theorem isDivision_of_cases {part : Int → Int → Int} {a b : Int}
    {answer : Except RuntimeError Literal}
    (hzero : b = 0 → answer = .error ⟨.divisionByZero, op.line, some op.text⟩)
    (hleast : a = -2 ^ 63 ∧ b = -1 →
      answer = .error ⟨.integerOverflow, op.line, some op.text⟩)
    (hok : b ≠ 0 → ¬ (a = -2 ^ 63 ∧ b = -1) → ∃ q m, TruncatedDivision a b q m ∧
      answer = .ok ⟨.int, Decimal.text (part q m), op.line⟩) :
    IsDivision op part a b answer := by
  by_cases hb : b = 0
  · have hnot : ¬ (a = -2 ^ 63 ∧ b = -1) := by omega
    rw [IsDivision, hzero hb]
    exact ⟨iff_of_true rfl hb, iff_of_false (by simp) hnot,
      fun h => absurd hb h⟩
  · by_cases hmin : a = -2 ^ 63 ∧ b = -1
    · rw [IsDivision, hleast hmin]
      exact ⟨iff_of_false (by simp) hb, iff_of_true rfl hmin,
        fun _ h => absurd hmin h⟩
    · obtain ⟨q, m, hdiv, hanswer⟩ := hok hb hmin
      rw [IsDivision, hanswer]
      exact ⟨iff_of_false nofun hb, iff_of_false nofun hmin,
        fun _ _ => ⟨q, m, hdiv, rfl⟩⟩

theorem isDivision_divide {f part : Int → Int → Int} {a b : Word}
    (hargs : integers op l r = .ok (a.toInt, b.toInt))
    (hf : f a.toInt b.toInt =
      part (a.toInt.tdiv b.toInt) (a.toInt.tmod b.toInt))
    (hfits : b.toInt ≠ 0 → Word.Fits (a.toInt.tdiv b.toInt) →
      Word.Fits (f a.toInt b.toInt)) :
    IsDivision op part a.toInt b.toInt (divide op f l r) := by
  have hdivide : b.toInt ≠ 0 → divide op f l r =
      exact op (a.toInt.tdiv b.toInt) >>= fun _ =>
        exact op (f a.toInt b.toInt) := by
    intro hb
    rw [divide, hargs]
    exact if_neg hb
  refine isDivision_of_cases ?_ ?_ ?_
  · intro hb
    rw [divide, hargs]
    exact if_pos hb
  · intro hleast
    -- the quotient is asked for whichever of the two is wanted
    have hnot : ¬ Word.Fits (a.toInt.tdiv b.toInt) :=
      fun h => (a.fits_tdiv_iff b).1 h hleast
    rw [hdivide (by omega), (isExact_exact op _).2 hnot]
    rfl
  · intro hb hne
    have hquotient := (a.fits_tdiv_iff b).2 hne
    refine ⟨_, _, truncatedDivision_tdiv a.toInt hb, ?_⟩
    rw [hdivide hb, (isExact_exact op _).1 hquotient, ← hf]
    exact (isExact_exact op _).1 (hfits hb hquotient)

theorem answers_apply {s : Symbol} (hkind : op.kind = .symbol s)
    (hs : s ∈ onIntegers) (hplus : s = .plus → l.kind ≠ .str ∧ r.kind ≠ .str)
    {a b : Word} (hargs : integers op l r = .ok (a.toInt, b.toInt)) :
    Answers op a.toInt b.toInt (apply op l r) s := by
  have hcompare : ∀ rel,
      compare op rel l r = .ok (.ofBool (rel a.toInt b.toInt) op.line) := by
    intro rel
    rw [compare, hargs]
    rfl
  have hcompute : ∀ f, IsExact op (f a.toInt b.toInt) (compute op f l r) := by
    intro f
    rw [compute, hargs]
    exact isExact_exact op _
  cases s with
  | plus =>
      obtain ⟨hl, hr⟩ := hplus rfl
      simp only [apply, hkind, hl, hr, or_self, if_false]
      exact hcompute _
  | lt | le | gt | ge =>
      simp only [apply, hkind]
      exact hcompare _
  | minus | star =>
      simp only [apply, hkind]
      exact hcompute _
  | slash =>
      simp only [apply, hkind]
      exact isDivision_divide hargs rfl fun _ h => h
  | percent =>
      simp only [apply, hkind]
      exact isDivision_divide hargs rfl fun hb _ => a.fits_tmod hb
  | _ => exact absurd hs (by decide)

/-! ### Where the answer stands -/

/-- The value or the error is on the line. -/
def OnLine (line : Nat) : Except RuntimeError Literal → Prop
  | .ok v => v.line = line
  | .error e => e.line = line

theorem onLine_exact (z : Int) : OnLine op.line (exact op z) := by
  rw [exact]
  split <;> rfl

theorem onLine_integers_bind {rest : Int × Int → Except RuntimeError Literal}
    (hrest : ∀ ab, OnLine op.line (rest ab)) :
    OnLine op.line (integers op l r >>= rest) := by
  cases hl : l.word? with
  | none =>
      rw [integers_of_left hl]
      rfl
  | some a =>
      cases hr : r.word? with
      | none =>
          rw [integers_of_right hl hr]
          rfl
      | some b =>
          rw [integers_of_words hl hr]
          exact hrest _

/-- Whatever the operator makes of its operands is on its line, be it a value or
an error. -/
theorem onLine_apply (op : Token) (l r : Literal) :
    OnLine op.line (apply op l r) := by
  have hcompare : ∀ rel, OnLine op.line (compare op rel l r) :=
    fun _ => onLine_integers_bind fun _ => rfl
  have hcompute : ∀ f, OnLine op.line (compute op f l r) :=
    fun _ => onLine_integers_bind fun _ => onLine_exact _
  have hdivide : ∀ f, OnLine op.line (divide op f l r) := by
    refine fun f => onLine_integers_bind fun (a, b) => ?_
    by_cases hb : b = 0
    · simp only [hb, if_true]
      rfl
    · simp only [hb, if_false]
      have hquotient : OnLine op.line (exact op (a.tdiv b)) := onLine_exact _
      cases hexact : exact op (a.tdiv b) with
      | error e =>
          rw [hexact] at hquotient
          exact hquotient
      | ok q => exact onLine_exact (f a b)
  unfold apply
  split
  · rfl
  · rfl
  · rfl
  · rfl
  · exact hcompare _
  · exact hcompare _
  · exact hcompare _
  · exact hcompare _
  · split
    · rfl
    · exact hcompute _
  · exact hcompute _
  · exact hcompute _
  · exact hdivide _
  · exact hdivide _
  · rfl

/-- Integer operators are exact or fail for the right reason. The left operand
is looked at first, then the right one, and one that is no decimal of a word is
quoted. Of the integers `a` and `b` that the operands are, a comparison gives
the truth; a sum, a difference and a product are exact or overflow; a quotient
and a remainder are those of the division toward zero, except by zero and for
the least word by -1. The answer is on the operator's line. -/
theorem apply_exact {op : Token} {s : Symbol} {l r : Literal}
    (hkind : op.kind = .symbol s) (hs : s ∈ onIntegers)
    (hplus : s = .plus → l.kind ≠ .str ∧ r.kind ≠ .str) :
    ((∀ a, ¬ l.Reads a) →
      apply op l r = .error ⟨.expectedInteger, op.line, some l.text⟩) ∧
      (∀ a, l.Reads a → (∀ b, ¬ r.Reads b) →
        apply op l r = .error ⟨.expectedInteger, op.line, some r.text⟩) ∧
      (∀ a b, l.Reads a → r.Reads b → Answers op a b (apply op l r) s) ∧
      OnLine op.line (apply op l r) := by
  obtain ⟨rest, hrest⟩ := exists_apply_eq_bind hkind hs hplus
  refine ⟨fun hl => ?_, fun a ha hr => ?_,
    fun a b ha hb => ?_, onLine_apply op l r⟩
  · rw [hrest, integers_of_left (Literal.word?_eq_none_iff.2 hl)]
    rfl
  · obtain ⟨v, hv, -⟩ := ha.exists_word
    rw [hrest, integers_of_right hv (Literal.word?_eq_none_iff.2 hr)]
    rfl
  · obtain ⟨v, hv, rfl⟩ := ha.exists_word
    obtain ⟨w, hw, rfl⟩ := hb.exists_word
    exact answers_apply hkind hs hplus (integers_of_words hv hw)

/-- The least word, here the text of a string, has no remainder by -1, although
0 would fit. -/
theorem apply_exact_least_remainder :
    ∃ (op : Token) (l r : Literal),
      op = ⟨.symbol .percent, "%", 5⟩ ∧ l = ⟨.str, "-9223372036854775808", 3⟩ ∧
      r = ⟨.int, "-01", 4⟩ ∧ l.Reads (-2 ^ 63) ∧ r.Reads (-1) ∧
      apply op l r = .error ⟨.integerOverflow, 5, some "%"⟩ := by
  have hkind : Token.kind ⟨.symbol .percent, "%", 5⟩ = .symbol .percent := rfl
  have hl : Literal.Reads ⟨.str, "-9223372036854775808", 3⟩ (-2 ^ 63) :=
    by decide
  have hr : Literal.Reads ⟨.int, "-01", 4⟩ (-1) := by decide
  have hanswers := (apply_exact hkind (by decide) nofun).2.2.1 _ _ hl hr
  exact ⟨_, _, _, rfl, rfl, rfl, hl, hr, hanswers.2.1.2 ⟨rfl, rfl⟩⟩

end Operator

/-! ## Powers -/

namespace Builtin

theorem neg_one_pow_natAbs (e : Int) :
    (-1 : Int) ^ e.natAbs = if e % 2 = 0 then 1 else -1 := by
  split
  · have heven : e.natAbs % 2 = 0 := by omega
    exact Even.neg_one_pow (Nat.even_iff.2 heven)
  · have hodd : e.natAbs % 2 = 1 := by omega
    exact Odd.neg_one_pow (Nat.odd_iff.2 hodd)

theorem two_pow_le_natAbs_pow {b : Int} (hb : 2 ≤ b.natAbs) (n : Nat) :
    2 ^ n ≤ (b ^ n).natAbs := by
  rw [Int.natAbs_pow]
  exact Nat.pow_le_pow_left hb n

/-- Beyond ±1 no power with 64 factors is a word. -/
theorem not_fits_pow {b : Int} (hb : 2 ≤ b.natAbs) {n : Nat} (hn : 64 ≤ n) :
    ¬ Word.Fits (b ^ n) := by
  have hpow := two_pow_le_natAbs_pow hb n
  have hlarge : 2 ^ 64 ≤ 2 ^ n := Nat.pow_le_pow_right (by decide) hn
  unfold Word.Fits
  omega

/-- Whether it is multiplied out or not, the power is the exact one as far as
words go. -/
theorem power?_bind_ofInt? {b e : Int} (he : 0 ≤ e) :
    (power? b e).bind Word.ofInt? = Word.ofInt? (b ^ e.natAbs) := by
  rw [power?]
  split
  · next hb => rw [hb, Int.one_pow, Option.bind_some]
  · split
    · next hb => rw [hb, neg_one_pow_natAbs, Option.bind_some]
    · next hone hminus =>
        rw [if_neg (by omega)]
        split
        · next hb =>
            rw [hb, Option.bind_some]
            split
            · next hzero => rw [hzero]; rfl
            · next hpos => rw [Int.zero_pow (by omega)]
        · next hzero =>
            split
            · rw [Option.bind_some, show e.toNat = e.natAbs by omega]
              rfl
            · next hlarge =>
                exact (Word.ofInt?_eq_none_iff.2
                  (not_fits_pow (by omega) (by omega))).symm

/-- A reciprocal is cut to zero, except for those of ±1, which are powers of ±1
themselves. -/
theorem exists_power?_reciprocal {b e : Int} (hb : b ≠ 0) (he : e < 0) :
    ∃ q m, power? b e = some q ∧ Word.Fits q ∧
      TruncatedDivision 1 (b ^ e.natAbs) q m := by
  rw [power?]
  split
  · next hone =>
      rw [hone, Int.one_pow]
      exact ⟨1, 0, rfl, by decide, by decide, by decide, .inl rfl⟩
  · split
    · next hminus =>
        rw [hminus, neg_one_pow_natAbs]
        split
        · exact ⟨1, 0, rfl, by decide, by decide, by decide, .inl rfl⟩
        · exact ⟨-1, 0, rfl, by decide, by decide, by decide, .inl rfl⟩
    · next hone hminus =>
        have hpow := two_pow_le_natAbs_pow (show 2 ≤ b.natAbs by omega) e.natAbs
        have htwo : 2 ^ 1 ≤ 2 ^ e.natAbs :=
          Nat.pow_le_pow_right (by decide) (by omega)
        exact ⟨0, 1, rfl, by decide, by omega, by omega, .inr rfl⟩

theorem power_of_nonneg {b e : Word} (he : 0 ≤ e.toInt) :
    power b e = exact (b.toInt ^ e.toInt.natAbs) := by
  rw [power, if_neg (by omega), power?_bind_ofInt? he]
  rfl

theorem exact_of_fits {z : Int} (h : Word.Fits z) :
    ∃ w, exact z = .ok w ∧ w.toInt = z := by
  obtain ⟨w, hw, hz⟩ := Word.exists_ofInt?_of_fits h
  refine ⟨w, ?_, hz⟩
  rw [exact, hw]

/-- The power of words is exact. Where the exponent is not negative, it is the
exact power, if that is a word, and an overflow otherwise. Where the exponent is
negative, it is the reciprocal of the power, cut toward zero, except that zero
has none. -/
theorem call_pow_exact (b e : Word) :
    (0 ≤ e.toInt →
      (Word.Fits (b.toInt ^ e.toInt.natAbs) →
        ∃ w : Word, w.toInt = b.toInt ^ e.toInt.natAbs ∧
          call .pow [.int b, .int e] = .ok (.value (.int w))) ∧
      (¬ Word.Fits (b.toInt ^ e.toInt.natAbs) →
        call .pow [.int b, .int e] = .error .integerOverflow)) ∧
    (e.toInt < 0 →
      (b.toInt = 0 → call .pow [.int b, .int e] = .error .divisionByZero) ∧
      (b.toInt ≠ 0 →
        ∃ (w : Word) (m : Int),
          TruncatedDivision 1 (b.toInt ^ e.toInt.natAbs) w.toInt m ∧
          call .pow [.int b, .int e] = .ok (.value (.int w)))) := by
  refine ⟨fun he => ⟨fun hfits => ?_, fun hnot => ?_⟩,
    fun he => ⟨fun hb => ?_, fun hb => ?_⟩⟩
  · obtain ⟨w, hw, hz⟩ := exact_of_fits hfits
    rw [call, power_of_nonneg he, hw]
    exact ⟨w, hz, rfl⟩
  · rw [call, power_of_nonneg he, exact, Word.ofInt?_eq_none_iff.2 hnot]
    rfl
  · rw [call, power, if_pos ⟨hb, he⟩]
    rfl
  · obtain ⟨q, m, hq, hfits, hdiv⟩ := exists_power?_reciprocal hb he
    obtain ⟨w, hw, rfl⟩ := Word.exists_ofInt?_of_fits hfits
    refine ⟨w, m, hdiv, ?_⟩
    rw [call, power, if_neg (fun h => hb h.1), hq, Option.bind_some, hw]
    rfl

/-- The least word is a power of -2, although the same power of 2 is no word. -/
theorem call_pow_exact_least :
    ∃ b e least : Word, b.toInt = -2 ∧ e.toInt = 63 ∧ least.toInt = -2 ^ 63 ∧
      call .pow [.int b, .int e] = .ok (.value (.int least)) := by
  have hpow :=
    (call_pow_exact ⟨-2, by decide, by decide⟩ ⟨63, by decide, by decide⟩).1
      (by decide)
  obtain ⟨least, hleast, hcall⟩ := hpow.1 (by decide)
  exact ⟨_, _, least, rfl, rfl, hleast, hcall⟩

end Builtin

end Quill
