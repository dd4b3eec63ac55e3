import Quill.Proofs.WellFormed

/-!
# The texts that the built-ins see

Everywhere else a value is its text. The built-ins see what it stands for, and
so an integer that is a word has, for them, the shortest text of its number. The
two differ where a constant has zeros in front that its number does not need:
`print` and `len` drop them, and a string that the constant is put into keeps
them.

That is all. Computed integers have their shortest text already, and integers
too wide for a word, truth values, strings and null are seen as they are
written.
-/

namespace Quill

/-! ## Zeros in front -/

namespace Decimal

/-- Whether a zero stands in front of other digits. -/
def padded : List Char → Bool
  | '0' :: _ :: _ => true
  | _ => false

/-- The digits without the zeros in front of others. -/
def trim : List Char → List Char
  | '0' :: c :: cs => trim (c :: cs)
  | cs => cs

theorem length_trim_le (cs : List Char) : (trim cs).length ≤ cs.length := by
  fun_induction trim cs with
  | case1 c cs ih => exact Nat.le_succ_of_le ih
  | case2 cs => exact Nat.le_refl _

theorem trim_eq_self_iff {cs : List Char} :
    trim cs = cs ↔ padded cs = false := by
  fun_cases padded cs with
  | case1 c cs =>
      have hlength := length_trim_le (c :: cs)
      refine iff_of_false (fun h => ?_) nofun
      rw [trim] at h
      rw [h, List.length_cons] at hlength
      exact Nat.lt_irrefl _ hlength
  | case2 cs hcs => exact iff_of_true (trim.eq_2 cs hcs) rfl

theorem digitChar_of_isDigit {c : Char} (hc : c.isDigit = true) :
    (c.toNat - '0'.toNat).digitChar = c ∧ c.toNat - '0'.toNat < 10 := by
  have hrange : 48 ≤ c.toNat ∧ c.toNat ≤ 57 := Char.isDigit_iff_toNat.1 hc
  have hlt : c.toNat - '0'.toNat < 10 := by
    show c.toNat - 48 < 10
    omega
  refine ⟨Char.toNat_inj.1 ?_, hlt⟩
  rw [Nat.toNat_digitChar_of_lt_ten hlt]
  show 48 + (c.toNat - 48) = c.toNat
  omega

/-- Digits that are read behind a number stand behind its text. -/
theorem toDigits_ofDigitChars {cs : List Char}
    (hcs : ∀ c ∈ cs, c.isDigit = true) {n : Nat} (hn : 0 < n) :
    Nat.toDigits 10 (Nat.ofDigitChars 10 cs n) = Nat.toDigits 10 n ++ cs := by
  induction cs generalizing n with
  | nil => rw [Nat.ofDigitChars_nil, List.append_nil]
  | cons c cs ih =>
      obtain ⟨hc, hrest⟩ := List.forall_mem_cons.1 hcs
      obtain ⟨hchar, hlt⟩ := digitChar_of_isDigit hc
      rw [Nat.ofDigitChars_cons, ih hrest (by omega),
        ← Nat.toDigits_append_toDigits (by decide) hn hlt,
        Nat.toDigits_of_lt_base hlt, hchar, List.append_assoc,
        List.singleton_append]

/-- The shortest text of a number is any text of it without the zeros in
front. -/
theorem toDigits_eq_trim {cs : List Char} (hne : cs ≠ [])
    (hcs : ∀ c ∈ cs, c.isDigit = true) :
    Nat.toDigits 10 (Nat.ofDigitChars 10 cs 0) = trim cs := by
  fun_induction trim cs with
  | case1 c cs ih =>
      rw [Nat.ofDigitChars_cons]
      exact ih (List.cons_ne_nil c cs) (List.forall_mem_cons.1 hcs).2
  | case2 cs hpadded =>
      cases cs with
      | nil => exact absurd rfl hne
      | cons c cs =>
          obtain ⟨hc, hrest⟩ := List.forall_mem_cons.1 hcs
          obtain ⟨hchar, hlt⟩ := digitChar_of_isDigit hc
          rw [Nat.ofDigitChars_cons, Nat.mul_zero, Nat.zero_add]
          rcases Nat.eq_zero_or_pos (c.toNat - '0'.toNat) with hzero | hpos
          · -- a zero that is not in front of others is alone
            rw [hzero] at hchar ⊢
            cases cs with
            | nil => rw [Nat.ofDigitChars_nil, Nat.toDigits_zero, ← hchar]; rfl
            | cons d cs => exact absurd (by rw [← hchar]; rfl) (hpadded d cs)
          · rw [toDigits_ofDigitChars hrest hpos, Nat.toDigits_of_lt_base hlt,
              hchar, List.singleton_append]

theorem toList_repr_of_digits? {cs : List Char} {n : Nat}
    (h : digits? cs = some n) : n.repr.toList = trim cs := by
  unfold digits? at h
  split at h
  · next hcs =>
      cases h
      rw [Nat.toList_repr, toDigits_eq_trim hcs.1 (List.all_eq_true.1 hcs.2)]
  · cases h

theorem trim_text (z : Int) : trim (text z).toList = (text z).toList := by
  cases z with
  | ofNat n => exact (toList_repr_of_digits? (digits?_repr n)).symm
  | negSucc n =>
      have hsign : (text (.negSucc n)).toList = '-' :: (n + 1).repr.toList :=
        String.toList_append
      rw [hsign]
      exact trim_eq_self_iff.2 rfl

end Decimal

/-! ## Values as the built-ins see them -/

namespace Literal

/-- The integers that can be read as words and are written with a zero in front
of others. -/
def isPadded (v : Literal) : Bool :=
  v.kind == .int && v.word?.isSome && Decimal.padded v.text.toList

/-- The text of a value for the built-ins: its own, but for zeros in front of a
word. -/
def shown (v : Literal) : String :=
  if v.isPadded then String.ofList (Decimal.trim v.text.toList) else v.text

theorem shown_eq_text_iff {v : Literal} :
    v.shown = v.text ↔ v.isPadded = false := by
  rw [shown]
  cases hv : v.isPadded with
  | false => exact iff_of_true rfl rfl
  | true =>
      have hpadded : Decimal.padded v.text.toList = true := by
        rw [isPadded, Bool.and_eq_true] at hv
        exact hv.2
      refine iff_of_false (fun h => ?_) nofun
      rw [if_pos rfl, ← String.toList_inj, String.toList_ofList,
        Decimal.trim_eq_self_iff, hpadded] at h
      cases h

theorem shown_of_kind_ne {v : Literal} (hv : v.kind ≠ .int) :
    v.shown = v.text :=
  shown_eq_text_iff.2 (by simp [isPadded, hv])

/-- An integer that is a word has the text of the word, but for zeros in
front. -/
theorem WellFormed.text_of_word? {v : Literal} (hv : v.WellFormed)
    (htag : v.tag = .int) {w : Word} (hw : v.word? = some w) :
    w.text.toList = Decimal.trim v.text.toList := by
  have htext := hv.text
  rw [htag] at htext
  rcases htext with ⟨hne, hdigits⟩ | ⟨w', hw'⟩
  · obtain ⟨n, hn⟩ : ∃ n, Decimal.digits? v.text.toList = some n :=
      ⟨_, if_pos ⟨hne, List.all_eq_true.2 hdigits⟩⟩
    rw [word?, Word.ofText?, Decimal.integer?_of_digits? hn, Option.bind_some,
      Word.ofInt?_eq_some_iff] at hw
    rw [Word.text, hw]
    exact Decimal.toList_repr_of_digits? hn
  · rw [word?, hw', Word.ofText?_text] at hw
    cases hw
    rw [hw']
    exact (Decimal.trim_text _).symm

end Literal

/-- The built-ins see the shown text and nothing else of a value. -/
theorem Builtin.Value.text_ofLiteral {v : Literal} (hv : v.WellFormed) :
    (Value.ofLiteral v).text = v.shown := by
  cases htag : v.tag with
  | int =>
      have hkind : v.kind = .int := congrArg Literal.Tag.kind htag
      cases hw : v.word? with
      | none =>
          have hpadded : v.isPadded = false := by simp [Literal.isPadded, hw]
          rw [Literal.shown_eq_text_iff.2 hpadded]
          simp only [ofLiteral, hkind, hw, text]
      | some w =>
          have htext := hv.text_of_word? htag hw
          have hpadded : v.isPadded = Decimal.padded v.text.toList := by
            simp [Literal.isPadded, hkind, hw]
          simp only [ofLiteral, hkind, hw, text, Literal.shown, hpadded]
          split
          · rw [← htext, String.ofList_toList]
          · next hnot =>
              rw [Decimal.trim_eq_self_iff.2 (Bool.eq_false_iff.2 hnot)]
                at htext
              exact String.toList_inj.1 htext
  | str =>
      have hkind : v.kind = .str := congrArg Literal.Tag.kind htag
      rw [Literal.shown_of_kind_ne (by rw [hkind]; decide)]
      simp only [ofLiteral, hkind, text]
  | bool b =>
      have hkind : v.kind = .bool := congrArg Literal.Tag.kind htag
      have htext := hv.text
      rw [htag, Literal.Tag.Writes] at htext
      rw [Literal.shown_of_kind_ne (by rw [hkind]; decide)]
      simp only [ofLiteral, hkind, Literal.isTrue, htext]
      cases b <;> rfl
  | null =>
      have hkind : v.kind = .null := congrArg Literal.Tag.kind htag
      have htext := hv.text
      rw [htag, Literal.Tag.Writes] at htext
      rw [Literal.shown_of_kind_ne (by rw [hkind]; decide), htext]
      simp only [ofLiteral, hkind, text]

/-! ## Calls of built-ins -/

/-- The expression that puts the value of another into a string. -/
def Expr.asString (line : Nat) (e : Expr) : Expr :=
  .binary ⟨.symbol .plus, "+", line⟩ (.literal (.ofString "" line)) e

/-- How a call ends whose value is this integer, if it is a word. -/
def Ident.integerResult (f : Ident) (z : Int) :
    Except RuntimeError (Option Literal) :=
  match Word.ofInt? z with
  | some w => .ok (some (.ofWord w f.line))
  | none => .error (f.failure .integerOverflow)

theorem Ident.integerResult_toInt (f : Ident) (w : Word) :
    f.integerResult w.toInt = .ok (some (.ofWord w f.line)) := by
  rw [integerResult, Word.ofInt?_toInt]

namespace Task

variable {limit : Option Nat} {e : Expr} {v : Literal} {m m' m'' : Machine}
  {r : Except RuntimeError (Option Literal)}

theorem runs_literal (v : Literal) (m : Machine) :
    (Task.expr (.literal v)).Runs limit m (.ok v) m :=
  runs_iff_plan.2 (Plan.runs_done_iff.2 ⟨rfl, rfl⟩)

theorem runs_asString (h : (Task.expr e).Runs limit m (.ok v) m') (line : Nat) :
    (Task.expr (e.asString line)).Runs limit m
      (.ok (.ofString v.text line)) m' := by
  have happly : Operator.apply ⟨.symbol .plus, "+", line⟩
      (.ofString "" line) v = .ok (.ofString v.text line) := by
    have hstr : (Literal.ofString "" line).kind = .str ∨ v.kind = .str :=
      .inl rfl
    simp only [Operator.apply, hstr, if_true]
    rw [show (Literal.ofString "" line).text ++ v.text =
      v.text from String.empty_append]
  refine runs_iff_plan.2 ((Plan.runs_ask_iff_of_runs (runs_literal _ m)).2 ?_)
  refine (Plan.runs_ask_iff_of_runs h).2 ?_
  exact Plan.runs_done_iff.2 ⟨happly.symm, rfl⟩

/-- A built-in with one argument is called with its value. -/
theorem runs_builtin_iff {b : Builtin} {f : Ident}
    (hf : Builtin.ofName? f.text = some b)
    (h : (Task.expr e).Runs limit m (.ok v) m') :
    (Task.call f [e]).Runs limit m r m'' ↔
      (Plan.builtin b f [v] m').Runs limit r m'' := by
  have hnone : (Task.arguments []).Runs limit m' (.ok []) m' :=
    runs_iff_plan.2 (Plan.runs_done_iff.2 ⟨rfl, rfl⟩)
  have hargs : (Task.arguments [e]).Runs limit m (.ok [v]) m' := by
    refine runs_iff_plan.2 ((Plan.runs_ask_iff_of_runs h).2 ?_)
    exact (Plan.runs_ask_iff_of_runs hnone).2 (Plan.runs_done_iff.2 ⟨rfl, rfl⟩)
  rw [runs_iff_plan, plan, planCall, hf]
  exact Plan.runs_ask_iff_of_runs hargs

theorem runs_print_iff (h : (Task.expr e).Runs limit m (.ok v) m')
    (line : Nat) : (Task.call ⟨"print", line⟩ [e]).Runs limit m r m'' ↔
      r = .ok none ∧ m'' = m'.print (Builtin.Value.ofLiteral v).text := by
  have hname : Builtin.ofName? "print" = some .print :=
    Builtin.ofName?_eq_some_iff.2 rfl
  have hplan : Plan.builtin .print ⟨"print", line⟩ [v] m' =
      .done (.ok none) (m'.print (Builtin.Value.ofLiteral v).text) := by
    simp [Plan.builtin, Builtin.call]
  rw [runs_builtin_iff hname h, hplan]
  exact Plan.runs_done_iff

theorem runs_len_iff (h : (Task.expr e).Runs limit m (.ok v) m') (line : Nat) :
    (Task.call ⟨"len", line⟩ [e]).Runs limit m r m'' ↔
      r =
        Ident.integerResult ⟨"len", line⟩
          (Builtin.Value.ofLiteral v).text.length ∧
        m'' = m' := by
  have hname : Builtin.ofName? "len" = some .len :=
    Builtin.ofName?_eq_some_iff.2 rfl
  have hplan : Plan.builtin .len ⟨"len", line⟩ [v] m' =
      .done
        (Ident.integerResult ⟨"len", line⟩
          (Builtin.Value.ofLiteral v).text.length) m' := by
    rw [Plan.builtin, List.map_singleton, Builtin.call, Builtin.length]
    -- as a length, the integer would be compared with the bounds of words digit
    -- by digit
    generalize ((Builtin.Value.ofLiteral v).text.length : Int) = z
    rw [Builtin.exact, Ident.integerResult]
    cases Word.ofInt? z with
    | none => rfl
    | some w => rfl
  rw [runs_builtin_iff hname h, hplan]
  exact Plan.runs_done_iff

end Task

/-! ## Programs -/

/-- What a program from a source text comes to is well formed. -/
theorem Program.Reaches.wellFormed {source : String} {p : Program}
    (hsource : Program.ofSource source = .ok p) {limit : Option Nat}
    {stack : List Setting} {y : Yield} {task : Task y} {m : Machine}
    (h : p.Reaches limit .fresh stack task m) : task.WellFormed stack m := by
  obtain ⟨before, s, after, n, m₁, rfl, hbefore, hreaches⟩ := h
  have hp := constantsWellFormed_of_ofSource hsource
  rw [Stmt.listTokens_append, Stmt.listTokens] at hp
  have hm₁ := Program.wellFormed_run hp.left .fresh _ m₁ hbefore
  have hs : (Task.stmt s).WellFormed [] m₁ := ⟨hp.right.left, nofun, hm₁⟩
  exact (Quill.wellFormed limit).reaches hs hreaches

/-- For the built-ins a value that a program from a source text has computed is
its shown text, which is its own text exactly if that is not padded. `print`
writes the shown text of the value of an expression, and `len` counts its
characters; where the value is put into a string first, both see its own
text. -/
theorem builtins_see_shown {source : String} {p : Program}
    (hsource : Program.ofSource source = .ok p) {limit : Option Nat}
    {stack : List Setting} {e : Expr} {m m' : Machine} {v : Literal}
    (hreaches : p.Reaches limit .fresh stack (.expr e) m)
    (hv : (Task.expr e).Runs limit m (.ok v) m') (line : Nat) :
    (Builtin.Value.ofLiteral v).text = v.shown ∧
      (v.shown = v.text ↔ v.isPadded = false) ∧
    (∀ r m'', (Task.call ⟨"print", line⟩ [e]).Runs limit m r m'' ↔
      r = .ok none ∧ m'' = m'.print v.shown) ∧
    (∀ r m'', (Task.call ⟨"print", line⟩ [e.asString line]).Runs limit m r m'' ↔
      r = .ok none ∧ m'' = m'.print v.text) ∧
    (∀ r m'', (Task.call ⟨"len", line⟩ [e]).Runs limit m r m'' ↔
      r = Ident.integerResult ⟨"len", line⟩ v.shown.length ∧ m'' = m') ∧
    (∀ r m'', (Task.call ⟨"len", line⟩ [e.asString line]).Runs limit m r m'' ↔
      r = Ident.integerResult ⟨"len", line⟩ v.text.length ∧ m'' = m') := by
  have hwellFormed : v.WellFormed :=
    ((wellFormed limit).runs (hreaches.wellFormed hsource) hv).1 v rfl v
      (List.mem_singleton_self v)
  have hshown := Builtin.Value.text_ofLiteral hwellFormed
  have hstring := Task.runs_asString hv line
  refine ⟨hshown, Literal.shown_eq_text_iff, fun r m'' => ?_,
    fun r m'' => Task.runs_print_iff hstring line, fun r m'' => ?_,
    fun r m'' => Task.runs_len_iff hstring line⟩
  · rw [Task.runs_print_iff hv line, hshown]
  · rw [Task.runs_len_iff hv line, hshown]

/-- A constant with two zeros that its number does not need. -/
def paddedSeven : Literal :=
  ⟨.int, "007", 1⟩

theorem ofSource_paddedSeven :
    Program.ofSource "print(007)" =
      .ok [.call ⟨"print", 1⟩ [.literal paddedSeven]] := by
  have htokens : (scan "print(007)").toOption =
      some [⟨.name, "print", 1⟩, ⟨.symbol .lparen, "(", 1⟩,
        ⟨.integer, "007", 1⟩, ⟨.symbol .rparen, ")", 1⟩] := by
    decide +kernel
  rw [Program.ofSource_of_scan htokens]
  rfl

theorem reaches_paddedSeven :
    Program.Reaches none [.call ⟨"print", 1⟩ [.literal paddedSeven]] .fresh
      [.same, .same, .same] (.expr (.literal paddedSeven)) .fresh := by
  refine ⟨[], _, [], 0, .fresh, rfl, rfl, ?_⟩
  exact .step (.step (.step .start .now) .now) .now

/-- The zeros are gone for `print` and `len`, and stay where the constant is put
into a string. -/
theorem builtins_see_shown_leadingZeros :
    ∃ p, Program.ofSource "print(007)" = .ok p ∧
      p.Reaches none .fresh [.same, .same, .same]
        (.expr (.literal paddedSeven)) .fresh ∧
      paddedSeven.shown = "7" ∧
      (Task.call ⟨"print", 1⟩ [.literal paddedSeven]).Runs none
        .fresh (.ok none) (Machine.fresh.print "7") ∧
      (Task.call ⟨"print", 1⟩ [Expr.asString 1 (.literal paddedSeven)]).Runs
        none .fresh (.ok none) (Machine.fresh.print "007") ∧
      (Task.call ⟨"len", 1⟩ [.literal paddedSeven]).Runs none .fresh
        (.ok (some ⟨.int, "1", 1⟩)) .fresh ∧
      (Task.call ⟨"len", 1⟩ [Expr.asString 1 (.literal paddedSeven)]).Runs none
        .fresh (.ok (some ⟨.int, "3", 1⟩)) .fresh := by
  obtain ⟨-, -, hprint, hprintString, hlen, hlenString⟩ := builtins_see_shown
    ofSource_paddedSeven reaches_paddedSeven
      (Task.runs_literal paddedSeven .fresh) 1
  have hshown : paddedSeven.shown = "7" := by decide
  rw [hshown] at hprint hlen
  have hone := Ident.integerResult_toInt ⟨"len", 1⟩ ⟨1, by decide, by decide⟩
  have hthree := Ident.integerResult_toInt ⟨"len", 1⟩ ⟨3, by decide, by decide⟩
  exact ⟨_, ofSource_paddedSeven, reaches_paddedSeven, hshown,
    (hprint _ _).2 ⟨rfl, rfl⟩,
    (hprintString _ _).2 ⟨rfl, rfl⟩, (hlen _ _).2 ⟨hone.symm, rfl⟩,
    (hlenString _ _).2 ⟨hthree.symm, rfl⟩⟩

/-- `print` writes a number and not the text of the constant. -/
theorem print_drops_zeros :
    ∃ p m, Program.ofSource "print(007)" = .ok p ∧
      p.Reaches none .fresh [.same, .same, .same]
        (.expr (.literal paddedSeven)) .fresh ∧
      (Task.expr (.literal paddedSeven)).Runs none .fresh
        (.ok paddedSeven) .fresh ∧
      (Builtin.Value.ofLiteral paddedSeven).text ≠ paddedSeven.text ∧
      runProgram none 6 p .fresh = .ended (.ok ()) m ∧ m.output = "7\n" ∧
      m.output ≠ paddedSeven.text ++ "\n" :=
  ⟨_, _, ofSource_paddedSeven, reaches_paddedSeven,
    Task.runs_literal paddedSeven .fresh, by decide, rfl, by decide, by decide⟩

end Quill
