import Quill.Proofs.FirstMatch

/-!
# How a text is cut

A text that can be scanned falls into lexemes, and which ones can be said
without the scanner: one after the other, each is taken in front of what the
ones behind it spell. Any lexemes with this property that spell the text are the
scanner's.

For the tokens this says that each is of its class and cannot be carried on. A
short symbol hides no longer one and a name hides no keyword, whatever stands
behind.
-/

namespace Quill

/-! ## Lexemes one after the other -/

/-- Lexemes that are cut one after the other, beginning on the line given. -/
inductive Cuts : Nat → List Lexeme → Prop
  | nil {line : Nat} : Cuts line []
  | cons {l : Lexeme} {ls : List Lexeme}
      (htaken : l.kind.Taken l.piece (ls.flatMap Lexeme.piece))
      (hrest : Cuts l.nextLine ls) : Cuts l.line (l :: ls)

theorem cuts_of_lexemes {line : Nat} {cs : List Char} {ls : List Lexeme}
    (h : lexemes line cs = .ok ls) : Cuts line ls := by
  induction ls generalizing line cs with
  | nil => exact .nil
  | cons l ls ih =>
      obtain ⟨k, hk, rfl, hrest⟩ := lexemes_cons h
      have htaken := Token.Kind.taken_of_first? hk
      rw [← flatMap_piece_of_lexemes hrest] at htaken
      exact .cons htaken (ih hrest)

theorem Cuts.lexemes_eq {line : Nat} {ls : List Lexeme} (h : Cuts line ls) :
    lexemes line (ls.flatMap Lexeme.piece) = .ok ls := by
  induction h with
  | nil => rw [List.flatMap_nil, lexemes]
  | @cons l ls htaken _ ih =>
      rw [List.flatMap_cons, htaken.lexemes_eq, ih]
      rfl

/-- The scanner's lexemes are those that spell the text and are cut one after
the other. -/
theorem lexemes_eq_ok_iff {line : Nat} {cs : List Char} {ls : List Lexeme} :
    lexemes line cs = .ok ls ↔ ls.flatMap Lexeme.piece = cs ∧ Cuts line ls := by
  constructor
  · intro h
    exact ⟨flatMap_piece_of_lexemes h, cuts_of_lexemes h⟩
  · rintro ⟨rfl, h⟩
    exact h.lexemes_eq

theorem Cuts.taken {line : Nat} {before after : List Lexeme} {l : Lexeme}
    (h : Cuts line (before ++ l :: after)) :
    l.kind.Taken l.piece (after.flatMap Lexeme.piece) := by
  induction before generalizing line with
  | nil =>
      cases h with
      | cons htaken _ => exact htaken
  | cons l' before ih =>
      cases h with
      | cons _ hrest => exact ih hrest

/-! ## Tokens in their classes -/

/-- The token is of its class, and the character behind it, if there is one,
does not carry it on. A name begins with no keyword that needs no end, and it is
another keyword only where the blank behind is missing. -/
def Token.Settled (t : Token) (next : Option Char) : Prop :=
  match t.kind with
  | .newline => t.text = "\n"
  | .blank => False
  | .comment => False
  | .keyword w =>
    t.text = w.spelling ∧
      (w.needsBlank = true → ∃ c, next = some c ∧ isBlank c = true)
  | .symbol s => t.text = s.spelling ∧ (s.takesEquals = true → next ≠ some '=')
  | .string => '"' ∉ t.text.toList ∧ '\n' ∉ t.text.toList
  | .integer =>
    t.text ≠ "" ∧ (∀ c ∈ t.text.toList, c.isDigit = true) ∧
      ∀ c, next = some c → c.isDigit = false
  | .name =>
    t.text ≠ "" ∧ (∀ c ∈ t.text.toList, c.isAlpha = true) ∧
      (∀ c, next = some c → c.isAlpha = false) ∧
      ∀ w : Keyword,
        if w.needsBlank = true then t.text = w.spelling → ∀ c, next = some c →
          isBlank c = false
        else ¬ w.spelling.toList <+: t.text.toList

theorem startsBlank_eq_true_iff {cs : List Char} :
    startsBlank cs = true ↔ ∃ c, cs.head? = some c ∧ isBlank c = true := by
  cases cs <;> simp [startsBlank]

/-- What is taken, apart from blanks and comments, is a token of its class. -/
theorem Token.settled_of_taken {t : Token} {after : List Char}
    (h : t.kind.Taken t.written after) (ht : t.kind.isTrivia = false) :
    t.Settled after.head? := by
  obtain ⟨hfits, hstops, hunreserved⟩ := h
  obtain ⟨kind, text, line⟩ := t
  cases kind with
  | newline => exact String.toList_inj.1 (hfits.trans (by decide))
  | blank => cases ht
  | comment => cases ht
  | keyword w =>
      exact ⟨String.toList_inj.1 hfits.1,
        fun hneeds => startsBlank_eq_true_iff.1 (hstops hneeds)⟩
  | symbol s => exact ⟨String.toList_inj.1 hfits, hstops⟩
  | string =>
      obtain ⟨body, hbody, hplain⟩ := hfits
      have htext : text.toList = body :=
        List.append_cancel_right (List.cons.inj hbody).2
      subst htext
      exact ⟨fun hmem => (hplain _ hmem).1 rfl,
        fun hmem => (hplain _ hmem).2 rfl⟩
  | integer =>
      exact ⟨fun hempty => hfits.1 (String.toList_eq_nil_iff.2 hempty), hfits.2,
        hstops⟩
  | name =>
      refine ⟨fun hempty => hfits.1 (String.toList_eq_nil_iff.2 hempty),
        hfits.2, hstops, ?_⟩
      intro w
      have hkeyword := hunreserved rfl w
      by_cases hneeds : w.needsBlank = true
      · rw [if_pos hneeds] at hkeyword ⊢
        intro htext c hc
        have hblank := hkeyword (congrArg String.toList htext)
        rw [Bool.eq_false_iff] at hblank ⊢
        exact fun hc' => hblank (startsBlank_eq_true_iff.2 ⟨c, hc, hc'⟩)
      · rw [if_neg hneeds] at hkeyword ⊢
        exact hkeyword

theorem Lexeme.piece_eq_written {l : Lexeme} {after : List Char}
    (h : l.kind.Fits l.piece after) : l.piece = l.token.written := by
  by_cases hs : l.token.kind = .string
  · rw [Token.written, if_pos hs]
    exact piece_eq_of_string h hs
  · rw [Token.written, if_neg hs]
    exact (token_text_of_ne_string hs).symm

/-- Each token comes from a lexeme of its own. -/
theorem Lexeme.exists_split_of_tokens {ls : List Lexeme}
    {us vs : List Token} {t : Token} (h : tokens ls = us ++ t :: vs) :
    ∃ before l after, ls = before ++ l :: after ∧ l.token = t ∧
      l.kind.isTrivia = false ∧ tokens before = us ∧ tokens after = vs := by
  obtain ⟨kept, rest, hkept, rfl, hrest⟩ := List.map_eq_append_iff.1 h
  obtain ⟨l, kept', rfl, rfl, rfl⟩ := List.map_eq_cons_iff.1 hrest
  obtain ⟨before, behind, rfl, rfl, hbehind⟩ :=
    List.filter_eq_append_iff.1 hkept
  obtain ⟨skipped, after, rfl, hskipped, hl, rfl⟩ :=
    List.filter_eq_cons_iff.1 hbehind
  refine ⟨before ++ skipped, l, after, by simp, rfl, by simpa using hl, ?_, rfl⟩
  have hnone : skipped.filter (!·.kind.isTrivia) = [] := by
    simpa [List.filter_eq_nil_iff] using hskipped
  rw [tokens, List.filter_append, hnone, List.append_nil]

/-! ## The tokens of a source -/

theorem exists_lexemes_of_scan {source : String} {ts : List Token}
    (h : scan source = .ok ts) :
    ∃ ls, lexemes 1 source.toList = .ok ls ∧ Lexeme.tokens ls = ts := by
  unfold scan at h
  split at h
  · next ls hls =>
      cases h
      exact ⟨ls, hls, rfl⟩
  · cases h

/-- Every token is of its class and cannot be carried on. The text is cut into
lexemes, and each token, other than blank and comment, is one of them: it stands
there as it is written, and the character behind it, the first of what the later
lexemes spell, settles it. -/
theorem scan_settled {source : String} {ts : List Token}
    (h : scan source = .ok ts) : ∃ ls : List Lexeme,
      lexemes 1 source.toList = .ok ls ∧
        ls.flatMap Lexeme.piece = source.toList ∧
      ∀ us t vs, ts = us ++ t :: vs →
        ∃ before l after, ls = before ++ l :: after ∧ l.token = t ∧
          Lexeme.tokens before = us ∧ Lexeme.tokens after = vs ∧
          l.piece = t.written ∧ t.kind.isTrivia = false ∧
          t.Settled (after.flatMap Lexeme.piece).head? := by
  obtain ⟨ls, hls, rfl⟩ := exists_lexemes_of_scan h
  obtain ⟨hpieces, hcuts⟩ := lexemes_eq_ok_iff.1 hls
  refine ⟨ls, hls, hpieces, fun us t vs hts => ?_⟩
  obtain ⟨before, l, after, rfl, rfl, htrivia, hbefore, hafter⟩ :=
    Lexeme.exists_split_of_tokens hts
  have htaken := hcuts.taken
  have hwritten := Lexeme.piece_eq_written htaken.fits
  refine ⟨before, l, after, rfl, rfl, hbefore, hafter, hwritten, htrivia, ?_⟩
  rw [hwritten] at htaken
  exact Token.settled_of_taken htaken htrivia

/-- In front of a line feed `int` is a keyword, while `fun` in front of `(` is a
name. -/
theorem scan_settled_before_blank :
    ∃ ts ls before l after,
      ts = [⟨.name, "fun", 1⟩, ⟨.symbol .lparen, "(", 1⟩,
        ⟨.keyword .int, "int", 1⟩, ⟨.newline, "\n", 1⟩] ∧
      scan "fun(int\n" = .ok ts ∧ lexemes 1 "fun(int\n".toList = .ok ls ∧
      ls = before ++ l :: after ∧ l.token = ⟨.keyword .int, "int", 1⟩ ∧
      Lexeme.tokens after = [⟨.newline, "\n", 1⟩] ∧
      l.token.Settled (after.flatMap Lexeme.piece).head? := by
  have hscan : scan "fun(int\n" =
      .ok [⟨.name, "fun", 1⟩, ⟨.symbol .lparen, "(", 1⟩,
        ⟨.keyword .int, "int", 1⟩, ⟨.newline, "\n", 1⟩] :=
    eq_ok_of_toOption (by decide +kernel)
  obtain ⟨ls, hls, -, htokens⟩ := scan_settled hscan
  obtain ⟨before, l, after, hsplit, hl, -, hafter, -, -, hsettled⟩ :=
    htokens [⟨.name, "fun", 1⟩, ⟨.symbol .lparen, "(", 1⟩] ⟨.keyword .int,
      "int", 1⟩ [⟨.newline, "\n", 1⟩] rfl
  refine ⟨_, ls, before, l, after, rfl, hscan, hls, hsplit, hl, hafter, ?_⟩
  rw [hl]
  exact hsettled

end Quill
