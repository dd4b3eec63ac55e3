import Quill.Token.Scan

/-!
# The scanner loses nothing

The pieces of the lexemes put together are the text again, and each lexeme
carries the line on which its piece begins. Both are carried along the cutting
of the text by what a single cut does: `Token.Kind.Fits` says what a piece of
each kind looks like, and `fits_of_width_pos` that the width of a kind measures
off such a piece.

Only the piece of a line feed has a line feed in it, which is why counting the
line feeds among the lexemes, as the scanner does, counts those of the text.
-/

namespace Quill

/-! ## Letters and digits are no blanks -/

theorem isBlank_of_isDigit {c : Char} (h : c.isDigit = true) :
    isBlank c = false := by
  have hc : 48 ≤ c.toNat ∧ c.toNat ≤ 57 := Char.isDigit_iff_toNat.1 h
  simp only [isBlank, Ranges.has, blankRanges, List.any_cons, List.any_nil,
    Bool.or_false, Bool.or_eq_false_iff, Bool.and_eq_false_iff,
    decide_eq_false_iff_not]
  omega

theorem toNat_of_isAlpha {c : Char} (h : c.isAlpha = true) :
    (65 ≤ c.toNat ∧ c.toNat ≤ 90) ∨ (97 ≤ c.toNat ∧ c.toNat ≤ 122) := by
  change (decide (65 ≤ c.val ∧ c.val ≤ 90) ||
    decide (97 ≤ c.val) && decide (c.val ≤ 122)) = true at h
  simp only [Bool.or_eq_true, Bool.and_eq_true, decide_eq_true_eq,
    UInt32.le_iff_toNat_le] at h
  exact h

theorem isBlank_of_isAlpha {c : Char} (h : c.isAlpha = true) :
    isBlank c = false := by
  have hc := toNat_of_isAlpha h
  simp only [isBlank, Ranges.has, blankRanges, List.any_cons, List.any_nil,
    Bool.or_false, Bool.or_eq_false_iff, Bool.and_eq_false_iff,
    decide_eq_false_iff_not]
  omega

theorem Keyword.isBlank_of_mem_spelling (w : Keyword) :
    ∀ c ∈ w.spelling.toList, isBlank c = false := by
  have h : (w.spelling.toList.all fun c => !isBlank c) =
      true := by cases w <;> decide
  intro c hc
  simpa using List.all_eq_true.1 h c hc

theorem Symbol.isBlank_of_mem_spelling (s : Symbol) :
    ∀ c ∈ s.spelling.toList, isBlank c = false := by
  have h : (s.spelling.toList.all fun c => !isBlank c) =
      true := by cases s <;> decide
  intro c hc
  simpa using List.all_eq_true.1 h c hc

/-! ## What a piece of each kind is -/

namespace Token.Kind

/-- A piece of text of the given kind, with the text that follows it. -/
def Fits : Token.Kind → List Char → List Char → Prop
  | .newline, piece, _ => piece = ['\n']
  | .blank, piece, _ => ∃ c, piece = [c] ∧ isBlank c = true ∧ c ≠ '\n'
  | .comment, piece, after =>
    ∃ body, piece = '#' :: body ∧ '\n' ∉ body ∧
      (after = [] ∨ after.head? = some '\n')
  | .keyword w, piece, after =>
    piece = w.spelling.toList ∧ (w.needsBlank = true → startsBlank after = true)
  | .symbol s, piece, _ => piece = s.spelling.toList
  | .string, piece, _ =>
    ∃ body, piece = '"' :: (body ++ ['"']) ∧ ∀ c ∈ body, c ≠ '"' ∧ c ≠ '\n'
  | .integer, piece, _ => piece ≠ [] ∧ ∀ c ∈ piece, c.isDigit = true
  | .name, piece, _ => piece ≠ [] ∧ ∀ c ∈ piece, c.isAlpha = true

theorem take_length_takeWhile (p : Char → Bool) (cs : List Char) :
    cs.take (cs.takeWhile p).length = cs.takeWhile p :=
  (List.prefix_iff_eq_take.1 (List.takeWhile_prefix p)).symm

theorem drop_length_takeWhile (p : Char → Bool) (cs : List Char) :
    cs.drop (cs.takeWhile p).length = cs.dropWhile p := by
  have h :=
    congrArg (List.drop (cs.takeWhile p).length)
      (cs.takeWhile_append_dropWhile (p := p))
  rw [List.drop_left] at h
  exact h.symm

theorem mem_takeWhile {p : Char → Bool} {cs : List Char} {c : Char}
    (h : c ∈ cs.takeWhile p) : p c = true :=
  List.all_eq_true.1 (List.all_takeWhile (p := p) (l := cs)) c h

theorem dropWhile_ne_newline (cs : List Char) :
    cs.dropWhile (· ≠ '\n') = [] ∨
      (cs.dropWhile (· ≠ '\n')).head? = some '\n' := by
  have h := List.head?_dropWhile_not (fun c : Char => decide (c ≠ '\n')) cs
  cases hcs : cs.dropWhile (fun c => decide (c ≠ '\n')) with
  | nil => exact .inl rfl
  | cons c after =>
      rw [hcs] at h
      right
      simpa using h

theorem of_ite_pos {p : Prop} [Decidable p] {n : Nat}
    (h : 0 < if p then n else 0) : p := by
  by_cases hp : p
  · exact hp
  · rw [if_neg hp] at h
    exact absurd h (Nat.lt_irrefl 0)

/-- The width of a kind measures off a piece of that kind. -/
theorem fits_of_width_pos {k : Token.Kind} {cs : List Char}
    (h : 0 < k.width cs) :
    k.Fits (cs.take (k.width cs)) (cs.drop (k.width cs)) := by
  cases k with
  | newline =>
      simp only [width] at h ⊢
      have hd := of_ite_pos h
      obtain ⟨rest, rfl⟩ := List.head?_eq_some_iff.1 hd
      rw [if_pos hd]
      rfl
  | blank =>
      simp only [width] at h ⊢
      have hd := of_ite_pos h
      rw [if_pos hd]
      cases cs with
      | nil => exact absurd hd.1 (by decide)
      | cons c rest => exact ⟨c, rfl, hd.1, fun e => hd.2 (by rw [e]; rfl)⟩
  | comment =>
      simp only [width] at h ⊢
      have hd := of_ite_pos h
      rw [if_pos hd, take_length_takeWhile, drop_length_takeWhile]
      obtain ⟨rest, rfl⟩ := List.head?_eq_some_iff.1 hd
      refine ⟨rest.takeWhile (· ≠ '\n'), by simp,
        fun hm => ?_, dropWhile_ne_newline _⟩
      exact absurd (mem_takeWhile hm) (by decide)
  | keyword w =>
      simp only [width] at h ⊢
      have hd := of_ite_pos h
      rw [if_pos hd]
      have hword := List.isPrefixOf_iff_prefix.1 hd.1
      exact ⟨(List.prefix_iff_eq_take.1 hword).symm, hd.2⟩
  | symbol s =>
      simp only [width] at h ⊢
      have hd := of_ite_pos h
      rw [if_pos hd]
      exact (List.prefix_iff_eq_take.1 (List.isPrefixOf_iff_prefix.1 hd)).symm
  | string =>
      simp only [width] at h ⊢
      split at h
      · next rest =>
          have hq := of_ite_pos h
          simp only [if_pos hq]
          refine ⟨rest.takeWhile fun c => c ≠ '"' && c ≠ '\n', ?_,
            fun c hc => ?_⟩
          · rw [List.take_succ_cons, List.take_add_one, hq,
              take_length_takeWhile]
            rfl
          · simpa using mem_takeWhile hc
      · exact absurd h (Nat.lt_irrefl 0)
  | integer =>
      simp only [width] at h ⊢
      rw [take_length_takeWhile]
      exact ⟨List.ne_nil_of_length_pos h, fun c hc => mem_takeWhile hc⟩
  | name =>
      simp only [width] at h ⊢
      rw [take_length_takeWhile]
      exact ⟨List.ne_nil_of_length_pos h, fun c hc => mem_takeWhile hc⟩

variable {k : Token.Kind} {piece after : List Char}

theorem Fits.ne_nil (h : k.Fits piece after) : piece ≠ [] := by
  cases k with
  | newline => rw [Fits] at h; simp [h]
  | blank => obtain ⟨c, rfl, -⟩ := h; simp
  | comment => obtain ⟨body, rfl, -⟩ := h; simp
  | keyword w => rw [h.1]; cases w <;> decide
  | symbol s => rw [Fits] at h; rw [h]; cases s <;> decide
  | string => obtain ⟨body, rfl, -⟩ := h; simp
  | integer => exact h.1
  | name => exact h.1

/-- Blanks stand only in line feeds, blanks, comments and string constants. -/
theorem Fits.isBlank_eq_false (h : k.Fits piece after) (hn : k ≠ .newline)
    (ht : k.isTrivia = false) (hs : k ≠ .string) :
    ∀ c ∈ piece, isBlank c = false := by
  cases k with
  | newline => exact absurd rfl hn
  | blank => exact absurd ht (by decide)
  | comment => exact absurd ht (by decide)
  | keyword w => rw [h.1]; exact w.isBlank_of_mem_spelling
  | symbol s => rw [Fits] at h; rw [h]; exact s.isBlank_of_mem_spelling
  | string => exact absurd rfl hs
  | integer => exact fun c hc => isBlank_of_isDigit (h.2 c hc)
  | name => exact fun c hc => isBlank_of_isAlpha (h.2 c hc)

theorem Fits.newline_not_mem (h : k.Fits piece after) (hn : k ≠ .newline) :
    '\n' ∉ piece := by
  intro hm
  by_cases hb : k.isTrivia = false ∧ k ≠ .string
  · have := h.isBlank_eq_false hn hb.1 hb.2 _ hm
    exact absurd this (by decide)
  · cases k with
    | blank =>
        obtain ⟨c, rfl, -, hc⟩ := h
        exact hc (List.mem_singleton.1 hm).symm
    | comment =>
        obtain ⟨body, rfl, hbody, -⟩ := h
        rcases List.mem_cons.1 hm with e | hm
        · exact absurd e (by decide)
        · exact hbody hm
    | string =>
        obtain ⟨body, rfl, hbody⟩ := h
        have hm : '\n' ∈ body := by simpa using hm
        exact (hbody _ hm).2 rfl
    | _ => exact absurd ⟨rfl, nofun⟩ hb

theorem Fits.count_newline (h : k.Fits piece after) :
    piece.count '\n' = if k = .newline then 1 else 0 := by
  split
  · next hk =>
      subst hk
      rw [Fits] at h
      rw [h]
      rfl
  · next hk => exact List.count_eq_zero.2 (h.newline_not_mem hk)

end Token.Kind

/-! ## The pieces of a text -/

/-- A lexeme of the text `before ++ l.piece ++ after`, whose first line is
numbered `line`: the piece has the form of its kind, and the lexeme is on the
line where the piece begins. -/
structure Lexeme.Placed (line : Nat) (before : List Char) (l : Lexeme)
    (after : List Char) : Prop where
  fits : l.kind.Fits l.piece after
  line_eq : l.line = line + before.count '\n'

theorem Lexeme.nextLine_of_fits {l : Lexeme} {after : List Char}
    (h : l.kind.Fits l.piece after) :
    l.nextLine = l.line + l.piece.count '\n' := by
  rw [h.count_newline, nextLine]
  split <;> rfl

theorem Lexeme.Placed.nextLine_eq {line : Nat} {before after : List Char}
    {l : Lexeme} (h : l.Placed line before after) :
    l.nextLine = l.line + l.piece.count '\n' :=
  nextLine_of_fits h.fits

theorem eq_nil_of_lexemes {line : Nat} {cs : List Char}
    (h : lexemes line cs = .ok []) : cs = [] := by
  unfold lexemes at h
  split at h
  · rfl
  · split at h
    · cases h
    · dsimp only at h
      split at h <;> cases h

/-- What one cut does: the first kind that fits takes its piece, and the rest is
cut from the line after it. -/
theorem lexemes_cons {line : Nat} {cs : List Char} {l : Lexeme}
    {ls : List Lexeme} (h : lexemes line cs = .ok (l :: ls)) :
    ∃ k, Token.Kind.first? cs = some k ∧ l = ⟨k, cs.take (k.width cs), line⟩ ∧
      lexemes l.nextLine (cs.drop (k.width cs)) = .ok ls := by
  unfold lexemes at h
  split at h
  · cases h
  · split at h
    · cases h
    · next k hk =>
        dsimp only at h
        split at h
        · next hrest =>
            cases h
            exact ⟨k, hk, rfl, hrest⟩
        · cases h

theorem flatMap_piece_of_lexemes {line : Nat} {cs : List Char}
    {ls : List Lexeme} (h : lexemes line cs = .ok ls) :
    ls.flatMap Lexeme.piece = cs := by
  induction ls generalizing line cs with
  | nil => exact (eq_nil_of_lexemes h).symm
  | cons l ls ih =>
      obtain ⟨k, -, rfl, hrest⟩ := lexemes_cons h
      rw [List.flatMap_cons, ih hrest]
      exact List.take_append_drop (k.width cs) cs

theorem placed_of_lexemes_cons {line : Nat} {cs : List Char} {l : Lexeme}
    {ls : List Lexeme} (h : lexemes line cs = .ok (l :: ls)) :
    l.Placed line [] (ls.flatMap Lexeme.piece) := by
  obtain ⟨k, hk, rfl, hrest⟩ := lexemes_cons h
  refine ⟨?_, rfl⟩
  rw [flatMap_piece_of_lexemes hrest]
  exact Token.Kind.fits_of_width_pos (Token.Kind.width_pos_of_first? hk)

/-- What holds of a cut at the head of a text holds of every cut: the text
before it only moves the line. -/
theorem placed_of_lexemes {line : Nat} {cs : List Char}
    {before after : List Lexeme} {l : Lexeme}
    (h : lexemes line cs = .ok (before ++ l :: after)) :
    l.Placed line (before.flatMap Lexeme.piece)
      (after.flatMap Lexeme.piece) := by
  induction before generalizing line cs with
  | nil => exact placed_of_lexemes_cons h
  | cons l' before ih =>
      have hhead := placed_of_lexemes_cons h
      obtain ⟨k, -, -, hrest⟩ := lexemes_cons h
      have hp := ih hrest
      refine ⟨hp.fits, ?_⟩
      rw [hp.line_eq, hhead.nextLine_eq, hhead.line_eq, List.flatMap_cons,
        List.count_append, List.count_nil]
      omega

theorem exists_fits_of_lexemes {line : Nat} {cs : List Char} {ls : List Lexeme}
    (h : lexemes line cs = .ok ls) {l : Lexeme} (hl : l ∈ ls) :
    ∃ after, l.kind.Fits l.piece after := by
  obtain ⟨before, after, rfl⟩ := List.append_of_mem hl
  exact ⟨_, (placed_of_lexemes h).fits⟩

/-! ## What the tokens keep of the pieces -/

namespace Lexeme

variable {l : Lexeme} {after : List Char}

theorem token_text_of_ne_string (h : l.kind ≠ .string) :
    l.token.text.toList = l.piece := by
  simp only [token, if_neg h, String.toList_ofList]

theorem piece_eq_of_string (hf : l.kind.Fits l.piece after)
    (h : l.kind = .string) :
    l.piece = '"' :: (l.token.text.toList ++ ['"']) := by
  rw [h] at hf
  obtain ⟨body, hbody, -⟩ := hf
  simp only [token, if_pos h, String.toList_ofList, hbody, List.drop_succ_cons,
    List.drop_zero, List.dropLast_concat]

/-- Away from comments and strings, what a token keeps of its piece, and a blank
does not, are the characters that are no blanks other than line feeds. -/
theorem filter_piece (hf : l.kind.Fits l.piece after) (hc : '#' ∉ l.piece)
    (hq : '"' ∉ l.piece) : l.piece.filter (fun c => !isBlank c || c == '\n') =
      if l.kind.isTrivia then [] else l.token.text.toList := by
  have hs : l.kind ≠ .string := by
    intro h
    rw [piece_eq_of_string hf h] at hq
    exact hq (List.mem_cons_self ..)
  cases hk : l.kind.isTrivia with
  | true =>
      rw [if_pos rfl]
      cases hkind : l.kind with
      | blank =>
          rw [hkind] at hf
          obtain ⟨c, hpiece, hblank, hne⟩ := hf
          rw [hpiece]
          simp [hblank, hne]
      | comment =>
          rw [hkind] at hf
          obtain ⟨body, hpiece, -⟩ := hf
          rw [hpiece] at hc
          exact absurd (List.mem_cons_self ..) hc
      | _ =>
          rw [hkind] at hk
          exact absurd hk (by simp [Token.Kind.isTrivia])
  | false =>
      rw [if_neg Bool.false_ne_true, token_text_of_ne_string hs,
        List.filter_eq_self]
      intro c hmem
      by_cases hn : l.kind = .newline
      · rw [hn] at hf
        rw [show l.piece = ['\n'] from hf] at hmem
        rw [List.mem_singleton.1 hmem]
        decide
      · rw [hf.isBlank_eq_false hn hk hs c hmem]
        rfl

end Lexeme

theorem count_newline_flatMap {ls : List Lexeme}
    (h : ∀ l ∈ ls, ∃ after, l.kind.Fits l.piece after) :
    (ls.flatMap Lexeme.piece).count '\n' =
      ls.countP (fun l => l.kind = .newline) := by
  induction ls with
  | nil => rfl
  | cons l ls ih =>
      obtain ⟨after, hf⟩ := h l (List.mem_cons_self ..)
      rw [List.flatMap_cons, List.count_append, hf.count_newline,
        List.countP_cons, ih fun l hl => h l (List.mem_cons_of_mem _ hl)]
      simp only [decide_eq_true_eq]
      omega

theorem flatMap_text_tokens {ls : List Lexeme}
    (h : ∀ l ∈ ls, ∃ after, l.kind.Fits l.piece after)
    (hc : '#' ∉ ls.flatMap Lexeme.piece) (hq : '"' ∉ ls.flatMap Lexeme.piece) :
    ((ls.filter (!·.kind.isTrivia)).map Lexeme.token).flatMap (·.text.toList) =
      (ls.flatMap Lexeme.piece).filter fun c => !isBlank c || c == '\n' := by
  induction ls with
  | nil => rfl
  | cons l ls ih =>
      rw [List.flatMap_cons, List.mem_append, not_or] at hc hq
      obtain ⟨after, hf⟩ := h l (List.mem_cons_self ..)
      rw [List.flatMap_cons, List.filter_append, l.filter_piece hf hc.1 hq.1,
        ← ih (fun l hl => h l (List.mem_cons_of_mem _ hl)) hc.2 hq.2]
      cases hk : l.kind.isTrivia <;> simp [hk]

/-! ## The scanner -/

/-- Scanning is lossless and its lines are exact. The text is cut into pieces,
each of the form of its kind; the tokens are the pieces other than blanks and
comments, in order, each with the text of its piece (a string constant without
its quotes) and the line on which the piece begins. So there is one line feed
token for each line feed, and without comments and strings the texts of the
tokens are the source without its blanks. -/
theorem scan_lossless {source : String} {ts : List Token}
    (h : scan source = .ok ts) : ∃ ls : List Lexeme,
      ls.flatMap Lexeme.piece = source.toList ∧
      ts = (ls.filter (!·.kind.isTrivia)).map Lexeme.token ∧
      (∀ before l after, ls = before ++ l :: after →
        l.piece ≠ [] ∧
        l.kind.Fits l.piece (after.flatMap Lexeme.piece) ∧
        l.token.kind = l.kind ∧
        l.token.line = 1 + (before.flatMap Lexeme.piece).count '\n' ∧
        (l.kind = .string → l.piece = '"' :: (l.token.text.toList ++ ['"'])) ∧
        (l.kind ≠ .string → l.piece = l.token.text.toList)) ∧
      ts.countP (fun t => t.kind = .newline) = source.toList.count '\n' ∧
      ('#' ∉ source.toList → '"' ∉ source.toList →
        ts.flatMap (·.text.toList) =
          source.toList.filter fun c => !isBlank c || c == '\n') := by
  unfold scan at h
  split at h
  · next ls hls =>
      cases h
      have hpieces := flatMap_piece_of_lexemes hls
      have hfits := fun l => exists_fits_of_lexemes hls (l := l)
      refine ⟨ls, hpieces, rfl, ?_, ?_, ?_⟩
      · rintro before l after rfl
        have hp := placed_of_lexemes hls
        exact ⟨hp.fits.ne_nil, hp.fits, rfl, hp.line_eq,
          Lexeme.piece_eq_of_string hp.fits,
          fun hs => (Lexeme.token_text_of_ne_string hs).symm⟩
      · rw [← hpieces, count_newline_flatMap hfits, List.countP_map,
          List.countP_filter]
        refine List.countP_congr fun l _ => ?_
        -- a line feed is no trivia, so dropping trivia drops none
        by_cases hk : l.kind = .newline <;>
          simp [Lexeme.token, hk, Token.Kind.isTrivia]
      · intro hc hq
        rw [← hpieces] at hc hq ⊢
        exact flatMap_text_tokens hfits hc hq
  · cases h

theorem scan_lossless_comment_and_string :
    ∃ ts, scan "a=\"#\"\n #\n1" = .ok ts ∧
      ts.map Token.line = [1, 1, 1, 1, 2, 3] ∧
      ∃ ls : List Lexeme, ls.flatMap Lexeme.piece = "a=\"#\"\n #\n1".toList ∧
        ts = (ls.filter (!·.kind.isTrivia)).map Lexeme.token := by
  have hlines : (scan "a=\"#\"\n #\n1").toOption.map (·.map Token.line) =
      some [1, 1, 1, 1, 2, 3] := by
    decide +kernel
  cases h : scan "a=\"#\"\n #\n1" with
  | error e =>
      rw [h] at hlines
      cases hlines
  | ok ts =>
      rw [h] at hlines
      obtain ⟨ls, hpieces, htokens, -⟩ := scan_lossless h
      exact ⟨ts, rfl, Option.some.inj hlines, ls, hpieces, htokens⟩

end Quill
