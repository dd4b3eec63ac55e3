import Quill.Proofs.Lines
import Quill.Proofs.WellFormed

/-!
# Which kind is taken

The scanner takes the first kind that fits, whatever a later kind could make of
the same text. So what a piece of text becomes depends on the order of the
kinds, on the pieces that begin alike, and on what follows. The order enters
once, as a rank: the kind taken is the fitting one of least rank. Most kinds are
ruled out by the first character alone, and what is left are words, where a name
must not begin like a keyword, and symbols, where `=` makes a longer one of
some.

A piece of text is taken by a kind if it has the form of the kind, what follows
does not carry it on, and, for a name, no keyword stands in its place. That
looks at one character behind the piece at most, and it is exactly what the
scanner takes.

A token is canonical if its text is one that the scanner gives to tokens of its
kind wherever they stand. Written in front of a text that does not carry it on,
it is taken, and scanned back as it is.
-/

namespace Quill

/-! ## The first kind that fits -/

theorem idxOf_le_of_find?_eq_some {α : Type} [DecidableEq α] {p : α → Bool}
    {l : List α} {a b : α} (ha : l.find? p = some a) (hb : p b = true) :
    l.idxOf a ≤ l.idxOf b := by
  obtain ⟨hpa, before, after, rfl, hbefore⟩ :=
    List.find?_eq_some_iff_append.1 ha
  have hnot : ∀ c, p c = true → c ∉ before := by
    intro c hc hmem
    have hfalse := hbefore c hmem
    rw [hc] at hfalse
    cases hfalse
  rw [List.idxOf_append, List.idxOf_append, if_neg (hnot a hpa),
    if_neg (hnot b hb), List.idxOf_cons_self]
  omega

/-- What is found first is what stands first of all that can be found. -/
theorem find?_eq_some_of_idxOf_le {α : Type} [DecidableEq α] {p : α → Bool}
    {l : List α} {a : α} (ha : a ∈ l) (hp : p a = true)
    (hle : ∀ b ∈ l, p b = true → l.idxOf a ≤ l.idxOf b) :
    l.find? p = some a := by
  obtain ⟨b, hb⟩ := Option.isSome_iff_exists.1 (List.find?_isSome.2 ⟨a, ha, hp⟩)
  have hmem := List.mem_of_find?_eq_some hb
  have hidx : l.idxOf a = l.idxOf b :=
    Nat.le_antisymm (hle b hmem (List.find?_some hb))
      (idxOf_le_of_find?_eq_some hb hp)
  have hab : a = b := by
    rw [← List.getElem_idxOf (List.idxOf_lt_length_of_mem ha),
      ← List.getElem_idxOf (List.idxOf_lt_length_of_mem hmem)]
    simp only [hidx]
  rw [hb, hab]

theorem Keyword.isAlpha_of_mem_spelling (w : Keyword) :
    ∀ c ∈ w.spelling.toList, c.isAlpha = true := by
  have h : w.spelling.toList.all Char.isAlpha = true := by cases w <;> decide
  exact List.all_eq_true.1 h

namespace Token.Kind

/-- The place of a kind in the order in which the scanner tries them. -/
def rank (k : Token.Kind) : Nat :=
  all.idxOf k

/-- Of the kinds that fit the scanner takes the one of least rank. -/
theorem first?_eq_some {cs : List Char} {k : Token.Kind} (hk : 0 < k.width cs)
    (hle : ∀ k' : Token.Kind, 0 < k'.width cs → k.rank ≤ k'.rank) :
    first? cs = some k :=
  find?_eq_some_of_idxOf_le (mem_all k) (by simpa using hk)
    fun k' _ hk' => hle k' (by simpa using hk')

theorem rank_le_of_first? {cs : List Char} {k k' : Token.Kind}
    (h : first? cs = some k) (hk' : 0 < k'.width cs) : k.rank ≤ k'.rank :=
  idxOf_le_of_find?_eq_some h (by simpa using hk')

theorem rank_keyword_lt_name (w : Keyword) :
    rank (.keyword w) < rank .name := by
  cases w <;> decide

/-! ## First characters -/

/-- The characters that a piece of each kind can begin with. -/
def Starts : Token.Kind → Char → Prop
  | .newline, c => c = '\n'
  | .blank, c => isBlank c = true
  | .comment, c => c = '#'
  | .keyword _, c => c.isAlpha = true
  | .symbol s, c => s.spelling.toList.head? = some c
  | .string, c => c = '"'
  | .integer, c => c.isDigit = true
  | .name, c => c.isAlpha = true

theorem Fits.starts {k : Token.Kind} {c : Char} {cs after : List Char}
    (h : k.Fits (c :: cs) after) : k.Starts c := by
  cases k with
  | newline => exact (List.cons.inj h).1
  | blank =>
      obtain ⟨d, hd, hblank, -⟩ := h
      cases hd
      exact hblank
  | comment =>
      obtain ⟨body, hbody, -⟩ := h
      exact (List.cons.inj hbody).1
  | keyword w =>
      exact w.isAlpha_of_mem_spelling c
        (by rw [← h.1]; exact List.mem_cons_self)
  | symbol s =>
      rw [Fits] at h
      rw [Starts, ← h]
      rfl
  | string =>
      obtain ⟨body, hbody, -⟩ := h
      exact (List.cons.inj hbody).1
  | integer => exact h.2 c List.mem_cons_self
  | name => exact h.2 c List.mem_cons_self

theorem starts_of_width_pos {k : Token.Kind} {c : Char} {cs : List Char}
    (h : 0 < k.width (c :: cs)) : k.Starts c := by
  have hfits := fits_of_width_pos h
  obtain ⟨n, hn⟩ := Nat.exists_eq_succ_of_ne_zero (Nat.ne_of_gt h)
  rw [hn, List.take_succ_cons] at hfits
  exact hfits.starts

end Token.Kind

/-- What a symbol begins with begins nothing else. -/
theorem Symbol.head_spelling (s : Symbol) {c : Char}
    (h : s.spelling.toList.head? = some c) :
    c.isAlpha = false ∧ c.isDigit = false ∧ isBlank c = false ∧
      c ≠ '#' ∧ c ≠ '"' := by
  cases s <;> (cases h; decide)

theorem isDigit_of_isAlpha {c : Char} (h : c.isAlpha = true) :
    c.isDigit = false := by
  rw [Bool.eq_false_iff]
  intro hdigit
  have halpha := toNat_of_isAlpha h
  have hrange : 48 ≤ c.toNat ∧ c.toNat ≤ 57 := Char.isDigit_iff_toNat.1 hdigit
  omega

namespace Token.Kind

variable {k : Token.Kind} {c : Char}

theorem Starts.of_isAlpha (h : k.Starts c) (hc : c.isAlpha = true) :
    (∃ w, k = .keyword w) ∨ k = .name := by
  cases k with
  | newline => rw [h] at hc; exact absurd hc (by decide)
  | blank => rw [Starts, isBlank_of_isAlpha hc] at h; cases h
  | comment => rw [h] at hc; exact absurd hc (by decide)
  | keyword w => exact .inl ⟨w, rfl⟩
  | symbol s => rw [(s.head_spelling h).1] at hc; cases hc
  | string => rw [h] at hc; exact absurd hc (by decide)
  | integer => rw [Starts, isDigit_of_isAlpha hc] at h; cases h
  | name => exact .inr rfl

theorem Starts.of_isDigit (h : k.Starts c) (hc : c.isDigit = true) :
    k = .integer := by
  cases k with
  | newline => rw [h] at hc; exact absurd hc (by decide)
  | blank => rw [Starts, isBlank_of_isDigit hc] at h; cases h
  | comment => rw [h] at hc; exact absurd hc (by decide)
  | keyword w => rw [isDigit_of_isAlpha h] at hc; cases hc
  | symbol s => rw [(s.head_spelling h).2.1] at hc; cases hc
  | string => rw [h] at hc; exact absurd hc (by decide)
  | integer => rfl
  | name => rw [isDigit_of_isAlpha h] at hc; cases hc

theorem Starts.of_quote (h : k.Starts '"') : k = .string := by
  cases k with
  | string => rfl
  | symbol s => exact absurd rfl (s.head_spelling h).2.2.2.2
  | keyword w => exact absurd h (show ¬ '"'.isAlpha = true by decide)
  | _ => exact absurd h (by unfold Starts; decide)

theorem Starts.of_hash (h : k.Starts '#') : k = .comment := by
  cases k with
  | comment => rfl
  | symbol s => exact absurd rfl (s.head_spelling h).2.2.2.1
  | keyword w => exact absurd h (show ¬ '#'.isAlpha = true by decide)
  | _ => exact absurd h (by unfold Starts; decide)

theorem Starts.of_isBlank (h : k.Starts c) (hc : isBlank c = true)
    (hne : c ≠ '\n') : k = .blank := by
  cases k with
  | newline => exact absurd h hne
  | blank => rfl
  | comment => rw [h] at hc; exact absurd hc (by decide)
  | keyword w => rw [isBlank_of_isAlpha h] at hc; cases hc
  | symbol s => rw [(s.head_spelling h).2.2.1] at hc; cases hc
  | string => rw [h] at hc; exact absurd hc (by decide)
  | integer => rw [isBlank_of_isDigit h] at hc; cases hc
  | name => rw [isBlank_of_isAlpha h] at hc; cases hc

theorem Starts.of_symbol {s : Symbol} (h : k.Starts c)
    (hc : s.spelling.toList.head? = some c) : ∃ s', k = .symbol s' := by
  obtain ⟨halpha, hdigit, hblank, hhash, hquote⟩ := s.head_spelling hc
  cases k with
  | newline => rw [h] at hblank; exact absurd hblank (by decide)
  | blank => rw [Starts, hblank] at h; cases h
  | comment => exact absurd h hhash
  | keyword w => rw [Starts, halpha] at h; cases h
  | symbol s' => exact ⟨s', rfl⟩
  | string => exact absurd h hquote
  | integer => rw [Starts, hdigit] at h; cases h
  | name => rw [Starts, halpha] at h; cases h

end Token.Kind

/-! ## What a kind takes -/

/-- The symbols that `=` makes longer ones of. -/
def Symbol.takesEquals : Symbol → Bool
  | .assign | .gt | .lt | .bang => true
  | _ => false

/-- The text that follows does not carry a token of the kind on. -/
def Token.Kind.Stops : Token.Kind → List Char → Prop
  | .keyword w, rest => w.needsBlank = true → startsBlank rest = true
  | .symbol s, rest => s.takesEquals = true → rest.head? ≠ some '='
  | .integer, rest => ∀ c, rest.head? = some c → c.isDigit = false
  | .name, rest => ∀ c, rest.head? = some c → c.isAlpha = false
  | _, _ => True

/-- No keyword stands where the word does, in front of the text. The keywords
that need no end stand there as soon as the word begins with them. -/
def Unreserved (word after : List Char) : Prop :=
  ∀ w : Keyword,
    if w.needsBlank = true then
      word = w.spelling.toList → startsBlank after = false
    else ¬ w.spelling.toList <+: word

/-- The piece of text in front of `after` that a token of kind `k` is cut
from. -/
structure Token.Kind.Taken (k : Token.Kind) (piece after : List Char) :
    Prop where
  fits : k.Fits piece after
  stops : k.Stops after
  unreserved : k = .name → Unreserved piece after

theorem takeWhile_append_of_stop {p : Char → Bool} {cs rest : List Char}
    (hcs : ∀ c ∈ cs, p c = true)
    (hrest : ∀ c, rest.head? = some c → p c = false) :
    (cs ++ rest).takeWhile p = cs := by
  rw [List.takeWhile_append_of_pos hcs]
  cases rest with
  | nil => rw [List.takeWhile_nil, List.append_nil]
  | cons c rest =>
      rw [List.takeWhile_cons_of_neg (by simp [hrest c rfl]), List.append_nil]

theorem takeWhile_of_line_end {body after : List Char} (hbody : '\n' ∉ body)
    (hafter : after = [] ∨ after.head? = some '\n') :
    (body ++ after).takeWhile (· ≠ '\n') = body := by
  refine takeWhile_append_of_stop (fun c hc => ?_) (fun c hc => ?_)
  · exact decide_eq_true fun h => hbody (h ▸ hc)
  · rcases hafter with rfl | hhead
    · cases hc
    · rw [hhead] at hc
      cases hc
      rfl

/-! ## Words and symbols that begin alike -/

/-- A word that begins a text ends before the first character that is none of
its own. -/
theorem prefix_of_prefix_append {word cs rest : List Char}
    (h : word <+: cs ++ rest) (hrest : ∀ c, rest.head? = some c → c ∉ word) :
    word <+: cs := by
  have hcs : cs <+: cs ++ rest := List.prefix_append _ _
  rcases Nat.lt_or_ge cs.length word.length with hlt | hge
  · -- the word would go on with what stands behind
    obtain ⟨more, hmore⟩ :=
      List.prefix_of_prefix_length_le hcs h (Nat.le_of_lt hlt)
    rw [← hmore, List.prefix_append_right_inj] at h
    cases more with
    | nil =>
        rw [← hmore, List.append_nil] at hlt
        exact absurd hlt (Nat.lt_irrefl _)
    | cons c more =>
        obtain ⟨tail, rfl⟩ := h
        exact absurd (by rw [← hmore]; simp) (hrest c rfl)
  · exact List.prefix_of_prefix_length_le h hcs hge

/-- No keyword begins with another one. -/
theorem Keyword.eq_of_prefix {w w' : Keyword} {cs : List Char}
    (h : w.spelling.toList <+: cs) (h' : w'.spelling.toList <+: cs) :
    w = w' := by
  have hall : ∀ w ∈ Keyword.all, ∀ w' ∈ Keyword.all,
      w.spelling.toList <+: w'.spelling.toList → w = w' := by
    decide
  rcases Nat.le_total w.spelling.toList.length w'.spelling.toList.length
    with hle | hle
  · exact hall w w.mem_all w' w'.mem_all
      (List.prefix_of_prefix_length_le h h' hle)
  · exact (hall w' w'.mem_all w w.mem_all
      (List.prefix_of_prefix_length_le h' h hle)).symm

theorem Token.Kind.of_width_keyword_pos {w : Keyword} {cs : List Char}
    (h : 0 < (keyword w).width cs) :
    w.spelling.toList <+: cs ∧
      (w.needsBlank = true →
        startsBlank (cs.drop w.spelling.toList.length) = true) := by
  simp only [width] at h
  have hfits := of_ite_pos h
  exact ⟨List.isPrefixOf_iff_prefix.1 hfits.1, hfits.2⟩

theorem Token.Kind.of_width_symbol_pos {s : Symbol} {cs : List Char}
    (h : 0 < (symbol s).width cs) : s.spelling.toList <+: cs := by
  simp only [width] at h
  exact List.isPrefixOf_iff_prefix.1 (of_ite_pos h)

theorem Keyword.length_spelling_pos (w : Keyword) :
    0 < w.spelling.toList.length := by
  cases w <;> decide

/-- No keyword fits where a name is taken. -/
theorem Unreserved.width_keyword {word rest : List Char}
    (h : Unreserved word rest) (halpha : ∀ c ∈ word, c.isAlpha = true)
    (hstop : ∀ c, rest.head? = some c → c.isAlpha = false) (w : Keyword) :
    ¬ 0 < (Token.Kind.keyword w).width (word ++ rest) := by
  intro hwidth
  obtain ⟨hbegins, hblank⟩ := Token.Kind.of_width_keyword_pos hwidth
  have hkeyword := h w
  -- the keyword ends within the name, since it has nothing but letters
  have hwithin : ∀ c, rest.head? = some c → c ∉ w.spelling.toList := by
    intro c hc hmem
    have hc' := hstop c hc
    rw [w.isAlpha_of_mem_spelling c hmem] at hc'
    cases hc'
  obtain ⟨more, hmore⟩ := prefix_of_prefix_append hbegins hwithin
  by_cases hneeds : w.needsBlank = true
  · rw [if_pos hneeds] at hkeyword
    have hstarts := hblank hneeds
    rw [← hmore, List.append_assoc, List.drop_left] at hstarts
    cases more with
    | nil =>
        rw [List.append_nil] at hmore
        rw [List.nil_append, hkeyword hmore.symm] at hstarts
        cases hstarts
    | cons c more =>
        have hc : c ∈ word := by
          rw [← hmore]
          simp
        rw [List.cons_append, startsBlank, isBlank_of_isAlpha (halpha c hc)]
          at hstarts
        cases hstarts
  · rw [if_neg hneeds] at hkeyword
    exact hkeyword ⟨more, hmore⟩

/-- A symbol that begins with another one stands before it, and goes on with
`=`. -/
theorem Symbol.rank_le_of_prefix {s s' : Symbol} {rest : List Char}
    (hstop : s.takesEquals = true → rest.head? ≠ some '=')
    (h : s'.spelling.toList <+: s.spelling.toList ++ rest) :
    Token.Kind.rank (.symbol s) ≤ Token.Kind.rank (.symbol s') := by
  have hshorter : ∀ s ∈ Symbol.all, ∀ s' ∈ Symbol.all,
      s'.spelling.toList <+: s.spelling.toList →
        Token.Kind.rank (.symbol s) ≤ Token.Kind.rank (.symbol s') := by
    decide
  have hlonger : ∀ s ∈ Symbol.all, ∀ s' ∈ Symbol.all,
      s.spelling.toList <+: s'.spelling.toList →
        s = s' ∨ s.takesEquals = true ∧
          s'.spelling.toList = s.spelling.toList ++ ['='] := by
    decide
  rcases List.prefix_or_prefix_of_prefix h
    (List.prefix_append s.spelling.toList rest) with
    hle | hle
  · exact hshorter s s.mem_all s' s'.mem_all hle
  · rcases hlonger s s.mem_all s' s'.mem_all hle with rfl | ⟨htakes, heq⟩
    · exact Nat.le_refl _
    · rw [heq, List.prefix_append_right_inj] at h
      obtain ⟨tail, rfl⟩ := h
      exact absurd rfl (hstop htakes)

theorem Symbol.exists_longer {s : Symbol} (h : s.takesEquals = true) :
    ∃ s' : Symbol, s'.spelling.toList = s.spelling.toList ++ ['='] ∧
      Token.Kind.rank (.symbol s') < Token.Kind.rank (.symbol s) := by
  cases s with
  | assign => exact ⟨.eqEq, by decide, by decide⟩
  | gt => exact ⟨.ge, by decide, by decide⟩
  | lt => exact ⟨.le, by decide, by decide⟩
  | bang => exact ⟨.ne, by decide, by decide⟩
  | _ => cases h

/-! ## The scanner takes what is taken -/

namespace Token.Kind

theorem width_keyword_append (w : Keyword) (rest : List Char)
    (hstop : w.needsBlank = true → startsBlank rest = true) :
    (keyword w).width (w.spelling.toList ++ rest) =
      w.spelling.toList.length := by
  have hfits : w.spelling.toList.isPrefixOf (w.spelling.toList ++ rest) = true ∧
      (w.needsBlank = true →
        startsBlank ((w.spelling.toList ++ rest).drop
          w.spelling.toList.length) = true) := by
    rw [List.drop_left]
    exact ⟨List.isPrefixOf_iff_prefix.2 (List.prefix_append _ _), hstop⟩
  simp only [width]
  rw [if_pos hfits]

theorem width_symbol_append (s : Symbol) (rest : List Char) :
    (symbol s).width (s.spelling.toList ++ rest) =
      s.spelling.toList.length := by
  simp only [width]
  rw [if_pos (List.isPrefixOf_iff_prefix.2 (List.prefix_append _ _))]

theorem width_string_append {body : List Char} (hquote : '"' ∉ body)
    (hline : '\n' ∉ body) (rest : List Char) :
    string.width ('"' :: (body ++ '"' :: rest)) = body.length + 2 := by
  have hbody : ∀ c ∈ body, (decide (c ≠ '"') && decide (c ≠ '\n')) = true := by
    intro c hc
    have hcq : c ≠ '"' := fun h => hquote (h ▸ hc)
    have hcn : c ≠ '\n' := fun h => hline (h ▸ hc)
    simp [hcq, hcn]
  have htake : (body ++ '"' :: rest).takeWhile (fun c => c ≠ '"' && c ≠ '\n') =
      body := by
    refine takeWhile_append_of_stop hbody ?_
    rintro c ⟨⟩
    rfl
  simp only [width]
  rw [htake, List.getElem?_append_right (Nat.le_refl _), Nat.sub_self,
    List.getElem?_cons_zero, if_pos rfl]

variable {k : Token.Kind} {piece after cs : List Char}

theorem Taken.width_eq (h : k.Taken piece after) :
    k.width (piece ++ after) = piece.length := by
  obtain ⟨hfits, hstops, -⟩ := h
  cases k with
  | newline =>
      rw [show piece = ['\n'] from hfits]
      rfl
  | blank =>
      obtain ⟨c, rfl, hblank, hne⟩ := hfits
      simp [width, startsBlank, hblank, hne]
  | comment =>
      obtain ⟨body, rfl, hbody, hafter⟩ := hfits
      have hpiece : '\n' ∉ '#' :: body := by simp [hbody]
      simp only [width]
      rw [takeWhile_of_line_end hpiece hafter]
      exact if_pos rfl
  | keyword w =>
      rw [hfits.1]
      exact width_keyword_append w after hstops
  | symbol s =>
      rw [show piece = s.spelling.toList from hfits]
      exact width_symbol_append s after
  | string =>
      obtain ⟨body, rfl, hbody⟩ := hfits
      have hquote : '"' ∉ body := fun h => (hbody _ h).1 rfl
      have hfeed : '\n' ∉ body := fun h => (hbody _ h).2 rfl
      simpa using width_string_append hquote hfeed after
  | integer =>
      show ((piece ++ after).takeWhile Char.isDigit).length = piece.length
      rw [takeWhile_append_of_stop hfits.2 hstops]
  | name =>
      show ((piece ++ after).takeWhile Char.isAlpha).length = piece.length
      rw [takeWhile_append_of_stop hfits.2 hstops]

theorem Taken.first?_eq (h : k.Taken piece after) :
    first? (piece ++ after) = some k := by
  have hwidth := h.width_eq
  have hpos := List.length_pos_iff.2 h.fits.ne_nil
  refine first?_eq_some (by omega) fun k' hk' => ?_
  obtain ⟨hfits, hstops, hunreserved⟩ := h
  obtain ⟨c, cs, rfl⟩ := List.exists_cons_of_ne_nil hfits.ne_nil
  have hstarts : k'.Starts c := starts_of_width_pos hk'
  have hc := hfits.starts
  cases k with
  | newline => exact Nat.zero_le _
  | blank =>
      obtain ⟨d, hd, hblank, hne⟩ := hfits
      cases hd
      obtain rfl := hstarts.of_isBlank hblank hne
      exact Nat.le_refl _
  | comment =>
      rw [show c = '#' from hc] at hstarts
      obtain rfl := hstarts.of_hash
      exact Nat.le_refl _
  | keyword w =>
      rcases hstarts.of_isAlpha hc with ⟨w', rfl⟩ | rfl
      · obtain ⟨hbegins, -⟩ := of_width_keyword_pos hk'
        rw [hfits.1] at hbegins
        obtain rfl := Keyword.eq_of_prefix hbegins (List.prefix_append _ after)
        exact Nat.le_refl _
      · exact Nat.le_of_lt (rank_keyword_lt_name w)
  | symbol s =>
      obtain ⟨s', rfl⟩ := hstarts.of_symbol hc
      rw [show c :: cs = s.spelling.toList from hfits] at hk'
      exact Symbol.rank_le_of_prefix hstops (of_width_symbol_pos hk')
  | string =>
      rw [show c = '"' from hc] at hstarts
      obtain rfl := hstarts.of_quote
      exact Nat.le_refl _
  | integer =>
      obtain rfl := hstarts.of_isDigit hc
      exact Nat.le_refl _
  | name =>
      rcases hstarts.of_isAlpha hc with ⟨w', rfl⟩ | rfl
      · exact absurd hk' ((hunreserved rfl).width_keyword hfits.2 hstops w')
      · exact Nat.le_refl _

/-- What a kind takes of a run of characters ends before a character of another
sort. -/
theorem head?_drop_takeWhile {p : Char → Bool} {c : Char}
    (h : (cs.drop (cs.takeWhile p).length).head? = some c) : p c = false := by
  have hnot := List.head?_dropWhile_not p cs
  rw [← drop_length_takeWhile, h] at hnot
  simpa using hnot

theorem stops_of_first? (h : first? cs = some k) :
    k.Stops (cs.drop (k.width cs)) := by
  have hfits := fits_of_width_pos (width_pos_of_first? h)
  cases k with
  | keyword w => exact hfits.2
  | symbol s =>
      intro htakes hnext
      -- a longer symbol stands there, and it is tried first
      obtain ⟨s', hspelling, hrank⟩ := Symbol.exists_longer htakes
      obtain ⟨rest, hrest⟩ := List.head?_eq_some_iff.1 hnext
      have hcs : cs = s'.spelling.toList ++ rest := by
        rw [hspelling, ← show cs.take _ = s.spelling.toList from hfits,
          List.append_assoc, List.singleton_append, ← hrest,
          List.take_append_drop]
      have hwidth : 0 < (symbol s').width cs := by
        rw [hcs, width_symbol_append, hspelling]
        simp
      exact absurd (rank_le_of_first? h hwidth) (Nat.not_le_of_lt hrank)
  | integer => exact fun c hc => head?_drop_takeWhile hc
  | name => exact fun c hc => head?_drop_takeWhile hc
  | _ => trivial

theorem unreserved_of_first? (h : first? cs = some .name) :
    Unreserved (cs.take (name.width cs)) (cs.drop (name.width cs)) := by
  intro w
  -- a keyword that stands there is tried before the names
  have hno : ∀ rest, cs = w.spelling.toList ++ rest →
      ¬ (w.needsBlank = true → startsBlank rest = true) := by
    intro rest hcs hstop
    have hwidth : 0 < (keyword w).width cs := by
      rw [hcs, width_keyword_append w rest hstop]
      exact w.length_spelling_pos
    exact absurd (rank_le_of_first? h hwidth)
      (Nat.not_le_of_lt (rank_keyword_lt_name w))
  have hcs := List.take_append_drop (name.width cs) cs
  by_cases hneeds : w.needsBlank = true
  · rw [if_pos hneeds]
    intro hword
    rw [hword] at hcs
    rw [Bool.eq_false_iff]
    exact fun hblank => hno _ hcs.symm fun _ => hblank
  · rw [if_neg hneeds]
    rintro ⟨more, hmore⟩
    rw [← hmore, List.append_assoc] at hcs
    exact hno _ hcs.symm fun hw => absurd hw hneeds

/-- What the scanner takes at the head of a text is taken there. -/
theorem taken_of_first? (h : first? cs = some k) :
    k.Taken (cs.take (k.width cs)) (cs.drop (k.width cs)) where
  fits := fits_of_width_pos (width_pos_of_first? h)
  stops := stops_of_first? h
  unreserved := by
    rintro rfl
    exact unreserved_of_first? h

/-- Only the character behind a piece matters. -/
theorem Taken.of_head?_eq {after' : List Char} (h : k.Taken piece after)
    (heq : after'.head? = after.head?) : k.Taken piece after' := by
  have hblank : startsBlank after' = startsBlank after := by
    cases after <;> cases after' <;> cases heq <;> rfl
  obtain ⟨hfits, hstops, hunreserved⟩ := h
  refine ⟨?_, ?_, fun hk => ?_⟩
  · cases k with
    | keyword w => exact ⟨hfits.1, fun hneeds => hblank.trans (hfits.2 hneeds)⟩
    | comment =>
        obtain ⟨body, hpiece, hbody, hafter⟩ := hfits
        refine ⟨body, hpiece, hbody, ?_⟩
        rw [← List.head?_eq_none_iff] at hafter ⊢
        rw [heq]
        exact hafter
    | _ => exact hfits
  · cases k with
    | keyword w => exact fun hneeds => hblank.trans (hstops hneeds)
    | symbol s => exact fun htakes hnext => hstops htakes (heq.symm.trans hnext)
    | integer => exact fun c hc => hstops c (heq.symm.trans hc)
    | name => exact fun c hc => hstops c (heq.symm.trans hc)
    | _ => trivial
  · have hword := hunreserved hk
    unfold Unreserved at hword ⊢
    rw [hblank]
    exact hword

end Token.Kind

/-! ## Canonical tokens -/

/-- A word that is a name wherever it stands: it begins with none of the
keywords that need no end, and it is none of the others. -/
def IsName (word : String) : Prop :=
  word ≠ "" ∧ (∀ c ∈ word.toList, c.isAlpha = true) ∧
    ∀ w ∈ Keyword.all,
      if w.needsBlank = true then word ≠ w.spelling
      else ¬ w.spelling.toList <+: word.toList

/-- The texts that the scanner gives to tokens of each kind wherever they
stand. -/
def Token.Kind.Spells : Token.Kind → String → Prop
  | .newline, text => text = "\n"
  | .blank, _ => False
  | .comment, _ => False
  | .keyword w, text => text = w.spelling
  | .symbol s, text => text = s.spelling
  | .string, text => Plain text
  | .integer, text => text ≠ "" ∧ ∀ c ∈ text.toList, c.isDigit = true
  | .name, text => IsName text

def Token.Canonical (t : Token) : Prop :=
  t.kind.Spells t.text

/-- A property of all characters of a text is decided along the text. -/
instance decidableAllChars (p : Char → Bool) (text : String) :
    Decidable (∀ c ∈ text.toList, p c = true) :=
  List.decidableBAll (fun c => p c = true) text.toList

instance (word : String) : Decidable (IsName word) :=
  inferInstanceAs (Decidable (_ ∧ _ ∧ _))

instance (text : String) : Decidable (Plain text) :=
  inferInstanceAs (Decidable (_ ∧ _))

instance : (k : Token.Kind) → (text : String) → Decidable (k.Spells text)
  | .newline, text => inferInstanceAs (Decidable (text = "\n"))
  | .blank, _ => inferInstanceAs (Decidable False)
  | .comment, _ => inferInstanceAs (Decidable False)
  | .keyword w, text => inferInstanceAs (Decidable (text = w.spelling))
  | .symbol s, text => inferInstanceAs (Decidable (text = s.spelling))
  | .string, text => inferInstanceAs (Decidable (Plain text))
  | .integer, text =>
    inferInstanceAs (Decidable (text ≠ "" ∧ ∀ c ∈ text.toList,
      c.isDigit = true))
  | .name, text => inferInstanceAs (Decidable (IsName text))

instance (t : Token) : Decidable t.Canonical :=
  inferInstanceAs (Decidable (t.kind.Spells t.text))

/-- The token as source text: a string constant stands in quotes. -/
def Token.written (t : Token) : List Char :=
  if t.kind = .string then '"' :: (t.text.toList ++ ['"']) else t.text.toList

namespace Token

variable {t : Token} {rest : List Char}

theorem Canonical.fits (ht : t.Canonical) (hstop : t.kind.Stops rest) :
    t.kind.Fits t.written rest := by
  obtain ⟨kind, text, line⟩ := t
  cases kind with
  | newline =>
      cases ht
      show "\n".toList = ['\n']
      decide
  | blank => cases ht
  | comment => cases ht
  | keyword w =>
      cases ht
      exact ⟨rfl, hstop⟩
  | symbol s =>
      cases ht
      rfl
  | string =>
      exact ⟨text.toList, rfl,
        fun c hc => ⟨fun h => ht.1 (h ▸ hc), fun h => ht.2 (h ▸ hc)⟩⟩
  | integer => exact ⟨fun h => ht.1 (String.toList_inj.1 h), ht.2⟩
  | name => exact ⟨fun h => ht.1 (String.toList_inj.1 h), ht.2.1⟩

/-- In front of a text that does not carry it on, a canonical token is taken. -/
theorem Canonical.taken (ht : t.Canonical) (hstop : t.kind.Stops rest) :
    t.kind.Taken t.written rest := by
  refine ⟨ht.fits hstop, hstop, fun hkind w => ?_⟩
  obtain ⟨kind, text, line⟩ := t
  cases hkind
  have hkeyword := ht.2.2 w w.mem_all
  by_cases hneeds : w.needsBlank = true
  · rw [if_pos hneeds] at hkeyword ⊢
    exact fun hword => absurd (String.toList_inj.1 hword) hkeyword
  · rw [if_neg hneeds] at hkeyword ⊢
    exact hkeyword

end Token

/-! ## Scanning from a line on -/

/-- The tokens of a text that begins on the line given. -/
def scanFrom (line : Nat) (cs : List Char) : Except SyntaxError (List Token) :=
  (lexemes line cs).map fun ls =>
    (ls.filter (!·.kind.isTrivia)).map Lexeme.token

theorem scan_eq_scanFrom (source : String) :
    scan source = scanFrom 1 source.toList := by
  rw [scan, scanFrom]
  cases lexemes 1 source.toList <;> rfl

theorem eq_ok_of_toOption {ε α : Type} {x : Except ε α} {a : α}
    (h : x.toOption = some a) : x = .ok a := by
  cases x with
  | error e => cases h
  | ok b =>
      cases h
      rfl

theorem scanFrom_nil (line : Nat) : scanFrom line [] = .ok [] := by
  rw [scanFrom, lexemes]
  rfl

theorem scanFrom_of_first?_eq_none {cs : List Char}
    (hk : Token.Kind.first? cs = none) (hne : cs ≠ []) (line : Nat) :
    scanFrom line cs = .error ⟨.unknownCharacter, line,
      some (String.ofList (cs.takeWhile (!isBlank ·)))⟩ := by
  obtain ⟨c, cs, rfl⟩ := List.exists_cons_of_ne_nil hne
  rw [scanFrom, lexemes_of_first?_eq_none hk]
  rfl

theorem lexemes_append_of_first? {k : Token.Kind} {piece rest : List Char}
    (hk : Token.Kind.first? (piece ++ rest) = some k)
    (hwidth : k.width (piece ++ rest) = piece.length) (line : Nat) :
    lexemes line (piece ++ rest) =
      (lexemes (Lexeme.nextLine ⟨k, piece, line⟩) rest).map
        (⟨k, piece, line⟩ :: ·) := by
  have htake : (piece ++ rest).take (k.width (piece ++ rest)) = piece := by
    rw [hwidth, List.take_left]
  have hdrop : (piece ++ rest).drop (k.width (piece ++ rest)) = rest := by
    rw [hwidth, List.drop_left]
  cases hcs : piece ++ rest with
  | nil =>
      rw [hcs] at hk
      cases hk
  | cons c cs =>
      rw [hcs] at hk htake hdrop
      rw [lexemes_of_first? hk, htake, hdrop]

/-- The tokens of lexemes one after the other. -/
def Lexeme.tokens (ls : List Lexeme) : List Token :=
  (ls.filter (!·.kind.isTrivia)).map Lexeme.token

namespace Token.Kind.Taken

variable {k : Token.Kind} {piece rest : List Char} (h : k.Taken piece rest)
  (line : Nat)
include h

theorem lexemes_eq : lexemes line (piece ++ rest) =
    (lexemes (Lexeme.nextLine ⟨k, piece, line⟩) rest).map
      (⟨k, piece, line⟩ :: ·) :=
  lexemes_append_of_first? h.first?_eq h.width_eq line

theorem scanFrom_eq : scanFrom line (piece ++ rest) =
    (scanFrom (Lexeme.nextLine ⟨k, piece, line⟩) rest).map
      (Lexeme.tokens [⟨k, piece, line⟩] ++ ·) := by
  rw [scanFrom, scanFrom, h.lexemes_eq]
  cases lexemes (Lexeme.nextLine ⟨k, piece, line⟩) rest with
  | error e => rfl
  | ok ls =>
      simp only [Except.map]
      rw [← List.singleton_append, List.filter_append, List.map_append]
      rfl

/-- Blanks and comments leave nothing. -/
theorem scanFrom_eq_of_isTrivia (ht : k.isTrivia = true) :
    scanFrom line (piece ++ rest) = scanFrom line rest := by
  have hline : Lexeme.nextLine ⟨k, piece, line⟩ = line := by
    refine if_neg ?_
    rintro rfl
    cases ht
  have hnone : Lexeme.tokens [⟨k, piece, line⟩] = [] := by
    simp [Lexeme.tokens, ht]
  rw [h.scanFrom_eq, hline, hnone]
  cases scanFrom line rest <;> rfl

end Token.Kind.Taken

theorem Token.Kind.taken_blank {c : Char} (hblank : isBlank c = true)
    (hne : c ≠ '\n') (rest : List Char) : Token.Kind.blank.Taken [c] rest :=
  ⟨⟨c, rfl, hblank, hne⟩, trivial, fun hk => absurd hk (by decide)⟩

theorem scanFrom_space (line : Nat) (rest : List Char) :
    scanFrom line (' ' :: rest) = scanFrom line rest :=
  (Token.Kind.taken_blank (by decide) (by decide) rest).scanFrom_eq_of_isTrivia
    line rfl

theorem Token.lexeme_written (t : Token) (line : Nat) :
    Lexeme.token ⟨t.kind, t.written, line⟩ = { t with line := line } := by
  obtain ⟨kind, text, line'⟩ := t
  by_cases hkind : kind = .string
  · subst hkind
    simp [Lexeme.token, written]
  · simp [Lexeme.token, written, hkind]

/-- A canonical token is scanned back, in front of a text that does not carry it
on. -/
theorem Token.Canonical.scanFrom_written {t : Token} (ht : t.Canonical)
    {rest : List Char} (hstop : t.kind.Stops rest) (line : Nat) :
    scanFrom line (t.written ++ rest) =
      (scanFrom (if t.kind = .newline then line + 1 else line) rest).map
        ({ t with line := line } :: ·) := by
  have htrivia : t.kind.isTrivia = false := by
    obtain ⟨kind, text, line'⟩ := t
    cases kind with
    | blank => cases ht
    | comment => cases ht
    | _ => rfl
  have htoken : Lexeme.tokens [⟨t.kind, t.written, line⟩] =
      [{ t with line := line }] := by
    simp [Lexeme.tokens, htrivia, t.lexeme_written]
  rw [(ht.taken hstop).scanFrom_eq, htoken]
  rfl

end Quill
