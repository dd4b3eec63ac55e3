import Quill.Proofs.FirstMatch

/-!
# Which texts can be scanned

The scanner has a kind for every keyword, symbol and constant, in an order that
matters for the tokens. For whether a text can be scanned at all none of this
matters, and much smaller pieces decide it: an atom is a character that stands
for itself, a comment, a string, or one of the two symbols that need both their
characters. Every lexeme is a row of atoms, and where an atom stands some kind
fits.

At any place of a text there is at most one atom. So a text falls apart into
atoms from the left in one way only, up to its end or to a place where there is
none, and that place is where the scanner stops as well, however it has cut the
text before.
-/

namespace Quill

/-! ## Atoms -/

/-- The characters that are symbols by themselves. -/
def marks : List Char :=
  ['=', ',', '/', '.', '>', '<', '{', '}', '(', ')', '-', '%', '*', '!', '+']

/-- Blanks, letters, digits and marks stand for themselves. -/
def standsAlone (c : Char) : Bool :=
  isBlank c || c.isAlpha || c.isDigit || marks.contains c

/-- A smallest piece of text, with the text that follows it. A comment goes to
the end of its line. -/
inductive Atom : List Char → List Char → Prop
  | single {c : Char} {after : List Char} (h : standsAlone c = true) :
      Atom [c] after
  | comment {body after : List Char} (hbody : '\n' ∉ body)
      (hafter : after = [] ∨ after.head? = some '\n') : Atom ('#' :: body) after
  | string {body after : List Char} (hbody : ∀ c ∈ body, c ≠ '"' ∧ c ≠ '\n') :
      Atom ('"' :: (body ++ ['"'])) after
  | double {c : Char} {after : List Char} (h : c = '&' ∨ c = '|') :
      Atom [c, c] after

/-- Atoms one after the other, with the text that follows them. -/
inductive Atoms : List Char → List Char → Prop
  | nil {after : List Char} : Atoms [] after
  | cons {piece text after : List Char} (hpiece : Atom piece (text ++ after))
      (htext : Atoms text after) : Atoms (piece ++ text) after

/-- No atom stands at the head of the text. -/
def Stuck (cs : List Char) : Prop :=
  ∀ piece after, cs = piece ++ after → ¬ Atom piece after

/-- The text is a row of atoms and a rest that is not empty and does not begin
with one. -/
structure Splits (cs atoms rest : List Char) : Prop where
  eq : cs = atoms ++ rest
  atoms : Atoms atoms rest
  ne_nil : rest ≠ []
  stuck : Stuck rest

variable {piece piece' after after' text text' : List Char}

theorem Atom.ne_nil (h : Atom piece after) : piece ≠ [] := by
  cases h <;> exact List.cons_ne_nil _ _

theorem Stuck.nil : Stuck [] := by
  intro piece after h hatom
  exact hatom.ne_nil (List.append_eq_nil_iff.1 h.symm).1

/-! ## There is one way into atoms -/

/-- The only piece at the head of the text that can be an atom there. -/
def atomAt : List Char → List Char
  | '#' :: cs => '#' :: cs.takeWhile (· ≠ '\n')
  | '"' :: cs => '"' :: (cs.takeWhile (· ≠ '"') ++ ['"'])
  | '&' :: _ => ['&', '&']
  | '|' :: _ => ['|', '|']
  | c :: _ => [c]
  | [] => []

theorem Atom.eq_atomAt (h : Atom piece after) :
    piece = atomAt (piece ++ after) := by
  cases h with
  | @single c after h =>
      rw [List.singleton_append]
      unfold atomAt
      split
      -- what begins a longer atom does not stand alone
      · next heq => cases heq; exact absurd h (by decide)
      · next heq => cases heq; exact absurd h (by decide)
      · next heq => cases heq; exact absurd h (by decide)
      · next heq => cases heq; exact absurd h (by decide)
      · next heq => rw [(List.cons.inj heq).1]
      · next heq => cases heq
  | @comment body after hbody hafter =>
      rw [List.cons_append, atomAt, takeWhile_of_line_end hbody hafter]
  | @string body after hbody =>
      have hstop : (body ++ '"' :: after).takeWhile (· ≠ '"') = body := by
        refine takeWhile_append_of_stop
          (fun c hc => decide_eq_true (hbody c hc).1) ?_
        rintro c ⟨⟩
        rfl
      rw [List.cons_append, List.append_assoc, List.singleton_append, atomAt,
        hstop]
  | double h => rcases h with rfl | rfl <;> rfl

theorem Atom.unique (h : Atom piece after) (h' : Atom piece' after')
    (heq : piece ++ after = piece' ++ after') : piece = piece' := by
  rw [h.eq_atomAt, heq, ← h'.eq_atomAt]

/-- Two rows of atoms that begin a text and cannot be carried on are the
same. -/
theorem Atoms.unique (h : Atoms text after) (hstuck : Stuck after)
    (h' : Atoms text' after') (hstuck' : Stuck after')
    (heq : text ++ after = text' ++ after') :
    text = text' ∧ after = after' := by
  induction h generalizing text' with
  | nil =>
      cases h' with
      | nil => exact ⟨rfl, heq⟩
      | cons hpiece htext =>
          rw [List.nil_append, List.append_assoc] at heq
          exact absurd hpiece (hstuck _ _ heq)
  | cons hpiece htext ih =>
      cases h' with
      | nil =>
          rw [List.nil_append, List.append_assoc] at heq
          exact absurd hpiece (hstuck' _ _ heq.symm)
      | cons hpiece' htext' =>
          rw [List.append_assoc, List.append_assoc] at heq
          obtain rfl := hpiece.unique hpiece' heq
          obtain ⟨rfl, rfl⟩ := ih hstuck htext' (List.append_cancel_left heq)
          exact ⟨rfl, rfl⟩

theorem Splits.unique {cs : List Char} (h : Splits cs text after)
    (h' : Splits cs text' after') : text' = text ∧ after' = after :=
  h'.atoms.unique h'.stuck h.atoms h.stuck (h'.eq.symm.trans h.eq)

/-- A text that is all atoms has no place without one. -/
theorem Splits.not_atoms {cs : List Char} (h : Splits cs text after) :
    ¬ Atoms cs [] := by
  intro hall
  have heq : cs ++ [] = text ++ after := (List.append_nil cs).trans h.eq
  exact h.ne_nil (hall.unique .nil h.atoms h.stuck heq).2.symm

/-! ## Lexemes are rows of atoms -/

theorem Atoms.append (h : Atoms text (text' ++ after))
    (h' : Atoms text' after) : Atoms (text ++ text') after := by
  generalize hrest : text' ++ after = rest at h
  induction h with
  | nil => exact h'
  | cons hpiece htext ih =>
      subst hrest
      rw [List.append_assoc]
      rw [← List.append_assoc] at hpiece
      exact .cons hpiece (ih rfl)

theorem Atom.atoms (h : Atom piece after) : Atoms piece after := by
  have hrow : Atoms (piece ++ []) after := .cons h .nil
  rwa [List.append_nil] at hrow

theorem atoms_of_standsAlone (h : ∀ c ∈ text, standsAlone c = true) :
    Atoms text after := by
  induction text with
  | nil => exact .nil
  | cons c text ih =>
      obtain ⟨hc, htext⟩ := List.forall_mem_cons.1 h
      exact .cons (.single hc) (ih htext)

theorem standsAlone_of_isBlank {c : Char} (h : isBlank c = true) :
    standsAlone c = true := by
  simp [standsAlone, h]

theorem standsAlone_of_isAlpha {c : Char} (h : c.isAlpha = true) :
    standsAlone c = true := by
  simp [standsAlone, h]

theorem standsAlone_of_isDigit {c : Char} (h : c.isDigit = true) :
    standsAlone c = true := by
  simp [standsAlone, h]

theorem Symbol.atoms_spelling (s : Symbol) : Atoms s.spelling.toList after := by
  -- the characters of these two are nothing by themselves
  have halone : ∀ s ∈ Symbol.all, s ≠ .andAnd → s ≠ .orOr →
      ∀ c ∈ s.spelling.toList, standsAlone c = true := by
    decide
  by_cases hand : s = .andAnd
  · subst hand
    exact (Atom.double (.inl rfl)).atoms
  · by_cases hor : s = .orOr
    · subst hor
      exact (Atom.double (.inr rfl)).atoms
    · exact atoms_of_standsAlone (halone s s.mem_all hand hor)

theorem Token.Kind.Fits.atoms {k : Token.Kind} (h : k.Fits piece after) :
    Atoms piece after := by
  cases k with
  | newline =>
      rw [show piece = ['\n'] from h]
      exact (Atom.single (standsAlone_of_isBlank (by decide))).atoms
  | blank =>
      obtain ⟨c, rfl, hc, -⟩ := h
      exact (Atom.single (standsAlone_of_isBlank hc)).atoms
  | comment =>
      obtain ⟨body, rfl, hbody, hafter⟩ := h
      exact (Atom.comment hbody hafter).atoms
  | keyword w =>
      rw [h.1]
      exact atoms_of_standsAlone fun c hc =>
        standsAlone_of_isAlpha (w.isAlpha_of_mem_spelling c hc)
  | symbol s =>
      rw [show piece = s.spelling.toList from h]
      exact s.atoms_spelling
  | string =>
      obtain ⟨body, rfl, hbody⟩ := h
      exact (Atom.string hbody).atoms
  | integer =>
      exact atoms_of_standsAlone fun c hc => standsAlone_of_isDigit (h.2 c hc)
  | name =>
      exact atoms_of_standsAlone fun c hc => standsAlone_of_isAlpha (h.2 c hc)

/-! ## Where an atom stands some kind fits -/

theorem Symbol.width_pos (s : Symbol) (after : List Char) :
    0 < (Token.Kind.symbol s).width (s.spelling.toList ++ after) := by
  rw [Token.Kind.width_symbol_append]
  cases s <;> decide

theorem exists_width_pos_of_standsAlone {c : Char} (h : standsAlone c = true)
    (after : List Char) : ∃ k : Token.Kind, 0 < k.width (c :: after) := by
  simp only [standsAlone, Bool.or_eq_true, or_assoc] at h
  rcases h with hblank | halpha | hdigit | hmark
  · by_cases hc : c = '\n'
    · subst hc
      exact ⟨.newline, Nat.one_pos⟩
    · refine ⟨.blank, ?_⟩
      simp [Token.Kind.width, startsBlank, hblank, hc]
  · refine ⟨.name, ?_⟩
    simp [Token.Kind.width, halpha]
  · refine ⟨.integer, ?_⟩
    simp [Token.Kind.width, hdigit]
  · have hall : (marks.all fun c => Symbol.all.any fun s =>
        s.spelling.toList == [c]) = true := by
      decide
    have hsome := List.all_eq_true.1 hall c (by simpa using hmark)
    obtain ⟨s, -, hs⟩ := List.any_eq_true.1 hsome
    have hwidth := s.width_pos after
    rw [eq_of_beq hs] at hwidth
    exact ⟨.symbol s, hwidth⟩

theorem Atom.exists_width_pos (h : Atom piece after) :
    ∃ k : Token.Kind, 0 < k.width (piece ++ after) := by
  cases h with
  | single h => exact exists_width_pos_of_standsAlone h _
  | comment hbody hafter =>
      refine ⟨.comment, ?_⟩
      simp [Token.Kind.width]
  | @string body after hbody =>
      have hwidth := Token.Kind.width_string_append (fun h => (hbody _ h).1 rfl)
        (fun h => (hbody _ h).2 rfl) after
      refine ⟨.string, ?_⟩
      rw [List.cons_append, List.append_assoc, List.singleton_append, hwidth]
      exact Nat.succ_pos _
  | double h =>
      rcases h with rfl | rfl
      · exact ⟨.symbol .andAnd, Symbol.andAnd.width_pos _⟩
      · exact ⟨.symbol .orOr, Symbol.orOr.width_pos _⟩

theorem stuck_of_first?_eq_none {cs : List Char}
    (h : Token.Kind.first? cs = none) : Stuck cs := by
  rintro piece after rfl hatom
  obtain ⟨k, hk⟩ := hatom.exists_width_pos
  have hnone := List.find?_eq_none.1 h k k.mem_all
  exact hnone (decide_eq_true hk)

/-! ## The scanner stops where there is no atom -/

/-- One cut: the text falls into a piece of some kind and what is left to
cut. -/
theorem exists_cut {c : Char} {cs : List Char} {k : Token.Kind}
    (hk : Token.Kind.first? (c :: cs) = some k) :
    ∃ piece rest, c :: cs = piece ++ rest ∧ piece ≠ [] ∧ Atoms piece rest ∧
      ∀ line, lexemes line (c :: cs) =
        (lexemes (line + piece.count '\n') rest).map
          (⟨k, piece, line⟩ :: ·) := by
  have hfits := Token.Kind.fits_of_width_pos (Token.Kind.width_pos_of_first? hk)
  refine ⟨_, _, (List.take_append_drop _ _).symm, hfits.ne_nil, hfits.atoms,
    fun line => ?_⟩
  rw [lexemes_of_first? hk, Lexeme.nextLine_of_fits hfits]

/-- The scanner goes through all the atoms at the head of a text, and then it
has either come to the end or reports what it stands in front of. -/
theorem exists_atoms_lexemes (line : Nat) (cs : List Char) :
    ∃ text rest, cs = text ++ rest ∧ Atoms text rest ∧ Stuck rest ∧
      (rest = [] → ∃ ls, lexemes line cs = .ok ls) ∧
      (rest ≠ [] → lexemes line cs =
        .error ⟨.unknownCharacter, line + text.count '\n',
          some (String.ofList (rest.takeWhile (!isBlank ·)))⟩) := by
  induction hn : cs.length using Nat.strongRecOn generalizing line cs with
  | _ n ih =>
      cases cs with
      | nil =>
          have hend : lexemes line [] = .ok [] := by rw [lexemes]
          exact ⟨[], [], rfl, .nil, .nil, fun _ => ⟨[], hend⟩,
            fun h => absurd rfl h⟩
      | cons c cs =>
          cases hk : Token.Kind.first? (c :: cs) with
          | none =>
              have hne := List.cons_ne_nil c cs
              exact ⟨[], c :: cs, rfl, .nil, stuck_of_first?_eq_none hk,
                fun h => absurd h hne, fun _ => lexemes_of_first?_eq_none hk⟩
          | some k =>
              -- the atoms of the first piece stand in front of those of the
              -- rest
              obtain ⟨piece, rest, hsplit, hne, hpiece, hcut⟩ := exists_cut hk
              have hshorter : rest.length < n := by
                have hpos := List.length_pos_iff.2 hne
                rw [hsplit, List.length_append] at hn
                omega
              obtain ⟨text, rest', rfl, htext, hstuck, hok, herror⟩ :=
                ih _ hshorter (line + piece.count '\n') rest rfl
              refine ⟨piece ++ text, rest', ?_, hpiece.append htext, hstuck,
                fun hnil => ?_, fun hne => ?_⟩
              · rw [hsplit, List.append_assoc]
              · obtain ⟨ls, hls⟩ := hok hnil
                exact ⟨_, by rw [hcut, hls]; rfl⟩
              · rw [hcut, herror hne, List.count_append, ← Nat.add_assoc]
                rfl

/-- The longest beginning of the text without blanks. -/
structure LongestUnblank (cs found : List Char) : Prop where
  isPrefix : found <+: cs
  unblank : ∀ c ∈ found, isBlank c = false
  longest : ∀ word, word <+: cs → (∀ c ∈ word, isBlank c = false) →
    word <+: found

theorem longestUnblank_takeWhile (cs : List Char) :
    LongestUnblank cs (cs.takeWhile (!isBlank ·)) where
  isPrefix := List.takeWhile_prefix _
  unblank c hc := by simpa using Token.Kind.mem_takeWhile hc
  longest word hword hunblank := by
    rw [← cs.takeWhile_append_dropWhile (p := (!isBlank ·))] at hword
    -- a word that goes further would hold the blank behind
    refine prefix_of_prefix_append hword fun c hc hmem => ?_
    have hblank := List.head?_dropWhile_not (!isBlank ·) cs
    rw [hc] at hblank
    simp [hunblank c hmem] at hblank

theorem Stuck.takeWhile_ne_nil {cs : List Char} (h : Stuck cs) (hne : cs ≠ []) :
    cs.takeWhile (!isBlank ·) ≠ [] := by
  obtain ⟨c, cs, rfl⟩ := List.exists_cons_of_ne_nil hne
  have hc : isBlank c = false := by
    rw [Bool.eq_false_iff]
    exact fun hblank => h [c] cs rfl (.single (standsAlone_of_isBlank hblank))
  rw [List.takeWhile_cons_of_pos (by simp [hc])]
  exact List.cons_ne_nil _ _

/-- Exactly the texts that are rows of atoms can be scanned. Every other text
is, in one way only, a row of atoms and a rest that begins with none, and the
scanner reports the line on which that rest begins and its longest beginning
without blanks, which is not empty. -/
theorem scan_ok_iff_atoms (source : String) :
    ((∃ ts, scan source = .ok ts) ↔ Atoms source.toList []) ∧
      (¬ Atoms source.toList [] →
        ∃ text rest found, Splits source.toList text rest ∧
          (∀ text' rest', Splits source.toList text' rest' → text' = text ∧
            rest' = rest) ∧
          LongestUnblank rest found ∧ found ≠ [] ∧
          scan source =
            .error ⟨.unknownCharacter, 1 + text.count '\n',
              some (String.ofList found)⟩) := by
  obtain ⟨text, rest, heq, htext, hstuck, hok, herror⟩ :=
    exists_atoms_lexemes 1 source.toList
  by_cases hrest : rest = []
  · subst hrest
    rw [List.append_nil] at heq
    subst heq
    obtain ⟨ls, hls⟩ := hok rfl
    refine ⟨iff_of_true ⟨_, by rw [scan, hls]⟩ htext, fun h => absurd htext h⟩
  · have hsplits : Splits source.toList text rest := ⟨heq, htext, hrest, hstuck⟩
    have hscan : scan source = .error ⟨.unknownCharacter, 1 + text.count '\n',
        some (String.ofList (rest.takeWhile (!isBlank ·)))⟩ := by
      rw [scan, herror hrest]
    refine ⟨iff_of_false ?_ hsplits.not_atoms, fun _ => ?_⟩
    · rintro ⟨ts, hts⟩
      rw [hscan] at hts
      cases hts
    · exact ⟨text, rest, _, hsplits,
        fun _ _ h => hsplits.unique h, longestUnblank_takeWhile rest,
        hstuck.takeWhile_ne_nil hrest, hscan⟩

end Quill
