import Quill.Proofs.Cutting
import Quill.Proofs.LineByLine

/-!
# Line ends

What stands in front of a line feed without being a token is lost on the tokens,
and so is whether a line feed is followed by more of them.

Two things may stand there. A blank, such as the carriage return of a text that
ends its lines with two characters: nothing but a comment goes on over a blank
at the end of a line, and a keyword finds the blank it needs in either. And a
comment, behind a text that can be scanned by itself: nothing of that text goes
on with the `#`, except for an open comment, which swallows it. But a word at
the end of the text has a blank behind it without the comment and none with it,
so there the two can differ.

For the reader one line end is as good as many. The first one leaves it between
statements or behind a conditional, and there it stays.
-/

namespace Quill

/-! ## Changing what stands behind a piece -/

/-- The characters that may carry on a piece, other than a comment. -/
def carriesOn (c : Char) : Bool :=
  c.isAlpha || c.isDigit || c == '='

theorem carriesOn_of_isBlank {c : Char} (h : isBlank c = true) :
    carriesOn c = false := by
  have halpha : c.isAlpha = false := by
    rw [Bool.eq_false_iff]
    intro hc
    rw [isBlank_of_isAlpha hc] at h
    cases h
  have hdigit : c.isDigit = false := by
    rw [Bool.eq_false_iff]
    intro hc
    rw [isBlank_of_isDigit hc] at h
    cases h
  have hne : c ≠ '=' := by
    rintro rfl
    exact absurd h (by decide)
  simp [carriesOn, halpha, hdigit, hne]

namespace Token.Kind

variable {k : Token.Kind} {piece rest rest' : List Char}

/-- A character that carries nothing on may stand behind a piece in place of
another. For a word it must be a blank if the other one was, and only then. -/
theorem Taken.of_not_carriesOn {d : Char} (h : k.Taken piece rest)
    (hk : k ≠ .comment) (hd : carriesOn d = false)
    (hword : (∀ c ∈ piece, c.isAlpha = true) → isBlank d = startsBlank rest)
    (after : List Char) : k.Taken piece (d :: after) := by
  simp only [carriesOn, Bool.or_eq_false_iff, beq_eq_false_iff_ne] at hd
  obtain ⟨⟨halpha, hdigit⟩, hne⟩ := hd
  obtain ⟨hfits, hstops, hunreserved⟩ := h
  have hkeyword : ∀ w, k = .keyword w → w.needsBlank = true →
      startsBlank (d :: after) = true := by
    rintro w rfl hneeds
    have hletters : ∀ c ∈ piece, c.isAlpha = true :=
      hfits.1 ▸ w.isAlpha_of_mem_spelling
    exact (hword hletters).trans (hstops hneeds)
  refine ⟨?_, ?_, ?_⟩
  · cases k with
    | comment => exact absurd rfl hk
    | keyword w => exact ⟨hfits.1, hkeyword w rfl⟩
    | _ => exact hfits
  · cases k with
    | keyword w => exact hkeyword w rfl
    | symbol s => exact fun _ hnext => hne (Option.some.inj hnext)
    | integer =>
        rintro c ⟨⟩
        exact hdigit
    | name =>
        rintro c ⟨⟩
        exact halpha
    | _ => trivial
  · rintro rfl w
    have hblank : startsBlank (d :: after) = startsBlank rest := hword hfits.2
    rw [hblank]
    exact hunreserved rfl w

theorem Taken.scanFrom_congr (h : k.Taken piece rest) (h' : k.Taken piece rest')
    {line : Nat} (heq : scanFrom (Lexeme.nextLine ⟨k, piece, line⟩) rest =
      scanFrom (Lexeme.nextLine ⟨k, piece, line⟩) rest') :
    scanFrom line (piece ++ rest) = scanFrom line (piece ++ rest') := by
  rw [h.scanFrom_eq, h'.scanFrom_eq, heq]

theorem taken_comment {body : List Char} (hbody : '\n' ∉ body) (b : List Char) :
    comment.Taken ('#' :: body) ('\n' :: b) :=
  ⟨⟨body, rfl, hbody, .inr rfl⟩, trivial, fun hk => absurd hk (by decide)⟩

end Token.Kind

theorem scanFrom_comment {body : List Char} (hbody : '\n' ∉ body)
    (b : List Char) (line : Nat) :
    scanFrom line ('#' :: body ++ '\n' :: b) = scanFrom line ('\n' :: b) :=
  (Token.Kind.taken_comment hbody b).scanFrom_eq_of_isTrivia line rfl

/-- What stands behind a comment on its line is part of it. -/
theorem scanFrom_comment_append {body extra : List Char} (hbody : '\n' ∉ body)
    (hextra : '\n' ∉ extra) (b : List Char) (line : Nat) :
    scanFrom line ('#' :: body ++ (extra ++ '\n' :: b)) =
      scanFrom line ('#' :: body ++ '\n' :: b) := by
  have hlonger : '\n' ∉ body ++ extra := by simp [hbody, hextra]
  have hall := scanFrom_comment hlonger b line
  rw [← List.cons_append, List.append_assoc] at hall
  rw [hall, scanFrom_comment hbody]

/-! ## A blank at the end of a line -/

section Blank

variable {w : Char} (hw : isBlank w = true)
include hw

namespace Token.Kind

variable {k : Token.Kind}

/-- No piece but a comment ends with a blank, unless it is that blank. -/
theorem Fits.eq_nil_of_blank {a after : List Char} (h : k.Fits (a ++ [w]) after)
    (hk : k ≠ .comment) : a = [] := by
  have hone : ∀ c, a ++ [w] = [c] → a = [] := by
    intro c hc
    have hlength := congrArg List.length hc
    rw [List.length_append] at hlength
    exact List.length_eq_zero_iff.1 (Nat.add_right_cancel hlength)
  have hfalse : isBlank w = false → a = [] := by
    intro hb
    rw [hb] at hw
    cases hw
  have hmem : w ∈ a ++ [w] := by simp
  cases k with
  | newline => exact hone _ h
  | blank =>
      obtain ⟨c, hc, -⟩ := h
      exact hone c hc
  | comment => exact absurd rfl hk
  | string =>
      obtain ⟨body, hbody, -⟩ := h
      have hlast := congrArg List.getLast? hbody
      rw [List.getLast?_concat, ← List.cons_append, List.getLast?_concat]
        at hlast
      cases hlast
      exact hfalse (by decide)
  | _ => exact hfalse (h.isBlank_eq_false (by simp) rfl (by simp) w hmem)

/-- One blank is as good as another behind a piece, unless that is a comment. -/
theorem Taken.of_blank {piece tail u v : List Char} {w' : Char}
    (hw' : isBlank w' = true) (h : k.Taken piece (tail ++ w' :: u))
    (hk : k = .comment → tail ≠ []) : k.Taken piece (tail ++ w :: v) := by
  cases tail with
  | nil =>
      have hcomment : k ≠ .comment := fun hc => hk hc rfl
      exact h.of_not_carriesOn hcomment (carriesOn_of_isBlank hw)
        (fun _ => hw.trans hw'.symm) v
  | cons c tail => exact h.of_head?_eq rfl

/-- Where nothing fits, nothing fits with a blank at the end of the line
either. -/
theorem first?_blank_eq_none {c : Char} {a b : List Char}
    (h : first? (c :: a ++ '\n' :: b) = none) :
    first? (c :: a ++ w :: '\n' :: b) = none := by
  cases hk : first? (c :: a ++ w :: '\n' :: b) with
  | none => rfl
  | some k =>
      have hline : c :: a ++ w :: '\n' :: b =
          c :: (a ++ [w]) ++ '\n' :: b := by simp
      rw [hline] at hk
      obtain ⟨piece, tail, hsplit, -, htaken⟩ := exists_taken_line hk
      by_cases hcomment : k = .comment
      · subst hcomment
        obtain ⟨body, rfl, -⟩ := (htaken b).fits
        rw [(List.cons.inj hsplit).1] at h
        cases h
      · rcases List.eq_nil_or_concat tail with rfl | ⟨tail, d, rfl⟩
        · rw [List.append_nil, ← List.cons_append] at hsplit
          have hfits := (htaken b).fits
          rw [← hsplit] at hfits
          cases hfits.eq_nil_of_blank hw hcomment
        · rw [List.concat_eq_append, ← List.append_assoc, ← List.cons_append]
            at hsplit
          obtain ⟨hfront, hlast⟩ := List.append_inj' hsplit rfl
          cases hlast
          have hfeed : k.Taken piece (tail ++ '\n' :: b) := by
            have hblank := htaken b
            rw [List.concat_eq_append, List.append_assoc] at hblank
            exact hblank.of_blank (by decide) hw fun hk => absurd hk hcomment
          rw [hfront, List.append_assoc, hfeed.first?_eq] at h
          cases h

end Token.Kind

/-- A blank in front of a line feed changes nothing. -/
theorem scanFrom_blank_newline (hne : w ≠ '\n') (a b : List Char) (line : Nat) :
    scanFrom line (a ++ w :: '\n' :: b) = scanFrom line (a ++ '\n' :: b) := by
  induction hn : a.length using Nat.strongRecOn generalizing a line with
  | _ n ih =>
      cases a with
      | nil =>
          exact (Token.Kind.taken_blank hw hne
            ('\n' :: b)).scanFrom_eq_of_isTrivia line rfl
      | cons c a =>
          cases hk : Token.Kind.first? (c :: a ++ '\n' :: b) with
          | none =>
              have hk' := Token.Kind.first?_blank_eq_none hw hk
              rw [scanFrom_of_first?_eq_none hk' (by simp),
                scanFrom_of_first?_eq_none hk (by simp),
                takeWhile_append_cons (by simp [hw]),
                takeWhile_append_cons (by decide)]
          | some k =>
              obtain ⟨piece, tail, hsplit, hpiece, htaken⟩ :=
                Token.Kind.exists_taken_line hk
              have hshorter : tail.length < n := by
                have hpos := List.length_pos_iff.2 hpiece
                rw [hsplit, List.length_append] at hn
                omega
              by_cases hcomment : k = .comment ∧ tail = []
              · -- the blank becomes part of the comment
                obtain ⟨rfl, rfl⟩ := hcomment
                obtain ⟨body, rfl, hbody, -⟩ := (htaken b).fits
                have hblank : '\n' ∉ [w] := by simp [Ne.symm hne]
                rw [hsplit, List.append_nil]
                exact scanFrom_comment_append hbody hblank b line
              · have htaken' : k.Taken piece (tail ++ w :: '\n' :: b) :=
                  (htaken b).of_blank hw (by decide) fun hk htail =>
                    hcomment ⟨hk, htail⟩
                rw [hsplit, List.append_assoc, List.append_assoc]
                exact htaken'.scanFrom_congr (htaken b)
                  (ih _ hshorter tail _ rfl)

end Blank

/-- The text with a carriage return in front of each line feed. -/
def carriageReturns (cs : List Char) : List Char :=
  cs.flatMap fun c => if c = '\n' then ['\r', '\n'] else [c]

/-- Where the carriage returns begin makes no difference. -/
theorem scanFrom_carriageReturns (line : Nat) (a cs : List Char) :
    scanFrom line (a ++ carriageReturns cs) = scanFrom line (a ++ cs) := by
  induction cs generalizing a with
  | nil => rfl
  | cons c cs ih =>
      have hfront : scanFrom line (a ++ c :: carriageReturns cs) =
          scanFrom line (a ++ c :: cs) := by
        simpa using ih (a ++ [c])
      by_cases hc : c = '\n'
      · subst hc
        have hline : carriageReturns ('\n' :: cs) =
            '\r' :: '\n' :: carriageReturns cs := rfl
        rw [hline, scanFrom_blank_newline (by decide) (by decide), hfront]
      · have hline : carriageReturns (c :: cs) = c :: carriageReturns cs := by
          simp [carriageReturns, hc]
        rw [hline, hfront]

/-- Carriage returns in front of the line feeds change nothing: the tokens are
the same, on the same lines, or the same error is reported, on the same line and
with the same text. -/
theorem scan_carriageReturns (source : String) :
    scan (String.ofList (carriageReturns source.toList)) = scan source := by
  rw [scan_eq_scanFrom, scan_eq_scanFrom, String.toList_ofList]
  exact scanFrom_carriageReturns 1 [] source.toList

/-! ## A comment at the end of a line -/

namespace Token.Kind

variable {k : Token.Kind} {piece rest : List Char}

/-- What is taken at the end of a text is taken in front of a comment or a line
end as well, if it is no word and no comment. -/
theorem Taken.append_cons {d : Char} (h : k.Taken piece rest)
    (hk : ¬ (k = .comment ∧ rest = [])) (hd : carriesOn d = false)
    (hend : ∀ c, (piece ++ rest).getLast? = some c → c.isAlpha = false)
    (after : List Char) : k.Taken piece (rest ++ d :: after) := by
  cases rest with
  | nil =>
      refine h.of_not_carriesOn (fun hc => hk ⟨hc, rfl⟩) hd
        (fun hletters => ?_) after
      have hlast := List.getLast?_eq_some_getLast h.fits.ne_nil
      have hletter := hletters _ (List.getLast_mem h.fits.ne_nil)
      rw [hend _ (by rw [List.append_nil, hlast])] at hletter
      cases hletter
  | cons c rest => exact h.of_head?_eq rfl

end Token.Kind

/-- A comment in front of a line feed changes nothing, behind lexemes that do
not end with a word. -/
theorem Cuts.scanFrom_comment_newline {line : Nat} {ls : List Lexeme}
    (h : Cuts line ls)
    (hend : ∀ d, (ls.flatMap Lexeme.piece).getLast? = some d →
      d.isAlpha = false) {c : List Char} (hc : '\n' ∉ c) (b : List Char) :
    scanFrom line (ls.flatMap Lexeme.piece ++ ('#' :: c ++ '\n' :: b)) =
      scanFrom line (ls.flatMap Lexeme.piece ++ '\n' :: b) := by
  induction h with
  | nil => exact scanFrom_comment hc b _
  | @cons l ls htaken _ ih =>
      rw [List.flatMap_cons] at hend ⊢
      by_cases hcomment : l.kind = .comment ∧ ls.flatMap Lexeme.piece = []
      · -- the open comment goes on over this one
        obtain ⟨hkind, hnil⟩ := hcomment
        have hfits := htaken.fits
        rw [hkind] at hfits
        obtain ⟨body, hpiece, hbody, -⟩ := hfits
        have hcomment : '\n' ∉ '#' :: c := by simp [hc]
        rw [hnil, hpiece, List.append_nil]
        exact scanFrom_comment_append hbody hcomment b l.line
      · have hhash :=
          htaken.append_cons hcomment (d := '#') (by decide) hend
            (c ++ '\n' :: b)
        have hfeed := htaken.append_cons hcomment (d := '\n') (by decide) hend b
        rw [List.append_assoc, List.append_assoc]
        refine hhash.scanFrom_congr hfeed (ih fun d hd => hend d ?_)
        rw [List.getLast?_append, hd, Option.some_or]

/-- A comment at the end of a line can be removed. Behind a text that can be
scanned and does not end with a letter, the rest of the line from a `#` on
changes nothing, whatever stands in it and behind it: the tokens are the same,
on the same lines, or the same error is reported. -/
theorem scan_comment_newline {a c : String} (ha : ∃ ts, scan a = .ok ts)
    (hc : '\n' ∉ c.toList)
    (hend : ∀ d, a.toList.getLast? = some d → d.isAlpha = false) (b : String) :
    scan (a ++ "#" ++ c ++ "\n" ++ b) = scan (a ++ "\n" ++ b) := by
  obtain ⟨ts, hts⟩ := ha
  obtain ⟨ls, hls, -⟩ := exists_lexemes_of_scan hts
  obtain ⟨hpieces, hcuts⟩ := lexemes_eq_ok_iff.1 hls
  rw [← hpieces] at hend
  have hremoved := hcuts.scanFrom_comment_newline hend hc b.toList
  rw [hpieces] at hremoved
  have hwith : (a ++ "#" ++ c ++ "\n" ++ b).toList =
      a.toList ++ ('#' :: c.toList ++ '\n' :: b.toList) := by
    simp [String.toList_append]
  have hwithout : (a ++ "\n" ++ b).toList = a.toList ++ '\n' :: b.toList := by
    simp [String.toList_append]
  rw [scan_eq_scanFrom, scan_eq_scanFrom, hwith, hwithout]
  exact hremoved

-- Behind a word the comment takes away the blank that makes a keyword of it.
example : (scan ("int" ++ "#" ++ "" ++ "\n" ++ "")).toOption ≠
    (scan ("int" ++ "\n" ++ "")).toOption := by
  decide +kernel

/-- Behind an open comment, one with a keyword in it, a quote and a character
that fits nothing. -/
theorem scan_comment_newline_open :
    ∃ a c b : String, ∃ ts us : List Token,
      a = "x >= 007 # 1" ∧ c = " int \"@" ∧ b = "y" ∧
      scan a = .ok ts ∧ '\n' ∉ c.toList ∧
      (∀ d, a.toList.getLast? = some d → d.isAlpha = false) ∧
      us = [⟨.name, "x", 1⟩, ⟨.symbol .ge, ">=", 1⟩, ⟨.integer, "007", 1⟩,
        ⟨.newline, "\n", 1⟩, ⟨.name, "y", 2⟩] ∧
      scan (a ++ "\n" ++ b) = .ok us ∧
        scan (a ++ "#" ++ c ++ "\n" ++ b) = .ok us := by
  have ha : scan "x >= 007 # 1" =
      .ok [⟨.name, "x", 1⟩, ⟨.symbol .ge, ">=", 1⟩, ⟨.integer, "007", 1⟩] :=
    eq_ok_of_toOption (by decide +kernel)
  have hb : scan ("x >= 007 # 1" ++ "\n" ++ "y") =
      .ok [⟨.name, "x", 1⟩, ⟨.symbol .ge, ">=", 1⟩, ⟨.integer, "007", 1⟩,
        ⟨.newline, "\n", 1⟩, ⟨.name, "y", 2⟩] :=
    eq_ok_of_toOption (by decide +kernel)
  have hend : ∀ d, "x >= 007 # 1".toList.getLast? = some d →
      d.isAlpha = false := by
    have hlast : "x >= 007 # 1".toList.getLast? = some '1' := by decide
    rw [hlast]
    rintro d ⟨⟩
    rfl
  refine ⟨_, " int \"@", _, _, _, rfl, rfl, rfl, ha, by decide, hend, rfl, hb,
    ?_⟩
  rw [scan_comment_newline ⟨_, ha⟩ (by decide) hend]
  exact hb

/-! ## Blank lines -/

/-- After a line end the reader takes further ones without noticing. -/
theorem Reader.foldlM_newline_newlines {n : Token} (hn : n.kind = .newline)
    {ns : List Token} (hns : Grammar.Newlines ns) (r : Reader)
    (b : List Token) :
    (n :: (ns ++ b)).foldlM Reader.step r = (n :: b).foldlM Reader.step r := by
  rw [List.foldlM_cons, List.foldlM_cons]
  cases hstep : r.step n with
  | error e => rfl
  | ok r' =>
      obtain ⟨done, hr'⟩ := between_of_step_newline hn hstep
      have hreads : ns.foldlM Reader.step r' = .ok r' := hr'.reads_newlines hns
      show (ns ++ b).foldlM Reader.step r' = b.foldlM Reader.step r'
      rw [List.foldlM_append, hreads]
      rfl

/-- Blank lines never change what is read: a line end may stand twice wherever
it stands once, and the same tree comes out or the same error, with the same
fault, line and text. -/
theorem ofTokens_blank_line (a b : List Token) {n : Token}
    (hn : n.kind = .newline) :
    Program.ofTokens (a ++ [n] ++ b) = Program.ofTokens (a ++ [n, n] ++ b) := by
  have hfold : (a ++ [n] ++ b).foldlM Reader.step Reader.start =
      (a ++ [n, n] ++ b).foldlM Reader.step Reader.start := by
    rw [List.append_assoc, List.append_assoc, List.foldlM_append,
      List.foldlM_append]
    cases a.foldlM Reader.step Reader.start with
    | error e => rfl
    | ok r =>
        exact (Reader.foldlM_newline_newlines hn (Grammar.newlines_singleton hn)
          r b).symm
  have hlast : (a ++ [n] ++ b).getLast? = (a ++ [n, n] ++ b).getLast? := by
    simp [List.getLast?_append]
  rw [Program.ofTokens, Program.ofTokens, hfold, hlast]

/-- An empty line between the block of an `if` and its `else`. -/
theorem ofTokens_blank_line_before_else :
    ∃ (a b : List Token) (n : Token),
      a =
        [⟨.keyword .if, "if", 1⟩, ⟨.name, "x", 1⟩, ⟨.symbol .lbrace, "\x7b", 1⟩,
          ⟨.symbol .rbrace, "\x7d", 1⟩] ∧
      b = [⟨.keyword .else, "else", 3⟩, ⟨.symbol .lbrace, "\x7b", 3⟩,
        ⟨.symbol .rbrace, "\x7d", 3⟩] ∧
      n.kind = .newline ∧
      Program.ofTokens (a ++ [n] ++ b) =
        .ok [.cond (.var ⟨"x", 1⟩) [] (.otherwise [])] ∧
      Program.ofTokens (a ++ [n, n] ++ b) =
        .ok [.cond (.var ⟨"x", 1⟩) [] (.otherwise [])] := by
  refine ⟨_, _, ⟨.newline, "\n", 1⟩, rfl, rfl, rfl, rfl, ?_⟩
  rw [← ofTokens_blank_line _ _ rfl]
  rfl

end Quill
