import Quill.Proofs.LineEnds
import Quill.Proofs.ViablePrefix

/-!
# The last line need not be ended

A program may end with a line feed or without one. For the reader the two are
the same, since the end of the input is read as if a line ended there. For the
scanner they are not: a few words are keywords only in front of a blank, the end
of the text is none, and a line feed is. So a line feed behind the last line
leaves the last piece as it is, unless that is a name with the spelling of such
a keyword.

Where this happens the text is no program any more. A program that ends with a
name ends with an operand, for every other name has to be followed by something,
and no keyword that needs a blank is an operand.
-/

namespace Quill

/-! ## The last piece in front of a line feed -/

namespace Token.Kind

variable {k : Token.Kind} {piece : List Char}

theorem startsBlank_newline (after : List Char) :
    startsBlank ('\n' :: after) = true := by
  show isBlank '\n' = true
  decide

/-- What is taken at the end of a text is taken in front of a line feed as well,
except for a name with the spelling of a keyword that needs a blank. -/
theorem Taken.before_newline (h : k.Taken piece [])
    (hname : k = .name → ∀ w : Keyword, w.needsBlank = true →
      piece ≠ w.spelling.toList)
    (after : List Char) : k.Taken piece ('\n' :: after) := by
  obtain ⟨hfits, hstops, hunreserved⟩ := h
  refine ⟨?_, ?_, ?_⟩
  · cases k with
    | comment =>
        obtain ⟨body, hpiece, hbody, -⟩ := hfits
        exact ⟨body, hpiece, hbody, .inr rfl⟩
    | keyword w => exact ⟨hfits.1, fun _ => startsBlank_newline after⟩
    | _ => exact hfits
  · cases k with
    | keyword w => exact fun _ => startsBlank_newline after
    | symbol s =>
        intro _ hnext
        exact absurd (Option.some.inj hnext) (by decide)
    | integer =>
        rintro c ⟨⟩
        decide
    | name =>
        rintro c ⟨⟩
        decide
    | _ => trivial
  · intro hk w
    have hkeyword := hunreserved hk w
    by_cases hneeds : w.needsBlank = true
    · rw [if_pos hneeds]
      exact fun hpiece => absurd hpiece (hname hk w hneeds)
    · rw [if_neg hneeds] at hkeyword ⊢
      exact hkeyword

theorem taken_newline (after : List Char) : newline.Taken ['\n'] after :=
  ⟨rfl, trivial, fun hk => absurd hk (by decide)⟩

/-- A keyword is taken in front of a line feed, whether it needs a blank or
not. -/
theorem taken_keyword_newline (w : Keyword) (after : List Char) :
    (keyword w).Taken w.spelling.toList ('\n' :: after) := by
  have hblank := startsBlank_newline after
  exact ⟨⟨rfl, fun _ => hblank⟩, fun _ => hblank, fun hk => by cases hk⟩

end Token.Kind

theorem Cuts.head?_flatMap {line : Nat} {l : Lexeme} {ls : List Lexeme}
    (h : Cuts line (l :: ls)) :
    ((l :: ls).flatMap Lexeme.piece).head? = l.piece.head? := by
  cases h with
  | cons htaken _ =>
      obtain ⟨c, piece, hpiece⟩ := List.exists_cons_of_ne_nil htaken.fits.ne_nil
      rw [List.flatMap_cons, hpiece]
      rfl

/-- Lexemes from a place on may be exchanged for others that begin with the same
character: only that character matters for what is cut before. -/
theorem Cuts.exchange {line : Nat} {ls after after' : List Lexeme}
    {l l' : Lexeme} (h : Cuts line (ls ++ l :: after))
    (h' : Cuts l.line (l' :: after')) (hhead : l'.piece.head? = l.piece.head?) :
    Cuts line (ls ++ l' :: after') := by
  induction ls generalizing line with
  | nil =>
      cases h with
      | cons _ _ => exact h'
  | cons l₀ ls ih =>
      cases h with
      | cons htaken hrest =>
          refine .cons (htaken.of_head?_eq ?_) (ih hrest)
          cases ls with
          | nil =>
              exact h'.head?_flatMap.trans
                (hhead.trans hrest.head?_flatMap.symm)
          | cons l₁ ls =>
              exact (ih hrest).head?_flatMap.trans hrest.head?_flatMap.symm

/-- The last lexeme of a text, cut once more with a line feed behind it. -/
theorem Cuts.append_newline {line : Nat} {ls : List Lexeme} {l : Lexeme}
    {k : Token.Kind} (h : Cuts line (ls ++ [l])) (hk : k.Taken l.piece ['\n']) :
    ∃ last, lexemes line ((ls ++ [l]).flatMap Lexeme.piece ++ ['\n']) =
      .ok (ls ++ [⟨k, l.piece, l.line⟩, ⟨.newline, ['\n'], last⟩]) := by
  let l' : Lexeme := ⟨k, l.piece, l.line⟩
  let feed : Lexeme := ⟨.newline, ['\n'], l'.nextLine⟩
  have hfeed : Cuts feed.line [feed] := .cons (Token.Kind.taken_newline []) .nil
  have hlast : Cuts l'.line [l', feed] := .cons hk hfeed
  have hcut := (h.exchange hlast rfl).lexemes_eq
  refine ⟨l'.nextLine, ?_⟩
  simpa [l', feed] using hcut

theorem Lexeme.tokens_append (ls ms : List Lexeme) :
    tokens (ls ++ ms) = tokens ls ++ tokens ms := by
  rw [tokens, List.filter_append, List.map_append]
  rfl

/-- The text ends with a name on this line that a blank behind it would make the
keyword `w`. -/
def EndsInWord (source : String) (w : Keyword) (line : Nat) : Prop :=
  w.needsBlank = true ∧
    ∃ ls,
      lexemes 1 source.toList = .ok (ls ++ [⟨.name, w.spelling.toList, line⟩])

theorem toList_append_newline (source : String) :
    (source ++ "\n").toList = source.toList ++ ['\n'] :=
  String.toList_append

/-- Behind any other text a line feed adds a line end to the tokens and nothing
else. -/
theorem scan_append_newline {source : String} {ts : List Token}
    (h : scan source = .ok ts) (hword : ∀ w line, ¬ EndsInWord source w line) :
    ∃ last, scan (source ++ "\n") = .ok (ts ++ [⟨.newline, "\n", last⟩]) := by
  obtain ⟨ls, hls, rfl⟩ := exists_lexemes_of_scan h
  obtain ⟨hpieces, hcuts⟩ := lexemes_eq_ok_iff.1 hls
  suffices hadd : ∃ last, lexemes 1 (source.toList ++ ['\n']) =
      .ok (ls ++ [⟨.newline, ['\n'], last⟩]) by
    obtain ⟨last, hlast⟩ := hadd
    refine ⟨last, ?_⟩
    rw [scan, toList_append_newline, hlast]
    show Except.ok (Lexeme.tokens (ls ++ [⟨.newline, ['\n'], last⟩])) = _
    rw [Lexeme.tokens_append]
    rfl
  rcases List.eq_nil_or_concat ls with rfl | ⟨ls, l, rfl⟩
  · refine ⟨1, ?_⟩
    rw [← hpieces, List.flatMap_nil, List.nil_append, lexemes_newline, lexemes]
    rfl
  · rw [List.concat_eq_append] at hls hpieces hcuts ⊢
    have htaken : l.kind.Taken l.piece [] := hcuts.taken
    have hkept : l.kind.Taken l.piece ['\n'] := by
      refine htaken.before_newline (fun hkind w hneeds hpiece => ?_) []
      refine hword w l.line ⟨hneeds, ls, ?_⟩
      rw [hls, ← hkind, ← hpiece]
    obtain ⟨last, hlast⟩ := hcuts.append_newline hkept
    refine ⟨last, ?_⟩
    rw [← hpieces, hlast, List.append_assoc]
    rfl

/-- At the end of a line such a name is a keyword. -/
theorem scan_append_newline_of_endsInWord {source : String} {w : Keyword}
    {line : Nat} (h : EndsInWord source w line) :
    ∃ ts last, scan source = .ok (ts ++ [⟨.name, w.spelling, line⟩]) ∧
      scan (source ++ "\n") = .ok
        (ts ++ [⟨.keyword w, w.spelling, line⟩, ⟨.newline, "\n", last⟩]) := by
  obtain ⟨-, ls, hls⟩ := h
  obtain ⟨hpieces, hcuts⟩ := lexemes_eq_ok_iff.1 hls
  obtain ⟨last, hlast⟩ :=
    hcuts.append_newline (Token.Kind.taken_keyword_newline w [])
  rw [hpieces] at hlast
  refine ⟨Lexeme.tokens ls, last, ?_, ?_⟩
  · rw [scan, hls]
    show Except.ok (Lexeme.tokens (ls ++ _)) = _
    rw [Lexeme.tokens_append]
    simp [Lexeme.tokens, Lexeme.token, Token.Kind.isTrivia]
  · rw [scan, toList_append_newline, hlast]
    show Except.ok (Lexeme.tokens (ls ++ _)) = _
    rw [Lexeme.tokens_append]
    simp [Lexeme.tokens, Lexeme.token, Token.Kind.isTrivia]

/-! ## The reader at the end of the input -/

namespace Reader

/-- Where the program may end, it may also go on with a line end and end
there. -/
theorem exists_step_newline_of_finish? {r : Reader} {p : Program}
    (h : r.finish? = some p) (line : Nat) :
    ∃ r', r.step ⟨.newline, "\n", line⟩ = .ok r' ∧ r'.finish? = some p := by
  rw [finish?_eq r line] at h
  split at h
  · next r' hstep =>
      obtain ⟨done, hr'⟩ := between_of_step_newline rfl hstep
      exact ⟨r', hstep, hr'.finish?_eq.trans h⟩
  · cases h

end Reader

theorem ofTokens_append_newline {ts : List Token} {p : Program}
    (h : Program.ofTokens ts = .ok p) (line : Nat) :
    Program.ofTokens (ts ++ [⟨.newline, "\n", line⟩]) = .ok p := by
  obtain ⟨r, hreads, hfinish⟩ := exists_reads_of_ofTokens_eq_ok h
  obtain ⟨r', hstep, hfinish'⟩ :=
    Reader.exists_step_newline_of_finish? hfinish line
  rw [ofTokens_of_reads (hreads.append (.single hstep)), hfinish',
    Option.elim_some]

/-! ## A name at the end of a program -/

section Word

variable {w : Keyword} (hw : w.needsBlank = true) {text : String} {line : Nat}
include hw

theorem ExprReader.takeOperand_keyword (er : ExprReader) :
    er.takeOperand ⟨.keyword w, text, line⟩ =
      .error ⟨.invalidExpression, line, some text⟩ := by
  match w, hw with
  | .bool, _ | .fun, _ | .int, _ | .return, _ | .str, _ => rfl

/-- Where a name goes into an expression, it is an operand, and no keyword is
one. -/
theorem ExprReader.step_keyword_of_step_name {er er' : ExprReader}
    (h : er.step ⟨.name, text, line⟩ = .ok (.reading er')) :
    er.step ⟨.keyword w, text, line⟩ =
      .error ⟨.invalidExpression, line, some text⟩ := by
  have hafter : ∀ e,
      er.takeAfter e ⟨.name, text, line⟩ ≠ .ok (.reading er') := by
    intro e he
    simp only [takeAfter, Token.Kind.level?] at he
    split at he <;> cases he
  obtain ⟨pending, nested, focus⟩ := er
  cases focus with
  | operand =>
      simp only [step]
      rw [takeOperand_keyword hw]
      rfl
  | name x => exact absurd h (hafter _)
  | arguments f =>
      simp only [step]
      rw [takeOperand_keyword hw]
      rfl
  | value e => exact absurd h (hafter e)

namespace Reader

theorem advance_keyword_of_advance_name {r r' : Reader} {slot : Slot}
    {er : ExprReader} (h : r.advance slot er ⟨.name, text, line⟩ = .ok r') :
    r.advance slot er ⟨.keyword w, text, line⟩ =
      .error ⟨.invalidExpression, line, some text⟩ := by
  rw [advance] at h
  split at h
  · cases h
  · next hstep => rw [advance, ExprReader.step_keyword_of_step_name hw hstep]
  · -- nothing goes on with a name behind a complete expression
    cases slot <;> cases h

/-- A program that may end behind a name ends with an operand, so that a keyword
in its place is refused. -/
theorem step_keyword_of_step_name {r r' : Reader} {p : Program}
    (h : r.step ⟨.name, text, line⟩ = .ok r') (hend : r'.finish? = some p) :
    r.step ⟨.keyword w, text, line⟩ =
      .error ⟨.invalidExpression, line, some text⟩ := by
  obtain ⟨mode, done, outer⟩ := r
  cases mode with
  | calling f =>
      simp only [step] at h ⊢
      exact advance_keyword_of_advance_name hw h
  | returning line =>
      simp only [step] at h ⊢
      exact advance_keyword_of_advance_name hw h
  | expr slot er => exact advance_keyword_of_advance_name hw h
  | branched arm earlier newline =>
      cases newline with
      | false => cases h
      | true =>
          cases h
          cases hend
  | ready | typed | function | paramName =>
      -- the name begins something that is not complete yet
      cases h
      cases hend
  | _ => cases h

end Reader

/-- A program that ends with a name is none with a keyword in its place. -/
theorem ofTokens_keyword_of_name {ts : List Token} {p : Program}
    (h : Program.ofTokens (ts ++ [⟨.name, text, line⟩]) = .ok p)
    (ext : List Token) :
    Program.ofTokens (ts ++ [⟨.keyword w, text, line⟩] ++ ext) =
      .error ⟨.invalidExpression, line, some text⟩ := by
  obtain ⟨r, hreads, hfinish⟩ := exists_reads_of_ofTokens_eq_ok h
  rw [Reader.Reads, List.foldlM_append] at hreads
  obtain ⟨m, hm, hlast⟩ := Operator.exists_of_bind_eq_ok hreads
  rw [List.foldlM_cons] at hlast
  obtain ⟨m', hstep, hend⟩ := Operator.exists_of_bind_eq_ok hlast
  cases hend
  exact ofTokens_append_eq_error hm
    (Reader.step_keyword_of_step_name hw hstep hfinish) ext

end Word

/-! ## The final line feed -/

/-- The final line feed is optional: a program is the same program with one more
line feed behind it, the same statements on the same lines. The exception is a
text that ends with a name that is spelled like a keyword which needs a blank:
the line feed makes a keyword of it, and that is refused where it stands. -/
theorem ofSource_final_newline {source : String} {p : Program}
    (h : Program.ofSource source = .ok p) :
    ((∀ w line, ¬ EndsInWord source w line) →
      Program.ofSource (source ++ "\n") = .ok p) ∧
      ∀ w line, EndsInWord source w line →
        Program.ofSource (source ++ "\n") =
          .error ⟨.invalidExpression, line, some w.spelling⟩ := by
  obtain ⟨ts, hts, hp⟩ := Program.exists_scan_of_ofSource h
  refine ⟨fun hword => ?_, fun w line hword => ?_⟩
  · obtain ⟨last, hlast⟩ := scan_append_newline hts hword
    rw [Program.ofSource, hlast]
    exact ofTokens_append_newline hp last
  · obtain ⟨us, last, hus, hlast⟩ := scan_append_newline_of_endsInWord hword
    rw [hus] at hts
    cases hts
    have hrefused :=
      ofTokens_keyword_of_name hword.1 hp [⟨.newline, "\n", last⟩]
    rw [List.append_assoc] at hrefused
    rw [Program.ofSource, hlast]
    exact hrefused

/-- The word stands in a comment behind a conditional, and it is the operand of
a `return`. -/
theorem ofSource_final_newline_word :
    ∃ a b : String, a = "if x \x7b\n\x7d # int" ∧ b = "return return" ∧
      Program.ofSource a = .ok [.cond (.var ⟨"x", 1⟩) [] .none] ∧
      (∀ w line, ¬ EndsInWord a w line) ∧
      Program.ofSource (a ++ "\n") = .ok [.cond (.var ⟨"x", 1⟩) [] .none] ∧
      Program.ofSource b = .ok [.ret 1 (some (.var ⟨"return", 1⟩))] ∧
      EndsInWord b .return 1 ∧
      Program.ofSource (b ++ "\n") =
        .error ⟨.invalidExpression, 1, some "return"⟩ := by
  have ha : Program.ofSource "if x \x7b\n\x7d # int" =
      .ok [.cond (.var ⟨"x", 1⟩) [] .none] := by
    have htokens : (scan "if x \x7b\n\x7d # int").toOption =
        some [⟨.keyword .if, "if", 1⟩, ⟨.name, "x", 1⟩,
          ⟨.symbol .lbrace, "\x7b", 1⟩, ⟨.newline, "\n", 1⟩,
          ⟨.symbol .rbrace, "\x7d", 2⟩] := by
      decide +kernel
    rw [Program.ofSource_of_scan htokens]
    rfl
  have hcomment : ∀ w line, ¬ EndsInWord "if x \x7b\n\x7d # int" w line := by
    rintro w line ⟨-, ls, hls⟩
    have hlast : ((lexemes 1 "if x \x7b\n\x7d # int".toList).toOption.bind
        List.getLast?).map Lexeme.kind = some .comment := by
      decide +kernel
    rw [hls] at hlast
    simp [Except.toOption] at hlast
  have hb : Program.ofSource "return return" =
      .ok [.ret 1 (some (.var ⟨"return", 1⟩))] := by
    have htokens : (scan "return return").toOption =
        some [⟨.keyword .return, "return", 1⟩, ⟨.name, "return", 1⟩] := by
      decide +kernel
    rw [Program.ofSource_of_scan htokens]
    rfl
  have hword : EndsInWord "return return" .return 1 := by
    refine ⟨rfl, [⟨.keyword .return, "return".toList, 1⟩, ⟨.blank, [' '], 1⟩],
      ?_⟩
    exact eq_ok_of_toOption (by decide +kernel)
  exact ⟨_, _, rfl, rfl, ha, hcomment, (ofSource_final_newline ha).1 hcomment,
    hb, hword, (ofSource_final_newline hb).2 _ _ hword⟩

/-- A line feed behind it makes a program refused whose last operand is called
`int`. -/
theorem final_newline_refused :
    ∃ p, Program.ofSource "x = int" = .ok p ∧
      Program.ofSource ("x = int" ++ "\n") ≠ .ok p := by
  have hplain : (scan "x = int").toOption =
      some [⟨.name, "x", 1⟩, ⟨.symbol .assign, "=", 1⟩, ⟨.name, "int", 1⟩] := by
    decide +kernel
  have hfeed : (scan ("x = int" ++ "\n")).toOption =
      some [⟨.name, "x", 1⟩, ⟨.symbol .assign, "=", 1⟩,
        ⟨.keyword .int, "int", 1⟩, ⟨.newline, "\n", 1⟩] := by
    decide +kernel
  refine ⟨[.assign ⟨"x", 1⟩ (.var ⟨"int", 1⟩)], ?_, ?_⟩
  · rw [Program.ofSource_of_scan hplain]
    rfl
  · rw [Program.ofSource_of_scan hfeed]
    intro h
    cases h

end Quill
