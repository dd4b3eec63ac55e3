import Quill.Proofs.FirstMatch
import Quill.Proofs.Spelling

/-!
# Line by line

No piece of text goes beyond its line, and no kind looks beyond the next line
feed to see whether it fits. So a text is scanned up to a line feed as if it
ended there, and what stands behind is scanned as a text of its own, further
down.

The reader has no such property in general, since blocks and conditionals go
over many lines. But where the lines read so far are a program, a line end
leaves the reader between statements, and it makes no difference there whether
statements have been read before. A conditional that an `else` might still
continue is the one exception, and no program begins with `else`.
-/

namespace Quill

open Grammar

/-! ## No kind looks beyond the line -/

theorem takeWhile_append_cons {p : Char → Bool} {d : Char} (hd : p d = false)
    (a b : List Char) : (a ++ d :: b).takeWhile p = a.takeWhile p := by
  induction a with
  | nil => exact List.takeWhile_cons_of_neg (by simp [hd])
  | cons c a ih =>
      rw [List.cons_append, List.takeWhile_cons, List.takeWhile_cons, ih]

namespace Token.Kind

variable {k : Token.Kind}

/-- What begins before a line feed ends there at the latest. -/
theorem Fits.prefix_line {piece after a b : List Char} (h : k.Fits piece after)
    (hne : a ≠ []) (heq : piece ++ after = a ++ '\n' :: b) : piece <+: a := by
  by_cases hk : k = .newline
  · subst hk
    obtain ⟨c, a, rfl⟩ := List.exists_cons_of_ne_nil hne
    rw [show piece = ['\n'] from h] at heq ⊢
    exact ⟨a, by rw [(List.cons.inj heq).1]; rfl⟩
  · have hpiece : piece <+: a ++ '\n' :: b := ⟨after, heq⟩
    refine prefix_of_prefix_append hpiece ?_
    rintro c ⟨⟩
    exact h.newline_not_mem hk

/-- What is taken before a line feed is taken there whatever stands behind
it. -/
theorem exists_taken_line {c : Char} {a b : List Char}
    (hk : first? (c :: a ++ '\n' :: b) = some k) :
    ∃ piece tail, c :: a = piece ++ tail ∧ piece ≠ [] ∧
      ∀ b', k.Taken piece (tail ++ '\n' :: b') := by
  obtain ⟨piece, after, hall, htaken⟩ :
      ∃ piece after, piece ++ after = c :: a ++ '\n' :: b ∧
        k.Taken piece after :=
    ⟨_, _, List.take_append_drop _ _, taken_of_first? hk⟩
  obtain ⟨tail, htail⟩ := htaken.fits.prefix_line (List.cons_ne_nil c a) hall
  rw [← htail, List.append_assoc] at hall
  refine ⟨piece, tail, htail.symm, htaken.fits.ne_nil,
    fun b' => htaken.of_head?_eq ?_⟩
  rw [List.append_cancel_left hall]
  cases tail <;> rfl

theorem first?_line_eq_none {c : Char} {a b : List Char}
    (h : first? (c :: a ++ '\n' :: b) = none) (b' : List Char) :
    first? (c :: a ++ '\n' :: b') = none := by
  cases hk : first? (c :: a ++ '\n' :: b') with
  | none => rfl
  | some k =>
      obtain ⟨piece, tail, hsplit, -, htaken⟩ := exists_taken_line hk
      rw [hsplit, List.append_assoc, (htaken b).first?_eq] at h
      cases h

end Token.Kind

/-! ## Scanning line by line -/

/-- One cut: it is made within the line, whatever stands behind. -/
theorem exists_cut_line {c : Char} {a : List Char} {k : Token.Kind}
    (hk : Token.Kind.first? (c :: a ++ ['\n']) = some k) :
    ∃ piece tail, c :: a = piece ++ tail ∧ piece ≠ [] ∧
      ∀ b line, lexemes line (c :: a ++ '\n' :: b) =
        (lexemes (line + piece.count '\n') (tail ++ '\n' :: b)).map
          (⟨k, piece, line⟩ :: ·) := by
  obtain ⟨piece, tail, hsplit, hne, htaken⟩ := Token.Kind.exists_taken_line hk
  refine ⟨piece, tail, hsplit, hne, fun b line => ?_⟩
  rw [hsplit, List.append_assoc, (htaken b).lexemes_eq,
    Lexeme.nextLine_of_fits (htaken b).fits]

/-- A text is cut up to a line feed as if it ended there, and what stands behind
is cut as a text of its own, further down. -/
theorem lexemes_line (a b : List Char) (line : Nat) :
    lexemes line (a ++ '\n' :: b) =
      lexemes line (a ++ ['\n']) >>= fun ls =>
        (lexemes (line + (a ++ ['\n']).count '\n') b).map (ls ++ ·) := by
  induction hn : a.length using Nat.strongRecOn generalizing a line with
  | _ n ih =>
      cases a with
      | nil =>
          rw [List.nil_append, List.nil_append, lexemes_newline,
            lexemes_newline, lexemes]
          rfl
      | cons c a =>
          cases hk : Token.Kind.first? (c :: a ++ ['\n']) with
          | none =>
              have hfirst := Token.Kind.first?_line_eq_none hk b
              rw [List.cons_append] at hfirst hk
              rw [List.cons_append, List.cons_append,
                lexemes_of_first?_eq_none hfirst, lexemes_of_first?_eq_none hk,
                ← List.cons_append, ← List.cons_append,
                takeWhile_append_cons (by decide),
                takeWhile_append_cons (by decide)]
              rfl
          | some k =>
              obtain ⟨piece, tail, hsplit, hne, hcut⟩ := exists_cut_line hk
              have hshorter : tail.length < n := by
                have hpos := List.length_pos_iff.2 hne
                rw [hsplit, List.length_append] at hn
                omega
              have hlines : line + (c :: a ++ ['\n']).count '\n' =
                  line + piece.count '\n' + (tail ++ ['\n']).count '\n' := by
                rw [hsplit, List.append_assoc, List.count_append, Nat.add_assoc]
              rw [hcut b, hcut [], ih _ hshorter _ _ rfl, hlines]
              cases lexemes (line + piece.count '\n') (tail ++ ['\n']) with
              | error e => rfl
              | ok ls =>
                  cases lexemes
                    (line + piece.count '\n' + (tail ++ ['\n']).count '\n')
                      b <;> rfl

theorem scanFrom_line (a b : List Char) (line : Nat) :
    scanFrom line (a ++ '\n' :: b) =
      scanFrom line (a ++ ['\n']) >>= fun ts =>
        (scanFrom (line + (a ++ ['\n']).count '\n') b).map (ts ++ ·) := by
  rw [scanFrom, scanFrom, scanFrom, lexemes_line]
  cases lexemes line (a ++ ['\n']) with
  | error e => rfl
  | ok ls =>
      cases lexemes (line + (a ++ ['\n']).count '\n') b with
      | error e => rfl
      | ok ls' =>
          simp only [bind, Except.bind, Except.map, List.filter_append,
            List.map_append]

theorem scanFrom_add (k line : Nat) (cs : List Char) :
    scanFrom (line + k) cs =
      relabelResult (· + k) (List.map (Renaming.lines (· + k)).token)
        (scanFrom line cs) := by
  rw [scanFrom, scanFrom, lexemes_add]
  cases lexemes line cs with
  | error e => rfl
  | ok ls => simp only [relabelResult, Except.map, tokens_relabel]

theorem scan_line (a b : String) :
    scan (a ++ "\n" ++ b) = scan (a ++ "\n") >>= fun ts =>
      (relabelResult (· + (a ++ "\n").toList.count '\n')
        (List.map (Renaming.lines (· + (a ++ "\n").toList.count '\n')).token)
          (scan b)).map
        (ts ++ ·) := by
  have hline : (a ++ "\n").toList = a.toList ++ ['\n'] := String.toList_append
  rw [scan_eq_scanFrom, scan_eq_scanFrom, scan_eq_scanFrom,
    String.toList_append, hline, List.append_assoc, List.singleton_append,
    scanFrom_line]
  simp only [scanFrom_add]

/-- The scanner works line by line. What is wrong with whole lines is wrong with
them whatever follows, and otherwise what follows is scanned as a text of its
own, for better or worse, with its lines counted from where it stands. -/
theorem scan_by_lines (a b : String) :
    (∀ e, scan (a ++ "\n") = .error e → scan (a ++ "\n" ++ b) = .error e) ∧
      (∀ ts us, scan (a ++ "\n") = .ok ts → scan b = .ok us →
        scan (a ++ "\n" ++ b) = .ok (ts ++ us.map fun t =>
          { t with line := t.line + (a ++ "\n").toList.count '\n' })) ∧
      (∀ ts e, scan (a ++ "\n") = .ok ts → scan b = .error e →
        scan (a ++ "\n" ++ b) = .error
          { e with line := e.line + (a ++ "\n").toList.count '\n' }) := by
  refine ⟨fun e ha => ?_, fun ts us ha hb => ?_, fun ts e ha hb => ?_⟩
  · rw [scan_line, ha]
    rfl
  · rw [scan_line, ha, hb]
    rfl
  · rw [scan_line, ha, hb]
    rfl

/-- The tokens of whole lines end with a line end. -/
theorem exists_last_of_scanFrom_line {a : List Char} {line : Nat}
    {ts : List Token} (h : scanFrom line (a ++ ['\n']) = .ok ts) :
    ∃ us t, ts = us ++ [t] ∧ t.kind = .newline := by
  cases hls : lexemes line (a ++ ['\n']) with
  | error e =>
      rw [scanFrom, hls] at h
      cases h
  | ok ls =>
      rw [scanFrom, hls] at h
      cases h
      have hpieces := flatMap_piece_of_lexemes hls
      rcases List.eq_nil_or_concat ls with rfl | ⟨ls, l, hconcat⟩
      · simp at hpieces
      · rw [List.concat_eq_append] at hconcat
        subst hconcat
        have hfits := (placed_of_lexemes hls).fits
        -- the last piece ends with the line feed, and only a line end holds one
        have hmem : '\n' ∈ l.piece := by
          rw [List.flatMap_append, List.flatMap_singleton] at hpieces
          have hlast := congrArg List.getLast? hpieces
          rw [List.getLast?_append, List.getLast?_eq_some_getLast hfits.ne_nil,
            Option.some_or, List.getLast?_concat] at hlast
          rw [← Option.some.inj hlast]
          exact List.getLast_mem hfits.ne_nil
        have hkind : l.kind = .newline := by
          by_cases hk : l.kind = .newline
          · exact hk
          · exact absurd hmem (hfits.newline_not_mem hk)
        refine ⟨(ls.filter (!·.kind.isTrivia)).map Lexeme.token, l.token, ?_,
          hkind⟩
        dsimp only
        rw [List.filter_append, List.map_append,
          List.filter_cons_of_pos (by rw [hkind]; rfl)]
        rfl

/-! ## Reading line by line -/

/-- A line end never goes into an expression. -/
theorem ExprReader.step_newline {er : ExprReader} {t : Token}
    (ht : t.kind = .newline) {er' : ExprReader} :
    er.step t ≠ .ok (.reading er') := by
  have hoperand : ∀ r : ExprReader,
      r.takeOperand t = .error (t.blame .invalidExpression) := by
    intro r
    simp only [takeOperand, Literal.ofToken?, ht, Literal.Tag.ofTokenKind?,
      Option.map_none]
  have hafter : ∀ e, er.takeAfter e t ≠ .ok (.reading er') := by
    intro e h
    simp only [takeAfter, ht, Token.Kind.level?] at h
    split at h <;> cases h
  intro h
  obtain ⟨pending, nested, focus⟩ := er
  cases focus with
  | operand =>
      simp only [step, hoperand] at h
      cases h
  | name x =>
      simp only [step, ht] at h
      exact hafter _ h
  | arguments f =>
      simp only [step, ht, hoperand] at h
      cases h
  | value e => exact hafter _ h

namespace Reader

theorem between_of_fill_newline {r r' : Reader} {slot : Slot}
    {e : Expr} {t : Token} (ht : t.kind = .newline)
    (h : r.fill slot e t = .ok r') : ∃ done, r'.Between done r.outer := by
  have hadd : ∀ s, (r.add s).separate t = .ok r' → ∃ done,
      r'.Between done r.outer := by
    intro s hs
    rw [separate_newline ht] at hs
    cases hs
    exact ⟨_, .ready⟩
  cases slot with
  | init ty x => exact hadd _ h
  | value x => exact hadd _ h
  | result line => exact hadd _ h
  | branch earlier =>
      simp only [fill, openBlock, ht] at h
      cases h
  | loop =>
      simp only [fill, openBlock, ht] at h
      cases h
  | argument f args =>
      simp only [fill, ht] at h
      cases h

theorem between_of_advance_newline {r r' : Reader} {slot : Slot}
    {er : ExprReader} {t : Token} (ht : t.kind = .newline)
    (h : r.advance slot er t = .ok r') : ∃ done, r'.Between done r.outer := by
  rw [advance] at h
  split at h
  · cases h
  · next hstep => exact absurd hstep (ExprReader.step_newline ht)
  · exact between_of_fill_newline ht h

/-- After a line end the reader stands between statements, in the same blocks as
before. -/
theorem between_of_step_newline {r r' : Reader} {t : Token}
    (ht : t.kind = .newline) (h : r.step t = .ok r') :
    ∃ done, r'.Between done r.outer := by
  obtain ⟨mode, done, outer⟩ := r
  cases mode with
  | ready =>
      rw [show step ⟨.ready, done, outer⟩ t = _ from begin_newline ht] at h
      cases h
      exact ⟨_, .ready⟩
  | ended =>
      rw [show step ⟨.ended, done, outer⟩ t = _ from separate_newline ht] at h
      cases h
      exact ⟨_, .ready⟩
  | branched arm earlier newline =>
      simp only [step, ht] at h
      cases h
      exact ⟨_, .branched⟩
  | returning line =>
      simp only [step, ht] at h
      rw [separate_newline ht] at h
      cases h
      exact ⟨_, .ready⟩
  | calling f =>
      simp only [step, ht] at h
      exact between_of_advance_newline ht h
  | expr slot er => exact between_of_advance_newline ht h
  | _ =>
      -- something else must follow on the same line
      simp [step, ht, openBlock, takeName, takeSymbol, takeParamType,
        TypeName.ofToken?, DeclType.ofTokenKind?] at h

theorem between_of_reads_newline {r r' : Reader} {ts : List Token} {t : Token}
    (ht : t.kind = .newline) (h : r.Reads (ts ++ [t]) r') :
    ∃ done outer, r'.Between done outer := by
  rw [Reads, List.foldlM_append] at h
  obtain ⟨m, -, hlast⟩ := Operator.exists_of_bind_eq_ok h
  rw [List.foldlM_cons] at hlast
  obtain ⟨m', hstep, hend⟩ := Operator.exists_of_bind_eq_ok hlast
  cases hend
  obtain ⟨done, hr'⟩ := between_of_step_newline ht hstep
  exact ⟨done, _, hr'⟩

/-- Where the program may end between statements, no block is open. -/
theorem Between.of_finish? {r : Reader} {done : List Stmt}
    {outer : List (Owner × List Stmt)} (hr : r.Between done outer) {p : Program}
    (h : r.finish? = some p) : outer = [] ∧ done = p.reverse := by
  cases outer with
  | nil =>
      rw [hr.closable.finish?] at h
      cases h
      exact ⟨rfl, (List.reverse_reverse done).symm⟩
  | cons block outer =>
      obtain ⟨r', hstep, hr'⟩ := hr.closable.newline ⟨.newline, "\n", 0⟩ rfl
      rw [finish?, hstep] at h
      cases hr' with
      | ready => cases h
      | branched => cases h

end Reader

/-- Tokens of whole lines that spell a program, and behind them those of another
one. -/
theorem ofTokens_append_lines {ts us : List Token} {t : Token}
    (ht : t.kind = .newline) {p q : Program}
    (hp : Program.ofTokens (ts ++ [t]) = .ok p)
    (hq : Program.ofTokens us = .ok q) :
    Program.ofTokens (ts ++ [t] ++ us) = .ok (p ++ q) := by
  rw [Program.ofTokens] at hp
  split at hp
  · cases hp
  · next r hreads =>
      split at hp
      · next hfinish =>
          cases hp
          obtain ⟨done, outer, hr⟩ := Reader.between_of_reads_newline ht hreads
          obtain ⟨rfl, rfl⟩ := hr.of_finish? hfinish
          obtain ⟨r', hreads', hr'⟩ := (derives_of_ofTokens_eq_ok hq).reads hr
          have hall : (ts ++ [t] ++ us).foldlM Reader.step Reader.start =
              .ok r' :=
            Reader.Reads.append hreads hreads'
          rw [Program.ofTokens, hall]
          simp only [hr'.finish?, List.reverse_append, List.reverse_reverse]
      · cases hp

/-- Sources compose by lines: whole lines that are a program, followed by
another program, are the two programs one after the other, the second one
further down. -/
theorem ofSource_append_lines {a b : String} {p q : Program}
    (ha : Program.ofSource (a ++ "\n") = .ok p)
    (hb : Program.ofSource b = .ok q) :
    Program.ofSource (a ++ "\n" ++ b) = .ok (p ++
      (Renaming.lines (· + (a ++ "\n").toList.count '\n')).stmts q) := by
  have hline : (a ++ "\n").toList = a.toList ++ ['\n'] := String.toList_append
  obtain ⟨ts, hts, hp⟩ := Program.exists_scan_of_ofSource ha
  obtain ⟨us, hus, hq⟩ := Program.exists_scan_of_ofSource hb
  rw [scan_eq_scanFrom, hline] at hts
  rw [scan_eq_scanFrom] at hus
  obtain ⟨ts, t, rfl, ht⟩ := exists_last_of_scanFrom_line hts
  have hscan : scan (a ++ "\n" ++ b) = .ok (ts ++ [t] ++
      us.map (Renaming.lines (· + (a ++ "\n").toList.count '\n')).token) := by
    rw [scan_eq_scanFrom, String.toList_append, hline, List.append_assoc,
      List.singleton_append, scanFrom_line, hts, scanFrom_add, hus]
    rfl
  have hdown := ofTokens_relabel (· + (a ++ "\n").toList.count '\n') us
  rw [hq] at hdown
  rw [Program.ofSource, hscan]
  exact ofTokens_append_lines ht hp hdown

/-- Lines that end with a conditional and a comment, and a program that ends
with a `return`. -/
theorem ofSource_append_lines_conditional :
    ∃ a b : String,
      a = "if x \x7b\n\x7d # else" ∧ b = "f(x)\nreturn\n" ∧
      Program.ofSource (a ++ "\n") = .ok [.cond (.var ⟨"x", 1⟩) [] .none] ∧
      Program.ofSource b = .ok [.call ⟨"f", 1⟩ [.var ⟨"x", 1⟩], .ret 2 none] ∧
      Program.ofSource (a ++ "\n" ++ b) =
        .ok [.cond (.var ⟨"x", 1⟩) [] .none, .call ⟨"f", 3⟩ [.var ⟨"x", 3⟩],
          .ret 4 none] := by
  have ha : Program.ofSource ("if x \x7b\n\x7d # else" ++ "\n") =
      .ok [.cond (.var ⟨"x", 1⟩) [] .none] := by
    have htokens : (scan ("if x \x7b\n\x7d # else" ++ "\n")).toOption =
        some [⟨.keyword .if, "if", 1⟩, ⟨.name, "x", 1⟩,
          ⟨.symbol .lbrace, "\x7b", 1⟩, ⟨.newline, "\n", 1⟩,
          ⟨.symbol .rbrace, "\x7d", 2⟩, ⟨.newline, "\n", 2⟩] := by
      decide +kernel
    rw [Program.ofSource_of_scan htokens]
    rfl
  have hb : Program.ofSource "f(x)\nreturn\n" =
      .ok [.call ⟨"f", 1⟩ [.var ⟨"x", 1⟩], .ret 2 none] := by
    have htokens : (scan "f(x)\nreturn\n").toOption =
        some [⟨.name, "f", 1⟩, ⟨.symbol .lparen, "(", 1⟩, ⟨.name, "x", 1⟩,
          ⟨.symbol .rparen, ")", 1⟩, ⟨.newline, "\n", 1⟩,
          ⟨.keyword .return, "return", 2⟩, ⟨.newline, "\n", 2⟩] := by
      decide +kernel
    rw [Program.ofSource_of_scan htokens]
    rfl
  refine ⟨_, _, rfl, rfl, ha, hb, ?_⟩
  rw [ofSource_append_lines ha hb]
  rfl

end Quill
