import Quill.Proofs.FirstMatch
import Quill.Proofs.Printing
import Quill.Tree.Text

/-!
# What is written is read back

Two ways of writing are undone by reading. Canonical tokens, each with a blank
behind it, are scanned back one by one, on lines counted from the line ends
among them: a blank carries no token on.

The text that shows an expression has fewer blanks. Names stand in front of `(`
and `,`, operands in front of `)`, and there it matters that none of these
characters carries an operand on. The parentheses around every operation make
the text an operand itself, so it is read at the tightest level, and the
operators in it never meet.
-/

namespace Quill

open Grammar

/-! ## Tokens -/

theorem Token.Kind.stops_space (k : Token.Kind) (rest : List Char) :
    k.Stops (' ' :: rest) := by
  cases k with
  | keyword w => exact fun _ => rfl
  | symbol s => exact fun _ => by simp
  | integer =>
      rintro c ⟨⟩
      rfl
  | name =>
      rintro c ⟨⟩
      rfl
  | _ => trivial

/-- The tokens as source text, with a blank behind each. -/
def writtenOut (ts : List Token) : List Char :=
  ts.flatMap fun t => t.written ++ [' ']

theorem scanFrom_writtenOut {ts : List Token} (h : ∀ t ∈ ts, t.Canonical)
    (line : Nat) : scanFrom line (writtenOut ts) = .ok (ts.mapIdx fun i t =>
      { t with line := line + (ts.take i).countP (·.kind = .newline) }) := by
  induction ts generalizing line with
  | nil => exact scanFrom_nil line
  | cons t ts ih =>
      obtain ⟨ht, hts⟩ := List.forall_mem_cons.1 h
      have htext : writtenOut (t :: ts) =
          t.written ++ ' ' :: writtenOut ts := by
        simp [writtenOut]
      -- what stands behind the token is one line further down if the token is a
      -- line end
      have hlines : ∀ i,
          line + ((t :: ts).take (i + 1)).countP (·.kind = .newline) =
            (if t.kind = .newline then line + 1 else line) +
              (ts.take i).countP (·.kind = .newline) := by
        intro i
        rw [List.take_succ_cons, List.countP_cons]
        by_cases hkind : t.kind = .newline
        · simp only [hkind, decide_true, if_true]
          omega
        · simp only [hkind, decide_false, if_false, Bool.false_eq_true]
          omega
      rw [htext, ht.scanFrom_written (t.kind.stops_space _), scanFrom_space,
        ih hts, List.mapIdx_cons]
      simp only [hlines]
      rfl

/-- Scanning undoes writing out. Canonical tokens with a blank behind each are
scanned back with their kinds and texts, each on the line 1 plus the number of
line ends before it. -/
theorem scan_writtenOut {ts : List Token} (h : ∀ t ∈ ts, t.Canonical) :
    scan (String.ofList (writtenOut ts)) = .ok (ts.mapIdx fun i t =>
      { t with line := 1 + (ts.take i).countP (·.kind = .newline) }) := by
  rw [scan_eq_scanFrom, String.toList_ofList]
  exact scanFrom_writtenOut h 1

/-- Symbols that begin alike, words that begin like keywords, and a string with
a `#` in it. -/
theorem scan_writtenOut_alike :
    ∃ ts : List Token,
      ts = [⟨.name, "booleans", 0⟩, ⟨.symbol .assign, "=", 0⟩,
        ⟨.symbol .eqEq, "==", 7⟩, ⟨.newline, "\n", 3⟩,
          ⟨.keyword .int, "int", 0⟩, ⟨.string, "a # b", 0⟩,
        ⟨.newline, "\n", 0⟩, ⟨.name, "i", 0⟩, ⟨.keyword .if, "if", 0⟩,
          ⟨.symbol .ge, ">=", 0⟩] ∧
      (∀ t ∈ ts, t.Canonical) ∧
      writtenOut ts = "booleans = == \n int \"a # b\" \n i if >= ".toList ∧
      scan (String.ofList (writtenOut ts)) =
        .ok [⟨.name, "booleans", 1⟩, ⟨.symbol .assign, "=", 1⟩,
          ⟨.symbol .eqEq, "==", 1⟩, ⟨.newline, "\n", 1⟩,
            ⟨.keyword .int, "int", 2⟩, ⟨.string, "a # b", 2⟩,
          ⟨.newline, "\n", 2⟩, ⟨.name, "i", 3⟩, ⟨.keyword .if, "if", 3⟩,
          ⟨.symbol .ge, ">=", 3⟩] := by
  refine ⟨_, rfl, by decide, by decide, ?_⟩
  rw [scan_writtenOut (by decide)]
  rfl

/-! ## Expressions -/

/-- In front of `rest` the text is scanned, on one line, as these tokens. -/
def ScansTo (line : Nat) (cs rest : List Char) (ts : List Token) : Prop :=
  scanFrom line (cs ++ rest) =
    (scanFrom line rest).map (ts.map (Renaming.lines fun _ => line).token ++ ·)

namespace ScansTo

variable {line : Nat} {cs cs' rest : List Char} {ts ts' : List Token}

theorem append (h : ScansTo line cs (cs' ++ rest) ts)
    (h' : ScansTo line cs' rest ts') :
    ScansTo line (cs ++ cs') rest (ts ++ ts') := by
  rw [ScansTo, List.append_assoc, h, h']
  cases scanFrom line rest with
  | error e => rfl
  | ok us => simp only [Except.map, List.map_append, List.append_assoc]

theorem nil : ScansTo line [] rest [] := by
  rw [ScansTo, List.nil_append]
  cases scanFrom line rest <;> rfl

theorem space : ScansTo line [' '] rest [] := by
  rw [ScansTo, List.singleton_append, scanFrom_space]
  cases scanFrom line rest <;> rfl

theorem token {t : Token} (ht : t.Canonical) (hstop : t.kind.Stops rest)
    (hline : t.kind ≠ .newline) : ScansTo line t.written rest [t] := by
  rw [ScansTo, ht.scanFrom_written hstop, if_neg hline]
  rfl

end ScansTo

/-- No operand goes on with such a text. -/
def Delimits (rest : List Char) : Prop :=
  ∀ c, rest.head? = some c → c.isAlpha = false ∧ c.isDigit = false

theorem Delimits.stops {rest : List Char} (h : Delimits rest) {k : Token.Kind}
    (hk : startsOperand k = true) : k.Stops rest := by
  cases k with
  | keyword w =>
      have hbare : ∀ w ∈ Keyword.all, startsOperand (.keyword w) = true →
          w.needsBlank = false := by
        decide
      intro hblank
      rw [hbare w w.mem_all hk] at hblank
      cases hblank
  | symbol s =>
      have hbare : ∀ s ∈ Symbol.all, startsOperand (.symbol s) = true →
          s.takesEquals = false := by
        decide
      intro htakes
      rw [hbare s s.mem_all hk] at htakes
      cases htakes
  | integer => exact fun c hc => (h c hc).2
  | name => exact fun c hc => (h c hc).1
  | _ => trivial

mutual

/-- The tokens of the text that shows an expression. -/
def Expr.shown : Expr → List Token
  | .literal v => [v.token]
  | .var x => [x.token]
  | .binary op l r => inParens (l.shown ++ op :: r.shown)
  | .call f args => f.token :: inParens (Expr.shownArgs args)

def Expr.shownArgs : List Expr → List Token
  | [] => []
  | [e] => e.shown
  | e :: es => e.shown ++ Symbol.comma.token :: Expr.shownArgs es

end

theorem Expr.shownArgs_cons (e : Expr) {es : List Expr} (h : es ≠ []) :
    Expr.shownArgs (e :: es) =
      e.shown ++ Symbol.comma.token :: Expr.shownArgs es := by
  rw [Expr.shownArgs]
  exact h

theorem Expr.listText_cons (e : Expr) {es : List Expr} (h : es ≠ []) :
    Expr.listText (e :: es) = e.text ++ ", " ++ Expr.listText es := by
  rw [Expr.listText]
  exact h

mutual

theorem Expr.primary_shown (e : Expr) (h : AllBinary e.operators) :
    Primary e.shown e := by
  match e with
  | .literal v => exact .literal v
  | .var x => exact .var x
  | .binary op l r =>
      rw [Expr.operators] at h
      have hop : op.kind.level? ≠ none := h op List.mem_cons_self
      have hle := Token.level_le hop
      obtain ⟨s, hs, hkind⟩ := level?_eq_some_iff.1 (Token.level?_eq hop)
      have hleft := Level.primary (Expr.primary_shown l h.tail.left)
      have hright := Level.primary (Expr.primary_shown r h.tail.right)
      have hbinary :=
        Level.binary (hleft.lower (by omega) (Nat.le_refl 6)) hs hkind
          (hright.lower (by omega) (Nat.le_refl 6))
      rw [Expr.shown]
      exact .inParens (hbinary.lower (Nat.zero_le _) (by omega))
  | .call f args =>
      rw [Expr.operators] at h
      rw [Expr.shown]
      by_cases hne : args = []
      · subst hne
        exact .call (.bare rfl rfl)
      · exact .call (.applied rfl (Expr.args_shown args hne h) rfl)

theorem Expr.args_shown (es : List Expr) (hne : es ≠ [])
    (h : AllBinary (Expr.listOperators es)) : Args (Expr.shownArgs es) es := by
  match es with
  | [] => exact absurd rfl hne
  | e :: es =>
      rw [Expr.listOperators] at h
      have hfirst : Level 0 e.shown e :=
        (Level.primary (Expr.primary_shown e h.left)).lower (Nat.zero_le 6)
          (Nat.le_refl 6)
      by_cases hes : es = []
      · subst hes
        exact .one hfirst
      · rw [Expr.shownArgs_cons e hes]
        exact .more hfirst rfl (Expr.args_shown es hes h.right)

end

theorem Literal.toList_display (v : Literal) :
    v.display.toList = v.token.written := by
  obtain ⟨tag, text, line⟩ := v
  match tag with
  | .str =>
      show ("\"" ++ text ++ "\"").toList = '"' :: (text.toList ++ ['"'])
      rw [String.toList_append, String.toList_append]
      rfl
  | .int | .null | .bool true | .bool false => rfl

/-- An operand of one token. -/
theorem ScansTo.operand {line : Nat} {rest : List Char} {t : Token}
    (ht : t.Canonical) (hk : startsOperand t.kind = true)
    (hrest : Delimits rest) : ScansTo line t.written rest [t] := by
  refine .token ht (hrest.stops hk) ?_
  intro hline
  rw [hline] at hk
  cases hk

theorem Symbol.canonical_token (s : Symbol) : s.token.Canonical :=
  rfl

/-- Parentheses and commas are scanned as such whatever follows. -/
theorem ScansTo.mark (s : Symbol) (hs : s.takesEquals = false) (line : Nat)
    (rest : List Char) : ScansTo line s.spelling.toList rest [s.token] := by
  refine .token s.canonical_token ?_ nofun
  intro htakes
  rw [hs] at htakes
  cases htakes

theorem delimits_cons {c : Char} (halpha : c.isAlpha = false)
    (hdigit : c.isDigit = false) (rest : List Char) : Delimits (c :: rest) := by
  rintro d ⟨⟩
  exact ⟨halpha, hdigit⟩

theorem ScansTo.inParens {line : Nat} {cs rest : List Char} {ts : List Token}
    (h : ScansTo line cs (')' :: rest) ts) :
    ScansTo line ('(' :: (cs ++ [')'])) rest (inParens ts) := by
  have hclose : ScansTo line [')'] rest [Symbol.rparen.token] :=
    .mark .rparen rfl line rest
  have hopen : ScansTo line ['('] (cs ++ [')'] ++ rest) [Symbol.lparen.token] :=
    .mark .lparen rfl line _
  exact hopen.append (h.append hclose)

/-- A binary operator with a blank on each side. -/
theorem ScansTo.operator {line : Nat} {op : Token} (hop : op.Canonical)
    (hlevel : op.kind.level? ≠ none) {cs cs' rest : List Char}
    {ts ts' : List Token} (h : ∀ rest, Delimits rest → ScansTo line cs rest ts)
    (h' : ScansTo line cs' rest ts') :
    ScansTo line (cs ++ ' ' :: (op.text.toList ++ ' ' :: cs')) rest
      (ts ++ op :: ts') := by
  have hkind : ∀ k : Token.Kind, k.level? = none → op.kind ≠ k := by
    rintro k hk rfl
    exact hlevel hk
  have hwritten : op.written = op.text.toList := by
    rw [Token.written, if_neg (hkind .string rfl)]
  have hright : ScansTo line (' ' :: cs') rest ts' := ScansTo.space.append h'
  have hmiddle : ScansTo line (op.text.toList ++ ' ' :: cs') rest
      (op :: ts') := by
    rw [← hwritten]
    exact (ScansTo.token hop (op.kind.stops_space _)
      (hkind .newline rfl)).append hright
  exact (h _ (delimits_cons rfl rfl _)).append (ScansTo.space.append hmiddle)

mutual

theorem Expr.scansTo_text (e : Expr) (htokens : ∀ t ∈ e.tokens, t.Canonical)
    (hops : AllBinary e.operators) (line : Nat) (rest : List Char)
    (hrest : Delimits rest) : ScansTo line e.text.toList rest e.shown := by
  match e with
  | .literal v =>
      rw [Expr.text, v.toList_display, Expr.shown]
      rw [Expr.tokens] at htokens
      exact .operand (htokens _ List.mem_cons_self)
        (startsOperand_literal v) hrest
  | .var x =>
      rw [Expr.text, Expr.shown]
      rw [Expr.tokens] at htokens
      exact .operand (t := x.token) (htokens _ List.mem_cons_self) rfl hrest
  | .binary op l r =>
      rw [Expr.tokens] at htokens
      rw [Expr.operators] at hops
      obtain ⟨hleft, hothers⟩ := List.forall_mem_append.1 htokens
      obtain ⟨hop, hright⟩ := List.forall_mem_cons.1 hothers
      have hl := Expr.scansTo_text l hleft hops.tail.left line
      have hr := Expr.scansTo_text r hright hops.tail.right line (')' :: rest)
        (delimits_cons rfl rfl rest)
      have htext : (Expr.binary op l r).text.toList =
          '(' ::
            (l.text.toList ++ ' ' :: (op.text.toList ++ ' ' :: r.text.toList) ++
              [')']) := by
        rw [Expr.text]
        simp [String.toList_append]
      rw [htext, Expr.shown]
      exact (ScansTo.operator hop (hops op List.mem_cons_self) hl hr).inParens
  | .call f args =>
      rw [Expr.tokens] at htokens
      rw [Expr.operators] at hops
      obtain ⟨hname, hargs⟩ := List.forall_mem_cons.1 htokens
      have hlist := Expr.scansTo_listText args hargs hops line (')' :: rest)
        (delimits_cons rfl rfl rest)
      have htext : (Expr.call f args).text.toList =
          f.text.toList ++ '(' :: ((Expr.listText args).toList ++ [')']) := by
        rw [Expr.text]
        simp [String.toList_append]
      rw [htext, Expr.shown]
      exact (ScansTo.operand (t := f.token) hname rfl
        (delimits_cons rfl rfl _)).append hlist.inParens

theorem Expr.scansTo_listText (es : List Expr)
    (htokens : ∀ t ∈ Expr.listTokens es, t.Canonical)
    (hops : AllBinary (Expr.listOperators es)) (line : Nat) (rest : List Char)
    (hrest : Delimits rest) :
    ScansTo line (Expr.listText es).toList rest (Expr.shownArgs es) := by
  match es with
  | [] =>
      rw [Expr.listText, Expr.shownArgs]
      exact .nil
  | e :: es =>
      rw [Expr.listTokens] at htokens
      rw [Expr.listOperators] at hops
      obtain ⟨hfirst, hothers⟩ := List.forall_mem_append.1 htokens
      have he := Expr.scansTo_text e hfirst hops.left line
      by_cases hne : es = []
      · subst hne
        rw [Expr.listText, Expr.shownArgs]
        exact he rest hrest
      · have hlist :=
          Expr.scansTo_listText es hothers hops.right line rest hrest
        have hcomma : ScansTo line [',']
            (' ' :: (Expr.listText es).toList ++ rest)
            [Symbol.comma.token] := .mark .comma rfl line _
        have htext : (Expr.listText (e :: es)).toList =
            e.text.toList ++ ',' :: ' ' :: (Expr.listText es).toList := by
          rw [Expr.listText_cons e hne]
          simp [String.toList_append]
        rw [htext, Expr.shownArgs_cons e hne]
        exact (he _ (delimits_cons rfl rfl _)).append
          (hcomma.append (ScansTo.space.append hlist))

end

/-- An expression whose text can be read back: its names, constants and
operators are canonical tokens, and its operators are binary ones. -/
structure Expr.Showable (e : Expr) : Prop where
  canonical : ∀ t ∈ e.tokens, t.Canonical
  binary : AllBinary e.operators

instance (ops : List Token) : Decidable (AllBinary ops) :=
  inferInstanceAs (Decidable (∀ op ∈ ops, op.kind.level? ≠ none))

instance (e : Expr) : Decidable e.Showable :=
  decidable_of_iff ((∀ t ∈ e.tokens, t.Canonical) ∧ AllBinary e.operators)
    ⟨fun h => ⟨h.1, h.2⟩, fun h => ⟨h.canonical, h.binary⟩⟩

/-- Everything on the first line. -/
def onFirstLine : Renaming :=
  .lines fun _ => 1

theorem delimits_nil : Delimits [] :=
  nofun

theorem Expr.Showable.scan_text {e : Expr} (h : e.Showable) :
    scan ("x = " ++ e.text) =
      .ok ((Ident.token ⟨"x", 1⟩ :: Symbol.assign.token :: e.shown).map
        onFirstLine.token) := by
  have htext := e.scansTo_text h.canonical h.binary 1 [] delimits_nil
  have hassign : ScansTo 1 ('=' :: ' ' :: e.text.toList) []
      (Symbol.assign.token :: e.shown) :=
    (ScansTo.token Symbol.assign.canonical_token (Token.Kind.stops_space _ _)
      nofun).append (ScansTo.space.append htext)
  have hx : ScansTo 1 ('x' :: ' ' :: '=' :: ' ' :: e.text.toList) []
      (Ident.token ⟨"x", 1⟩ :: Symbol.assign.token :: e.shown) :=
    (ScansTo.operand (t := Ident.token ⟨"x", 1⟩) (by decide) rfl
      (delimits_cons rfl rfl _)).append (ScansTo.space.append hassign)
  rw [ScansTo, List.append_nil, scanFrom_nil] at hx
  rw [scan_eq_scanFrom, String.toList_append]
  exact hx.trans (congrArg Except.ok (List.append_nil _))

theorem Expr.Showable.ofSource_eq_ok {e : Expr} (h : e.Showable) :
    Program.ofSource ("x = " ++ e.text) =
      .ok [.assign ⟨"x", 1⟩ (onFirstLine.expr e)] := by
  have hlevel : Level 0 e.shown e :=
    (Level.primary (e.primary_shown h.binary)).lower (Nat.zero_le 6)
      (Nat.le_refl 6)
  have hassign : Statement
      (Ident.token ⟨"x", 1⟩ :: Symbol.assign.token :: e.shown)
      (.assign ⟨"x", 1⟩ e) := .assign rfl hlevel
  have hbody := Body.statements newlines_nil (.one hassign) newlines_nil
  rw [List.nil_append, List.append_nil] at hbody
  rw [Program.ofSource, h.scan_text]
  show Program.ofTokens _ = _
  rw [onFirstLine, ofTokens_relabel, Derives.ofTokens_eq_ok hbody]
  rfl

/-- The text that shows an expression is read back as that expression, on the
first line. So two expressions that are shown alike differ in their lines at
most. -/
theorem ofSource_text {e : Expr} (h : e.Showable) :
    Program.ofSource ("x = " ++ e.text) =
      .ok [.assign ⟨"x", 1⟩ (onFirstLine.expr e)] ∧
      ∀ e' : Expr, e'.Showable → e'.text = e.text →
        onFirstLine.expr e' = onFirstLine.expr e := by
  refine ⟨h.ofSource_eq_ok, fun e' h' htext => ?_⟩
  have hread := h'.ofSource_eq_ok
  rw [htext, h.ofSource_eq_ok] at hread
  simp only [Except.ok.injEq, List.cons.injEq, Stmt.assign.injEq] at hread
  exact hread.1.2.symm

/-- A grouping to the right, which the operators alone would not give, and a
call whose arguments hold a comma and a parenthesis. -/
theorem ofSource_text_grouped :
    ∃ e e' : Expr,
      e = .binary ⟨.symbol .minus, "-", 4⟩ (.var ⟨"nul", 2⟩)
        (.binary ⟨.symbol .minus, "-", 9⟩ (.call ⟨"f", 7⟩
          [.literal ⟨.str, "a, (b", 3⟩, .literal ⟨.int, "007", 0⟩]) (.literal
            ⟨.null, "null", 5⟩)) ∧
      e' = .binary ⟨.symbol .minus, "-", 1⟩ (.var ⟨"nul", 1⟩)
        (.binary ⟨.symbol .minus, "-", 1⟩ (.call ⟨"f", 1⟩
          [.literal ⟨.str, "a, (b", 1⟩, .literal ⟨.int, "007", 1⟩]) (.literal
            ⟨.null, "null", 1⟩)) ∧
      e.text = "(nul - (f(\"a, (b\", 007) - null))" ∧ e.Showable ∧ e'.Showable ∧
      e'.text = e.text ∧ onFirstLine.expr e' = onFirstLine.expr e ∧
      Program.ofSource ("x = " ++ e.text) = .ok [.assign ⟨"x", 1⟩ e'] := by
  refine ⟨_, _, rfl, rfl, by decide, by decide, by decide, by decide, ?_, ?_⟩
  · exact (ofSource_text (by decide)).2 _ (by decide) (by decide)
  · exact (ofSource_text (by decide)).1

end Quill
