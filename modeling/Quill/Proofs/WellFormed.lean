import Quill.Proofs.Changes
import Quill.Proofs.Lossless
import Quill.Proofs.Spelling

/-!
# Values are well formed

What a program does with a value is decided by its text, and the kinds say
nothing that the machine checks. That this is sound rests on an invariant: each
value has a text that its kind can have. The scanner gives it to the constants,
reading keeps every constant as it is, and the operators and the built-ins make
nothing else, whatever they are applied to. Since memory and code hold nothing
but such values, the invariant holds at every moment of a run.

None of these texts has a line feed in it, so a printed line is one line.
-/

namespace Quill

/-! ## Texts -/

/-- A text without quotes and line feeds. -/
def Plain (text : String) : Prop :=
  '"' ∉ text.toList ∧ '\n' ∉ text.toList

/-- The texts that a constant of each tag can have. -/
def Literal.Tag.Writes : Literal.Tag → String → Prop
  | .int, text =>
    (text.toList ≠ [] ∧ ∀ c ∈ text.toList, c.isDigit = true) ∨ ∃ w : Word,
      text = w.text
  | .str, text => Plain text
  | .bool b, text => text = if b then "true" else "false"
  | .null, text => text = "null"

/-- A value whose token is of its kind, with a text that such a token can
have. -/
structure Literal.WellFormed (v : Literal) : Prop where
  kind : (Literal.Tag.ofTokenKind? v.token.kind).map Literal.Tag.kind =
    some v.kind
  text : v.tag.Writes v.text

theorem Literal.WellFormed.of_text {v : Literal} (h : v.tag.Writes v.text) :
    v.WellFormed := by
  refine ⟨?_, h⟩
  rw [Tag.ofTokenKind?_eq_some_iff.2
    (show v.tag.tokenKind = v.token.kind from rfl)]
  rfl

theorem plain_of_isDigit {text : String}
    (h : ∀ c ∈ text.toList, c.isDigit = true) : Plain text := by
  constructor
  · intro hmem
    exact absurd (h _ hmem) (by decide)
  · intro hmem
    exact absurd (h _ hmem) (by decide)

theorem Plain.append {s t : String} (hs : Plain s) (ht : Plain t) :
    Plain (s ++ t) := by
  rw [Plain, String.toList_append, List.mem_append, List.mem_append, not_or,
    not_or]
  exact ⟨⟨hs.1, ht.1⟩, hs.2, ht.2⟩

theorem Decimal.isDigit_of_mem_repr (n : Nat) :
    ∀ c ∈ n.repr.toList, c.isDigit = true := by
  have hdigits := Decimal.digits?_repr n
  unfold Decimal.digits? at hdigits
  split at hdigits
  · next hall => exact List.all_eq_true.1 hall.2
  · cases hdigits

theorem Decimal.plain_text (z : Int) : Plain (Decimal.text z) := by
  cases z with
  | ofNat n => exact plain_of_isDigit (Decimal.isDigit_of_mem_repr n)
  | negSucc n =>
      have hsign : Plain "-" := by
        unfold Plain
        decide
      have hdigits := plain_of_isDigit (Decimal.isDigit_of_mem_repr (n + 1))
      exact hsign.append hdigits

theorem Literal.Tag.Writes.plain {tag : Tag} {text : String}
    (h : tag.Writes text) : Plain text := by
  cases tag with
  | int =>
      rcases h with ⟨-, hdigits⟩ | ⟨w, rfl⟩
      · exact plain_of_isDigit hdigits
      · exact Decimal.plain_text w.toInt
  | str => exact h
  | bool b =>
      rw [Writes] at h
      subst h
      unfold Plain
      cases b <;> decide
  | null =>
      rw [Writes] at h
      subst h
      unfold Plain
      decide

theorem Literal.WellFormed.plain {v : Literal} (h : v.WellFormed) :
    Plain v.text :=
  h.text.plain

theorem Literal.wellFormed_ofWord (w : Word) (line : Nat) :
    (Literal.ofWord w line).WellFormed :=
  .of_text (.inr ⟨w, rfl⟩)

theorem Literal.wellFormed_ofBool (b : Bool) (line : Nat) :
    (Literal.ofBool b line).WellFormed :=
  .of_text rfl

/-! ## Constants -/

/-- What the scanner makes a constant of has the text of one. -/
theorem Lexeme.wellFormed {l : Lexeme} {after : List Char}
    (hfits : l.kind.Fits l.piece after) {v : Literal} (hv : v.token = l.token) :
    v.WellFormed := by
  have hkind : l.kind = v.tag.tokenKind := (congrArg Token.kind hv).symm
  have htext : v.text = l.token.text := congrArg Token.text hv
  refine .of_text ?_
  rw [hkind] at hfits
  obtain ⟨tag, text, line⟩ := v
  dsimp only at htext hkind hfits ⊢
  subst htext
  cases tag with
  | str =>
      -- the piece has its quotes around it, the text is what stands between
      -- them
      have hpiece := piece_eq_of_string (hkind ▸ hfits) hkind
      obtain ⟨body, hbody, hplain⟩ := hfits
      rw [hpiece, List.cons.injEq, List.append_cancel_right_eq] at hbody
      rw [Literal.Tag.Writes, Plain, hbody.2]
      exact ⟨fun hmem => (hplain _ hmem).1 rfl,
        fun hmem => (hplain _ hmem).2 rfl⟩
  | int =>
      rw [← token_text_of_ne_string (by rw [hkind]; decide)] at hfits
      exact .inl hfits
  | bool b =>
      have hword : l.token.text.toList = l.piece :=
        token_text_of_ne_string (by rw [hkind]; cases b <;> decide)
      refine String.toList_inj.1 (hword.trans ?_)
      cases b with
      | true => exact hfits.1
      | false => exact hfits.1
  | null =>
      have hword : l.token.text.toList = l.piece :=
        token_text_of_ne_string (by rw [hkind]; decide)
      exact String.toList_inj.1 (hword.trans hfits.1)

/-- The constants among the tokens are well formed. -/
def ConstantsWellFormed (ts : List Token) : Prop :=
  ∀ v : Literal, v.token ∈ ts → v.WellFormed

namespace ConstantsWellFormed

variable {t : Token} {ts us : List Token}

theorem left (h : ConstantsWellFormed (ts ++ us)) : ConstantsWellFormed ts :=
  fun v hv => h v (List.mem_append_left us hv)

theorem right (h : ConstantsWellFormed (ts ++ us)) : ConstantsWellFormed us :=
  fun v hv => h v (List.mem_append_right ts hv)

theorem tail (h : ConstantsWellFormed (t :: ts)) : ConstantsWellFormed ts :=
  fun v hv => h v (List.mem_cons_of_mem t hv)

end ConstantsWellFormed

theorem constantsWellFormed_of_scan {source : String} {ts : List Token}
    (h : scan source = .ok ts) : ConstantsWellFormed ts := by
  intro v hv
  unfold scan at h
  split at h
  · next ls hls =>
      cases h
      obtain ⟨l, hl, hlv⟩ := List.mem_map.1 hv
      obtain ⟨after, hfits⟩ :=
        exists_fits_of_lexemes hls (List.mem_filter.1 hl).1
      exact Lexeme.wellFormed hfits hlv.symm
  · cases h

theorem constantsWellFormed_of_ofSource {source : String} {p : Program}
    (h : Program.ofSource source = .ok p) :
    ConstantsWellFormed (Stmt.listTokens p) := by
  unfold Program.ofSource at h
  split at h
  · next ts hts =>
      have hsub := Grammar.Body.tokens_sublist (derives_of_ofTokens_eq_ok h)
      exact fun v hv => constantsWellFormed_of_scan hts v (hsub.mem hv)
  · cases h

/-! ## Operators and built-ins -/

namespace Operator

variable {op : Token} {l r v : Literal}

theorem exact_eq_ok {z : Int} (h : exact op z = .ok v) :
    ∃ w, v = .ofWord w op.line := by
  unfold exact at h
  split at h
  · next w hw => exact ⟨w, (Except.ok.inj h).symm⟩
  · cases h

/-- Where two computations one after the other succeed, both do. -/
theorem exists_of_bind_eq_ok {ε α β : Type} {x : Except ε α}
    {f : α → Except ε β} {b : β} (h : x >>= f = .ok b) :
    ∃ a, x = .ok a ∧ f a = .ok b := by
  cases x with
  | error e => cases h
  | ok a => exact ⟨a, rfl, h⟩

theorem compare_eq_ok {rel : Int → Int → Bool}
    (h : compare op rel l r = .ok v) : ∃ b, v = .ofBool b op.line := by
  obtain ⟨ab, -, htruth⟩ := exists_of_bind_eq_ok h
  exact ⟨_, (Except.ok.inj htruth).symm⟩

theorem compute_eq_ok {f : Int → Int → Int} (h : compute op f l r = .ok v) :
    ∃ w, v = .ofWord w op.line := by
  obtain ⟨ab, -, hexact⟩ := exists_of_bind_eq_ok h
  exact exact_eq_ok hexact

theorem divide_eq_ok {f : Int → Int → Int} (h : divide op f l r = .ok v) :
    ∃ w, v = .ofWord w op.line := by
  obtain ⟨⟨a, b⟩, -, hnonzero⟩ := exists_of_bind_eq_ok h
  dsimp only at hnonzero
  split at hnonzero
  · cases hnonzero
  · obtain ⟨q, -, hexact⟩ := exists_of_bind_eq_ok hnonzero
    exact exact_eq_ok hexact

/-- An operator makes words, truth values and strings put together from two
texts. -/
theorem wellFormed_of_apply (hl : l.WellFormed) (hr : r.WellFormed)
    (h : apply op l r = .ok v) : v.WellFormed := by
  have hword : (∃ w, v = .ofWord w op.line) → v.WellFormed := by
    rintro ⟨w, rfl⟩
    exact Literal.wellFormed_ofWord w op.line
  have htruth : (∃ b, v = .ofBool b op.line) → v.WellFormed := by
    rintro ⟨b, rfl⟩
    exact Literal.wellFormed_ofBool b op.line
  unfold apply at h
  split at h
  · exact htruth ⟨_, (Except.ok.inj h).symm⟩
  · exact htruth ⟨_, (Except.ok.inj h).symm⟩
  · exact htruth ⟨_, (Except.ok.inj h).symm⟩
  · exact htruth ⟨_, (Except.ok.inj h).symm⟩
  · exact htruth (compare_eq_ok h)
  · exact htruth (compare_eq_ok h)
  · exact htruth (compare_eq_ok h)
  · exact htruth (compare_eq_ok h)
  · split at h
    · rw [← Except.ok.inj h]
      exact .of_text (hl.plain.append hr.plain)
    · exact hword (compute_eq_ok h)
  · exact hword (compute_eq_ok h)
  · exact hword (compute_eq_ok h)
  · exact hword (divide_eq_ok h)
  · exact hword (divide_eq_ok h)
  · cases h

end Operator

theorem Builtin.Value.plain_ofLiteral {v : Literal} (hv : v.WellFormed) :
    Plain (Value.ofLiteral v).text := by
  unfold ofLiteral
  split
  · split
    · exact Decimal.plain_text _
    · exact hv.plain
  · cases v.isTrue
    · exact (show Literal.Tag.Writes (.bool false) "false" from rfl).plain
    · exact (show Literal.Tag.Writes (.bool true) "true" from rfl).plain
  · exact hv.plain
  · exact (show Literal.Tag.Writes .null "null" from rfl).plain

theorem count_newline_lines {lines : List String}
    (h : ∀ line ∈ lines, line.toList.count '\n' = 1) :
    (lines.flatMap String.toList).count '\n' = lines.length := by
  induction lines with
  | nil => rfl
  | cons line rest ih =>
      obtain ⟨hline, hrest⟩ := List.forall_mem_cons.1 h
      rw [List.flatMap_cons, List.count_append, hline, ih hrest,
        List.length_cons]
      omega

theorem newline_not_mem_intercalate {texts : List String}
    (h : ∀ s ∈ texts, Plain s) : '\n' ∉ (" ".intercalate texts).toList := by
  rw [String.toList_intercalate]
  induction texts with
  | nil => exact List.not_mem_nil
  | cons s rest ih =>
      have hs := (h s (List.mem_cons_self ..)).2
      have hrest := ih fun t ht => h t (List.mem_cons_of_mem _ ht)
      cases rest with
      | nil => simpa [List.intercalate] using hs
      | cons t rest => simpa [List.intercalate, hs] using hrest

/-! ## Memory -/

/-- Every value in memory satisfies `P`, and every function `Q`. -/
def Memory.Holds (P : Literal → Prop) (Q : FunDecl → Prop) (mem : Memory) :
    Prop :=
  ∀ s ∈ mem.scopes, (∀ b ∈ s.vars, P b.2) ∧ ∀ b ∈ s.funs, Q b.2

namespace Bindings

variable {α : Type}

theorem mem_of_get? {b : Bindings α} {x : String} {v : α}
    (h : b.get? x = some v) : (x, v) ∈ b := by
  induction b with
  | nil => cases h
  | cons p b ih =>
      rw [get?] at h
      split at h
      · next hx =>
          cases h
          rw [← hx]
          exact List.mem_cons_self
      · exact List.mem_cons_of_mem _ (ih h)

theorem forall_set {P : α → Prop} {b : Bindings α} (hb : ∀ p ∈ b, P p.2)
    (x : String) {v : α} (hv : P v) : ∀ p ∈ b.set x v, P p.2 := by
  induction b with
  | nil => simpa [set] using hv
  | cons p b ih =>
      obtain ⟨hp, hrest⟩ := List.forall_mem_cons.1 hb
      rw [set]
      split
      · exact List.forall_mem_cons.2 ⟨hv, hrest⟩
      · exact List.forall_mem_cons.2 ⟨hp, ih hrest⟩

end Bindings

namespace Memory.Holds

variable {P : Literal → Prop} {Q : FunDecl → Prop} {mem : Memory}

theorem fresh : Memory.fresh.Holds P Q := by
  intro s hs
  rw [List.mem_singleton.1 hs]
  exact ⟨nofun, nofun⟩

theorem enter (h : mem.Holds P Q) : mem.enter.Holds P Q :=
  List.forall_mem_cons.2 ⟨⟨nofun, nofun⟩, h⟩

theorem leave (h : mem.Holds P Q) : mem.leave.Holds P Q :=
  fun s hs => h s (List.mem_of_mem_tail hs)

theorem inInnermost (h : mem.Holds P Q) {change : Scope → Scope}
    (hchange : ∀ s : Scope, ((∀ b ∈ s.vars, P b.2) ∧ ∀ b ∈ s.funs, Q b.2) →
      (∀ b ∈ (change s).vars, P b.2) ∧ ∀ b ∈ (change s).funs, Q b.2) :
    (mem.inInnermost change).Holds P Q := by
  obtain ⟨scopes⟩ := mem
  cases scopes with
  | nil => exact List.forall_mem_cons.2 ⟨hchange _ ⟨nofun, nofun⟩, nofun⟩
  | cons s rest =>
      obtain ⟨hs, hrest⟩ := List.forall_mem_cons.1 h
      exact List.forall_mem_cons.2 ⟨hchange s hs, hrest⟩

theorem bind (h : mem.Holds P Q) (x : String) {v : Literal} (hv : P v) :
    (mem.bind x v).Holds P Q :=
  h.inInnermost fun _ hs => ⟨Bindings.forall_set hs.1 x hv, hs.2⟩

theorem declare (h : mem.Holds P Q) {f : FunDecl} (hf : Q f) :
    (mem.declare f).Holds P Q :=
  h.inInnermost fun _ hs => ⟨hs.1, Bindings.forall_set hs.2 f.name.text hf⟩

theorem replace {scopes : List Scope} (h : Holds P Q ⟨scopes⟩) (x : String)
    {v : Literal} (hv : P v) : Holds P Q ⟨Memory.replace x v scopes⟩ := by
  induction scopes with
  | nil => exact h
  | cons s rest ih =>
      obtain ⟨hs, hrest⟩ := List.forall_mem_cons.1 h
      rw [Memory.replace]
      split
      · exact List.forall_mem_cons.2 ⟨⟨Bindings.forall_set hs.1 x hv, hs.2⟩,
          hrest⟩
      · exact List.forall_mem_cons.2 ⟨hs, ih hrest⟩

theorem assign (h : mem.Holds P Q) (x : String) {v : Literal} (hv : P v) :
    (mem.assign x v).Holds P Q := by
  unfold Memory.assign
  split
  · exact h.replace x hv
  · exact h.bind x hv

theorem of_value? (h : mem.Holds P Q) {x : String} {v : Literal}
    (hv : mem.value? x = some v) : P v := by
  obtain ⟨s, hs, hx⟩ := List.exists_of_findSome?_eq_some hv
  exact (h s hs).1 _ (Bindings.mem_of_get? hx)

theorem of_function? (h : mem.Holds P Q) {f : String} {decl : FunDecl}
    (hf : mem.function? f = some decl) : Q decl := by
  obtain ⟨s, hs, hx⟩ := List.exists_of_findSome?_eq_some hf
  exact (h s hs).2 _ (Bindings.mem_of_get? hx)

end Memory.Holds

/-! ## The machine -/

/-- The machine holds nothing but well-formed values, in its variables and in
the code of its functions, and each piece that it has printed is one line. -/
structure Machine.WellFormed (m : Machine) : Prop where
  memory : m.memory.Holds Literal.WellFormed fun f =>
    ConstantsWellFormed (Stmt.listTokens f.body)
  printed : ∀ line ∈ m.printed, line.toList.count '\n' = 1

namespace Machine.WellFormed

variable {m : Machine}

theorem fresh : Machine.fresh.WellFormed :=
  ⟨.fresh, nofun⟩

theorem print (h : m.WellFormed) {text : String} (htext : '\n' ∉ text.toList) :
    (m.print text).WellFormed := by
  refine ⟨h.memory, List.forall_mem_cons.2 ⟨?_, h.printed⟩⟩
  rw [String.toList_append, List.count_append, List.count_eq_zero.2 htext]
  decide

theorem assign (h : m.WellFormed) (x : String) {v : Literal}
    (hv : v.WellFormed) : (m.assign x v).WellFormed :=
  ⟨h.memory.assign x hv, h.printed⟩

theorem declare (h : m.WellFormed) {f : FunDecl}
    (hf : ConstantsWellFormed (Stmt.listTokens f.body)) :
    (m.declare f).WellFormed :=
  ⟨h.memory.declare hf, h.printed⟩

theorem enter (h : m.WellFormed) {bindings : Bindings Literal}
    (hbindings : ∀ b ∈ bindings, b.2.WellFormed) :
    (m.enter bindings).WellFormed := by
  refine ⟨?_, h.printed⟩
  refine List.foldlRecOn (motive := Memory.Holds _ _) bindings _
    h.memory.enter ?_
  rintro mem hmem ⟨x, v⟩ hb
  exact hmem.bind x (hbindings _ hb)

/-- Printed pieces are lines, so there are as many line feeds in the output as
pieces. -/
theorem count_output (h : m.WellFormed) :
    m.output.toList.count '\n' = m.printed.length := by
  have hlines : ∀ line ∈ m.printed.reverse, line.toList.count '\n' = 1 :=
    fun line hline => h.printed line (List.mem_reverse.1 hline)
  rw [output, String.toList_join, count_newline_lines hlines,
    List.length_reverse]

end Machine.WellFormed

/-- The arguments of a function body are well formed. -/
def Setting.WellFormed : Setting → Prop
  | .body _ args => ∀ v ∈ args, v.WellFormed
  | .same | .block => True

theorem Setting.WellFormed.enter {setting : Setting} (hs : setting.WellFormed)
    {m : Machine} (h : m.WellFormed) : (setting.enter m).WellFormed := by
  cases setting with
  | same => exact h
  | block => exact h.enter nofun
  | body f args =>
      have hcall : m.beginCall.WellFormed := ⟨h.memory, h.printed⟩
      exact hcall.enter fun b hb => hs _ (List.of_mem_zip hb).2

theorem Setting.wellFormed_leave (setting : Setting) {m : Machine}
    (h : m.WellFormed) : (setting.leave m).WellFormed := by
  cases setting with
  | same => exact h
  | block => exact ⟨h.memory.leave, h.printed⟩
  | body f args => exact ⟨h.memory.leave, h.printed⟩

/-! ## Runs -/

/-- The tokens of a part of a program. -/
def Task.tokens : {y : Yield} → Task y → List Token
  | _, .expr e => e.tokens
  | _, .arguments es => Expr.listTokens es
  | _, .call f args => f.token :: Expr.listTokens args
  | _, .stmt s => s.tokens
  | _, .branch c body next => c.tokens ++ Stmt.listTokens body ++ next.tokens
  | _, .loop c body => c.tokens ++ Stmt.listTokens body
  | _, .statements body => Stmt.listTokens body

/-- What is yielded, if the run did not fail, is well formed. -/
def Yield.WellFormed (y : Yield) (r : Except RuntimeError y.Result) : Prop :=
  ∀ v, r = .ok v → ∀ w ∈ y.list v, w.WellFormed

/-- What is demanded of a part and of the machine that it begins on. -/
structure Task.WellFormed (stack : List Setting) {y : Yield} (task : Task y)
    (m : Machine) : Prop where
  constants : ConstantsWellFormed task.tokens
  stack : ∀ setting ∈ stack, setting.WellFormed
  machine : m.WellFormed

/-- The plan keeps everything well formed. -/
def Plan.WellFormed (stack : List Setting) {y : Yield} (p : Plan y) : Prop :=
  p.Meets (fun _ setting task m =>
    task.WellFormed (setting :: stack) (setting.enter m))
    (fun y _ _ r m' => y.WellFormed r ∧ m'.WellFormed) fun r m' =>
      y.WellFormed r ∧ m'.WellFormed

namespace Plan

variable {stack : List Setting} {m : Machine} {y y' : Yield}

theorem wellFormed_done {v : y.Result} (hv : ∀ w ∈ y.list v, w.WellFormed)
    (hm : m.WellFormed) : (Plan.done (.ok v) m).WellFormed stack := by
  refine ⟨?_, hm⟩
  rintro _ ⟨⟩
  exact hv

theorem wellFormed_nothing (hm : m.WellFormed) :
    (Plan.done (.ok none : Except RuntimeError Yield.optional.Result)
      m).WellFormed stack :=
  wellFormed_done nofun hm

theorem wellFormed_error {e : RuntimeError} (hm : m.WellFormed) :
    (Plan.done (.error e : Except RuntimeError y.Result) m).WellFormed stack :=
  ⟨nofun, hm⟩

theorem wellFormed_ask {setting : Setting} {task : Task y'}
    {next : y'.Result → Machine → Plan y}
    (hstack : ∀ setting ∈ stack, setting.WellFormed)
    (hsetting : setting.WellFormed) (htask : ConstantsWellFormed task.tokens)
    (hm : m.WellFormed)
    (hnext : ∀ v m, (∀ w ∈ y'.list v, w.WellFormed) → m.WellFormed →
      (next v m).WellFormed stack) :
    (Plan.ask setting task m next).WellFormed stack := by
  refine ⟨⟨htask, List.forall_mem_cons.2 ⟨hsetting, hstack⟩, hsetting.enter hm⟩,
    ?_, ?_⟩
  · rintro e m' ⟨-, hm'⟩
    exact ⟨nofun, setting.wellFormed_leave hm'⟩
  · rintro v m' ⟨hv, hm'⟩
    exact hnext v _ (hv v rfl) (setting.wellFormed_leave hm')

/-- A part whose value is handed on. -/
theorem wellFormed_ask_last {setting : Setting} {task : Task y}
    (hstack : ∀ setting ∈ stack, setting.WellFormed)
    (hsetting : setting.WellFormed) (htask : ConstantsWellFormed task.tokens)
    (hm : m.WellFormed) :
    (Plan.ask setting task m fun v m => .done (.ok v) m).WellFormed stack :=
  wellFormed_ask hstack hsetting htask hm fun _ _ hv hm => wellFormed_done hv hm

theorem wellFormed_orElse {rest : Machine → Plan .optional}
    (hrest : ∀ m, m.WellFormed → (rest m).WellFormed stack) (v : Option Literal)
    (m : Machine) (hv : ∀ w ∈ v.toList, w.WellFormed) (hm : m.WellFormed) :
    (Plan.orElse rest v m).WellFormed stack := by
  cases v with
  | some v => exact wellFormed_done hv hm
  | none => exact hrest m hm

theorem wellFormed_builtin (b : Builtin) (f : Ident) {args : List Literal}
    (hargs : ∀ v ∈ args, v.WellFormed) (hm : m.WellFormed) :
    (Plan.builtin b f args m).WellFormed stack := by
  unfold Plan.builtin
  split
  · exact wellFormed_error hm
  · next text h =>
      rcases Builtin.call_eq_ok h with ⟨-, hline⟩ | ⟨w, hw⟩
      · cases hline
        refine wellFormed_nothing (hm.print (newline_not_mem_intercalate ?_))
        intro s hs
        obtain ⟨value, hvalue, rfl⟩ := List.mem_map.1 hs
        obtain ⟨v, hv, rfl⟩ := List.mem_map.1 hvalue
        exact Builtin.Value.plain_ofLiteral (hargs v hv)
      · cases hw
  · next v h =>
      rcases Builtin.call_eq_ok h with ⟨-, hline⟩ | ⟨w, hw⟩
      · cases hline
      · cases hw
        exact wellFormed_done
          (List.forall_mem_singleton.2 (Literal.wellFormed_ofWord w f.line)) hm

end Plan

namespace Task

open Plan

variable {stack : List Setting} {m : Machine} {limit : Option Nat}

theorem wellFormed_planExpr {e : Expr} (h : (Task.expr e).WellFormed stack m) :
    (planExpr e m).WellFormed stack := by
  obtain ⟨he, hstack, hm⟩ := h
  cases e with
  | literal v =>
      have hv : v.WellFormed := he v (by simp [tokens, Expr.tokens])
      exact wellFormed_done (List.forall_mem_singleton.2 hv) hm
  | var x =>
      rw [planExpr, Memory.read]
      split
      · next v hv =>
          exact wellFormed_done
            (List.forall_mem_singleton.2 (hm.memory.of_value? hv)) hm
      · exact wellFormed_error hm
  | binary op l r =>
      rw [tokens, Expr.tokens] at he
      refine wellFormed_ask hstack trivial he.left hm fun a m₁ ha hm₁ => ?_
      refine wellFormed_ask hstack trivial he.right.tail hm₁
        fun b m₂ hb hm₂ => ?_
      cases hv : Operator.apply op a b with
      | error e => exact wellFormed_error hm₂
      | ok v =>
          have hvalue :=
            Operator.wellFormed_of_apply (List.forall_mem_singleton.1 ha)
              (List.forall_mem_singleton.1 hb) hv
          exact wellFormed_done (List.forall_mem_singleton.2 hvalue) hm₂
  | call f args =>
      rw [tokens, Expr.tokens] at he
      refine wellFormed_ask hstack trivial he hm fun v m₁ hv hm₁ => ?_
      cases v with
      | none => exact wellFormed_error hm₁
      | some v => exact wellFormed_done hv hm₁

theorem wellFormed_planArgs {es : List Expr}
    (h : (Task.arguments es).WellFormed stack m) :
    (planArgs es m).WellFormed stack := by
  obtain ⟨hes, hstack, hm⟩ := h
  cases es with
  | nil => exact wellFormed_done nofun hm
  | cons e es =>
      rw [tokens, Expr.listTokens] at hes
      refine wellFormed_ask hstack trivial hes.left hm fun v m₁ hv hm₁ => ?_
      refine wellFormed_ask hstack trivial hes.right hm₁ fun vs m₂ hvs hm₂ => ?_
      exact wellFormed_done
        (List.forall_mem_cons.2 ⟨List.forall_mem_singleton.1 hv, hvs⟩) hm₂

theorem wellFormed_planCall {f : Ident} {args : List Expr}
    (h : (Task.call f args).WellFormed stack m) :
    (planCall limit f args m).WellFormed stack := by
  obtain ⟨hargs, hstack, hm⟩ := h
  unfold planCall
  split
  · next b hb =>
      refine wellFormed_ask hstack trivial hargs.tail hm fun vs m₁ hvs hm₁ => ?_
      exact wellFormed_builtin b f hvs hm₁
  · split
    · exact wellFormed_error hm
    · next decl hfind =>
        have hbody : ConstantsWellFormed (Stmt.listTokens decl.body) := by
          rw [Memory.find] at hfind
          split at hfind
          · next hdecl =>
              cases hfind
              exact hm.memory.of_function? hdecl
          · cases hfind
        split
        · exact wellFormed_error hm
        · split
          · exact wellFormed_error hm
          · refine wellFormed_ask hstack trivial hargs.tail hm
              fun vs m₁ hvs hm₁ => ?_
            exact wellFormed_ask_last hstack hvs hbody hm₁

theorem wellFormed_planStmt {s : Stmt} (h : (Task.stmt s).WellFormed stack m) :
    (planStmt s m).WellFormed stack := by
  obtain ⟨hs, hstack, hm⟩ := h
  cases s with
  | declare ty x init =>
      rw [tokens, Stmt.tokens] at hs
      simp only [planStmt]
      split
      · exact wellFormed_error hm
      · refine wellFormed_ask hstack trivial hs.tail.tail hm
          fun v m₁ hv hm₁ => ?_
        split
        · exact wellFormed_nothing
            (hm₁.assign x.text (List.forall_mem_singleton.1 hv))
        · exact wellFormed_error hm₁
  | function f params body =>
      rw [tokens, Stmt.tokens] at hs
      simp only [planStmt]
      split
      · exact wellFormed_error hm
      · exact wellFormed_nothing (hm.declare hs.tail.right)
  | assign x value =>
      rw [tokens, Stmt.tokens] at hs
      simp only [planStmt]
      split
      · refine wellFormed_ask hstack trivial hs.tail hm fun v m₁ hv hm₁ => ?_
        exact wellFormed_nothing
          (hm₁.assign x.text (List.forall_mem_singleton.1 hv))
      · exact wellFormed_error hm
  | ret line value => exact wellFormed_error hm
  | cond c body next =>
      rw [tokens, Stmt.tokens] at hs
      exact wellFormed_ask_last hstack trivial hs hm
  | loop c body =>
      rw [tokens, Stmt.tokens] at hs
      exact wellFormed_ask_last hstack trivial hs hm
  | call f args =>
      rw [tokens, Stmt.tokens] at hs
      exact wellFormed_ask_last hstack trivial hs hm

theorem wellFormed_planBranch {c : Expr} {body : List Stmt} {next : ElseChain}
    (h : (Task.branch c body next).WellFormed stack m) :
    (planBranch c body next m).WellFormed stack := by
  obtain ⟨hs, hstack, hm⟩ := h
  refine wellFormed_ask hstack trivial hs.left.left hm fun v m₁ hv hm₁ => ?_
  split
  · exact wellFormed_ask_last hstack trivial hs.left.right hm₁
  · have hnext : ConstantsWellFormed next.tokens := hs.right
    cases next with
    | none => exact wellFormed_nothing hm₁
    | elseIf c body next =>
        rw [ElseChain.tokens] at hnext
        exact wellFormed_ask_last hstack trivial hnext hm₁
    | otherwise body =>
        rw [ElseChain.tokens] at hnext
        exact wellFormed_ask_last hstack trivial hnext hm₁

theorem wellFormed_planLoop {c : Expr} {body : List Stmt}
    (h : (Task.loop c body).WellFormed stack m) :
    (planLoop c body m).WellFormed stack := by
  obtain ⟨hs, hstack, hm⟩ := h
  refine wellFormed_ask hstack trivial hs.left hm fun v m₁ hv hm₁ => ?_
  split
  · refine wellFormed_ask hstack trivial hs.right hm₁
      (wellFormed_orElse fun m₂ hm₂ => ?_)
    exact wellFormed_ask_last hstack trivial hs hm₂
  · exact wellFormed_nothing hm₁

theorem wellFormed_planBody {body : List Stmt}
    (h : (Task.statements body).WellFormed stack m) :
    (planBody body m).WellFormed stack := by
  obtain ⟨hs, hstack, hm⟩ := h
  unfold planBody
  split
  · exact wellFormed_nothing hm
  · exact wellFormed_nothing hm
  · rw [tokens, Stmt.listTokens, Stmt.tokens] at hs
    exact wellFormed_ask hstack trivial hs.left hm fun v m₁ hv hm₁ =>
      wellFormed_done hv hm₁
  · rw [tokens, Stmt.listTokens] at hs
    refine wellFormed_ask hstack trivial hs.left hm
      (wellFormed_orElse fun m₁ hm₁ => ?_)
    exact wellFormed_ask_last hstack trivial hs.right hm₁

end Task

/-- Parts and machines that are well formed, and what they yield and leave. -/
def wellFormed (limit : Option Nat) : Invariant limit where
  pre stack _ task m := task.WellFormed stack m
  post y _ _ r m' := y.WellFormed r ∧ m'.WellFormed
  plan_meets := by
    intro stack y task m h
    cases task with
    | expr e => exact Task.wellFormed_planExpr h
    | arguments es => exact Task.wellFormed_planArgs h
    | call f args => exact Task.wellFormed_planCall h
    | stmt s => exact Task.wellFormed_planStmt h
    | branch c body next => exact Task.wellFormed_planBranch h
    | loop c body => exact Task.wellFormed_planLoop h
    | statements body => exact Task.wellFormed_planBody h

theorem Stmt.listTokens_append (ss rest : List Stmt) :
    Stmt.listTokens (ss ++ rest) =
      Stmt.listTokens ss ++ Stmt.listTokens rest := by
  induction ss with
  | nil => rfl
  | cons s ss ih =>
      rw [List.cons_append, Stmt.listTokens, Stmt.listTokens, ih,
        List.append_assoc]

theorem Program.wellFormed_run {limit : Option Nat} {n : Nat} {p : Program}
    {m : Machine} (hp : ConstantsWellFormed (Stmt.listTokens p))
    (hm : m.WellFormed) :
    (runProgram limit n p m).Ends fun _ m' => m'.WellFormed := by
  induction p generalizing m with
  | nil => exact Outcome.ends_ended hm
  | cons s rest ih =>
      rw [Stmt.listTokens] at hp
      have hs : (Task.stmt s).WellFormed [] m := ⟨hp.left, nofun, hm⟩
      have hrun := (wellFormed limit).ends n hs
      exact hrun.andThen (fun _ _ h => h.2) fun _ m₁ h₁ => ih hp.right h₁.2

/-- Every value of a program that comes from a source text is well formed: at
every moment of its run the values in memory and the arguments of the bodies
that are running are, and so is whatever is yielded. And for each call of
`print` that succeeded there is exactly one line feed in the output. -/
theorem values_wellFormed {source : String} {p : Program}
    (h : Program.ofSource source = .ok p) (limit : Option Nat) :
    (∀ {stack : List Setting} {y : Yield} {task : Task y} {m : Machine},
      p.Reaches limit .fresh stack task m →
        m.WellFormed ∧ (∀ setting ∈ stack, setting.WellFormed) ∧
        ∀ {r m'}, task.Runs limit m r m' → y.WellFormed r ∧ m'.WellFormed) ∧
    (∀ {n : Nat} {r : Except RuntimeError Unit} {m : Machine},
      runProgram limit n p .fresh = .ended r m →
        m.WellFormed ∧
          m.output.toList.count '\n' = p.prints limit n .fresh) := by
  have hp := constantsWellFormed_of_ofSource h
  refine ⟨?_, ?_⟩
  · rintro stack y task m ⟨before, s, after, n, m₁, rfl, hbefore, hreaches⟩
    rw [Stmt.listTokens_append, Stmt.listTokens] at hp
    have hm₁ := Program.wellFormed_run hp.left .fresh _ m₁ hbefore
    have hs : (Task.stmt s).WellFormed [] m₁ := ⟨hp.right.left, nofun, hm₁⟩
    have htask := (wellFormed limit).reaches hs hreaches
    exact ⟨htask.machine, htask.stack, (wellFormed limit).runs htask⟩
  · intro n r m hrun
    have hm := Program.wellFormed_run hp .fresh r m hrun
    refine ⟨hm, ?_⟩
    rw [hm.count_output, Program.printed_run hrun]
    exact Nat.zero_add _

/-- A string and an integer with leading zeros, put together and printed. -/
theorem values_wellFormed_concatenation :
    ∃ p m, Program.ofSource "print(\"a\" + 007)" = .ok p ∧
      runProgram none 6 p .fresh = .ended (.ok ()) m ∧ m.output = "a007\n" ∧
        m.WellFormed ∧
      p.prints none 6 .fresh = 1 ∧
        m.output.toList.count '\n' = p.prints none 6 .fresh := by
  have htokens : (scan "print(\"a\" + 007)").toOption =
      some [⟨.name, "print", 1⟩, ⟨.symbol .lparen, "(", 1⟩, ⟨.string, "a", 1⟩,
        ⟨.symbol .plus, "+", 1⟩, ⟨.integer, "007", 1⟩,
        ⟨.symbol .rparen, ")", 1⟩] := by
    decide +kernel
  have hsource : Program.ofSource "print(\"a\" + 007)" =
      .ok [.call ⟨"print", 1⟩
        [.binary ⟨.symbol .plus, "+", 1⟩ (.literal ⟨.str, "a", 1⟩)
          (.literal ⟨.int, "007", 1⟩)]] := by
    rw [Program.ofSource]
    cases hscan : scan "print(\"a\" + 007)" with
    | error e =>
        rw [hscan] at htokens
        cases htokens
    | ok ts =>
        rw [hscan] at htokens
        cases htokens
        rfl
  obtain ⟨hm, hcount⟩ := (values_wellFormed hsource none).2 (n := 6) rfl
  exact ⟨_, _, hsource, rfl, by decide, hm, by decide, hcount⟩

end Quill
