import Quill.Proofs.FirstMatch
import Quill.Proofs.WellFormed

/-!
# A message tells which diagnostic it is

The offending text stands in a message as it is, between quotes that nothing in
it is escaped for, so it may hold quotes of its own, the words that introduce
the line, and numbers. A message can be taken apart all the same, because
nothing else in it can hold what the text may hold.

The line is taken from the back: its digits end at the first character that is
none, and in front of them stands a blank whatever the offending text is. The
message proper is taken from the front: no fault has a quote in its message, so
the first quote opens the offending text, and a message without any has none.
-/

namespace Quill

/-! ## Taking a text apart -/

/-- The first character outside a class stands at one place. -/
theorem eq_of_append_cons_eq {p : Char → Bool} {c : Char} (hc : p c = false)
    {xs ys as bs : List Char} (hxs : ∀ x ∈ xs, p x = true)
    (hys : ∀ y ∈ ys, p y = true) (h : xs ++ c :: as = ys ++ c :: bs) :
    xs = ys ∧ as = bs := by
  have hstop : ∀ (rest : List Char) (d : Char),
      (c :: rest).head? = some d → p d = false := by
    intro rest d hd
    rw [← Option.some.inj hd]
    exact hc
  have heq : xs = ys := by
    rw [← takeWhile_append_of_stop hxs (hstop as), h,
      takeWhile_append_of_stop hys (hstop bs)]
  subst heq
  exact ⟨rfl, List.tail_eq_of_cons_eq (List.append_cancel_left h)⟩

/-- A number behind a blank can be told from what stands in front of it. -/
theorem eq_of_append_repr_eq {xs ys : List Char} {n m : Nat}
    (h : xs ++ ' ' :: n.repr.toList = ys ++ ' ' :: m.repr.toList) :
    xs = ys ∧ n = m := by
  have hdigits : ∀ (k : Nat), ∀ c ∈ k.repr.toList.reverse,
      c.isDigit = true := by
    intro k c hc
    exact Decimal.isDigit_of_mem_repr k c (List.mem_reverse.1 hc)
  have hreverse := congrArg List.reverse h
  rw [List.reverse_append, List.reverse_append, List.reverse_cons,
    List.reverse_cons, List.append_assoc, List.append_assoc,
    List.singleton_append, List.singleton_append] at hreverse
  obtain ⟨hnumber, hfront⟩ :=
    eq_of_append_cons_eq (by decide) (hdigits n) (hdigits m) hreverse
  refine ⟨List.reverse_inj.1 hfront, Option.some.inj ?_⟩
  rw [← Decimal.digits?_repr n, List.reverse_inj.1 hnumber,
    Decimal.digits?_repr]

/-! ## Located messages -/

/-- What stands between a message and the words that introduce the line. -/
def quotedText : Option String → List Char
  | some text => ' ' :: '\'' :: (text.toList ++ ['\''])
  | none => []

theorem toList_locatedText (message : String) (line : Nat)
    (found : Option String) : (locatedText message line found).toList =
      message.toList ++ quotedText found ++ " AT LINE".toList ++
        ' ' :: line.repr.toList := by
  have hline : " AT LINE ".toList = " AT LINE".toList ++ [' '] := by decide
  cases found with
  | none =>
      simp only [locatedText, quotedText, String.toList_append, hline,
        List.append_assoc]
      rfl
  | some text =>
      simp only [locatedText, quotedText, String.toList_append, hline,
        List.cons_append, List.append_assoc]
      rfl

/-- The first quote opens the offending text. -/
theorem eq_of_append_quotedText_eq {xs ys : List Char} (hxs : '\'' ∉ xs)
    (hys : '\'' ∉ ys) {found found' : Option String}
    (h : xs ++ quotedText found = ys ++ quotedText found') :
    xs = ys ∧ found = found' := by
  have hblank : ∀ {zs : List Char}, '\'' ∉ zs → ∀ z ∈ zs ++ [' '],
      (z != '\'') = true := by
    intro zs hzs z hz
    rcases List.mem_append.1 hz with hz | hz
    · exact bne_iff_ne.2 fun heq => hzs (heq ▸ hz)
    · rw [List.mem_singleton.1 hz]
      decide
  have hquote : ∀ (zs : List Char) (text : String),
      '\'' ∈ zs ++ quotedText (some text) := by
    intro zs text
    simp [quotedText]
  match found, found' with
  | none, none =>
      simp only [quotedText, List.append_nil] at h
      exact ⟨h, rfl⟩
  | some text, none =>
      have hmem := hquote xs text
      rw [h, quotedText, List.append_nil] at hmem
      exact absurd hmem hys
  | none, some text =>
      have hmem := hquote ys text
      rw [← h, quotedText, List.append_nil] at hmem
      exact absurd hmem hxs
  | some text, some text' =>
      rw [quotedText, quotedText, List.append_cons xs, List.append_cons ys] at h
      obtain ⟨hmessage, htext⟩ :=
        eq_of_append_cons_eq (p := (· != '\'')) (by decide) (hblank hxs)
          (hblank hys) h
      refine ⟨List.append_cancel_right hmessage,
        congrArg some (String.toList_inj.1 ?_)⟩
      exact List.append_cancel_right htext

theorem eq_of_locatedText_eq {message message' : String}
    (hmessage : '\'' ∉ message.toList) (hmessage' : '\'' ∉ message'.toList)
    {line line' : Nat} {found found' : Option String}
    (h : locatedText message line found = locatedText message' line' found') :
    message = message' ∧ line = line' ∧ found = found' := by
  have htext := congrArg String.toList h
  rw [toList_locatedText, toList_locatedText] at htext
  obtain ⟨hfront, hline⟩ := eq_of_append_repr_eq htext
  obtain ⟨heq, hfound⟩ :=
    eq_of_append_quotedText_eq hmessage hmessage'
      (List.append_cancel_right hfront)
  exact ⟨String.toList_inj.1 heq, hline, hfound⟩

/-! ## The messages of the faults -/

/-- Where a search for its text finds every entry of a table, no two entries
have one text. -/
theorem eq_of_find?_eq_some {α : Type} (all : List α) {text : α → String}
    (hfind : ∀ a, all.find? (fun b => text b == text a) = some a) {a b : α}
    (h : text a = text b) : a = b := by
  have hsame := hfind a
  rw [h, hfind b] at hsame
  exact (Option.some.inj hsame).symm

theorem SyntaxFault.quote_not_mem_message (fault : SyntaxFault) :
    '\'' ∉ fault.message.toList := by
  cases fault <;> decide

theorem SyntaxFault.eq_of_message_eq {fault fault' : SyntaxFault}
    (h : fault.message = fault'.message) : fault = fault' := by
  refine eq_of_find?_eq_some all (fun f => ?_) h
  cases f <;> decide

theorem RuntimeFault.quote_not_mem_message (fault : RuntimeFault) :
    '\'' ∉ fault.message.toList := by
  cases fault <;> decide

theorem RuntimeFault.eq_of_message_eq {fault fault' : RuntimeFault}
    (h : fault.message = fault'.message) : fault = fault' := by
  refine eq_of_find?_eq_some all (fun f => ?_) h
  cases f <;> decide

theorem SyntaxError.eq_of_text_eq {e e' : SyntaxError} (h : e.text = e'.text) :
    e = e' := by
  obtain ⟨fault, line, found⟩ := e
  obtain ⟨fault', line', found'⟩ := e'
  obtain ⟨hmessage, rfl, rfl⟩ :=
    eq_of_locatedText_eq fault.quote_not_mem_message
      fault'.quote_not_mem_message h
  rw [SyntaxFault.eq_of_message_eq hmessage]

theorem RuntimeError.eq_of_text_eq {e e' : RuntimeError}
    (h : e.text = e'.text) : e = e' := by
  obtain ⟨fault, line, found⟩ := e
  obtain ⟨fault', line', found'⟩ := e'
  obtain ⟨hmessage, rfl, rfl⟩ :=
    eq_of_locatedText_eq fault.quote_not_mem_message
      fault'.quote_not_mem_message h
  rw [RuntimeFault.eq_of_message_eq hmessage]

theorem Diagnostic.toList_text_parsing (e : SyntaxError) :
    (Diagnostic.parsing e).text.toList =
      "SYNTAX ERROR: ".toList ++ e.text.toList :=
  String.toList_append

theorem Diagnostic.toList_text_running (e : RuntimeError) :
    (Diagnostic.running e).text.toList =
      "RUNTIME ERROR: ".toList ++ e.text.toList :=
  String.toList_append

/-- Two diagnostics with one text are one: phase, fault, line and offending text
can be read off it, whatever the offending text is. -/
theorem Diagnostic.text_inj (d d' : Diagnostic) :
    d.text = d'.text ↔ d = d' := by
  refine ⟨fun h => ?_, congrArg Diagnostic.text⟩
  have hchars := congrArg String.toList h
  match d, d' with
  | .parsing e, .parsing e' =>
      rw [toList_text_parsing, toList_text_parsing] at hchars
      have htext := String.toList_inj.1 (List.append_cancel_left hchars)
      rw [SyntaxError.eq_of_text_eq htext]
  | .running e, .running e' =>
      rw [toList_text_running, toList_text_running] at hchars
      have htext := String.toList_inj.1 (List.append_cancel_left hchars)
      rw [RuntimeError.eq_of_text_eq htext]
  | .parsing e, .running e' =>
      -- the phases differ in their first letter
      rw [toList_text_parsing, toList_text_running] at hchars
      have hletter : some 'S' = some 'R' := congrArg List.head? hchars
      exact absurd hletter (by decide)
  | .running e, .parsing e' =>
      rw [toList_text_running, toList_text_parsing] at hchars
      have hletter : some 'R' = some 'S' := congrArg List.head? hchars
      exact absurd hletter (by decide)

/-- An offending text may imitate the end of a message. -/
example : (Diagnostic.parsing ⟨.expectId, 2, some "x' AT LINE 1"⟩).text =
    "SYNTAX ERROR: EXPECTED IDENTIFIER 'x' AT LINE 1' AT LINE 2" := by
  decide

end Quill
