import Quill.Diagnostic
import Quill.Text.Blank
import Quill.Token.Basic

/-!
# Scanning

A text is cut into lexemes from left to right. At each point the scanner takes
the first kind of `Token.Kind.all` that fits there, and of that kind as much as
the kind takes; there is no longest match among kinds and no second thought.
A lexeme keeps its piece of the text as written, so the pieces put together are
the text again, and tokens are what is left of the lexemes once blanks and
comments are dropped.

`Token.Kind.width` is the whole lexical grammar: how many characters of the
text ahead belong to a kind, none if it does not fit.
-/

namespace Quill

/-- Whether the text ahead starts with a blank; its end does not count as
one. -/
def startsBlank : List Char → Bool
  | [] => false
  | c :: _ => isBlank c

/-- How many characters at the head of `cs` make up a token of kind `k`; zero if
they make up none. -/
def Token.Kind.width (k : Token.Kind) (cs : List Char) : Nat :=
  match k with
  | .newline => if cs.head? = some '\n' then 1 else 0
  | .blank => if startsBlank cs ∧ cs.head? ≠ some '\n' then 1 else 0
  | .comment =>
    if cs.head? = some '#' then (cs.takeWhile (· ≠ '\n')).length else 0
  | .keyword w =>
    let word := w.spelling.toList
    if word.isPrefixOf cs ∧
      (w.needsBlank → startsBlank (cs.drop word.length)) then word.length
    else 0
  | .symbol s =>
    let word := s.spelling.toList
    if word.isPrefixOf cs then word.length else 0
  | .string =>
    match cs with
    | '"' :: rest =>
      let body := rest.takeWhile fun c => c ≠ '"' && c ≠ '\n'
      if rest[body.length]? = some '"' then body.length + 2 else 0
    | _ => 0
  | .integer => (cs.takeWhile Char.isDigit).length
  | .name => (cs.takeWhile Char.isAlpha).length

/-- The kind that the scanner takes at the head of `cs`: the first one that
fits. -/
def Token.Kind.first? (cs : List Char) : Option Token.Kind :=
  Token.Kind.all.find? fun k => 0 < k.width cs

theorem Token.Kind.width_pos_of_first? {cs : List Char} {k : Token.Kind}
    (h : Token.Kind.first? cs = some k) : 0 < k.width cs := by
  have := List.find?_some h
  simpa using this

/-- A piece of text as written, with its kind and the line on which it
begins. -/
structure Lexeme where
  kind : Token.Kind
  piece : List Char
  line : Nat
  deriving DecidableEq, Repr

/-- The token a lexeme stands for: a string constant loses its quotes. -/
def Lexeme.token (l : Lexeme) : Token where
  kind := l.kind
  text :=
    String.ofList (if l.kind = .string then (l.piece.drop 1).dropLast
      else l.piece)
  line := l.line

/-- The line on which the text after a lexeme begins. -/
def Lexeme.nextLine (l : Lexeme) : Nat :=
  if l.kind = .newline then l.line + 1 else l.line

/-- Cuts `cs`, which begins on line `line`, into lexemes. Where no kind fits,
the text up to the next blank is reported. -/
def lexemes (line : Nat) (cs : List Char) : Except SyntaxError (List Lexeme) :=
  match cs with
  | [] => .ok []
  | c :: rest =>
    match _h : Token.Kind.first? (c :: rest) with
    | none =>
      .error ⟨.unknownCharacter, line,
        some (String.ofList ((c :: rest).takeWhile (!isBlank ·)))⟩
    | some k =>
      let n := k.width (c :: rest)
      let l : Lexeme := ⟨k, (c :: rest).take n, line⟩
      match lexemes l.nextLine ((c :: rest).drop n) with
      | .ok ls => .ok (l :: ls)
      | .error e => .error e
termination_by cs.length
decreasing_by
  have := Token.Kind.width_pos_of_first? _h
  simp only [List.length_drop, List.length_cons]
  omega

/-- The tokens of a source text: its lexemes without blanks and comments. -/
def scan (source : String) : Except SyntaxError (List Token) :=
  match lexemes 1 source.toList with
  | .ok ls => .ok ((ls.filter (!·.kind.isTrivia)).map Lexeme.token)
  | .error e => .error e

end Quill
