import Quill.Text.Extending
import Quill.Text.Ignorable
import Quill.Text.Printable

/-!
# Escaped text

Listings show a text on one line and without invisible characters. The usual
controls, quotes and the backslash are escaped by a backslash; whatever cannot
be shown, or would not be seen, is given by its code point in hexadecimal. A
mark that extends the character before it is shown as it is unless it comes
first.
-/

namespace Quill

/-- A character by its code point. -/
def codeEscape (c : Char) : String :=
  "\\u\x7b" ++ String.ofList (Nat.toDigits 16 c.toNat) ++ "\x7d"

/-- A character of an escaped text; `first` if no character stands before it. -/
def escapedChar (first : Bool) (c : Char) : String :=
  match c with
  | '\x00' => "\\0"
  | '\t' => "\\t"
  | '\n' => "\\n"
  | '\r' => "\\r"
  | '\x27' => "\\'"
  | '"' => "\\\""
  | '\\' => "\\\\"
  | _ =>
    if isPrintable c && !isIgnorable c && !(first && isExtending c) then
      c.toString
    else codeEscape c

/-- The text with its unprintable characters escaped. -/
def escapedText (s : String) : String :=
  match s.toList with
  | [] => ""
  | c :: cs => escapedChar true c ++ String.join (cs.map (escapedChar false))

end Quill
