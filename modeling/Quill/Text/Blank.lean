import Quill.Text.Ranges

/-!
# Blank characters

A blank is a character with Unicode's `White_Space` property: twenty-five
characters, the line feed among them. The scanner separates words by them, and
some keywords are keywords only in front of one.
-/

namespace Quill

/-- The blank characters. -/
def blankRanges : Ranges :=
  [(0x9, 0xd), (0x20, 0x20), (0x85, 0x85), (0xa0, 0xa0), (0x1680, 0x1680),
    (0x2000, 0x200a), (0x2028, 0x2029), (0x202f, 0x202f), (0x205f, 0x205f),
    (0x3000, 0x3000)]

/-- The character has Unicode's `White_Space` property. -/
def isBlank (c : Char) : Bool :=
  blankRanges.has c

end Quill
