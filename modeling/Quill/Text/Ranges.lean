/-!
# Character ranges

A property of characters is given by the code points that have it, as a list of
inclusive ranges in ascending order. The properties are those of Unicode 17.
-/

namespace Quill

/-- Inclusive ranges of code points. -/
abbrev Ranges := List (Nat × Nat)

/-- The character lies in one of the ranges. -/
def Ranges.has (rs : Ranges) (c : Char) : Bool :=
  rs.any fun (first, last) => first ≤ c.toNat && c.toNat ≤ last

end Quill
