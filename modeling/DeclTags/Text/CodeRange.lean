set_option autoImplicit false

/-! # Ranges of code points

Classes of characters are given as lists of closed ranges of code points. -/

namespace DeclTags.Text

/-- A closed range of code points: the first and the last. -/
abbrev CodeRange := Nat × Nat

/-- Whether `c` lies in one of the ranges. -/
def inRanges (ranges : List CodeRange) (c : Char) : Bool :=
  ranges.any fun r => r.1 ≤ c.toNat && c.toNat ≤ r.2

end DeclTags.Text
