import DeclSync.Text.CodePoint

/-!
# Ranges of code points

The classes of Unicode are tables of ranges. The tables of this library are those of version 14.0 of
the standard, and leave out ASCII, which each class decides by a rule.
-/

namespace DeclSync

/-- Whether a number lies in one of the ranges; both ends of a range belong to it. -/
def inRanges (ranges : List (Nat × Nat)) (n : Nat) : Bool :=
  ranges.any fun (first, last) => first ≤ n && n ≤ last

end DeclSync
