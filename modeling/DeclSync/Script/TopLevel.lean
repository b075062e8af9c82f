import DeclSync.Script.Nesting

/-!
# The top level of a script fragment

What stands outside all brackets and string literals of a fragment, such as a line or one parameter.

## Main definitions

- `Text.assignment?` — the offset of the first assignment
- `Text.hasAtTopLevel` — whether a code point stands at the top level
-/

namespace DeclSync

namespace Text

/-- Whether an `=` between two code points is part of a comparison or of an arrow. -/
def isComparison (behind ahead : Option CodePoint) : Bool :=
  (ahead.any fun (c : CodePoint) => c = '=' || c = '>') ||
    behind.any fun (c : CodePoint) => c = '=' || c = '!' || c = '<' || c = '>'

/-- The offset of the first assignment in a text that is scanned from a state and stands after the
code point `behind`. -/
def assignmentFrom? (state : Nesting.State) (behind : Option CodePoint) : Text → Option Nat
  | [] => none
  | c :: t =>
    if c = '=' ∧ state.depthOf? c = some 0 ∧ !isComparison behind t.head? then some 0
    else (assignmentFrom? (state.next c) (some c) t).map (· + 1)

/-- The offset of the first `=` at the top level that assigns; that of a compound assignment is its
last code point. -/
def assignment? (t : Text) : Option Nat := assignmentFrom? (.code 0) none t

/-- Whether `wanted` is one code point, and that code point stands at the top level. -/
def hasAtTopLevel (t wanted : Text) : Bool :=
  (Nesting.marks t).any fun m => [m.char] = wanted && m.depth = 0

end Text

end DeclSync
