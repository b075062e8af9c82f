import DeclSync.Text.Blank

/-!
# String literals of a script

Text is put into a string literal on one line: its words with one space between them, and a
backslash before every backslash and quote.

## Main definitions

- `Text.literalBody` — what stands between the quotes of a literal for a text
-/

namespace DeclSync

/-- How a code point stands in a string literal. -/
def CodePoint.inLiteral (c : CodePoint) : Text :=
  if c = '\\' ∨ c = '\x27' ∨ c = '"' then ['\\', c] else [c]

/-- What stands between the quotes of a literal for a text. -/
def Text.literalBody (t : Text) : Text := t.singleSpaced.flatMap CodePoint.inLiteral

end DeclSync
