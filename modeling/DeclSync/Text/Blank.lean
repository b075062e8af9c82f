import DeclSync.Text.CodePoint

/-!
# Blanks and words

The blanks of Unicode (white space and the four information separators), and the operations on a
text that depend on them: trimming, and reading its words.

## Main definitions

- `CodePoint.isBlank` — whether a code point separates words
- `Text.trim` — the text without the blanks at its ends
- `Text.words` — the runs of code points that are not blank
-/

namespace DeclSync

/-- Whether a code point is blank: a control that moves the print position, an information
separator, or a space or separator of Unicode. The zero-width characters are not blank. -/
def CodePoint.isBlank (c : CodePoint) : Bool :=
  let n := c.toNat
  if n < 0x80 then n == 0x20 || (0x09 ≤ n && n ≤ 0x0D) || (0x1C ≤ n && n ≤ 0x1F)
  else
    n == 0x85 || n == 0xA0 || n == 0x1680 || (0x2000 ≤ n && n ≤ 0x200A) || n == 0x2028 ||
      n == 0x2029 || n == 0x202F || n == 0x205F || n == 0x3000

namespace Text

/-- The text without the blanks at its beginning. -/
def trimStart (t : Text) : Text := t.dropWhile CodePoint.isBlank

/-- The text without the blanks at its end. -/
def trimEnd (t : Text) : Text := (t.reverse.dropWhile CodePoint.isBlank).reverse

/-- The text without the blanks at its ends. -/
def trim (t : Text) : Text := trimEnd (trimStart t)

/-- The runs of code points between blanks. -/
def words (t : Text) : List Text := (t.splitOnP CodePoint.isBlank).filter fun w => !w.isEmpty

/-- The words of the text with one space between each two. -/
def singleSpaced (t : Text) : Text := List.intercalate " " t.words

end Text

end DeclSync
