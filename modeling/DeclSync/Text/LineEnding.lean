import DeclSync.Text.CodePoint

/-!
# Line endings

Three line endings are in use: LF, CR LF and a lone CR. Texts are compared and searched in a form
where every line ends with LF; a file keeps the ending that it uses most.

## Main definitions

- `LineEnding` — the three line endings
- `Text.unifyLineEndings` — the text with every line ending turned into LF
- `LineEnding.prevalent` — the line ending that a text uses most
- `Text.lines` — the pieces between LFs
-/

namespace DeclSync

/-- The ways in which a line ends. -/
inductive LineEnding where
  | lf
  | crlf
  | cr
  deriving DecidableEq

namespace LineEnding

/-- The code points that make up a line ending. -/
def text : LineEnding → Text
  | lf => "\n"
  | crlf => "\r\n"
  | cr => "\r"

end LineEnding

namespace Text

/-- Drops the CR of every CR LF. -/
def joinCrLf : Text → Text
  | [] => []
  | [c] => [c]
  | c :: d :: t => if c = '\r' ∧ d = '\n' then joinCrLf (d :: t) else c :: joinCrLf (d :: t)

/-- Turns every line ending into LF. -/
def unifyLineEndings (t : Text) : Text :=
  (joinCrLf t).map fun (c : CodePoint) => if c = '\r' then '\n' else c

/-- The number of places where a CR is followed by an LF. -/
def crlfCount : Text → Nat
  | [] => 0
  | [_] => 0
  | c :: d :: t => (if c = '\r' ∧ d = '\n' then 1 else 0) + crlfCount (d :: t)

/-- The pieces between LFs; there is one more of them than there are LFs. -/
def lines (t : Text) : List Text := t.splitOn (.scalar '\n')

/-- The text with every LF replaced by another line break. -/
def withLineBreak (lineBreak t : Text) : Text :=
  t.flatMap fun (c : CodePoint) => if c = '\n' then lineBreak else [c]

end Text

/-- The line ending that is used most in a text: CR LF if it outnumbers both others, and otherwise a
lone CR if it outnumbers LF. -/
def LineEnding.prevalent (t : Text) : LineEnding :=
  let crlfs := t.crlfCount
  let crs := t.count (.scalar '\r') - crlfs
  let lfs := t.count (.scalar '\n') - crlfs
  if crlfs > max crs lfs then crlf else if crs > lfs then cr else lf

end DeclSync
