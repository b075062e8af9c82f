import DeclSync.Script.Identifier
import DeclSync.Text.Blank
import DeclSync.Text.Occurrence
import DeclSync.Text.WordChar

/-!
# Method headers

A header is `static`, `async` and `function` in this order, each of them optional, a name, a
parameter list between round brackets without a closing bracket in it, and an opening curly bracket.
Blanks stand after each word and may stand between the other parts. Each of the three words
qualifies the name only if a name follows it; else it is itself the name.

A header has at most one reading, so it is read without trying again.

## Main definitions

- `Header` — what a header says
- `Header.read?` — reads a header that opens a text
- `Header.occurrences` — the headers of a text that do not begin inside a word
-/

namespace DeclSync

/-- What a header says: whether it is asynchronous, the name, and the parameter list as written. -/
structure Header where
  isAsync : Bool
  name : Text
  params : Text
  deriving DecidableEq

namespace Header

/-- The text after a word that qualifies a name, from that name on. -/
def afterQualifier? (word t : Text) : Option Text :=
  match Text.after? word t with
  | some (c :: rest) =>
    let name := Text.trimStart rest
    if c.isBlank && name.beginsIdentifier then some name else none
  | _ => none

/-- The text without the qualifying word that it may begin with. -/
def dropQualifier (word t : Text) : Text := (afterQualifier? word t).getD t

/-- Reads the parameter list and the opening curly bracket. -/
def readParams? (t : Text) : Option (Text × Text) := do
  let inside ← Text.after? "(" t
  let afterList ← Text.after? ")" (inside.dropWhile (· ≠ .scalar ')'))
  let rest ← Text.after? "\x7b" afterList.trimStart
  some (inside.takeWhile (· ≠ .scalar ')'), rest)

/-- Reads a header that opens a text, and gives the rest of the text. -/
def read? (t : Text) : Option (Header × Text) :=
  let t := dropQualifier "static" t
  let isAsync := (afterQualifier? "async" t).isSome
  let t := dropQualifier "function" (dropQualifier "async" t)
  if t.beginsIdentifier then
    let afterName := Text.trimStart (t.dropWhile CodePoint.isIdentifierChar)
    (readParams? afterName).map fun (params, rest) =>
      (⟨isAsync, t.takeWhile CodePoint.isIdentifierChar, params⟩, rest)
  else none

/-- Whether a code point in front of a header would make it begin inside a word. -/
def joins (c : CodePoint) : Bool := c.isWordChar || c = '$'

/-- Reads a header that does not begin inside a word. -/
def readAfter? : Reader Header := fun behind t => if behind.any joins then none else read? t

/-- The headers of a text, from left to right. -/
def occurrences (t : Text) : List (Occurrence Header) := DeclSync.occurrences readAfter? t

end Header

end DeclSync
