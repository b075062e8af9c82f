import DeclSync.Method.Basic
import DeclSync.Method.Description
import DeclSync.Method.Header
import DeclSync.Script.TopLevel

/-!
# Bare methods

Headers are also looked for line by line, whether a comment precedes them or not. Lines that look
like control flow, a comment, an assignment, an entry of an object, or one of two frequent calls are
passed over. A header has to begin on its line, and may run on over the two lines below.

## Main definitions

- `Bare.isPassedOver` — whether a line is passed over
- `Bare.methods` — the bare methods of a bundle
-/

namespace DeclSync

namespace Bare

/-- The number of lines that a header may take up. -/
def maxHeaderLines : Nat := 3

/-- The words that open a statement of control flow. -/
def controlFlowWords : List String :=
  ["if", "else", "for", "while", "do", "switch", "case", "default", "try", "catch", "finally",
    "return", "throw"]

/-- The marks that open a comment, or go on with one. -/
def commentMarks : List String := ["//", "/*", "*"]

/-- Calls that look like headers once their line stands alone. -/
def unrelatedCalls : List String := ["Object.assign", "console."]

/-- Whether the text begins with a word, and not merely with a longer word. -/
def beginsWithWord (t word : Text) : Bool :=
  (Text.after? word t).any fun rest => !rest.head?.any CodePoint.isWordChar

/-- Whether a trimmed line opens with a keyword of control flow, closing brackets in front of it
aside. -/
def opensControlFlow (line : Text) : Bool :=
  let opening := Text.trimStart (line.dropWhile (· = .scalar '\x7d'))
  controlFlowWords.any fun keyword => beginsWithWord opening keyword

/-- Whether a trimmed line assigns at its top level, and holds no arrow. -/
def assigns (line : Text) : Bool := line.assignment?.isSome && !line.mentions "=>"

/-- Whether a line is passed over. -/
def isPassedOver (line : Text) : Bool :=
  let line := line.trim
  line.isEmpty || opensControlFlow line || (commentMarks.any fun mark => line.beginsWith mark) ||
    assigns line || line.hasAtTopLevel ":" || (unrelatedCalls.any fun call => line.mentions call)

/-- The headers that begin on a line, when `below` are the lines under it. -/
def openedOn (line : Text) (below : List Text) : List Header :=
  let window := List.intercalate "\n" (line :: below.take (maxHeaderLines - 1))
  ((Header.occurrences window).takeWhile fun found => found.start < line.length).map (·.value)

/-- The bare headers of a list of lines. -/
def headers : List Text → List Header
  | [] => []
  | line :: below => (if isPassedOver line then [] else openedOn line below) ++ headers below

/-- The method that a bare header stands for. -/
def method (apiName : Text) (h : Header) : Method where
  name := h.name
  params := h.params.trim
  isAsync := h.isAsync
  description := Method.descriptionOf h.name none apiName

/-- The bare methods of a bundle, in its order. A name may come up more than once. -/
def methods (apiName bundle : Text) : List Method :=
  (headers bundle.unifyLineEndings.lines).map (method apiName)

end Bare

end DeclSync
