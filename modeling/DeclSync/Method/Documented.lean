import DeclSync.Method.Basic
import DeclSync.Method.Description
import DeclSync.Method.Header

/-!
# Documented methods

A method is documented if nothing but blanks stands between a documentation comment and its header.
The comment runs from its opening mark to the first closing mark after that, so a header is paired
with the nearest comment above it.

## Main definitions

- `Documented.read?` — reads a comment and the header that follows it
- `Documented.methods` — the documented methods of a bundle
-/

namespace DeclSync

/-- A documentation comment with its marks, and the header that follows it. -/
structure Documented where
  comment : Text
  header : Header
  deriving DecidableEq

namespace Documented

/-- Reads a documentation comment and the header that follows it. -/
def read? (t : Text) : Option (Documented × Text) := do
  let (body, afterComment) ← Text.cut? "*/" (← Text.after? "/**" t)
  let (header, rest) ← Header.read? afterComment.trimStart
  some (⟨"/**" ++ body ++ "*/", header⟩, rest)

/-- The documented headers of a text, from left to right. -/
def occurrences (t : Text) : List (Occurrence Documented) := DeclSync.occurrences (fun _ => read?) t

/-- The method that a documented header stands for. -/
def method (apiName : Text) (d : Documented) : Method where
  name := d.header.name
  params := d.header.params.trim
  isAsync := d.header.isAsync
  description := Method.descriptionOf d.header.name d.comment.commentSummary? apiName
  comment := some d.comment

/-- The documented methods of a bundle, in its order. -/
def methods (apiName bundle : Text) : List Method :=
  (occurrences bundle.unifyLineEndings).map fun found => found.value.method apiName

end Documented

end DeclSync
