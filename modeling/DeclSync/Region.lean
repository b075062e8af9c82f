import DeclSync.Text.LineEnding
import DeclSync.Text.Occurrence

/-!
# Regions

The region of a consumer file that is generated: from a line that starts with the anchor through the
end marker of the first line after the anchor that starts with it. Only LF ends a line here. The
block takes the place of the first region.

## Main definitions

- `Region.read?` — reads a region that opens a text
- `Region.spans` — where the regions of a text are
- `Region.replace?` — puts a block in the place of the first region
-/

namespace DeclSync

namespace Region

/-- The mark that ends a region unless another is asked for. -/
def standardEndMarker : Text := "];"

/-- The rest of a text after the first line start where a mark stands. The text itself starts a line
if `atLineStart`. -/
def afterLineMark? (mark : Text) (atLineStart : Bool) : Text → Option Text
  | [] => if atLineStart then Text.after? mark [] else none
  | c :: t =>
    match if atLineStart then Text.after? mark (c :: t) else none with
    | some rest => some rest
    | none => afterLineMark? mark (c = '\n') t

/-- Whether a line starts right after a piece of text that itself starts at a line start. -/
def endsLine (t : Text) : Bool := t.getLast?.all fun (c : CodePoint) => c = '\n'

/-- Reads a region that opens a text. -/
def read? (anchor endMarker : Text) : Reader Unit := fun behind t => do
  guard (behind.all fun (c : CodePoint) => c = '\n')
  let inside ← Text.after? anchor t
  let rest ← afterLineMark? endMarker (endsLine anchor) inside
  some ((), rest)

/-- The offsets where lines start, in a part of a text that begins at `offset`. -/
def lineStartsFrom (offset : Nat) : Text → List Nat
  | [] => []
  | c :: t =>
    let later := lineStartsFrom (offset + 1) t
    if c = '\n' then (offset + 1) :: later else later

/-- The regions between two empty marks: every line start is one, and so is every line together with
its LF. -/
def unmarkedSpans (t : Text) : List Span :=
  let starts := 0 :: lineStartsFrom 0 t
  ⟨0, 0⟩ :: (starts.zip starts.tail).flatMap fun (start, next) => [⟨start, next⟩, ⟨next, next⟩]

/-- The regions of a text, from left to right and without overlap. -/
def spans (anchor endMarker t : Text) : List Span :=
  if anchor.isEmpty && endMarker.isEmpty then unmarkedSpans t
  else (occurrences (read? anchor endMarker) t).map (·.toSpan)

/-- The text with a block in the place of its first region, the LFs of the block turned into a line
break; nothing if there is no region. -/
def replace? (anchor endMarker block lineBreak t : Text) : Option Text :=
  (spans anchor endMarker t).head?.map fun region =>
    t.take region.start ++ Text.withLineBreak lineBreak block ++ t.drop region.stop

end Region

end DeclSync
