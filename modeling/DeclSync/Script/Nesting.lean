import DeclSync.Text.CodePoint

/-!
# Nesting in a script

A scan of a piece of script that knows two things: how many brackets are open, and whether it stands
inside a string literal. All kinds of brackets share one depth, and a closer that nothing opened
leaves the depth at zero. A literal runs from a quote to the next one of its kind, and a backslash
in it takes the next code point along.

## Main definitions

- `Nesting.State` — where a scan stands
- `Nesting.State.next` — one code point further
- `Nesting.marks` — the code points outside string literals, with their depths

`marksFrom_append` says that a scan can be cut anywhere and taken up again in the state reached
there.
-/

namespace DeclSync

namespace CodePoint

/-- Whether a code point opens and closes string literals. -/
def isQuote (c : CodePoint) : Bool := c = '\x27' || c = '"' || c = '`'

/-- Whether a code point opens a bracket. -/
def isOpener (c : CodePoint) : Bool := c = '(' || c = '[' || c = '\x7b'

/-- Whether a code point closes a bracket. -/
def isCloser (c : CodePoint) : Bool := c = ')' || c = ']' || c = '\x7d'

end CodePoint

namespace Nesting

/-- Where a scan stands: in code at some depth, or in a string literal, which may have just seen a
backslash that takes the next code point along. -/
inductive State where
  | code (depth : Nat)
  | literal (depth : Nat) (quote : CodePoint) (escaped : Bool)
  deriving DecidableEq

/-- The state after one more code point. -/
def State.next : State → CodePoint → State
  | code depth, c =>
    if c.isQuote then literal depth c false
    else if c.isCloser then code (depth - 1)
    else if c.isOpener then code (depth + 1)
    else code depth
  | literal depth quote true, _ => literal depth quote false
  | literal depth quote false, c =>
    if c = '\\' then literal depth quote true
    else if c = quote then code depth
    else literal depth quote false

/-- The depth of the next code point, unless it belongs to a string literal. A bracket has the depth
of what surrounds it. -/
def State.depthOf? : State → CodePoint → Option Nat
  | code depth, c => if c.isQuote then none else if c.isCloser then some (depth - 1) else some depth
  | literal .., _ => none

/-- A code point outside string literals: where it stands, and how many brackets are open around it.
-/
structure Mark where
  index : Nat
  char : CodePoint
  depth : Nat
  deriving DecidableEq

/-- The marks of a text whose first code point has the given index, scanned from a state. -/
def marksFrom (state : State) (index : Nat) : Text → List Mark
  | [] => []
  | c :: t =>
    ((state.depthOf? c).map fun depth => Mark.mk index c depth).toList ++
      marksFrom (state.next c) (index + 1) t

/-- The state after a whole text. -/
def stateAfter (state : State) (t : Text) : State := t.foldl State.next state

@[simp] theorem stateAfter_nil (state : State) : stateAfter state [] = state := rfl

@[simp] theorem stateAfter_cons (state : State) (c : CodePoint) (t : Text) :
    stateAfter state (c :: t) = stateAfter (state.next c) t := rfl

theorem stateAfter_append (state : State) (u t : Text) :
    stateAfter state (u ++ t) = stateAfter (stateAfter state u) t := List.foldl_append

/-- A scan can be cut anywhere and taken up again. -/
theorem marksFrom_append (state : State) (index : Nat) (u t : Text) :
    marksFrom state index (u ++ t) =
      marksFrom state index u ++ marksFrom (stateAfter state u) (index + u.length) t := by
  induction u generalizing state index with
  | nil => rfl
  | cons c u ih => simp [marksFrom, ih, Nat.add_comm, Nat.add_left_comm]

/-- The code points of a text outside string literals. -/
def marks (t : Text) : List Mark := marksFrom (.code 0) 0 t

/-- The pieces of a text between the commas outside brackets and literals, scanned from a state. -/
def commaPiecesFrom (state : State) : Text → List Text
  | [] => [[]]
  | c :: t =>
    let pieces := commaPiecesFrom (state.next c) t
    if c = ',' ∧ state.depthOf? c = some 0 then [] :: pieces
    else pieces.modifyHead (c :: ·)

/-- The pieces of a text between the commas outside brackets and literals. -/
def commaPieces (t : Text) : List Text := commaPiecesFrom (.code 0) t

end Nesting

end DeclSync
