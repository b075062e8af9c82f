import DeclSync.Text.CodePoint

/-!
# Occurrences in a text

A *reader* tries to read something at the beginning of a text and gives its value and the rest of
the text; it also sees the code point just before the place where it is tried. The occurrences of a
reader in a text are found from left to right: each begins at the first place, not before the end of
the one found last, where the reader succeeds.

## Main definitions

- `Span` — a piece of a text, by the offsets where it starts and stops
- `Occurrence` — a span and what was read there
- `occurrences` — the occurrences of a reader in a text
-/

namespace DeclSync

/-- A piece of a text: the code points from offset `start` up to, and without, offset `stop`. -/
structure Span where
  start : Nat
  stop : Nat
  deriving DecidableEq

/-- A value that was read from a piece of a text. -/
structure Occurrence (α : Type) extends Span where
  value : α

/-- Reads at the beginning of a text, seeing the code point before it, and gives the value and the
rest. -/
abbrev Reader (α : Type) := (behind : Option CodePoint) → Text → Option (α × Text)

/-- The occurrences in the part of a text that begins at `offset`, after the code point `behind`;
the first `covered` code points belong to the occurrence found last. -/
def occurrencesFrom {α : Type} (read : Reader α) (behind : Option CodePoint)
    (offset covered : Nat) : Text → List (Occurrence α)
  | [] => []
  | c :: t =>
    match covered with
    | covered + 1 => occurrencesFrom read (some c) (offset + 1) covered t
    | 0 =>
      match read behind (c :: t) with
      | none => occurrencesFrom read (some c) (offset + 1) 0 t
      | some (value, rest) =>
        let size := (c :: t).length - rest.length
        ⟨⟨offset, offset + size⟩, value⟩ :: occurrencesFrom read (some c) (offset + 1) (size - 1) t

/-- What belongs to the occurrence found last is passed over. -/
theorem occurrencesFrom_covered {α : Type} (read : Reader α) (behind : Option CodePoint)
    (offset : Nat) (u t : Text) :
    occurrencesFrom read behind offset u.length (u ++ t) =
      occurrencesFrom read (u.getLast?.or behind) (offset + u.length) 0 t := by
  induction u generalizing behind offset with
  | nil => simp
  | cons c u ih =>
    simp only [List.length_cons, List.cons_append, occurrencesFrom, ih]
    rw [List.getLast?_cons, Nat.add_right_comm, Nat.add_assoc]
    cases u.getLast? <;> rfl

/-- The occurrences of a reader in a text, from left to right and without overlap. -/
def occurrences {α : Type} (read : Reader α) (t : Text) : List (Occurrence α) :=
  occurrencesFrom read none 0 0 t

end DeclSync
