import DeclSync.Proofs.Literals
import DeclSync.Script.Nesting

/-!
# Scans that pass over string literals

A scan of a piece of script sees nothing of a string literal, whatever stands in it: behind the
closing quote it goes on as it stood before the opening one, only further along. What is put into a
literal for a text is such a literal between quotes of either kind, and a reader of literals that
knows nothing of scans closes it at the same quote.

## Main definitions

- `Nesting.Mark.shift` — a mark a number of code points further on
- `Literal.IsBody` — what can stand between two quotes

`Literal.marks_quoted` says that a scan passes over a literal, and `Literal.read?_marks_literalBody`
what a reader and a scan find where a text was put into a literal.
-/

namespace DeclSync

namespace Nesting

/-- The same mark, a number of code points further on. -/
def Mark.shift (offset : Nat) (m : Mark) : Mark := { m with index := offset + m.index }

/-- A scan that counts from a later index finds the same marks further on. -/
theorem marksFrom_add (state : State) (offset index : Nat) (t : Text) :
    marksFrom state (offset + index) t = (marksFrom state index t).map (Mark.shift offset) := by
  induction t generalizing state index with
  | nil => rfl
  | cons c t ih =>
    rw [marksFrom, marksFrom, List.map_append, Nat.add_assoc, ih]
    cases state.depthOf? c with
    | none => rfl
    | some depth => rfl

end Nesting

namespace Literal

open Nesting (State stateAfter marksFrom marksFrom_append)

/-- What can stand between two quotes of a kind: a backslash takes the next code point along, and
without one no quote of that kind stands there. -/
inductive IsBody (quote : CodePoint) : Text → Prop where
  | nil : IsBody quote []
  | plain {c : CodePoint} {t : Text} (hquote : c ≠ quote) (hbackslash : c ≠ .scalar '\\')
      (rest : IsBody quote t) : IsBody quote (c :: t)
  | escaped (c : CodePoint) {t : Text} (rest : IsBody quote t) :
      IsBody quote (.scalar '\\' :: c :: t)

section Scan

variable {quote : CodePoint} {u : Text}

theorem next_inside {c : CodePoint} (hquote : c ≠ quote) (hbackslash : c ≠ .scalar '\\')
    (depth : Nat) : (State.literal depth quote false).next c = .literal depth quote false := by
  rw [State.next, if_neg hbackslash, if_neg hquote]

/-- At the end of what stands between two quotes, the literal is still open. -/
theorem IsBody.stateAfter_eq (h : IsBody quote u) (depth : Nat) :
    stateAfter (.literal depth quote false) u = .literal depth quote false := by
  induction h with
  | nil => rfl
  | plain hquote hbackslash _ ih => rw [Nesting.stateAfter_cons, next_inside hquote hbackslash, ih]
  | escaped c _ ih => exact ih

theorem marksFrom_literal (h : IsBody quote u) (depth index : Nat) :
    marksFrom (.literal depth quote false) index u = [] := by
  induction h generalizing index with
  | nil => rfl
  | plain hquote hbackslash _ ih =>
    rw [marksFrom, next_inside hquote hbackslash, ih]
    rfl
  | escaped c _ ih => exact ih (index + 2)

/-- A scan passes over a literal, and goes on as it stood before it. -/
theorem marksFrom_quoted (hquote : quote.isQuote = true) (h : IsBody quote u) (depth index : Nat)
    (t : Text) : marksFrom (.code depth) index (quote :: (u ++ quote :: t)) =
      marksFrom (.code depth) (index + (u.length + 2)) t := by
  have hbackslash : quote ≠ .scalar '\\' := by
    rintro rfl
    exact absurd hquote (by decide)
  have hopens : (State.code depth).next quote = .literal depth quote false := by
    rw [State.next, if_pos hquote]
  have hcloses : (State.literal depth quote false).next quote = .code depth := by
    rw [State.next, if_neg hbackslash, if_pos rfl]
  have hhidden : (State.code depth).depthOf? quote = none := by rw [State.depthOf?, if_pos hquote]
  have hindex : index + 1 + u.length + 1 = index + (u.length + 2) := by omega
  rw [marksFrom, hopens, hhidden, marksFrom_append, marksFrom_literal h, h.stateAfter_eq, marksFrom,
    hcloses, hindex]
  rfl

/-- In front of a text, a literal adds no mark and moves those of the text behind it. -/
theorem marks_quoted (hquote : quote.isQuote = true) (h : IsBody quote u) (t : Text) :
    Nesting.marks (quote :: (u ++ quote :: t)) =
      (Nesting.marks t).map (Nesting.Mark.shift (quote :: (u ++ [quote])).length) := by
  have hlength : (quote :: (u ++ [quote])).length = u.length + 2 := by simp
  rw [Nesting.marks, marksFrom_quoted hquote h, Nat.add_comm, Nesting.marksFrom_add, hlength]
  rfl

end Scan

/-- What stands for a text in a literal can stand between quotes of either kind. -/
theorem isBody_literalBody {quote : CodePoint}
    (hquote : quote = .scalar '\x27' ∨ quote = .scalar '"') (t : Text) :
    IsBody quote t.literalBody := by
  rw [Text.literalBody]
  -- each code point of the words has its own literal, whatever words they are
  generalize t.singleSpaced = u
  induction u with
  | nil => exact .nil
  | cons c u ih =>
    rw [List.flatMap_cons, CodePoint.inLiteral]
    split
    · exact .escaped c ih
    · next hc =>
      simp only [not_or] at hc
      refine .plain ?_ hc.1 ih
      rcases hquote with rfl | rfl
      · exact hc.2.1
      · exact hc.2.2

/-- Where a text was put into a literal between quotes of either kind, a reader finds the words that
the text is made of with one space between them and closes the literal where it was closed, and a
scan finds what it finds behind the literal. -/
theorem read?_marks_literalBody {quote : CodePoint}
    (hquote : quote = .scalar '\x27' ∨ quote = .scalar '"') (t rest : Text) :
    (∃ ws, (∀ other, t.HasWords other ↔ other = ws) ∧
      read? quote (t.literalBody ++ quote :: rest) = some (List.intercalate " " ws, rest)) ∧
    Nesting.marks (quote :: (t.literalBody ++ quote :: rest)) =
      (Nesting.marks rest).map
        (Nesting.Mark.shift (quote :: (t.literalBody ++ [quote])).length) := by
  have hisQuote : quote.isQuote = true := by rcases hquote with rfl | rfl <;> rfl
  constructor
  · refine ⟨t.words, fun other => ?_, read?_literalBody hquote t rest⟩
    rw [Text.hasWords_iff, eq_comm]
  · exact marks_quoted hisQuote (isBody_literalBody hquote t) rest

/-- A text of two words, with a line separator and a line break around them, quotes of both kinds in
them and a backslash at their end. -/
def unevenText : Text := "\u2028it\x27s \r\n\"\\\\"

/-- The literal of the text closes behind the backslashes, and the comma behind it is at depth zero,
as it is where it stands alone. -/
theorem read?_marks_literalBody_unevenText :
    unevenText.literalBody = "it\\\x27s \\\"\\\\\\\\" ∧
    read? (.scalar '"') (unevenText.literalBody ++ .scalar '"' :: Text.ofString ", b") =
      some (Text.ofString "it\x27s \"\\\\", Text.ofString ", b") ∧
    Nesting.marks (.scalar '"' :: (unevenText.literalBody ++ .scalar '"' :: Text.ofString ", b")) =
      [⟨14, ',', 0⟩, ⟨15, ' ', 0⟩, ⟨16, 'b', 0⟩] := by
  obtain ⟨⟨ws, hws, hread⟩, hmarks⟩ :=
    @read?_marks_literalBody (.scalar '"') (.inr rfl) unevenText ", b"
  obtain rfl : unevenText.words = ws := (hws _).1 (Text.hasWords_words _)
  refine ⟨by decide, ?_, ?_⟩
  · rw [hread]
    decide
  · rw [hmarks]
    decide

end Literal

end DeclSync
