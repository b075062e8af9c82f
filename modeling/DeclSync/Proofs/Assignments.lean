import DeclSync.Proofs.Balance

/-!
# Assignments at the top level

Whether an `=` at depth zero assigns is decided by the code points on both sides of it alone. So the
first assignment of a text can be looked for piece by piece, as long as no piece ends with an `=`
that the next one goes on with. Where an operator stands between two operands, with a space on each
side, it is found exactly if it is found on its own: every operator that assigns is, but for those
that shift and assign, which end as a comparison does.

## Main definitions

- `Text.operation` — an operator between two operands
- `Text.assignmentOperators`, `Text.comparisonOperators`, `Text.shiftOperators`

`Text.assignmentFrom?_append` says where the first assignment of two pieces is, and
`Text.assignment?_operation_iff` which operators are found.
-/

namespace DeclSync

namespace Text

open Nesting (State stateAfter)

variable {state : State} {behind ahead : Option CodePoint} {t u : Text}

/-! ## Both sides of an `=` -/

/-- An `=` looks ahead for no other code points than these. -/
theorem isComparison_ahead (h : ∀ c ∈ ahead, c ≠ .scalar '=' ∧ c ≠ .scalar '>') :
    isComparison behind ahead = isComparison behind none := by
  cases ahead with
  | none => rfl
  | some c =>
    obtain ⟨hequal, hgreater⟩ := h c rfl
    simp [isComparison, hequal, hgreater]

/-- The code points behind which an `=` compares. -/
def comparisonStarts : Text := "=!<>"

theorem isComparison_behind {c : CodePoint} (hc : c ∉ comparisonStarts) :
    isComparison (some c) ahead = isComparison none ahead := by
  simp only [comparisonStarts, ofString, List.mem_map, not_exists, not_and] at hc
  have hne : ∀ d ∈ "=!<>".toList, c ≠ .scalar d := fun d hd heq => hc d hd heq.symm
  simp [isComparison, hne]

/-- What stands in front of a text makes no difference, unless an `=` compares behind it. -/
theorem assignmentFrom?_behind {c : CodePoint} (hc : c ∉ comparisonStarts) (state : State)
    (t : Text) : assignmentFrom? state (some c) t = assignmentFrom? state none t := by
  cases t with
  | nil => rfl
  | cons d t => rw [assignmentFrom?, assignmentFrom?, isComparison_behind hc]

/-! ## Two pieces of a text -/

/-- The first assignment of two pieces is that of the first piece, and otherwise that of the second
one, unless an `=` at the end of the first piece looks ahead into the second. -/
theorem assignmentFrom?_append (state : State) (behind : Option CodePoint)
    (h : u.getLast? = some (.scalar '=') → ∀ c ∈ t.head?, c ≠ .scalar '=' ∧ c ≠ .scalar '>') :
    assignmentFrom? state behind (u ++ t) =
      (assignmentFrom? state behind u).or
        ((assignmentFrom? (stateAfter state u) (u.getLast?.or behind) t).map (· + u.length)) := by
  induction u generalizing state behind with
  | nil => simp [assignmentFrom?]
  | cons c u ih =>
    -- the `=` at the end of a piece looks ahead into the next piece, and every other one does not
    have hahead (hc : c = .scalar '=') :
        isComparison behind (u ++ t).head? = isComparison behind u.head? := by
      cases u with
      | nil => exact isComparison_ahead (h (congrArg some hc))
      | cons d u => rfl
    have hlater := ih (state.next c) (some c) fun hlast => by
      apply h
      rw [List.getLast?_cons, hlast]
      rfl
    have hlast : (c :: u).getLast?.or behind = u.getLast?.or (some c) := by
      rw [List.getLast?_cons]
      cases u.getLast? <;> rfl
    rw [List.cons_append, assignmentFrom?, assignmentFrom?, hlater, hlast]
    by_cases hc : c = .scalar '='
    · rw [hahead hc]
      split
      · rfl
      · rw [Option.map_or, Option.map_map]
        rfl
    · rw [if_neg (fun hfound => hc hfound.1), if_neg (fun hfound => hc hfound.1), Option.map_or,
        Option.map_map]
      rfl

/-- An `=` right behind another one assigns nothing. -/
theorem assignmentFrom?_equal_ne_zero (state : State) (t : Text) :
    assignmentFrom? state (some (.scalar '=')) t ≠ some 0 := by
  cases t with
  | nil => simp [assignmentFrom?]
  | cons c t => simp [assignmentFrom?, isComparison]

/-- The first assignment stands outside everything, and cut off there the text has none. -/
theorem assignmentFrom?_take {i : Nat} (h : assignmentFrom? state behind t = some i) :
    stateAfter state (t.take i) = .code 0 ∧ assignmentFrom? state behind (t.take i) = none := by
  induction t generalizing state behind i with
  | nil => exact absurd h (by simp [assignmentFrom?])
  | cons c t ih =>
    rw [assignmentFrom?] at h
    split at h
    · next hfound =>
      obtain ⟨rfl, hdepth, -⟩ := hfound
      obtain rfl := Option.some.inj h
      exact ⟨(Nesting.depthOf?_eq_zero_iff (CodePoint.isPlain_of_notMem (by decide))).1 hdepth, rfl⟩
    · next hfound =>
      obtain ⟨j, hj, rfl⟩ := Option.map_eq_some_iff.1 h
      obtain ⟨hstate, hnone⟩ := ih hj
      refine ⟨hstate, ?_⟩
      have hhere : ¬ (c = .scalar '=' ∧ state.depthOf? c = some 0 ∧
          (!isComparison behind (t.take j).head?) = true) := by
        rintro ⟨rfl, hdepth, hassigns⟩
        cases j with
        | zero => exact assignmentFrom?_equal_ne_zero _ t hj
        | succ j =>
          -- the next code point is kept, so the `=` compares as it did
          have hhead : (t.take (j + 1)).head? = t.head? := by cases t <;> rfl
          rw [hhead] at hassigns
          exact hfound ⟨rfl, hdepth, hassigns⟩
      rw [List.take_succ_cons, assignmentFrom?, if_neg hhere, hnone]
      rfl

/-! ## Operators -/

/-- An operator between two operands, with a space on each side of it. -/
def operation (left op right : Text) : Text :=
  left ++ (.scalar ' ' :: (op ++ (.scalar ' ' :: right)))

/-- The operators of a script that assign. -/
def assignmentOperators : List Text :=
  ["=", "+=", "-=", "*=", "/=", "%=", "**=", "<<=", ">>=", ">>>=", "&=", "|=", "^=", "&&=", "||=",
    "??="]

/-- The operators with an `=` in them that do not assign: comparisons and the arrow. -/
def comparisonOperators : List Text := ["==", "===", "!=", "!==", "<=", ">=", "=>"]

/-- The operators that shift and assign; they end as a comparison does. -/
def shiftOperators : List Text := ["<<=", ">>=", ">>>="]

theorem stateAfter_operator : ∀ op ∈ assignmentOperators ++ comparisonOperators,
    stateAfter (.code 0) op = .code 0 := by decide

theorem assignment?_assignmentOperator : ∀ op ∈ assignmentOperators,
    op.assignment? = if op ∈ shiftOperators then none else some (op.length - 1) := by decide

theorem assignment?_comparisonOperator : ∀ op ∈ comparisonOperators, op.assignment? = none := by
  decide

/-- A space is no part of an assignment, so nothing on one side of it matters on the other. -/
theorem assignment?_append_space (hu : stateAfter (.code 0) u = .code 0) (t : Text) :
    (u ++ .scalar ' ' :: t).assignment? =
      u.assignment?.or (t.assignment?.map (· + (u.length + 1))) := by
  have hspace : assignmentFrom? (.code 0) (u.getLast?.or none) (.scalar ' ' :: t) =
      t.assignment?.map (· + 1) := by
    rw [assignmentFrom?, if_neg (by simp), assignmentFrom?_behind (by decide)]
    rfl
  have hindex : (· + u.length) ∘ (· + 1) = (· + (u.length + 1)) := by
    funext i
    simp only [Function.comp_apply]
    omega
  rw [assignment?, assignmentFrom?_append _ _ (fun _ => by simp), hu, hspace, Option.map_map, hindex]
  rfl

/-- The first assignment of an operation whose left operand has none is that of the operator alone,
and otherwise that of the right operand. -/
theorem assignment?_operation {left op : Text} (hleft : stateAfter (.code 0) left = .code 0)
    (hequal : .scalar '=' ∉ Nesting.topLevelFrom (.code 0) left)
    (hop : stateAfter (.code 0) op = .code 0) (right : Text) :
    (operation left op right).assignment? =
      (op.assignment?.map (· + (left.length + 1))).or
        (right.assignment?.map (· + (left.length + op.length + 2))) := by
  have hnone : left.assignment? = none := Nesting.assignmentFrom?_eq_none hequal none
  have hindex : (· + (left.length + 1)) ∘ (· + (op.length + 1)) =
      (· + (left.length + op.length + 2)) := by
    funext i
    simp only [Function.comp_apply]
    omega
  rw [operation, assignment?_append_space hleft, assignment?_append_space hop, hnone, Option.none_or,
    Option.map_or, Option.map_map, hindex]

/-- Between a balanced operand without an `=` at depth zero and any other one, an operator that
assigns is found at its last code point, unless it shifts; and of an operator that compares, no code
point is found. -/
theorem assignment?_operation_iff {left : Text} (hleft : Nesting.IsBalanced left)
    (hequal : ∀ m ∈ Nesting.marks left, m.char = .scalar '=' → m.depth ≠ 0) (right : Text) :
    (∀ op ∈ assignmentOperators,
      ((operation left op right).assignment? = some (left.length + op.length) ↔
        op ∉ shiftOperators)) ∧
    ∀ op ∈ comparisonOperators, ∀ i, (operation left op right).assignment? = some i →
      left.length + op.length + 1 < i := by
  have hfirst : ∀ op ∈ assignmentOperators ++ comparisonOperators,
      (operation left op right).assignment? =
        (op.assignment?.map (· + (left.length + 1))).or
          (right.assignment?.map (· + (left.length + op.length + 2))) := fun op hop =>
    assignment?_operation hleft.closed (Nesting.notMem_topLevelFrom_iff.2 hequal)
      (stateAfter_operator op hop) right
  constructor
  · intro op hop
    rw [hfirst op (List.mem_append_left _ hop), assignment?_assignmentOperator op hop]
    by_cases hshift : op ∈ shiftOperators
    · rw [if_pos hshift]
      refine ⟨fun hfound => ?_, fun hnot => absurd hshift hnot⟩
      -- then what is found stands in the right operand
      obtain ⟨i, -, hi⟩ := Option.map_eq_some_iff.1 hfound
      omega
    · have hlength : 0 < op.length := by
        have hne : ∀ op ∈ assignmentOperators, 0 < op.length := by decide
        exact hne op hop
      rw [if_neg hshift]
      refine ⟨fun _ => hshift, fun _ => congrArg some ?_⟩
      show op.length - 1 + (left.length + 1) = left.length + op.length
      omega
  · intro op hop i hfound
    rw [hfirst op (List.mem_append_right _ hop), assignment?_comparisonOperator op hop] at hfound
    obtain ⟨j, -, rfl⟩ := Option.map_eq_some_iff.1 hfound
    omega

/-- An operand with an `=` in brackets and another one in quotes. -/
def indexed : Text := "a[i = \x27=\x27]"

/-- Behind the operand, a power is found and a shift is not, and of a comparison only what stands
behind it is. -/
theorem assignment?_operation_iff_indexed :
    Nesting.IsBalanced indexed ∧
    (∀ m ∈ Nesting.marks indexed, m.char = .scalar '=' → m.depth ≠ 0) ∧
    (operation indexed "**=" "b").assignment? = some 13 ∧
    (operation indexed ">>>=" "b").assignment? ≠ some 14 ∧
    ∀ i, (operation indexed "<=" "b = c").assignment? = some i → 13 < i := by
  have hbalanced : Nesting.IsBalanced indexed := ⟨by decide, by decide⟩
  have hequal : ∀ m ∈ Nesting.marks indexed, m.char = .scalar '=' → m.depth ≠ 0 := by decide
  obtain ⟨hassigns, -⟩ := assignment?_operation_iff hbalanced hequal "b"
  obtain ⟨-, hcompares⟩ := assignment?_operation_iff hbalanced hequal "b = c"
  refine ⟨hbalanced, hequal, ?_, ?_, ?_⟩
  · exact (hassigns "**=" (by decide)).2 (by decide)
  · exact fun hfound => (hassigns ">>>=" (by decide)).1 hfound (by decide)
  · exact hcompares "<=" (by decide)

/-- An operator that shifts and assigns is not found. -/
theorem not_assignment?_shift : ¬ ∀ left op right : Text, Nesting.IsBalanced left →
    (∀ m ∈ Nesting.marks left, m.char = .scalar '=' → m.depth ≠ 0) → op ∈ assignmentOperators →
      (operation left op right).assignment? = some (left.length + op.length) := by
  intro hall
  have hfound := hall "a" "<<=" "1" ⟨by decide, by decide⟩ (by decide) (by decide)
  exact absurd hfound (by decide)

end Text

end DeclSync
