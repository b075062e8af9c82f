import DeclSync.Text.Occurrence
import Mathlib.Data.List.Basic

/-!
# The occurrences that a scan finds

A scan takes again and again the first occurrence that does not begin before the end of the one it
took last. Here that is said of a predicate on occurrences, without a scan, and proved of the
function that scans.

## Main definitions

- `LeftToRight` — a list of occurrences, each the first after the one before it
- `occurrenceAt?` — what a reader finds at an offset

`leftToRight_occurrences` says that `occurrences` finds such a list, and `LeftToRight.unique` that
there is only one. `occurrencesFrom_append_left` says when a text behind another one adds nothing to
what is found in that.
-/

namespace DeclSync

variable {α : Type}

/-- A list of occurrences that begins at an offset or after it: each of them is the first one that
does not begin before the end of the one before it, and none is left at the end. -/
inductive LeftToRight (Occurs : Occurrence α → Prop) : Nat → List (Occurrence α) → Prop where
  | nil {offset : Nat} (none_left : ∀ o, Occurs o → o.start < offset) :
      LeftToRight Occurs offset []
  | cons {offset : Nat} {o : Occurrence α} {later : List (Occurrence α)} (occurs : Occurs o)
      (not_before : offset ≤ o.start)
      (first : ∀ other, Occurs other → offset ≤ other.start → o.start ≤ other.start)
      (rest : LeftToRight Occurs o.stop later) : LeftToRight Occurs offset (o :: later)

/-- The occurrence of the same value at a distance behind. -/
def Occurrence.shift (distance : Nat) (o : Occurrence α) : Occurrence α :=
  ⟨⟨distance + o.start, distance + o.stop⟩, o.value⟩

namespace LeftToRight

variable {Occurs : Occurrence α → Prop} {offset : Nat} {found : List (Occurrence α)}

theorem skip (h : LeftToRight Occurs (offset + 1) found) (hnone : ∀ o, Occurs o → o.start ≠ offset) :
    LeftToRight Occurs offset found := by
  have hlater : ∀ o, Occurs o → offset ≤ o.start → offset + 1 ≤ o.start := by
    intro o ho hle
    have := hnone o ho
    omega
  cases h with
  | nil none_left =>
    refine nil fun o ho => ?_
    have := none_left o ho
    have := hnone o ho
    omega
  | cons occurs not_before first rest =>
    exact cons occurs (by omega) (fun o ho hle => first o ho (hlater o ho hle)) rest

/-- Where at most one occurrence begins at each offset, there is only one such list. -/
theorem unique (hone : ∀ o other, Occurs o → Occurs other → o.start = other.start → o = other)
    {others : List (Occurrence α)} (h : LeftToRight Occurs offset found)
    (hothers : LeftToRight Occurs offset others) : found = others := by
  induction h generalizing others with
  | nil none_left =>
    cases hothers with
    | nil => rfl
    | cons occurs not_before => exact absurd (none_left _ occurs) (by omega)
  | cons occurs not_before first rest ih =>
    cases hothers with
    | nil none_left => exact absurd (none_left _ occurs) (by omega)
    | cons occurs' not_before' first' rest' =>
      have hstart := Nat.le_antisymm (first _ occurs' not_before') (first' _ occurs not_before)
      obtain rfl := hone _ _ occurs occurs' hstart
      rw [ih rest']

/-- Occurrences that stand for others at the same places are found where the others are. -/
theorem exists_map {β : Type} {Other : Occurrence β → Prop} {f : Occurrence β → Occurrence α}
    (hspan : ∀ r, (f r).toSpan = r.toSpan) (hstands : ∀ o, Occurs o ↔ ∃ r, Other r ∧ f r = o)
    (h : LeftToRight Occurs offset found) :
    ∃ others, LeftToRight Other offset others ∧ found = others.map f := by
  have hoccurs : ∀ r, Other r → Occurs (f r) := fun r hr => (hstands _).2 ⟨r, hr, rfl⟩
  induction h with
  | nil none_left =>
    refine ⟨[], nil fun r hr => ?_, rfl⟩
    have := none_left _ (hoccurs r hr)
    rwa [hspan] at this
  | cons occurs not_before first rest ih =>
    obtain ⟨r, hr, rfl⟩ := (hstands _).1 occurs
    obtain ⟨others, hothers, rfl⟩ := ih
    rw [hspan] at not_before first hothers
    refine ⟨r :: others, cons hr not_before (fun other ho hle => ?_) hothers, rfl⟩
    have := first (f other) (hoccurs other ho)
    rw [hspan] at this
    exact this hle

/-- Those that begin before a bound come first, and are the list that a scan up to it finds. -/
theorem takeWhile (h : LeftToRight Occurs offset found) (bound : Nat) :
    LeftToRight (fun o => Occurs o ∧ o.start < bound) offset
      (found.takeWhile fun o => o.start < bound) := by
  induction h with
  | nil none_left => exact nil fun o ho => none_left o ho.1
  | @cons offset o later occurs not_before first rest ih =>
    by_cases hbound : o.start < bound
    · rw [List.takeWhile_cons_of_pos (by simpa using hbound)]
      exact cons ⟨occurs, hbound⟩ not_before (fun other ho => first other ho.1) ih
    · rw [List.takeWhile_cons_of_neg (by simpa using hbound)]
      refine nil fun other ho => ?_
      by_contra hle
      have := first other ho.1 (Nat.le_of_not_lt hle)
      have := ho.2
      omega

/-- What a scan finds in a piece of a text it finds at the distance of that piece, if nothing occurs
before it. -/
theorem shift {Other : Occurrence α → Prop} {distance : Nat}
    (hstands : ∀ o, Other o ↔ ∃ r, Occurs r ∧ r.shift distance = o)
    (h : LeftToRight Occurs offset found) :
    LeftToRight Other (distance + offset) (found.map (Occurrence.shift distance)) := by
  induction h with
  | nil none_left =>
    refine nil fun o ho => ?_
    obtain ⟨r, hr, rfl⟩ := (hstands o).1 ho
    exact Nat.add_lt_add_left (none_left r hr) distance
  | cons occurs not_before first rest ih =>
    refine cons ((hstands _).2 ⟨_, occurs, rfl⟩) (Nat.add_le_add_left not_before distance) ?_ ih
    intro other ho hle
    obtain ⟨r, hr, rfl⟩ := (hstands other).1 ho
    exact Nat.add_le_add_left (first r hr (Nat.le_of_add_le_add_left hle)) distance

/-- A scan may begin earlier where nothing occurs. -/
theorem of_le {earlier : Nat} (hle : earlier ≤ offset) (hlater : ∀ o, Occurs o → offset ≤ o.start)
    (h : LeftToRight Occurs offset found) : LeftToRight Occurs earlier found := by
  cases h with
  | nil none_left =>
    refine nil fun o ho => ?_
    have := none_left o ho
    have := hlater o ho
    omega
  | cons occurs not_before first rest =>
    exact cons occurs (Nat.le_trans hle not_before) (fun o ho _ => first o ho (hlater o ho)) rest

theorem head_occurs (h : LeftToRight Occurs offset found) {o : Occurrence α}
    (ho : found.head? = some o) :
    Occurs o ∧ offset ≤ o.start ∧ ∀ other, Occurs other → offset ≤ other.start →
      o.start ≤ other.start := by
  cases h with
  | nil => simp at ho
  | cons occurs not_before first rest =>
    obtain rfl : _ = o := by simpa using ho
    exact ⟨occurs, not_before, first⟩

theorem none_of_head (h : LeftToRight Occurs offset found) (hnone : found.head? = none) :
    ∀ o, Occurs o → o.start < offset := by
  cases h with
  | nil none_left => exact none_left
  | cons => simp at hnone

end LeftToRight

/-- What a reader finds at an offset of a text. -/
def occurrenceAt? (read : Reader α) (t : Text) (i : Nat) : Option (Occurrence α) :=
  (read (t.take i).getLast? (t.drop i)).map fun (value, rest) =>
    ⟨⟨i, t.length - rest.length⟩, value⟩

/-- A reader that gives what is left of a text, and never all of it. -/
def Reader.Advances (read : Reader α) : Prop :=
  ∀ behind t value rest, read behind t = some (value, rest) → ∃ u, u ≠ [] ∧ t = u ++ rest

theorem start_of_occurrenceAt? {read : Reader α} {t : Text} {i : Nat} {o : Occurrence α}
    (h : occurrenceAt? read t i = some o) : o.start = i := by
  obtain ⟨_, _, rfl⟩ := Option.map_eq_some_iff.1 h
  rfl

theorem occurrenceAt?_eq_none {read : Reader α} {u v : Text} (h : read u.getLast? v = none) :
    occurrenceAt? read (u ++ v) u.length = none := by
  rw [occurrenceAt?, List.take_left, List.drop_left, h]
  rfl

theorem occurrenceAt?_eq_some {read : Reader α} {u w rest : Text} {value : α}
    (h : read u.getLast? (w ++ rest) = some (value, rest)) :
    occurrenceAt? read (u ++ (w ++ rest)) u.length =
      some ⟨⟨u.length, u.length + w.length⟩, value⟩ := by
  have hstop : (u ++ (w ++ rest)).length - rest.length = u.length + w.length := by
    simp only [List.length_append]
    omega
  rw [occurrenceAt?, List.take_left, List.drop_left, h]
  simp only [Option.map_some, hstop]

/-- An advancing reader finds nothing at the end of a text or after it. -/
theorem Reader.Advances.start_lt {read : Reader α} (hread : read.Advances) {t : Text}
    {o : Occurrence α} (h : occurrenceAt? read t o.start = some o) : o.start < t.length := by
  obtain ⟨⟨value, rest⟩, hfound, -⟩ := Option.map_eq_some_iff.1 h
  obtain ⟨w, hw, heq⟩ := hread _ _ _ _ hfound
  by_contra hlt
  rw [List.drop_eq_nil_of_le (Nat.le_of_not_lt hlt)] at heq
  exact hw (List.append_eq_nil_iff.1 heq.symm).1

theorem occurrencesFrom_of_none {read : Reader α} {behind : Option CodePoint} {c : CodePoint}
    {v : Text} (h : read behind (c :: v) = none) (offset : Nat) :
    occurrencesFrom read behind offset 0 (c :: v) =
      occurrencesFrom read (some c) (offset + 1) 0 v := by
  simp only [occurrencesFrom, h]

/-- A stretch of a text in which the reader finds nothing is passed over. -/
theorem occurrencesFrom_append {read : Reader α} {u t : Text}
    (h : ∀ k < u.length, ∀ behind, read behind ((u ++ t).drop k) = none)
    (behind : Option CodePoint) (offset : Nat) :
    occurrencesFrom read behind offset 0 (u ++ t) =
      occurrencesFrom read (u.getLast?.or behind) (offset + u.length) 0 t := by
  induction u generalizing behind offset with
  | nil => simp
  | cons c u ih =>
    have hhere : read behind (c :: (u ++ t)) = none := h 0 (Nat.succ_pos _) behind
    have hlater := ih fun k hk => h (k + 1) (Nat.succ_lt_succ hk)
    rw [List.cons_append, occurrencesFrom_of_none hhere, hlater, List.getLast?_cons,
      List.length_cons, Nat.add_right_comm, Nat.add_assoc]
    cases u.getLast? <;> rfl

theorem le_start_of_mem_occurrencesFrom {read : Reader α} {t : Text} {o : Occurrence α} :
    ∀ {behind : Option CodePoint} {offset covered : Nat},
      o ∈ occurrencesFrom read behind offset covered t → offset ≤ o.start := by
  induction t with
  | nil =>
    intro behind offset covered ho
    simp [occurrencesFrom] at ho
  | cons c t ih =>
    intro behind offset covered ho
    cases covered with
    | succ covered => exact Nat.le_of_succ_le (ih ho)
    | zero =>
      simp only [occurrencesFrom] at ho
      split at ho
      · exact Nat.le_of_succ_le (ih ho)
      · rcases List.mem_cons.1 ho with rfl | ho
        · exact Nat.le_refl _
        · exact Nat.le_of_succ_le (ih ho)

theorem occurrencesFrom_of_some {read : Reader α} {behind : Option CodePoint} {w rest : Text}
    {value : α} (hw : w ≠ []) (h : read behind (w ++ rest) = some (value, rest)) (offset : Nat) :
    occurrencesFrom read behind offset 0 (w ++ rest) =
      ⟨⟨offset, offset + w.length⟩, value⟩ ::
        occurrencesFrom read w.getLast? (offset + w.length) 0 rest := by
  obtain ⟨c, w, rfl⟩ := List.exists_cons_of_ne_nil hw
  have hsize : (c :: (w ++ rest)).length - rest.length = w.length + 1 := by
    simp only [List.length_cons, List.length_append]
    omega
  rw [List.cons_append] at h ⊢
  simp only [occurrencesFrom, h, hsize, Nat.add_sub_cancel, occurrencesFrom_covered]
  rw [List.getLast?_cons, List.length_cons, Nat.add_right_comm, Nat.add_assoc]
  cases w.getLast? <;> rfl

/-- A reader that does not look at a text behind what it reads, finds in front of that text what it
finds without it. -/
theorem occurrencesFrom_append_left {read : Reader α} {u v : Text}
    (hread : ∀ behind t,
      read behind (t ++ v) = (read behind t).map fun (value, rest) => (value, rest ++ v))
    (hnone : ∀ behind offset covered, occurrencesFrom read behind offset covered v = [])
    (behind : Option CodePoint) (offset covered : Nat) :
    occurrencesFrom read behind offset covered (u ++ v) =
      occurrencesFrom read behind offset covered u := by
  induction u generalizing behind offset covered with
  | nil => exact hnone behind offset covered
  | cons c u ih =>
    cases covered with
    | succ covered => exact ih (some c) (offset + 1) covered
    | zero =>
      have hhere := hread behind (c :: u)
      cases hfound : read behind (c :: u) with
      | none =>
        rw [hfound, Option.map_none, List.cons_append] at hhere
        rw [List.cons_append, occurrencesFrom_of_none hhere, occurrencesFrom_of_none hfound, ih]
      | some found =>
        rw [hfound, Option.map_some, List.cons_append] at hhere
        have hsize : (c :: (u ++ v)).length - (found.2 ++ v).length =
            (c :: u).length - found.2.length := by
          simp only [List.length_cons, List.length_append]
          omega
        simp only [List.cons_append, occurrencesFrom, hhere, hfound, hsize, ih]

/-- The scan of what is left of a text, in the state that it has there. The induction is on what is
left; the part already scanned only matters for its length and its last code point. -/
theorem leftToRight_occurrencesFrom {read : Reader α} (hread : read.Advances) (u v : Text) :
    LeftToRight (fun o => occurrenceAt? read (u ++ v) o.start = some o) u.length
      (occurrencesFrom read u.getLast? u.length 0 v) := by
  induction hn : v.length using Nat.strongRecOn generalizing u v with
  | ind n ih =>
    cases v with
    | nil =>
      refine .nil fun o ho => ?_
      simpa using hread.start_lt ho
    | cons c v =>
      cases hfound : read u.getLast? (c :: v) with
      | none =>
        -- one code point of the text is passed over
        have hlater := ih v.length (by simp [← hn]) (u ++ [c]) v rfl
        rw [List.append_assoc, List.singleton_append, List.length_append, List.length_singleton,
          List.getLast?_concat] at hlater
        rw [occurrencesFrom_of_none hfound]
        refine hlater.skip fun o ho hstart => ?_
        rw [hstart, occurrenceAt?_eq_none hfound] at ho
        exact absurd ho (by simp)
      | some found =>
        obtain ⟨value, rest⟩ := found
        obtain ⟨w, hw, heq⟩ := hread _ _ _ _ hfound
        have hlength := congrArg List.length heq
        rw [hn, List.length_append] at hlength
        have hpos := List.length_pos_of_ne_nil hw
        -- the scan of the rest is in the state that reading has left
        have hlater := ih rest.length (by omega) (u ++ w) rest rfl
        rw [heq] at hfound ⊢
        rw [occurrencesFrom_of_some hw hfound]
        refine .cons (occurrenceAt?_eq_some hfound) (Nat.le_refl _) (fun _ _ hle => hle) ?_
        rwa [List.getLast?_append_of_ne_nil _ hw, List.length_append, List.append_assoc] at hlater

theorem leftToRight_occurrences {read : Reader α} (hread : read.Advances) (t : Text) :
    LeftToRight (fun o => occurrenceAt? read t o.start = some o) 0 (occurrences read t) :=
  leftToRight_occurrencesFrom hread [] t

theorem exists_read_of_mem_occurrencesFrom {read : Reader α} {o : Occurrence α} {t : Text} :
    ∀ {behind : Option CodePoint} {offset covered : Nat},
      o ∈ occurrencesFrom read behind offset covered t →
        ∃ behind' u rest, u <:+ t ∧ read behind' u = some (o.value, rest) := by
  induction t with
  | nil =>
    intro behind offset covered ho
    simp [occurrencesFrom] at ho
  | cons c t ih =>
    intro behind offset covered ho
    have hlater : ∀ {behind offset covered}, o ∈ occurrencesFrom read behind offset covered t →
        ∃ behind' u rest, u <:+ c :: t ∧ read behind' u = some (o.value, rest) := by
      intro behind offset covered ho
      obtain ⟨behind', u, rest, hu, hread⟩ := ih ho
      exact ⟨behind', u, rest, hu.trans (List.suffix_cons c t), hread⟩
    cases covered with
    | succ covered => exact hlater ho
    | zero =>
      simp only [occurrencesFrom] at ho
      split at ho
      · exact hlater ho
      · next value rest hread =>
        rcases List.mem_cons.1 ho with rfl | ho
        · exact ⟨_, _, _, List.suffix_rfl, hread⟩
        · exact hlater ho

/-- What is found in a text was read somewhere in it. -/
theorem exists_read_of_mem_occurrences {read : Reader α} {t : Text} {o : Occurrence α}
    (ho : o ∈ occurrences read t) :
    ∃ behind u rest, u <:+ t ∧ read behind u = some (o.value, rest) :=
  exists_read_of_mem_occurrencesFrom ho

end DeclSync
