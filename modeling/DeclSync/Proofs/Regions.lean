import DeclSync.Proofs.LineBreaks
import DeclSync.Proofs.Marks
import DeclSync.Proofs.Occurrences
import DeclSync.Region
import Mathlib.Data.Option.Basic

/-!
# The first region of a text

Where regions stand, said by offsets alone: a region starts at a line start where the anchor stands,
and closes with the end marker at a line start that is not before the end of that anchor. The first
region is the one with the least start and, for that start, the least close.

## Main definitions

- `Region.StandsAt` — a region of a text
- `Region.IsFirst` — the first region of a text
- `Region.Fills` — a text that is one region as a whole

`Region.replace?_of_isFirst` and `Region.replace?_of_none` say what putting a block in the place of
the first region does. `Region.IsFirst.replaced` says that a text with its first region exchanged
for another one has that one as its first region.
-/

namespace DeclSync

namespace Text

/-- An offset right after an LF, or the beginning of a text that itself starts a line. -/
def StartsLine (atLineStart : Bool) (t : Text) (e : Nat) : Prop :=
  (e = 0 ∧ atLineStart = true) ∨ ∃ q, e = q + 1 ∧ t[q]? = some (.scalar '\n')

theorem startsLine_cons_succ {atLineStart : Bool} {c : CodePoint} {t : Text} {e : Nat} :
    StartsLine atLineStart (c :: t) (e + 1) ↔ StartsLine (c = .scalar '\n') t e := by
  cases e with
  | zero => simp [StartsLine]
  | succ e => simp [StartsLine]

theorem isLineStart_succ_iff {t : Text} {q : Nat} :
    t.IsLineStart (q + 1) ↔ t[q]? = some (.scalar '\n') := by
  simp [IsLineStart]

theorem IsLineStart.le_length {t : Text} {p : Nat} (h : t.IsLineStart p) : p ≤ t.length := by
  rcases h with rfl | ⟨q, rfl, hq⟩
  · exact Nat.zero_le _
  · obtain ⟨hlt, -⟩ := List.getElem?_eq_some_iff.1 hq
    exact hlt

/-- A line starts where what stands before it is nothing or ends with an LF. -/
theorem isLineStart_iff_getLast? {t : Text} {p : Nat} (hp : p ≤ t.length) :
    t.IsLineStart p ↔ ((t.take p).getLast?.all fun c => c = .scalar '\n') = true := by
  cases p with
  | zero => simp [IsLineStart]
  | succ q =>
    have hlast : (t.take (q + 1)).getLast? = t[q]? := by
      rw [List.getLast?_eq_getElem?, List.length_take, Nat.min_eq_left hp, Nat.add_sub_cancel,
        List.getElem?_take_of_lt (Nat.lt_succ_self q)]
    rw [hlast, List.getElem?_eq_getElem (show q < t.length by omega)]
    simp [IsLineStart, List.getElem?_eq_getElem (show q < t.length by omega)]

theorem isLineStart_append_of_le {u v : Text} {p : Nat} (h : p ≤ u.length) :
    IsLineStart (u ++ v) p ↔ u.IsLineStart p := by
  cases p with
  | zero => simp [IsLineStart]
  | succ q => rw [isLineStart_succ_iff, isLineStart_succ_iff, List.getElem?_append_left h]

theorem isLineStart_append_add {u v : Text} {n : Nat} (hlength : u.length = n)
    (hu : u.IsLineStart n) (y : Nat) : IsLineStart (u ++ v) (n + y) ↔ v.IsLineStart y := by
  subst hlength
  cases y with
  | zero =>
    simp only [Nat.add_zero, isLineStart_append_of_le (Nat.le_refl _), hu, true_iff]
    exact .inl rfl
  | succ q =>
    rw [← Nat.add_assoc, isLineStart_succ_iff, isLineStart_succ_iff,
      List.getElem?_append_right (Nat.le_add_right _ _), Nat.add_sub_cancel_left]

end Text

namespace Region

open Text

/-- A region of a text: the anchor stands at a line start, and the end marker at a line start that
is not before the end of the anchor. -/
structure StandsAt (anchor endMarker t : Text) (start close : Nat) : Prop where
  opens_line : t.IsLineStart start
  opens : anchor <+: t.drop start
  closes_line : t.IsLineStart close
  closes : endMarker <+: t.drop close
  apart : start + anchor.length ≤ close

/-- The end marker of a region is the first one that can close it. -/
structure StandsFirstAt (anchor endMarker t : Text) (start close : Nat) : Prop extends
    StandsAt anchor endMarker t start close where
  least_close : ∀ close', StandsAt anchor endMarker t start close' → close ≤ close'

/-- The first region of a text: no region starts before it, and none that starts where it does
closes before it. -/
structure IsFirst (anchor endMarker t : Text) (start close : Nat) : Prop extends
    StandsFirstAt anchor endMarker t start close where
  least_start : ∀ start' close', StandsAt anchor endMarker t start' close' → start ≤ start'

variable {anchor endMarker t : Text}

/-- After whole lines, the regions are those of the text that follows. -/
theorem standsAt_append_add_iff {u v : Text} {n start close : Nat} (hlength : u.length = n)
    (hu : u.IsLineStart n) :
    StandsAt anchor endMarker (u ++ v) (n + start) (n + close) ↔
      StandsAt anchor endMarker v start close := by
  have hdrop : ∀ y, (u ++ v).drop (n + y) = v.drop y := by
    intro y
    rw [← hlength, List.drop_length_add_append]
  constructor
  · rintro ⟨hstart, hopens, hclose, hcloses, hapart⟩
    rw [isLineStart_append_add hlength hu] at hstart hclose
    rw [hdrop] at hopens hcloses
    exact ⟨hstart, hopens, hclose, hcloses, by omega⟩
  · rintro ⟨hstart, hopens, hclose, hcloses, hapart⟩
    rw [← isLineStart_append_add hlength hu] at hstart hclose
    rw [← hdrop] at hopens hcloses
    exact ⟨hstart, hopens, hclose, hcloses, by omega⟩

/-- What follows a region makes no difference to it. -/
theorem standsAt_append_iff {u v : Text} {start close : Nat}
    (h : close + endMarker.length ≤ u.length) :
    StandsAt anchor endMarker (u ++ v) start close ↔ StandsAt anchor endMarker u start close := by
  constructor
  · rintro ⟨hstart, hopens, hclose, hcloses, hapart⟩
    exact ⟨(isLineStart_append_of_le (by omega)).1 hstart,
      (prefix_drop_append_iff (by omega)).1 hopens, (isLineStart_append_of_le (by omega)).1 hclose,
      (prefix_drop_append_iff h).1 hcloses, hapart⟩
  · rintro ⟨hstart, hopens, hclose, hcloses, hapart⟩
    exact ⟨(isLineStart_append_of_le (by omega)).2 hstart,
      (prefix_drop_append_iff (by omega)).2 hopens, (isLineStart_append_of_le (by omega)).2 hclose,
      (prefix_drop_append_iff h).2 hcloses, hapart⟩

theorem IsFirst.unique {start close start' close' : Nat} (h : IsFirst anchor endMarker t start close)
    (h' : IsFirst anchor endMarker t start' close') : start = start' ∧ close = close' := by
  obtain rfl := Nat.le_antisymm (h.least_start _ _ h'.toStandsAt) (h'.least_start _ _ h.toStandsAt)
  exact ⟨rfl, Nat.le_antisymm (h.least_close _ h'.toStandsAt) (h'.least_close _ h.toStandsAt)⟩

/-! ## The end marker -/

/-- What is left after the first line start where the mark stands. -/
theorem exists_of_afterLineMark? {mark rest : Text} {atLineStart : Bool}
    (h : afterLineMark? mark atLineStart t = some rest) :
    ∃ e, StartsLine atLineStart t e ∧ mark <+: t.drop e ∧ rest = t.drop (e + mark.length) ∧
      ∀ e', StartsLine atLineStart t e' → mark <+: t.drop e' → e ≤ e' := by
  induction t generalizing atLineStart with
  | nil =>
    simp only [afterLineMark?] at h
    split at h
    · next hstart =>
      have hnil := after?_eq_some_iff.1 h
      refine ⟨0, .inl ⟨rfl, hstart⟩, ⟨rest, hnil.symm⟩, ?_, fun _ _ _ => Nat.zero_le _⟩
      simpa using congrArg (List.drop mark.length) hnil.symm
    · exact absurd h (by simp)
  | cons c t ih =>
    simp only [afterLineMark?] at h
    split at h
    · next found hfound =>
      obtain rfl : found = rest := by simpa using h
      split at hfound
      · next hstart =>
        have heq := after?_eq_some_iff.1 hfound
        refine ⟨0, .inl ⟨rfl, hstart⟩, ⟨found, heq.symm⟩, ?_, fun _ _ _ => Nat.zero_le _⟩
        rw [heq, Nat.zero_add, List.drop_left]
      · exact absurd hfound (by simp)
    · next hnone =>
      obtain ⟨e, hstart, hmark, hrest, hleast⟩ := ih h
      refine ⟨e + 1, startsLine_cons_succ.2 hstart, by simpa using hmark, ?_, ?_⟩
      · rw [hrest, Nat.add_right_comm, List.drop_succ_cons]
      · intro e' hstart' hmark'
        -- a mark at this very place would have been found
        cases e' with
        | zero =>
          obtain ⟨-, rfl⟩ : 0 = 0 ∧ atLineStart = true := by simpa [StartsLine] using hstart'
          rw [if_pos rfl, after?_eq_none_iff] at hnone
          exact absurd hmark' hnone
        | succ e' =>
          have := hleast e' (startsLine_cons_succ.1 hstart') (by simpa using hmark')
          omega

/-- Nothing is given only if the mark stands at no line start. -/
theorem not_of_afterLineMark? {mark : Text} {atLineStart : Bool}
    (h : afterLineMark? mark atLineStart t = none) (e : Nat) (hstart : StartsLine atLineStart t e) :
    ¬ mark <+: t.drop e := by
  induction t generalizing atLineStart e with
  | nil =>
    rcases hstart with ⟨rfl, rfl⟩ | ⟨q, rfl, hq⟩
    · simpa [afterLineMark?, after?_eq_none_iff] using h
    · simp at hq
  | cons c t ih =>
    simp only [afterLineMark?] at h
    split at h
    · exact absurd h (by simp)
    · next hnone =>
      cases e with
      | zero =>
        obtain ⟨-, rfl⟩ : 0 = 0 ∧ atLineStart = true := by simpa [StartsLine] using hstart
        rwa [if_pos rfl, after?_eq_none_iff] at hnone
      | succ e => simpa using ih h e (startsLine_cons_succ.1 hstart)

/-! ## Reading a region -/

/-- Line starts of what follows the anchor are line starts of the whole text. -/
theorem isLineStart_after_anchor_iff {start e : Nat} (hstart : t.IsLineStart start)
    (hanchor : anchor <+: t.drop start) :
    t.IsLineStart (start + anchor.length + e) ↔
      StartsLine (endsLine anchor) (t.drop (start + anchor.length)) e := by
  cases e with
  | succ e =>
    rw [← Nat.add_assoc, isLineStart_succ_iff]
    simp [StartsLine]
  | zero =>
    obtain ⟨rest, hrest⟩ := hanchor
    rcases List.eq_nil_or_concat' anchor with rfl | ⟨initial, last, rfl⟩
    · simpa [StartsLine, endsLine] using hstart
    · have hlast : t[start + initial.length]? = some last := by
        rw [← List.getElem?_drop, ← hrest]
        simp
      rw [List.length_append, List.length_singleton, ← Nat.add_assoc, Nat.add_zero,
        isLineStart_succ_iff, hlast]
      simp [StartsLine, endsLine]

theorem read?_eq_some_iff {behind : Option CodePoint} {rest : Text} :
    read? anchor endMarker behind t = some ((), rest) ↔
      (behind.all fun c => c = .scalar '\n') = true ∧ ∃ inside, t = anchor ++ inside ∧
        afterLineMark? endMarker (endsLine anchor) inside = some rest := by
  by_cases hbehind : (behind.all fun c => c = .scalar '\n') = true
  · simp [read?, hbehind, guard, Option.bind_eq_some_iff, after?_eq_some_iff]
  · simp [read?, hbehind, guard]

theorem standsFirstAt_of_occurrenceAt? {start : Nat} {o : Occurrence Unit} (hle : start ≤ t.length)
    (h : occurrenceAt? (read? anchor endMarker) t start = some o) :
    ∃ close, StandsFirstAt anchor endMarker t start close ∧
      o.toSpan = ⟨start, close + endMarker.length⟩ := by
  obtain ⟨⟨⟨⟩, rest⟩, hread, rfl⟩ := Option.map_eq_some_iff.1 h
  obtain ⟨hbehind, inside, hinside, hmark⟩ := read?_eq_some_iff.1 hread
  have hline := (isLineStart_iff_getLast? hle).2 hbehind
  have hanchor : anchor <+: t.drop start := ⟨inside, hinside.symm⟩
  have hdrop : inside = t.drop (start + anchor.length) := by
    rw [← List.drop_drop, hinside, List.drop_left]
  rw [hdrop] at hmark
  -- the search starts behind the anchor, and so do its offsets
  obtain ⟨e, hstart, hclose, hrest, hleast⟩ := exists_of_afterLineMark? hmark
  rw [List.drop_drop] at hclose
  have hcloses := (isLineStart_after_anchor_iff hline hanchor).2 hstart
  refine ⟨start + anchor.length + e, ⟨⟨hline, hanchor, hcloses, hclose, by omega⟩, ?_⟩, ?_⟩
  · intro close' hclose'
    obtain ⟨e', rfl⟩ := Nat.exists_eq_add_of_le hclose'.apart
    have := hleast e' ((isLineStart_after_anchor_iff hline hanchor).1 hclose'.closes_line)
      (by simpa only [List.drop_drop] using hclose'.closes)
    omega
  · have hfits := hclose.length_le
    have hbound := hcloses.le_length
    rw [List.length_drop] at hfits
    simp only [hrest, List.length_drop, Span.mk.injEq, true_and]
    omega

theorem not_standsAt_of_occurrenceAt? {start : Nat}
    (h : occurrenceAt? (read? anchor endMarker) t start = none) (close : Nat) :
    ¬ StandsAt anchor endMarker t start close := by
  intro hregion
  obtain ⟨e, rfl⟩ := Nat.exists_eq_add_of_le hregion.apart
  obtain ⟨inside, hinside⟩ := hregion.opens
  -- the anchor stands there, so it is the end marker that was not found
  have hnone : afterLineMark? endMarker (endsLine anchor) inside = none := by
    by_contra hsome
    obtain ⟨rest, hrest⟩ := Option.ne_none_iff_exists'.1 hsome
    have hread := read?_eq_some_iff.2
      ⟨(isLineStart_iff_getLast? hregion.opens_line.le_length).1 hregion.opens_line, inside,
        hinside.symm, hrest⟩
    rw [occurrenceAt?, hread] at h
    exact absurd h (by simp)
  have hdrop : inside = t.drop (start + anchor.length) := by
    rw [← List.drop_drop, ← hinside, List.drop_left]
  refine not_of_afterLineMark? hnone e ?_ ?_
  · rw [hdrop]
    exact (isLineStart_after_anchor_iff hregion.opens_line hregion.opens).1 hregion.closes_line
  · rw [hdrop, List.drop_drop]
    exact hregion.closes

/-! ## The first of all regions -/

theorem read?_advances (h : (anchor.isEmpty && endMarker.isEmpty) = false) :
    Reader.Advances (read? anchor endMarker) := by
  rintro behind t ⟨⟩ rest hread
  obtain ⟨-, inside, rfl, hmark⟩ := read?_eq_some_iff.1 hread
  obtain ⟨e, -, hclose, rfl, -⟩ := exists_of_afterLineMark? hmark
  refine ⟨anchor ++ inside.take (e + endMarker.length), fun hnil => ?_, ?_⟩
  · obtain ⟨rfl, htake⟩ := List.append_eq_nil_iff.1 hnil
    have hmarker : endMarker ≠ [] := by rintro rfl; simp at h
    have hlength := congrArg List.length htake
    have hfits := hclose.length_le
    have hpos := List.length_pos_of_ne_nil hmarker
    simp only [List.length_take, List.length_drop, List.length_nil] at hlength hfits
    omega
  · rw [List.append_assoc, List.take_append_drop]

theorem standsAt_zero_of_empty (t : Text) : StandsAt [] [] t 0 0 :=
  ⟨.inl rfl, List.nil_prefix, .inl rfl, List.nil_prefix, Nat.le_refl _⟩

theorem isFirst_of_head?_spans {span : Span} (h : (spans anchor endMarker t).head? = some span) :
    ∃ start close, IsFirst anchor endMarker t start close ∧
      span = ⟨start, close + endMarker.length⟩ := by
  rw [spans] at h
  split at h
  · next hempty =>
    -- two empty marks are found everywhere, and so at the very beginning
    obtain ⟨rfl, rfl⟩ : anchor = [] ∧ endMarker = [] := by simpa using hempty
    obtain rfl : (⟨0, 0⟩ : Span) = span := by simpa [unmarkedSpans] using h
    exact ⟨0, 0, ⟨⟨standsAt_zero_of_empty t, fun _ _ => Nat.zero_le _⟩, fun _ _ _ => Nat.zero_le _⟩,
      rfl⟩
  · next hmarks =>
    have hscan := leftToRight_occurrences (read?_advances (Bool.eq_false_iff.2 hmarks)) t
    rw [List.head?_map] at h
    obtain ⟨o, ho, rfl⟩ := Option.map_eq_some_iff.1 h
    obtain ⟨hoccurs, -, hleast⟩ := hscan.head_occurs ho
    have hle := (read?_advances (Bool.eq_false_iff.2 hmarks)).start_lt hoccurs
    obtain ⟨close, hfirst, hspan⟩ := standsFirstAt_of_occurrenceAt? (Nat.le_of_lt hle) hoccurs
    refine ⟨o.start, close, ⟨hfirst, fun start' close' hregion => ?_⟩, hspan⟩
    cases hother : occurrenceAt? (read? anchor endMarker) t start' with
    | none => exact absurd hregion (not_standsAt_of_occurrenceAt? hother close')
    | some other =>
      obtain rfl := start_of_occurrenceAt? hother
      exact hleast other hother (Nat.zero_le _)

theorem not_standsAt_of_head?_spans (h : (spans anchor endMarker t).head? = none)
    (start close : Nat) : ¬ StandsAt anchor endMarker t start close := by
  intro hregion
  rw [spans] at h
  split at h
  · simp [unmarkedSpans] at h
  · next hmarks =>
    have hscan := leftToRight_occurrences (read?_advances (Bool.eq_false_iff.2 hmarks)) t
    rw [List.head?_map, Option.map_eq_none_iff] at h
    cases hother : occurrenceAt? (read? anchor endMarker) t start with
    | none => exact not_standsAt_of_occurrenceAt? hother close hregion
    | some other =>
      obtain rfl := start_of_occurrenceAt? hother
      exact absurd (hscan.none_of_head h other hother) (Nat.not_lt_zero _)

/-- The block takes the place of the first region, and nothing else is touched. -/
theorem replace?_of_isFirst {start close : Nat} (h : IsFirst anchor endMarker t start close)
    (block lineBreak : Text) :
    replace? anchor endMarker block lineBreak t =
      some (t.take start ++ withLineBreak lineBreak block ++ t.drop (close + endMarker.length)) := by
  cases hhead : (spans anchor endMarker t).head? with
  | none => exact absurd h.toStandsAt (not_standsAt_of_head?_spans hhead start close)
  | some span =>
    obtain ⟨start', close', h', rfl⟩ := isFirst_of_head?_spans hhead
    obtain ⟨rfl, rfl⟩ := h.unique h'
    rw [replace?, hhead]
    rfl

theorem replace?_of_none (h : ∀ start close, ¬ StandsAt anchor endMarker t start close)
    (block lineBreak : Text) : replace? anchor endMarker block lineBreak t = none := by
  cases hhead : (spans anchor endMarker t).head? with
  | none =>
    rw [replace?, hhead]
    rfl
  | some span =>
    obtain ⟨start, close, hfirst, -⟩ := isFirst_of_head?_spans hhead
    exact absurd hfirst.toStandsAt (h start close)

theorem StandsAt.exists_isFirst {start close : Nat} (h : StandsAt anchor endMarker t start close) :
    ∃ start close, IsFirst anchor endMarker t start close := by
  cases hhead : (spans anchor endMarker t).head? with
  | none => exact absurd h (not_standsAt_of_head?_spans hhead start close)
  | some span =>
    obtain ⟨start, close, hfirst, -⟩ := isFirst_of_head?_spans hhead
    exact ⟨start, close, hfirst⟩

theorem isFirst_or_none (anchor endMarker t : Text) :
    (∃ start close, IsFirst anchor endMarker t start close) ∨
      ∀ start close, ¬ StandsAt anchor endMarker t start close := by
  by_cases hregion : ∃ start close, StandsAt anchor endMarker t start close
  · obtain ⟨start, close, hstands⟩ := hregion
    exact .inl hstands.exists_isFirst
  · exact .inr fun start close hstands => hregion ⟨start, close, hstands⟩

/-! ## Line by line -/

section Lines

variable {mark : Text}

theorem afterLineMark?_cons {atLineStart : Bool} {c : CodePoint} {t : Text}
    (hno : atLineStart = true → ¬ mark <+: c :: t) :
    afterLineMark? mark atLineStart (c :: t) = afterLineMark? mark (c = .scalar '\n') t := by
  have hnone : (if atLineStart = true then after? mark (c :: t) else none) = none := by
    split
    · next hstart => exact after?_eq_none_iff.2 (hno hstart)
    · rfl
  rw [afterLineMark?, hnone]

theorem afterLineMark?_append (hne : mark ≠ []) (t : Text) :
    afterLineMark? mark true (mark ++ t) = some t := by
  obtain ⟨m, mark', rfl⟩ := List.exists_cons_of_ne_nil hne
  rw [List.cons_append, afterLineMark?, if_pos rfl, ← List.cons_append, after?_append]

/-- A line that does not start with the mark is passed over. -/
theorem afterLineMark?_line {line : Text} {atLineStart : Bool} (hline : .scalar '\n' ∉ line)
    {rest : Text} (hmark : atLineStart = true → ¬ mark <+: line ++ ("\n" ++ rest)) :
    afterLineMark? mark atLineStart (line ++ ("\n" ++ rest)) = afterLineMark? mark true rest := by
  induction line generalizing atLineStart with
  | nil => exact afterLineMark?_cons hmark
  | cons c line ih =>
    rw [List.mem_cons, not_or] at hline
    have hc : decide (c = .scalar '\n') = false := decide_eq_false (Ne.symm hline.1)
    rw [List.cons_append] at hmark ⊢
    rw [afterLineMark?_cons hmark, hc]
    exact ih hline.2 (fun h => absurd h (by simp))

end Lines

/-! ## Exchanging the first region -/

/-- A text that is one region, from its first code point to its last. -/
def Fills (anchor endMarker region : Text) : Prop :=
  ∃ close, StandsFirstAt anchor endMarker region 0 close ∧
    region.length = close + endMarker.length

theorem fills_of_read? {region : Text} (h : read? anchor endMarker none region = some ((), [])) :
    Fills anchor endMarker region := by
  have hfound : occurrenceAt? (read? anchor endMarker) region 0 =
      some ⟨⟨0, region.length⟩, ()⟩ := by
    rw [occurrenceAt?, List.take_zero, List.drop_zero, List.getLast?_nil, h]
    rfl
  obtain ⟨close, hfirst, hspan⟩ := standsFirstAt_of_occurrenceAt? (Nat.zero_le _) hfound
  exact ⟨close, hfirst, congrArg Span.stop hspan⟩

namespace IsFirst

variable {start close : Nat}

/-- What stands before the first region is made of whole lines. -/
theorem isLineStart_take (h : IsFirst anchor endMarker t start close) :
    IsLineStart (t.take start) start ∧ (t.take start).length = start := by
  have hlength : (t.take start).length = start := by
    rw [List.length_take, Nat.min_eq_left h.opens_line.le_length]
  have hwhole := h.opens_line
  rw [← List.take_append_drop start t, isLineStart_append_of_le (Nat.le_of_eq hlength.symm)] at hwhole
  exact ⟨hwhole, hlength⟩

/-- An anchor that begins before the first region does not reach the line of that region, so it
opens no region whatever stands in the place of the first one. -/
theorem start_le_of_take (h : IsFirst anchor endMarker t start close)
    (hanchor : .scalar '\n' ∉ anchor) {rest : Text} {start' close' : Nat}
    (h' : StandsAt anchor endMarker (t.take start ++ rest) start' close') : start ≤ start' := by
  obtain ⟨hline, hlength⟩ := h.isLineStart_take
  by_contra hlt
  rw [Nat.not_le] at hlt
  -- the LF right before the region is not part of the anchor, which so ends before it
  have hlf : (t.take start)[start - 1]? = some (.scalar '\n') := by
    rw [← isLineStart_succ_iff, Nat.sub_add_cancel (by omega)]
    exact hline
  have hinside : start' + anchor.length ≤ start - 1 := by
    by_contra hreach
    obtain ⟨tail, htail⟩ := h'.opens
    have hmem : anchor[start - 1 - start']? = some (.scalar '\n') := by
      have hget := congrArg (fun u : Text => u[start - 1 - start']?) htail
      rw [List.getElem?_append_left (by omega), List.getElem?_drop,
        List.getElem?_append_left (by omega), Nat.add_sub_cancel' (by omega), hlf] at hget
      exact hget
    exact hanchor (List.mem_of_getElem? hmem)
  have hopens : anchor <+: (t.take start).drop start' :=
    (prefix_drop_append_iff (by omega)).1 h'.opens
  -- and then it would open a region in the text as it was
  have hold : StandsAt anchor endMarker t start' close := by
    refine ⟨?_, ?_, h.closes_line, h.closes, ?_⟩
    · have hline' := (isLineStart_append_of_le (by omega)).1 h'.opens_line
      rw [← List.take_append_drop start t]
      exact (isLineStart_append_of_le (by omega)).2 hline'
    · rw [← List.take_append_drop start t]
      exact (prefix_drop_append_iff (by omega)).2 hopens
    · have := h.apart
      omega
  exact absurd (h.least_start _ _ hold) (by omega)

/-- With another region in its place, the first region of a text is that one. -/
theorem replaced (h : IsFirst anchor endMarker t start close) (hanchor : .scalar '\n' ∉ anchor)
    {region : Text} (hregion : Fills anchor endMarker region) (rest : Text) :
    ∃ close', IsFirst anchor endMarker (t.take start ++ region ++ rest) start close' ∧
      close' + endMarker.length = start + region.length := by
  obtain ⟨hline, hlength⟩ := h.isLineStart_take
  obtain ⟨e, hfirst, hfull⟩ := hregion
  -- behind what stands before it, the regions are those of the new one and what follows it
  have hinner : ∀ y, StandsAt anchor endMarker (t.take start ++ (region ++ rest)) start (start + y) ↔
      StandsAt anchor endMarker (region ++ rest) 0 y := fun y =>
    @standsAt_append_add_iff anchor endMarker _ _ start 0 y hlength hline
  rw [List.append_assoc]
  refine ⟨start + e, ⟨⟨?_, fun close' h' => ?_⟩, fun _ _ h' => h.start_le_of_take hanchor h'⟩,
    by omega⟩
  · exact (hinner e).2 ((standsAt_append_iff (Nat.le_of_eq hfull.symm)).2 hfirst.toStandsAt)
  · obtain ⟨y, rfl⟩ := Nat.exists_eq_add_of_le (Nat.le_trans (Nat.le_add_right _ _) h'.apart)
    by_contra hlt
    -- an earlier end marker would close the new region itself
    have hearlier := (standsAt_append_iff (by omega)).1 ((hinner y).1 h')
    have := hfirst.least_close y hearlier
    omega

/-- With a text in its place that opens a region and holds no LF, a region closes in what stood after
the first one. -/
theorem close_behind (h : IsFirst anchor endMarker t start close) (hanchor : .scalar '\n' ∉ anchor)
    {inside rest : Text} (hinside : .scalar '\n' ∉ inside) (hmark : ¬ endMarker <+: inside ++ rest)
    {start' close' : Nat}
    (h' : StandsAt anchor endMarker (t.take start ++ (anchor ++ inside) ++ rest) start' close') :
    ∃ q, close' = start + (anchor ++ inside).length + (q + 1) ∧ rest[q]? = some (.scalar '\n') ∧
      endMarker <+: rest.drop (q + 1) := by
  obtain ⟨hline, hlength⟩ := h.isLineStart_take
  rw [List.append_assoc] at h'
  obtain ⟨x, rfl⟩ := Nat.exists_eq_add_of_le (h.start_le_of_take hanchor h')
  obtain ⟨y, rfl⟩ := Nat.exists_eq_add_of_le (show start ≤ close' by have := h'.apart; omega)
  obtain ⟨-, -, hline', hcloses, happart⟩ := (standsAt_append_add_iff hlength hline).1 h'
  rcases hline' with rfl | ⟨k, rfl, hk⟩
  · -- the region would close where it starts, which takes an empty anchor
    obtain rfl : anchor = [] := List.eq_nil_of_length_eq_zero (by omega)
    exact absurd hcloses hmark
  · by_cases hlt : k < (anchor ++ inside).length
    · -- neither the anchor nor what follows it has a line start
      rw [List.getElem?_append_left hlt] at hk
      rcases List.mem_append.1 (List.mem_of_getElem? hk) with hlf | hlf
      · exact absurd hlf hanchor
      · exact absurd hlf hinside
    · obtain ⟨q, rfl⟩ := Nat.exists_eq_add_of_le (Nat.le_of_not_lt hlt)
      rw [List.getElem?_append_right (Nat.le_add_right _ _), Nat.add_sub_cancel_left] at hk
      rw [Nat.add_assoc, List.drop_length_add_append] at hcloses
      exact ⟨q, by omega, hk, hcloses⟩

/-- With a text in its place that opens a region, a region starts there if an end marker stands at a
line start of what stood after the first one. -/
theorem standsAt_behind (h : IsFirst anchor endMarker t start close) (inside : Text) {rest : Text}
    {q : Nat} (hlf : rest[q]? = some (.scalar '\n')) (hcloses : endMarker <+: rest.drop (q + 1)) :
    StandsAt anchor endMarker (t.take start ++ (anchor ++ inside) ++ rest) start
      (start + (anchor ++ inside).length + (q + 1)) := by
  obtain ⟨hline, hlength⟩ := h.isLineStart_take
  have hinner : StandsAt anchor endMarker ((anchor ++ inside) ++ rest) 0
      ((anchor ++ inside).length + (q + 1)) := by
    refine ⟨.inl rfl, ?_, ?_, ?_, ?_⟩
    · rw [List.drop_zero, List.append_assoc]
      exact List.prefix_append _ _
    · rw [← Nat.add_assoc, isLineStart_succ_iff, List.getElem?_append_right (Nat.le_add_right _ _),
        Nat.add_sub_cancel_left]
      exact hlf
    · rw [List.drop_length_add_append]
      exact hcloses
    · rw [List.length_append]
      omega
  rw [List.append_assoc, Nat.add_assoc]
  exact (@standsAt_append_add_iff anchor endMarker _ _ start 0 _ hlength hline).2 hinner

end IsFirst

end Region

end DeclSync
