import DeclSync.Proofs.BlockRegions
import Mathlib.Data.List.Forall2

/-!
# Patching the first region

What putting a block in the place of the first region does to a text: whether a region is found, and
which piece of the text the block takes the place of. A block of declarations is a region itself, so
that the text has as many regions as before. The first of them is the block, and the later ones are
where they were, counted from the end of the first.

## Main definitions

- `Span.IsShift` — a span at a distance from another one

`Region.replace?_least_region` says what is replaced, and `Region.spans_replace?_block` where the
regions are afterwards.
-/

namespace DeclSync

/-- A span at a distance behind another one, or before it if the distance is negative. -/
structure Span.IsShift (distance : Int) (s s' : Span) : Prop where
  start : (s'.start : Int) = s.start + distance
  stop : (s'.stop : Int) = s.stop + distance

/-- A scan that counts from another offset finds the same pieces, at the distance of the offsets. -/
theorem forall₂_isShift_occurrencesFrom {α : Type} (read : Reader α) (behind : Option CodePoint)
    (offset offset' covered : Nat) (t : Text) :
    List.Forall₂ (Span.IsShift (offset' - offset))
      ((occurrencesFrom read behind offset covered t).map (·.toSpan))
      ((occurrencesFrom read behind offset' covered t).map (·.toSpan)) := by
  induction t generalizing behind offset offset' covered with
  | nil => exact .nil
  | cons c t ih =>
    have hlater : ∀ covered, List.Forall₂ (Span.IsShift (offset' - offset))
        ((occurrencesFrom read (some c) (offset + 1) covered t).map (·.toSpan))
        ((occurrencesFrom read (some c) (offset' + 1) covered t).map (·.toSpan)) := by
      intro covered
      have hdistance : ((offset' + 1 : Nat) : Int) - (offset + 1 : Nat) = offset' - offset := by
        omega
      rw [← hdistance]
      exact ih (some c) (offset + 1) (offset' + 1) covered
    cases covered with
    | succ covered => exact hlater covered
    | zero =>
      cases hread : read behind (c :: t) with
      | none =>
        rw [occurrencesFrom_of_none hread, occurrencesFrom_of_none hread]
        exact hlater 0
      | some found =>
        simp only [occurrencesFrom, hread, List.map_cons]
        refine .cons ⟨?_, ?_⟩ (hlater _)
        · show (offset' : Int) = offset + (offset' - offset)
          omega
        · show ((offset' + _ : Nat) : Int) = (offset + _ : Nat) + (offset' - offset)
          omega

namespace Region

open Text

variable {anchor endMarker t : Text}

/-! ## What is replaced -/

/-- A block is put into a text exactly if the anchor stands at a line start and the end marker at
one that is not before the end of that anchor. It then takes the place of what reaches from the least
such start to the end of the least end marker for that start; and a text without a region is left as
it is. -/
theorem replace?_least_region (anchor endMarker block lineBreak t : Text) :
    let patched := replace? anchor endMarker block lineBreak t
    (patched.isSome = true ↔ ∃ start close, StandsAt anchor endMarker t start close) ∧
    (patched.isSome = true → ∃ start close, IsFirst anchor endMarker t start close ∧
      patched.getD t = t.take start ++ withLineBreak lineBreak block ++
        t.drop (close + endMarker.length)) ∧
    ((∀ start close, ¬ StandsAt anchor endMarker t start close) → patched.getD t = t) := by
  intro patched
  rcases isFirst_or_none anchor endMarker t with ⟨start, close, hfirst⟩ | hnone
  · have hpatched : patched = some _ := replace?_of_isFirst hfirst block lineBreak
    rw [hpatched]
    refine ⟨⟨fun _ => ⟨start, close, hfirst.toStandsAt⟩, fun _ => rfl⟩,
      fun _ => ⟨start, close, hfirst, rfl⟩, ?_⟩
    intro hnone
    exact absurd hfirst.toStandsAt (hnone start close)
  · have hpatched : patched = none := replace?_of_none hnone block lineBreak
    have hmissing : patched.isSome = true → False := by simp [hpatched]
    refine ⟨⟨fun hfound => (hmissing hfound).elim, ?_⟩, fun hfound => (hmissing hfound).elim, ?_⟩
    · rintro ⟨start, close, hstands⟩
      exact absurd hstands (hnone start close)
    · intro _
      rw [hpatched]
      rfl

/-! ## The spans of a text -/

theorem getLast?_take_of_prefix {mark : Text} {i : Nat} (hmark : mark <+: t.drop i)
    (hne : mark ≠ []) : (t.take (i + mark.length)).getLast? = mark.getLast? := by
  have htaken : (t.drop i).take mark.length = mark := (List.prefix_iff_eq_take.1 hmark).symm
  rw [List.take_add, htaken, List.getLast?_append_of_ne_nil _ hne]

theorem exists_occurrenceAt? {start close : Nat}
    (h : StandsFirstAt anchor endMarker t start close) :
    ∃ o, occurrenceAt? (read? anchor endMarker) t start = some o ∧
      o.toSpan = ⟨start, close + endMarker.length⟩ := by
  cases hfound : occurrenceAt? (read? anchor endMarker) t start with
  | none => exact absurd h.toStandsAt (not_standsAt_of_occurrenceAt? hfound close)
  | some o =>
    obtain ⟨close', hfirst', hspan⟩ := standsFirstAt_of_occurrenceAt? h.opens_line.le_length hfound
    have hclose := Nat.le_antisymm (h.least_close _ hfirst'.toStandsAt)
      (hfirst'.least_close _ h.toStandsAt)
    exact ⟨o, rfl, hclose ▸ hspan⟩

/-- The later spans are those that a scan finds in what stands behind the first region. -/
theorem spans_of_isFirst (hne : endMarker ≠ []) {start close : Nat}
    (h : IsFirst anchor endMarker t start close) :
    spans anchor endMarker t = ⟨start, close + endMarker.length⟩ ::
      (occurrencesFrom (read? anchor endMarker) endMarker.getLast? (close + endMarker.length) 0
        (t.drop (close + endMarker.length))).map (·.toSpan) := by
  have hmarks : (anchor.isEmpty && endMarker.isEmpty) = false := by simp [hne]
  have hadvances := read?_advances hmarks
  obtain ⟨o, ho, hspan⟩ := exists_occurrenceAt? h.toStandsFirstAt
  have hstart : o.start = start := start_of_occurrenceAt? ho
  have hstop : o.stop = close + endMarker.length := congrArg Span.stop hspan
  -- the first region ends inside the text, so the text can be cut there
  have hlength : (t.take (close + endMarker.length)).length = close + endMarker.length := by
    have hfits := h.closes.length_le
    have hbound := h.closes_line.le_length
    rw [List.length_drop] at hfits
    rw [List.length_take]
    omega
  have hrest := leftToRight_occurrencesFrom hadvances (t.take (close + endMarker.length))
    (t.drop (close + endMarker.length))
  rw [List.take_append_drop, getLast?_take_of_prefix h.closes hne, hlength, ← hstop] at hrest
  -- what begins before the first region is no region
  have hleast : ∀ other, occurrenceAt? (read? anchor endMarker) t other.start = some other →
      0 ≤ other.start → o.start ≤ other.start := by
    intro other hother _
    have hle := Nat.le_of_lt (hadvances.start_lt hother)
    obtain ⟨close', hstands, -⟩ := standsFirstAt_of_occurrenceAt? hle hother
    rw [hstart]
    exact h.least_start _ _ hstands.toStandsAt
  have hscan := LeftToRight.cons (hstart ▸ ho) (Nat.zero_le _) hleast hrest
  have hunique := (leftToRight_occurrences hadvances t).unique ?_ hscan
  · rw [spans, hmarks, if_neg (by simp), hunique, List.map_cons, hstop, hspan]
  · intro found other hfound hother hsame
    rw [hsame, hother] at hfound
    exact (Option.some.inj hfound).symm

/-- With another region in the place of the first one, all later ones are shifted alike. -/
theorem spans_replaced (hne : endMarker ≠ []) {start close : Nat}
    (h : IsFirst anchor endMarker t start close) (hanchor : .scalar '\n' ∉ anchor) {region : Text}
    (hregion : Fills anchor endMarker region) :
    ∃ later, spans anchor endMarker
        (t.take start ++ region ++ t.drop (close + endMarker.length)) =
          ⟨start, start + region.length⟩ :: later ∧
      List.Forall₂
        (Span.IsShift ((start + region.length : Nat) - (close + endMarker.length : Nat)))
        (spans anchor endMarker t).tail later := by
  obtain ⟨-, hlength⟩ := h.isLineStart_take
  obtain ⟨close', hfirst, hclose⟩ :=
    h.replaced hanchor hregion (t.drop (close + endMarker.length))
  have hbehind : (t.take start ++ region ++ t.drop (close + endMarker.length)).drop
      (start + region.length) = t.drop (close + endMarker.length) :=
    List.drop_left' (by rw [List.length_append, hlength])
  rw [spans_of_isFirst hne hfirst, spans_of_isFirst hne h, hclose, hbehind]
  exact ⟨_, rfl, forall₂_isShift_occurrencesFrom _ _ _ _ _ _⟩

/-- A text with a block in it that is a region itself does not change when the block is put into it
once more. -/
theorem replace?_replaced {start close : Nat} (h : IsFirst anchor endMarker t start close)
    (hanchor : .scalar '\n' ∉ anchor) {block lineBreak : Text}
    (hblock : Fills anchor endMarker (withLineBreak lineBreak block)) :
    replace? anchor endMarker block lineBreak
        (t.take start ++ withLineBreak lineBreak block ++ t.drop (close + endMarker.length)) =
      some (t.take start ++ withLineBreak lineBreak block ++
        t.drop (close + endMarker.length)) := by
  obtain ⟨-, hlength⟩ := h.isLineStart_take
  obtain ⟨close', hfirst, hclose⟩ := h.replaced hanchor hblock (t.drop (close + endMarker.length))
  have hbefore : (t.take start ++ withLineBreak lineBreak block ++
      t.drop (close + endMarker.length)).take start = t.take start := by
    rw [List.append_assoc, List.take_left' hlength]
  have hbehind : (t.take start ++ withLineBreak lineBreak block ++
      t.drop (close + endMarker.length)).drop (close' + endMarker.length) =
        t.drop (close + endMarker.length) :=
    List.drop_left' (by rw [hclose, List.length_append, hlength])
  rw [replace?_of_isFirst hfirst, hbefore, hbehind]

/-! ## A block of declarations -/

/-- A block of extracted methods takes the place of the first region as the first region. Behind it
are the regions that were behind the first one, all shifted by the difference of the lengths, and no
others. Putting the same block into the text once more changes nothing. -/
theorem spans_replace?_block {arrayName : Text} (hanchor : anchor.IsOneLine)
    (harrayName : arrayName.IsOneLine) {methods : List Method}
    (hmethods : ∀ m ∈ methods, ∃ apiName bundle, m ∈ Method.ofBundle apiName bundle)
    {ending : LineEnding} (hending : ending ≠ .cr) {start stop : Nat} {later : List Span}
    (hspans : spans anchor standardEndMarker t = ⟨start, stop⟩ :: later) :
    let block := Declaration.block anchor arrayName methods
    let size := (withLineBreak ending.text block).length
    ∃ patched later', replace? anchor standardEndMarker block ending.text t = some patched ∧
      spans anchor standardEndMarker patched = ⟨start, start + size⟩ :: later' ∧
      List.Forall₂ (Span.IsShift ((start + size : Nat) - stop)) later later' ∧
      replace? anchor standardEndMarker block ending.text patched = some patched := by
  intro block size
  have hhead : (spans anchor standardEndMarker t).head? = some ⟨start, stop⟩ := by
    rw [hspans]
    rfl
  obtain ⟨start', close, hfirst, hspan⟩ := isFirst_of_head?_spans hhead
  obtain ⟨rfl, rfl⟩ := Span.mk.inj hspan
  have hwritable : ∀ m ∈ methods, m.IsWritable := by
    intro m hm
    obtain ⟨apiName, bundle, hextracted⟩ := hmethods m hm
    exact Method.isWritable_of_mem_ofBundle hextracted
  -- the block is a region from its first code point to its last
  have hblock : Fills anchor standardEndMarker (withLineBreak ending.text block) := by
    apply fills_of_read?
    exact Declaration.read?_withLineBreak_block hanchor.lf_notMem harrayName hwritable hending
  obtain ⟨later', hpatched, hshift⟩ := spans_replaced (by decide) hfirst hanchor.lf_notMem hblock
  rw [hspans, List.tail_cons] at hshift
  exact ⟨_, later', replace?_of_isFirst hfirst block ending.text, hpatched, hshift,
    replace?_replaced hfirst hanchor.lf_notMem hblock⟩

/-- A consumer with two regions, the second of which moves away from the longer block in the place
of the first one. -/
theorem spans_replace?_block_longer :
    (IsOneLine "// M" ∧ IsOneLine "ms" ∧ LineEnding.crlf ≠ .cr ∧
      spans "// M" standardEndMarker "a\r\n// M\r\n];\r\n// M\r\n];" = [⟨3, 11⟩, ⟨13, 21⟩]) ∧
    ∃ patched, replace? "// M" standardEndMarker
        (Declaration.block "// M" "ms" (Method.ofBundle "m" "run() \x7b")) LineEnding.crlf.text
        "a\r\n// M\r\n];\r\n// M\r\n];" = some patched ∧
      spans "// M" standardEndMarker patched = [⟨3, 149⟩, ⟨151, 159⟩] := by
  have hlines : IsOneLine "// M" ∧ IsOneLine "ms" := by decide
  have hending : LineEnding.crlf ≠ .cr := by decide
  have hspans : spans "// M" standardEndMarker "a\r\n// M\r\n];\r\n// M\r\n];" =
      [⟨3, 11⟩, ⟨13, 21⟩] := by decide
  have hmethods : ∀ m ∈ Method.ofBundle "m" "run() \x7b", ∃ apiName bundle,
      m ∈ Method.ofBundle apiName bundle := fun m hm => ⟨_, _, hm⟩
  obtain ⟨patched, later, hpatched, hlater, hshift, -⟩ :=
    spans_replace?_block hlines.1 hlines.2 hmethods hending hspans
  have hsize : (withLineBreak LineEnding.crlf.text
      (Declaration.block "// M" "ms" (Method.ofBundle "m" "run() \x7b"))).length = 146 := by
    decide +kernel
  obtain ⟨⟨start, stop⟩, later, ⟨hstart, hstop⟩, hnone, rfl⟩ := List.forall₂_cons_left_iff.1 hshift
  obtain rfl := List.forall₂_nil_left_iff.1 hnone
  rw [hsize] at hlater hstart hstop
  dsimp only at hstart hstop
  obtain rfl : start = 151 := by omega
  obtain rfl : stop = 159 := by omega
  exact ⟨⟨hlines.1, hlines.2, hending, hspans⟩, patched, hpatched, hlater⟩

end Region

end DeclSync
