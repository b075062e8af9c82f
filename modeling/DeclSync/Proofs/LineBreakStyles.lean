import DeclSync.Proofs.BlockRegions
import DeclSync.Proofs.CarriedRegions
import DeclSync.Sync

/-!
# Consumers with another line ending

The same consumer can come with LF, with CR LF or with lone CRs. With CR LF it is patched as with
LF: the regions are the same, and the patched texts differ in the line ending only. With lone CRs it
is not, since a line of a region starts after an LF and nowhere else: all of the consumer is one
line then, and its regions are gone.

## Main definitions

- `Region.PatchesAlike` — that a text is patched alike with another line ending

`Region.patchesAlike_iff` says when it is.
-/

namespace DeclSync

namespace Region

open Text

/-- With a line ending in the place of its LFs, a text has a region if it has one with LF, and its
patched text is that with LF, with the line ending in the place of the LFs. -/
def PatchesAlike (ending : LineEnding) (anchor endMarker block t : Text) : Prop :=
  let patched := replace? anchor endMarker block LineEnding.lf.text t
  let patched' := replace? anchor endMarker block ending.text (withLineBreak ending.text t)
  patched'.isSome = patched.isSome ∧
    patched'.getD (withLineBreak ending.text t) = withLineBreak ending.text (patched.getD t)

variable {anchor endMarker : Text}

theorem patchesAlike_of_eq_map {ending : LineEnding} {block t : Text}
    (h : replace? anchor endMarker block ending.text (withLineBreak ending.text t) =
      (replace? anchor endMarker block LineEnding.lf.text t).map (withLineBreak ending.text)) :
    PatchesAlike ending anchor endMarker block t := by
  rw [PatchesAlike, h]
  refine ⟨Option.isSome_map, ?_⟩
  cases replace? anchor endMarker block LineEnding.lf.text t <;> rfl

/-- Nothing is changed in a text with LF by putting LF in the place of LF. -/
theorem patchesAlike_lf (anchor endMarker block t : Text) :
    PatchesAlike .lf anchor endMarker block t := by
  refine patchesAlike_of_eq_map ?_
  have hid : withLineBreak LineEnding.lf.text = id := funext withLineBreak_lf
  rw [hid, Option.map_id, id, id]

/-! ## CR LF -/

/-- How a code point is written in a text with CR LF. -/
def crlfForm (c : CodePoint) : Text := if c = '\n' then LineEnding.crlf.text else [c]

theorem writesLineFeed_crlfForm : WritesLineFeed crlfForm (.scalar '\n') where
  last := ⟨"\r", rfl, by decide⟩
  only := by
    intro c hc
    rw [crlfForm, if_neg hc, List.mem_singleton]
    exact Ne.symm hc

theorem carries_crlfForm (hanchor : anchor.IsOneLine) (hmarker : endMarker.IsOneLine) (t : Text) :
    Carries crlfForm (.scalar '\n') anchor endMarker t := by
  have hmark : ∀ {mark : Text}, mark.IsOneLine → ∀ p,
      mark.flatMap crlfForm <+: (t.drop p).flatMap crlfForm → mark <+: t.drop p := by
    intro mark hline p hbegins
    have hkept : mark.flatMap crlfForm = mark := withLineBreak_eq_self hline.lf_notMem _
    rw [hkept] at hbegins
    exact (prefix_withLineBreak_iff hline rfl).1 hbegins
  refine ⟨fun c _ => ?_, writesLineFeed_crlfForm, fun p _ => hmark hanchor p,
    fun p _ => hmark hmarker p⟩
  by_cases hc : c = .scalar '\n'
  · rw [crlfForm, if_pos hc]
    decide
  · rw [crlfForm, if_neg hc]
    exact List.cons_ne_nil _ _

theorem patchesAlike_crlf (hanchor : anchor.IsOneLine) (hmarker : endMarker.IsOneLine)
    (block t : Text) : PatchesAlike .crlf anchor endMarker block t := by
  have hcarries := carries_crlfForm hanchor hmarker t
  have hwritten : ∀ u : Text, withLineBreak LineEnding.crlf.text u = u.flatMap crlfForm :=
    fun _ => rfl
  have hanchor' : anchor.flatMap crlfForm = anchor := withLineBreak_eq_self hanchor.lf_notMem _
  have hmarker' : endMarker.flatMap crlfForm = endMarker :=
    withLineBreak_eq_self hmarker.lf_notMem _
  refine patchesAlike_of_eq_map ?_
  rcases isFirst_or_none anchor endMarker t with ⟨start, close, hfirst⟩ | hnone
  · have hfirst' := hcarries.isFirstIn_of_isFirst hfirst
    rw [hanchor', hmarker', isFirstIn_lf_iff] at hfirst'
    -- what follows the region is written behind its end marker
    have hstop := offsetIn_add (f := crlfForm) hfirst.closes
    rw [hmarker'] at hstop
    rw [hwritten, replace?_of_isFirst hfirst', replace?_of_isFirst hfirst, Option.map_some,
      withLineBreak_append, withLineBreak_append, withLineBreak_lf, take_offsetIn, ← hstop,
      drop_offsetIn]
    rfl
  · rw [hwritten, replace?_of_none hnone, replace?_of_none]
    · rfl
    · intro start' close' hstands
      rw [← standsIn_lf_iff] at hstands
      have hback := hcarries.standsIn_iff.1 (by rwa [hanchor', hmarker'])
      obtain ⟨start, close, hstands, -, -⟩ := hback
      exact hnone start close hstands

/-! ## Lone CRs -/

/-- A text without LF is one line, and so has a region only where it begins, and only for an empty
anchor. -/
theorem standsAt_iff_of_lf_notMem {t : Text} (ht : .scalar '\n' ∉ t) {start close : Nat} :
    StandsAt anchor endMarker t start close ↔
      start = 0 ∧ close = 0 ∧ anchor = [] ∧ endMarker <+: t := by
  have hline : ∀ {p}, t.IsLineStart p → p = 0 := by
    rintro p (rfl | ⟨q, rfl, hq⟩)
    · rfl
    · exact absurd (List.mem_of_getElem? hq) ht
  constructor
  · rintro ⟨hstart, -, hclose, hcloses, hapart⟩
    obtain rfl := hline hstart
    obtain rfl := hline hclose
    exact ⟨rfl, rfl, List.eq_nil_of_length_eq_zero (by omega), hcloses⟩
  · rintro ⟨rfl, rfl, rfl, hcloses⟩
    exact ⟨.inl rfl, List.nil_prefix, .inl rfl, hcloses, Nat.le_refl _⟩

theorem isFirst_zero {t : Text} (h : endMarker <+: t) : IsFirst [] endMarker t 0 0 :=
  ⟨⟨⟨.inl rfl, List.nil_prefix, .inl rfl, h, Nat.le_refl _⟩, fun _ _ => Nat.zero_le _⟩,
    fun _ _ _ => Nat.zero_le _⟩

theorem patchesAlike_cr_iff (hmarker : endMarker.IsOneLine) (block t : Text) :
    PatchesAlike .cr anchor endMarker block t ↔
      (∀ start close, ¬ StandsAt anchor endMarker t start close) ∨
        (anchor = [] ∧ endMarker <+: t) := by
  have hregion := fun {start close} => @standsAt_iff_of_lf_notMem anchor endMarker
    (withLineBreak LineEnding.cr.text t) (lf_notMem_withLineBreak_cr t) start close
  have hbegins := @prefix_withLineBreak_iff endMarker LineEnding.cr.text hmarker rfl t
  constructor
  · rintro ⟨hfound, -⟩
    rcases isFirst_or_none anchor endMarker t with ⟨start, close, hfirst⟩ | hnone
    · -- with LF there is a region, so with lone CRs there is one too
      rw [replace?_of_isFirst hfirst] at hfound
      rcases isFirst_or_none anchor endMarker (withLineBreak LineEnding.cr.text t) with
        ⟨start', close', hfirst'⟩ | hnone'
      · obtain ⟨-, -, hanchor, hcloses⟩ := hregion.1 hfirst'.toStandsAt
        exact .inr ⟨hanchor, hbegins.1 hcloses⟩
      · rw [replace?_of_none hnone'] at hfound
        exact absurd hfound (by simp)
    · exact .inl hnone
  · rintro (hnone | ⟨rfl, hcloses⟩)
    · refine patchesAlike_of_eq_map ?_
      rw [replace?_of_none hnone, replace?_of_none]
      · rfl
      · intro start close hstands
        obtain ⟨-, -, rfl, hcloses⟩ := hregion.1 hstands
        exact hnone 0 0 (isFirst_zero (hbegins.1 hcloses)).toStandsAt
    · -- the region is the end marker at the beginning, with LF as with lone CRs
      refine patchesAlike_of_eq_map ?_
      rw [replace?_of_isFirst (isFirst_zero hcloses),
        replace?_of_isFirst (isFirst_zero (hbegins.2 hcloses))]
      obtain ⟨rest, rfl⟩ := hcloses
      rw [withLineBreak_append, withLineBreak_eq_self hmarker.lf_notMem, Nat.zero_add,
        List.drop_left, List.drop_left, withLineBreak_lf, Option.map_some, withLineBreak_append,
        withLineBreak_append]
      rfl

/-- A text is patched alike with LF and CR LF. With lone CRs it is only if it has no region with LF
either, or if the region is an end marker at the beginning of the text, without an anchor. -/
theorem patchesAlike_iff (hanchor : anchor.IsOneLine) (hmarker : endMarker.IsOneLine)
    (ending : LineEnding) (block t : Text) :
    PatchesAlike ending anchor endMarker block t ↔
      ending ≠ .cr ∨ (∀ start close, ¬ StandsAt anchor endMarker t start close) ∨
        (anchor = [] ∧ endMarker <+: t) := by
  cases ending with
  | lf => simp [patchesAlike_lf]
  | crlf => simp [patchesAlike_crlf hanchor hmarker]
  | cr => simp [patchesAlike_cr_iff hmarker]

/-- A consumer with a region, which is patched alike with CR LF but not with lone CRs. -/
theorem patchesAlike_iff_region :
    (IsOneLine "// M" ∧ IsOneLine "];") ∧
    PatchesAlike .crlf "// M" "];" "// M\nms\n];" "a\n// M\n];\n" ∧
    ¬ PatchesAlike .cr "// M" "];" "// M\nms\n];" "a\n// M\n];\n" := by
  have hlines : IsOneLine "// M" ∧ IsOneLine "];" := by decide
  have hspan : (spans "// M" "];" "a\n// M\n];\n").head? = some ⟨2, 9⟩ := by decide
  obtain ⟨start, close, hfirst, -⟩ := isFirst_of_head?_spans hspan
  refine ⟨hlines, ?_, fun hcr => ?_⟩
  · exact (patchesAlike_iff hlines.1 hlines.2 _ _ _).2 (.inl (by decide))
  · rcases (patchesAlike_iff hlines.1 hlines.2 _ _ _).1 hcr with hne | hnone | ⟨hanchor, -⟩
    · exact hne rfl
    · exact hnone start close hfirst.toStandsAt
    · exact absurd hanchor (by decide)

/-- A region of a consumer with LF is not found once its line breaks are lone CRs. -/
theorem not_patchesAlike_cr : ¬ ∀ (anchor endMarker arrayName apiName bundle t : Text)
    (ending : LineEnding), .scalar '\r' ∉ t → anchor.IsOneLine → endMarker.IsOneLine →
      ending ≠ .lf → PatchesAlike ending anchor endMarker
        (Declaration.block anchor arrayName (Method.ofBundle apiName bundle)) t := by
  intro hall
  have hlines : Declaration.standardAnchor.IsOneLine ∧ standardEndMarker.IsOneLine := by decide
  have hfound := (hall Declaration.standardAnchor standardEndMarker Declaration.standardArrayName
    standardApiName "" "a\n// Sypnex API method definitions\n];\n" .cr (by decide) hlines.1 hlines.2
    (by decide)).1
  exact absurd hfound (by decide +kernel)

end Region

end DeclSync
