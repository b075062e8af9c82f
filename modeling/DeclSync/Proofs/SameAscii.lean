import DeclSync.Proofs.Regions
import DeclSync.Proofs.Utf8

/-!
# Texts that agree in their ASCII characters

A text that is written and read back keeps its ASCII characters, while a run of other code points
comes back as another such run. Line breaks and end markers are ASCII, so the two texts have the
same line breaks, and the same marks at their line starts.

## Main definitions

- `Text.SameAscii` — two texts with the same ASCII characters and runs of others in the same places

`Text.sameAscii_reread` says that a text that can be written is such a pair with the text that is
read back.
-/

namespace DeclSync

namespace Text

/-- Two texts with the same ASCII characters, between which runs of other code points stand in the
same places. -/
inductive SameAscii : Text → Text → Prop where
  | nil : SameAscii [] []
  | ascii {c : CodePoint} {u v : Text} (hc : c.isAscii = true) (rest : SameAscii u v) :
      SameAscii (c :: u) (c :: v)
  | run {w w' u v : Text} (hne : w ≠ []) (hne' : w' ≠ []) (hw : ∀ c ∈ w, c.isAscii = false)
      (hw' : ∀ c ∈ w', c.isAscii = false) (rest : SameAscii u v) : SameAscii (w ++ u) (w' ++ v)

namespace SameAscii

variable {u v : Text}

theorem symm (h : SameAscii u v) : SameAscii v u := by
  induction h with
  | nil => exact nil
  | ascii hc _ ih => exact ascii hc ih
  | run hne hne' hw hw' _ ih => exact run hne' hne hw' hw ih

theorem notMem_of_forall {w : Text} (hw : ∀ c ∈ w, c.isAscii = false) {c : CodePoint}
    (hc : c.isAscii = true) : c ∉ w := by
  intro hmem
  rw [hw c hmem] at hc
  exact absurd hc (by decide)

theorem count_eq (h : SameAscii u v) {c : CodePoint} (hc : c.isAscii = true) :
    u.count c = v.count c := by
  induction h with
  | nil => rfl
  | ascii _ _ ih => rw [List.count_cons, List.count_cons, ih]
  | run _ _ hw hw' _ ih =>
    rw [List.count_append, List.count_append, ih,
      List.count_eq_zero.2 (notMem_of_forall hw hc), List.count_eq_zero.2 (notMem_of_forall hw' hc)]

theorem eq_nil (h : SameAscii [] v) : v = [] := by
  generalize hu : ([] : Text) = u at h
  cases h with
  | nil => rfl
  | ascii => exact absurd hu (by simp)
  | run hne => exact absurd (List.append_eq_nil_iff.1 hu.symm).1 hne

end SameAscii

theorem forall_isAscii_reread {w : Text} (hw : ∀ c ∈ w, c.isAscii = false) :
    ∀ c ∈ w.reread, c.isAscii = false := by
  intro c hc
  by_contra hascii
  obtain ⟨b, hb, hlt⟩ := CodePoint.exists_bytes_eq (by simpa using hascii)
  -- its byte was there when the text was written, and only an ASCII character has such a byte
  have hmem : b ∈ w.reread.flatMap CodePoint.bytes := List.mem_flatMap.2 ⟨c, hc, by simp [hb]⟩
  rw [bytes_reread] at hmem
  obtain ⟨d, hd, hbd⟩ := List.mem_flatMap.1 hmem
  exact absurd (CodePoint.bytes_eq_of_mem hbd hlt).2 (by simp [hw d hd])

theorem reread_ne_nil {t : Text} (hne : t ≠ []) (h : ∀ c ∈ t, c.isWritable = true) :
    t.reread ≠ [] := by
  intro hnil
  obtain ⟨c, t, rfl⟩ := List.exists_cons_of_ne_nil hne
  have hbytes := bytes_reread (c :: t)
  rw [hnil, List.flatMap_cons] at hbytes
  exact CodePoint.bytes_ne_nil (h c List.mem_cons_self) (List.append_eq_nil_iff.1 hbytes.symm).1

/-- A text that can be written and the text that is read back have the same ASCII characters. The
induction is on the length, since a run of other code points is read back as a whole. -/
theorem sameAscii_reread {t : Text} (h : ∀ c ∈ t, c.isWritable = true) : SameAscii t t.reread := by
  induction hn : t.length using Nat.strongRecOn generalizing t with
  | ind n ih =>
    cases t with
    | nil => exact .nil
    | cons c t =>
      by_cases hc : c.isAscii = true
      · rw [reread_cons hc]
        refine .ascii hc (ih t.length ?_ (fun d hd => h d (List.mem_cons_of_mem _ hd)) rfl)
        rw [← hn]
        exact Nat.lt_succ_self _
      · have hsplit := List.takeWhile_append_dropWhile (p := fun c => !c.isAscii) (l := c :: t)
        have hw : ∀ d ∈ (c :: t).takeWhile (fun c => !c.isAscii), d.isAscii = false :=
          fun d hd => by simpa using List.mem_takeWhile_imp hd
        have hne : (c :: t).takeWhile (fun c => !c.isAscii) ≠ [] := by
          rw [List.takeWhile_cons_of_pos (by simpa using hc)]
          exact List.cons_ne_nil _ _
        have hbegins : BeginsAscii ((c :: t).dropWhile fun c => !c.isAscii) := by
          intro d hd
          have hhead := List.head?_dropWhile_not (fun c => !CodePoint.isAscii c) (c :: t)
          rw [Option.mem_def.1 hd] at hhead
          simpa using hhead
        generalize (c :: t).takeWhile (fun c => !c.isAscii) = w at hsplit hw hne
        generalize (c :: t).dropWhile (fun c => !c.isAscii) = rest at hsplit hbegins
        rw [← hsplit] at h hn ⊢
        rw [reread_append (.inr hbegins)]
        refine .run hne (reread_ne_nil hne fun d hd => h d (List.mem_append_left _ hd)) hw
          (forall_isAscii_reread hw)
          (ih rest.length ?_ (fun d hd => h d (List.mem_append_right _ hd)) rfl)
        have hpos := List.length_pos_iff.2 hne
        rw [← hn, List.length_append]
        omega

/-- A mark of ASCII characters begins both texts, and the same is left after it, or neither. -/
theorem SameAscii.after?_eq_some {u v mark r : Text} (h : SameAscii u v)
    (hmark : ∀ c ∈ mark, c.isAscii = true) (hr : after? mark u = some r) :
    ∃ r', after? mark v = some r' ∧ SameAscii r r' := by
  induction mark generalizing u v with
  | nil =>
    obtain rfl : u = r := by simpa [after?] using hr
    exact ⟨v, rfl, h⟩
  | cons m mark ih =>
    obtain ⟨hm, hrest⟩ := List.forall_mem_cons.1 hmark
    cases h with
    | nil => exact absurd hr (by simp [after?])
    | @ascii c u v hc rest =>
      rw [after?] at hr ⊢
      split at hr
      · next heq =>
        rw [if_pos heq]
        exact ih rest hrest hr
      · exact absurd hr (by simp)
    | @run w w' u v hne _ hw _ _ =>
      obtain ⟨d, w, rfl⟩ := List.exists_cons_of_ne_nil hne
      have hd : d ≠ m := fun heq => SameAscii.notMem_of_forall hw hm (heq ▸ List.mem_cons_self)
      rw [List.cons_append, after?, if_neg hd] at hr
      exact absurd hr (by simp)

theorem SameAscii.prefix_iff {u v mark : Text} (h : SameAscii u v)
    (hmark : ∀ c ∈ mark, c.isAscii = true) : mark <+: u ↔ mark <+: v := by
  have hdirection : ∀ {u v : Text}, SameAscii u v → mark <+: u → mark <+: v := by
    intro u v h hprefix
    obtain ⟨r, hr⟩ := Option.isSome_iff_exists.1 (isSome_after?_iff.2 hprefix)
    obtain ⟨r', hr', -⟩ := h.after?_eq_some hmark hr
    exact isSome_after?_iff.1 (by rw [hr']; rfl)
  exact ⟨hdirection h, hdirection h.symm⟩

end Text

namespace Region

open Text

/-- In the search for an ASCII mark, other code points are passed over. -/
theorem afterLineMark?_append_of_forall {mark w : Text} (hmark : ∀ c ∈ mark, c.isAscii = true)
    (hne : mark ≠ []) (hw : ∀ c ∈ w, c.isAscii = false) (hw' : w ≠ []) (atLineStart : Bool)
    (t : Text) : afterLineMark? mark atLineStart (w ++ t) = afterLineMark? mark false t := by
  obtain ⟨m, mark, rfl⟩ := List.exists_cons_of_ne_nil hne
  have hm := (List.forall_mem_cons.1 hmark).1
  have hpass : ∀ (c : CodePoint) (atLineStart : Bool) (t : Text), c.isAscii = false →
      afterLineMark? (m :: mark) atLineStart (c :: t) = afterLineMark? (m :: mark) false t := by
    intro c atLineStart t hc
    have hlf : decide (c = .scalar '\n') = false := by
      refine decide_eq_false fun heq => ?_
      rw [heq] at hc
      exact absurd hc (by decide)
    rw [afterLineMark?_cons fun _ hprefix => ?_, hlf]
    rw [(List.cons_prefix_cons.1 hprefix).1, hc] at hm
    exact absurd hm (by decide)
  induction w generalizing atLineStart with
  | nil => exact absurd rfl hw'
  | cons c w ih =>
    obtain ⟨hc, hrest⟩ := List.forall_mem_cons.1 hw
    rw [List.cons_append, hpass c atLineStart _ hc]
    cases w with
    | nil => rfl
    | cons d w => exact ih hrest (List.cons_ne_nil _ _) false

/-- The first line start where an ASCII mark stands is the same in both texts. -/
theorem afterLineMark?_sameAscii {mark u v r : Text} (hmark : ∀ c ∈ mark, c.isAscii = true)
    (hne : mark ≠ []) (h : SameAscii u v) {atLineStart : Bool}
    (hr : afterLineMark? mark atLineStart u = some r) :
    ∃ r', afterLineMark? mark atLineStart v = some r' ∧ SameAscii r r' := by
  induction h generalizing atLineStart with
  | nil =>
    obtain ⟨m, mark, rfl⟩ := List.exists_cons_of_ne_nil hne
    cases atLineStart <;> exact absurd hr (by simp [afterLineMark?, after?])
  | @ascii c u v hc rest ih =>
    have hwhole : SameAscii (c :: u) (c :: v) := .ascii hc rest
    -- the mark stands here in both texts or in neither
    by_cases hhere : atLineStart = true ∧ mark <+: c :: u
    · obtain ⟨rfl, hprefix⟩ := hhere
      obtain ⟨x, hx⟩ := Option.isSome_iff_exists.1 (isSome_after?_iff.2 hprefix)
      obtain ⟨x', hx', hsame⟩ := hwhole.after?_eq_some hmark hx
      rw [afterLineMark?, if_pos rfl, hx] at hr
      obtain rfl : x = r := by simpa using hr
      refine ⟨x', ?_, hsame⟩
      rw [afterLineMark?, if_pos rfl, hx']
    · have hno : atLineStart = true → ¬ mark <+: c :: u := fun hstart hprefix =>
        hhere ⟨hstart, hprefix⟩
      rw [afterLineMark?_cons hno] at hr
      rw [afterLineMark?_cons fun hstart hprefix => hno hstart ((hwhole.prefix_iff hmark).2 hprefix)]
      exact ih hr
  | run hw hw' hascii hascii' _ ih =>
    rw [afterLineMark?_append_of_forall hmark hne hascii hw] at hr
    rw [afterLineMark?_append_of_forall hmark hne hascii' hw']
    exact ih hr

/-- A text that is one region as a whole still is if what follows the anchor keeps its ASCII
characters. -/
theorem read?_sameAscii {anchor endMarker u v : Text} (hmark : ∀ c ∈ endMarker, c.isAscii = true)
    (hne : endMarker ≠ []) (h : SameAscii u v)
    (hread : read? anchor endMarker none (anchor ++ u) = some ((), [])) :
    read? anchor endMarker none (anchor ++ v) = some ((), []) := by
  simp only [read?, after?_append, Option.all_none, guard_true, Option.pure_def,
    Option.bind_eq_bind, Option.bind_some, Option.bind_eq_some_iff, Option.some.injEq, Prod.mk.injEq,
    true_and] at hread ⊢
  obtain ⟨rest, hrest, rfl⟩ := hread
  obtain ⟨rest', hrest', hsame⟩ := afterLineMark?_sameAscii hmark hne h hrest
  exact ⟨rest', hrest', hsame.eq_nil⟩

end Region

end DeclSync
