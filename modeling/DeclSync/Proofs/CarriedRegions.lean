import DeclSync.Proofs.Regions

/-!
# Regions of a text that is written in another form

A text can be written with another line break in the place of LF, or as bytes: each code point is
written by itself, and what is written stands one after the other. Then every offset of the text has
an offset in what is written. If a line feed ends what is written for LF and stands nowhere else,
and if the marks stand only where they stood in the text, then the regions of what is written are
those of the text, at the offsets that theirs have there.

## Main definitions

- `Region.StandsIn`, `Region.IsFirstIn` — regions of a list whose lines end with a line feed
- `Text.offsetIn` — the offset that an offset of a text has in what is written
- `Region.Carries` — what a form has to satisfy

`Region.Carries.standsIn_iff` says where the regions are, and `Region.Carries.isFirstIn_of_isFirst`
where the first one is.
-/

namespace DeclSync

variable {β : Type}

/-- An offset of a list where a line starts: its beginning, or right after a line feed. -/
def IsLineStartIn (lineFeed : β) (t : List β) (p : Nat) : Prop :=
  p = 0 ∨ ∃ q, p = q + 1 ∧ t[q]? = some lineFeed

namespace Text

variable {f : CodePoint → List β} {t : Text} {p q : Nat}

/-! ## Offsets in what is written -/

/-- The offset that an offset of a text has once each code point is written as a list. -/
def offsetIn (f : CodePoint → List β) (t : Text) (p : Nat) : Nat := ((t.take p).flatMap f).length

theorem flatMap_eq_append (f : CodePoint → List β) (t : Text) (p : Nat) :
    t.flatMap f = (t.take p).flatMap f ++ (t.drop p).flatMap f := by
  rw [← List.flatMap_append, List.take_append_drop]

theorem take_offsetIn (f : CodePoint → List β) (t : Text) (p : Nat) :
    (t.flatMap f).take (t.offsetIn f p) = (t.take p).flatMap f := by
  rw [flatMap_eq_append f t p]
  exact List.take_left

theorem drop_offsetIn (f : CodePoint → List β) (t : Text) (p : Nat) :
    (t.flatMap f).drop (t.offsetIn f p) = (t.drop p).flatMap f := by
  rw [flatMap_eq_append f t p]
  exact List.drop_left

theorem offsetIn_cons_succ (f : CodePoint → List β) (c : CodePoint) (t : Text) (p : Nat) :
    offsetIn f (c :: t) (p + 1) = (f c).length + t.offsetIn f p := by
  rw [offsetIn, List.take_succ_cons, List.flatMap_cons, List.length_append, offsetIn]

/-- Behind a mark, the offset has moved on by what is written for the mark. -/
theorem offsetIn_add {mark : Text} (h : mark <+: t.drop p) :
    t.offsetIn f (p + mark.length) = t.offsetIn f p + (mark.flatMap f).length := by
  obtain ⟨rest, hrest⟩ := h
  have htake : t.take (p + mark.length) = t.take p ++ mark := by
    rw [List.take_add, ← hrest, List.take_left]
  rw [offsetIn, htake, List.flatMap_append, List.length_append, offsetIn]

theorem offsetIn_mono (f : CodePoint → List β) (t : Text) (h : p ≤ q) :
    t.offsetIn f p ≤ t.offsetIn f q := by
  obtain ⟨n, rfl⟩ := Nat.exists_eq_add_of_le h
  rw [offsetIn, offsetIn, List.take_add, List.flatMap_append, List.length_append]
  exact Nat.le_add_right _ _

/-- If something is written for every code point, later offsets stay later. -/
theorem offsetIn_lt (hne : ∀ c ∈ t, f c ≠ []) (h : p < q) (hp : p < t.length) :
    t.offsetIn f p < t.offsetIn f q := by
  have hnext : t.offsetIn f (p + 1) = t.offsetIn f p + (f t[p]).length := by
    have hmark : [t[p]] <+: t.drop p := ⟨t.drop (p + 1), (List.drop_eq_getElem_cons hp).symm⟩
    have hadd := offsetIn_add (f := f) hmark
    rwa [List.flatMap_singleton] at hadd
  have hpos := List.length_pos_of_ne_nil (hne t[p] (List.getElem_mem hp))
  have hle : t.offsetIn f (p + 1) ≤ t.offsetIn f q := offsetIn_mono f t h
  omega

theorem offsetIn_le_iff (hne : ∀ c ∈ t, f c ≠ []) (hp : p ≤ t.length) :
    t.offsetIn f p ≤ t.offsetIn f q ↔ p ≤ q := by
  constructor
  · intro hle
    by_contra hlt
    rw [Nat.not_le] at hlt
    have := offsetIn_lt hne hlt (Nat.lt_of_lt_of_le hlt hp)
    omega
  · exact offsetIn_mono f t

/-! ## Line starts -/

/-- A line feed that ends what is written for LF, and stands nowhere else. -/
structure WritesLineFeed (f : CodePoint → List β) (lineFeed : β) : Prop where
  last : ∃ w, f (.scalar '\n') = w ++ [lineFeed] ∧ lineFeed ∉ w
  only : ∀ c, c ≠ .scalar '\n' → lineFeed ∉ f c

variable {lineFeed : β}

/-- Where a line feed is written, there stood an LF. -/
theorem WritesLineFeed.exists_of_getElem? (h : WritesLineFeed f lineFeed)
    (hq : (t.flatMap f)[q]? = some lineFeed) :
    ∃ p, t[p]? = some (.scalar '\n') ∧ t.offsetIn f (p + 1) = q + 1 := by
  induction t generalizing q with
  | nil => simp at hq
  | cons c t ih =>
    rw [List.flatMap_cons] at hq
    by_cases hlt : q < (f c).length
    · rw [List.getElem?_append_left hlt] at hq
      have hmem := List.mem_of_getElem? hq
      by_cases hc : c = .scalar '\n'
      · obtain ⟨w, hw, hnotMem⟩ := h.last
        subst hc
        rw [hw, List.length_append, List.length_singleton] at hlt
        -- it is the last one, since it does not stand before that
        have hend : q = w.length := by
          by_contra hne
          rw [hw, List.getElem?_append_left (by omega)] at hq
          exact hnotMem (List.mem_of_getElem? hq)
        refine ⟨0, rfl, ?_⟩
        rw [offsetIn_cons_succ, hw, hend]
        simp [offsetIn]
      · exact absurd hmem (h.only c hc)
    · obtain ⟨n, rfl⟩ := Nat.exists_eq_add_of_le (Nat.le_of_not_lt hlt)
      rw [List.getElem?_append_right (Nat.le_add_right _ _), Nat.add_sub_cancel_left] at hq
      obtain ⟨p, hp, hoffset⟩ := ih hq
      refine ⟨p + 1, by simpa using hp, ?_⟩
      rw [offsetIn_cons_succ, hoffset, Nat.add_assoc]

/-- Behind what is written for an LF stands a line feed. -/
theorem WritesLineFeed.getElem?_of_lf (h : WritesLineFeed f lineFeed)
    (hp : t[p]? = some (.scalar '\n')) :
    ∃ q, t.offsetIn f (p + 1) = q + 1 ∧ (t.flatMap f)[q]? = some lineFeed := by
  obtain ⟨w, hw, -⟩ := h.last
  obtain ⟨hlt, hget⟩ := List.getElem?_eq_some_iff.1 hp
  have hdrop : t.drop p = .scalar '\n' :: t.drop (p + 1) := by
    rw [List.drop_eq_getElem_cons hlt, hget]
  have hnext : t.offsetIn f (p + 1) = t.offsetIn f p + (w ++ [lineFeed]).length := by
    have hmark : [CodePoint.scalar '\n'] <+: t.drop p := ⟨t.drop (p + 1), hdrop.symm⟩
    have hadd := offsetIn_add (f := f) hmark
    rwa [List.flatMap_singleton, hw] at hadd
  refine ⟨t.offsetIn f p + w.length, ?_, ?_⟩
  · rw [hnext, List.length_append, List.length_singleton, Nat.add_assoc]
  · rw [← List.getElem?_drop, drop_offsetIn, hdrop, List.flatMap_cons, hw]
    simp

/-- Lines start where they started in the text. -/
theorem WritesLineFeed.isLineStartIn_iff (h : WritesLineFeed f lineFeed) :
    IsLineStartIn lineFeed (t.flatMap f) q ↔ ∃ p, t.IsLineStart p ∧ t.offsetIn f p = q := by
  constructor
  · rintro (rfl | ⟨k, rfl, hk⟩)
    · exact ⟨0, .inl rfl, rfl⟩
    · obtain ⟨p, hp, hoffset⟩ := h.exists_of_getElem? hk
      exact ⟨p + 1, .inr ⟨p, rfl, hp⟩, hoffset⟩
  · rintro ⟨p, rfl | ⟨k, rfl, hk⟩, rfl⟩
    · exact .inl rfl
    · exact .inr (h.getElem?_of_lf hk)

end Text

namespace Region

open Text

/-! ## Regions of what is written -/

/-- A region of a list: the anchor stands at a line start, and the end marker at a line start that
is not before the end of the anchor. -/
structure StandsIn (lineFeed : β) (anchor endMarker t : List β) (start close : Nat) : Prop where
  opens_line : IsLineStartIn lineFeed t start
  opens : anchor <+: t.drop start
  closes_line : IsLineStartIn lineFeed t close
  closes : endMarker <+: t.drop close
  apart : start + anchor.length ≤ close

/-- The first region of a list: no region starts before it, and none that starts where it does
closes before it. -/
structure IsFirstIn (lineFeed : β) (anchor endMarker t : List β) (start close : Nat) : Prop extends
    StandsIn lineFeed anchor endMarker t start close where
  least_start : ∀ start' close', StandsIn lineFeed anchor endMarker t start' close' → start ≤ start'
  least_close : ∀ close', StandsIn lineFeed anchor endMarker t start close' → close ≤ close'

variable {anchor endMarker t : Text}

theorem standsIn_lf_iff {start close : Nat} :
    StandsIn (.scalar '\n') anchor endMarker t start close ↔
      StandsAt anchor endMarker t start close :=
  ⟨fun ⟨hstart, hopens, hclose, hcloses, hapart⟩ => ⟨hstart, hopens, hclose, hcloses, hapart⟩,
    fun ⟨hstart, hopens, hclose, hcloses, hapart⟩ => ⟨hstart, hopens, hclose, hcloses, hapart⟩⟩

theorem isFirstIn_lf_iff {start close : Nat} :
    IsFirstIn (.scalar '\n') anchor endMarker t start close ↔
      IsFirst anchor endMarker t start close := by
  constructor
  · rintro ⟨h, hstart, hclose⟩
    exact ⟨⟨standsIn_lf_iff.1 h, fun _ h' => hclose _ (standsIn_lf_iff.2 h')⟩,
      fun _ _ h' => hstart _ _ (standsIn_lf_iff.2 h')⟩
  · rintro ⟨⟨h, hclose⟩, hstart⟩
    exact ⟨standsIn_lf_iff.2 h, fun _ _ h' => hstart _ _ (standsIn_lf_iff.1 h'),
      fun _ h' => hclose _ (standsIn_lf_iff.1 h')⟩

/-- A form in which no code point of a text is left out, lines start where they started in the text,
and the marks stand at a line start only if they stood there. -/
structure Carries (f : CodePoint → List β) (lineFeed : β) (anchor endMarker t : Text) : Prop where
  ne_nil : ∀ c ∈ t, f c ≠ []
  lineFeed : WritesLineFeed f lineFeed
  anchor : ∀ p, t.IsLineStart p → anchor.flatMap f <+: (t.drop p).flatMap f → anchor <+: t.drop p
  endMarker : ∀ p, t.IsLineStart p → endMarker.flatMap f <+: (t.drop p).flatMap f →
    endMarker <+: t.drop p

namespace Carries

variable {f : CodePoint → List β} {lineFeed : β} {start close : Nat}

theorem prefix_flatMap {mark u : Text} (h : mark <+: u) :
    mark.flatMap f <+: u.flatMap f := by
  obtain ⟨rest, rfl⟩ := h
  rw [List.flatMap_append]
  exact List.prefix_append _ _

/-- The end of an anchor is not behind an offset in what is written if it is not in the text. -/
theorem apart_iff (h : Carries f lineFeed anchor endMarker t) (hopens : anchor <+: t.drop start)
    (hstart : t.IsLineStart start) :
    t.offsetIn f start + (anchor.flatMap f).length ≤ t.offsetIn f close ↔
      start + anchor.length ≤ close := by
  have hfits := hopens.length_le
  have hbound := hstart.le_length
  rw [List.length_drop] at hfits
  rw [← offsetIn_add hopens]
  exact offsetIn_le_iff h.ne_nil (by omega)

/-- The regions of what is written are those of the text. -/
theorem standsIn_iff (h : Carries f lineFeed anchor endMarker t) {q r : Nat} :
    StandsIn lineFeed (anchor.flatMap f) (endMarker.flatMap f) (t.flatMap f) q r ↔
      ∃ start close, StandsAt anchor endMarker t start close ∧ t.offsetIn f start = q ∧
        t.offsetIn f close = r := by
  constructor
  · rintro ⟨hstart, hopens, hclose, hcloses, hapart⟩
    obtain ⟨start, hstart', rfl⟩ := h.lineFeed.isLineStartIn_iff.1 hstart
    obtain ⟨close, hclose', rfl⟩ := h.lineFeed.isLineStartIn_iff.1 hclose
    rw [drop_offsetIn] at hopens hcloses
    have hopens' := h.anchor start hstart' hopens
    have hcloses' := h.endMarker close hclose' hcloses
    have hapart' := (h.apart_iff hopens' hstart').1 hapart
    exact ⟨start, close, ⟨hstart', hopens', hclose', hcloses', hapart'⟩, rfl, rfl⟩
  · rintro ⟨start, close, ⟨hstart, hopens, hclose, hcloses, hapart⟩, rfl, rfl⟩
    refine ⟨h.lineFeed.isLineStartIn_iff.2 ⟨start, hstart, rfl⟩, ?_,
      h.lineFeed.isLineStartIn_iff.2 ⟨close, hclose, rfl⟩, ?_,
      (h.apart_iff hopens hstart).2 hapart⟩
    · rw [drop_offsetIn]
      exact prefix_flatMap hopens
    · rw [drop_offsetIn]
      exact prefix_flatMap hcloses

/-- The first region of what is written is that of the text. -/
theorem isFirstIn_of_isFirst (h : Carries f lineFeed anchor endMarker t)
    (hfirst : IsFirst anchor endMarker t start close) :
    IsFirstIn lineFeed (anchor.flatMap f) (endMarker.flatMap f) (t.flatMap f)
      (t.offsetIn f start) (t.offsetIn f close) := by
  refine ⟨h.standsIn_iff.2 ⟨start, close, hfirst.toStandsAt, rfl, rfl⟩, fun q r h' => ?_,
    fun r h' => ?_⟩
  · obtain ⟨start', close', hstands, rfl, rfl⟩ := h.standsIn_iff.1 h'
    exact offsetIn_mono f t (hfirst.least_start _ _ hstands)
  · obtain ⟨start', close', hstands, hsame, rfl⟩ := h.standsIn_iff.1 h'
    -- two line starts that come to the same offset are the same one
    have hle := (offsetIn_le_iff h.ne_nil hstands.opens_line.le_length).1 (Nat.le_of_eq hsame)
    obtain rfl := Nat.le_antisymm hle (hfirst.least_start _ _ hstands)
    exact offsetIn_mono f t (hfirst.least_close _ hstands)

end Carries

end Region

end DeclSync
