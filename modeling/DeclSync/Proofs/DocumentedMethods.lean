import DeclSync.Method.Documented
import DeclSync.Proofs.Descriptions
import DeclSync.Proofs.Headers
import DeclSync.Proofs.Marks
import DeclSync.Proofs.Occurrences

/-!
# The documented methods of a bundle

The grammar of documented headers, in terms of the offsets where the marks of a comment stand and of
the spelling of the header behind it. The methods that are found are those that a scan over this
grammar takes, from left to right and without overlap.

## Main definitions

- `Documented.Reading` — what a documented header is made of
- `Documented.StandsIn` — that a documented header stands in a text, in one reading
- `Documented.described` — the method that a documented header stands for
-/

namespace DeclSync

/-- The piece of a text from one offset up to another. -/
def Text.slice (t : Text) (start stop : Nat) : Text := (t.take stop).drop start

namespace Documented

open Text

/-- What a documented header is made of: where the comment closes, the blanks after it, and the
header with all its parts. -/
structure Reading where
  close : Nat
  gap : Text
  spelling : Header.Spelling

/-- A documentation comment begins where the occurrence starts, closes at the first closing mark
after that, and has nothing but blanks between it and a header, with which the occurrence stops. -/
structure StandsIn (t : Text) (o : Occurrence Reading) : Prop where
  opens : ("/**" : Text) <+: t.drop o.start
  closes : ("*/" : Text) <+: t.drop o.value.close
  apart : o.start + 3 ≤ o.value.close
  nearest : ∀ k, o.start + 3 ≤ k → k < o.value.close → ¬ ("*/" : Text) <+: t.drop k
  blank_gap : ∀ c ∈ o.value.gap, c.isBlank = true
  follows : o.value.gap ++ o.value.spelling.text <+: t.drop (o.value.close + 2)
  stops : o.stop = o.value.close + 2 + (o.value.gap ++ o.value.spelling.text).length

/-- The method that a documented header of a text stands for. -/
def described (apiName t : Text) (o : Occurrence Reading) : Method :=
  let comment := t.slice o.start (o.value.close + 2)
  let name := o.value.spelling.name
  { name := name
    params := o.value.spelling.params.trim
    isAsync := o.value.spelling.async.isSome
    description := comment.commentSummary?.getD (Method.descriptionOf name none apiName)
    comment := some comment }

/-- What the reader of documented headers gives for one that stands in a text. -/
def Reading.found (t : Text) (o : Occurrence Reading) : Occurrence Documented :=
  ⟨o.toSpan, ⟨t.slice o.start (o.value.close + 2), o.value.spelling.header⟩⟩

/-! ## One reading at each offset -/

theorem beginsWithout_isBlank_text (s : Header.Spelling) (rest : Text) :
    BeginsWithout CodePoint.isBlank (s.text ++ rest) :=
  Header.beginsWithout_isBlank_of_beginsIdentifier (s.beginsIdentifier_text_append rest)

theorem gap_append_inj {gap gap' rest rest' : Text} {s s' : Header.Spelling}
    (hgap : ∀ c ∈ gap, c.isBlank = true) (hgap' : ∀ c ∈ gap', c.isBlank = true)
    (h : gap ++ (s.text ++ rest) = gap' ++ (s'.text ++ rest')) :
    gap = gap' ∧ s = s' ∧ rest = rest' := by
  -- a header does not begin with a blank, so the blanks end with the gap
  have hsame := congrArg (List.takeWhile CodePoint.isBlank) h
  rw [takeWhile_append_of_beginsWithout hgap (beginsWithout_isBlank_text s rest),
    takeWhile_append_of_beginsWithout hgap' (beginsWithout_isBlank_text s' rest')] at hsame
  subst hsame
  exact ⟨rfl, Header.Spelling.text_append_inj (List.append_cancel_left h)⟩

namespace StandsIn

variable {t : Text} {o other : Occurrence Reading}

/-- A comment closes at one place only. -/
theorem close_eq (h : StandsIn t o) (hother : StandsIn t other) (hstart : o.start = other.start) :
    o.value.close = other.value.close := by
  rcases Nat.lt_trichotomy o.value.close other.value.close with hlt | heq | hlt
  · exact absurd h.closes (hother.nearest _ (hstart ▸ h.apart) hlt)
  · exact heq
  · exact absurd hother.closes (h.nearest _ (hstart ▸ hother.apart) hlt)

/-- At most one documented header begins at an offset, and it has one reading. -/
theorem unique (h : StandsIn t o) (hother : StandsIn t other) (hstart : o.start = other.start) :
    o = other := by
  have hclose := h.close_eq hother hstart
  obtain ⟨rest, hrest⟩ := h.follows
  obtain ⟨rest', hrest'⟩ := hother.follows
  rw [← hclose, ← hrest, List.append_assoc, List.append_assoc] at hrest'
  obtain ⟨hgap, hspelling, -⟩ := gap_append_inj hother.blank_gap h.blank_gap hrest'
  have hstop : o.stop = other.stop := by rw [h.stops, hother.stops, hclose, hgap, hspelling]
  obtain ⟨⟨start, stop⟩, ⟨close, gap, spelling⟩⟩ := o
  obtain ⟨⟨start', stop'⟩, ⟨close', gap', spelling'⟩⟩ := other
  simp only at hstart hstop hclose hgap hspelling
  rw [hstart, hstop, hclose, hgap, hspelling]

end StandsIn

/-! ## What the reader finds -/

/-- A comment, blanks and a header, with a text after them. -/
def spelled (body gap : Text) (s : Header.Spelling) (rest : Text) : Text :=
  "/**" ++ (body ++ ("*/" ++ (gap ++ (s.text ++ rest))))

/-- The reading of a comment, blanks and a header that begin at an offset. -/
def Reading.ofParts (offset : Nat) (body gap : Text) (s : Header.Spelling) : Occurrence Reading :=
  ⟨⟨offset, offset + (spelled body gap s []).length⟩, ⟨offset + (3 + body.length), gap, s⟩⟩

section Parts

variable {body gap rest : Text} {s : Header.Spelling}

theorem drop_opening (t : Text) (k : Nat) : ("/**" ++ t : Text).drop (3 + k) = t.drop k := by
  rw [Nat.add_comm]
  rfl

/-- A documented header is read exactly where a comment, blanks and a header follow each other. -/
theorem read?_eq_some_iff {t : Text} {d : Documented} :
    read? t = some (d, rest) ↔ ∃ (body gap : Text) (s : Header.Spelling),
      t = spelled body gap s rest ∧ (∀ k < body.length, ¬ ("*/" : Text) <+: t.drop (3 + k)) ∧
      (∀ c ∈ gap, c.isBlank = true) ∧ (⟨"/**" ++ body ++ "*/", s.header⟩ : Documented) = d := by
  simp only [read?, Option.bind_eq_bind, Option.bind_eq_some_iff, after?_eq_some_iff]
  constructor
  · rintro ⟨afterOpening, rfl, ⟨body, afterComment⟩, hcut, ⟨h, rest'⟩, hheader, heq⟩
    obtain ⟨rfl, rfl⟩ := Prod.mk.inj (Option.some.inj heq)
    obtain ⟨hopened, hfirst⟩ := cut?_eq_some_iff.1 hcut
    obtain ⟨s, rfl, hspelled⟩ := Header.read?_eq_some_iff.1 hheader
    refine ⟨body, afterComment.takeWhile CodePoint.isBlank, s, ?_, fun k hk => ?_,
      fun c hc => List.mem_takeWhile_imp hc, rfl⟩
    · rw [spelled, ← hspelled, trimStart, List.takeWhile_append_dropWhile, hopened]
    · rw [drop_opening]
      exact hfirst k hk
  · rintro ⟨body, gap, s, rfl, hfirst, hgap, rfl⟩
    simp only [spelled, drop_opening] at hfirst
    have htrim : trimStart (gap ++ (s.text ++ rest)) = s.text ++ rest :=
      dropWhile_append_of_beginsWithout hgap (beginsWithout_isBlank_text s rest)
    refine ⟨_, rfl, (body, _), cut?_eq_some_iff.2 ⟨rfl, hfirst⟩, (s.header, rest), ?_, rfl⟩
    rw [htrim]
    exact Header.read?_text_append s rest

theorem read?_eq_none {t : Text} (h : ¬ ("/**" : Text) <+: t) : read? t = none := by
  rw [read?, after?_eq_none_iff.2 h]
  rfl

theorem spelled_append : spelled body gap s [] ++ rest = spelled body gap s rest := by
  simp only [spelled, List.append_assoc, List.append_nil]

/-- The reader gives what is left of a text, and reads at least the marks of a comment. -/
theorem read?_advances : Reader.Advances fun _ => read? := by
  intro _ t d rest h
  obtain ⟨body, gap, s, rfl, -⟩ := read?_eq_some_iff.1 h
  exact ⟨spelled body gap s [], by simp [spelled, ofString], spelled_append.symm⟩

/-- A comment, blanks and a header stand where they follow each other. -/
theorem standsIn_append (u : Text)
    (hnearest : ∀ k < body.length, ¬ ("*/" : Text) <+: (spelled body gap s rest).drop (3 + k))
    (hgap : ∀ c ∈ gap, c.isBlank = true) :
    StandsIn (u ++ spelled body gap s rest) (Reading.ofParts u.length body gap s) where
  opens := by
    rw [Reading.ofParts, List.drop_left]
    exact List.prefix_append _ _
  closes := by
    rw [Reading.ofParts, List.drop_length_add_append, spelled, drop_opening, List.drop_left]
    exact List.prefix_append _ _
  apart := by
    simp only [Reading.ofParts]
    omega
  nearest := by
    intro k hle hlt
    obtain ⟨k, rfl⟩ := Nat.exists_eq_add_of_le hle
    simp only [Reading.ofParts] at hlt ⊢
    rw [Nat.add_assoc, List.drop_length_add_append]
    exact hnearest k (by omega)
  blank_gap := hgap
  follows := by
    simp only [Reading.ofParts]
    rw [Nat.add_assoc, List.drop_length_add_append, Nat.add_assoc, spelled, drop_opening,
      List.drop_length_add_append, ← List.append_assoc gap]
    exact List.prefix_append _ _
  stops := by
    simp only [Reading.ofParts, spelled, List.length_append, List.length_nil]
    rw [show (ofString "/**").length = 3 from rfl, show (ofString "*/").length = 2 from rfl]
    omega

theorem slice_append {u v : Text} (w : Text) {start stop : Nat} (hstart : u.length = start)
    (hstop : start + v.length = stop) : slice (u ++ (v ++ w)) start stop = v := by
  subst hstart hstop
  rw [slice, ← List.append_assoc, List.take_left' (List.length_append), List.drop_left]

/-- The reader finds a comment, blanks and a header where they follow each other. -/
theorem occurrenceAt?_append (u : Text)
    (hnearest : ∀ k < body.length, ¬ ("*/" : Text) <+: (spelled body gap s rest).drop (3 + k))
    (hgap : ∀ c ∈ gap, c.isBlank = true) :
    occurrenceAt? (fun _ => read?) (u ++ spelled body gap s rest) u.length =
      some (Reading.found (u ++ spelled body gap s rest) (Reading.ofParts u.length body gap s)) := by
  have hread : read? (spelled body gap s [] ++ rest) =
      some (⟨"/**" ++ body ++ "*/", s.header⟩, rest) := by
    rw [spelled_append]
    exact read?_eq_some_iff.2 ⟨body, gap, s, rfl, hnearest, hgap, rfl⟩
  have hcomment : slice (u ++ spelled body gap s rest) u.length (u.length + (3 + body.length) + 2) =
      "/**" ++ body ++ "*/" := by
    have hparts : spelled body gap s rest =
        ("/**" ++ body ++ "*/" : Text) ++ (gap ++ (s.text ++ rest)) := by
      simp only [spelled, List.append_assoc]
    rw [hparts]
    refine slice_append _ rfl ?_
    simp only [List.length_append]
    rw [show (ofString "/**").length = 3 from rfl, show (ofString "*/").length = 2 from rfl]
    omega
  rw [← spelled_append, @occurrenceAt?_eq_some _ (fun _ => read?) u _ rest _ hread, Reading.found,
    spelled_append]
  simp only [Reading.ofParts, hcomment]

end Parts

/-- What stands at an offset, in its parts. -/
theorem StandsIn.exists_parts {t : Text} {o : Occurrence Reading} (h : StandsIn t o) :
    ∃ u body rest : Text, u.length = o.start ∧
      t = u ++ spelled body o.value.gap o.value.spelling rest ∧
      ∀ k < body.length, ¬ ("*/" : Text) <+:
        (spelled body o.value.gap o.value.spelling rest).drop (3 + k) := by
  obtain ⟨k, hk⟩ := Nat.exists_eq_add_of_le h.apart
  obtain ⟨rest, hrest⟩ := h.follows
  have hopens := drop_eq_of_prefix h.opens
  have hcloses := drop_eq_of_prefix h.closes
  -- the body is what stands between the two marks
  have hbody := List.take_append_drop k (t.drop (o.start + 3))
  have hlength : o.value.close + 2 ≤ t.length := by
    have := congrArg List.length hcloses
    rw [List.length_append, List.length_drop, show (ofString "*/").length = 2 from rfl] at this
    omega
  have hparts : t.drop o.start =
      spelled ((t.drop (o.start + 3)).take k) o.value.gap o.value.spelling rest := by
    rw [List.drop_drop, ← hk] at hbody
    rw [spelled, hopens, ← List.append_assoc o.value.gap, hrest]
    exact congrArg _ (hbody.symm.trans (congrArg _ hcloses))
  refine ⟨t.take o.start, (t.drop (o.start + 3)).take k, rest, ?_, ?_, fun i hi => ?_⟩
  · rw [List.length_take]
    omega
  · rw [← hparts, List.take_append_drop]
  · rw [List.length_take] at hi
    rw [← hparts, List.drop_drop, ← Nat.add_assoc]
    exact h.nearest _ (by omega) (by omega)

/-- The reader finds at an offset what stands there. -/
theorem occurrenceAt?_eq_some_iff {t : Text} {d : Occurrence Documented} :
    occurrenceAt? (fun _ => read?) t d.start = some d ↔ ∃ o, StandsIn t o ∧ Reading.found t o = d := by
  constructor
  · intro h
    obtain ⟨⟨value, rest⟩, hread, -⟩ := Option.map_eq_some_iff.1 h
    have hstart := read?_advances.start_lt h
    obtain ⟨body, gap, s, hparts, hnearest, hgap, rfl⟩ := read?_eq_some_iff.1 hread
    have hlength : (t.take d.start).length = d.start := by
      rw [List.length_take]
      omega
    have hwhole := List.take_append_drop d.start t
    rw [hparts] at hnearest hwhole
    have hstands := standsIn_append (t.take d.start) hnearest hgap
    have hfound := occurrenceAt?_append (t.take d.start) hnearest hgap
    rw [hwhole, hlength] at hstands hfound
    exact ⟨_, hstands, Option.some.inj (hfound.symm.trans h)⟩
  · rintro ⟨o, ho, rfl⟩
    obtain ⟨u, body, rest, hu, rfl, hnearest⟩ := ho.exists_parts
    -- only one documented header begins there, and the reader finds that one
    have hsame := ho.unique (standsIn_append u hnearest ho.blank_gap) hu.symm
    have hfound := occurrenceAt?_append u hnearest ho.blank_gap
    rw [← hsame, hu] at hfound
    exact hfound

/-- Every documented method has its comment, blanks and header in the bundle. -/
theorem exists_spelled_of_mem_methods {apiName bundle : Text} {m : Method}
    (hm : m ∈ methods apiName bundle) : ∃ (body gap : Text) (s : Header.Spelling) (rest : Text),
      spelled body gap s rest <:+ bundle.unifyLineEndings ∧
        method apiName ⟨"/**" ++ body ++ "*/", s.header⟩ = m := by
  obtain ⟨o, ho, rfl⟩ := List.mem_map.1 hm
  obtain ⟨_, u, rest, hu, hread⟩ := exists_read_of_mem_occurrences ho
  obtain ⟨body, gap, s, rfl, -, -, hvalue⟩ := read?_eq_some_iff.1 hread
  exact ⟨body, gap, s, rest, hu, by rw [hvalue]⟩

/-- The documented methods of a bundle are those of the documented headers that a scan takes, from
left to right, in the bundle with every line ending turned into LF; and no two of those begin at
the same offset. -/
theorem methods_eq_scan (apiName bundle : Text) :
    (∀ o other, StandsIn bundle.unifyLineEndings o → StandsIn bundle.unifyLineEndings other →
      o.start = other.start → o = other) ∧
    ∃ found, LeftToRight (StandsIn bundle.unifyLineEndings) 0 found ∧
      (∀ others, LeftToRight (StandsIn bundle.unifyLineEndings) 0 others → others = found) ∧
      methods apiName bundle = found.map (described apiName bundle.unifyLineEndings) := by
  have hone : ∀ o other, StandsIn bundle.unifyLineEndings o →
      StandsIn bundle.unifyLineEndings other → o.start = other.start → o = other :=
    fun _ _ h hother hstart => h.unique hother hstart
  -- the scan of the reader, seen as a scan over the grammar
  obtain ⟨found, hfound, heq⟩ :=
    (leftToRight_occurrences read?_advances bundle.unifyLineEndings).exists_map
      (f := Reading.found _) (fun _ => rfl) (fun _ => occurrenceAt?_eq_some_iff)
  refine ⟨hone, found, hfound, fun others hothers => hothers.unique hone hfound, ?_⟩
  rw [methods, occurrences, heq, List.map_map]
  refine List.map_congr_left fun o _ => ?_
  simp only [Function.comp_apply, Reading.found, method, described, Header.Spelling.header,
    Method.descriptionOf_eq_getD]

end Documented

end DeclSync
