import DeclSync.Method.Description
import DeclSync.Proofs.Literals
import DeclSync.Proofs.Marks

/-!
# What a description can be

The summary of a comment holds something that is no blank, so it is never empty, and a description is
either such a summary or what is said without one. However it comes about, a description stands in a
string literal as some text does.

## Main results

- `Text.undecorated_append` — what is left of a decorated line of a comment
- `Text.commentSummary?_ne_some_nil` — a summary is not empty
- `Method.descriptionOf_eq_getD` — the summary describes a method, if there is one
- `Method.descriptionOf_ne_nil` — a description is not empty
- `Method.exists_descriptionOf_eq_literalBody` — a description is the literal of a text
-/

namespace DeclSync

namespace Text

/-- A trimmed text that is not empty holds something that is no blank. -/
theorem exists_mem_trim {t : Text} (h : t.trim ≠ []) : ∃ c ∈ t.trim, c.isBlank = false := by
  rw [trim, trimEnd] at h ⊢
  -- the last code point of a trimmed text is no blank
  have hfirst := beginsWithout_dropWhile CodePoint.isBlank (trimStart t).reverse
  cases hkept : (trimStart t).reverse.dropWhile CodePoint.isBlank with
  | nil => exact absurd (by rw [hkept]; rfl) h
  | cons c kept =>
    rw [hkept] at hfirst
    exact ⟨c, by simp, hfirst c rfl⟩

/-! ## Decorated lines -/

theorem withoutEnd_append (t mark : Text) : withoutEnd (t ++ mark) mark = t := by
  rw [withoutEnd, if_pos (List.isSuffixOf_iff_suffix.2 (List.suffix_append t mark)),
    List.length_append, Nat.add_sub_cancel, List.take_left]

/-- The body of a comment is what stands between its marks. -/
theorem commentBody_between (body : Text) : commentBody ("/**" ++ (body ++ "*/")) = body := by
  have htrim : trim ("/**" ++ (body ++ "*/")) = "/**" ++ (body ++ "*/") := by
    rw [trim_eq_self_iff, ← List.append_assoc, List.reverse_append]
    exact ⟨beginsWithout_cons (c := .scalar '/') (by decide) _,
      beginsWithout_cons (c := .scalar '/') (by decide) _⟩
  simp only [commentBody, htrim, after?_append, Option.getD_some, withoutEnd_append]

/-- Whether a code point is a star, with which the lines of a comment are decorated. -/
abbrev isStar (c : CodePoint) : Bool := c = .scalar '*'

theorem isStar_eq_false_of_isBlank {c : CodePoint} (h : c.isBlank = true) : isStar c = false := by
  refine decide_eq_false ?_
  rintro rfl
  exact absurd h (by decide)

theorem isBlank_of_mem_stars {n : Nat} : ∀ c ∈ List.replicate n (CodePoint.scalar '*'),
    c.isBlank = false := by
  intro c hc
  rw [List.eq_of_mem_replicate hc]
  decide

section Decorated

variable {indent gap content : Text} (hindent : ∀ c ∈ indent, c.isBlank = true)
  (hgap : ∀ c ∈ gap, c.isBlank = true) (hcontent : BeginsWithout isStar content.trim)

include hgap hcontent in
/-- No star stands behind the gap, not even behind more blanks. -/
theorem beginsWithout_isStar_trimEnd : BeginsWithout isStar (trimEnd (gap ++ content)) := by
  have hblank : ∀ {t : Text}, (∀ c ∈ t, c.isBlank = true) → BeginsWithout isStar t := fun h =>
    beginsWithout_of_forall fun c hc => isStar_eq_false_of_isBlank (h c hc)
  obtain ⟨before, after, hbefore, hafter, ht⟩ := exists_trim content
  obtain ⟨blanks, -, hwhole⟩ := exists_trimEnd (gap ++ content)
  apply BeginsWithout.of_append (t := blanks)
  rw [← hwhole, ht]
  exact (hblank hgap).append ((hblank hbefore).append (hcontent.append (hblank hafter)))

include hindent hgap hcontent in
/-- Of a line of a comment its content is left, without the blanks around it, whatever blanks and
stars stand in front of it. -/
theorem undecorated_append (stars : Nat) :
    undecorated (indent ++ (List.replicate stars (.scalar '*') ++ (gap ++ content))) =
      content.trim := by
  have hinside : trim (gap ++ content) = content.trim := trim_gap_append hgap content
  cases stars with
  | zero =>
    have hkeep : content.trim.dropWhile isStar = content.trim := dropWhile_eq_self hcontent
    rw [undecorated, List.replicate_zero, List.nil_append, trim_gap_append hindent, hinside, hkeep,
      trim_trim]
  | succ n =>
    obtain ⟨blanks, hblanks, hend⟩ := exists_trimEnd (gap ++ content)
    -- the stars are no blanks, so trimming stops in front of the first one
    have htrim : trim (indent ++ (List.replicate (n + 1) (.scalar '*') ++ (gap ++ content))) =
        List.replicate (n + 1) (.scalar '*') ++ trimEnd (gap ++ content) := by
      conv => lhs; rw [hend, ← List.append_assoc (List.replicate _ _)]
      refine trim_append_append hindent hblanks (trim_eq_self_iff.2 ⟨?_, ?_⟩)
      · exact beginsWithout_cons (by decide) _
      · rw [List.reverse_append, trimEnd, List.reverse_reverse, List.reverse_replicate]
        exact (beginsWithout_dropWhile _ _).append (beginsWithout_of_forall isBlank_of_mem_stars)
    have hstars : ∀ c ∈ List.replicate (n + 1) (CodePoint.scalar '*'), isStar c = true :=
      fun c hc => decide_eq_true (List.eq_of_mem_replicate hc)
    have hbegins := beginsWithout_isStar_trimEnd hgap hcontent
    rw [undecorated, htrim, dropWhile_append_of_beginsWithout hstars hbegins, trim_trimEnd, hinside]

end Decorated

/-! ## Summaries -/

/-- A summary is the literal of a line that is not blank. -/
theorem exists_of_commentSummary? {comment summary : Text}
    (h : comment.commentSummary? = some summary) :
    ∃ line : Text, (∃ c ∈ line, c.isBlank = false) ∧ summary = line.literalBody := by
  obtain ⟨line, hline, rfl⟩ := Option.map_eq_some_iff.1 h
  have hprose := List.find?_some hline
  have hne : line ≠ [] := by
    rintro rfl
    exact absurd hprose (by simp [isProse])
  obtain ⟨raw, -, rfl⟩ := List.mem_map.1 (List.mem_of_find?_eq_some hline)
  exact ⟨_, exists_mem_trim hne, rfl⟩

theorem commentSummary?_ne_some_nil (comment : Text) : comment.commentSummary? ≠ some [] := by
  intro h
  obtain ⟨line, ⟨c, hc, hblank⟩, hnil⟩ := exists_of_commentSummary? h
  exact literalBody_ne_nil hc hblank hnil.symm

end Text

namespace Method

/-- The summary of the comment describes a method, if there is one. -/
theorem descriptionOf_eq_getD (name comment apiName : Text) :
    descriptionOf name comment.commentSummary? apiName =
      comment.commentSummary?.getD (descriptionOf name none apiName) := by
  cases hsummary : comment.commentSummary? with
  | none => rfl
  | some summary =>
    cases summary with
    | nil => exact absurd hsummary (Text.commentSummary?_ne_some_nil comment)
    | cons c summary => rfl

theorem exists_descriptionOf_none_eq_literalBody (name apiName : Text) :
    ∃ t : Text, descriptionOf name none apiName = t.literalBody := by
  simp only [descriptionOf]
  cases familiarDescription? name with
  | none => exact ⟨_, rfl⟩
  | some description => exact ⟨description, rfl⟩

theorem descriptionOf_none_ne_nil (name apiName : Text) : descriptionOf name none apiName ≠ [] := by
  simp only [descriptionOf]
  cases hknown : familiarDescription? name with
  | none =>
    have hword : .scalar 'm' ∈ (name ++ " method from " ++ apiName : Text) := by
      rw [List.mem_append, List.mem_append]
      exact .inl (.inr (by decide))
    exact Text.literalBody_ne_nil hword (by decide)
  | some description =>
    obtain ⟨known, hmem, rfl⟩ := Option.map_eq_some_iff.1 hknown
    have hprose : ∀ known ∈ familiarMethods, ∃ c ∈ Text.ofString known.2, c.isBlank = false := by
      decide
    obtain ⟨c, hc, hblank⟩ := hprose known (List.mem_of_find?_eq_some hmem)
    exact Text.literalBody_ne_nil hc hblank

/-- A description is not empty. -/
theorem descriptionOf_ne_nil (name comment apiName : Text) :
    descriptionOf name comment.commentSummary? apiName ≠ [] := by
  rw [descriptionOf_eq_getD]
  cases hsummary : comment.commentSummary? with
  | none => exact descriptionOf_none_ne_nil name apiName
  | some summary =>
    rintro rfl
    exact Text.commentSummary?_ne_some_nil comment hsummary

/-- The description of a documented method is the literal of a text. -/
theorem exists_descriptionOf_eq_literalBody (name comment apiName : Text) :
    ∃ t : Text, descriptionOf name comment.commentSummary? apiName = t.literalBody := by
  rw [descriptionOf_eq_getD]
  cases hsummary : comment.commentSummary? with
  | none => exact exists_descriptionOf_none_eq_literalBody name apiName
  | some summary =>
    obtain ⟨line, -, rfl⟩ := Text.exists_of_commentSummary? hsummary
    exact ⟨line, rfl⟩

end Method

end DeclSync
