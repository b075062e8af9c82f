import DeclSync.Proofs.DeclarationBlock
import DeclSync.Proofs.Regions

/-!
# Blocks as regions

A declaration block of writable methods is itself a region, from its first code point to its last:
it opens with the anchor, and no line of it but the last starts with the end marker. That stays so
when its LFs are turned into CR LF.

## Main results

- `Region.afterLineMark?_withLineBreak_crlf` — CR LF in the place of LF moves no line mark
- `Declaration.read?_withLineBreak_block` — a block with LF or CR LF is a region as a whole
-/

namespace DeclSync

namespace Text

/-- A mark without line breaks stands at the beginning of a text whatever line break the text has.
-/
theorem after?_withLineBreak {mark lineBreak : Text} (hmark : mark.IsOneLine)
    (hbreak : lineBreak.head? = some (.scalar '\r')) (t : Text) :
    after? mark (withLineBreak lineBreak t) = (after? mark t).map (withLineBreak lineBreak) := by
  obtain ⟨later, rfl⟩ := List.head?_eq_some_iff.1 hbreak
  induction mark generalizing t with
  | nil => rfl
  | cons m mark ih =>
    obtain ⟨⟨hlf, hcr⟩, hrest⟩ := List.forall_mem_cons.1 hmark
    cases t with
    | nil => rfl
    | cons c t =>
      rw [withLineBreak_cons]
      by_cases hc : c = .scalar '\n'
      · rw [if_pos hc, hc, after?, if_neg (Ne.symm hlf)]
        exact if_neg (Ne.symm hcr)
      · rw [if_neg hc, List.singleton_append, after?, after?]
        split
        · exact ih hrest t
        · rfl

theorem prefix_withLineBreak_iff {mark lineBreak : Text} (hmark : mark.IsOneLine)
    (hbreak : lineBreak.head? = some (.scalar '\r')) {t : Text} :
    mark <+: withLineBreak lineBreak t ↔ mark <+: t := by
  rw [← isSome_after?_iff, ← isSome_after?_iff, after?_withLineBreak hmark hbreak,
    Option.isSome_map]

end Text

namespace Region

open Text

variable {mark : Text}

/-- CR LF in the place of LF moves no mark away from its line start, and none to another one. -/
theorem afterLineMark?_withLineBreak_crlf (hmark : mark.IsOneLine) (hne : mark ≠ [])
    (atLineStart : Bool) (t : Text) :
    afterLineMark? mark atLineStart (withLineBreak LineEnding.crlf.text t) =
      (afterLineMark? mark atLineStart t).map (withLineBreak LineEnding.crlf.text) := by
  obtain ⟨m, mark', rfl⟩ := List.exists_cons_of_ne_nil hne
  have hm := hmark m List.mem_cons_self
  have hno : ∀ (c : CodePoint) (u : Text), c ≠ m → ¬ m :: mark' <+: c :: u :=
    fun c u hc hprefix => hc (List.cons_prefix_cons.1 hprefix).1.symm
  induction t generalizing atLineStart with
  | nil => cases atLineStart <;> rfl
  | cons c t ih =>
    by_cases hlf : c = .scalar '\n'
    · have hbreak : withLineBreak LineEnding.crlf.text (c :: t) =
          .scalar '\r' :: .scalar '\n' :: withLineBreak LineEnding.crlf.text t := by
        rw [hlf]
        rfl
      -- a mark begins neither with the CR nor with the LF
      rw [hbreak, afterLineMark?_cons fun _ => hno _ _ (Ne.symm hm.2),
        afterLineMark?_cons fun _ => hno _ _ (Ne.symm hm.1), hlf,
        afterLineMark?_cons fun _ => hno _ _ (Ne.symm hm.1)]
      exact ih _
    · have hkept : withLineBreak LineEnding.crlf.text (c :: t) =
          c :: withLineBreak LineEnding.crlf.text t := by
        rw [withLineBreak_cons, if_neg hlf]
        rfl
      -- the mark has no line break, so it stands here before and after or not at all
      have hhere : after? (m :: mark') (withLineBreak LineEnding.crlf.text (c :: t)) = _ :=
        after?_withLineBreak hmark rfl (c :: t)
      rw [hkept] at hhere ⊢
      rw [afterLineMark?, afterLineMark?, hhere, ih]
      cases atLineStart with
      | false => rfl
      | true => cases after? (m :: mark') (c :: t) <;> rfl

/-- A text with LF that is a region as a whole is one with CR LF. -/
theorem read?_withLineBreak_crlf {anchor endMarker : Text} (hanchor : .scalar '\n' ∉ anchor)
    (hmarker : endMarker.IsOneLine) (hne : endMarker ≠ []) {t : Text}
    (h : read? anchor endMarker none t = some ((), [])) :
    read? anchor endMarker none (withLineBreak LineEnding.crlf.text t) = some ((), []) := by
  simp only [read?, Option.all_none, guard_true, Option.pure_def, Option.bind_eq_bind,
    Option.bind_some, Option.bind_eq_some_iff, after?_eq_some_iff, Option.some.injEq,
    Prod.mk.injEq, true_and] at h ⊢
  obtain ⟨inside, rfl, rest, hclose, rfl⟩ := h
  refine ⟨withLineBreak LineEnding.crlf.text inside, ?_, [], ?_, rfl⟩
  · rw [withLineBreak_append, withLineBreak_eq_self hanchor]
  · rw [afterLineMark?_withLineBreak_crlf hmarker hne, hclose]
    rfl

end Region

namespace Declaration

open Region Text

theorem not_standardEndMarker_prefix {c : CodePoint} (hc : c ≠ .scalar ']') (t : Text) :
    ¬ standardEndMarker <+: c :: t :=
  fun hprefix => hc (List.cons_prefix_cons.1 hprefix).1.symm

theorem afterLineMark?_tabbed (line : Text) (htab : line.head? = some (.scalar '\t'))
    (hline : .scalar '\n' ∉ line) (rest : Text) :
    afterLineMark? standardEndMarker true (line ++ ("\n" ++ rest)) =
      afterLineMark? standardEndMarker true rest := by
  obtain ⟨line, rfl⟩ := List.head?_eq_some_iff.1 htab
  exact afterLineMark?_line hline fun _ => not_standardEndMarker_prefix (by decide) _

/-- The line of a text between quotes is passed over. -/
theorem afterLineMark?_quoted (field value : Text)
    (htab : field.head? = some (.scalar '\t')) (hfield : .scalar '\n' ∉ field)
    (hvalue : .scalar '\n' ∉ value) (rest : Text) :
    afterLineMark? standardEndMarker true (field ++ (value ++ ("',\n" ++ rest))) =
      afterLineMark? standardEndMarker true rest := by
  have hline : .scalar '\n' ∉ field ++ (value ++ "',") := by
    rw [List.mem_append, List.mem_append, not_or, not_or]
    exact ⟨hfield, hvalue, by decide⟩
  have hhead : (field ++ (value ++ "',") : Text).head? = some (.scalar '\t') := by
    rw [List.head?_append, htab]
    rfl
  have hpass := afterLineMark?_tabbed _ hhead hline rest
  rw [List.append_assoc, List.append_assoc] at hpass
  exact hpass

theorem afterLineMark?_entry {m : Method} (hm : m.IsWritable) (separator : Text)
    (hseparator : .scalar '\n' ∉ separator) (rest : Text) :
    afterLineMark? standardEndMarker true (entry m ++ (separator ++ ("\n" ++ rest))) =
      afterLineMark? standardEndMarker true rest := by
  obtain ⟨u, hu⟩ := hm.literal_description
  -- every line of an entry starts with a tab, and so with no end marker
  have hopen : ∀ t, afterLineMark? standardEndMarker true ("\t\x7b\n" ++ t) =
      afterLineMark? standardEndMarker true t :=
    fun _ => rfl
  have hname := afterLineMark?_quoted "\t\tname: '" m.name rfl (by decide)
    (notMem_of_isIdentifier hm.isIdentifier_name (by decide))
  have hsignature := afterLineMark?_quoted "\t\tsignature: '" _ rfl (by decide)
    (isOneLine_literalBody m.signature).lf_notMem
  have hdescription := afterLineMark?_quoted "\t\tdescription: '" _ rfl (by decide)
    (isOneLine_literalBody u).lf_notMem
  have hflag : ∀ t, afterLineMark? standardEndMarker true
      ("\t\tisAsync: " ++ ((if m.isAsync then "true" else "false" : String) ++ ("\n" ++ t))) =
        afterLineMark? standardEndMarker true t := by
    intro t
    cases m.isAsync <;> rfl
  have hclose := afterLineMark?_tabbed ("\t\x7d" ++ separator) rfl
    (by rw [List.mem_append, not_or]; exact ⟨by decide, hseparator⟩) rest
  rw [List.append_assoc] at hclose
  simp only [entry, List.append_assoc, hopen, hname, hsignature, hu, hdescription, hflag, hclose]

/-- The lines of the entries are passed over; the search ends at the mark behind them. -/
theorem afterLineMark?_entries {methods : List Method} (hm : ∀ m ∈ methods, m.IsWritable)
    (rest : Text) :
    afterLineMark? standardEndMarker true
        (List.intercalate ",\n" (methods.map entry) ++ ("\n" ++ (standardEndMarker ++ rest))) =
      some rest := by
  have hend : afterLineMark? standardEndMarker true (standardEndMarker ++ rest) = some rest :=
    afterLineMark?_append (by decide) rest
  induction methods with
  | nil =>
    -- without entries there is an empty line before the mark
    exact (afterLineMark?_line List.not_mem_nil fun _ =>
      not_standardEndMarker_prefix (by decide) _).trans hend
  | cons m methods ih =>
    obtain ⟨hfirst, hlater⟩ := List.forall_mem_cons.1 hm
    cases methods with
    | nil =>
      have hpass := afterLineMark?_entry hfirst [] (by simp) (standardEndMarker ++ rest)
      rw [List.map_singleton, List.intercalate_singleton]
      exact hpass.trans hend
    | cons next methods =>
      have hpass := afterLineMark?_entry hfirst "," (by decide)
        (List.intercalate ",\n" ((next :: methods).map entry) ++
          ("\n" ++ (standardEndMarker ++ rest)))
      rw [List.map_cons, List.map_cons, List.intercalate_cons_cons, List.append_assoc,
        List.append_assoc]
      exact hpass.trans (ih hlater)

theorem read?_region_block (anchor : Text) {arrayName : Text} (harrayName : arrayName.IsOneLine)
    {methods : List Method} (hm : ∀ m ∈ methods, m.IsWritable) :
    Region.read? anchor standardEndMarker none (block anchor arrayName methods) = some ((), []) := by
  have hline : .scalar '\n' ∉ ("const " ++ (arrayName ++ " = [") : Text) := by
    rw [List.mem_append, List.mem_append, not_or, not_or]
    exact ⟨by decide, harrayName.lf_notMem, by decide⟩
  have hfirst : ∀ rest : Text, afterLineMark? standardEndMarker (endsLine anchor)
      (" (auto-generated)" ++ ("\n" ++ rest)) = afterLineMark? standardEndMarker true rest :=
    fun rest => afterLineMark?_line (by decide)
      fun _ => not_standardEndMarker_prefix (by decide) _
  have hsecond : ∀ rest : Text, afterLineMark? standardEndMarker true
      (("const " ++ (arrayName ++ " = [")) ++ ("\n" ++ rest)) =
        afterLineMark? standardEndMarker true rest :=
    fun rest => afterLineMark?_line hline
      fun _ => not_standardEndMarker_prefix (by decide) _
  have hentries : afterLineMark? standardEndMarker true
      (List.intercalate ",\n" (methods.map entry) ++ ("\n" ++ "];")) = some [] := by
    have hend := afterLineMark?_entries hm []
    rw [List.append_nil] at hend
    exact hend
  rw [block_eq_append, List.append_assoc, Region.read?, after?_append]
  simp only [Option.all_none, guard_true, Option.pure_def, Option.bind_eq_bind, Option.bind_some,
    hfirst, hsecond, hentries]

/-- A block of writable methods with LF or CR LF between its lines is read as a region as a whole.
-/
theorem read?_withLineBreak_block {anchor arrayName : Text} (hanchor : .scalar '\n' ∉ anchor)
    (harrayName : arrayName.IsOneLine) {methods : List Method} (hm : ∀ m ∈ methods, m.IsWritable)
    {ending : LineEnding} (hending : ending ≠ .cr) :
    Region.read? anchor standardEndMarker none
      (withLineBreak ending.text (block anchor arrayName methods)) = some ((), []) := by
  have hread := read?_region_block anchor harrayName hm
  cases ending with
  | lf => rw [withLineBreak_lf, hread]
  | crlf =>
    exact read?_withLineBreak_crlf hanchor (by unfold IsOneLine; decide) (by decide) hread
  | cr => exact absurd rfl hending

/-! ## The line breaks of a block -/

/-- Without a CR in the anchor and the name of the array, none stands in the block. -/
theorem cr_notMem_block {anchor arrayName : Text} (hanchor : .scalar '\r' ∉ anchor)
    (harrayName : .scalar '\r' ∉ arrayName) {methods : List Method}
    (hm : ∀ m ∈ methods, m.IsWritable) : .scalar '\r' ∉ block anchor arrayName methods := by
  have hentry : ∀ m : Method, m.IsWritable → .scalar '\r' ∉ entry m := by
    intro m hm
    obtain ⟨u, hu⟩ := hm.literal_description
    have hname := Text.notMem_of_isIdentifier hm.isIdentifier_name (c := .scalar '\r') (by decide)
    have hsignature := (isOneLine_literalBody m.signature).cr_notMem
    have hdescription := (isOneLine_literalBody u).cr_notMem
    have hflag : .scalar '\r' ∉ ofString (if m.isAsync then "true" else "false") := by
      cases m.isAsync <;> decide
    simp only [entry, List.mem_append, not_or, hu]
    exact ⟨⟨⟨⟨⟨by decide, ⟨by decide, hname⟩, by decide⟩, ⟨by decide, hsignature⟩, by decide⟩,
      ⟨by decide, hdescription⟩, by decide⟩, ⟨by decide, hflag⟩, by decide⟩, by decide⟩
  have hentries : .scalar '\r' ∉ List.intercalate ",\n" (methods.map entry) := by
    intro hcr
    rcases mem_intercalate hcr with hcr | ⟨_, hw, hcr⟩
    · exact absurd hcr (by decide)
    · obtain ⟨m, hmem, rfl⟩ := List.mem_map.1 hw
      exact hentry m (hm m hmem) hcr
  simp only [block, List.mem_append, not_or]
  exact ⟨⟨⟨⟨⟨hanchor, by decide⟩, harrayName⟩, by decide⟩, hentries⟩, by decide⟩

theorem getLast?_withLineBreak_block (lineBreak anchor arrayName : Text) (methods : List Method) :
    (withLineBreak lineBreak (block anchor arrayName methods)).getLast? = some (.scalar ';') := by
  have hclosing : withLineBreak lineBreak "\n];" = withLineBreak lineBreak "\n]" ++ ";" :=
    withLineBreak_append lineBreak "\n]" ";"
  rw [block, withLineBreak_append, hclosing, ← List.append_assoc, List.getLast?_append]
  rfl

end Declaration

end DeclSync
