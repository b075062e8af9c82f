import DeclSync.Method.Extraction
import DeclSync.Proofs.Descriptions
import DeclSync.Proofs.Headers
import DeclSync.Proofs.Occurrences

/-!
# What is known of extracted methods

Whatever a bundle holds, the name of a method that is extracted from it is an identifier, and its
description stands in a string literal as some text does. Both scans establish this, and putting
their methods together keeps it.

## Main definitions

- `Method.IsWritable` — what a method has to satisfy to be put into a declaration

`Method.isWritable_of_mem_ofBundle` says that extracted methods satisfy it.
-/

namespace DeclSync

/-- A method whose name is an identifier and whose description is the literal of a text. -/
structure Method.IsWritable (m : Method) : Prop where
  isIdentifier_name : m.name.isIdentifier = true
  literal_description : ∃ t : Text, m.description = t.literalBody

/-- An identifier holds nothing but what identifiers are made of. -/
theorem Text.notMem_of_isIdentifier {t : Text} (h : t.isIdentifier = true) {c : CodePoint}
    (hc : c.isIdentifierChar = false) : c ∉ t := by
  intro hmem
  rw [List.all_eq_true.1 (Bool.and_eq_true_iff.1 h).2 c hmem] at hc
  exact absurd hc (by decide)

/-- What a public name is not. -/
theorem Text.ne_of_isPublicName {name : Text} (h : name.isPublicName = true) :
    name.head? ≠ some (.scalar '_') ∧ name ≠ "constructor" ∧
      ∀ word ∈ excludedNames, name ≠ Text.ofString word := by
  simp only [isPublicName, Bool.and_eq_true, Bool.not_eq_true', decide_eq_true_eq] at h
  obtain ⟨⟨⟨-, hprivate⟩, hconstructor⟩, hexcluded⟩ := h
  refine ⟨?_, hconstructor, ?_⟩
  · intro hhead
    obtain ⟨rest, rfl⟩ := List.head?_eq_some_iff.1 hhead
    exact absurd hprivate (by simp [beginsWith, after?, ofString])
  · intro word hword hname
    exact absurd (decide_eq_true hname) (List.any_eq_false.1 hexcluded word hword)

theorem Header.isIdentifier_name_of_read? {t rest : Text} {h : Header}
    (hread : read? t = some (h, rest)) : h.name.isIdentifier = true := by
  obtain ⟨s, rfl, -⟩ := exists_spelling_of_read? hread
  exact s.isIdentifier_name

/-- Every header that is found in a text is spelled there. -/
theorem Header.exists_spelling_of_mem_occurrences {t : Text} {o : Occurrence Header}
    (ho : o ∈ occurrences t) :
    ∃ (s : Spelling) (rest : Text), s.header = o.value ∧ s.text ++ rest <:+ t := by
  obtain ⟨behind, u, rest, hu, hread⟩ := exists_read_of_mem_occurrences ho
  rw [readAfter?] at hread
  split at hread
  · exact absurd hread (by simp)
  · obtain ⟨s, hs, rfl⟩ := exists_spelling_of_read? hread
    exact ⟨s, rest, hs, hu⟩

namespace Documented

theorem isIdentifier_name_of_read? {t rest : Text} {d : Documented}
    (hread : read? t = some (d, rest)) : d.header.name.isIdentifier = true := by
  simp only [read?, Option.bind_eq_bind, Option.bind_eq_some_iff] at hread
  obtain ⟨_, -, _, -, ⟨h, _⟩, hheader, heq⟩ := hread
  obtain ⟨rfl, -⟩ := Prod.mk.inj (Option.some.inj heq)
  exact Header.isIdentifier_name_of_read? hheader

theorem isWritable_of_mem_methods {apiName bundle : Text} {m : Method}
    (hm : m ∈ methods apiName bundle) : m.IsWritable := by
  obtain ⟨o, ho, rfl⟩ := List.mem_map.1 hm
  obtain ⟨_, u, rest, -, hread⟩ := exists_read_of_mem_occurrences ho
  exact ⟨isIdentifier_name_of_read? hread, Method.exists_descriptionOf_eq_literalBody _ _ _⟩

end Documented

namespace Bare

/-- Every bare header is spelled in the bundle. -/
theorem exists_spelling_of_mem_headers {lines : List Text} {h : Header} (hh : h ∈ headers lines) :
    ∃ s : Header.Spelling, s.header = h := by
  induction lines with
  | nil => simp [headers] at hh
  | cons line below ih =>
    rw [headers, List.mem_append] at hh
    rcases hh with hhere | hbelow
    · split at hhere
      · simp at hhere
      · obtain ⟨o, ho, rfl⟩ := List.mem_map.1 hhere
        obtain ⟨s, -, hs, -⟩ :=
          Header.exists_spelling_of_mem_occurrences ((List.takeWhile_sublist _).mem ho)
        exact ⟨s, hs⟩
    · exact ih hbelow

theorem isIdentifier_name_of_mem_headers {lines : List Text} {h : Header} (hh : h ∈ headers lines) :
    h.name.isIdentifier = true := by
  obtain ⟨s, rfl⟩ := exists_spelling_of_mem_headers hh
  exact s.isIdentifier_name

theorem isWritable_of_mem_methods {apiName bundle : Text} {m : Method}
    (hm : m ∈ methods apiName bundle) : m.IsWritable := by
  obtain ⟨h, hh, rfl⟩ := List.mem_map.1 hm
  exact ⟨isIdentifier_name_of_mem_headers hh,
    Method.exists_descriptionOf_none_eq_literalBody h.name apiName⟩

end Bare

namespace Method

theorem mem_of_mem_firstOfEachName {methods : List Method} {m : Method}
    (hm : m ∈ firstOfEachName methods) : m ∈ methods := by
  induction methods with
  | nil => exact hm
  | cons first methods ih =>
    rw [firstOfEachName, List.mem_cons] at hm
    rcases hm with rfl | hm
    · exact List.mem_cons_self
    · exact List.mem_cons_of_mem _ (ih (List.mem_filter.1 hm).1)

/-- No name is left twice. -/
theorem nodup_map_name_firstOfEachName (methods : List Method) :
    ((firstOfEachName methods).map Method.name).Nodup := by
  induction methods with
  | nil => exact List.nodup_nil
  | cons first methods ih =>
    rw [firstOfEachName, List.map_cons, List.nodup_cons]
    refine ⟨?_, ih.sublist (List.filter_sublist.map _)⟩
    intro hmem
    obtain ⟨m, hm, hname⟩ := List.mem_map.1 hmem
    exact of_decide_eq_true (List.mem_filter.1 hm).2 hname

/-- What is left is the first method of its name. -/
theorem find?_of_mem_firstOfEachName {methods : List Method} {m : Method}
    (hm : m ∈ firstOfEachName methods) :
    methods.find? (fun other => other.name = m.name) = some m := by
  induction methods with
  | nil => exact absurd hm List.not_mem_nil
  | cons first methods ih =>
    rw [firstOfEachName, List.mem_cons] at hm
    rcases hm with rfl | hm
    · exact List.find?_cons_of_pos (decide_eq_true rfl)
    · obtain ⟨hlater, hname⟩ := List.mem_filter.1 hm
      have hne : ¬ first.name = m.name := Ne.symm (of_decide_eq_true hname)
      rw [List.find?_cons_of_neg (by simp [hne])]
      exact ih hlater

theorem mem_of_mem_combine {documented bare : List Method} {m : Method}
    (hm : m ∈ combine documented bare) : m ∈ documented ∨ m ∈ bare :=
  List.mem_append.1 (List.mem_filter.1 (mem_of_mem_firstOfEachName hm)).1

theorem isPublicName_of_mem_combine {documented bare : List Method} {m : Method}
    (hm : m ∈ combine documented bare) : m.name.isPublicName = true :=
  (List.mem_filter.1 (mem_of_mem_firstOfEachName hm)).2

/-- Methods of other than public names do not hide those of public ones. -/
theorem find?_of_mem_combine {documented bare : List Method} {m : Method}
    (hm : m ∈ combine documented bare) :
    (documented ++ bare).find? (fun other => other.name = m.name) = some m := by
  have hpublic := isPublicName_of_mem_combine hm
  have hfirst := find?_of_mem_firstOfEachName hm
  rw [List.find?_filter] at hfirst
  rw [← hfirst]
  congr 1
  funext other
  by_cases hname : other.name = m.name
  · simp [hname, hpublic]
  · simp [hname]

theorem firstOfEachName_append (methods others : List Method) :
    firstOfEachName (methods ++ others) = firstOfEachName methods ++
      (firstOfEachName others).filter fun m => ∀ first ∈ methods, m.name ≠ first.name := by
  induction methods with
  | nil => simp [firstOfEachName]
  | cons first methods ih =>
    rw [List.cons_append, firstOfEachName, firstOfEachName, ih, List.filter_append,
      List.filter_filter, List.cons_append]
    refine congrArg _ (congrArg _ (List.filter_congr fun m _ => ?_))
    simp

theorem firstOfEachName_eq_self {methods : List Method}
    (h : (methods.map Method.name).Nodup) : firstOfEachName methods = methods := by
  induction methods with
  | nil => rfl
  | cons first methods ih =>
    rw [List.map_cons, List.nodup_cons] at h
    rw [firstOfEachName, ih h.2, List.filter_eq_self.2]
    intro m hm
    have hne : m.name ≠ first.name := fun heq => h.1 (heq ▸ List.mem_map_of_mem hm)
    exact decide_eq_true hne

/-- Bare methods add nothing to documented ones that have all their public names. -/
theorem combine_eq_left_of_public {documented bare : List Method}
    (hnodup : (documented.map Method.name).Nodup)
    (hpublic : ∀ m ∈ documented, m.name.isPublicName = true)
    (hbare : ∀ m ∈ bare, m.name.isPublicName = true → m.name ∈ documented.map Method.name) :
    combine documented bare = documented := by
  rw [combine, List.filter_append, List.filter_eq_self.2 hpublic, firstOfEachName_append,
    firstOfEachName_eq_self hnodup, List.filter_eq_nil_iff.2, List.append_nil]
  intro m hm hnew
  obtain ⟨hmem, hname⟩ := List.mem_filter.1 (mem_of_mem_firstOfEachName hm)
  obtain ⟨first, hfirst, hsame⟩ := List.mem_map.1 (hbare m hmem hname)
  exact of_decide_eq_true hnew first hfirst hsame.symm

/-- Bare methods add nothing to documented ones of the same names. -/
theorem combine_eq_left {documented bare : List Method}
    (hnodup : (documented.map Method.name).Nodup)
    (hpublic : ∀ m ∈ documented, m.name.isPublicName = true)
    (hbare : ∀ m ∈ bare, m.name ∈ documented.map Method.name) :
    combine documented bare = documented :=
  combine_eq_left_of_public hnodup hpublic fun m hm _ => hbare m hm

/-- Of the methods of a name, one is kept. -/
theorem exists_mem_firstOfEachName {methods : List Method} {m : Method} (hm : m ∈ methods) :
    ∃ kept ∈ firstOfEachName methods, kept.name = m.name := by
  induction methods with
  | nil => exact absurd hm List.not_mem_nil
  | cons first methods ih =>
    rw [firstOfEachName]
    by_cases hname : first.name = m.name
    · exact ⟨first, List.mem_cons_self, hname⟩
    · rcases List.mem_cons.1 hm with rfl | hm
      · exact absurd rfl hname
      · obtain ⟨kept, hkept, hsame⟩ := ih hm
        refine ⟨kept, List.mem_cons_of_mem _ (List.mem_filter.2 ⟨hkept, ?_⟩), hsame⟩
        simpa [hsame] using Ne.symm hname

theorem exists_mem_combine {documented bare : List Method} {m : Method}
    (hm : m ∈ documented ∨ m ∈ bare) (hpublic : m.name.isPublicName = true) :
    ∃ kept ∈ combine documented bare, kept.name = m.name :=
  exists_mem_firstOfEachName (List.mem_filter.2 ⟨List.mem_append.2 hm, hpublic⟩)

/-- The methods of a bundle are writable. -/
theorem isWritable_of_mem_ofBundle {apiName bundle : Text} {m : Method}
    (hm : m ∈ ofBundle apiName bundle) : m.IsWritable := by
  rcases mem_of_mem_combine hm with hdocumented | hbare
  · exact Documented.isWritable_of_mem_methods hdocumented
  · exact Bare.isWritable_of_mem_methods hbare

end Method

end DeclSync
