import DeclSync.Proofs.DeclarationBlock
import DeclSync.Proofs.Lines

/-!
# Names that are put into literals as they are

Of all fields of a declaration the name alone is written without escapes, so a public name has to be
an identifier. But the test of public names passes over an LF at the end. So the names that are
kept are identifiers that do not begin with `_`, and these with an LF behind them; and with such an
LF, the literal of the name does not close on its line.

## Main definitions

- `Text.IsPlainName` — an identifier that does not begin with `_`
- `Method.IsNamedPlainly` — that a method has such a name, and its entry a whole literal of it

`Method.isNamedPlainly_combine_iff` says for which methods all that are kept are named plainly.
-/

namespace DeclSync

namespace Text

/-- An ASCII letter or `$`, and behind it ASCII letters, digits, `_` and `$`. -/
def IsPlainName (t : Text) : Prop :=
  ∃ (c : Char) (rest : Text), t = .scalar c :: rest ∧ (c.isAlpha = true ∨ c = '$') ∧
    ∀ d ∈ rest, d.isIdentifierChar = true

theorem isPlainName_iff {t : Text} :
    t.IsPlainName ↔ t.isIdentifier = true ∧ t.head? ≠ some (.scalar '_') := by
  constructor
  · rintro ⟨c, rest, rfl, hfirst, hrest⟩
    have hstart : (CodePoint.scalar c).isIdentifierStart = true := by
      simp only [CodePoint.isIdentifierStart, Bool.or_eq_true, beq_iff_eq]
      exact hfirst.imp_left .inl
    refine ⟨Bool.and_eq_true_iff.2 ⟨hstart, ?_⟩, ?_⟩
    · exact List.all_eq_true.2 (List.forall_mem_cons.2
        ⟨CodePoint.isIdentifierChar_of_isIdentifierStart hstart, hrest⟩)
    · rintro ⟨⟩
      exact absurd hfirst (by decide)
  · rintro ⟨hidentifier, hprivate⟩
    obtain ⟨hbegins, hall⟩ := Bool.and_eq_true_iff.1 hidentifier
    cases t with
    | nil => exact absurd hbegins (by decide)
    | cons c rest =>
      cases c with
      | surrogate s => exact absurd hbegins (by simp [beginsIdentifier, CodePoint.isIdentifierStart])
      | scalar c =>
        have hne : c ≠ '_' := fun heq => hprivate (heq ▸ rfl)
        refine ⟨c, rest, rfl, ?_, (List.forall_mem_cons.1 (List.all_eq_true.1 hall)).2⟩
        simpa [beginsIdentifier, CodePoint.isIdentifierStart, hne] using hbegins

theorem dropFinalLf_append_lf (t : Text) : dropFinalLf (t ++ "\n") = t := by
  have hlast : (t ++ "\n" : Text).getLast? = some (.scalar '\n') := List.getLast?_concat
  rw [dropFinalLf, if_pos hlast]
  exact List.dropLast_concat

/-- What ends with an LF is none of the names that are left out. -/
theorem isPublicName_append_lf {name : Text} (h : name.IsPlainName) :
    isPublicName (name ++ "\n") = true := by
  obtain ⟨hidentifier, hprivate⟩ := isPlainName_iff.1 h
  have hlf : .scalar '\n' ∈ (name ++ "\n" : Text) :=
    List.mem_append_right _ (List.mem_singleton_self _)
  have hplain : ∀ word ∈ excludedNames, .scalar '\n' ∉ ofString word := by decide
  simp only [isPublicName, Bool.and_eq_true, Bool.not_eq_true', decide_eq_true_eq]
  refine ⟨⟨⟨?_, ?_⟩, ?_⟩, ?_⟩
  · rwa [dropFinalLf_append_lf]
  · obtain ⟨c, rest, rfl, -, -⟩ := h
    have hne : CodePoint.scalar c ≠ .scalar '_' := fun heq => hprivate (congrArg some heq)
    simpa [beginsWith, after?, ofString] using hne
  · intro heq
    rw [heq] at hlf
    exact absurd hlf (by decide)
  · refine List.any_eq_false.2 fun word hword heq => hplain word hword ?_
    rwa [← of_decide_eq_true heq]

/-- A public name is a plain one, or a plain one with an LF behind it. -/
theorem isPlainName_of_isPublicName {t : Text} (h : t.isPublicName = true) :
    t.IsPlainName ∨ ∃ name : Text, name.IsPlainName ∧ t = name ++ "\n" := by
  have hprivate := (ne_of_isPublicName h).1
  have hidentifier : t.dropFinalLf.isIdentifier = true := by
    simp only [isPublicName, Bool.and_eq_true] at h
    exact h.1.1.1
  rw [dropFinalLf] at hidentifier
  split at hidentifier
  · next hlast =>
    obtain ⟨name, rfl⟩ := List.getLast?_eq_some_iff.1 hlast
    rw [List.dropLast_concat] at hidentifier
    have hne : name ≠ [] := by
      rintro rfl
      exact absurd hidentifier (by decide)
    rw [List.head?_append_of_ne_nil _ hne] at hprivate
    exact .inr ⟨name, isPlainName_iff.2 ⟨hidentifier, hprivate⟩, rfl⟩
  · exact .inl (isPlainName_iff.2 ⟨hidentifier, hprivate⟩)

end Text

namespace Method

open Text

/-- The line of its name in the entry of a method. -/
def nameLine (m : Method) : Text := "\t\tname: '" ++ (m.name ++ "',")

/-- A method with a plain name, of which its entry holds a literal on a line of its own: after the
opening quote the name is read, and after the closing one a comma is left. -/
structure IsNamedPlainly (m : Method) : Prop where
  isPlainName : m.name.IsPlainName
  line : (Declaration.entry m).lines[1]? = some m.nameLine
  literal : Literal.read? (.scalar '\x27') (m.name ++ "',") = some (m.name, ofString ",")

/-- The line of a name is the second one of an entry, if nothing in the name ends it. -/
theorem lines_entry {m : Method} (h : .scalar '\n' ∉ m.name) : ∃ below,
    (Declaration.entry m).lines = ofString "\t\x7b" :: m.nameLine :: below := by
  have hname : .scalar '\n' ∉ m.nameLine := by
    rw [nameLine, List.mem_append, List.mem_append, not_or, not_or]
    exact ⟨by decide, h, by decide⟩
  have hopening : ofString "\t\x7b\n" = "\t\x7b" ++ "\n" := rfl
  have hclosing : ofString "',\n" = "'," ++ "\n" := rfl
  have hline : ∀ rest : Text,
      ofString "\t\tname: '" ++ (m.name ++ (ofString "'," ++ rest)) = m.nameLine ++ rest := by
    intro rest
    rw [nameLine, List.append_assoc, List.append_assoc]
  simp only [Declaration.entry, hopening, hclosing, List.append_assoc]
  rw [lines_line_append (by decide), hline, lines_line_append hname]
  exact ⟨_, rfl⟩

theorem isNamedPlainly_of_isPlainName {m : Method} (h : m.name.IsPlainName) :
    m.IsNamedPlainly := by
  have hidentifier := (isPlainName_iff.1 h).1
  obtain ⟨below, hlines⟩ := lines_entry (notMem_of_isIdentifier hidentifier (by decide))
  exact ⟨h, by rw [hlines]; rfl, Declaration.readIdentifier?_append hidentifier ","⟩

/-- All methods that are kept are named plainly exactly if none is given whose name is a plain one
with an LF behind it. -/
theorem isNamedPlainly_combine_iff (documented bare : List Method) :
    (∀ m ∈ combine documented bare, m.IsNamedPlainly) ↔
      ∀ m ∈ documented ++ bare, ∀ name : Text, name.IsPlainName → m.name ≠ name ++ "\n" := by
  constructor
  · rintro hkept m hm name hname heq
    have hpublic : m.name.isPublicName = true := heq ▸ isPublicName_append_lf hname
    obtain ⟨k, hk, hsame⟩ := exists_mem_combine (List.mem_append.1 hm) hpublic
    have hplain := (hkept k hk).isPlainName
    rw [hsame, heq] at hplain
    refine notMem_of_isIdentifier (isPlainName_iff.1 hplain).1 (c := .scalar '\n') ?_ ?_
    · decide
    · exact List.mem_append_right _ (List.mem_singleton_self _)
  · intro hgiven m hm
    apply isNamedPlainly_of_isPlainName
    obtain hplain | ⟨name, hname, heq⟩ :=
      isPlainName_of_isPublicName (isPublicName_of_mem_combine hm)
    · exact hplain
    · exact absurd heq (hgiven m (List.mem_append.2 (mem_of_mem_combine hm)) name hname)

/-- A method whose name ends with an LF. -/
def brokenName : Method where
  name := "run\n"
  params := []
  isAsync := false
  description := "Runs."

/-- A name that ends with an LF is kept. -/
theorem not_isNamedPlainly : ¬ ∀ documented bare : List Method,
    ∀ m ∈ combine documented bare, m.IsNamedPlainly := by
  intro hall
  have hkept : brokenName ∈ combine [brokenName] [] := by decide +kernel
  have hread := (hall [brokenName] [] brokenName hkept).literal
  exact absurd hread (by decide +kernel)

end Method

end DeclSync
