import DeclSync.Proofs.DocumentedMethods
import DeclSync.Proofs.ExtractedMethods
import Mathlib.Data.List.Chain

/-!
# What every extracted method satisfies

Whatever a bundle holds, and however descriptions speak of the interface: the methods that are
extracted have different names, and each of them can be declared as it is. Its name is public, its
parameter list is trimmed and closes nothing, its description has single spaces for blanks and every
quote and backslash escaped, and its comment is a piece of the bundle. A method that a comment
documents is never hidden by a bare one.

## Main definitions

- `Text.IsSingleSpaced` — words with one space between each two
- `Text.IsEscaped` — a text in which every quote and backslash is escaped
- `Method.IsDeclarable` — what a method has to satisfy to be declared as it is
- `Method.IsExtracted` — what every extracted method satisfies

`Method.ofBundle_invariant` says that the methods of a bundle satisfy it.
-/

namespace DeclSync

/-- A code point that a backslash has to stand in front of. -/
def CodePoint.IsSpecial (c : CodePoint) : Prop := c = '\\' ∨ c = '\x27' ∨ c = '"'

namespace Text

/-- Words with one space between each two: the space is the only blank, none stands at either end,
and none right behind another. -/
structure IsSingleSpaced (t : Text) : Prop where
  only_space : ∀ c ∈ t, c.isBlank = true → c = .scalar ' '
  trimmed : t.trim = t
  apart : t.IsChain fun c d => c.isBlank = true → d.isBlank = false

/-- A text in which every backslash takes a quote or a backslash along, and no other quote is. -/
inductive IsEscaped : Text → Prop where
  | nil : IsEscaped []
  | plain {c : CodePoint} {t : Text} (hc : ¬ c.IsSpecial) (rest : IsEscaped t) : IsEscaped (c :: t)
  | escaped {c : CodePoint} {t : Text} (hc : c.IsSpecial) (rest : IsEscaped t) :
      IsEscaped (.scalar '\\' :: c :: t)

/-! ## Single spaces -/

theorem isSingleSpaced_nil : IsSingleSpaced [] where
  only_space := by simp
  trimmed := rfl
  apart := .nil

theorem isSingleSpaced_word {w : Text} (hw : ∀ c ∈ w, c.isBlank = false) : w.IsSingleSpaced where
  only_space := by
    intro c hc hblank
    rw [hw c hc] at hblank
    exact absurd hblank (by simp)
  trimmed := by
    refine trim_eq_self_iff.2 ⟨?_, ?_⟩
    · intro c hc
      exact hw c (List.mem_of_mem_head? hc)
    · intro c hc
      exact hw c (List.mem_reverse.1 (List.mem_of_mem_head? hc))
  apart := by
    apply List.Pairwise.isChain
    apply List.pairwise_of_forall_mem_list
    intro c _ d hd _
    exact hw d hd

/-- One more word in front, with a space behind it. -/
theorem IsSingleSpaced.cons_word {w t : Text} (ht : t.IsSingleSpaced) (hne : t ≠ [])
    (hw : ∀ c ∈ w, c.isBlank = false) (hword : w ≠ []) : IsSingleSpaced (w ++ (" " ++ t)) where
  only_space := by
    intro c hc hblank
    rcases List.mem_append.1 hc with hc | hc
    · exact (isSingleSpaced_word hw).only_space c hc hblank
    · rcases List.mem_append.1 hc with hc | hc
      · simpa [ofString] using hc
      · exact ht.only_space c hc hblank
  trimmed := by
    obtain ⟨hstart, -⟩ := trim_eq_self_iff.1 (isSingleSpaced_word hw).trimmed
    obtain ⟨-, hend⟩ := trim_eq_self_iff.1 ht.trimmed
    refine trim_eq_self_iff.2 ⟨hstart.append_of_ne_nil hword _, ?_⟩
    rw [List.reverse_append, List.reverse_append, List.append_assoc]
    exact hend.append_of_ne_nil (by simpa using hne) _
  apart := by
    obtain ⟨hstart, -⟩ := trim_eq_self_iff.1 ht.trimmed
    refine (isSingleSpaced_word hw).apart.append (.append (.singleton _) ht.apart ?_) ?_
    · intro c _ d hd _
      exact hstart d hd
    · intro c hc d _ hblank
      rw [hw c (List.mem_of_getLast? hc)] at hblank
      exact absurd hblank (by simp)

theorem isSingleSpaced_intercalate {words : List Text}
    (hwords : ∀ w ∈ words, w ≠ [] ∧ ∀ c ∈ w, c.isBlank = false) :
    IsSingleSpaced (List.intercalate " " words) := by
  induction words with
  | nil => exact isSingleSpaced_nil
  | cons w words ih =>
    obtain ⟨⟨hne, hw⟩, hlater⟩ := List.forall_mem_cons.1 hwords
    cases words with
    | nil =>
      rw [List.intercalate_singleton]
      exact isSingleSpaced_word hw
    | cons next words =>
      rw [List.intercalate_cons_cons, List.append_assoc]
      refine (ih hlater).cons_word ?_ hw hne
      exact intercalate_ne_nil (by simp) fun w hw => (hlater w hw).1

/-- Escapes stand inside the words, so a literal has single spaces where its text has blanks. -/
theorem isSingleSpaced_literalBody (t : Text) : t.literalBody.IsSingleSpaced := by
  rw [literalBody, singleSpaced, flatMap_intercalate]
  apply isSingleSpaced_intercalate
  intro w hw
  obtain ⟨word, hword, rfl⟩ := List.mem_map.1 hw
  obtain ⟨hne, hnonblank⟩ := isBlank_of_mem_words hword
  constructor
  · intro hnil
    have hplain := unescaped_flatMap_inLiteral word
    rw [hnil] at hplain
    exact hne hplain.symm
  · intro c hc
    obtain ⟨d, hd, hcd⟩ := List.mem_flatMap.1 hc
    rcases mem_inLiteral hcd with rfl | rfl
    · exact hnonblank c hd
    · decide

/-! ## Escapes -/

theorem isEscaped_flatMap_inLiteral (t : Text) : IsEscaped (t.flatMap CodePoint.inLiteral) := by
  induction t with
  | nil => exact .nil
  | cons c t ih =>
    rw [List.flatMap_cons]
    by_cases hc : c.IsSpecial
    · have hliteral : c.inLiteral = [.scalar '\\', c] := if_pos hc
      rw [hliteral]
      exact .escaped hc ih
    · have hliteral : c.inLiteral = [c] := if_neg hc
      rw [hliteral]
      exact .plain hc ih

end Text

/-! ## Parameter lists and comments -/

theorem Header.Spelling.trim_params (s : Header.Spelling) :
    s.params.trim.trim = s.params.trim ∧ .scalar ')' ∉ s.params.trim :=
  ⟨Text.trim_trim s.params, fun hclose => s.unclosed_params ((Text.isInfix_trim _).mem hclose)⟩

namespace Documented

variable {apiName bundle : Text} {m : Method}

theorem trim_params_of_mem_methods (hm : m ∈ methods apiName bundle) :
    m.params.trim = m.params ∧ .scalar ')' ∉ m.params := by
  obtain ⟨body, gap, s, rest, -, rfl⟩ := exists_spelled_of_mem_methods hm
  exact s.trim_params

/-- The comment of a documented method is a piece of the bundle. -/
theorem exists_comment_of_mem_methods (hm : m ∈ methods apiName bundle) :
    ∃ comment, m.comment = some comment ∧ comment <:+: bundle.unifyLineEndings := by
  obtain ⟨body, gap, s, rest, hspelled, rfl⟩ := exists_spelled_of_mem_methods hm
  refine ⟨"/**" ++ body ++ "*/", rfl, List.IsInfix.trans ?_ hspelled.isInfix⟩
  exact ⟨[], gap ++ (s.text ++ rest), by simp [spelled]⟩

theorem description_ne_nil_of_mem_methods (hm : m ∈ methods apiName bundle) :
    m.description ≠ [] := by
  obtain ⟨found, -, rfl⟩ := List.mem_map.1 hm
  exact Method.descriptionOf_ne_nil found.value.header.name found.value.comment apiName

end Documented

namespace Bare

variable {apiName bundle : Text} {m : Method}

theorem trim_params_of_mem_methods (hm : m ∈ methods apiName bundle) :
    m.params.trim = m.params ∧ .scalar ')' ∉ m.params := by
  obtain ⟨h, hh, rfl⟩ := List.mem_map.1 hm
  obtain ⟨s, rfl⟩ := exists_spelling_of_mem_headers hh
  exact s.trim_params

theorem comment_of_mem_methods (hm : m ∈ methods apiName bundle) : m.comment = none := by
  obtain ⟨h, -, rfl⟩ := List.mem_map.1 hm
  rfl

theorem description_ne_nil_of_mem_methods (hm : m ∈ methods apiName bundle) :
    m.description ≠ [] := by
  obtain ⟨h, -, rfl⟩ := List.mem_map.1 hm
  exact Method.descriptionOf_none_ne_nil _ _

end Bare

/-! ## The methods of a bundle -/

namespace Method

/-- What a method has to satisfy to be declared as it is. -/
structure IsDeclarable (m : Method) : Prop where
  isIdentifier_name : m.name.isIdentifier = true
  not_private : m.name.head? ≠ some (.scalar '_')
  not_constructor : m.name ≠ "constructor"
  not_excluded : ∀ word ∈ excludedNames, m.name ≠ word
  trim_params : m.params.trim = m.params
  unclosed_params : .scalar ')' ∉ m.params
  description_ne_nil : m.description ≠ []
  isSingleSpaced_description : m.description.IsSingleSpaced
  isEscaped_description : m.description.IsEscaped

/-- What every method satisfies that is extracted from a bundle: it can be declared, and is bare only
if no documented one has its name. -/
structure IsExtracted (apiName bundle : Text) (m : Method) : Prop extends m.IsDeclarable where
  infix_comment : ∀ comment ∈ m.comment, comment <:+: bundle.unifyLineEndings
  undocumented : m.comment = none → ∀ d ∈ Documented.methods apiName bundle, d.name ≠ m.name
  documented : m.comment ≠ none →
    (Documented.methods apiName bundle).find? (fun d => d.name = m.name) = some m

variable {apiName bundle : Text} {m : Method}

/-- Both scans trim a parameter list, which closes nothing, and leave no description empty. -/
theorem trim_params_of_mem_ofBundle (hm : m ∈ ofBundle apiName bundle) :
    (m.params.trim = m.params ∧ .scalar ')' ∉ m.params) ∧ m.description ≠ [] := by
  rcases mem_of_mem_combine hm with hdocumented | hbare
  · exact ⟨Documented.trim_params_of_mem_methods hdocumented,
      Documented.description_ne_nil_of_mem_methods hdocumented⟩
  · exact ⟨Bare.trim_params_of_mem_methods hbare, Bare.description_ne_nil_of_mem_methods hbare⟩

/-- A method is the first documented one of its name, or it has no comment and none of its name is
documented. -/
theorem find?_documented_of_mem_ofBundle (hm : m ∈ ofBundle apiName bundle) :
    ((Documented.methods apiName bundle).find? (fun d => d.name = m.name) = some m ∧
      ∃ comment, m.comment = some comment ∧ comment <:+: bundle.unifyLineEndings) ∨
    ((∀ d ∈ Documented.methods apiName bundle, d.name ≠ m.name) ∧ m.comment = none) := by
  have hfirst := find?_of_mem_combine hm
  rw [List.find?_append] at hfirst
  cases hdocumented : (Documented.methods apiName bundle).find? (fun d => d.name = m.name) with
  | some first =>
    rw [hdocumented, Option.some_or] at hfirst
    obtain rfl := Option.some.inj hfirst
    have hmem := List.mem_of_find?_eq_some hdocumented
    exact .inl ⟨rfl, Documented.exists_comment_of_mem_methods hmem⟩
  | none =>
    rw [hdocumented, Option.none_or] at hfirst
    refine .inr ⟨?_, Bare.comment_of_mem_methods (List.mem_of_find?_eq_some hfirst)⟩
    intro d hd
    simpa using List.find?_eq_none.1 hdocumented d hd

theorem isDeclarable_of_mem_ofBundle (hm : m ∈ ofBundle apiName bundle) : m.IsDeclarable := by
  obtain ⟨hprivate, hconstructor, hexcluded⟩ :=
    Text.ne_of_isPublicName (isPublicName_of_mem_combine hm)
  have hwritable := isWritable_of_mem_ofBundle hm
  obtain ⟨t, ht⟩ := hwritable.literal_description
  obtain ⟨⟨htrim, hunclosed⟩, hdescription⟩ := trim_params_of_mem_ofBundle hm
  constructor
  case isIdentifier_name => exact hwritable.isIdentifier_name
  case not_private => exact hprivate
  case not_constructor => exact hconstructor
  case not_excluded => exact hexcluded
  case trim_params => exact htrim
  case unclosed_params => exact hunclosed
  case description_ne_nil => exact hdescription
  case isSingleSpaced_description =>
    rw [ht]
    exact Text.isSingleSpaced_literalBody t
  case isEscaped_description =>
    rw [ht]
    exact Text.isEscaped_flatMap_inLiteral _

/-- The methods of a bundle have different names, and each of them satisfies what a declaration
needs of it, whatever the bundle holds. -/
theorem ofBundle_invariant (apiName bundle : Text) :
    ((ofBundle apiName bundle).map Method.name).Nodup ∧
      ∀ m ∈ ofBundle apiName bundle, m.IsExtracted apiName bundle := by
  refine ⟨nodup_map_name_firstOfEachName _, ?_⟩
  intro m hm
  have hdeclarable := isDeclarable_of_mem_ofBundle hm
  rcases find?_documented_of_mem_ofBundle hm with
    ⟨hfirst, comment, hcomment, hinfix⟩ | ⟨hundocumented, hnone⟩
  · refine ⟨hdeclarable, ?_, fun hnone => ?_, fun _ => hfirst⟩
    · intro other hother
      rw [Option.mem_def, hcomment] at hother
      obtain rfl := Option.some.inj hother
      exact hinfix
    · rw [hcomment] at hnone
      exact absurd hnone (by simp)
  · refine ⟨hdeclarable, fun comment hcomment => ?_, fun _ => hundocumented,
      fun hsome => absurd hnone hsome⟩
    rw [Option.mem_def, hnone] at hcomment
    exact absurd hcomment (by simp)

/-- A documented method that a bare one of its name follows, and another bare one. -/
def hidingBundle : Text :=
  "/** it\x27s\t\"up\" */\nrun(a = [1], b ) \x7b\nrun() \x7b\n stop() \x7b"

/-- The invariant speaks of methods of both kinds: here of one with a comment, and of a bare one. -/
theorem ofBundle_invariant_hiding :
    ((ofBundle "m" hidingBundle).map Method.name).Nodup ∧
      (∃ m ∈ ofBundle "m" hidingBundle, m.comment ≠ none ∧ m.IsExtracted "m" hidingBundle) ∧
      ∃ m ∈ ofBundle "m" hidingBundle, m.comment = none ∧ m.IsExtracted "m" hidingBundle := by
  obtain ⟨hnames, hmethods⟩ := ofBundle_invariant "m" hidingBundle
  have hrun : ⟨"run", "a = [1], b", false, Text.ofString "it\\\x27s \\\"up\\\"",
      some "/** it\x27s\t\"up\" */"⟩ ∈ ofBundle "m" hidingBundle := by
    decide +kernel
  have hstop : ⟨"stop", "", false, Text.ofString "stop method from m", none⟩ ∈
      ofBundle "m" hidingBundle := by
    decide +kernel
  refine ⟨hnames, ⟨_, hrun, ?_, hmethods _ hrun⟩, ⟨_, hstop, ?_, hmethods _ hstop⟩⟩
  · simp
  · rfl

end Method

end DeclSync
