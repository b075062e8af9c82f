import DeclSync.Proofs.ExtractedMethods
import DeclSync.Proofs.HeaderLines
import DeclSync.Proofs.Lines
import DeclSync.Proofs.Marks

/-!
# Bare headers are not missed

A header on a line of its own is found, wherever it stands in a bundle, whatever stands on the other
lines, and though it runs on over the lines below. None of the rules by which lines are passed over
applies to its line: it begins with a word that is no keyword of control flow, and nothing of its
parameter list is at the top level, not even of a first part of it.

## Main definitions

- `Bare.headersOn`, `Bare.methodsOn` — the headers and methods that begin on one line

`Bare.head?_methodsOn` says that the first method of the line of a header is that of the header.
-/

namespace DeclSync

namespace Bare

open Text

/-! ## Lines that are not passed over -/

/-- A text begins with a word if its first identifier is that word and no letter follows, or if it
goes on with `$`, which is no part of a word. -/
theorem beginsWithWord_iff {t word : Text} (hword : ∀ c ∈ word, c.isIdentifierChar = true) :
    beginsWithWord t word = true ↔
      (t.takeWhile CodePoint.isIdentifierChar = word ∧
        BeginsWithout CodePoint.isWordChar (t.dropWhile CodePoint.isIdentifierChar)) ∨
      (word ++ "$" : Text) <+: t.takeWhile CodePoint.isIdentifierChar := by
  constructor
  · intro hbegins
    obtain ⟨rest, hafter, hends⟩ := (Option.any_eq_true _ _).1 hbegins
    rw [after?_eq_some_iff.1 hafter, List.takeWhile_append_of_pos hword,
      List.dropWhile_append_of_pos hword]
    cases rest with
    | nil => exact .inl ⟨List.append_nil word, by simp [BeginsWithout]⟩
    | cons c rest =>
      have hnoWord : c.isWordChar = false := by simpa using hends
      by_cases hchar : c.isIdentifierChar = true
      · -- an identifier can only go on with what is no part of a word if that is `$`
        obtain rfl : c = .scalar '$' := by
          by_contra hne
          rw [CodePoint.isWordChar_of_isIdentifierChar hchar hne] at hnoWord
          exact absurd hnoWord (by decide)
        rw [List.takeWhile_cons_of_pos hchar]
        exact .inr ⟨rest.takeWhile CodePoint.isIdentifierChar, List.append_assoc _ _ _⟩
      · rw [List.takeWhile_cons_of_neg hchar, List.dropWhile_cons_of_neg hchar, List.append_nil]
        exact .inl ⟨rfl, beginsWithout_cons hnoWord rest⟩
  · have hparts := List.takeWhile_append_dropWhile (p := CodePoint.isIdentifierChar) (l := t)
    rintro (⟨rfl, hends⟩ | ⟨more, hdollar⟩)
    · refine (Option.any_eq_true _ _).2 ⟨_, after?_eq_some_iff.2 hparts.symm, ?_⟩
      cases hrest : t.dropWhile CodePoint.isIdentifierChar with
      | nil => rfl
      | cons c rest =>
        rw [hrest] at hends
        simpa using hends c rfl
    · rw [← hdollar, List.append_assoc, List.append_assoc] at hparts
      exact (Option.any_eq_true _ _).2 ⟨_, after?_eq_some_iff.2 hparts.symm, rfl⟩

/-- A line does not begin with a word if its first identifier is another one, without `$`. -/
theorem beginsWithWord_eq_false {line word : Text} (hword : ∀ c ∈ word, c.isIdentifierChar = true)
    (hdollar : .scalar '$' ∉ line.takeWhile CodePoint.isIdentifierChar)
    (hne : line.takeWhile CodePoint.isIdentifierChar ≠ word) :
    beginsWithWord line word = false := by
  by_contra hbegins
  obtain ⟨heq, -⟩ | hlonger := (beginsWithWord_iff hword).1 (Bool.not_eq_false _ ▸ hbegins)
  · exact hne heq
  · exact hdollar (hlonger.mem (List.mem_append_right _ (List.mem_singleton_self _)))

section PassedOver

variable {line : Text} (hbegins : line.beginsIdentifier = true)

include hbegins

theorem trimStart_dropWhile_brace : trimStart (line.dropWhile (· = .scalar '\x7d')) = line := by
  cases line with
  | nil => rfl
  | cons c line =>
    have hne : c ≠ .scalar '\x7d' := by
      rintro rfl
      exact absurd hbegins (by simp [beginsIdentifier, CodePoint.isIdentifierStart])
    rw [List.dropWhile_cons_of_neg (by simpa using hne)]
    exact trimStart_eq_self (Header.beginsWithout_isBlank_of_beginsIdentifier hbegins)

/-- A line is no control flow if its first word is no keyword. -/
theorem opensControlFlow_eq_false
    (hdollar : .scalar '$' ∉ line.takeWhile CodePoint.isIdentifierChar)
    (hword : ∀ keyword ∈ controlFlowWords,
      line.takeWhile CodePoint.isIdentifierChar ≠ ofString keyword) :
    opensControlFlow line = false := by
  have hchars : ∀ keyword ∈ controlFlowWords, ∀ c ∈ ofString keyword,
      c.isIdentifierChar = true := by decide
  rw [opensControlFlow, trimStart_dropWhile_brace hbegins]
  refine List.any_eq_false.2 fun keyword hkeyword => ?_
  rw [beginsWithWord_eq_false (hchars keyword hkeyword) hdollar (hword keyword hkeyword)]
  decide

theorem beginsWith_commentMark_eq_false :
    ∀ mark ∈ commentMarks, line.beginsWith (ofString mark) = false := by
  have hmarks : ∀ mark ∈ commentMarks, (ofString mark).beginsIdentifier = false ∧
      ofString mark ≠ [] := by decide
  intro mark hmark
  obtain ⟨hno, hne⟩ := hmarks mark hmark
  by_contra hopens
  obtain ⟨rest, hrest⟩ := isSome_after?_iff.1 (Bool.not_eq_false _ ▸ hopens)
  obtain ⟨c, mark', hcons⟩ := List.exists_cons_of_ne_nil hne
  rw [← hrest, hcons] at hbegins
  rw [hcons] at hno
  exact absurd (hbegins.symm.trans hno) (by decide)

end PassedOver

/-- The words that can stand before a name hold no `$`, and none of them is a keyword of control
flow. -/
theorem not_keyword_of_qualifier : ∀ word ∈ (["static", "async", "function"] : List Text),
    .scalar '$' ∉ word ∧ ∀ keyword ∈ controlFlowWords, word ≠ ofString keyword := by
  decide

section Header

variable {s : Header.Spelling} (hpublic : s.name.isPublicName = true)
  (hdollar : .scalar '$' ∉ s.name)

include hpublic hdollar

/-- The first word of a header is no keyword of control flow, and holds no `$`. -/
theorem not_keyword_takeWhile_text :
    .scalar '$' ∉ s.text.takeWhile CodePoint.isIdentifierChar ∧
      ∀ keyword ∈ controlFlowWords,
        s.text.takeWhile CodePoint.isIdentifierChar ≠ ofString keyword := by
  have hexcluded : ∀ keyword ∈ controlFlowWords, keyword ∈ excludedNames := by decide
  have hword := s.takeWhile_text []
  rw [List.append_nil] at hword
  rcases hword with hname | hqualifier
  · rw [hname]
    exact ⟨hdollar, fun keyword hkeyword =>
      (ne_of_isPublicName hpublic).2.2 keyword (hexcluded keyword hkeyword)⟩
  · exact not_keyword_of_qualifier _ hqualifier

/-- The line of a header is not passed over, however far the header runs on below it. -/
theorem isPassedOver_firstLine {gap : Text} (hgap : ∀ c ∈ gap, c.isBlank = true)
    (hparams : Nesting.IsBalanced s.params)
    (hcalls : ∀ call ∈ unrelatedCalls, ¬ ofString call <:+: s.text.firstLine) :
    isPassedOver (gap ++ s.text.firstLine) = false := by
  have htext := s.beginsIdentifier_text
  have htrim := trim_gap_firstLine hgap htext
  obtain ⟨later, hlater, hends⟩ := exists_trimEnd_firstLine s.text
  obtain ⟨blanks, -, hline⟩ := exists_trimEnd s.text.firstLine
  generalize s.text.firstLine.trimEnd = line at htrim hlater hline
  have hbegins : line.beginsIdentifier = true := by
    rw [hlater] at htext
    exact beginsIdentifier_of_append htext hends
  -- the line has the first word of the header, and its top level is a part of that of the header
  have hword := not_keyword_takeWhile_text hpublic hdollar
  rw [hlater, takeWhile_append_of_beginsWithout_right hends] at hword
  have htop : Nesting.topLevelFrom (.code 0) line <+: Nesting.topLevelFrom (.code 0) s.text :=
    Nesting.topLevelFrom_prefix _ ⟨later, hlater.symm⟩
  -- the rules, one by one
  have hempty : line.isEmpty = false := by
    cases line with
    | nil => exact absurd hbegins (by decide)
    | cons c line => rfl
  have hflow := opensControlFlow_eq_false hbegins hword.1 hword.2
  have hcomment : (commentMarks.any fun mark => line.beginsWith mark) = false :=
    List.any_eq_false.2 fun mark hmark => by
      rw [beginsWith_commentMark_eq_false hbegins mark hmark]
      decide
  have hassigns : line.assignment? = none :=
    Nesting.assignmentFrom?_eq_none (fun hmem => s.notMem_topLevelFrom_text hparams (by decide)
      (by decide) (by decide) (htop.mem hmem)) none
  have hcolon : line.hasAtTopLevel ":" = false :=
    Nesting.hasAtTopLevel_eq_false fun hmem => s.notMem_topLevelFrom_text hparams (by decide)
      (by decide) (by decide) (htop.mem hmem)
  have hcall : (unrelatedCalls.any fun call => line.mentions call) = false := by
    refine List.any_eq_false.2 fun call hcall hmentions => hcalls call hcall ?_
    rw [hline]
    exact (mentions_eq_true_iff.1 hmentions).trans (List.prefix_append _ _).isInfix
  simp only [isPassedOver, htrim, hempty, hflow, hcomment, assigns, hassigns, hcolon, hcall,
    Option.isSome_none, Bool.false_and, Bool.or_self]

end Header

/-! ## The headers of one line -/

/-- The headers that begin on the line of an index. -/
def headersOn (lines : List Text) (i : Nat) : List Header :=
  match lines.drop i with
  | [] => []
  | line :: below => if isPassedOver line then [] else openedOn line below

/-- The methods of the headers that begin on the line of an index. -/
def methodsOn (apiName bundle : Text) (i : Nat) : List Method :=
  (headersOn bundle.unifyLineEndings.lines i).map (method apiName)

theorem headers_eq_flatMap (lines : List Text) :
    headers lines = (List.range lines.length).flatMap (headersOn lines) := by
  induction lines with
  | nil => rfl
  | cons line below ih =>
    rw [headers, ih, List.length_cons, List.range_succ_eq_map, List.flatMap_cons, List.flatMap_map]
    rfl

/-- The bare methods of a bundle are those of its lines, one line after another. -/
theorem methods_eq_flatMap (apiName bundle : Text) : methods apiName bundle =
    (List.range bundle.unifyLineEndings.lines.length).flatMap (methodsOn apiName bundle) := by
  rw [methods, headers_eq_flatMap, List.map_flatMap]
  rfl

theorem mem_methods_of_mem_methodsOn {apiName bundle : Text} {i : Nat} {m : Method}
    (hm : m ∈ methodsOn apiName bundle i) : m ∈ methods apiName bundle := by
  rw [methods_eq_flatMap]
  refine List.mem_flatMap.2 ⟨i, List.mem_range.2 ?_, hm⟩
  by_contra hlt
  rw [methodsOn, headersOn, List.drop_eq_nil_of_le (Nat.le_of_not_lt hlt)] at hm
  exact absurd hm List.not_mem_nil

/-- A header behind the blanks of a line is the first that begins on it, if it ends in the window.
-/
theorem head?_openedOn {s : Header.Spelling} {gap line : Text} {below : List Text}
    (hgap : ∀ c ∈ gap, c.isBlank = true) (hline : gap.length < line.length)
    (hwindow : gap ++ s.text <+: List.intercalate "\n" ((line :: below).take maxHeaderLines)) :
    (openedOn line below).head? = some s.header := by
  have htake : (line :: below).take maxHeaderLines = line :: below.take (maxHeaderLines - 1) := rfl
  obtain ⟨rest, hrest⟩ := hwindow
  rw [htake, List.append_assoc] at hrest
  simp only [openedOn, ← hrest, List.head?_map, List.head?_takeWhile,
    Header.occurrences_gap_append hgap, List.head?_cons, Option.filter_some, hline, decide_true,
    if_true, Option.map_some]

/-- The first line of a header behind blanks, and the lines that the header may run on over. -/
theorem exists_lines_spelled {s : Header.Spelling} {gap after : Text}
    (hgap : .scalar '\n' ∉ gap) (hafter : after = [] ∨ after.head? = some (.scalar '\n'))
    (hlines : s.text.count (.scalar '\n') < maxHeaderLines) :
    ∃ below, lines (gap ++ (s.text ++ after)) = (gap ++ s.text.firstLine) :: below ∧
      gap ++ s.text <+:
        List.intercalate "\n" (((gap ++ s.text.firstLine) :: below).take maxHeaderLines) := by
  have hends : BeginsWithout (fun c => decide (c ≠ .scalar '\n')) after := by
    intro c hc
    rcases hafter with rfl | hhead
    · exact absurd hc (by simp)
    · obtain rfl := Option.some.inj (hhead.symm.trans hc)
      decide
  have hlf : .scalar '\n' ∉ gap ++ s.text.firstLine := by
    rw [List.mem_append, not_or]
    exact ⟨hgap, lf_notMem_firstLine s.text⟩
  obtain ⟨below, hbelow⟩ :=
    exists_lines_append hlf ((beginsWithout_dropWhile _ s.text).append hends)
  rw [List.append_assoc, ← List.append_assoc s.text.firstLine, firstLine_append] at hbelow
  refine ⟨below, hbelow, ?_⟩
  rw [← hbelow]
  refine prefix_intercalate_take_lines ⟨after, List.append_assoc _ _ _⟩ ?_
  rwa [List.count_append, List.count_eq_zero.2 hgap, Nat.zero_add]

/-- A header that stands behind blanks where a line starts, and whose opening curly bracket is the
last thing on its line, gives the first method of the line that it begins on, though it may run on
over the two lines below; and its name is among those of the bundle. -/
theorem head?_methodsOn {s : Header.Spelling} {bundle before gap after : Text} (apiName : Text)
    (hbundle : bundle = before ++ (gap ++ (s.text ++ after))) (hcr : .scalar '\r' ∉ bundle)
    (hline : before.IsLineStart before.length)
    (hgap : ∀ c ∈ gap, c.isBlank = true ∧ c ≠ .scalar '\n')
    (hafter : after = [] ∨ after.head? = some (.scalar '\n'))
    (hpublic : s.name.isPublicName = true) (hdollar : .scalar '$' ∉ s.name)
    (hparams : Nesting.IsBalanced s.params) (hlines : s.text.count (.scalar '\n') ≤ 2)
    (hcalls : ∀ call ∈ unrelatedCalls, ¬ ofString call <:+: s.text.firstLine) :
    methods apiName bundle =
      (List.range bundle.lines.length).flatMap (methodsOn apiName bundle) ∧
    (methodsOn apiName bundle (before.count (.scalar '\n'))).head? =
      some { name := s.name, params := s.params.trim, isAsync := s.async.isSome,
             description := Method.descriptionOf s.name none apiName } ∧
    ∃ m ∈ Method.ofBundle apiName bundle, m.name = s.name := by
  have hblank : ∀ c ∈ gap, c.isBlank = true := fun c hc => (hgap c hc).1
  have hunified := unifyLineEndings_of_cr_notMem hcr
  obtain ⟨below, hbelow, hwindow⟩ := exists_lines_spelled (fun hc => (hgap _ hc).2 rfl) hafter
    (Nat.lt_succ_of_le hlines)
  have hlong : gap.length < (gap ++ s.text.firstLine).length := by
    have hfirst := beginsIdentifier_firstLine s.beginsIdentifier_text
    cases hcons : s.text.firstLine with
    | nil => exact absurd (hcons ▸ hfirst) (by decide)
    | cons c line => simp
  have hheader : (headersOn bundle.lines (before.count (.scalar '\n'))).head? = some s.header := by
    rw [headersOn, hbundle, drop_lines_append hline, hbelow]
    simp only [isPassedOver_firstLine hpublic hdollar hblank hparams hcalls, Bool.false_eq_true,
      if_false]
    exact head?_openedOn hblank hlong hwindow
  have hfirst : (methodsOn apiName bundle (before.count (.scalar '\n'))).head? =
      some (method apiName s.header) := by
    rw [methodsOn, hunified, List.head?_map, hheader, Option.map_some]
  have hmem := mem_methods_of_mem_methodsOn (List.mem_of_mem_head? hfirst)
  have hall := methods_eq_flatMap apiName bundle
  rw [hunified] at hall
  exact ⟨hall, hfirst, Method.exists_mem_combine (.inr hmem) hpublic⟩

/-- A header on three lines, with `=` and `:` in its parameter list. -/
def wrappedHeader : Header.Spelling where
  static := some " "
  async := some "\n  "
  function := none
  name := "run"
  beforeParams := []
  params := " a = '=:', b = [1,\n  2] "
  beforeBody := " "
  gap_static := by rintro _ ⟨⟩; exact ⟨by decide, by decide⟩
  gap_async := by rintro _ ⟨⟩; exact ⟨by decide, by decide⟩
  gap_function := by simp
  isIdentifier_name := by decide
  blank_beforeParams := isBlank_of_mem_nil
  unclosed_params := by decide
  blank_beforeBody := isBlank_of_mem_space

/-- The header is found between other lines. -/
theorem head?_methodsOn_wrappedHeader :
    let bundle : Text := "if (x) \x7b\n" ++ ("  " ++ (wrappedHeader.text ++ "\n\x7d"))
    .scalar '\r' ∉ bundle ∧ Nesting.IsBalanced wrappedHeader.params ∧
    (∀ call ∈ unrelatedCalls, ¬ ofString call <:+: wrappedHeader.text.firstLine) ∧
    (methodsOn standardApiName bundle 1).head? =
      some { name := "run", params := "a = '=:', b = [1,\n  2]", isAsync := true,
             description := "run method from the API" } := by
  have hcr : .scalar '\r' ∉
      ("if (x) \x7b\n" ++ ("  " ++ (wrappedHeader.text ++ "\n\x7d")) : Text) := by
    decide +kernel
  have hparams : Nesting.IsBalanced wrappedHeader.params := ⟨by decide, by decide⟩
  have hcalls : ∀ call ∈ unrelatedCalls, ¬ ofString call <:+: wrappedHeader.text.firstLine := by
    decide +kernel
  have hfound := head?_methodsOn standardApiName rfl hcr (.inr ⟨_, rfl, rfl⟩) (by decide)
    (.inr rfl) (by decide) (by decide) hparams (by decide) hcalls
  exact ⟨hcr, hparams, hcalls, hfound.2.1.trans (by decide +kernel)⟩

end Bare

end DeclSync
