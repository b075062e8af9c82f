import DeclSync.Proofs.Balance
import DeclSync.Proofs.Headers
import DeclSync.Proofs.Occurrences

/-!
# The line of a header

What a header looks like to the scans that go line by line. Nothing of its parameter list is at the
top level, so there is no assignment and no colon there. It begins with its name or with a word that
qualifies the name, and behind blanks it is the first header that is found. If it runs on over more
than one line, then its first line ends with a whole word.

## Main definitions

- `Header.Spelling.lead` — a header up to its parameter list
- `Text.firstLine` — a text up to its first LF

`Header.Spelling.topLevelFrom_text` says what the top level of a header is, and
`Header.occurrences_gap_append` that a header is found behind blanks.
-/

namespace DeclSync

namespace CodePoint

/-- What identifiers are made of, but for `$`, is what words are made of. -/
theorem isWordChar_of_isIdentifierChar {c : CodePoint} (h : c.isIdentifierChar = true)
    (hdollar : c ≠ .scalar '$') : c.isWordChar = true := by
  cases c with
  | surrogate s => exact absurd h (by simp [isIdentifierChar])
  | scalar c =>
    have hne : c ≠ '$' := fun heq => hdollar (congrArg _ heq)
    have hword : (c.isAlphanum || c == '_') = true := by
      simpa [isIdentifierChar, hne] using h
    have hascii : c.toNat < 0x80 := by
      by_contra hlt
      rcases Bool.or_eq_true_iff.1 hword with halnum | heq
      · have hnumber := isAlphanum_iff.1 halnum
        omega
      · rw [beq_iff_eq.1 heq] at hlt
        exact hlt (by decide)
    rw [isWordChar, if_pos hascii, hword]

/-- The numbers of the blanks beyond ASCII. -/
def highBlanks : List Nat :=
  [0x85, 0xA0, 0x1680, 0x2028, 0x2029, 0x202F, 0x205F, 0x3000] ++ List.range' 0x2000 11

theorem mem_highBlanks {c : CodePoint} (h : c.isBlank = true) (hascii : ¬ c.toNat < 0x80) :
    c.toNat ∈ highBlanks := by
  simp only [isBlank, if_neg hascii, Bool.or_eq_true, beq_iff_eq, Bool.and_eq_true,
    decide_eq_true_eq] at h
  simp only [highBlanks, List.mem_append, List.mem_cons, List.not_mem_nil, or_false,
    List.mem_range'_1]
  omega

theorem isWordChar_eq_false_of_isBlank {c : CodePoint} (h : c.isBlank = true) :
    c.isWordChar = false := by
  cases c with
  | surrogate s => rfl
  | scalar c =>
    rw [isWordChar]
    split
    · have hchar := isIdentifierChar_eq_false_of_isBlank h
      simp only [isIdentifierChar, Bool.or_eq_false_iff] at hchar
      rw [hchar.1.1, hchar.1.2]
      rfl
    · next hascii =>
      have hnone : ∀ n ∈ highBlanks, inRanges wordRanges n = false := by decide +kernel
      exact hnone _ (mem_highBlanks h hascii)

end CodePoint

namespace Header

open Text

/-! ## The top level of a header -/

namespace Spelling

variable (s : Spelling)

/-- What stands before the parameter list. -/
def lead : Text :=
  qualifier "static" s.static ++ (qualifier "async" s.async ++
    (qualifier "function" s.function ++ (s.name ++ s.beforeParams)))

theorem text_eq_lead :
    s.text = s.lead ++ ("(" ++ (s.params ++ (")" ++ (s.beforeBody ++ "\x7b")))) := by
  simp only [text, named, lead, List.append_assoc]

theorem brace_mem_text : .scalar '\x7b' ∈ s.text := by
  simp [text_eq_lead, ofString]

theorem mem_qualifier {word : Text} {gap? : Option Text} (hgap : ∀ gap ∈ gap?, IsGap gap)
    (hword : ∀ c ∈ word, c.isIdentifierChar = true) {c : CodePoint}
    (hc : c ∈ qualifier word gap?) : c.isIdentifierChar = true ∨ c.isBlank = true := by
  cases gap? with
  | none => exact absurd hc List.not_mem_nil
  | some gap =>
    rcases List.mem_append.1 hc with hc | hc
    · exact .inl (hword c hc)
    · exact .inr ((hgap gap rfl).2 c hc)

theorem mem_lead {c : CodePoint} (hc : c ∈ s.lead) :
    c.isIdentifierChar = true ∨ c.isBlank = true := by
  simp only [lead, List.mem_append] at hc
  rcases hc with hc | hc | hc | hc | hc
  · exact mem_qualifier s.gap_static (by decide) hc
  · exact mem_qualifier s.gap_async (by decide) hc
  · exact mem_qualifier s.gap_function (by decide) hc
  · exact .inl (s.identifierChar_of_mem_name hc)
  · exact .inr (s.blank_beforeParams c hc)

theorem isPlain_of_mem_lead {c : CodePoint} (hc : c ∈ s.lead) : c.IsPlain := by
  rcases s.mem_lead hc with hchar | hblank
  · exact CodePoint.isPlain_of_eq_true hchar (by decide)
  · exact CodePoint.isPlain_of_eq_true hblank (by decide)

/-- The top level of a header with a balanced parameter list is all of it but that list. -/
theorem topLevelFrom_text (h : Nesting.IsBalanced s.params) :
    Nesting.topLevelFrom (.code 0) s.text =
      s.lead ++ ("(" ++ (")" ++ (s.beforeBody ++ "\x7b"))) := by
  have hlead : ∀ c ∈ s.lead, c.IsPlain := fun c => s.isPlain_of_mem_lead
  have hbody : ∀ c ∈ s.beforeBody, c.IsPlain := fun c hc =>
    CodePoint.isPlain_of_eq_true (s.blank_beforeBody c hc) (by decide)
  rw [text_eq_lead, Nesting.topLevelFrom_append, Nesting.topLevelFrom_plain hlead,
    Nesting.stateAfter_plain hlead, Nesting.topLevelFrom_parenthesized h,
    Nesting.topLevelFrom_append, Nesting.topLevelFrom_plain hbody, Nesting.stateAfter_plain hbody]
  rfl

theorem notMem_topLevelFrom_text (h : Nesting.IsBalanced s.params) {c : CodePoint}
    (hchar : c.isIdentifierChar = false) (hblank : c.isBlank = false)
    (hbracket : c ∉ ofString "()\x7b") : c ∉ Nesting.topLevelFrom (.code 0) s.text := by
  rw [s.topLevelFrom_text h]
  intro hc
  simp only [List.mem_append] at hc
  rcases hc with hlead | hopen | hclose | hbody | hbrace
  · rcases s.mem_lead hlead with hlead | hlead
    · exact absurd (hchar.symm.trans hlead) (by decide)
    · exact absurd (hblank.symm.trans hlead) (by decide)
  · exact hbracket (List.mem_append_left (ofString ")\x7b") hopen)
  · exact hbracket (List.mem_append_right (ofString "(")
      (List.mem_append_left (ofString "\x7b") hclose))
  · exact absurd (hblank.symm.trans (s.blank_beforeBody c hbody)) (by decide)
  · exact hbracket (List.mem_append_right (ofString "()") hbrace)

theorem takeWhile_qualifier (word : Text) (hword : ∀ c ∈ word, c.isIdentifierChar = true)
    {gap? : Option Text} (hgap : ∀ gap ∈ gap?, IsGap gap) (t : Text) :
    (qualifier word gap? ++ t).takeWhile CodePoint.isIdentifierChar = word ∨
      (qualifier word gap? ++ t).takeWhile CodePoint.isIdentifierChar =
        t.takeWhile CodePoint.isIdentifierChar := by
  cases gap? with
  | none => exact .inr rfl
  | some gap =>
    left
    rw [qualifier, List.append_assoc]
    exact takeWhile_append_of_beginsWithout hword ((hgap gap rfl).beginsWithout t)

/-- The first word of a header is its name, or one of those that qualify it. -/
theorem takeWhile_text (rest : Text) :
    (s.text ++ rest).takeWhile CodePoint.isIdentifierChar = s.name ∨
      (s.text ++ rest).takeWhile CodePoint.isIdentifierChar ∈
        (["static", "async", "function"] : List Text) := by
  rw [s.text_append, fromAsync, fromFunction]
  -- the first of the three words that is there comes first, and the name if none of them is
  rcases takeWhile_qualifier "static" (by decide) s.gap_static _ with hword | hword
  · rw [hword]
    exact .inr (by decide)
  · rw [hword]
    rcases takeWhile_qualifier "async" (by decide) s.gap_async _ with hword | hword
    · rw [hword]
      exact .inr (by decide)
    · rw [hword]
      rcases takeWhile_qualifier "function" (by decide) s.gap_function _ with
        hword | hword
      · rw [hword]
        exact .inr (by decide)
      · exact .inl (hword.trans (s.takeWhile_named rest))

end Spelling

/-! ## The first header behind blanks -/

theorem joins_eq_false_of_isBlank {c : CodePoint} (h : c.isBlank = true) : joins c = false := by
  rw [joins, CodePoint.isWordChar_eq_false_of_isBlank h, Bool.false_or, decide_eq_false_iff_not]
  rintro rfl
  exact absurd h (by decide)

theorem readAfter?_gap {gap t : Text} (hgap : ∀ c ∈ gap, c.isBlank = true) :
    ∀ k < gap.length, ∀ behind, readAfter? behind ((gap ++ t).drop k) = none := by
  intro k hk behind
  have hdrop : (gap ++ t).drop k = gap[k] :: (gap.drop (k + 1) ++ t) := by
    rw [List.drop_append_of_le_length (Nat.le_of_lt hk), List.drop_eq_getElem_cons hk]
    rfl
  have hstart : gap[k].isIdentifierStart = false := by
    by_contra hstart
    rw [Bool.not_eq_false] at hstart
    have hchar := CodePoint.isIdentifierChar_of_isIdentifierStart hstart
    rw [CodePoint.isIdentifierChar_eq_false_of_isBlank (hgap _ (List.getElem_mem hk))] at hchar
    exact absurd hchar (by decide)
  have hnone : read? (gap[k] :: (gap.drop (k + 1) ++ t)) = none := read?_eq_none hstart
  rw [hdrop, readAfter?, hnone, ite_self]

/-- A header behind blanks is the first occurrence of the text. -/
theorem occurrences_gap_append {gap : Text} (hgap : ∀ c ∈ gap, c.isBlank = true) (s : Spelling)
    (rest : Text) : occurrences (gap ++ (s.text ++ rest)) =
      ⟨⟨gap.length, gap.length + s.text.length⟩, s.header⟩ ::
        occurrencesFrom readAfter? s.text.getLast? (gap.length + s.text.length) 0 rest := by
  have hne : s.text ≠ [] := by
    intro hnil
    have hbegins := s.beginsIdentifier_text
    rw [hnil] at hbegins
    exact absurd hbegins (by decide)
  have hread : readAfter? (gap.getLast?.or none) (s.text ++ rest) = some (s.header, rest) := by
    have hbehind : (gap.getLast?.or none).any joins = false := by
      cases hlast : gap.getLast? with
      | none => rfl
      | some c => exact joins_eq_false_of_isBlank (hgap c (List.mem_of_getLast? hlast))
    rw [readAfter?, hbehind]
    exact read?_text_append s rest
  rw [occurrences, DeclSync.occurrences, occurrencesFrom_append (readAfter?_gap hgap),
    occurrencesFrom_of_some hne hread, Nat.zero_add]

end Header

/-! ## The first line of a header -/

/-- A text up to its first LF. -/
def Text.firstLine (t : Text) : Text := t.takeWhile fun c => c ≠ .scalar '\n'

namespace Text

theorem lf_notMem_firstLine (t : Text) : .scalar '\n' ∉ t.firstLine := fun hmem => by
  simpa using List.mem_takeWhile_imp hmem

theorem beginsWithout_of_isBlank {blanks : Text} (h : ∀ c ∈ blanks, c.isBlank = true) :
    BeginsWithout CodePoint.isIdentifierChar blanks := fun c hc =>
  CodePoint.isIdentifierChar_eq_false_of_isBlank (h c (List.mem_of_mem_head? hc))

theorem beginsWithout_after_firstLine (t : Text) :
    BeginsWithout CodePoint.isIdentifierChar (t.dropWhile fun c => c ≠ .scalar '\n') := by
  intro c hc
  obtain rfl : c = .scalar '\n' := by simpa using beginsWithout_dropWhile _ t c hc
  decide

theorem beginsIdentifier_of_append {u t : Text} (h : beginsIdentifier (u ++ t) = true)
    (ht : BeginsWithout CodePoint.isIdentifierChar t) : u.beginsIdentifier = true := by
  cases u with
  | cons c u => exact h
  | nil =>
    cases t with
    | nil => exact absurd h (by decide)
    | cons c t =>
      have hchar := CodePoint.isIdentifierChar_of_isIdentifierStart h
      rw [ht c rfl] at hchar
      exact absurd hchar (by decide)

theorem firstLine_append (t : Text) :
    t.firstLine ++ t.dropWhile (fun c => c ≠ .scalar '\n') = t :=
  List.takeWhile_append_dropWhile

/-- A text is its first line without the blanks at its end, and what no word goes on with. -/
theorem exists_trimEnd_firstLine (t : Text) : ∃ later : Text,
    t = t.firstLine.trimEnd ++ later ∧ BeginsWithout CodePoint.isIdentifierChar later := by
  obtain ⟨blanks, hblanks, hline⟩ := exists_trimEnd t.firstLine
  refine ⟨blanks ++ t.dropWhile fun c => c ≠ .scalar '\n', ?_,
    (beginsWithout_of_isBlank hblanks).append (beginsWithout_after_firstLine t)⟩
  rw [← List.append_assoc, ← hline, firstLine_append]

theorem beginsIdentifier_firstLine {t : Text} (ht : t.beginsIdentifier = true) :
    t.firstLine.beginsIdentifier = true :=
  beginsIdentifier_of_append (by rwa [firstLine_append]) (beginsWithout_after_firstLine t)

theorem trim_gap_firstLine {gap t : Text} (hgap : ∀ c ∈ gap, c.isBlank = true)
    (ht : t.beginsIdentifier = true) : trim (gap ++ t.firstLine) = t.firstLine.trimEnd := by
  have hfirst := Header.beginsWithout_isBlank_of_beginsIdentifier (beginsIdentifier_firstLine ht)
  rw [trim, trimStart, dropWhile_append_of_beginsWithout hgap hfirst]

end Text

end DeclSync
