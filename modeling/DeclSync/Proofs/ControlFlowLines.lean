import DeclSync.Proofs.BareMethods
import DeclSync.Proofs.Utf8

/-!
# Lines of control flow

Whether a line is control flow should depend on its first word alone: the identifier that stands
behind the blanks and closing brackets with which the line may begin. The rule departs from this in
two places. It takes brackets away once, so it does not look behind brackets that stand apart. And
it takes `$` for the end of a word, so it finds a keyword in a longer name that goes on with `$`.

## Main definitions

- `Bare.firstWord` — the first word of a line
- `Bare.ClosersAdjoin` — that no blank stands between the brackets in front of the first word
- `Bare.IsToldByWord` — that a line is passed over as its first word says

`Bare.isPassedOver_iff` says which lines are passed over, and `Bare.isToldByWord_iff` for which of
them the first word decides.
-/

namespace DeclSync

namespace Bare

open Text

/-! ## The first word of a line -/

/-- Whether a code point is a closing curly bracket. -/
abbrev isBrace (c : CodePoint) : Bool := c = .scalar '\x7d'

/-- Whether a code point can stand in front of the first word of a line. -/
def isLead (c : CodePoint) : Bool := c.isBlank || isBrace c

/-- A line from its first word on. -/
def fromFirstWord (line : Text) : Text := line.dropWhile isLead

/-- The first word of a line, as far as identifiers go. -/
def firstWord (line : Text) : Text := (fromFirstWord line).takeWhile CodePoint.isIdentifierChar

/-- What stands behind the first word of a line. -/
def behindFirstWord (line : Text) : Text :=
  (fromFirstWord line).dropWhile CodePoint.isIdentifierChar

/-- The first word of a line is a keyword of control flow, and no letter of any script follows. -/
def OpensWithKeyword (line : Text) : Prop :=
  (∃ keyword ∈ controlFlowWords, firstWord line = ofString keyword) ∧
    BeginsWithout CodePoint.isWordChar (behindFirstWord line)

/-- The first word of a line is a keyword of control flow that goes on with `$`. -/
def OpensWithDollarName (line : Text) : Prop :=
  ∃ keyword ∈ controlFlowWords, (ofString keyword ++ "$" : Text) <+: firstWord line

/-- The closing brackets in front of the first word of a line stand next to each other. -/
def ClosersAdjoin (line : Text) : Prop :=
  ∃ before closers after : Text, line.takeWhile isLead = before ++ (closers ++ after) ∧
    (∀ c ∈ before, c.isBlank = true) ∧ (∀ c ∈ closers, isBrace c = true) ∧
    ∀ c ∈ after, c.isBlank = true

theorem isIdentifierChar_of_mem_keyword : ∀ keyword ∈ controlFlowWords, ∀ c ∈ ofString keyword,
    c.isIdentifierChar = true := by decide

/-- A name that goes on with `$` is no keyword. -/
theorem OpensWithDollarName.firstWord_ne {line : Text} (h : OpensWithDollarName line) :
    ∀ keyword ∈ controlFlowWords, firstWord line ≠ ofString keyword := by
  have hplain : ∀ keyword ∈ controlFlowWords, .scalar '$' ∉ ofString keyword := by decide
  obtain ⟨opening, -, hprefix⟩ := h
  intro keyword hkeyword heq
  apply hplain keyword hkeyword
  rw [← heq]
  exact hprefix.mem (List.mem_append_right _ (List.mem_singleton_self _))

/-- A line opens with a keyword, as the rule reads words, if its first word is one or goes on with
`$` behind one. -/
theorem exists_beginsWithWord_iff (line : Text) :
    (∃ keyword ∈ controlFlowWords, beginsWithWord (fromFirstWord line) keyword = true) ↔
      OpensWithKeyword line ∨ OpensWithDollarName line := by
  have hbegins := fun keyword hkeyword =>
    beginsWithWord_iff (t := fromFirstWord line) (isIdentifierChar_of_mem_keyword keyword hkeyword)
  constructor
  · rintro ⟨keyword, hkeyword, hfound⟩
    obtain ⟨hword, hends⟩ | hdollar := (hbegins keyword hkeyword).1 hfound
    · exact .inl ⟨⟨keyword, hkeyword, hword⟩, hends⟩
    · exact .inr ⟨keyword, hkeyword, hdollar⟩
  · rintro (⟨⟨keyword, hkeyword, hword⟩, hends⟩ | ⟨keyword, hkeyword, hdollar⟩)
    · exact ⟨keyword, hkeyword, (hbegins keyword hkeyword).2 (.inl ⟨hword, hends⟩)⟩
    · exact ⟨keyword, hkeyword, (hbegins keyword hkeyword).2 (.inr hdollar)⟩

/-! ## Where the rule looks for a keyword -/

/-- Where the rule looks for a keyword: behind blanks, brackets, and blanks again. -/
def opening (line : Text) : Text := trimStart (line.trimStart.dropWhile isBrace)

/-- Blanks at the end of a text are no part of a word. -/
theorem beginsWithWord_append_blanks {word blanks : Text}
    (hword : ∀ c ∈ word, c.isIdentifierChar = true) (hblanks : ∀ c ∈ blanks, c.isBlank = true)
    (t : Text) : beginsWithWord (t ++ blanks) word = beginsWithWord t word := by
  have hrun := takeWhile_append_of_beginsWithout_right (beginsWithout_of_isBlank hblanks) t
  obtain ⟨left, hleft, hrest⟩ := exists_dropWhile_append CodePoint.isIdentifierChar t blanks
  have hends : BeginsWithout CodePoint.isWordChar left := fun c hc =>
    CodePoint.isWordChar_eq_false_of_isBlank (hblanks c (hleft.mem (List.mem_of_mem_head? hc)))
  rw [Bool.eq_iff_iff, beginsWithWord_iff hword, beginsWithWord_iff hword, hrun, hrest]
  exact or_congr_left (and_congr_right fun _ => ⟨BeginsWithout.of_append, fun h => h.append hends⟩)

/-- So it makes no difference that a line is trimmed at its end. -/
theorem opensControlFlow_trim_iff (line : Text) : opensControlFlow line.trim = true ↔
    ∃ keyword ∈ controlFlowWords, beginsWithWord (opening line) keyword = true := by
  obtain ⟨blanks, hblanks, hline⟩ := exists_trimEnd line.trimStart
  obtain ⟨left, hleft, hclosers⟩ := exists_dropWhile_append isBrace line.trim blanks
  obtain ⟨left', hleft', hopening⟩ :=
    exists_dropWhile_append CodePoint.isBlank (line.trim.dropWhile isBrace) left
  have hwhole : opening line = trimStart (line.trim.dropWhile isBrace) ++ left' := by
    rw [opening, hline, ← trim, hclosers, trimStart, hopening, trimStart]
  have hend : ∀ c ∈ left', c.isBlank = true := fun c hc => hblanks c (hleft.mem (hleft'.mem hc))
  rw [opensControlFlow, List.any_eq_true, hwhole]
  refine exists_congr fun keyword => and_congr_right fun hkeyword => ?_
  rw [beginsWithWord_append_blanks (isIdentifierChar_of_mem_keyword keyword hkeyword) hend]

/-- If the brackets adjoin, the rule looks at the first word. -/
theorem ClosersAdjoin.opening_eq {line : Text} (h : ClosersAdjoin line) :
    opening line = fromFirstWord line := by
  obtain ⟨before, closers, after, hlead, hbefore, hclosers, hafter⟩ := h
  have hbegins := beginsWithout_dropWhile isLead line
  have hline := List.takeWhile_append_dropWhile (p := isLead) (l := line)
  rw [hlead, List.append_assoc, List.append_assoc] at hline
  rw [← fromFirstWord] at hbegins hline
  generalize fromFirstWord line = rest at hbegins hline
  have hblank : BeginsWithout CodePoint.isBlank rest := fun c hc =>
    (Bool.or_eq_false_iff.1 (hbegins c hc)).1
  have hbrace : BeginsWithout isBrace rest := fun c hc =>
    (Bool.or_eq_false_iff.1 (hbegins c hc)).2
  cases closers with
  | nil =>
    -- then the rule meets the first word at once
    have hgap : ∀ c ∈ before ++ after, c.isBlank = true := fun c hc =>
      (List.mem_append.1 hc).elim (hbefore c) (hafter c)
    have hstart : trimStart line = rest := by
      rw [← hline, List.nil_append, ← List.append_assoc]
      exact dropWhile_append_of_beginsWithout hgap hblank
    rw [opening, hstart, dropWhile_eq_self hbrace, trimStart_eq_self hblank]
  | cons c closers =>
    have hstart : trimStart line = (c :: closers) ++ (after ++ rest) := by
      have hfirst : c.isBlank = false := by
        rw [of_decide_eq_true (hclosers c List.mem_cons_self)]
        decide
      rw [← hline]
      exact dropWhile_append_of_beginsWithout hbefore (beginsWithout_cons hfirst _)
    have hnext : BeginsWithout isBrace (after ++ rest) := by
      refine BeginsWithout.append (fun d hd => ?_) hbrace
      by_contra hd'
      obtain rfl : d = .scalar '\x7d' := by simpa using hd'
      exact absurd (hafter _ (List.mem_of_mem_head? hd)) (by decide)
    rw [opening, hstart, dropWhile_append_of_beginsWithout hclosers hnext]
    exact dropWhile_append_of_beginsWithout hafter hblank

/-- If the rule does not stop at a bracket, the brackets adjoin. -/
theorem closersAdjoin_of_opening {line : Text} (h : BeginsWithout isBrace (opening line)) :
    ClosersAdjoin line := by
  have hbegins : BeginsWithout isLead (opening line) := fun c hc =>
    Bool.or_eq_false_iff.2 ⟨beginsWithout_dropWhile CodePoint.isBlank _ c hc, h c hc⟩
  let before := line.takeWhile CodePoint.isBlank
  let closers := line.trimStart.takeWhile isBrace
  let after := (line.trimStart.dropWhile isBrace).takeWhile CodePoint.isBlank
  have hbefore : ∀ c ∈ before, c.isBlank = true := fun c hc => List.mem_takeWhile_imp hc
  have hclosers : ∀ c ∈ closers, isBrace c = true := fun c hc => List.mem_takeWhile_imp hc
  have hafter : ∀ c ∈ after, c.isBlank = true := fun c hc => List.mem_takeWhile_imp hc
  have hline : line = (before ++ (closers ++ after)) ++ opening line := by
    rw [List.append_assoc, List.append_assoc, opening, trimStart, List.takeWhile_append_dropWhile,
      List.takeWhile_append_dropWhile, trimStart, List.takeWhile_append_dropWhile]
  have hlead : ∀ c ∈ before ++ (closers ++ after), isLead c = true := by
    intro c hc
    rcases List.mem_append.1 hc with hc | hc
    · exact Bool.or_eq_true_iff.2 (.inl (hbefore c hc))
    · exact Bool.or_eq_true_iff.2
        ((List.mem_append.1 hc).elim (fun hc => .inr (hclosers c hc)) fun hc => .inl (hafter c hc))
  refine ⟨before, closers, after, ?_, hbefore, hclosers, hafter⟩
  conv_lhs => rw [hline]
  exact takeWhile_append_of_beginsWithout hlead hbegins

/-- No keyword is found where the rule stops at a bracket, so a line is control flow if its brackets
adjoin and its first word is a keyword, be it that a `$` follows. -/
theorem opensControlFlow_iff (line : Text) : opensControlFlow line.trim = true ↔
    ClosersAdjoin line ∧ (OpensWithKeyword line ∨ OpensWithDollarName line) := by
  have hbrace : ∀ keyword ∈ controlFlowWords, ofString keyword ≠ [] ∧
      ∀ c ∈ (ofString keyword).head?, isBrace c = false := by decide
  rw [opensControlFlow_trim_iff]
  constructor
  · rintro ⟨keyword, hkeyword, hbegins⟩
    obtain ⟨rest, hafter, -⟩ := (Option.any_eq_true _ _).1 hbegins
    have hadjoin : ClosersAdjoin line := by
      apply closersAdjoin_of_opening
      rw [after?_eq_some_iff.1 hafter]
      exact BeginsWithout.append_of_ne_nil (hbrace keyword hkeyword).2 (hbrace keyword hkeyword).1 _
    rw [hadjoin.opening_eq] at hbegins
    exact ⟨hadjoin, (exists_beginsWithWord_iff line).1 ⟨keyword, hkeyword, hbegins⟩⟩
  · rintro ⟨hadjoin, hopens⟩
    rw [hadjoin.opening_eq]
    exact (exists_beginsWithWord_iff line).2 hopens

/-! ## Which lines are passed over -/

/-- Whether a line is passed over by another rule than that of control flow: it is blank, opens a
comment, assigns without an arrow, has a colon at its top level, or mentions an unrelated call. -/
def isPassedOverAnyway (line : Text) : Bool :=
  let line := line.trim
  line.isEmpty || (commentMarks.any fun mark => line.beginsWith mark) || assigns line ||
    line.hasAtTopLevel ":" || (unrelatedCalls.any fun call => line.mentions call)

/-- The first word of a line tells whether it is control flow: a line is passed over if that word is
a keyword, and an ASCII line is not if the word is none and no other rule applies. -/
structure IsToldByWord (line : Text) : Prop where
  passedOver : OpensWithKeyword line → isPassedOver line = true
  kept : (∀ keyword ∈ controlFlowWords, firstWord line ≠ ofString keyword) →
    (∀ c ∈ line, c.isAscii = true) → isPassedOverAnyway line = false → isPassedOver line = false

/-- A line is passed over by another rule, or for its first word if its brackets adjoin. -/
theorem isPassedOver_iff (line : Text) : isPassedOver line = true ↔
    isPassedOverAnyway line = true ∨
      (ClosersAdjoin line ∧ (OpensWithKeyword line ∨ OpensWithDollarName line)) := by
  rw [← opensControlFlow_iff]
  simp only [isPassedOver, isPassedOverAnyway, Bool.or_eq_true]
  tauto

/-- The first word of a line tells whether it is passed over, unless no other rule applies and
either brackets stand apart in front of a keyword, or they do not and the first word of an ASCII line
goes on with `$` behind a keyword. -/
theorem isToldByWord_iff (line : Text) :
    IsToldByWord line ↔ isPassedOverAnyway line = true ∨
      (¬ ClosersAdjoin line ∧ ¬ OpensWithKeyword line) ∨
      (ClosersAdjoin line ∧ ¬ (OpensWithDollarName line ∧ ∀ c ∈ line, c.isAscii = true)) := by
  have hpassed := isPassedOver_iff line
  constructor
  · intro htold
    by_cases hanyway : isPassedOverAnyway line = true
    · exact .inl hanyway
    · right
      by_cases hadjoin : ClosersAdjoin line
      · refine .inr ⟨hadjoin, fun ⟨hdollar, hascii⟩ => ?_⟩
        have hkept := htold.kept hdollar.firstWord_ne hascii (Bool.not_eq_true _ ▸ hanyway)
        rw [hpassed.2 (.inr ⟨hadjoin, .inr hdollar⟩)] at hkept
        exact absurd hkept (by decide)
      · refine .inl ⟨hadjoin, fun hopens => ?_⟩
        obtain hanyway' | ⟨hadjoin', -⟩ := hpassed.1 (htold.passedOver hopens)
        · exact hanyway hanyway'
        · exact hadjoin hadjoin'
  · intro hcases
    constructor
    case passedOver =>
      intro hopens
      obtain hanyway | ⟨-, hnot⟩ | ⟨hadjoin, -⟩ := hcases
      · exact hpassed.2 (.inl hanyway)
      · exact absurd hopens hnot
      · exact hpassed.2 (.inr ⟨hadjoin, .inl hopens⟩)
    case kept =>
      intro hword hascii hanyway
      refine Bool.eq_false_iff.2 fun hline => ?_
      obtain hanyway' | ⟨hadjoin, ⟨⟨keyword, hkeyword, heq⟩, -⟩ | hdollar⟩ := hpassed.1 hline
      · rw [hanyway] at hanyway'
        exact absurd hanyway' (by decide)
      · exact hword keyword hkeyword heq
      · obtain hanyway' | ⟨hnot, -⟩ | ⟨-, hnot⟩ := hcases
        · rw [hanyway] at hanyway'
          exact absurd hanyway' (by decide)
        · exact hnot hadjoin
        · exact hnot ⟨hdollar, hascii⟩

/-- Brackets that stand apart hide a keyword, and a name that goes on with `$` is taken for one. -/
theorem not_isToldByWord :
    ¬ IsToldByWord "\x7d \x7d else \x7b" ∧ ¬ IsToldByWord "if$(x) \x7b" := by
  constructor
  · intro htold
    have hopens : OpensWithKeyword "\x7d \x7d else \x7b" :=
      ⟨⟨"else", by decide, by decide⟩, by unfold BeginsWithout; decide⟩
    have hnot : isPassedOver "\x7d \x7d else \x7b" = false := by decide +kernel
    rw [htold.passedOver hopens] at hnot
    exact absurd hnot (by decide)
  · intro htold
    have hkept := htold.kept (by decide) (by decide) (by decide +kernel)
    have hpassed : isPassedOver "if$(x) \x7b" = true := by decide +kernel
    rw [hpassed] at hkept
    exact absurd hkept (by decide)

end Bare

end DeclSync
