import DeclSync.Proofs.Descriptions
import DeclSync.Proofs.Lines

/-!
# The summary of a decorated comment

The lines of a documentation comment may be indented, may have stars in front of them and blanks
behind these, and may end in any of the three ways. None of this matters for the summary: it is the
first line of the comment that says something, as it was before it was decorated.

## Main definitions

- `DecoratedLine` — a line of a comment with what decorates it
- `DecoratedLine.comment` — the comment that such lines make up
- `Text.isSummary` — whether a line says something

`DecoratedLine.commentSummary?_decorated` says what the summary of such a comment is.
-/

namespace DeclSync

open Text

/-- Whether a line says something: trimmed, it is not empty and no tag. -/
def Text.isSummary (line : Text) : Bool :=
  line.trim ≠ [] ∧ line.trim.head? ≠ some (.scalar '@')

theorem Text.isProse_trim (line : Text) : line.trim.isProse = line.isSummary := by
  rw [isProse, isSummary]
  cases line.trim with
  | nil => rfl
  | cons c t =>
    by_cases hc : c = .scalar '@'
    · simp [hc, beginsWith, after?, ofString]
    · simp [hc, beginsWith, after?, ofString]

/-- A line of a comment: its indentation, the number of stars in front of it, the blanks behind these,
and its content, which does not begin with a star itself. -/
structure DecoratedLine where
  indent : Text
  stars : Nat
  gap : Text
  content : Text
  blank_indent : ∀ c ∈ indent, c.isBlank = true
  blank_gap : ∀ c ∈ gap, c.isBlank = true
  isOneLine_indent : indent.IsOneLine
  isOneLine_gap : gap.IsOneLine
  isOneLine_content : content.IsOneLine
  unstarred_content : content.trim.head? ≠ some (.scalar '*')

namespace DecoratedLine

/-- The line as it stands in a comment. -/
def text (l : DecoratedLine) : Text :=
  l.indent ++ (List.replicate l.stars (.scalar '*') ++ (l.gap ++ l.content))

/-- The comment that lines make up, with one line ending between each two. -/
def comment (ending : LineEnding) (ls : List DecoratedLine) : Text :=
  "/**" ++ (List.intercalate ending.text (ls.map text) ++ "*/")

variable {l : DecoratedLine} {ls : List DecoratedLine}

theorem isOneLine_text (l : DecoratedLine) : l.text.IsOneLine := by
  have hstars : IsOneLine (List.replicate l.stars (.scalar '*')) := by
    intro c hc
    rw [List.eq_of_mem_replicate hc]
    decide
  exact l.isOneLine_indent.append (hstars.append (l.isOneLine_gap.append l.isOneLine_content))

/-- The decoration is taken off a line. -/
theorem undecorated_text (l : DecoratedLine) : l.text.undecorated = l.content.trim := by
  refine undecorated_append l.blank_indent l.blank_gap (fun c hc => decide_eq_false ?_) l.stars
  rintro rfl
  exact l.unstarred_content hc

theorem isOneLine_of_mem_map_text {line : Text} (hline : line ∈ ls.map text) :
    line.IsOneLine := by
  obtain ⟨l, -, rfl⟩ := List.mem_map.1 hline
  exact l.isOneLine_text

/-- Whatever the line ending, the lines of the comment are those that it was written from. -/
theorem lines_comment (ending : LineEnding) (hne : ls ≠ []) :
    (comment ending ls).commentBody.unifyLineEndings.lines = ls.map text := by
  have hlf : ∀ line ∈ ls.map text, .scalar '\n' ∉ line := fun _ hline =>
    (isOneLine_of_mem_map_text hline).lf_notMem
  have hcr : .scalar '\r' ∉ List.intercalate "\n" (ls.map text) := by
    intro hmem
    rcases mem_intercalate hmem with hbreak | ⟨line, hline, hcline⟩
    · exact absurd hbreak (by decide)
    · exact (isOneLine_of_mem_map_text hline).cr_notMem hcline
  rw [comment, commentBody_between, ← withLineBreak_intercalate hlf,
    unifyLineEndings_withLineBreak hcr]
  exact List.splitOn_intercalate _ hlf (by simpa using hne)

theorem commentSummary?_comment_eq (ending : LineEnding) (ls : List DecoratedLine) :
    (comment ending ls).commentSummary? =
      ((ls.map content).find? isSummary).map literalBody := by
  by_cases hne : ls = []
  · subst hne
    cases ending <;> decide
  · have hundecorated : undecorated ∘ text = trim ∘ content := funext undecorated_text
    have hprose : isProse ∘ trim = isSummary := funext isProse_trim
    have hliteral : literalBody ∘ trim = literalBody := funext literalBody_trim
    calc (comment ending ls).commentSummary?
        = (((ls.map text).map undecorated).find? isProse).map literalBody := by
          rw [commentSummary?, lines_comment ending hne]
      _ = (((ls.map content).map trim).find? isProse).map literalBody := by
          rw [List.map_map, hundecorated, ← List.map_map]
      _ = ((ls.map content).find? isSummary).map literalBody := by
          rw [List.find?_map, hprose, Option.map_map, hliteral]

/-- The summary of a comment is its first line that says something, as it was before it was decorated;
there is none exactly if no line says anything; and no comment has an empty summary. -/
theorem commentSummary?_decorated (ending : LineEnding) (ls : List DecoratedLine) :
    (comment ending ls).commentSummary? =
        ((ls.map content).find? isSummary).map literalBody ∧
      ((comment ending ls).commentSummary? = none ↔
        ∀ l ∈ ls, l.content.trim = [] ∨ l.content.trim.head? = some (.scalar '@')) ∧
      ∀ t : Text, t.commentSummary? ≠ some [] := by
  have hsummary := commentSummary?_comment_eq ending ls
  refine ⟨hsummary, ?_, commentSummary?_ne_some_nil⟩
  rw [hsummary, Option.map_eq_none_iff, List.find?_eq_none, List.forall_mem_map]
  refine forall₂_congr fun l _ => ?_
  rw [isSummary, decide_eq_true_eq, not_and_or, not_not, not_not]

/-- A line with stars and a tag. -/
def tagLine : DecoratedLine where
  indent := "\t"
  stars := 2
  gap := []
  content := "@param x"
  blank_indent := by decide
  blank_gap := isBlank_of_mem_nil
  isOneLine_indent := by decide
  isOneLine_gap := by decide
  isOneLine_content := by decide
  unstarred_content := by decide

/-- A line with blanks beyond ASCII, and words. -/
def wordsLine : DecoratedLine where
  indent := "\u2028"
  stars := 1
  gap := "\u00a0"
  content := "it\x27s  up "
  blank_indent := by decide
  blank_gap := by decide
  isOneLine_indent := by decide
  isOneLine_gap := by decide
  isOneLine_content := by decide
  unstarred_content := by decide

/-- Between lines that end with CR LF, the tag is passed over. -/
theorem commentSummary?_decorated_tagged :
    commentSummary? "/**\t**@param x\r\n\u2028*\u00a0it\x27s  up */" = some "it\\\x27s up" := by
  have hsummary := (commentSummary?_decorated .crlf [tagLine, wordsLine]).1
  have hcomment : comment .crlf [tagLine, wordsLine] =
      "/**\t**@param x\r\n\u2028*\u00a0it\x27s  up */" := by decide
  rw [hcomment] at hsummary
  exact hsummary.trans (by decide)

end DecoratedLine

end DeclSync
