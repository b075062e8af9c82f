import DeclSync.Proofs.DocumentedBundles
import DeclSync.Proofs.HeaderWindows

/-!
# Bundles one after another

Three LFs keep two bundles apart: the bare headers of both together are those of the one and those
of the other. A window never reaches over the two empty lines between them, whatever is left open at
the end of the first bundle; and the empty lines are there although the first LF may be taken
together with a CR in front of it.

## Main results

- `Header.occurrences_append` — a text in which nothing opens adds no header to the text before it
- `Bare.headers_append` — lines are scanned apart if nothing opens in the two lines below the first

`Bare.methods_append` says that the bare methods of two bundles are found one after another.
-/

namespace DeclSync

namespace Text

/-- No line ending begins in front of a CR. -/
theorem unifyLineEndings_append_cr (u t : Text) : unifyLineEndings (u ++ ("\r" ++ t)) =
    u.unifyLineEndings ++ unifyLineEndings ("\r" ++ t) := by
  refine unifyLineEndings_append fun _ hhead => ?_
  obtain hcr : CodePoint.scalar '\r' = .scalar '\n' := Option.some.inj hhead
  exact absurd hcr (by decide)

/-- Two texts with three LFs between them have two empty lines between their own. A CR at the end of
the first one is no line ending by itself any more. -/
theorem exists_lines_eq_append_empty (a b : Text) : ∃ u : Text,
    lines (unifyLineEndings (a ++ ("\n\n\n" ++ b))) =
      u.lines ++ [] :: [] :: b.unifyLineEndings.lines ∧
    (a.unifyLineEndings = u ∨ a.unifyLineEndings = u ++ "\n") := by
  have hlines (u : Text) : lines (u ++ ("\n\n\n" ++ b.unifyLineEndings)) =
      u.lines ++ [] :: [] :: b.unifyLineEndings.lines := by
    have hempty : lines ("\n\n" ++ b.unifyLineEndings) = [] :: [] :: b.unifyLineEndings.lines :=
      (lines_lf _).trans (congrArg _ (lines_lf _))
    rw [← hempty]
    exact lines_append_lf u _
  by_cases hcr : a.getLast? = some (.scalar '\r')
  · obtain ⟨init, rfl⟩ := List.getLast?_eq_some_iff.1 hcr
    have hbreaks : unifyLineEndings ("\r" ++ ("\n\n\n" ++ b)) =
        "\n\n\n" ++ b.unifyLineEndings :=
      unifyLineEndings_append (u := "\r\n\n\n") fun h => absurd h (by decide)
    refine ⟨unifyLineEndings init, ?_, .inr (unifyLineEndings_append_cr init [])⟩
    rw [← hlines, ← hbreaks, ← unifyLineEndings_append_cr, List.append_assoc]
    rfl
  · have hbreaks : unifyLineEndings ("\n\n\n" ++ b) = "\n\n\n" ++ b.unifyLineEndings :=
      unifyLineEndings_append fun h => absurd h (by decide)
    refine ⟨a.unifyLineEndings, ?_, .inl rfl⟩
    rw [← hlines, ← hbreaks, ← unifyLineEndings_append fun h => absurd h hcr]

end Text

namespace Header

open Text

theorem Spelling.getLast?_text (s : Spelling) : s.text.getLast? = some (.scalar '\x7b') := by
  have htext : s.text = (s.lead ++ ("(" ++ (s.params ++ (")" ++ s.beforeBody)))) ++ "\x7b" := by
    simp only [text_eq_lead, List.append_assoc]
  rw [htext, List.getLast?_append]
  rfl

/-- A header ends with its opening curly bracket, so it does not reach into a text without one. -/
theorem readAfter?_append {v : Text} (hv : .scalar '\x7b' ∉ v) (behind : Option CodePoint)
    (t : Text) : readAfter? behind (t ++ v) =
      (readAfter? behind t).map fun (h, rest) => (h, rest ++ v) := by
  cases hread : readAfter? behind t with
  | some found =>
    obtain ⟨hapart, s, hs, rfl⟩ := readAfter?_eq_some_iff.1 hread
    rw [Option.map_some, List.append_assoc]
    exact readAfter?_eq_some_iff.2 ⟨hapart, s, hs, rfl⟩
  | none =>
    rw [Option.map_none]
    by_contra hsome
    obtain ⟨⟨h, rest⟩, hfound⟩ := Option.ne_none_iff_exists'.1 hsome
    obtain ⟨hapart, s, hs, heq⟩ := readAfter?_eq_some_iff.1 hfound
    have hinside : s.text <+: t := by
      obtain ⟨inside, htext, hreaches⟩ | ⟨later, hlater, -⟩ := List.append_eq_append_iff.1 heq
      · by_cases hnil : inside = []
        · exact ⟨[], by rw [htext, hnil, List.append_nil, List.append_nil]⟩
        · have hlast := s.getLast?_text
          rw [htext, List.getLast?_append_of_ne_nil t hnil] at hlast
          apply absurd _ hv
          rw [hreaches]
          exact List.mem_append_left _ (List.mem_of_getLast? hlast)
      · exact ⟨later, hlater.symm⟩
    obtain ⟨later, hlater⟩ := hinside
    have hnow : readAfter? behind t = some (h, later) :=
      readAfter?_eq_some_iff.2 ⟨hapart, s, hs, hlater.symm⟩
    rw [hread] at hnow
    exact absurd hnow (by simp)

theorem occurrencesFrom_eq_nil {v : Text} (hv : .scalar '\x7b' ∉ v) (behind : Option CodePoint)
    (offset covered : Nat) : occurrencesFrom readAfter? behind offset covered v = [] := by
  refine List.eq_nil_iff_forall_not_mem.2 fun o ho => hv ?_
  obtain ⟨_, u, rest, hu, hread⟩ := exists_read_of_mem_occurrencesFrom ho
  obtain ⟨-, s, -, rfl⟩ := readAfter?_eq_some_iff.1 hread
  exact hu.mem (List.mem_append_left rest s.brace_mem_text)

/-- A text in which nothing opens adds no header to the text before it. -/
theorem occurrences_append {v : Text} (hv : .scalar '\x7b' ∉ v) (u : Text) :
    occurrences (u ++ v) = occurrences u :=
  occurrencesFrom_append_left (readAfter?_append hv) (occurrencesFrom_eq_nil hv) none 0 0

end Header

namespace Bare

open Text

/-- What begins on a line is found without the lines below its window, and without those of them in
which nothing opens. -/
theorem openedOn_append (line : Text) (below : List Text) {more : List Text}
    (hmore : ∀ l ∈ more.take (maxHeaderLines - 1), .scalar '\x7b' ∉ l) :
    openedOn line (below ++ more) = openedOn line below := by
  have hunopened : .scalar '\x7b' ∉
      ofLinesBelow (more.take (maxHeaderLines - 1 - below.length)) :=
    notMem_ofLinesBelow (by decide) fun l hl =>
      hmore l ((List.take_sublist_take_left (Nat.sub_le _ _)).mem hl)
  have hwindow : List.intercalate "\n" (line :: (below ++ more).take (maxHeaderLines - 1)) =
      List.intercalate "\n" (line :: below.take (maxHeaderLines - 1)) ++
        ofLinesBelow (more.take (maxHeaderLines - 1 - below.length)) := by
    rw [intercalate_lf_cons, intercalate_lf_cons, List.take_append, ofLinesBelow_append,
      List.append_assoc]
  rw [openedOn, openedOn, hwindow, Header.occurrences_append hunopened]

/-- Lines are scanned apart from those below them if nothing opens in the first two of these. -/
theorem headers_append (ls : List Text) {more : List Text}
    (hmore : ∀ l ∈ more.take (maxHeaderLines - 1), .scalar '\x7b' ∉ l) :
    headers (ls ++ more) = headers ls ++ headers more := by
  induction ls with
  | nil => rfl
  | cons line ls ih =>
    rw [List.cons_append, headers, headers, openedOn_append line ls hmore, ih, List.append_assoc]

/-- Two empty lines keep the lines before and behind them apart. -/
theorem headers_append_empty (ls ls' : List Text) :
    headers (ls ++ [] :: [] :: ls') = headers ls ++ headers ls' := by
  have hempty : isPassedOver [] = true := by decide
  have hmore : ∀ l ∈ ([] :: [] :: ls').take (maxHeaderLines - 1), .scalar '\x7b' ∉ l := by
    intro l hl
    obtain rfl : l = [] := by simpa [maxHeaderLines] using hl
    exact List.not_mem_nil
  rw [headers_append ls hmore, headers_of_isPassedOver hempty, headers_of_isPassedOver hempty]

/-- An empty line at the end adds nothing. -/
theorem headers_append_nil (ls : List Text) : headers (ls ++ [[]]) = headers ls := by
  rw [headers_append ls (by decide), headers_of_isPassedOver (by decide)]
  exact List.append_nil _

/-- Three LFs keep two bundles apart, whatever they hold and whatever line endings stand at their
ends: the bare methods of both are those of the one, and then those of the other. -/
theorem methods_append (apiName a b : Text) :
    methods apiName (a ++ ("\n\n\n" ++ b)) = methods apiName a ++ methods apiName b := by
  obtain ⟨u, hlines, hends⟩ := exists_lines_eq_append_empty a b
  have hheaders : headers a.unifyLineEndings.lines = headers u.lines := by
    obtain hsame | hlf := hends
    · rw [hsame]
    · rw [hlf, ← headers_append_nil u.lines]
      exact congrArg headers (lines_append_lf u [])
  rw [methods, hlines, headers_append_empty, ← hheaders, List.map_append]
  rfl

end Bare

end DeclSync
