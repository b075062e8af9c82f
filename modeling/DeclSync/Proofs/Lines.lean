import DeclSync.Proofs.LineBreaks
import DeclSync.Proofs.Words

/-!
# The lines of a text

The pieces between the LFs of a text, counted from its beginning: where a line starts, the lines
from there on are those of what is left. A few lines put together again begin with whatever the text
begins with there, if it spreads over no more lines than these.

## Main definitions

- `Text.ofLines`, `Text.ofLinesBelow` — lines with an LF behind or in front of each of them
- `Text.lineAt` — the line that an offset is on

`Text.lines_ofLines_append` says that the lines are found again.
-/

namespace DeclSync

namespace Text

variable {u t line mark : Text}

/-- A text is split at every LF. -/
theorem lines_append_lf (u t : Text) : lines (u ++ ("\n" ++ t)) = u.lines ++ t.lines :=
  List.splitOnP_append_cons u t (beq_self_eq_true _)

theorem lines_lf (t : Text) : lines (.scalar '\n' :: t) = [] :: t.lines :=
  lines_append_lf [] t

theorem exists_lines_cons {c : CodePoint} (hc : c ≠ .scalar '\n') (t : Text) :
    ∃ first below, t.lines = first :: below ∧ lines (c :: t) = (c :: first) :: below := by
  rcases splitOnP_cons_cases (· == .scalar '\n') c t with ⟨hlf, -⟩ | ⟨-, first, below, ht, hsplit⟩
  · exact absurd (beq_iff_eq.1 hlf) hc
  · exact ⟨first, below, ht, hsplit⟩

/-- The first line reaches up to the first LF. -/
theorem exists_lines_append (hline : .scalar '\n' ∉ line)
    (ht : BeginsWithout (fun c => decide (c ≠ .scalar '\n')) t) :
    ∃ below, lines (line ++ t) = line :: below := by
  induction line with
  | nil =>
    cases t with
    | nil => exact ⟨[], rfl⟩
    | cons c t =>
      obtain rfl : c = .scalar '\n' := by simpa using ht c rfl
      exact ⟨lines t, lines_lf t⟩
  | cons c line ih =>
    rw [List.mem_cons, not_or] at hline
    obtain ⟨below, hbelow⟩ := ih hline.2
    obtain ⟨first, below', hfirst, hcons⟩ := exists_lines_cons (Ne.symm hline.1) (line ++ t)
    obtain ⟨rfl, rfl⟩ := List.cons.inj (hbelow.symm.trans hfirst)
    exact ⟨below, hcons⟩

theorem lines_line_append (hline : .scalar '\n' ∉ line) (t : Text) :
    lines (line ++ ("\n" ++ t)) = line :: t.lines := by
  induction line with
  | nil => exact lines_lf t
  | cons c line ih =>
    rw [List.mem_cons, not_or] at hline
    obtain ⟨first, below, hfirst, hcons⟩ :=
      exists_lines_cons (Ne.symm hline.1) (line ++ ("\n" ++ t))
    rw [ih hline.2] at hfirst
    obtain ⟨rfl, rfl⟩ := List.cons.inj hfirst
    exact hcons

/-- Behind an LF, as many lines have passed as there are LFs. -/
theorem drop_lines_lf (u t : Text) :
    (lines (u ++ .scalar '\n' :: t)).drop (u.count (.scalar '\n') + 1) = t.lines := by
  induction u with
  | nil =>
    rw [List.nil_append, lines_lf]
    rfl
  | cons c u ih =>
    by_cases hc : c = .scalar '\n'
    · rw [hc, List.cons_append, lines_lf, List.count_cons_self, List.drop_succ_cons, ih]
    · obtain ⟨first, below, hfirst, hcons⟩ := exists_lines_cons hc (u ++ .scalar '\n' :: t)
      rw [hfirst, List.drop_succ_cons] at ih
      rw [List.cons_append, hcons, List.count_cons_of_ne hc, List.drop_succ_cons, ih]

/-- A line starts at the end of a text that is empty or ends with an LF. -/
theorem isLineStart_length_iff :
    u.IsLineStart u.length ↔ u = [] ∨ ∃ init : Text, u = init ++ "\n" := by
  obtain rfl | ⟨init, c, rfl⟩ := List.eq_nil_or_concat u
  · exact iff_of_true (.inl rfl) (.inl rfl)
  · rw [List.concat_eq_append]
    constructor
    · rintro (hzero | ⟨q, hq, hget⟩)
      · exact absurd hzero (by simp)
      · obtain rfl : q = init.length := by simpa using hq.symm
        obtain rfl : c = .scalar '\n' := by simpa using hget
        exact .inr ⟨init, rfl⟩
    · rintro (hnil | ⟨init', heq⟩)
      · exact absurd hnil (by simp)
      · obtain ⟨rfl, hlast⟩ := List.append_inj' heq rfl
        refine .inr ⟨init.length, List.length_append, ?_⟩
        rw [hlast]
        exact List.getElem?_concat_length

/-- Where a line starts, as many lines have passed as there are LFs. -/
theorem drop_lines_append (hu : u.IsLineStart u.length) (t : Text) :
    (lines (u ++ t)).drop (u.count (.scalar '\n')) = t.lines := by
  obtain rfl | ⟨init, rfl⟩ := isLineStart_length_iff.1 hu
  · rfl
  · rw [List.append_assoc, List.count_append]
    exact drop_lines_lf init t

theorem lf_notMem_of_mem_lines (hline : line ∈ t.lines) : .scalar '\n' ∉ line := fun hmem =>
  absurd (eq_false_of_mem_splitOnP hline _ hmem) (by decide)

theorem intercalate_lines (t : Text) : List.intercalate "\n" t.lines = t :=
  List.intercalate_splitOn _

/-- Lines can be put together with another line break from the start. -/
theorem withLineBreak_intercalate {ls : List Text} (h : ∀ line ∈ ls, .scalar '\n' ∉ line)
    (lineBreak : Text) :
    withLineBreak lineBreak (List.intercalate "\n" ls) = List.intercalate lineBreak ls := by
  have hbreak : withLineBreak lineBreak "\n" = lineBreak := List.append_nil _
  have hlines : ls.map (withLineBreak lineBreak) = ls := by
    conv => rhs; rw [← List.map_id ls]
    exact List.map_congr_left fun line hline => withLineBreak_eq_self (h line hline) lineBreak
  conv => rhs; rw [← hbreak, ← hlines]
  exact flatMap_intercalate _ _ _

/-- The first lines of a text, put together again, begin with what the text begins with. -/
theorem prefix_intercalate_take_lines {n : Nat} (h : u <+: t) (hu : u.count (.scalar '\n') < n) :
    u <+: List.intercalate "\n" (t.lines.take n) := by
  induction u generalizing t n with
  | nil => exact List.nil_prefix
  | cons c u ih =>
    obtain ⟨rest, rfl⟩ := h
    obtain ⟨n, rfl⟩ := Nat.exists_eq_add_of_lt (Nat.zero_lt_of_lt hu)
    rw [Nat.zero_add] at hu ⊢
    have hlater := @ih (u ++ rest)
    by_cases hc : c = .scalar '\n'
    · rw [hc, List.count_cons_self] at hu
      rw [hc, List.cons_append, lines_lf, List.take_succ_cons]
      have hhere := @hlater n (List.prefix_append _ _) (by omega)
      -- another line follows, since not all LFs have passed
      cases hlines : (lines (u ++ rest)).take n with
      | nil =>
        have hne : lines (u ++ rest) ≠ [] := List.splitOnP_ne_nil _ _
        have hn : n ≠ 0 := by omega
        rcases List.take_eq_nil_iff.1 hlines with hzero | hnil
        · exact absurd hzero hn
        · exact absurd hnil hne
      | cons next below =>
        rw [hlines] at hhere
        rw [List.intercalate_cons_cons]
        exact List.cons_prefix_cons.2 ⟨rfl, hhere⟩
    · rw [List.count_cons_of_ne hc] at hu
      obtain ⟨first, below, hfirst, hcons⟩ := exists_lines_cons hc (u ++ rest)
      have hhere := @hlater (n + 1) (List.prefix_append _ _) hu
      rw [hfirst, List.take_succ_cons] at hhere
      rw [List.cons_append, hcons, List.take_succ_cons, intercalate_cons_head]
      exact List.cons_prefix_cons.2 ⟨rfl, hhere⟩

/-! ## Lines put together -/

/-- Lines with an LF behind each of them. -/
def ofLines (ls : List Text) : Text := ls.flatMap fun line => line ++ "\n"

theorem ofLines_cons (line : Text) (ls : List Text) :
    ofLines (line :: ls) = line ++ ("\n" ++ ofLines ls) := by
  rw [ofLines, List.flatMap_cons, List.append_assoc]
  rfl

theorem ofLines_append (ls ls' : List Text) : ofLines (ls ++ ls') = ofLines ls ++ ofLines ls' :=
  List.flatMap_append

/-- The lines are found again in front of what follows them. -/
theorem lines_ofLines_append {ls : List Text} (h : ∀ line ∈ ls, .scalar '\n' ∉ line) (t : Text) :
    lines (ofLines ls ++ t) = ls ++ t.lines := by
  induction ls with
  | nil => rfl
  | cons line ls ih =>
    rw [List.forall_mem_cons] at h
    rw [ofLines_cons, List.append_assoc, List.append_assoc, lines_line_append h.1, ih h.2]
    rfl

/-- Lines in front of others end with an LF each. -/
theorem intercalate_lf_append (ls : List Text) {more : List Text} (hne : more ≠ []) :
    List.intercalate "\n" (ls ++ more) = ofLines ls ++ List.intercalate "\n" more := by
  induction ls with
  | nil => rfl
  | cons line ls ih =>
    have hlater : ls ++ more ≠ [] := fun hnil => hne (List.append_eq_nil_iff.1 hnil).2
    obtain ⟨next, below, hcons⟩ := List.exists_cons_of_ne_nil hlater
    rw [List.cons_append, ofLines_cons, List.append_assoc, List.append_assoc, ← ih, hcons,
      List.intercalate_cons_cons, List.append_assoc]

theorem count_ofLines {ls : List Text} (h : ∀ line ∈ ls, .scalar '\n' ∉ line) :
    (ofLines ls).count (.scalar '\n') = ls.length := by
  induction ls with
  | nil => rfl
  | cons line ls ih =>
    rw [List.forall_mem_cons] at h
    rw [ofLines_cons, List.count_append, List.count_append, List.count_eq_zero.2 h.1, ih h.2,
      List.length_cons, Nat.zero_add]
    exact Nat.add_comm 1 _

/-- Lines with an LF in front of each of them. -/
def ofLinesBelow (ls : List Text) : Text := ls.flatMap fun line => "\n" ++ line

theorem ofLinesBelow_append (ls ls' : List Text) :
    ofLinesBelow (ls ++ ls') = ofLinesBelow ls ++ ofLinesBelow ls' :=
  List.flatMap_append

theorem intercalate_lf_cons (line : Text) (below : List Text) :
    List.intercalate "\n" (line :: below) = line ++ ofLinesBelow below :=
  intercalate_cons _ line below

theorem lf_of_head?_ofLinesBelow (ls : List Text) :
    ∀ c ∈ (ofLinesBelow ls).head?, c = .scalar '\n' := by
  intro c hc
  cases ls with
  | nil => exact absurd hc (by simp [ofLinesBelow])
  | cons line ls => exact (Option.some.inj hc).symm

theorem count_ofLinesBelow {ls : List Text} (h : ∀ line ∈ ls, .scalar '\n' ∉ line) :
    (ofLinesBelow ls).count (.scalar '\n') = ls.length := by
  induction ls with
  | nil => rfl
  | cons line ls ih =>
    rw [List.forall_mem_cons] at h
    rw [ofLinesBelow, List.flatMap_cons, List.count_append, List.count_append,
      List.count_eq_zero.2 h.1]
    exact (Nat.add_comm 1 _).trans (congrArg (· + 1) (ih h.2))

theorem notMem_ofLinesBelow {ls : List Text} {c : CodePoint} (hc : c ≠ .scalar '\n')
    (h : ∀ line ∈ ls, c ∉ line) : c ∉ ofLinesBelow ls := by
  intro hmem
  obtain ⟨line, hline, hcline⟩ := List.mem_flatMap.1 hmem
  obtain hlf | hinside := List.mem_append.1 hcline
  · exact hc (List.mem_singleton.1 hlf)
  · exact h line hline hinside

theorem isLineStart_ofLines (ls : List Text) :
    (ofLines ls).IsLineStart (ofLines ls).length := by
  apply isLineStart_length_iff.2
  obtain rfl | ⟨init, last, rfl⟩ := List.eq_nil_or_concat ls
  · exact .inl rfl
  · refine .inr ⟨ofLines init ++ last, ?_⟩
    rw [List.concat_eq_append, ofLines_append, List.append_assoc]
    exact congrArg _ (List.append_nil _)

/-- A mark without LF that stands in front of an LF stands in the line of that LF. -/
theorem prefix_of_prefix_line (hmark : .scalar '\n' ∉ mark)
    (h : mark <+: line ++ ("\n" ++ t)) : mark <+: line := by
  rcases Nat.le_total mark.length line.length with hle | hlt
  · exact List.prefix_of_prefix_length_le h (List.prefix_append _ _) hle
  · -- else the mark is the line and holds the LF, unless it is not longer
    obtain ⟨rest, rfl⟩ := List.prefix_of_prefix_length_le (List.prefix_append _ _) h hlt
    rw [List.prefix_append_right_inj] at h
    cases rest with
    | nil => simp
    | cons c rest =>
      obtain rfl := (List.cons_prefix_cons.1 h).1
      exact absurd (List.mem_append_right _ List.mem_cons_self) hmark

/-- A mark without LF that stands somewhere in lines stands inside one of them. -/
theorem exists_infix_of_prefix_drop {ls : List Text} (hmark : .scalar '\n' ∉ mark) {k : Nat}
    (hk : k < (ofLines ls).length) (h : mark <+: (ofLines ls ++ t).drop k) :
    ∃ line ∈ ls, mark <:+: line := by
  induction ls generalizing k with
  | nil => exact absurd hk (Nat.not_lt_zero k)
  | cons line ls ih =>
    rw [ofLines_cons, List.append_assoc, List.append_assoc] at h
    by_cases hinside : k ≤ line.length
    · rw [List.drop_append_of_le_length hinside] at h
      exact ⟨line, List.mem_cons_self,
        (prefix_of_prefix_line hmark h).isInfix.trans (List.drop_suffix k line).isInfix⟩
    · -- the mark stands behind the line and its LF
      obtain ⟨n, rfl⟩ := Nat.exists_eq_add_of_lt (Nat.lt_of_not_le hinside)
      rw [Nat.add_assoc, Nat.add_comm n 1, List.drop_length_add_append] at h
      have hlength : n < (ofLines ls).length := by
        rw [ofLines_cons, List.length_append, List.length_append] at hk
        have hbreak : (ofString "\n").length = 1 := rfl
        omega
      have hlater : mark <+: (ofLines ls ++ t).drop n := by
        rw [Nat.add_comm 1 n] at h
        exact h
      obtain ⟨line', hline', hinfix⟩ := ih hlength hlater
      exact ⟨line', List.mem_cons_of_mem _ hline', hinfix⟩

/-! ## The line of an offset -/

/-- The line that an offset is on, counted from zero: as many LFs stand before it. -/
def lineAt (t : Text) (i : Nat) : Nat := (t.take i).count (.scalar '\n')

theorem lineAt_append_of_le {i : Nat} (h : i ≤ u.length) (t : Text) :
    lineAt (u ++ t) i = u.lineAt i := by
  rw [lineAt, List.take_append_of_le_length h, lineAt]

theorem lineAt_append_add (u t : Text) (i : Nat) :
    lineAt (u ++ t) (u.length + i) = u.count (.scalar '\n') + t.lineAt i := by
  rw [lineAt, List.take_length_add_append, List.count_append, lineAt]

theorem lineAt_le_count (t : Text) (i : Nat) : t.lineAt i ≤ t.count (.scalar '\n') :=
  (List.take_sublist i t).count_le _

/-- An offset before a line start is on an earlier line. -/
theorem lineAt_lt_count (hu : u.IsLineStart u.length) {i : Nat} (h : i < u.length) :
    u.lineAt i < u.count (.scalar '\n') := by
  obtain rfl | ⟨init, rfl⟩ := isLineStart_length_iff.1 hu
  · exact absurd h (Nat.not_lt_zero i)
  · rw [List.length_append] at h
    rw [lineAt_append_of_le (Nat.le_of_lt_succ h), List.count_append]
    exact Nat.lt_succ_of_le (lineAt_le_count init i)

end Text

end DeclSync
