import DeclSync.Text.Blank
import Mathlib.Data.List.TakeWhile

/-!
# Runs, words and single spaces

What a run of code points of one kind and the text after it are, what the words of a text are made
of, and what the text with single spaces between them is made of: no blank but the space is left in
it.

## Main definitions

- `Text.HasWords` — a text that is made of words, with blanks around them

## Main results

- `Text.takeWhile_append_of_beginsWithout` — a run ends where a code point of another kind stands
- `Text.trim_eq_self_iff` — a trimmed text has no blank at either end
- `Text.exists_trim` — a text is what trimming leaves of it, between blanks
- `Text.isBlank_of_mem_words` — words are not empty and hold no blanks
- `Text.mem_singleSpaced` — a single-spaced text holds no blank but the space
- `Text.singleSpaced_ne_nil` — it is empty only if the text is blank
- `Text.hasWords_iff` — a text is made of its words, and of no other ones
-/

namespace DeclSync

namespace Text

/-! ## Runs -/

/-- A text that begins with no code point of a kind. -/
def BeginsWithout (p : CodePoint → Bool) (t : Text) : Prop := ∀ c ∈ t.head?, p c = false

theorem beginsWithout_cons {p : CodePoint → Bool} {c : CodePoint} (h : p c = false) (t : Text) :
    BeginsWithout p (c :: t) := by
  intro d hd
  obtain rfl : c = d := by simpa using hd
  exact h

/-- A run ends where a code point of another kind stands. -/
theorem takeWhile_append_of_beginsWithout {p : CodePoint → Bool} {u t : Text}
    (hu : ∀ c ∈ u, p c = true) (ht : BeginsWithout p t) : (u ++ t).takeWhile p = u := by
  rw [List.takeWhile_append_of_pos hu]
  cases t with
  | nil => rw [List.takeWhile_nil, List.append_nil]
  | cons c t =>
    have hc := ht c (by simp)
    rw [List.takeWhile_cons_of_neg (by simp [hc]), List.append_nil]

theorem dropWhile_append_of_beginsWithout {p : CodePoint → Bool} {u t : Text}
    (hu : ∀ c ∈ u, p c = true) (ht : BeginsWithout p t) : (u ++ t).dropWhile p = t := by
  have hwhole := List.takeWhile_append_dropWhile (p := p) (l := u ++ t)
  rw [takeWhile_append_of_beginsWithout hu ht] at hwhole
  exact List.append_cancel_left hwhole

theorem takeWhile_append_of_beginsWithout_right {p : CodePoint → Bool} {t : Text}
    (ht : BeginsWithout p t) (u : Text) : (u ++ t).takeWhile p = u.takeWhile p := by
  induction u with
  | nil =>
    cases t with
    | nil => rfl
    | cons c t => exact List.takeWhile_cons_of_neg (by simp [ht c rfl])
  | cons c u ih => rw [List.cons_append, List.takeWhile_cons, List.takeWhile_cons, ih]

theorem dropWhile_eq_self {p : CodePoint → Bool} {t : Text} (ht : BeginsWithout p t) :
    t.dropWhile p = t :=
  dropWhile_append_of_beginsWithout (u := []) (by simp) ht

theorem beginsWithout_of_forall {p : CodePoint → Bool} {t : Text} (h : ∀ c ∈ t, p c = false) :
    BeginsWithout p t := fun c hc => h c (List.mem_of_mem_head? hc)

theorem BeginsWithout.append {p : CodePoint → Bool} {u t : Text} (hu : BeginsWithout p u)
    (ht : BeginsWithout p t) : BeginsWithout p (u ++ t) := by
  cases u with
  | nil => exact ht
  | cons c u => exact beginsWithout_cons (hu c rfl) _

theorem BeginsWithout.append_of_ne_nil {p : CodePoint → Bool} {u : Text} (hu : BeginsWithout p u)
    (hne : u ≠ []) (t : Text) : BeginsWithout p (u ++ t) := by
  obtain ⟨c, u, rfl⟩ := List.exists_cons_of_ne_nil hne
  exact beginsWithout_cons (hu c rfl) _

theorem BeginsWithout.of_append {p : CodePoint → Bool} {u t : Text}
    (h : BeginsWithout p (u ++ t)) : BeginsWithout p u := by
  intro c hc
  apply h
  rw [List.head?_append, Option.mem_def.1 hc]
  rfl

theorem beginsWithout_dropWhile (p : CodePoint → Bool) (t : Text) :
    BeginsWithout p (t.dropWhile p) := by
  intro c hc
  have hhead := List.head?_dropWhile_not p t
  rw [Option.mem_def.1 hc] at hhead
  exact hhead

/-- Of the second of two texts a part is left in which the run of the first one may have gone on. -/
theorem exists_dropWhile_append (p : CodePoint → Bool) (u t : Text) :
    ∃ left : Text, left <:+ t ∧ (u ++ t).dropWhile p = u.dropWhile p ++ left := by
  by_cases hall : u.dropWhile p = []
  · refine ⟨t.dropWhile p, List.dropWhile_suffix _, ?_⟩
    rw [List.dropWhile_append, hall]
    rfl
  · refine ⟨t, List.suffix_refl t, ?_⟩
    rw [List.dropWhile_append, if_neg (by simpa using hall)]

/-! ## Trimming -/

theorem isBlank_of_mem_nil : ∀ c ∈ ([] : Text), c.isBlank = true :=
  fun _ hc => absurd hc List.not_mem_nil

theorem isBlank_of_mem_space : ∀ c ∈ (" " : Text), c.isBlank = true := by decide

theorem exists_trimEnd (t : Text) : ∃ blanks : Text,
    (∀ c ∈ blanks, c.isBlank = true) ∧ t = t.trimEnd ++ blanks := by
  refine ⟨(t.reverse.takeWhile CodePoint.isBlank).reverse, fun c hc => ?_, ?_⟩
  · exact List.mem_takeWhile_imp (List.mem_reverse.1 hc)
  · rw [trimEnd, ← List.reverse_append, List.takeWhile_append_dropWhile, List.reverse_reverse]

theorem trimStart_eq_self {t : Text} (h : BeginsWithout CodePoint.isBlank t) : t.trimStart = t :=
  dropWhile_eq_self h

theorem trimEnd_eq_self {t : Text} (h : BeginsWithout CodePoint.isBlank t.reverse) :
    t.trimEnd = t := by
  rw [trimEnd, ← trimStart, trimStart_eq_self h, List.reverse_reverse]

/-- A trimmed text has no blank at either end. -/
theorem trim_eq_self_iff {t : Text} : t.trim = t ↔
    BeginsWithout CodePoint.isBlank t ∧ BeginsWithout CodePoint.isBlank t.reverse := by
  constructor
  · intro h
    obtain ⟨blanks, -, hstart⟩ := exists_trimEnd t.trimStart
    -- nothing is taken away at the beginning, since nothing is taken away at all
    have hsuffix : t.trimStart <:+ t := List.dropWhile_suffix _
    have hlength := congrArg List.length hstart
    rw [← trim, h, List.length_append] at hlength
    have hwhole : t.trimStart = t := hsuffix.eq_of_length_le (by omega)
    refine ⟨hwhole ▸ beginsWithout_dropWhile _ _, ?_⟩
    rw [← h, trim, trimEnd, List.reverse_reverse]
    exact beginsWithout_dropWhile _ _
  · rintro ⟨hstart, hend⟩
    rw [trim, trimStart_eq_self hstart, trimEnd_eq_self hend]

/-- Trimming leaves nothing to trim. -/
theorem trim_trim (t : Text) : t.trim.trim = t.trim := by
  obtain ⟨blanks, -, hstart⟩ := exists_trimEnd t.trimStart
  have hbegins := beginsWithout_dropWhile CodePoint.isBlank t
  rw [← trimStart, hstart] at hbegins
  refine trim_eq_self_iff.2 ⟨hbegins.of_append, ?_⟩
  show BeginsWithout CodePoint.isBlank t.trimStart.trimEnd.reverse
  rw [trimEnd, List.reverse_reverse]
  exact beginsWithout_dropWhile _ _

/-- A text is what trimming leaves of it, between blanks. -/
theorem exists_trim (t : Text) : ∃ before after : Text, (∀ c ∈ before, c.isBlank = true) ∧
    (∀ c ∈ after, c.isBlank = true) ∧ t = before ++ (t.trim ++ after) := by
  obtain ⟨after, hafter, hstart⟩ := exists_trimEnd t.trimStart
  refine ⟨t.takeWhile CodePoint.isBlank, after, fun c hc => List.mem_takeWhile_imp hc, hafter, ?_⟩
  rw [trim, ← hstart, trimStart, List.takeWhile_append_dropWhile]

theorem isInfix_trim (t : Text) : t.trim <:+: t := by
  obtain ⟨before, after, -, -, ht⟩ := exists_trim t
  exact ⟨before, after, by rw [List.append_assoc, ← ht]⟩

theorem mem_trim_iff {t : Text} {c : CodePoint} (hc : c.isBlank = false) :
    c ∈ t.trim ↔ c ∈ t := by
  refine ⟨fun hmem => (isInfix_trim t).mem hmem, fun hmem => ?_⟩
  obtain ⟨before, after, hbefore, hafter, ht⟩ := exists_trim t
  rw [ht, List.mem_append, List.mem_append] at hmem
  by_contra hnot
  apply absurd hc
  rw [Bool.not_eq_false]
  exact hmem.elim (hbefore c) fun hmem => hafter c (hmem.resolve_left hnot)

/-- A trimmed text is left by trimming whatever blanks stand around it. -/
theorem trim_append_append {before u after : Text} (hbefore : ∀ c ∈ before, c.isBlank = true)
    (hafter : ∀ c ∈ after, c.isBlank = true) (hu : u.trim = u) :
    trim (before ++ (u ++ after)) = u := by
  obtain ⟨hstart, hend⟩ := trim_eq_self_iff.1 hu
  by_cases hne : u = []
  · have hblank : trimStart (before ++ (u ++ after)) = [] := by
      rw [hne, List.nil_append, trimStart, List.dropWhile_eq_nil_iff]
      intro c hc
      exact (List.mem_append.1 hc).elim (hbefore c) (hafter c)
    rw [trim, hblank, hne]
    rfl
  · have hbegins : trimStart (before ++ (u ++ after)) = u ++ after :=
      dropWhile_append_of_beginsWithout hbefore (hstart.append_of_ne_nil hne after)
    have hends : (u ++ after).reverse.dropWhile CodePoint.isBlank = u.reverse := by
      rw [List.reverse_append]
      exact dropWhile_append_of_beginsWithout (fun c hc => hafter c (List.mem_reverse.1 hc)) hend
    rw [trim, hbegins, trimEnd, hends, List.reverse_reverse]

/-- Trimming leaves the same of a text whatever blanks stand around it. -/
theorem trim_between_blanks {before after : Text} (hbefore : ∀ c ∈ before, c.isBlank = true)
    (hafter : ∀ c ∈ after, c.isBlank = true) (t : Text) :
    trim (before ++ (t ++ after)) = t.trim := by
  obtain ⟨before', after', hbefore', hafter', ht⟩ := exists_trim t
  have hstart : ∀ c ∈ before ++ before', c.isBlank = true := fun c hc =>
    (List.mem_append.1 hc).elim (hbefore c) (hbefore' c)
  have hend : ∀ c ∈ after' ++ after, c.isBlank = true := fun c hc =>
    (List.mem_append.1 hc).elim (hafter' c) (hafter c)
  have hwhole : before ++ (t ++ after) = (before ++ before') ++ (t.trim ++ (after' ++ after)) := by
    conv => lhs; rw [ht]
    simp only [List.append_assoc]
  rw [hwhole]
  exact trim_append_append hstart hend (trim_trim t)

theorem trim_gap_append {gap : Text} (hgap : ∀ c ∈ gap, c.isBlank = true) (t : Text) :
    trim (gap ++ t) = t.trim := by
  have hwhole := trim_between_blanks hgap isBlank_of_mem_nil t
  rwa [List.append_nil] at hwhole

theorem trim_trimEnd (t : Text) : t.trimEnd.trim = t.trim := by
  obtain ⟨blanks, hblanks, ht⟩ := exists_trimEnd t
  have hwhole := trim_between_blanks isBlank_of_mem_nil hblanks t.trimEnd
  rwa [List.nil_append, ← ht, eq_comm] at hwhole

/-! ## Words -/

/-- A text is split at its first code point, or that code point leads the first piece of the rest.
-/
theorem splitOnP_cons_cases (p : CodePoint → Bool) (c : CodePoint) (t : Text) :
    (p c = true ∧ (c :: t).splitOnP p = [] :: t.splitOnP p) ∨
      (p c = false ∧ ∃ piece pieces, t.splitOnP p = piece :: pieces ∧
        (c :: t).splitOnP p = (c :: piece) :: pieces) := by
  -- a split is never empty, so there is a first piece to lead
  have hcons := List.splitOnP_cons_eq_if_modifyHead (p := p) c t
  cases hsplit : t.splitOnP p with
  | nil => exact absurd hsplit (List.splitOnP_ne_nil p t)
  | cons piece pieces =>
    rw [hsplit] at hcons
    cases hc : p c with
    | true => exact .inl ⟨rfl, by simpa [hc] using hcons⟩
    | false => exact .inr ⟨rfl, piece, pieces, rfl, by simpa [hc] using hcons⟩

theorem eq_false_of_mem_splitOnP {p : CodePoint → Bool} {t w : Text} (hw : w ∈ t.splitOnP p) :
    ∀ c ∈ w, p c = false := by
  induction t generalizing w with
  | nil =>
    obtain rfl : w = [] := by simpa using hw
    simp
  | cons d t ih =>
    rcases splitOnP_cons_cases p d t with ⟨-, hsplit⟩ | ⟨hd, piece, pieces, htail, hsplit⟩
    · simp only [hsplit, List.mem_cons] at hw
      grind
    · simp only [hsplit, htail, List.mem_cons] at hw ih
      grind

theorem exists_mem_splitOnP {p : CodePoint → Bool} {t : Text} {c : CodePoint} (hc : c ∈ t)
    (hp : p c = false) : ∃ w ∈ t.splitOnP p, c ∈ w := by
  induction t with
  | nil => simp at hc
  | cons d t ih =>
    rcases splitOnP_cons_cases p d t with ⟨hd, hsplit⟩ | ⟨-, piece, pieces, htail, hsplit⟩
    · simp only [hsplit, List.mem_cons] at hc ⊢
      grind
    · simp only [hsplit, htail, List.mem_cons] at hc ih ⊢
      grind

theorem mem_intercalate {separator : Text} {pieces : List Text} {c : CodePoint}
    (hc : c ∈ List.intercalate separator pieces) : c ∈ separator ∨ ∃ w ∈ pieces, c ∈ w := by
  induction pieces with
  | nil => simp at hc
  | cons piece pieces ih =>
    cases pieces with
    | nil => exact .inr ⟨piece, List.mem_cons_self, by simpa using hc⟩
    | cons next pieces =>
      rw [List.intercalate_cons_cons, List.mem_append, List.mem_append] at hc
      rcases hc with (hc | hc) | hc
      · exact .inr ⟨piece, List.mem_cons_self, hc⟩
      · exact .inl hc
      · rcases ih hc with hc | ⟨w, hw, hcw⟩
        · exact .inl hc
        · exact .inr ⟨w, List.mem_cons_of_mem _ hw, hcw⟩

/-- All pieces but the first have a separator in front of them. -/
theorem intercalate_cons (separator piece : Text) (more : List Text) :
    List.intercalate separator (piece :: more) = piece ++ more.flatMap fun t => separator ++ t := by
  induction more generalizing piece with
  | nil => simp
  | cons next more ih =>
    rw [List.intercalate_cons_cons, ih, List.flatMap_cons, List.append_assoc, List.append_assoc]

theorem exists_intercalate_cons (separator line : Text) (below : List Text) :
    ∃ rest, List.intercalate separator (line :: below) = line ++ rest :=
  ⟨_, intercalate_cons separator line below⟩

theorem intercalate_cons_head (separator : Text) (c : CodePoint) (first : Text)
    (below : List Text) : List.intercalate separator ((c :: first) :: below) =
      c :: List.intercalate separator (first :: below) := by
  cases below with
  | nil => simp
  | cons next below => simp [List.intercalate_cons_cons]

theorem flatMap_intercalate (f : CodePoint → Text) (separator : Text) (pieces : List Text) :
    (List.intercalate separator pieces).flatMap f =
      List.intercalate (separator.flatMap f) (pieces.map (·.flatMap f)) := by
  induction pieces with
  | nil => rfl
  | cons piece pieces ih =>
    cases pieces with
    | nil => simp
    | cons next pieces =>
      simp only [List.map_cons] at ih ⊢
      rw [List.intercalate_cons_cons, List.intercalate_cons_cons, List.flatMap_append,
        List.flatMap_append, ih]

/-- A word is not empty and holds no blanks. -/
theorem isBlank_of_mem_words {t w : Text} (hw : w ∈ t.words) :
    w ≠ [] ∧ ∀ c ∈ w, c.isBlank = false := by
  obtain ⟨hpiece, hne⟩ := List.mem_filter.1 hw
  exact ⟨by simpa using hne, eq_false_of_mem_splitOnP hpiece⟩

theorem mem_singleSpaced {t : Text} {c : CodePoint} (hc : c ∈ t.singleSpaced) :
    c = .scalar ' ' ∨ c.isBlank = false := by
  rcases mem_intercalate hc with hc | ⟨w, hw, hcw⟩
  · exact .inl (by simpa [ofString] using hc)
  · exact .inr ((isBlank_of_mem_words hw).2 c hcw)

theorem words_ne_nil {t : Text} {c : CodePoint} (hc : c ∈ t) (hblank : c.isBlank = false) :
    t.words ≠ [] := by
  obtain ⟨w, hw, hcw⟩ := exists_mem_splitOnP hc hblank
  refine List.ne_nil_of_mem (List.mem_filter.2 ⟨hw, ?_⟩)
  simpa using List.ne_nil_of_mem hcw

theorem intercalate_ne_nil {separator : Text} {pieces : List Text} (hne : pieces ≠ [])
    (h : ∀ w ∈ pieces, w ≠ []) : List.intercalate separator pieces ≠ [] := by
  cases pieces with
  | nil => exact absurd rfl hne
  | cons piece pieces =>
    have hpiece := h piece List.mem_cons_self
    cases pieces with
    | nil => simpa using hpiece
    | cons next pieces => simp [List.intercalate_cons_cons, hpiece]

theorem singleSpaced_ne_nil {t : Text} {c : CodePoint} (hc : c ∈ t) (hblank : c.isBlank = false) :
    t.singleSpaced ≠ [] :=
  intercalate_ne_nil (words_ne_nil hc hblank) fun _ hw => (isBlank_of_mem_words hw).1

/-! ## What a text is made of -/

/-- A text that is made of words, in this order: each of them stands behind blanks, if any, holds no
blank itself, and ends where a blank follows or the text ends. -/
inductive HasWords : Text → List Text → Prop where
  | blanks {t : Text} (ht : ∀ c ∈ t, c.isBlank = true) : HasWords t []
  | word {gap w t : Text} {later : List Text} (hgap : ∀ c ∈ gap, c.isBlank = true) (hne : w ≠ [])
      (hw : ∀ c ∈ w, c.isBlank = false) (hends : BeginsWithout (fun c => !c.isBlank) t)
      (ht : HasWords t later) : HasWords (gap ++ (w ++ t)) (w :: later)

theorem words_append_cons {c : CodePoint} (hc : c.isBlank = true) (u t : Text) :
    words (u ++ c :: t) = u.words ++ t.words := by
  rw [words, List.splitOnP_append_cons u t hc, List.filter_append]
  rfl

theorem words_cons {c : CodePoint} (hc : c.isBlank = true) (t : Text) : words (c :: t) = t.words :=
  words_append_cons hc [] t

theorem words_gap_append {gap : Text} (hgap : ∀ c ∈ gap, c.isBlank = true) (t : Text) :
    words (gap ++ t) = t.words := by
  induction gap with
  | nil => rfl
  | cons c gap ih =>
    obtain ⟨hc, hlater⟩ := List.forall_mem_cons.1 hgap
    rw [List.cons_append, words_cons hc, ih hlater]

theorem words_append_gap {gap : Text} (hgap : ∀ c ∈ gap, c.isBlank = true) (t : Text) :
    words (t ++ gap) = t.words := by
  cases gap with
  | nil => rw [List.append_nil]
  | cons c gap =>
    obtain ⟨hc, hlater⟩ := List.forall_mem_cons.1 hgap
    have hnone := words_gap_append hlater []
    rw [List.append_nil] at hnone
    rw [words_append_cons hc, hnone]
    exact List.append_nil _

/-- The words of a text are those of what trimming leaves of it. -/
theorem words_trim (t : Text) : t.trim.words = t.words := by
  obtain ⟨before, after, hbefore, hafter, ht⟩ := exists_trim t
  conv => rhs; rw [ht]
  rw [words_gap_append hbefore, words_append_gap hafter]

theorem words_word {w : Text} (hne : w ≠ []) (hw : ∀ c ∈ w, c.isBlank = false) : w.words = [w] := by
  rw [words, List.splitOnP_eq_singleton hw, List.filter_cons_of_pos (by simpa using hne),
    List.filter_nil]

theorem words_word_append {w t : Text} (hne : w ≠ []) (hw : ∀ c ∈ w, c.isBlank = false)
    (hends : BeginsWithout (fun c => !c.isBlank) t) : words (w ++ t) = w :: t.words := by
  cases t with
  | nil =>
    rw [List.append_nil, words_word hne hw]
    rfl
  | cons c t =>
    have hc : c.isBlank = true := by simpa using hends c rfl
    rw [words_append_cons hc, words_word hne hw, words_cons hc]
    rfl

theorem HasWords.words_eq {t : Text} {ws : List Text} (h : t.HasWords ws) : t.words = ws := by
  induction h with
  | blanks ht =>
    have hall := words_gap_append ht []
    rw [List.append_nil] at hall
    exact hall
  | word hgap hne hw hends _ ih => rw [words_gap_append hgap, words_word_append hne hw hends, ih]

/-- A text is made of its words. The induction is on the length, since a word is taken as a whole
with the blanks in front of it. -/
theorem hasWords_words (t : Text) : t.HasWords t.words := by
  induction hn : t.length using Nat.strongRecOn generalizing t with
  | ind n ih =>
    have hgap : ∀ c ∈ t.takeWhile CodePoint.isBlank, c.isBlank = true :=
      fun c hc => List.mem_takeWhile_imp hc
    have hparts := List.takeWhile_append_dropWhile (p := CodePoint.isBlank) (l := t)
    have hbegins := beginsWithout_dropWhile CodePoint.isBlank t
    generalize t.takeWhile CodePoint.isBlank = gap at hgap hparts
    generalize t.dropWhile CodePoint.isBlank = u at hparts hbegins
    subst hparts
    cases u with
    | nil =>
      rw [words_gap_append hgap, List.append_nil]
      exact .blanks hgap
    | cons c u =>
      have hw : ∀ d ∈ (c :: u).takeWhile (fun d => !d.isBlank), d.isBlank = false :=
        fun d hd => by simpa using List.mem_takeWhile_imp hd
      have hne : (c :: u).takeWhile (fun d => !d.isBlank) ≠ [] := by
        rw [List.takeWhile_cons_of_pos (by simp [hbegins c rfl])]
        exact List.cons_ne_nil _ _
      have hword :=
        List.takeWhile_append_dropWhile (p := fun d => !CodePoint.isBlank d) (l := c :: u)
      have hends := beginsWithout_dropWhile (fun d => !CodePoint.isBlank d) (c :: u)
      generalize (c :: u).takeWhile (fun d => !d.isBlank) = w at hw hne hword
      generalize (c :: u).dropWhile (fun d => !d.isBlank) = rest at hword hends
      rw [← hword] at hn ⊢
      rw [words_gap_append hgap, words_word_append hne hw hends]
      refine .word hgap hne hw hends (ih rest.length ?_ rest rfl)
      have hpos := List.length_pos_iff.2 hne
      rw [← hn, List.length_append, List.length_append]
      omega

/-- A text is made of its words, and of no other ones. -/
theorem hasWords_iff {t : Text} {ws : List Text} : t.HasWords ws ↔ t.words = ws :=
  ⟨HasWords.words_eq, fun h => h ▸ hasWords_words t⟩

end Text

end DeclSync
