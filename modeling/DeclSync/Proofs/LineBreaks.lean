import DeclSync.Text.LineEnding
import Mathlib.Data.List.Basic

/-!
# Counting line breaks

The prevalent line ending of a text depends on three counts, of its LFs, its CRs and the places
where a CR is followed by an LF. This module says how the counts of a text follow from those of its
parts, and what becomes of them when the LFs of a part are turned into another line ending. It also
says what stays in a text when all its line endings are turned into LF.

## Main definitions

- `Text.IsOneLine` — a text without CR and LF
- `Text.HasNoLoneCr` — a text in which every CR is followed by an LF
- `Text.IsLineStart` — an offset where a line starts

`LineEnding.prevalent_ne_cr` says that a text without lone CRs is never taken for one that uses
them, and `LineEnding.prevalent_eq_crlf_iff` when it is taken for one that uses CR LF.
`Text.unifyLineEndings_append` says when the line endings of two texts are those of both together.
-/

namespace DeclSync

namespace Text

/-- A text that neither LF nor CR stands in. -/
def IsOneLine (t : Text) : Prop := ∀ c ∈ t, c ≠ .scalar '\n' ∧ c ≠ .scalar '\r'

instance (t : Text) : Decidable t.IsOneLine :=
  inferInstanceAs (Decidable (∀ c ∈ t, c ≠ .scalar '\n' ∧ c ≠ .scalar '\r'))

/-- A text in which every CR is followed by an LF. -/
def HasNoLoneCr (t : Text) : Prop :=
  ∀ i, t[i]? = some (.scalar '\r') → t[i + 1]? = some (.scalar '\n')

/-- An offset where a line starts: the beginning of the text, or right after an LF. -/
def IsLineStart (t : Text) (p : Nat) : Prop :=
  p = 0 ∨ ∃ q, p = q + 1 ∧ t[q]? = some (.scalar '\n')

/-! ## One line -/

theorem IsOneLine.append {u t : Text} (hu : u.IsOneLine) (ht : t.IsOneLine) :
    IsOneLine (u ++ t) := by
  intro c hc
  rcases List.mem_append.1 hc with hc | hc
  · exact hu c hc
  · exact ht c hc

theorem IsOneLine.lf_notMem {t : Text} (h : t.IsOneLine) : .scalar '\n' ∉ t :=
  fun hc => (h _ hc).1 rfl

theorem IsOneLine.cr_notMem {t : Text} (h : t.IsOneLine) : .scalar '\r' ∉ t :=
  fun hc => (h _ hc).2 rfl

/-! ## Places where a CR is followed by an LF -/

theorem joinCrLf_of_cr_notMem {t : Text} (h : .scalar '\r' ∉ t) : joinCrLf t = t := by
  induction t using joinCrLf.induct with
  | case1 => rfl
  | case2 c => rfl
  | case3 c d t hcrlf => exact absurd (hcrlf.1 ▸ List.mem_cons_self) h
  | case4 c d t hcrlf ih =>
    rw [List.mem_cons, not_or] at h
    rw [joinCrLf, if_neg hcrlf, ih h.2]

/-- A text without CR has LF only. -/
theorem unifyLineEndings_of_cr_notMem {t : Text} (h : .scalar '\r' ∉ t) :
    t.unifyLineEndings = t := by
  rw [unifyLineEndings, joinCrLf_of_cr_notMem h]
  refine (List.map_congr_left fun c hc => if_neg ?_).trans (List.map_id t)
  rintro rfl
  exact h hc

/-- The counts of two texts add up, unless a CR and an LF meet where the texts do. -/
theorem crlfCount_append {u : Text} (h : u.getLast? ≠ some (.scalar '\r')) (t : Text) :
    crlfCount (u ++ t) = crlfCount u + crlfCount t := by
  induction u using crlfCount.induct with
  | case1 => simp [crlfCount]
  | case2 c =>
    have hc : c ≠ .scalar '\r' := by simpa using h
    cases t with
    | nil => simp [crlfCount]
    | cons d t => simp [crlfCount, hc]
  | case3 c d u ih =>
    have hd : (d :: u).getLast? ≠ some (.scalar '\r') := by simpa using h
    have := ih hd
    simp only [List.cons_append, crlfCount] at this ⊢
    omega

theorem crlfCount_le_count_cr (t : Text) : crlfCount t ≤ t.count (.scalar '\r') := by
  induction t using crlfCount.induct with
  | case1 => simp [crlfCount]
  | case2 c => simp [crlfCount]
  | case3 c d t ih =>
    simp only [crlfCount, List.count_cons (a := .scalar '\r') (b := c)]
    split
    · next h => simp [h.1]; omega
    · omega

theorem crlfCount_cons_le_count_lf (c : CodePoint) (t : Text) :
    crlfCount (c :: t) ≤ t.count (.scalar '\n') := by
  induction t generalizing c with
  | nil => simp [crlfCount]
  | cons d t ih =>
    have htail := ih d
    simp only [crlfCount, List.count_cons, beq_iff_eq]
    split
    · next h => rw [if_pos h.2]; omega
    · omega

theorem crlfCount_le_count_lf (t : Text) : crlfCount t ≤ t.count (.scalar '\n') := by
  cases t with
  | nil => simp [crlfCount]
  | cons c t => exact Nat.le_trans (crlfCount_cons_le_count_lf c t) List.count_le_count_cons

theorem hasNoLoneCr_cons_iff {c : CodePoint} {t : Text} :
    HasNoLoneCr (c :: t) ↔ (c = .scalar '\r' → t.head? = some (.scalar '\n')) ∧ HasNoLoneCr t := by
  constructor
  · intro h
    refine ⟨fun hc => ?_, fun i hi => ?_⟩
    · simpa [List.head?_eq_getElem?] using h 0 (by simp [hc])
    · simpa using h (i + 1) (by simpa using hi)
  · rintro ⟨hc, ht⟩ i hi
    cases i with
    | zero => simpa [List.head?_eq_getElem?] using hc (by simpa using hi)
    | succ i => simpa using ht i (by simpa using hi)

/-- No CR stands alone exactly when each of them is counted together with an LF. -/
theorem hasNoLoneCr_iff {t : Text} : t.HasNoLoneCr ↔ crlfCount t = t.count (.scalar '\r') := by
  induction t using crlfCount.induct with
  | case1 => simp [HasNoLoneCr, crlfCount]
  | case2 c =>
    rw [hasNoLoneCr_cons_iff]
    by_cases hc : c = .scalar '\r' <;> simp [HasNoLoneCr, crlfCount, hc]
  | case3 c d t ih =>
    -- a CR before anything but an LF makes the count of CRs the greater one
    have hle := crlfCount_le_count_cr (d :: t)
    rw [hasNoLoneCr_cons_iff, ih, crlfCount, List.count_cons (b := c)]
    by_cases hc : c = .scalar '\r'
    · by_cases hd : d = .scalar '\n'
      · simp [hc, hd]
        omega
      · simp [hc, hd]
        omega
    · simp [hc]

theorem hasNoLoneCr_append_iff {u : Text} (h : u.getLast? ≠ some (.scalar '\r')) (t : Text) :
    HasNoLoneCr (u ++ t) ↔ u.HasNoLoneCr ∧ t.HasNoLoneCr := by
  have hu := crlfCount_le_count_cr u
  have ht := crlfCount_le_count_cr t
  simp only [hasNoLoneCr_iff, crlfCount_append h, List.count_append]
  omega

theorem HasNoLoneCr.of_cr_notMem {t : Text} (h : .scalar '\r' ∉ t) : t.HasNoLoneCr :=
  fun _ hi => absurd (List.mem_of_getElem? hi) h

theorem HasNoLoneCr.drop {t : Text} (h : t.HasNoLoneCr) (n : Nat) : HasNoLoneCr (t.drop n) := by
  intro i hi
  rw [List.getElem?_drop] at hi ⊢
  exact h (n + i) hi

/-! ## Turning every line ending into LF -/

theorem mem_of_mem_joinCrLf {t : Text} {c : CodePoint} (hc : c ∈ joinCrLf t) : c ∈ t := by
  induction t using joinCrLf.induct with
  | case1 => exact hc
  | case2 d => exact hc
  | case3 d e t hcrlf ih =>
    rw [joinCrLf, if_pos hcrlf] at hc
    exact List.mem_cons_of_mem _ (ih hc)
  | case4 d e t hcrlf ih =>
    rw [joinCrLf, if_neg hcrlf] at hc
    exact (List.mem_cons.1 hc).elim (fun h => h ▸ List.mem_cons_self)
      fun h => List.mem_cons_of_mem _ (ih h)

/-- No code point but a CR is dropped. -/
theorem mem_joinCrLf {t : Text} {c : CodePoint} (hc : c ∈ t) (hcr : c ≠ .scalar '\r') :
    c ∈ joinCrLf t := by
  induction t using joinCrLf.induct with
  | case1 => exact hc
  | case2 d => exact hc
  | case3 d e t hcrlf ih =>
    rw [joinCrLf, if_pos hcrlf]
    apply ih
    apply (List.mem_cons.1 hc).resolve_left
    rintro rfl
    exact hcr hcrlf.1
  | case4 d e t hcrlf ih =>
    rw [joinCrLf, if_neg hcrlf]
    exact (List.mem_cons.1 hc).elim (fun h => h ▸ List.mem_cons_self)
      fun h => List.mem_cons_of_mem _ (ih h)

/-- Two texts are read one after the other, unless a CR and an LF meet where they do. -/
theorem joinCrLf_append {u t : Text}
    (h : u.getLast? = some (.scalar '\r') → t.head? ≠ some (.scalar '\n')) :
    joinCrLf (u ++ t) = joinCrLf u ++ joinCrLf t := by
  induction u using joinCrLf.induct with
  | case1 => rfl
  | case2 c =>
    cases t with
    | nil => rfl
    | cons d t =>
      have hcrlf : ¬ (c = .scalar '\r' ∧ d = .scalar '\n') := by
        rintro ⟨rfl, rfl⟩
        exact h rfl rfl
      show joinCrLf (c :: d :: t) = c :: joinCrLf (d :: t)
      rw [joinCrLf, if_neg hcrlf]
  | case3 c d u hcrlf ih =>
    rw [List.getLast?_cons_cons] at h
    rw [List.cons_append, List.cons_append, joinCrLf, if_pos hcrlf, joinCrLf, if_pos hcrlf]
    exact ih h
  | case4 c d u hcrlf ih =>
    rw [List.getLast?_cons_cons] at h
    rw [List.cons_append, List.cons_append, joinCrLf, if_neg hcrlf, joinCrLf, if_neg hcrlf,
      List.cons_append]
    exact congrArg _ (ih h)

theorem unifyLineEndings_append {u t : Text}
    (h : u.getLast? = some (.scalar '\r') → t.head? ≠ some (.scalar '\n')) :
    (u ++ t).unifyLineEndings = u.unifyLineEndings ++ t.unifyLineEndings := by
  rw [unifyLineEndings, joinCrLf_append h, List.map_append]
  rfl

theorem cr_notMem_unifyLineEndings (t : Text) : .scalar '\r' ∉ t.unifyLineEndings := by
  intro hmem
  obtain ⟨c, -, hc⟩ := List.mem_map.1 hmem
  by_cases hcr : c = .scalar '\r'
  · rw [if_pos hcr] at hc
    exact absurd hc (by decide)
  · rw [if_neg hcr] at hc
    exact hcr hc

/-- A code point of the text stays, but for the CRs and LFs. -/
theorem mem_unifyLineEndings_iff {t : Text} {c : CodePoint} (hlf : c ≠ .scalar '\n')
    (hcr : c ≠ .scalar '\r') : c ∈ t.unifyLineEndings ↔ c ∈ t := by
  constructor
  · intro hmem
    obtain ⟨d, hd, rfl⟩ := List.mem_map.1 hmem
    by_cases hcr' : d = .scalar '\r'
    · exact absurd (if_pos hcr') hlf
    · rw [if_neg hcr']
      exact mem_of_mem_joinCrLf hd
  · intro hmem
    exact List.mem_map.2 ⟨c, mem_joinCrLf hmem hcr, if_neg hcr⟩

/-! ## Turning LFs into another line break -/

theorem withLineBreak_append (lineBreak u t : Text) :
    withLineBreak lineBreak (u ++ t) = withLineBreak lineBreak u ++ withLineBreak lineBreak t := by
  simp [withLineBreak]

theorem withLineBreak_cons (lineBreak : Text) (c : CodePoint) (t : Text) :
    withLineBreak lineBreak (c :: t) =
      (if c = .scalar '\n' then lineBreak else [c]) ++ withLineBreak lineBreak t := by
  simp [withLineBreak]

theorem withLineBreak_eq_self {t : Text} (h : .scalar '\n' ∉ t) (lineBreak : Text) :
    withLineBreak lineBreak t = t := by
  induction t with
  | nil => rfl
  | cons c t ih =>
    rw [List.mem_cons, not_or] at h
    rw [withLineBreak_cons, if_neg (Ne.symm h.1), ih h.2]
    rfl

theorem withLineBreak_lf (t : Text) : withLineBreak LineEnding.lf.text t = t := by
  induction t with
  | nil => rfl
  | cons c t ih =>
    rw [withLineBreak_cons, ih]
    split
    · next h => rw [h]; rfl
    · rfl

/-- Each LF gives way to a line break, and the other code points stay. -/
theorem count_withLineBreak (lineBreak t : Text) (c : CodePoint) :
    (withLineBreak lineBreak t).count c =
      t.count (.scalar '\n') * lineBreak.count c + if c = .scalar '\n' then 0 else t.count c := by
  induction t with
  | nil => simp [withLineBreak]
  | cons d t ih =>
    rw [withLineBreak_cons, List.count_append, ih]
    by_cases hd : d = .scalar '\n'
    · by_cases hc : c = .scalar '\n'
      · simp [hd, hc, Nat.succ_mul]
        omega
      · simp [hd, hc, Ne.symm hc, Nat.succ_mul]
        omega
    · by_cases hc : c = .scalar '\n'
      · simp [hd, hc]
      · simp [hd, hc, List.count_cons]
        omega

theorem lf_notMem_withLineBreak_cr (t : Text) :
    .scalar '\n' ∉ withLineBreak LineEnding.cr.text t := by
  have hcount := count_withLineBreak LineEnding.cr.text t (.scalar '\n')
  rw [if_pos rfl] at hcount
  exact List.count_eq_zero.1 hcount

/-- Turning every line ending into LF undoes that LFs were turned into one line ending. -/
theorem unifyLineEndings_withLineBreak {t : Text} (h : .scalar '\r' ∉ t) (ending : LineEnding) :
    (withLineBreak ending.text t).unifyLineEndings = t := by
  induction t with
  | nil => rfl
  | cons c t ih =>
    rw [List.mem_cons, not_or] at h
    rw [withLineBreak_cons]
    by_cases hc : c = .scalar '\n'
    · have hending : ending.text.unifyLineEndings = [.scalar '\n'] := by
        cases ending <;> decide
      rw [if_pos hc, unifyLineEndings_append ?_, ih h.2, hending, hc]
      · rfl
      · -- only a lone CR could be taken together with an LF behind it
        cases ending with
        | lf => exact fun hlast => absurd hlast (by decide)
        | crlf => exact fun hlast => absurd hlast (by decide)
        | cr =>
          exact fun _ hhead => lf_notMem_withLineBreak_cr t (List.mem_of_mem_head? hhead)
    · have hlast : [c].getLast? ≠ some (.scalar '\r') := by simpa using Ne.symm h.1
      have hkeep : unifyLineEndings [c] = [c] := congrArg (· :: []) (if_neg (Ne.symm h.1))
      rw [if_neg hc, unifyLineEndings_append fun hcr => absurd hcr hlast, ih h.2, hkeep]
      rfl

/-- With CR LF as its line break, a text without CRs has one CR LF for each LF that it had. -/
theorem crlfCount_withLineBreak_crlf {t : Text} (h : .scalar '\r' ∉ t) :
    crlfCount (withLineBreak LineEnding.crlf.text t) = t.count (.scalar '\n') := by
  induction t with
  | nil => rfl
  | cons c t ih =>
    rw [List.mem_cons, not_or] at h
    rw [withLineBreak_cons]
    by_cases hc : c = .scalar '\n'
    · have hlast : (LineEnding.crlf.text).getLast? ≠ some (.scalar '\r') := by decide
      have hbreak : crlfCount LineEnding.crlf.text = 1 := by decide
      rw [if_pos hc, crlfCount_append hlast, ih h.2, hbreak, hc, List.count_cons_self, Nat.add_comm]
    · have hlast : [c].getLast? ≠ some (.scalar '\r') := by simpa using Ne.symm h.1
      rw [if_neg hc, crlfCount_append hlast, ih h.2, List.count_cons_of_ne hc]
      simp [crlfCount]

end Text

/-! ## The prevalent line ending -/

namespace LineEnding

/-- A text without lone CRs is never taken for one that uses them. -/
theorem prevalent_ne_cr {t : Text} (h : t.HasNoLoneCr) : prevalent t ≠ cr := by
  have hcr := Text.hasNoLoneCr_iff.1 h
  rw [prevalent, hcr, Nat.sub_self]
  split
  · simp
  · simp

/-- A text without lone CRs is taken for one that uses CR LF if more of its LFs than not follow a
CR. -/
theorem prevalent_eq_crlf_iff {t : Text} (h : t.HasNoLoneCr) :
    prevalent t = crlf ↔ t.count (.scalar '\n') < 2 * t.crlfCount := by
  have hcr := Text.hasNoLoneCr_iff.1 h
  have hlf := Text.crlfCount_le_count_lf t
  rw [prevalent, ← hcr, Nat.sub_self, Nat.zero_max]
  split
  · next hmore => simp only [true_iff]; omega
  · next hless => simp only [gt_iff_lt, Nat.not_lt_zero, if_false, reduceCtorEq, false_iff]; omega

end LineEnding

end DeclSync
