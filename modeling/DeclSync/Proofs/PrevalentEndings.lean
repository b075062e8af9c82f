import DeclSync.Proofs.LineBreaks

/-!
# The line ending that a text uses most

A text is read from left to right, where a CR and the LF behind it are one line break, and any other
CR or LF is one of its own. The prevalent line ending of a text is found by counting its CRs, its
LFs and the places where one follows the other. It is the line ending that is read most often.

## Main definitions

- `Text.pieces` — a text read from left to right
- `Text.lineBreaks` — the line breaks that are read
- `LineEnding.precedence` — which of several line endings a text is taken for that uses them equally
  often

`LineEnding.prevalent_most_counted` says which line ending is the prevalent one, and that a text is
taken for what its LFs were turned into.
-/

namespace DeclSync

namespace Text

/-- What is read of a text at a time: a line break, or a code point that belongs to none. -/
inductive Piece where
  | lineBreak (ending : LineEnding)
  | other (c : CodePoint)
  deriving DecidableEq

/-- What a code point is read as that is not part of a CR LF. -/
def pieceOf (c : CodePoint) : Piece :=
  if c = '\r' then .lineBreak .cr else if c = '\n' then .lineBreak .lf else .other c

/-- A text read from left to right. -/
def pieces : Text → List Piece
  | [] => []
  | [c] => [pieceOf c]
  | c :: d :: t =>
    if c = '\r' ∧ d = '\n' then .lineBreak .crlf :: pieces t else pieceOf c :: pieces (d :: t)

/-- The line ending that a piece is. -/
def Piece.ending? : Piece → Option LineEnding
  | lineBreak ending => some ending
  | other _ => none

/-- The line breaks of a text, from left to right. -/
def lineBreaks (t : Text) : List LineEnding := t.pieces.filterMap Piece.ending?

variable {c : CodePoint} {t : Text}

theorem pieces_crlf (t : Text) :
    pieces (.scalar '\r' :: .scalar '\n' :: t) = .lineBreak .crlf :: t.pieces := by
  rw [pieces, if_pos ⟨rfl, rfl⟩]

theorem pieces_cons (h : c = .scalar '\r' → t.head? ≠ some (.scalar '\n')) :
    pieces (c :: t) = pieceOf c :: t.pieces := by
  cases t with
  | nil => rfl
  | cons d t =>
    rw [pieces, if_neg]
    rintro ⟨hc, rfl⟩
    exact h hc rfl

theorem lineBreaks_crlf (t : Text) :
    lineBreaks (.scalar '\r' :: .scalar '\n' :: t) = .crlf :: t.lineBreaks := by
  rw [lineBreaks, pieces_crlf]
  rfl

theorem lineBreaks_cons (h : c = .scalar '\r' → t.head? ≠ some (.scalar '\n')) :
    lineBreaks (c :: t) = (pieceOf c).ending?.toList ++ t.lineBreaks := by
  rw [lineBreaks, pieces_cons h, List.filterMap_cons]
  cases (pieceOf c).ending? <;> rfl

/-! ## Counting what is read -/

/-- The three counts that decide the prevalent line ending, as counts of what is read. -/
structure CountsRead (t : Text) : Prop where
  crlf : t.crlfCount = t.lineBreaks.count .crlf
  cr : t.count (.scalar '\r') = t.lineBreaks.count .cr + t.lineBreaks.count .crlf
  lf : t.count (.scalar '\n') = t.lineBreaks.count .lf + t.lineBreaks.count .crlf

theorem crlfCount_cons (h : c = .scalar '\r' → t.head? ≠ some (.scalar '\n')) :
    crlfCount (c :: t) = crlfCount t := by
  cases t with
  | nil => rfl
  | cons d t =>
    rw [crlfCount, if_neg, Nat.zero_add]
    rintro ⟨hc, rfl⟩
    exact h hc rfl

theorem count_ending?_pieceOf (c : CodePoint) :
    (pieceOf c).ending?.toList.count .crlf = 0 ∧
    (pieceOf c).ending?.toList.count .cr = [c].count (.scalar '\r') ∧
    (pieceOf c).ending?.toList.count .lf = [c].count (.scalar '\n') := by
  by_cases hcr : c = .scalar '\r'
  · subst hcr
    decide
  · by_cases hlf : c = .scalar '\n'
    · subst hlf
      decide
    · simp [pieceOf, hcr, hlf, Piece.ending?]

theorem CountsRead.cons_crlf (h : CountsRead t) :
    CountsRead (.scalar '\r' :: .scalar '\n' :: t) := by
  have hcount : crlfCount (.scalar '\n' :: t) = crlfCount t := crlfCount_cons (by simp)
  refine ⟨?_, ?_, ?_⟩
  · rw [lineBreaks_crlf, crlfCount, if_pos ⟨rfl, rfl⟩, hcount, h.crlf, List.count_cons_self,
      Nat.add_comm]
  · simp [lineBreaks_crlf, h.cr, Nat.add_assoc]
  · simp [lineBreaks_crlf, h.lf, Nat.add_assoc]

theorem CountsRead.cons (h : CountsRead t)
    (hapart : c = .scalar '\r' → t.head? ≠ some (.scalar '\n')) : CountsRead (c :: t) := by
  obtain ⟨hcrlf, hcr, hlf⟩ := count_ending?_pieceOf c
  have hcount : ∀ d, (c :: t).count d = [c].count d + t.count d := fun d =>
    @List.count_append _ _ _ [c] t
  refine ⟨?_, ?_, ?_⟩
  · rw [crlfCount_cons hapart, lineBreaks_cons hapart, List.count_append, hcrlf, h.crlf,
      Nat.zero_add]
  · rw [hcount, lineBreaks_cons hapart, List.count_append, List.count_append, hcr, hcrlf, h.cr]
    omega
  · rw [hcount, lineBreaks_cons hapart, List.count_append, List.count_append, hlf, hcrlf, h.lf]
    omega

theorem countsRead (t : Text) : CountsRead t := by
  induction t using pieces.induct with
  | case1 => exact ⟨rfl, rfl, rfl⟩
  | case2 c =>
    have hnil : CountsRead [] := ⟨rfl, rfl, rfl⟩
    exact hnil.cons (by simp)
  | case3 c d t hcrlf ih =>
    obtain ⟨rfl, rfl⟩ := hcrlf
    exact ih.cons_crlf
  | case4 c d t hcrlf ih =>
    exact ih.cons fun hc hd => hcrlf ⟨hc, Option.some.inj hd⟩

/-- Of a text with LF only, each LF is read as the line ending that it was turned into. -/
theorem lineBreaks_withLineBreak (h : .scalar '\r' ∉ t) (ending : LineEnding) :
    (withLineBreak ending.text t).lineBreaks = List.replicate (t.count (.scalar '\n')) ending := by
  induction t with
  | nil => rfl
  | cons c t ih =>
    rw [List.mem_cons, not_or] at h
    rw [withLineBreak_cons]
    by_cases hc : c = .scalar '\n'
    · rw [if_pos hc, hc, List.count_cons_self, List.replicate_succ, ← ih h.2]
      cases ending with
      | lf => exact lineBreaks_cons fun hcr => absurd hcr (by decide)
      | crlf => exact lineBreaks_crlf _
      | cr =>
        -- no LF is left that could be read together with the CR
        refine lineBreaks_cons fun _ hlf => ?_
        exact lf_notMem_withLineBreak_cr t (List.mem_of_mem_head? hlf)
    · have hother : (pieceOf c).ending? = none := by
        rw [pieceOf, if_neg (Ne.symm h.1), if_neg hc]
        rfl
      rw [if_neg hc, List.count_cons_of_ne hc, ← ih h.2, List.singleton_append,
        lineBreaks_cons fun hcr => absurd hcr (Ne.symm h.1), hother]
      rfl

end Text

/-! ## The prevalent line ending -/

namespace LineEnding

/-- Which of several line endings a text is taken for that uses them equally often: the one with the
least number. -/
def precedence : LineEnding → Nat
  | lf => 0
  | cr => 1
  | crlf => 2

theorem prevalent_eq_of_lineBreaks (t : Text) : prevalent t =
    if max (t.lineBreaks.count cr) (t.lineBreaks.count lf) < t.lineBreaks.count crlf then crlf
    else if t.lineBreaks.count lf < t.lineBreaks.count cr then cr else lf := by
  have h := Text.countsRead t
  rw [prevalent, h.crlf, h.cr, h.lf, Nat.add_sub_cancel, Nat.add_sub_cancel]

/-- No line ending is read more often in a text than the prevalent one, and of those that are read
as often it is the one of least precedence. If a text has LF only, and at least one, then it is
taken for one that uses any line ending that its LFs are turned into. -/
theorem prevalent_most_counted :
    (∀ (t : Text) (ending : LineEnding),
      t.lineBreaks.count ending ≤ t.lineBreaks.count (prevalent t) ∧
      (t.lineBreaks.count ending = t.lineBreaks.count (prevalent t) →
        (prevalent t).precedence ≤ ending.precedence)) ∧
    ∀ t : Text, .scalar '\r' ∉ t → .scalar '\n' ∈ t → ∀ ending : LineEnding,
      prevalent (Text.withLineBreak ending.text t) = ending := by
  constructor
  · intro t ending
    rw [prevalent_eq_of_lineBreaks]
    split
    · cases ending <;> simp only [precedence] <;> omega
    · split
      · cases ending <;> simp only [precedence] <;> omega
      · cases ending <;> simp only [precedence] <;> omega
  · intro t hcr hlf ending
    have hsome : 0 < t.count (.scalar '\n') := List.count_pos_iff.2 hlf
    rw [prevalent_eq_of_lineBreaks, Text.lineBreaks_withLineBreak hcr]
    cases ending <;> simp [List.count_replicate, hsome]

/-- A text with one line break of each kind, where CRs and LFs stand next to each other. -/
def evenText : Text := "a\r\r\n\nb"

/-- A text with LF only. -/
def plainText : Text := "a\n\nb"

/-- Of three line endings that are used equally often, LF is the prevalent one. -/
theorem prevalent_most_counted_even :
    (evenText.lineBreaks = [cr, crlf, lf] ∧
      ∀ ending, (prevalent evenText).precedence ≤ precedence ending) ∧
    .scalar '\r' ∉ plainText ∧ .scalar '\n' ∈ plainText ∧
      ∀ ending : LineEnding, prevalent (Text.withLineBreak ending.text plainText) = ending := by
  have hread : evenText.lineBreaks = [cr, crlf, lf] := by decide
  have hcr : .scalar '\r' ∉ plainText := by decide
  have hlf : .scalar '\n' ∈ plainText := by decide
  obtain ⟨hmost, hplain⟩ := prevalent_most_counted
  refine ⟨⟨hread, fun ending => (hmost evenText ending).2 ?_⟩, hcr, hlf, hplain _ hcr hlf⟩
  have honce : ∀ other, evenText.lineBreaks.count other = 1 := by
    rw [hread]
    intro other
    cases other <;> rfl
  rw [honce, honce]

end LineEnding

end DeclSync
