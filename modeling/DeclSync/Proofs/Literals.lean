import DeclSync.Proofs.LineBreaks
import DeclSync.Proofs.Words
import DeclSync.Script.Literal

/-!
# Reading string literals back

A reader for the literals of a script, which knows nothing of how texts are put into them: a
backslash takes the next code point along, the first quote without one closes the literal, and no
line ends inside. It reads the literal of a text as the words of that text with one space between
them.

## Main definitions

- `Literal.read?` — reads a literal after its opening quote
- `Text.unescaped` — a text without the backslashes that take a code point along

`Literal.read?_literalBody` says what is read from the literal of a text.
-/

namespace DeclSync

/-- Whether a line of a script ends with a code point. -/
def CodePoint.isLineTerminator (c : CodePoint) : Bool :=
  c = '\n' || c = '\r' || c = '\u2028' || c = '\u2029'

namespace Literal

/-- Reads a string literal after its opening quote, and gives its value and the rest of the text. -/
def read? (quote : CodePoint) : Text → Option (Text × Text)
  | [] => none
  | c :: t =>
    if c = quote then some ([], t)
    else if c.isLineTerminator then none
    else if c = '\\' then
      match t with
      | [] => none
      | d :: t =>
        if d.isLineTerminator then none
        else (read? quote t).map fun (value, rest) => (d :: value, rest)
    else (read? quote t).map fun (value, rest) => (c :: value, rest)

end Literal

namespace Text

/-- The text without the backslashes that take the next code point along. -/
def unescaped : Text → Text
  | [] => []
  | [c] => [c]
  | c :: d :: t => if c = '\\' then d :: unescaped t else c :: unescaped (d :: t)

theorem unescaped_cons {c : CodePoint} (hc : c ≠ .scalar '\\') (t : Text) :
    unescaped (c :: t) = c :: t.unescaped := by
  cases t with
  | nil => rfl
  | cons d t => rw [unescaped, if_neg hc]

theorem unescaped_inLiteral_append (c : CodePoint) (t : Text) :
    unescaped (c.inLiteral ++ t) = c :: t.unescaped := by
  rw [CodePoint.inLiteral]
  split
  · rfl
  · next hc =>
    rw [not_or] at hc
    exact unescaped_cons hc.1 t

theorem unescaped_flatMap_inLiteral (t : Text) : unescaped (t.flatMap CodePoint.inLiteral) = t := by
  induction t with
  | nil => rfl
  | cons c t ih => rw [List.flatMap_cons, unescaped_inLiteral_append, ih]

/-- Without its backslashes, the literal of a text shows its words with one space between them. -/
theorem unescaped_literalBody (t : Text) : t.literalBody.unescaped = t.singleSpaced :=
  unescaped_flatMap_inLiteral t.singleSpaced

theorem literalBody_trim (t : Text) : t.trim.literalBody = t.literalBody := by
  rw [literalBody, literalBody, singleSpaced, singleSpaced, words_trim]

theorem mem_inLiteral {c d : CodePoint} (h : d ∈ c.inLiteral) : d = c ∨ d = .scalar '\\' := by
  rw [CodePoint.inLiteral] at h
  split at h
  · simpa [or_comm] using h
  · exact .inl (by simpa using h)

theorem mem_literalBody {t : Text} {c : CodePoint} (h : c ∈ t.literalBody) :
    c = .scalar ' ' ∨ c.isBlank = false := by
  obtain ⟨d, hd, hc⟩ := List.mem_flatMap.1 h
  rcases mem_inLiteral hc with rfl | rfl
  · exact mem_singleSpaced hd
  · exact .inr rfl

/-- The literal of a text stands on one line. -/
theorem isOneLine_literalBody (t : Text) : t.literalBody.IsOneLine := by
  intro c hc
  rcases mem_literalBody hc with rfl | hblank
  · decide
  · refine ⟨?_, ?_⟩
    · rintro rfl
      exact absurd hblank (by decide)
    · rintro rfl
      exact absurd hblank (by decide)

theorem literalBody_ne_nil {t : Text} {c : CodePoint} (hc : c ∈ t) (hblank : c.isBlank = false) :
    t.literalBody ≠ [] := by
  intro hnil
  have hspaced : t.singleSpaced = [] := by rw [← unescaped_literalBody, hnil, unescaped]
  exact singleSpaced_ne_nil hc hblank hspaced

end Text

namespace CodePoint

theorem isBlank_of_isLineTerminator {c : CodePoint} (h : c.isLineTerminator = true) :
    c.isBlank = true ∧ c ≠ .scalar ' ' := by
  simp only [isLineTerminator, Bool.or_eq_true, decide_eq_true_eq] at h
  rcases h with ((rfl | rfl) | rfl) | rfl <;> decide

end CodePoint

namespace Literal

variable {quote : CodePoint}

theorem length_lt_of_read? {t value rest : Text} (h : read? quote t = some (value, rest)) :
    rest.length < t.length := by
  fun_induction read? quote t generalizing value with
  | case1 => exact absurd h (by simp)
  | case2 t =>
    obtain ⟨-, rfl⟩ := Prod.mk.inj (Option.some.inj h)
    exact Nat.lt_succ_self _
  | case3 => exact absurd h (by simp)
  | case4 => exact absurd h (by simp)
  | case5 => exact absurd h (by simp)
  | case6 =>
    rename_i ih
    obtain ⟨⟨value', rest'⟩, hread, heq⟩ := Option.map_eq_some_iff.1 h
    obtain ⟨-, rfl⟩ := Prod.mk.inj heq
    exact Nat.lt_succ_of_lt (Nat.lt_succ_of_lt (ih hread))
  | case7 =>
    rename_i ih
    obtain ⟨⟨value', rest'⟩, hread, heq⟩ := Option.map_eq_some_iff.1 h
    obtain ⟨-, rfl⟩ := Prod.mk.inj heq
    exact Nat.lt_succ_of_lt (ih hread)

theorem read?_quote (t : Text) : read? quote (quote :: t) = some ([], t) := by
  rw [read?.eq_def]
  simp

theorem read?_cons {c : CodePoint} (hquote : c ≠ quote) (hbackslash : c ≠ .scalar '\\')
    (hline : c.isLineTerminator = false) (t : Text) :
    read? quote (c :: t) = (read? quote t).map fun (value, rest) => (c :: value, rest) := by
  rw [read?.eq_def]
  simp [hquote, hbackslash, hline]

theorem read?_escaped {d : CodePoint} (hquote : quote ≠ .scalar '\\')
    (hline : d.isLineTerminator = false) (t : Text) :
    read? quote (.scalar '\\' :: d :: t) =
      (read? quote t).map fun (value, rest) => (d :: value, rest) := by
  have hterminator : (CodePoint.scalar '\\').isLineTerminator = false := by decide
  rw [read?.eq_def]
  simp [Ne.symm hquote, hterminator, hline]

theorem read?_plain {t : Text}
    (h : ∀ c ∈ t, c ≠ quote ∧ c ≠ .scalar '\\' ∧ c.isLineTerminator = false) (rest : Text) :
    read? quote (t ++ quote :: rest) = some (t, rest) := by
  induction t with
  | nil => exact read?_quote rest
  | cons c t ih =>
    obtain ⟨⟨hquote, hbackslash, hline⟩, ht⟩ := List.forall_mem_cons.1 h
    rw [List.cons_append, read?_cons hquote hbackslash hline, ih ht]
    rfl

/-- Both quotes that are escaped can delimit the literal of a code point. -/
theorem read?_inLiteral_append (hquote : quote = .scalar '\x27' ∨ quote = .scalar '"')
    {c : CodePoint} (hline : c.isLineTerminator = false) (t : Text) :
    read? quote (c.inLiteral ++ t) = (read? quote t).map fun (value, rest) => (c :: value, rest) := by
  have hbackslash : quote ≠ .scalar '\\' := by rcases hquote with rfl | rfl <;> decide
  rw [CodePoint.inLiteral]
  split
  · exact read?_escaped hbackslash hline t
  · next hc =>
    simp only [not_or] at hc
    refine read?_cons ?_ hc.1 hline t
    rcases hquote with rfl | rfl
    · exact hc.2.1
    · exact hc.2.2

/-- The literal of a text is read as the words of the text with one space between them, and closes
where it was closed. -/
theorem read?_literalBody (hquote : quote = .scalar '\x27' ∨ quote = .scalar '"') (t rest : Text) :
    read? quote (t.literalBody ++ quote :: rest) = some (t.singleSpaced, rest) := by
  have hline : ∀ c ∈ t.singleSpaced, c.isLineTerminator = false := by
    intro c hc
    rw [Bool.eq_false_iff]
    intro hterminator
    obtain ⟨hblank, hspace⟩ := CodePoint.isBlank_of_isLineTerminator hterminator
    rcases Text.mem_singleSpaced hc with rfl | hno
    · exact hspace rfl
    · exact absurd hblank (by simp [hno])
  rw [Text.literalBody]
  -- the induction is on the words themselves, each code point of which has its own literal
  generalize t.singleSpaced = u at hline
  induction u with
  | nil => exact read?_quote rest
  | cons c u ih =>
    rw [List.forall_mem_cons] at hline
    rw [List.flatMap_cons, List.append_assoc, read?_inLiteral_append hquote hline.1, ih hline.2]
    rfl

end Literal

end DeclSync
