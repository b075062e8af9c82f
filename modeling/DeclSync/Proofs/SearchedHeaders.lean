import DeclSync.Proofs.HeaderWindows
import DeclSync.Proofs.Patterns

/-!
# Searching for a header

What a header looks like can be written as a pattern. `static`, `async` and `function` are names as
well as words that qualify one, and a gap can be left behind any of its blanks; so a search for a
header has much to try. But no more than one way ends well. The order in which they are tried makes
no difference then, and headers are read without a search.

## Main definitions

- `Header.pattern` — what a header looks like
- `Header.search` — reads what a search for a header finds first

`Header.spells_pattern_iff` says that the pattern stands for the headers that can be spelled, and
`Header.one_reading` that there is one way to read a header, which any search finds.
-/

namespace DeclSync

namespace Header

open Text

/-! ## The pattern of a header -/

/-- A gap: blanks, at least one of them. -/
def gapPattern : Pattern := .seq (.one CodePoint.isBlank) (.many CodePoint.isBlank)

/-- A word with a gap behind it, if it is there. -/
def qualifierPattern (word : Pattern) : Pattern := .optional (.seq word gapPattern)

/-- The name of a method. -/
def namePattern : Pattern :=
  .seq (.one CodePoint.isIdentifierStart) (.many CodePoint.isIdentifierChar)

/-- A parameter list and the opening bracket of the body. -/
def paramsPattern : Pattern :=
  .seq (.mark "(") <|
  .seq (.kept "params" (.many fun c => c ≠ .scalar ')')) <|
  .seq (.mark ")") <|
  .seq (.many CodePoint.isBlank) (.mark "\x7b")

/-- What a header looks like. -/
def pattern : Pattern :=
  .seq (qualifierPattern (.mark "static")) <|
  .seq (qualifierPattern (.kept "async" (.mark "async"))) <|
  .seq (qualifierPattern (.mark "function")) <|
  .seq (.kept "name" namePattern) <|
  .seq (.many CodePoint.isBlank) paramsPattern

/-- What the kept pieces say of a header. -/
def ofKept (pieces : List (String × Text)) : Header where
  isAsync := (pieces.lookup "async").isSome
  name := (pieces.lookup "name").getD []
  params := (pieces.lookup "params").getD []

/-- The pieces of a header that its pattern keeps. -/
def Spelling.kept (s : Spelling) : List (String × Text) :=
  (if s.async.isSome then [("async", ofString "async")] else []) ++
    [("name", s.name), ("params", s.params)]

/-- Reads what a search for a header finds first, unless that begins inside a word. -/
def search (order : TryOrder) : Reader Header := fun behind t =>
  if behind.any joins then none
  else (pattern.readings order t).head?.map fun r => (ofKept r.kept, r.rest)

theorem ofKept_kept (s : Spelling) : ofKept s.kept = s.header := by
  rw [Spelling.kept, Spelling.header]
  cases s.async <;> rfl

section Spells

open Pattern

variable {u : Text} {pieces : List (String × Text)}

theorem spells_gapPattern_iff : gapPattern.Spells u pieces ↔ IsGap u ∧ pieces = [] := by
  constructor
  · intro h
    obtain ⟨_, _, gap, _, hone, hmany, rfl, rfl⟩ := spells_seq_iff.1 h
    obtain ⟨c, hc, rfl, rfl⟩ := spells_one_iff.1 hone
    obtain ⟨hgap, rfl⟩ := spells_many_iff.1 hmany
    exact ⟨⟨List.cons_ne_nil _ _, List.forall_mem_cons.2 ⟨hc, hgap⟩⟩, rfl⟩
  · rintro ⟨⟨hne, hgap⟩, rfl⟩
    obtain ⟨c, gap, rfl⟩ := List.exists_cons_of_ne_nil hne
    obtain ⟨hc, hgap⟩ := List.forall_mem_cons.1 hgap
    exact .seq (.one hc) (.many hgap)

theorem spells_namePattern_iff :
    namePattern.Spells u pieces ↔ u.isIdentifier = true ∧ pieces = [] := by
  constructor
  · intro h
    obtain ⟨_, _, name, _, hone, hmany, rfl, rfl⟩ := spells_seq_iff.1 h
    obtain ⟨c, hc, rfl, rfl⟩ := spells_one_iff.1 hone
    obtain ⟨hname, rfl⟩ := spells_many_iff.1 hmany
    refine ⟨Bool.and_eq_true_iff.2 ⟨hc, List.all_eq_true.2 ?_⟩, rfl⟩
    exact List.forall_mem_cons.2 ⟨CodePoint.isIdentifierChar_of_isIdentifierStart hc, hname⟩
  · rintro ⟨hname, rfl⟩
    obtain ⟨hbegins, hall⟩ := Bool.and_eq_true_iff.1 hname
    cases u with
    | nil => exact absurd hbegins Bool.false_ne_true
    | cons c name =>
      exact .seq (.one hbegins) (.many (List.forall_mem_cons.1 (List.all_eq_true.1 hall)).2)

theorem spells_qualifierPattern_iff {p : Pattern} {word : Text} {inside : List (String × Text)}
    (hp : ∀ v before, p.Spells v before ↔ v = word ∧ before = inside) :
    (qualifierPattern p).Spells u pieces ↔ ∃ gap? : Option Text, (∀ gap ∈ gap?, IsGap gap) ∧
      u = qualifier word gap? ∧ pieces = if gap?.isSome then inside else [] := by
  constructor
  · intro h
    rcases spells_optional_iff.1 h with hpresent | ⟨rfl, rfl⟩
    · obtain ⟨_, _, gap, _, hword, hgap, rfl, rfl⟩ := spells_seq_iff.1 hpresent
      obtain ⟨rfl, rfl⟩ := (hp _ _).1 hword
      obtain ⟨hblank, rfl⟩ := spells_gapPattern_iff.1 hgap
      exact ⟨some gap, by rintro _ ⟨⟩; exact hblank, rfl, List.append_nil _⟩
    · exact ⟨none, isGap_of_mem_none, rfl, rfl⟩
  · rintro ⟨gap?, hgap, rfl, rfl⟩
    cases gap? with
    | none => exact .absent _
    | some gap =>
      have hword := (hp word inside).2 ⟨rfl, rfl⟩
      have hboth := hword.seq (spells_gapPattern_iff.2 ⟨hgap gap rfl, rfl⟩)
      rw [List.append_nil] at hboth
      exact .present hboth

theorem spells_keptAsync_iff : (kept "async" (mark "async")).Spells u pieces ↔
    u = "async" ∧ pieces = [("async", ofString "async")] := by
  simp only [spells_kept_iff, spells_mark_iff]
  constructor
  · rintro ⟨_, ⟨rfl, rfl⟩, rfl⟩
    exact ⟨rfl, rfl⟩
  · rintro ⟨rfl, rfl⟩
    exact ⟨[], ⟨rfl, rfl⟩, rfl⟩

theorem spells_paramsPattern_iff : paramsPattern.Spells u pieces ↔
    ∃ params gap : Text, .scalar ')' ∉ params ∧ (∀ c ∈ gap, c.isBlank = true) ∧
      u = "(" ++ (params ++ (")" ++ (gap ++ "\x7b"))) ∧ pieces = [("params", params)] := by
  constructor
  · intro h
    obtain ⟨_, _, _, _, hopen, hinside, rfl, rfl⟩ := spells_seq_iff.1 h
    obtain ⟨params, _, _, _, hkept, hbehind, rfl, rfl⟩ := spells_seq_iff.1 hinside
    obtain ⟨_, _, _, _, hclose, hbody, rfl, rfl⟩ := spells_seq_iff.1 hbehind
    obtain ⟨gap, _, _, _, hgap, hbrace, rfl, rfl⟩ := spells_seq_iff.1 hbody
    obtain ⟨rfl, rfl⟩ := spells_mark_iff.1 hopen
    obtain ⟨_, hmany, rfl⟩ := spells_kept_iff.1 hkept
    obtain ⟨hparams, rfl⟩ := spells_many_iff.1 hmany
    obtain ⟨rfl, rfl⟩ := spells_mark_iff.1 hclose
    obtain ⟨hblank, rfl⟩ := spells_many_iff.1 hgap
    obtain ⟨rfl, rfl⟩ := spells_mark_iff.1 hbrace
    exact ⟨params, gap, fun hmem => of_decide_eq_true (hparams _ hmem) rfl, hblank, rfl, rfl⟩
  · rintro ⟨params, gap, hparams, hgap, rfl, rfl⟩
    have hunclosed : ∀ c ∈ params, decide (c ≠ .scalar ')') = true := by
      intro c hc
      exact decide_eq_true fun heq => hparams (heq ▸ hc)
    exact .seq (.mark _) (.seq (.kept _ (.many hunclosed)) (.seq (.mark _)
      (.seq (.many hgap) (.mark _))))

/-- The pattern stands for the headers that can be spelled. -/
theorem spells_pattern_iff :
    pattern.Spells u pieces ↔ ∃ s : Spelling, s.text = u ∧ s.kept = pieces := by
  have hword (word : Text) {v : Text} {before : List (String × Text)} :=
    @spells_qualifierPattern_iff v before (mark word) word [] fun _ _ => spells_mark_iff
  have hasync {v : Text} {before : List (String × Text)} :=
    @spells_qualifierPattern_iff v before _ _ _ fun _ _ => spells_keptAsync_iff
  simp only [ite_self] at hword
  constructor
  · intro h
    -- first the parts of the pattern, then what each of them stands for
    obtain ⟨_, _, _, _, hfirst, hfromAsync, rfl, rfl⟩ := spells_seq_iff.1 h
    obtain ⟨_, _, _, _, hsecond, hfromFunction, rfl, rfl⟩ := spells_seq_iff.1 hfromAsync
    obtain ⟨_, _, _, _, hthird, hnamed, rfl, rfl⟩ := spells_seq_iff.1 hfromFunction
    obtain ⟨name, _, _, _, hkept, hbehind, rfl, rfl⟩ := spells_seq_iff.1 hnamed
    obtain ⟨beforeParams, _, _, _, hgap, hlist, rfl, rfl⟩ := spells_seq_iff.1 hbehind
    obtain ⟨static, hstatic, rfl, rfl⟩ := (hword _).1 hfirst
    obtain ⟨async, hasync, rfl, rfl⟩ := hasync.1 hsecond
    obtain ⟨function, hfunction, rfl, rfl⟩ := (hword _).1 hthird
    obtain ⟨_, hinside, rfl⟩ := spells_kept_iff.1 hkept
    obtain ⟨hname, rfl⟩ := spells_namePattern_iff.1 hinside
    obtain ⟨hblank, rfl⟩ := spells_many_iff.1 hgap
    obtain ⟨params, beforeBody, hparams, hbody, rfl, rfl⟩ := spells_paramsPattern_iff.1 hlist
    exact ⟨⟨static, async, function, name, beforeParams, params, beforeBody, hstatic, hasync,
      hfunction, hname, hblank, hparams, hbody⟩, rfl, rfl⟩
  · rintro ⟨s, rfl, rfl⟩
    have hname := spells_namePattern_iff.2 ⟨s.isIdentifier_name, rfl⟩
    have hlist := spells_paramsPattern_iff.2
      ⟨s.params, s.beforeBody, s.unclosed_params, s.blank_beforeBody, rfl, rfl⟩
    have hnamed := (hname.kept "name").seq ((Spells.many s.blank_beforeParams).seq hlist)
    have hfunction := ((hword "function").2 ⟨s.function, s.gap_function, rfl, rfl⟩).seq hnamed
    have hfromAsync := (hasync.2 ⟨s.async, s.gap_async, rfl, rfl⟩).seq hfunction
    exact ((hword "static").2 ⟨s.static, s.gap_static, rfl, rfl⟩).seq hfromAsync

end Spells

/-! ## One reading -/

/-- Whatever its order, a search finds first what is read without one. -/
theorem search_eq_readAfter? (order : TryOrder) : search order = readAfter? := by
  funext behind t
  rw [search, readAfter?]
  split
  · rfl
  · cases hways : pattern.readings order t with
    | nil =>
      by_contra hread
      obtain ⟨⟨h, rest⟩, hfound⟩ := Option.ne_none_iff_exists'.1 (Ne.symm hread)
      obtain ⟨s, -, rfl⟩ := read?_eq_some_iff.1 hfound
      -- the search would have found the header that is read
      have hmem : ⟨s.kept, rest⟩ ∈ pattern.readings order (s.text ++ rest) :=
        Pattern.mem_readings_iff.2 ⟨s.text, spells_pattern_iff.2 ⟨s, rfl, rfl⟩, rfl⟩
      rw [hways] at hmem
      exact absurd hmem List.not_mem_nil
    | cons r ways =>
      have hmem : r ∈ pattern.readings order t := hways ▸ List.mem_cons_self
      obtain ⟨_, hspells, rfl⟩ := Pattern.mem_readings_iff.1 hmem
      obtain ⟨s, rfl, hkept⟩ := spells_pattern_iff.1 hspells
      rw [List.head?_cons, Option.map_some, ← hkept, ofKept_kept, read?_text_append]

namespace Spelling

/-- The words that qualify the name, with the gaps behind them. -/
def qualifiers (s : Spelling) : Text :=
  qualifier "static" s.static ++ (qualifier "async" s.async ++ qualifier "function" s.function)

/-- The name is all of the identifier that stands behind the words that qualify it. -/
theorem takeWhile_drop_qualifiers (s : Spelling) (rest : Text) :
    ((s.text ++ rest).drop s.qualifiers.length).takeWhile CodePoint.isIdentifierChar = s.name := by
  have htext : s.text ++ rest = s.qualifiers ++ (s.named ++ rest) := by
    simp only [text, qualifiers, List.append_assoc]
  rw [htext, List.drop_left, s.takeWhile_named]

end Spelling

theorem StandsIn.stop_le {t : Text} {o : Occurrence Spelling} (h : StandsIn t o) :
    o.stop ≤ t.length := by
  have hlength := h.spelled.length_le
  have hpos := List.length_pos_of_ne_nil o.value.text_ne_nil
  rw [List.length_drop] at hlength
  rw [h.stops]
  omega

/-- A header stands where it does whatever text is behind it. -/
theorem StandsIn.take_append {t : Text} {o : Occurrence Spelling} (h : StandsIn t o)
    (later : Text) : StandsIn (t.take o.stop ++ later) o := by
  have hstop := h.stop_le
  have hstops := h.stops
  have hlength : (t.take o.stop).length = o.stop := by
    rw [List.length_take, Nat.min_eq_left hstop]
  have hstart : o.start ≤ (t.take o.stop).length := by omega
  refine ⟨?_, ?_, hstops⟩
  · rw [List.take_append_of_le_length hstart, List.take_take, Nat.min_eq_left (by omega)]
    exact h.apart
  · rw [List.drop_append_of_le_length hstart, List.drop_take, hstops, Nat.add_sub_cancel_left]
    obtain ⟨rest, hrest⟩ := h.spelled
    rw [← hrest, List.take_left]
    exact List.prefix_append _ _

/-- At every offset of a text a header can be read in one way at most, and its name is all of the
identifier that stands behind the words that qualify it. So a search finds the same in whichever
order it tries. What is found is found there with any other text behind it too, and with none. -/
theorem one_reading (t : Text) (i : Nat) :
    (∀ s s' : Spelling, s.text <+: t.drop i → s'.text <+: t.drop i → s = s') ∧
    (∀ order : TryOrder, occurrenceAt? (search order) t i = occurrenceAt? readAfter? t i) ∧
    (∀ s : Spelling, s.text <+: t.drop i →
      (t.drop (i + s.qualifiers.length)).takeWhile CodePoint.isIdentifierChar = s.name) ∧
    ∀ found, occurrenceAt? readAfter? t i = some found →
      (∃ s : Spelling, StandsIn t ⟨found.toSpan, s⟩ ∧ s.header = found.value) ∧
      ∀ later, occurrenceAt? readAfter? (t.take found.stop ++ later) i = some found := by
  refine ⟨?_, ?_, ?_, ?_⟩
  · rintro s s' ⟨rest, hs⟩ ⟨rest', hs'⟩
    exact (Spelling.text_append_inj (hs.trans hs'.symm)).1
  · intro order
    rw [search_eq_readAfter?]
  · rintro s ⟨rest, hs⟩
    rw [← List.drop_drop, ← hs, s.takeWhile_drop_qualifiers]
  · intro found hfound
    obtain rfl := start_of_occurrenceAt? hfound
    obtain ⟨o, ho, rfl⟩ := occurrenceAt?_eq_some_iff.1 hfound
    refine ⟨⟨o.value, ho, rfl⟩, fun later => ?_⟩
    exact occurrenceAt?_eq_some_iff.2 ⟨o, ho.take_append later, rfl⟩

/-- A header in which `function` is the name and not a word that qualifies one. -/
def functionHeader : Spelling where
  static := some "  "
  async := some "\n"
  function := none
  name := "function"
  beforeParams := " "
  params := "a = \x7b b \x7d"
  beforeBody := []
  gap_static := by rintro _ ⟨⟩; exact ⟨by decide, by decide⟩
  gap_async := by rintro _ ⟨⟩; exact ⟨by decide, by decide⟩
  gap_function := isGap_of_mem_none
  isIdentifier_name := by decide
  blank_beforeParams := isBlank_of_mem_space
  unclosed_params := by decide
  blank_beforeBody := isBlank_of_mem_nil

/-- The text with that header in it. -/
def functionText : Text := "; static  async\nfunction (a = \x7b b \x7d)\x7b \x7d"

/-- Tried in two orders, the words of this header are read in the same way, and so they are with
another text behind the header. -/
theorem one_reading_function :
    (functionHeader.text <+: functionText.drop 2 ∧
      (∀ s : Spelling, s.text <+: functionText.drop 2 → s = functionHeader) ∧
      (functionText.drop (2 + functionHeader.qualifiers.length)).takeWhile
        CodePoint.isIdentifierChar = "function") ∧
    ∃ found, (found.toSpan = ⟨2, 37⟩ ∧ found.value = functionHeader.header) ∧
      occurrenceAt? readAfter? functionText 2 = some found ∧
      occurrenceAt? (search .longestFirst) functionText 2 = some found ∧
      occurrenceAt? (search .shortestFirst) functionText 2 = some found ∧
      occurrenceAt? readAfter? (functionText.take 37 ++ "() \x7b") 2 = some found := by
  obtain ⟨hunique, hsearch, hname, hfound⟩ := one_reading functionText 2
  have hspelled : functionHeader.text <+: functionText.drop 2 := by decide
  have hstands : StandsIn functionText ⟨⟨2, 37⟩, functionHeader⟩ := ⟨by decide, hspelled, by decide⟩
  have hread : occurrenceAt? readAfter? functionText 2 = some ⟨⟨2, 37⟩, functionHeader.header⟩ :=
    occurrenceAt?_eq_some_iff.2 ⟨_, hstands, rfl⟩
  refine ⟨⟨hspelled, fun s hs => hunique s _ hs hspelled, hname _ hspelled⟩,
    _, ⟨rfl, rfl⟩, hread, ?_, ?_, (hfound _ hread).2 _⟩
  · rw [hsearch, hread]
  · rw [hsearch, hread]

end Header

end DeclSync
