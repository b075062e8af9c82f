import DeclSync.Proofs.BareMethods

/-!
# Headers in windows of lines

Bare headers are looked for line by line, each time in a window that begins with the line and ends
with the second one below it. What is found in these windows is what stands in the whole text: the
headers that begin on a line and do not go on behind its window. That the window begins where the
line does makes no difference, since a header does not begin inside a word where a line starts, and
that it ends makes none, since it has an end of its own.

## Main definitions

- `Header.StandsIn` — that a header stands in a text, in one spelling
- `Bare.BeginsOn` — that it begins on a line, and ends on that or on one of the two below

`Bare.methods_eq_scan_lines` says that the bare methods are those of the headers that a scan of the
whole text takes on each line that is not passed over.
-/

namespace DeclSync

namespace Header

open Text

/-! ## The headers of a text -/

/-- A header stands in a text where it is spelled, and not inside a word. -/
structure StandsIn (t : Text) (o : Occurrence Spelling) : Prop where
  apart : ∀ c ∈ (t.take o.start).getLast?, joins c = false
  spelled : o.value.text <+: t.drop o.start
  stops : o.stop = o.start + o.value.text.length

/-- What the reader of headers gives for one that stands in a text. -/
def Spelling.found (o : Occurrence Spelling) : Occurrence Header := ⟨o.toSpan, o.value.header⟩

theorem Spelling.text_ne_nil (s : Spelling) : s.text ≠ [] := by
  intro hnil
  have hbegins := s.beginsIdentifier_text
  rw [hnil] at hbegins
  exact absurd hbegins (by decide)

theorem readAfter?_eq_some_iff {behind : Option CodePoint} {t rest : Text} {h : Header} :
    readAfter? behind t = some (h, rest) ↔
      (∀ c ∈ behind, joins c = false) ∧ ∃ s : Spelling, s.header = h ∧ t = s.text ++ rest := by
  rw [← read?_eq_some_iff, readAfter?]
  cases behind with
  | none => simp
  | some c => cases hc : joins c <;> simp [hc]

theorem readAfter?_advances : Reader.Advances readAfter? := by
  intro behind t h rest hread
  obtain ⟨-, s, -, rfl⟩ := readAfter?_eq_some_iff.1 hread
  exact ⟨s.text, s.text_ne_nil, rfl⟩

/-- At most one header stands at an offset, in one spelling. -/
theorem StandsIn.unique {t : Text} {o other : Occurrence Spelling} (h : StandsIn t o)
    (hother : StandsIn t other) (hstart : o.start = other.start) : o = other := by
  obtain ⟨rest, hrest⟩ := h.spelled
  obtain ⟨rest', hrest'⟩ := hother.spelled
  rw [← hstart, ← hrest] at hrest'
  have hvalue := (Spelling.text_append_inj hrest').1
  have hstop : o.stop = other.stop := by rw [h.stops, hother.stops, hstart, hvalue]
  obtain ⟨⟨start, stop⟩, spelling⟩ := o
  obtain ⟨⟨start', stop'⟩, spelling'⟩ := other
  simp only at hstart hstop hvalue
  rw [hstart, hstop, hvalue]

/-- The reader finds at an offset what stands there. -/
theorem occurrenceAt?_eq_some_iff {t : Text} {d : Occurrence Header} :
    occurrenceAt? readAfter? t d.start = some d ↔ ∃ o, StandsIn t o ∧ Spelling.found o = d := by
  constructor
  · intro h
    have hstart := readAfter?_advances.start_lt h
    obtain ⟨⟨value, rest⟩, hread, hd⟩ := Option.map_eq_some_iff.1 h
    obtain ⟨hapart, s, rfl, hdrop⟩ := readAfter?_eq_some_iff.1 hread
    have hlength := congrArg List.length hdrop
    rw [List.length_drop, List.length_append] at hlength
    have hstop : t.length - rest.length = d.start + s.text.length := by omega
    refine ⟨⟨⟨d.start, d.start + s.text.length⟩, s⟩, ⟨hapart, ⟨rest, hdrop.symm⟩, rfl⟩, ?_⟩
    show (⟨⟨d.start, d.start + s.text.length⟩, s.header⟩ : Occurrence Header) = d
    rw [← hstop]
    exact hd
  · rintro ⟨o, ho, rfl⟩
    obtain ⟨rest, hrest⟩ := ho.spelled
    have hread : readAfter? (t.take o.start).getLast? (t.drop o.start) =
        some (o.value.header, rest) :=
      readAfter?_eq_some_iff.2 ⟨ho.apart, o.value, rfl, hrest.symm⟩
    have hlength := congrArg List.length hrest
    have hpos := List.length_pos_of_ne_nil o.value.text_ne_nil
    rw [List.length_drop, List.length_append] at hlength
    have hstop : t.length - rest.length = o.stop := by
      rw [ho.stops]
      omega
    show occurrenceAt? readAfter? t o.start = some ⟨⟨o.start, o.stop⟩, o.value.header⟩
    rw [occurrenceAt?, hread, ← hstop]
    rfl

/-- The headers that are found in a text are those that a scan takes, from left to right. -/
theorem exists_leftToRight (t : Text) : ∃ found : List (Occurrence Spelling),
    LeftToRight (StandsIn t) 0 found ∧ occurrences t = found.map Spelling.found :=
  (leftToRight_occurrences readAfter?_advances t).exists_map (fun _ => rfl)
    fun _ => occurrenceAt?_eq_some_iff

end Header

namespace Bare

open Text

/-! ## The window of a line -/

/-- A header of the whole text that begins on a line and does not end behind its window. -/
structure BeginsOn (t : Text) (i : Nat) (o : Occurrence Header.Spelling) : Prop
    extends Header.StandsIn t o where
  line_start : t.lineAt o.start = i
  line_stop : t.lineAt o.stop < i + maxHeaderLines

/-- A text cut around the window of one of its lines: what stands before the line, the line, the
rest of its window, and what stands behind that. -/
structure Window where
  before : Text
  line : Text
  rest : Text
  after : Text
  isLineStart_before : before.IsLineStart before.length
  lf_notMem_line : .scalar '\n' ∉ line
  lf_of_head?_rest : ∀ c ∈ rest.head?, c = .scalar '\n'
  lf_of_head?_after : ∀ c ∈ after.head?, c = .scalar '\n'
  count_rest : rest.count (.scalar '\n') < maxHeaderLines
  count_rest_of_ne_nil : after ≠ [] → rest.count (.scalar '\n') + 1 = maxHeaderLines

namespace Window

variable (w : Window)

/-- The text of the window itself. -/
def text : Text := w.line ++ w.rest

/-- The whole text. -/
def whole : Text := w.before ++ (w.text ++ w.after)

/-- The line with which the window begins. -/
def index : Nat := w.before.count (.scalar '\n')

theorem lineAt_whole (k : Nat) :
    w.whole.lineAt (w.before.length + k) = w.index + lineAt (w.text ++ w.after) k :=
  lineAt_append_add _ _ _

theorem lineAt_line {k : Nat} (hk : k ≤ w.line.length) : lineAt (w.text ++ w.after) k = 0 := by
  rw [text, List.append_assoc, lineAt_append_of_le hk]
  exact Nat.le_zero.1 (Nat.le_trans (lineAt_le_count _ _)
    (Nat.le_of_eq (List.count_eq_zero.2 w.lf_notMem_line)))

theorem count_text : w.text.count (.scalar '\n') = w.rest.count (.scalar '\n') := by
  rw [text, List.count_append, List.count_eq_zero.2 w.lf_notMem_line, Nat.zero_add]

theorem lineAt_text {k : Nat} (hk : k ≤ w.text.length) :
    lineAt (w.text ++ w.after) k < maxHeaderLines := by
  rw [lineAt_append_of_le hk]
  exact Nat.lt_of_le_of_lt (lineAt_le_count _ _) (w.count_text ▸ w.count_rest)

/-- Behind the window, other lines have begun. -/
theorem le_lineAt_of_lt {k : Nat} (hk : w.text.length < k) (hend : k ≤ (w.text ++ w.after).length) :
    maxHeaderLines ≤ lineAt (w.text ++ w.after) k := by
  cases hafter : w.after with
  | nil =>
    rw [hafter, List.append_nil] at hend
    omega
  | cons c after =>
    obtain ⟨j, rfl⟩ := Nat.exists_eq_add_of_lt hk
    obtain rfl := w.lf_of_head?_after c (by rw [hafter]; rfl)
    rw [← w.count_rest_of_ne_nil (by rw [hafter]; exact List.cons_ne_nil _ _), Nat.add_assoc,
      lineAt_append_add, w.count_text]
    refine Nat.add_le_add_left ?_ _
    rw [lineAt, List.take_succ_cons, List.count_cons_self]
    exact Nat.le_add_left 1 _

/-- No identifier begins on the line of the window but inside it. -/
theorem lt_of_beginsIdentifier {k : Nat} (hline : lineAt (w.text ++ w.after) k = 0)
    (hbegins : beginsIdentifier ((w.text ++ w.after).drop k) = true) : k < w.line.length := by
  by_contra hle
  obtain ⟨j, rfl⟩ := Nat.exists_eq_add_of_le (Nat.le_of_not_lt hle)
  rw [text, List.append_assoc] at hline hbegins
  rw [lineAt_append_add] at hline
  rw [List.drop_length_add_append] at hbegins
  cases hrest : w.rest ++ w.after with
  | nil =>
    rw [hrest, List.drop_nil] at hbegins
    exact absurd hbegins (by decide)
  | cons c later =>
    -- the line ends with an LF, and no identifier begins there
    have hlf : c = .scalar '\n' := by
      have hhead : c ∈ (w.rest ++ w.after).head? := by rw [hrest]; rfl
      rw [List.head?_append, Option.mem_def, Option.or_eq_some_iff] at hhead
      exact hhead.elim (w.lf_of_head?_rest c) fun h => w.lf_of_head?_after c h.2
    rw [hrest, hlf] at hline hbegins
    cases j with
    | zero => exact absurd hbegins Bool.false_ne_true
    | succ j =>
      rw [lineAt, List.take_succ_cons, List.count_cons_self] at hline
      omega

theorem joins_getLast?_before : ∀ c ∈ w.before.getLast?, Header.joins c = false := by
  intro c hc
  obtain hnil | ⟨init, hinit⟩ := isLineStart_length_iff.1 w.isLineStart_before
  · rw [hnil] at hc
    exact absurd hc (by simp)
  · rw [hinit, List.getLast?_append] at hc
    obtain rfl : .scalar '\n' = c := by simpa [ofString] using hc
    decide

/-- The code point in front of the window does not join what begins with it. -/
theorem apart_iff {k : Nat} (hk : k ≤ w.text.length) :
    (∀ c ∈ (w.whole.take (w.before.length + k)).getLast?, Header.joins c = false) ↔
      ∀ c ∈ (w.text.take k).getLast?, Header.joins c = false := by
  rw [whole, List.take_length_add_append, List.take_append_of_le_length hk, List.getLast?_append]
  cases (w.text.take k).getLast? with
  | none =>
    rw [Option.none_or]
    exact iff_of_true w.joins_getLast?_before (by simp)
  | some c => rw [Option.some_or]

theorem prefix_iff {mark : Text} {k : Nat} (hk : k + mark.length ≤ w.text.length) :
    mark <+: w.whole.drop (w.before.length + k) ↔ mark <+: w.text.drop k := by
  rw [whole, List.drop_length_add_append]
  exact prefix_drop_append_iff hk

/-- What stands in the window stands there in the whole text. -/
theorem standsIn_shift_iff {r : Occurrence Header.Spelling}
    (hfits : r.start + r.value.text.length ≤ w.text.length) :
    Header.StandsIn w.whole (r.shift w.before.length) ↔ Header.StandsIn w.text r := by
  have hstart : r.start ≤ w.text.length := Nat.le_trans (Nat.le_add_right _ _) hfits
  constructor
  · intro h
    refine ⟨(w.apart_iff hstart).1 h.apart, (w.prefix_iff hfits).1 h.spelled, ?_⟩
    have hstops : w.before.length + r.stop = w.before.length + r.start + r.value.text.length :=
      h.stops
    omega
  · intro h
    refine ⟨(w.apart_iff hstart).2 h.apart, (w.prefix_iff hfits).2 h.spelled, ?_⟩
    show w.before.length + r.stop = w.before.length + r.start + r.value.text.length
    rw [h.stops, Nat.add_assoc]

/-- What begins on the line of the window does not begin before it. -/
theorem length_before_le {start : Nat} (hline : w.whole.lineAt start = w.index) :
    w.before.length ≤ start := by
  by_contra hlt
  have hearlier := lineAt_lt_count w.isLineStart_before (Nat.lt_of_not_le hlt)
  rw [whole, lineAt_append_of_le (Nat.le_of_not_le hlt)] at hline
  exact absurd hline (Nat.ne_of_lt hearlier)

/-- A header that begins on the line of the window and does not end behind it stands in it. -/
theorem exists_shift_of_beginsOn {o : Occurrence Header.Spelling}
    (h : BeginsOn w.whole w.index o) :
    ∃ r, (Header.StandsIn w.text r ∧ r.start < w.line.length) ∧ r.shift w.before.length = o := by
  obtain ⟨k, hk⟩ := Nat.exists_eq_add_of_le (w.length_before_le h.line_start)
  have hline := h.line_start
  have hends := h.line_stop
  have hstop := h.stops
  obtain ⟨later, hlater⟩ := h.spelled
  rw [hk, lineAt_whole] at hline
  rw [hk, Nat.add_assoc] at hstop
  rw [hstop, lineAt_whole] at hends
  rw [hk, whole, List.drop_length_add_append] at hlater
  have hstart : k < w.line.length := by
    refine w.lt_of_beginsIdentifier (by omega) ?_
    rw [← hlater]
    exact o.value.beginsIdentifier_text_append later
  have hfits : k + o.value.text.length ≤ w.text.length := by
    by_contra hlt
    have hlength := congrArg List.length hlater
    have hpos := List.length_pos_of_ne_nil o.value.text_ne_nil
    rw [List.length_append, List.length_drop] at hlength
    have hbehind := w.le_lineAt_of_lt (Nat.lt_of_not_le hlt) (by omega)
    omega
  let r : Occurrence Header.Spelling := ⟨⟨k, k + o.value.text.length⟩, o.value⟩
  have hshift : r.shift w.before.length = o := by
    show (⟨⟨w.before.length + k, w.before.length + (k + o.value.text.length)⟩, o.value⟩ :
      Occurrence Header.Spelling) = o
    rw [← hstop, ← hk]
  refine ⟨r, ⟨(w.standsIn_shift_iff hfits).1 ?_, hstart⟩, hshift⟩
  rw [hshift]
  exact h.toStandsIn

theorem beginsOn_iff {o : Occurrence Header.Spelling} : BeginsOn w.whole w.index o ↔
    ∃ r, (Header.StandsIn w.text r ∧ r.start < w.line.length) ∧ r.shift w.before.length = o := by
  refine ⟨w.exists_shift_of_beginsOn, ?_⟩
  rintro ⟨r, ⟨hstands, hstart⟩, rfl⟩
  have hfits := hstands.spelled.length_le
  have hline : w.line.length ≤ w.text.length := by
    rw [text, List.length_append]
    exact Nat.le_add_right _ _
  rw [List.length_drop] at hfits
  refine ⟨(w.standsIn_shift_iff (by omega)).2 hstands, ?_, ?_⟩
  · show w.whole.lineAt (w.before.length + r.start) = w.index
    rw [lineAt_whole, w.lineAt_line (Nat.le_of_lt hstart), Nat.add_zero]
  · show w.whole.lineAt (w.before.length + r.stop) < w.index + maxHeaderLines
    rw [lineAt_whole, hstands.stops]
    exact Nat.add_lt_add_left (w.lineAt_text (by omega)) _

/-- What is found in a window is what a scan of the whole text finds on its line. -/
theorem exists_leftToRight (below : List Text)
    (htext : List.intercalate "\n" (w.line :: below.take (maxHeaderLines - 1)) = w.text) :
    ∃ found : List (Occurrence Header.Spelling),
      LeftToRight (BeginsOn w.whole w.index) 0 found ∧
      openedOn w.line below = found.map fun o => o.value.header := by
  obtain ⟨found, hfound, hheaders⟩ := Header.exists_leftToRight w.text
  have hline : LeftToRight (BeginsOn w.whole w.index) (w.before.length + 0) _ :=
    (hfound.takeWhile w.line.length).shift fun _ => w.beginsOn_iff
  refine ⟨_, hline.of_le (Nat.zero_le _) ?_, ?_⟩
  · intro o ho
    obtain ⟨r, -, rfl⟩ := w.beginsOn_iff.1 ho
    exact Nat.add_le_add_left (Nat.zero_le _) _
  · rw [openedOn, htext, hheaders, List.takeWhile_map, List.map_map, List.map_map]
    rfl

section Lines

variable {line : Text} {below : List Text} (hlf : ∀ l ∈ line :: below, .scalar '\n' ∉ l)

include hlf in
theorem count_below : (ofLinesBelow (below.take (maxHeaderLines - 1))).count (.scalar '\n') =
    min (maxHeaderLines - 1) below.length := by
  rw [count_ofLinesBelow, List.length_take]
  exact fun l hl => hlf l (List.mem_cons_of_mem _ (List.mem_of_mem_take hl))

/-- The window of a line between the lines above and below it. -/
def ofLines (above : List Text) : Window where
  before := Text.ofLines above
  line := line
  rest := ofLinesBelow (below.take (maxHeaderLines - 1))
  after := ofLinesBelow (below.drop (maxHeaderLines - 1))
  isLineStart_before := isLineStart_ofLines above
  lf_notMem_line := hlf line List.mem_cons_self
  lf_of_head?_rest := lf_of_head?_ofLinesBelow _
  lf_of_head?_after := lf_of_head?_ofLinesBelow _
  count_rest := by
    rw [count_below hlf]
    exact Nat.lt_of_le_of_lt (Nat.min_le_left _ _) (by decide)
  count_rest_of_ne_nil := by
    intro hne
    have hmore : maxHeaderLines - 1 ≤ below.length := by
      by_contra hfew
      apply hne
      rw [List.drop_eq_nil_of_le (Nat.le_of_not_le hfew)]
      rfl
    rw [count_below hlf, Nat.min_eq_left hmore]
    rfl

theorem text_ofLines (above : List Text) : (ofLines hlf above).text =
    List.intercalate "\n" (line :: below.take (maxHeaderLines - 1)) :=
  (intercalate_lf_cons _ _).symm

theorem whole_ofLines (above : List Text) : (ofLines hlf above).whole =
    List.intercalate "\n" (above ++ line :: below) := by
  rw [intercalate_lf_append _ (List.cons_ne_nil _ _), intercalate_lf_cons, whole, text, ofLines,
    List.append_assoc, ← ofLinesBelow_append, List.take_append_drop]

theorem index_ofLines {above : List Text} (habove : ∀ l ∈ above, .scalar '\n' ∉ l) :
    (ofLines hlf above).index = above.length :=
  count_ofLines habove

end Lines

/-- Every line of a text has its window. -/
theorem exists_of_drop_lines {t line : Text} {i : Nat} {below : List Text}
    (h : t.lines.drop i = line :: below) : ∃ w : Window, w.whole = t ∧ w.index = i ∧
      w.line = line ∧
      List.intercalate "\n" (line :: below.take (maxHeaderLines - 1)) = w.text := by
  have hlines := List.take_append_drop i t.lines
  rw [h] at hlines
  have hlf : ∀ l ∈ t.lines.take i ++ line :: below, .scalar '\n' ∉ l := by
    rw [hlines]
    exact fun l hl => lf_notMem_of_mem_lines hl
  rw [List.forall_mem_append] at hlf
  have hle : i ≤ t.lines.length := by
    by_contra hlt
    rw [List.drop_eq_nil_of_le (Nat.le_of_not_le hlt)] at h
    exact absurd h (by simp)
  refine ⟨ofLines hlf.2 (t.lines.take i), ?_, ?_, rfl, (text_ofLines hlf.2 _).symm⟩
  · rw [whole_ofLines, hlines, intercalate_lines]
  · rw [index_ofLines hlf.2 hlf.1, List.length_take, Nat.min_eq_left hle]

end Window

/-! ## The bare methods -/

/-- The headers of a line that is not passed over are those that a scan of the whole text finds on
it. -/
theorem exists_headersOn (t : Text) (i : Nat) : ∃ found : List (Occurrence Header.Spelling),
    ∀ line, t.lines[i]? = some line → LeftToRight (BeginsOn t i) 0 found ∧
      headersOn t.lines i =
        if isPassedOver line then [] else found.map fun o => o.value.header := by
  cases hline : t.lines[i]? with
  | none => exact ⟨[], nofun⟩
  | some line =>
    obtain ⟨hlt, hget⟩ := List.getElem?_eq_some_iff.1 hline
    have hlines : t.lines.drop i = line :: t.lines.drop (i + 1) := by
      rw [List.drop_eq_getElem_cons hlt, hget]
    rw [headersOn, hlines]
    obtain ⟨w, rfl, rfl, rfl, htext⟩ := Window.exists_of_drop_lines hlines
    obtain ⟨found, hfound, hheaders⟩ := w.exists_leftToRight _ htext
    refine ⟨found, fun line hsome => ?_⟩
    obtain rfl := Option.some.inj hsome
    exact ⟨hfound, by rw [← hheaders]⟩

/-- The bare methods of a bundle are found line by line: on each line that is not passed over, those
of the headers of the whole text that begin there and end on that line or on one of the two below,
as a scan takes them from left to right and without overlap. -/
theorem methods_eq_scan_lines (apiName bundle : Text) :
    ∃ found : Nat → List (Occurrence Header.Spelling),
      (∀ i < bundle.unifyLineEndings.lines.length,
        LeftToRight (BeginsOn bundle.unifyLineEndings i) 0 (found i) ∧
        ∀ others, LeftToRight (BeginsOn bundle.unifyLineEndings i) 0 others → others = found i) ∧
      methods apiName bundle = bundle.unifyLineEndings.lines.zipIdx.flatMap fun (line, i) =>
        if isPassedOver line then [] else (found i).map fun o => method apiName o.value.header := by
  choose found hfound using exists_headersOn bundle.unifyLineEndings
  refine ⟨found, fun i hi => ?_, ?_⟩
  · have hline := (hfound i _ (List.getElem?_eq_getElem hi)).1
    exact ⟨hline, fun others hothers =>
      hothers.unique (fun _ _ h hother => h.toStandsIn.unique hother.toStandsIn) hline⟩
  · have hrange : List.range bundle.unifyLineEndings.lines.length =
        bundle.unifyLineEndings.lines.zipIdx.map Prod.snd := by
      rw [List.zipIdx_map_snd, List.range_eq_range']
    rw [methods_eq_flatMap, hrange, List.flatMap_map]
    refine List.flatMap_congr fun ⟨line, i⟩ hmem => ?_
    have hline := (hfound i line (List.mem_zipIdx_iff_getElem?.1 hmem)).2
    rw [methodsOn, hline, apply_ite (List.map (method apiName)), List.map_nil, List.map_map]
    rfl

end Bare

end DeclSync
