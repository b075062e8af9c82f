import DeclSync.Proofs.DocumentedMethods
import DeclSync.Proofs.ExtractedMethods
import DeclSync.Proofs.HeaderLines
import DeclSync.Proofs.Lines

/-!
# Bundles in plain style

A bundle in plain style is one method after another: a comment with a summary of one line, the
header on a line of its own, lines in which nothing opens, and a closing bracket. The methods that
are found in such a bundle are those that it was written from. The lines that are no headers are
passed over, or nothing that opens a body stands in the window below them.

## Main definitions

- `PlainMethod` — a method that can be written in plain style
- `PlainMethod.bundle` — methods written in plain style

`PlainMethod.methods_bundle` says that the methods are found again, and no others.
-/

namespace DeclSync

namespace Text

theorem isOneLine_of_isIdentifier {name : Text} (h : name.isIdentifier = true) :
    name.IsOneLine := by
  intro c hc
  constructor
  · rintro rfl
    exact notMem_of_isIdentifier h (by decide) hc
  · rintro rfl
    exact notMem_of_isIdentifier h (by decide) hc

end Text

namespace Bare

open Text

/-! ## Lines on which no header begins -/

theorem headers_of_isPassedOver {line : Text} (h : isPassedOver line = true)
    (below : List Text) : headers (line :: below) = headers below := by
  rw [headers, if_pos h, List.nil_append]

theorem headers_of_openedOn_eq_nil {line : Text} {below : List Text}
    (h : openedOn line below = []) : headers (line :: below) = headers below := by
  rw [headers, h, ite_self, List.nil_append]

/-- No header begins on a line if nothing opens in its window. -/
theorem openedOn_eq_nil_of_notMem {line : Text} {below : List Text}
    (h : ∀ l ∈ line :: below.take (maxHeaderLines - 1), .scalar '\x7b' ∉ l) :
    openedOn line below = [] := by
  rw [openedOn, List.map_eq_nil_iff]
  refine List.eq_nil_iff_forall_not_mem.2 fun o ho => ?_
  obtain ⟨s, rest, -, hs⟩ :=
    Header.exists_spelling_of_mem_occurrences ((List.takeWhile_sublist _).mem ho)
  have hbrace := hs.mem (List.mem_append_left rest s.brace_mem_text)
  rcases mem_intercalate hbrace with hbreak | ⟨l, hl, hmem⟩
  · exact absurd hbreak (by decide)
  · exact h l hl hmem

/-- No header begins on a line of one code point with which no identifier begins. -/
theorem openedOn_singleton {c : CodePoint} (hc : c.isIdentifierStart = false)
    (below : List Text) : openedOn [c] below = [] := by
  rw [openedOn, intercalate_cons_head, List.map_eq_nil_iff]
  refine List.eq_nil_iff_forall_not_mem.2 fun o ho => ?_
  have hstart := List.mem_takeWhile_imp ho
  have hmem := (List.takeWhile_sublist _).mem ho
  have hnone : ∀ t, Header.readAfter? none (c :: t) = none := fun t => Header.read?_eq_none hc
  rw [Header.occurrences, DeclSync.occurrences, occurrencesFrom_of_none (hnone _)] at hmem
  have hlater := le_start_of_mem_occurrencesFrom hmem
  rw [decide_eq_true_eq, List.length_singleton] at hstart
  omega

/-- On a line that is a header, no other header begins. -/
theorem eq_of_mem_openedOn {s : Header.Spelling} {below : List Text} {h : Header}
    (hmem : h ∈ openedOn s.text below) : h = s.header := by
  obtain ⟨o, ho, rfl⟩ := List.mem_map.1 hmem
  have hstart := List.mem_takeWhile_imp ho
  have hfound := (List.takeWhile_sublist _).mem ho
  obtain ⟨rest, hrest⟩ :=
    exists_intercalate_cons "\n" s.text (below.take (maxHeaderLines - 1))
  have hfirst := Header.occurrences_gap_append isBlank_of_mem_nil s rest
  rw [List.nil_append] at hfirst
  rw [hrest, hfirst] at hfound
  rcases List.mem_cons.1 hfound with rfl | hlater
  · rfl
  · -- what is found later does not begin on the line any more
    have hle := le_start_of_mem_occurrencesFrom hlater
    rw [decide_eq_true_eq] at hstart
    rw [List.length_nil, Nat.zero_add] at hle
    omega

end Bare

/-- A method that can be written in plain style: the words in front of its name, the name, the
parameter list, the summary, and the lines of its body. -/
structure PlainMethod where
  isStatic : Bool
  isAsync : Bool
  isFunction : Bool
  name : Text
  params : Text
  summary : Text
  body : List Text
  isIdentifier_name : name.isIdentifier = true
  isPublicName_name : name.isPublicName = true
  trim_params : params.trim = params
  unclosed_params : .scalar ')' ∉ params
  isOneLine_params : params.IsOneLine
  trim_summary : summary.trim = summary
  ne_nil_summary : summary ≠ []
  untagged_summary : summary.head? ≠ some (.scalar '@')
  unclosed_summary : ¬ ("*/" : Text) <:+: summary
  isOneLine_summary : summary.IsOneLine
  isOneLine_body : ∀ line ∈ body, line.IsOneLine
  unopened_body : ∀ line ∈ body, .scalar '\x7b' ∉ line
  uncommented_body : ∀ line ∈ body, ¬ ("/**" : Text) <:+: line

namespace PlainMethod

open Text

/-- A word with a space after it, if it is there. -/
def wordIf (present : Bool) (word : Text) : Text := if present then word ++ " " else []

/-- The header of a method. -/
def header (p : PlainMethod) : Text :=
  wordIf p.isStatic "static" ++ (wordIf p.isAsync "async" ++ (wordIf p.isFunction "function" ++
    (p.name ++ ("(" ++ (p.params ++ ") \x7b")))))

/-- The lines of a method. -/
def lines (p : PlainMethod) : List Text :=
  "/**" :: (" * " ++ p.summary) :: " */" :: p.header :: (p.body ++ [ofString "\x7d"])

/-- Methods written one after another. -/
def bundle (ps : List PlainMethod) : Text := ofLines (ps.flatMap lines)

/-- The comment of a method. -/
def comment (p : PlainMethod) : Text := "/**\n * " ++ p.summary ++ "\n */"

/-- What a method should be found as. -/
def method (p : PlainMethod) : Method where
  name := p.name
  params := p.params
  isAsync := p.isAsync
  description := p.summary.literalBody
  comment := some p.comment

variable {p : PlainMethod} {ps : List PlainMethod}

/-! ## The header -/

/-- The space after a word, if that is there. -/
def spaceIf (present : Bool) : Option Text := if present then some " " else none

theorem isGap_spaceIf (present : Bool) : ∀ gap ∈ spaceIf present, Header.IsGap gap := by
  cases present with
  | false => simp [spaceIf]
  | true =>
    rintro _ ⟨⟩
    exact ⟨by decide, isBlank_of_mem_space⟩

theorem qualifier_spaceIf (word : Text) (present : Bool) :
    Header.qualifier word (spaceIf present) = wordIf present word := by
  cases present <;> rfl

/-- The header of a method, in its parts. -/
def spelling (p : PlainMethod) : Header.Spelling where
  static := spaceIf p.isStatic
  async := spaceIf p.isAsync
  function := spaceIf p.isFunction
  name := p.name
  beforeParams := []
  params := p.params
  beforeBody := " "
  gap_static := isGap_spaceIf p.isStatic
  gap_async := isGap_spaceIf p.isAsync
  gap_function := isGap_spaceIf p.isFunction
  isIdentifier_name := p.isIdentifier_name
  blank_beforeParams := isBlank_of_mem_nil
  unclosed_params := p.unclosed_params
  blank_beforeBody := isBlank_of_mem_space

theorem text_spelling (p : PlainMethod) : p.spelling.text = p.header := by
  simp only [Header.Spelling.text, spelling, qualifier_spaceIf]
  rfl

theorem header_spelling (p : PlainMethod) : p.spelling.header = ⟨p.isAsync, p.name, p.params⟩ := by
  have hasync : (spaceIf p.isAsync).isSome = p.isAsync := by cases p.isAsync <;> rfl
  simp only [Header.Spelling.header, spelling, hasync]

/-! ## The lines -/

theorem isOneLine_wordIf {word : Text} (h : word.IsOneLine) (present : Bool) :
    (wordIf present word).IsOneLine := by
  cases present with
  | false => exact fun _ hc => absurd hc List.not_mem_nil
  | true => exact h.append (by decide)

theorem isOneLine_header (p : PlainMethod) : p.header.IsOneLine := by
  have hlist : IsOneLine ("(" ++ (p.params ++ ") \x7b")) :=
    IsOneLine.append (by decide) (p.isOneLine_params.append (by decide))
  have hnamed := (isOneLine_of_isIdentifier p.isIdentifier_name).append hlist
  exact (isOneLine_wordIf (by decide) _).append ((isOneLine_wordIf (by decide) _).append
    ((isOneLine_wordIf (by decide) _).append hnamed))

theorem isOneLine_decorated (p : PlainMethod) : IsOneLine (" * " ++ p.summary) :=
  IsOneLine.append (by decide) p.isOneLine_summary

theorem isOneLine_of_mem_lines {line : Text} (h : line ∈ p.lines) : line.IsOneLine := by
  simp only [lines, List.mem_append, List.mem_cons, List.not_mem_nil, or_false] at h
  rcases h with rfl | rfl | rfl | rfl | hbody | rfl
  · decide
  · exact p.isOneLine_decorated
  · decide
  · exact p.isOneLine_header
  · exact p.isOneLine_body line hbody
  · decide

theorem isOneLine_of_mem_flatMap_lines {line : Text} (h : line ∈ ps.flatMap lines) :
    line.IsOneLine := by
  obtain ⟨p, -, hline⟩ := List.mem_flatMap.1 h
  exact isOneLine_of_mem_lines hline

theorem cr_notMem_bundle (ps : List PlainMethod) : .scalar '\r' ∉ bundle ps := by
  intro hmem
  obtain ⟨line, hline, hc⟩ := List.mem_flatMap.1 hmem
  rcases List.mem_append.1 hc with hc | hc
  · exact (isOneLine_of_mem_flatMap_lines hline).cr_notMem hc
  · exact absurd hc (by decide)

theorem lines_bundle (ps : List PlainMethod) :
    (bundle ps).unifyLineEndings.lines = ps.flatMap lines ++ [[]] := by
  rw [unifyLineEndings_of_cr_notMem (cr_notMem_bundle ps)]
  have hlf : ∀ line ∈ ps.flatMap lines, .scalar '\n' ∉ line :=
    fun line hline => (isOneLine_of_mem_flatMap_lines hline).lf_notMem
  have hlines := lines_ofLines_append hlf []
  rw [List.append_nil] at hlines
  exact hlines

/-! ## The comment -/

/-- The comment of a method between its marks. -/
def inside (p : PlainMethod) : Text := "\n * " ++ (p.summary ++ "\n ")

theorem comment_eq (p : PlainMethod) : p.comment = "/**" ++ p.inside ++ "*/" := by
  simp only [comment, inside, List.append_assoc]
  rfl

theorem inside_eq_ofLines (p : PlainMethod) :
    p.inside = ofLines [[], " * " ++ p.summary] ++ " " := by
  simp only [inside, ofLines_cons, List.append_assoc]
  rfl

theorem beginsWithout_reverse_summary (p : PlainMethod) (t : Text) :
    BeginsWithout CodePoint.isBlank (p.summary.reverse ++ t) :=
  (trim_eq_self_iff.1 p.trim_summary).2.append_of_ne_nil (by simpa using p.ne_nil_summary) t

theorem trim_decorated (p : PlainMethod) : trim (" * " ++ p.summary) = "* " ++ p.summary := by
  have hstart : trimStart (" * " ++ p.summary) = "* " ++ p.summary :=
    dropWhile_append_of_beginsWithout (u := " ") (by decide)
      (beginsWithout_cons (c := .scalar '*') (by decide) _)
  rw [trim, hstart, trimEnd_eq_self]
  rw [List.reverse_append]
  exact p.beginsWithout_reverse_summary _

theorem undecorated_summary (p : PlainMethod) : undecorated (" * " ++ p.summary) = p.summary := by
  have hstar : ("* " ++ p.summary : Text).dropWhile (· = .scalar '*') = " " ++ p.summary := rfl
  have hspace : trimStart (" " ++ p.summary) = p.summary :=
    dropWhile_append_of_beginsWithout (by decide) (trim_eq_self_iff.1 p.trim_summary).1
  rw [undecorated, trim_decorated, hstar, trim, hspace,
    trimEnd_eq_self (trim_eq_self_iff.1 p.trim_summary).2]

theorem isProse_summary (p : PlainMethod) : p.summary.isProse = true := by
  obtain ⟨c, t, hcons⟩ := List.exists_cons_of_ne_nil p.ne_nil_summary
  have hne : c ≠ .scalar '@' := by
    rintro rfl
    exact p.untagged_summary (by rw [hcons]; rfl)
  have hafter : after? "@" (c :: t) = none := if_neg hne
  rw [isProse, hcons, beginsWith, hafter]
  rfl

theorem commentBody_comment (p : PlainMethod) : p.comment.commentBody = p.inside := by
  rw [comment_eq, List.append_assoc, commentBody_between]

/-- The summary of the comment is the one that it was written from. -/
theorem commentSummary?_comment (p : PlainMethod) :
    p.comment.commentSummary? = some p.summary.literalBody := by
  have hcr : .scalar '\r' ∉ p.inside := by
    rw [inside, List.mem_append, List.mem_append, not_or, not_or]
    exact ⟨by decide, p.isOneLine_summary.cr_notMem, by decide⟩
  have hlines : p.inside.lines = [[], ofString " * " ++ p.summary, " "] := by
    rw [inside_eq_ofLines, lines_ofLines_append]
    · rfl
    · simpa using p.isOneLine_decorated.lf_notMem
  have hempty : isProse (undecorated []) = false := by decide
  rw [commentSummary?, commentBody_comment, unifyLineEndings_of_cr_notMem hcr, hlines,
    List.map_cons, List.find?_cons_of_neg (by rw [hempty]; decide), List.map_cons,
    undecorated_summary, List.find?_cons_of_pos p.isProse_summary]
  rfl

theorem unclosed_decorated (p : PlainMethod) : ¬ ("*/" : Text) <:+: " * " ++ p.summary := by
  intro hinfix
  rcases List.infix_cons_iff.1 hinfix with hmark | hinfix
  · exact absurd (List.cons_prefix_cons.1 hmark).1 (by decide)
  rcases List.infix_cons_iff.1 hinfix with hmark | hinfix
  · -- the star in front of the summary is followed by a blank
    exact absurd (List.cons_prefix_cons.1 (List.cons_prefix_cons.1 hmark).2).1 (by decide)
  rcases List.infix_cons_iff.1 hinfix with hmark | hinfix
  · exact absurd (List.cons_prefix_cons.1 hmark).1 (by decide)
  · exact p.unclosed_summary hinfix

/-- The comment does not close before its end. -/
theorem not_prefix_inside (p : PlainMethod) (rest : Text) :
    ∀ k < p.inside.length, ¬ ("*/" : Text) <+: (p.inside ++ ("*/" ++ rest)).drop k := by
  intro k hk hmark
  rw [inside_eq_ofLines, List.append_assoc] at hmark
  by_cases hlines : k < (ofLines [[], " * " ++ p.summary]).length
  · obtain ⟨line, hline, hinfix⟩ := exists_infix_of_prefix_drop (by decide) hlines hmark
    simp only [List.mem_cons, List.not_mem_nil, or_false] at hline
    rcases hline with rfl | rfl
    · exact absurd (List.infix_nil.1 hinfix) (by decide)
    · exact p.unclosed_decorated hinfix
  · have hlast : k = (ofLines [[], " * " ++ p.summary]).length := by
      rw [inside_eq_ofLines, List.length_append, show (ofString " ").length = 1 from rfl] at hk
      omega
    rw [hlast, List.drop_left] at hmark
    exact absurd (List.cons_prefix_cons.1 hmark).1 (by decide)

/-! ## The documented methods -/

/-- What stands behind the header of a method. -/
def behindHeader (p : PlainMethod) : Text := ofLines ([] :: (p.body ++ [ofString "\x7d"]))

theorem ofLines_lines (p : PlainMethod) :
    ofLines p.lines = Documented.spelled p.inside "\n" p.spelling [] ++ p.behindHeader := by
  simp only [lines, Documented.spelled, inside_eq_ofLines, behindHeader, ofLines_cons,
    text_spelling, List.append_assoc]
  rfl

/-- Behind the header of a method, no comment begins before the next method. -/
theorem read?_behindHeader (p : PlainMethod) (rest : Text) :
    ∀ k < p.behindHeader.length, Documented.read? ((p.behindHeader ++ rest).drop k) = none := by
  intro k hk
  refine Documented.read?_eq_none fun hmark => ?_
  obtain ⟨line, hline, hinfix⟩ := exists_infix_of_prefix_drop (by decide) hk hmark
  simp only [List.mem_cons, List.mem_append, List.not_mem_nil, or_false] at hline
  rcases hline with rfl | hbody | rfl
  · exact absurd (List.infix_nil.1 hinfix) (by decide)
  · exact p.uncommented_body line hbody hinfix
  · exact absurd hinfix (by decide)

/-- The comment and the header of a method are read as one. -/
theorem read?_spelled (p : PlainMethod) (rest : Text) :
    Documented.read? (Documented.spelled p.inside "\n" p.spelling [] ++ rest) =
      some (⟨p.comment, p.spelling.header⟩, rest) := by
  rw [Documented.spelled_append, comment_eq]
  refine Documented.read?_eq_some_iff.2 ⟨p.inside, "\n", p.spelling, rfl, fun k hk => ?_,
    by decide, rfl⟩
  rw [Documented.spelled, Documented.drop_opening]
  exact p.not_prefix_inside _ k hk

/-- The scan finds each method in its turn. -/
theorem map_value_occurrencesFrom (ps : List PlainMethod) (behind : Option CodePoint)
    (offset : Nat) :
    (occurrencesFrom (fun _ => Documented.read?) behind offset 0 (bundle ps)).map (·.value) =
      ps.map fun p => ⟨p.comment, p.spelling.header⟩ := by
  induction ps generalizing behind offset with
  | nil => rfl
  | cons p ps ih =>
    have hbundle : bundle (p :: ps) = Documented.spelled p.inside "\n" p.spelling [] ++
        (p.behindHeader ++ bundle ps) := by
      rw [bundle, List.flatMap_cons, ofLines_append, ofLines_lines, List.append_assoc, bundle]
    have hne : Documented.spelled p.inside "\n" p.spelling [] ≠ [] := List.cons_ne_nil _ _
    rw [hbundle, occurrencesFrom_of_some hne (p.read?_spelled _),
      occurrencesFrom_append fun k hk _ => p.read?_behindHeader (bundle ps) k hk, List.map_cons, ih,
      List.map_cons]

theorem method_documented (apiName : Text) (p : PlainMethod) :
    Documented.method apiName ⟨p.comment, p.spelling.header⟩ = p.method := by
  have hdescription : Method.descriptionOf p.name p.comment.commentSummary? apiName =
      p.summary.literalBody := by
    rw [Method.descriptionOf_eq_getD, commentSummary?_comment, Option.getD_some]
  simp only [Documented.method, header_spelling, p.trim_params, hdescription, method]

theorem documented_methods_bundle (apiName : Text) (ps : List PlainMethod) :
    Documented.methods apiName (bundle ps) = ps.map method := by
  have hvalues := map_value_occurrencesFrom ps none 0
  have hmap := congrArg (List.map (Documented.method apiName)) hvalues
  rw [List.map_map, List.map_map] at hmap
  rw [Documented.methods, unifyLineEndings_of_cr_notMem (cr_notMem_bundle ps)]
  exact hmap.trans (List.map_congr_left fun p _ => method_documented apiName p)

/-! ## The bare methods -/

theorem isPassedOver_decorated (p : PlainMethod) :
    Bare.isPassedOver (" * " ++ p.summary) = true := by
  have hstar : (Bare.commentMarks.any fun mark =>
      beginsWith ("* " ++ p.summary) (ofString mark)) = true :=
    List.any_eq_true.2 ⟨"*", by decide, rfl⟩
  simp only [Bare.isPassedOver, trim_decorated, hstar, Bool.or_true, Bool.true_or]

/-- The first two lines from a body on reach no further than the line after the closing one. -/
theorem mem_of_mem_take {body more : List Text} {closing line : Text}
    (h : line ∈ (body ++ closing :: more).take 2) :
    line ∈ body ∨ line = closing ∨ line ∈ more.head? := by
  cases body with
  | nil =>
    cases more with
    | nil => simpa using h
    | cons next more => simpa [eq_comm] using h
  | cons first body =>
    cases body with
    | nil =>
      have hline : line = first ∨ line = closing := by simpa using h
      exact hline.imp List.mem_singleton.2 .inl
    | cons second body =>
      have hline : line = first ∨ line = second := by simpa using h
      exact .inl (List.mem_of_mem_take (i := 2) (by simpa using hline))

/-- Nothing is found in a body and on the line that closes it. -/
theorem headers_body {body more : List Text} (hbody : ∀ line ∈ body, .scalar '\x7b' ∉ line)
    (hmore : ∀ line ∈ more.head?, .scalar '\x7b' ∉ line) :
    Bare.headers (body ++ ofString "\x7d" :: more) = Bare.headers more := by
  induction body with
  | nil => exact Bare.headers_of_openedOn_eq_nil (Bare.openedOn_singleton (by decide) more)
  | cons line body ih =>
    rw [List.forall_mem_cons] at hbody
    rw [List.cons_append, Bare.headers_of_openedOn_eq_nil, ih hbody.2]
    refine Bare.openedOn_eq_nil_of_notMem (List.forall_mem_cons.2 ⟨hbody.1, fun l hl => ?_⟩)
    rcases mem_of_mem_take hl with hl | rfl | hl
    · exact hbody.2 l hl
    · decide
    · exact hmore l hl

/-- Every bare header is that of one of the methods. -/
theorem name_of_mem_headers {h : Header} (hh : h ∈ Bare.headers (ps.flatMap lines ++ [[]])) :
    ∃ p ∈ ps, h.name = p.name := by
  induction ps with
  | nil =>
    rw [List.flatMap_nil, List.nil_append, Bare.headers_of_isPassedOver (by decide)] at hh
    exact absurd hh List.not_mem_nil
  | cons p ps ih =>
    have hmore : ∀ line ∈ (ps.flatMap lines ++ [[]]).head?, .scalar '\x7b' ∉ line := by
      cases ps with
      | nil => decide
      | cons q ps =>
        intro line hline
        obtain rfl : ofString "/**" = line := Option.some.inj hline
        decide
    simp only [List.flatMap_cons, lines, List.cons_append, List.append_assoc, List.nil_append] at hh
    rw [Bare.headers_of_isPassedOver (by decide),
      Bare.headers_of_isPassedOver p.isPassedOver_decorated,
      Bare.headers_of_isPassedOver (by decide), Bare.headers, headers_body p.unopened_body hmore,
      List.mem_append] at hh
    rcases hh with hheader | hlater
    · refine ⟨p, List.mem_cons_self, ?_⟩
      split at hheader
      · exact absurd hheader List.not_mem_nil
      · rw [← text_spelling] at hheader
        rw [Bare.eq_of_mem_openedOn hheader, header_spelling]
    · obtain ⟨q, hq, hname⟩ := ih hlater
      exact ⟨q, List.mem_cons_of_mem _ hq, hname⟩

/-- Methods of different names that are written in plain style are found again, all of them in their
order and no others: the scan for documented methods finds them, and the one for bare methods adds
nothing. -/
theorem methods_bundle (apiName : Text) (h : (ps.map PlainMethod.name).Nodup) :
    Documented.methods apiName (bundle ps) = ps.map method ∧
      Method.ofBundle apiName (bundle ps) = ps.map method := by
  have hdocumented := documented_methods_bundle apiName ps
  refine ⟨hdocumented, ?_⟩
  have hnames : (ps.map method).map Method.name = ps.map PlainMethod.name := by
    rw [List.map_map]
    rfl
  rw [Method.ofBundle, hdocumented, Method.combine_eq_left]
  · rwa [hnames]
  · intro m hm
    obtain ⟨p, -, rfl⟩ := List.mem_map.1 hm
    exact p.isPublicName_name
  · intro m hm
    obtain ⟨header, hheader, rfl⟩ := List.mem_map.1 hm
    rw [lines_bundle] at hheader
    obtain ⟨p, hp, hname⟩ := name_of_mem_headers hheader
    rw [hnames]
    exact List.mem_map.2 ⟨p, hp, hname.symm⟩

/-- A method with marks of all kinds in its parameter list and its summary. -/
def markedMethod : PlainMethod where
  isStatic := true
  isAsync := true
  isFunction := false
  name := "run$"
  params := "a = '/**', \x7bb: [c\x7d"
  summary := "/** It's \x7bb\x7d = `c`: run("
  body := ["  foo(", "", "// x"]
  isIdentifier_name := by decide
  isPublicName_name := by decide
  trim_params := by decide
  unclosed_params := by decide
  isOneLine_params := by decide
  trim_summary := by decide +kernel
  ne_nil_summary := by decide
  untagged_summary := by decide
  unclosed_summary := by decide +kernel
  isOneLine_summary := by decide
  isOneLine_body := by decide
  unopened_body := by decide
  uncommented_body := by decide +kernel

/-- A method whose name is one of the words that can qualify a name. -/
def asyncMethod : PlainMethod :=
  { markedMethod with
    isStatic := false
    isFunction := true
    name := "async"
    body := []
    isIdentifier_name := by decide
    isPublicName_name := by decide
    isOneLine_body := by simp
    unopened_body := by simp
    uncommented_body := by simp }

/-- The two methods, as they are written and as they are found. -/
theorem methods_bundle_marked :
    ([markedMethod, asyncMethod].map PlainMethod.name).Nodup ∧
    bundle [markedMethod, asyncMethod] =
      "/**\n * /** It's \x7bb\x7d = `c`: run(\n */\n" ++
      "static async run$(a = '/**', \x7bb: [c\x7d) \x7b\n  foo(\n\n// x\n\x7d\n" ++
      "/**\n * /** It's \x7bb\x7d = `c`: run(\n */\n" ++
      "async function async(a = '/**', \x7bb: [c\x7d) \x7b\n\x7d\n" ∧
    Method.ofBundle standardApiName (bundle [markedMethod, asyncMethod]) =
      [markedMethod.method, asyncMethod.method] := by
  have hnames : ([markedMethod, asyncMethod].map PlainMethod.name).Nodup := by decide
  exact ⟨hnames, by decide +kernel, (methods_bundle standardApiName hnames).2⟩

end PlainMethod

end DeclSync
