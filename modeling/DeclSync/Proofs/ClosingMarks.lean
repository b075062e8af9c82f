import DeclSync.Proofs.Balance
import DeclSync.Proofs.LineBreaks
import DeclSync.Proofs.MethodInvariants

/-!
# The first closing mark

Two parts of a documented header are read up to a closing mark: the comment up to the first one
behind its opening mark, and the parameter list up to the first closing round bracket. So a comment
holds a closing mark before its end only if the star of its opening mark is part of one, and a
parameter list is not found as it stands if a bracket closes in it, be it one that the list opens or
one in a string literal.

## Main definitions

- `Documented.ClosesOnce` — that the closing mark of a comment stands at its end and nowhere else
- `Documented.annotated` — a header with a parameter list, below a comment
- `Documented.IsReadAs` — that a bundle holds one documented method, with this parameter list

`Documented.closesOnce_comment_iff` says which comments close once, and `Documented.isReadAs_iff`
which parameter lists are found.
-/

namespace DeclSync

namespace Text

theorem isBlank_of_mem_unifyLineEndings {t : Text} (h : ∀ c ∈ t, c.isBlank = true) :
    ∀ c ∈ t.unifyLineEndings, c.isBlank = true := by
  intro c hc
  obtain ⟨d, hd, rfl⟩ := List.mem_map.1 hc
  by_cases hcr : d = .scalar '\r'
  · rw [if_pos hcr]
    decide
  · rw [if_neg hcr]
    exact h d (mem_of_mem_joinCrLf hd)

/-- Trimming leaves the same text if it leaves no CR. -/
theorem trim_unifyLineEndings {t : Text} (hcr : .scalar '\r' ∉ t.trim) :
    t.unifyLineEndings.trim = t.trim := by
  obtain ⟨before, after, hbefore, hafter, ht⟩ := exists_trim t
  by_cases hne : t.trim = []
  · -- then all of it is blank
    have hblank : ∀ c ∈ t, c.isBlank = true := by
      intro c hc
      by_contra hc'
      rw [← mem_trim_iff (Bool.not_eq_true _ ▸ hc'), hne] at hc
      exact absurd hc List.not_mem_nil
    have htrim := trim_append_append (isBlank_of_mem_unifyLineEndings hblank) isBlank_of_mem_nil
      (u := []) rfl
    rw [List.append_nil, List.append_nil] at htrim
    rw [htrim, hne]
  · obtain ⟨hstart, hend⟩ := trim_eq_self_iff.1 (trim_trim t)
    have hparts : t.unifyLineEndings =
        before.unifyLineEndings ++ (t.trim ++ after.unifyLineEndings) := by
      conv_lhs => rw [ht]
      rw [unifyLineEndings_append, unifyLineEndings_append, unifyLineEndings_of_cr_notMem hcr]
      · exact fun hlast => absurd (List.mem_of_getLast? hlast) hcr
      · intro _ hhead
        rw [List.head?_append_of_ne_nil _ hne] at hhead
        exact absurd (hstart _ hhead) (by decide)
    rw [hparts]
    exact trim_append_append (isBlank_of_mem_unifyLineEndings hbefore)
      (isBlank_of_mem_unifyLineEndings hafter) (trim_trim t)

end Text

/-- A header of a name and a parameter list. -/
def Header.Spelling.plain (name params : Text) (hname : name.isIdentifier = true)
    (hparams : .scalar ')' ∉ params) : Header.Spelling where
  static := none
  async := none
  function := none
  name := name
  beforeParams := []
  params := params
  beforeBody := " "
  gap_static := isGap_of_mem_none
  gap_async := isGap_of_mem_none
  gap_function := isGap_of_mem_none
  isIdentifier_name := hname
  blank_beforeParams := Text.isBlank_of_mem_nil
  unclosed_params := hparams
  blank_beforeBody := Text.isBlank_of_mem_space

namespace Documented

open Text

variable {apiName bundle : Text} {m : Method}

/-! ## Where a comment closes -/

/-- The closing mark stands at the end of a comment and nowhere else in it. -/
def ClosesOnce (comment : Text) : Prop :=
  ∀ k, ("*/" : Text) <+: comment.drop k ↔ k + 2 = comment.length

/-- The comment of a documented method is read up to the first closing mark. -/
theorem exists_comment_eq_of_mem_methods (hm : m ∈ methods apiName bundle) : ∃ body : Text,
    m.comment = some ("/**" ++ (body ++ "*/")) ∧
      ∀ k < body.length, ¬ ("*/" : Text) <+: (body ++ "*/").drop k := by
  obtain ⟨o, ho, rfl⟩ := List.mem_map.1 hm
  obtain ⟨_, u, rest, -, hread⟩ := exists_read_of_mem_occurrences ho
  obtain ⟨body, gap, s, rfl, hnearest, -, hvalue⟩ := read?_eq_some_iff.1 hread
  refine ⟨body, ?_, fun k hk hmark => ?_⟩
  · rw [method, ← hvalue, List.append_assoc]
  · -- what stands in the comment stands in the text from it on
    apply hnearest k hk
    rw [spelled, drop_opening, ← List.append_assoc]
    refine (prefix_drop_append_iff ?_).2 hmark
    rw [List.length_append]
    exact Nat.add_le_add_right (Nat.le_of_lt hk) 2

theorem length_comment (body : Text) :
    ("/**" ++ (body ++ "*/") : Text).length = body.length + 5 := by
  rw [List.length_append, List.length_append]
  exact Nat.add_comm 3 (body.length + 2)

section Closers

variable {body : Text} (hbody : ∀ k < body.length, ¬ ("*/" : Text) <+: (body ++ "*/").drop k)

include hbody

/-- Behind the opening mark, a comment closes at its end only. -/
theorem closes_body_iff (k : Nat) : ("*/" : Text) <+: (body ++ "*/").drop k ↔ k = body.length := by
  constructor
  · intro hmark
    have hlength := hmark.length_le
    rw [List.length_drop, List.length_append] at hlength
    have hfits : ¬ k < body.length := fun hk => hbody k hk hmark
    change 2 ≤ body.length + 2 - k at hlength
    omega
  · rintro rfl
    exact ⟨[], by rw [List.append_nil, List.drop_left]⟩

/-- Else the closing mark can only stand where the star of the opening mark is the star of it. -/
theorem closes_comment_iff (k : Nat) :
    ("*/" : Text) <+: ("/**" ++ (body ++ "*/")).drop k ↔
      k + 2 = ("/**" ++ (body ++ "*/") : Text).length ∨
        (k = 2 ∧ ("/**/" : Text) <+: "/**" ++ (body ++ "*/")) := by
  rw [length_comment]
  by_cases hk : 3 ≤ k
  · obtain ⟨j, rfl⟩ := Nat.exists_eq_add_of_le hk
    rw [drop_opening, closes_body_iff hbody]
    omega
  · -- the three offsets of the opening mark
    have hcases : k = 0 ∨ k = 1 ∨ k = 2 := by omega
    obtain rfl | rfl | rfl := hcases
    · refine iff_of_false (fun hmark => ?_) (by omega)
      exact absurd (List.cons_prefix_cons.1 hmark).1 (by decide)
    · refine iff_of_false (fun hmark => ?_) (by omega)
      exact absurd (List.cons_prefix_cons.1 (List.cons_prefix_cons.1 hmark).2).1 (by decide)
    · have hstar : ("*/" : Text) <+: ("/**" ++ (body ++ "*/")).drop 2 ↔
          ("/" : Text) <+: body ++ "*/" :=
        List.cons_prefix_cons.trans (and_iff_right rfl)
      have hslash : ("/**/" : Text) <+: "/**" ++ (body ++ "*/") ↔ ("/" : Text) <+: body ++ "*/" :=
        List.prefix_append_right_inj (ofString "/**")
      rw [hstar, hslash]
      exact ⟨fun hmark => .inr ⟨rfl, hmark⟩, fun hends => (hends.resolve_left (by omega)).2⟩

theorem closesOnce_iff :
    ClosesOnce ("/**" ++ (body ++ "*/")) ↔ ¬ ("/**/" : Text) <+: "/**" ++ (body ++ "*/") := by
  have hcloses := closes_comment_iff hbody
  constructor
  · intro honce hslash
    have hends := (honce 2).1 ((hcloses 2).2 (.inr ⟨rfl, hslash⟩))
    rw [length_comment] at hends
    omega
  · intro hslash k
    rw [hcloses k]
    exact or_iff_left fun h => hslash h.2

end Closers

/-- The comment of a documented method closes at its end, and before that at most where the opening
mark is followed by a slash. So it closes once exactly if no slash stands there. -/
theorem closesOnce_comment_iff (hm : m ∈ methods apiName bundle) : ∃ comment : Text,
    m.comment = some comment ∧
      (∀ k, ("*/" : Text) <+: comment.drop k ↔
        k + 2 = comment.length ∨ (k = 2 ∧ ("/**/" : Text) <+: comment)) ∧
      (ClosesOnce comment ↔ ¬ ("/**/" : Text) <+: comment) := by
  obtain ⟨body, hcomment, hbody⟩ := exists_comment_eq_of_mem_methods hm
  exact ⟨_, hcomment, closes_comment_iff hbody, closesOnce_iff hbody⟩

/-- Two methods with a comment of one line each, and between them an empty comment and code. -/
def emptyComment : Text :=
  "/** Stops. */\nstop() \x7b\x7d\n/**/\nlet x = 1;\n/** Runs. */\nrun() \x7b"

/-- The first method, which is found with its comment. -/
def stopping : Method where
  name := "stop"
  params := []
  isAsync := false
  description := "Stops."
  comment := some "/** Stops. */"

/-- The second method, as it is found: its comment begins with the empty one. -/
def running : Method where
  name := "run"
  params := []
  isAsync := false
  description := "/"
  comment := some "/**/\nlet x = 1;\n/** Runs. */"

theorem methods_emptyComment : methods standardApiName emptyComment = [stopping, running] := by
  decide +kernel

/-- The comment of the first method closes once, and that of the second does not. -/
theorem closesOnce_comment_iff_emptyComment :
    stopping ∈ methods standardApiName emptyComment ∧
    running ∈ methods standardApiName emptyComment ∧
    ClosesOnce "/** Stops. */" ∧ ¬ ClosesOnce "/**/\nlet x = 1;\n/** Runs. */" := by
  have hstopping : stopping ∈ methods standardApiName emptyComment := by
    rw [methods_emptyComment]
    exact List.mem_cons_self
  have hrunning : running ∈ methods standardApiName emptyComment := by
    rw [methods_emptyComment]
    exact List.mem_cons_of_mem _ (List.mem_singleton_self _)
  refine ⟨hstopping, hrunning, ?_, ?_⟩
  · obtain ⟨comment, hcomment, -, honce⟩ := closesOnce_comment_iff hstopping
    obtain rfl := Option.some.inj hcomment
    exact honce.2 (by decide)
  · obtain ⟨comment, hcomment, -, honce⟩ := closesOnce_comment_iff hrunning
    obtain rfl := Option.some.inj hcomment
    exact fun hcloses => honce.1 hcloses (by decide)

/-- A comment that is found may run on over code into a later comment. -/
theorem not_closesOnce : ¬ ∀ (apiName bundle : Text), ∀ m ∈ methods apiName bundle,
    ∃ comment, m.comment = some comment ∧ ClosesOnce comment := by
  intro hall
  have hmem : running ∈ methods standardApiName emptyComment := by
    rw [methods_emptyComment]
    exact List.mem_cons_of_mem _ (List.mem_singleton_self _)
  obtain ⟨comment, hcomment, honce⟩ := hall standardApiName emptyComment running hmem
  obtain rfl := Option.some.inj hcomment
  have hends := (honce 2).1 (by decide)
  exact absurd hends (by decide)

/-! ## Where a parameter list closes -/

/-- A comment, and below it a header with a parameter list. -/
def annotated (name params : Text) : Text := "/** d */\n" ++ (name ++ ("(" ++ (params ++ ") \x7b")))

/-- A bundle is read as one documented method, of this name and with this parameter list. -/
def IsReadAs (apiName bundle name params : Text) : Prop :=
  ∃ m, methods apiName bundle = [m] ∧ m.name = name ∧ m.params = params

section Params

variable {name params : Text} (hname : name.isIdentifier = true)

include hname

theorem unifyLineEndings_annotated :
    (annotated name params).unifyLineEndings = annotated name params.unifyLineEndings := by
  have hcr : .scalar '\r' ∉ (ofString "/** d */\n" ++ (name ++ ofString "(")) := by
    rw [List.mem_append, List.mem_append, not_or, not_or]
    exact ⟨by decide, notMem_of_isIdentifier hname (by decide), by decide⟩
  have hparts : ∀ list : Text, annotated name list =
      (ofString "/** d */\n" ++ (name ++ ofString "(")) ++ (list ++ ") \x7b") := by
    intro list
    simp only [annotated, List.append_assoc]
  have hlist : (params ++ ") \x7b" : Text).unifyLineEndings =
      params.unifyLineEndings ++ ") \x7b" := unifyLineEndings_append fun _ => by decide
  rw [hparts, hparts, unifyLineEndings_append fun hlast => ?_, unifyLineEndings_of_cr_notMem hcr,
    hlist]
  exact absurd (List.mem_of_getLast? hlast) hcr

/-- A parameter list in which no bracket closes is found as it stands, but for its line endings. -/
theorem isReadAs_unifyLineEndings (hparams : .scalar ')' ∉ params) :
    IsReadAs apiName (annotated name params) name params.unifyLineEndings.trim := by
  have hunified : .scalar ')' ∉ params.unifyLineEndings := fun hmem =>
    hparams ((mem_unifyLineEndings_iff (by decide) (by decide)).1 hmem)
  let s := Header.Spelling.plain name params.unifyLineEndings hname hunified
  have hread : read? (spelled " d " "\n" s [] ++ []) = some (⟨"/** d */", s.header⟩, []) := by
    rw [List.append_nil]
    refine read?_eq_some_iff.2 ⟨" d ", "\n", s, rfl, ?_, by decide, rfl⟩
    intro k hk
    rw [spelled, drop_opening]
    exact not_prefix_of_notMem (by decide) _ k hk
  have htext : annotated name params.unifyLineEndings = spelled " d " "\n" s [] ++ [] := by
    simp only [annotated, spelled, Header.Spelling.text, Header.Spelling.named,
      Header.Spelling.plain, Header.qualifier, s, List.append_nil]
    rfl
  have hne : spelled " d " "\n" s [] ≠ [] := List.cons_ne_nil _ _
  refine ⟨method apiName ⟨"/** d */", s.header⟩, ?_, rfl, rfl⟩
  rw [methods, unifyLineEndings_annotated hname, occurrences, DeclSync.occurrences, htext,
    occurrencesFrom_of_some hne hread]
  rfl

omit hname in
/-- No bracket closes in a parameter list that is found. -/
theorem IsReadAs.unclosed {list : Text} (h : IsReadAs apiName bundle name list) :
    .scalar ')' ∉ list := by
  obtain ⟨m, hm, -, rfl⟩ := h
  have hmem : m ∈ methods apiName bundle := by
    rw [hm]
    exact List.mem_singleton_self m
  exact (trim_params_of_mem_methods hmem).2

omit hname in
theorem IsReadAs.unique {list list' : Text} (h : IsReadAs apiName bundle name list)
    (h' : IsReadAs apiName bundle name list') : list = list' := by
  obtain ⟨m, hm, -, rfl⟩ := h
  obtain ⟨m', hm', -, rfl⟩ := h'
  obtain rfl : m = m' := List.singleton_inj.1 (hm.symm.trans hm')
  rfl

/-- A parameter list is found as it stands exactly if no bracket closes in it and trimming leaves no
CR of it; and exactly if no bracket closes in it, it is found with LF for all line endings. -/
theorem isReadAs_iff (apiName params : Text) :
    (IsReadAs apiName (annotated name params) name params.trim ↔
      .scalar ')' ∉ params ∧ .scalar '\r' ∉ params.trim) ∧
    (IsReadAs apiName (annotated name params) name params.unifyLineEndings.trim ↔
      .scalar ')' ∉ params) := by
  constructor
  · constructor
    · intro hread
      have hclose : .scalar ')' ∉ params := fun hmem =>
        hread.unclosed ((mem_trim_iff (by decide)).2 hmem)
      refine ⟨hclose, ?_⟩
      -- the same list is found with LF for all line endings
      rw [hread.unique (isReadAs_unifyLineEndings hname hclose)]
      exact fun hmem => cr_notMem_unifyLineEndings params ((isInfix_trim _).mem hmem)
    · rintro ⟨hclose, hcr⟩
      rw [← trim_unifyLineEndings hcr]
      exact isReadAs_unifyLineEndings hname hclose
  · refine ⟨fun hread hmem => ?_, isReadAs_unifyLineEndings hname⟩
    apply hread.unclosed
    rwa [mem_trim_iff (by decide), mem_unifyLineEndings_iff (by decide) (by decide)]

end Params

/-- A parameter list with brackets and string literals in its default values. -/
def nestedList : Text := " a = [\"(\", 1], \x7bb = '='\x7d "

/-- A parameter list with a function for a default value. -/
def callbackList : Text := "cb = function() \x7b\x7d"

theorem isBalanced_callbackList : Nesting.IsBalanced callbackList := ⟨by decide, by decide⟩

/-- Both lists are balanced. The first one is found, and the second one is cut off. -/
theorem isReadAs_iff_nested :
    isIdentifier "run" = true ∧ Nesting.IsBalanced nestedList ∧
    IsReadAs standardApiName (annotated "run" nestedList) "run" nestedList.trim ∧
    Nesting.IsBalanced callbackList ∧
    ¬ IsReadAs standardApiName (annotated "run" callbackList) "run" callbackList.trim ∧
    IsReadAs standardApiName (annotated "run" callbackList) "run" "cb = function(" := by
  have hname : isIdentifier "run" = true := by decide
  have hnested := (isReadAs_iff hname standardApiName nestedList).1
  have hcallback := (isReadAs_iff hname standardApiName callbackList).1
  refine ⟨hname, ⟨by decide, by decide⟩, ?_, isBalanced_callbackList, ?_, ?_⟩
  · exact hnested.2 ⟨by decide, by decide⟩
  · exact fun hread => absurd (hcallback.1 hread).1 (by decide)
  · refine ⟨⟨"run", "cb = function(", false, "d", some "/** d */"⟩, ?_, rfl, rfl⟩
    decide +kernel

/-- A parameter list can be balanced and yet not be found as it stands. -/
theorem not_isReadAs_callback : ¬ ∀ apiName name params : Text, name.isIdentifier = true →
    Nesting.IsBalanced params →
      IsReadAs apiName (annotated name params) name params.trim := by
  intro hall
  have hread := hall standardApiName "run" callbackList (by decide) isBalanced_callbackList
  exact hread.unclosed (by decide)

end Documented

end DeclSync
