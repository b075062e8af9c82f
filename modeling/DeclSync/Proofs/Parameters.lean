import DeclSync.Proofs.Balance
import DeclSync.Proofs.Words
import DeclSync.Signature

/-!
# The parameters of a parameter list

A parameter list is cut at the commas that a scan finds at depth zero, and at no other ones, whether
or not its brackets and string literals are closed. What is cut out begins where nothing is open,
and only the last piece can leave something open at its end; so neither the blanks around the pieces
nor the empty pieces matter to the scan of a later one, and the parameters joined by commas are cut
apart again as they were.

## Main definitions

- `Signature.joints` — where the pieces of a text are joined
- `Nesting.IsCutFrom` — pieces that a scan keeps whole, and of which only the last leaves anything
  open
- `Signature.IsSelfContained` — a parameter that can stand anywhere in a parameter list

`Signature.parameters_cut_join` says where a parameter list is cut, and that parameters which are
joined by commas are the parameters of the whole.
-/

namespace DeclSync

theorem CodePoint.isPlain_of_isBlank {c : CodePoint} (h : c.isBlank = true) : c.IsPlain :=
  isPlain_of_eq_true h (by decide)

namespace Nesting

variable {state : State} {c : CodePoint} {t u : Text}

/-! ## Blanks around a text -/

theorem stateAfter_blanks (h : ∀ c ∈ u, c.isBlank = true) (depth : Nat) :
    stateAfter (.code depth) u = .code depth :=
  stateAfter_plain (fun c hc => CodePoint.isPlain_of_isBlank (h c hc)) depth

/-- A state that a scan can come to: what opened a literal is a quote. -/
def State.IsReachable : State → Prop
  | code _ => True
  | literal _ quote _ => quote.isQuote = true

theorem State.isReachable_code (depth : Nat) : (State.code depth).IsReachable := trivial

theorem State.IsReachable.next (h : state.IsReachable) (c : CodePoint) :
    (state.next c).IsReachable := by
  cases state with
  | code depth =>
    rw [State.next]
    split
    · next hquote => exact hquote
    · split
      · trivial
      · split <;> trivial
  | literal depth quote escaped =>
    cases escaped with
    | true => exact h
    | false =>
      rw [State.next]
      split
      · exact h
      · split
        · trivial
        · exact h

theorem State.IsReachable.stateAfter (h : state.IsReachable) (t : Text) :
    (stateAfter state t).IsReachable := by
  induction t generalizing state with
  | nil => exact h
  | cons c t ih => exact ih (h.next c)

/-- A blank closes no literal. -/
theorem eq_code_of_next_blank (h : state.IsReachable) (hc : c.isBlank = true)
    (hnext : state.next c = .code 0) : state = .code 0 := by
  cases state with
  | code depth => rwa [next_plain (CodePoint.isPlain_of_isBlank hc)] at hnext
  | literal depth quote escaped =>
    exfalso
    cases escaped with
    | true => exact absurd hnext (by simp [State.next])
    | false =>
      have hbackslash : c ≠ .scalar '\\' := by
        rintro rfl
        exact absurd hc (by decide)
      have hquote : c ≠ quote := by
        rintro rfl
        have hplain := (CodePoint.isPlain_of_isBlank hc).1
        rw [State.IsReachable, hplain] at h
        exact absurd h (by simp)
      rw [State.next, if_neg hbackslash, if_neg hquote] at hnext
      exact absurd hnext (by simp)

theorem eq_code_of_stateAfter_blanks (h : state.IsReachable) (hblanks : ∀ c ∈ u, c.isBlank = true)
    (hafter : stateAfter state u = .code 0) : state = .code 0 := by
  induction u generalizing state with
  | nil => exact hafter
  | cons c u ih =>
    obtain ⟨hc, hlater⟩ := List.forall_mem_cons.1 hblanks
    exact eq_code_of_next_blank h hc (ih (h.next c) hlater hafter)

/-- A text that leaves nothing open leaves nothing open when it is trimmed. -/
theorem stateAfter_trim (h : stateAfter (.code 0) t = .code 0) :
    stateAfter (.code 0) t.trim = .code 0 := by
  obtain ⟨before, after, hbefore, hafter, ht⟩ := Text.exists_trim t
  rw [ht, stateAfter_append, stateAfter_blanks hbefore, stateAfter_append] at h
  exact eq_code_of_stateAfter_blanks ((State.isReachable_code 0).stateAfter _) hafter h

theorem notMem_topLevelFrom_trim (h : c ∉ topLevelFrom (.code 0) t) :
    c ∉ topLevelFrom (.code 0) t.trim := by
  obtain ⟨before, after, hbefore, -, ht⟩ := Text.exists_trim t
  rw [ht, topLevelFrom_append, stateAfter_blanks hbefore, topLevelFrom_append] at h
  intro hmem
  exact h (List.mem_append_right _ (List.mem_append_left _ hmem))

/-! ## Pieces between commas -/

theorem exists_commaPiecesFrom (state : State) (t : Text) :
    ∃ piece pieces, commaPiecesFrom state t = piece :: pieces := by
  induction t generalizing state with
  | nil => exact ⟨[], [], rfl⟩
  | cons c t ih =>
    obtain ⟨piece, pieces, hpieces⟩ := ih (state.next c)
    rw [commaPiecesFrom, hpieces]
    split
    · exact ⟨[], piece :: pieces, rfl⟩
    · exact ⟨c :: piece, pieces, rfl⟩

/-- A text is cut at its first code point, which is a comma at depth zero, or that code point leads
the first piece of the rest. -/
theorem commaPiecesFrom_cons_cases (state : State) (c : CodePoint) (t : Text) :
    (c = .scalar ',' ∧ state = .code 0 ∧ commaPiecesFrom state (c :: t) = [] :: commaPieces t) ∨
      (¬ (c = .scalar ',' ∧ state.depthOf? c = some 0) ∧ ∃ piece pieces,
        commaPiecesFrom (state.next c) t = piece :: pieces ∧
          commaPiecesFrom state (c :: t) = (c :: piece) :: pieces) := by
  by_cases hcut : c = .scalar ',' ∧ state.depthOf? c = some 0
  · left
    obtain ⟨rfl, hdepth⟩ := hcut
    obtain rfl := (depthOf?_eq_zero_iff (CodePoint.isPlain_of_notMem (by decide))).1 hdepth
    exact ⟨rfl, rfl, rfl⟩
  · right
    obtain ⟨piece, pieces, hpieces⟩ := exists_commaPiecesFrom (state.next c) t
    refine ⟨hcut, piece, pieces, hpieces, ?_⟩
    rw [commaPiecesFrom, if_neg hcut, hpieces]
    rfl

/-- The pieces make up the text. -/
theorem intercalate_commaPiecesFrom (state : State) (t : Text) :
    List.intercalate "," (commaPiecesFrom state t) = t := by
  induction t generalizing state with
  | nil => rfl
  | cons c t ih =>
    rcases commaPiecesFrom_cons_cases state c t with
      ⟨rfl, rfl, hcut⟩ | ⟨-, piece, pieces, hlater, hcut⟩
    · obtain ⟨piece, pieces, hpieces⟩ := exists_commaPiecesFrom (.code 0) t
      have hrest := ih (.code 0)
      rw [hcut, commaPieces, hpieces, List.intercalate_cons_cons, ← hpieces, hrest]
      rfl
    · have hrest := ih (state.next c)
      rw [hlater] at hrest
      rw [hcut, Text.intercalate_cons_head, hrest]

/-- A text without a comma at depth zero is one piece. -/
theorem commaPiecesFrom_of_notMem (h : .scalar ',' ∉ topLevelFrom state t) :
    commaPiecesFrom state t = [t] := by
  induction t generalizing state with
  | nil => rfl
  | cons c t ih =>
    rw [topLevelFrom, List.mem_append, not_or] at h
    have hcut : ¬ (c = .scalar ',' ∧ state.depthOf? c = some 0) := by
      rintro ⟨rfl, hdepth⟩
      rw [if_pos hdepth] at h
      exact h.1 (List.mem_singleton_self _)
    rw [commaPiecesFrom, if_neg hcut, ih h.2]
    rfl

/-- A comma behind a text that leaves nothing open cuts the text off. -/
theorem commaPiecesFrom_append_comma (h : stateAfter state u = .code 0) (t : Text) :
    commaPiecesFrom state (u ++ .scalar ',' :: t) = commaPiecesFrom state u ++ commaPieces t := by
  induction u generalizing state with
  | nil =>
    obtain rfl : state = .code 0 := h
    rfl
  | cons c u ih =>
    have hlater := ih h
    rw [List.cons_append, commaPiecesFrom, commaPiecesFrom, hlater]
    split
    · rfl
    · obtain ⟨piece, pieces, hpieces⟩ := exists_commaPiecesFrom (state.next c) u
      rw [hpieces]
      rfl

/-- Pieces that a scan which starts in a state keeps whole: none has a comma at depth zero, and each
but the last leaves nothing open for the piece behind it. -/
inductive IsCutFrom : State → List Text → Prop where
  | nil (state : State) : IsCutFrom state []
  | last {state : State} {piece : Text} (hwhole : .scalar ',' ∉ topLevelFrom state piece) :
      IsCutFrom state [piece]
  | cons {state : State} {piece : Text} {later : List Text}
      (hwhole : .scalar ',' ∉ topLevelFrom state piece)
      (hcloses : stateAfter state piece = .code 0) (hlater : IsCutFrom (.code 0) later) :
      IsCutFrom state (piece :: later)

theorem IsCutFrom.cons_head {piece : Text} {later : List Text}
    (h : IsCutFrom (state.next c) (piece :: later))
    (hcut : ¬ (c = .scalar ',' ∧ state.depthOf? c = some 0)) :
    IsCutFrom state ((c :: piece) :: later) := by
  have hwhole (hpiece : .scalar ',' ∉ topLevelFrom (state.next c) piece) :
      .scalar ',' ∉ topLevelFrom state (c :: piece) := by
    rw [topLevelFrom, List.mem_append, not_or]
    refine ⟨fun hmem => ?_, hpiece⟩
    split at hmem
    · next hdepth => exact hcut ⟨(List.mem_singleton.1 hmem).symm, hdepth⟩
    · exact List.not_mem_nil hmem
  cases h with
  | last hpiece => exact .last (hwhole hpiece)
  | cons hpiece hcloses hlater => exact .cons (hwhole hpiece) hcloses hlater

theorem isCutFrom_commaPiecesFrom (state : State) (t : Text) :
    IsCutFrom state (commaPiecesFrom state t) := by
  induction t generalizing state with
  | nil => exact .last List.not_mem_nil
  | cons c t ih =>
    rcases commaPiecesFrom_cons_cases state c t with
      ⟨rfl, rfl, hcut⟩ | ⟨hnocut, piece, pieces, hlater, hcut⟩
    · rw [hcut]
      exact .cons List.not_mem_nil rfl (ih (.code 0))
    · have hrest := ih (state.next c)
      rw [hlater] at hrest
      rw [hcut]
      exact hrest.cons_head hnocut

end Nesting

namespace Signature

open Nesting

/-! ## Where a parameter list is cut -/

/-- The offsets at which the pieces of a text are joined by one code point, where the first piece
begins at an index. -/
def joints (index : Nat) : List Text → List Nat
  | [] => []
  | [_] => []
  | piece :: next :: later =>
    (index + piece.length) :: joints (index + piece.length + 1) (next :: later)

theorem joints_cons_head (index : Nat) (c : CodePoint) (piece : Text) (later : List Text) :
    joints index ((c :: piece) :: later) = joints (index + 1) (piece :: later) := by
  cases later with
  | nil => rfl
  | cons next later =>
    have hlength : index + (c :: piece).length = index + 1 + piece.length := by
      rw [List.length_cons]
      omega
    rw [joints, joints, hlength]

/-- The marks at which a parameter list is cut. -/
def isCut (m : Mark) : Bool := m.char = .scalar ',' ∧ m.depth = 0

/-- The pieces are joined where a scan finds a comma at depth zero. -/
theorem joints_commaPiecesFrom (state : State) (index : Nat) (t : Text) :
    joints index (commaPiecesFrom state t) =
      ((marksFrom state index t).filter isCut).map Mark.index := by
  induction t generalizing state index with
  | nil => rfl
  | cons c t ih =>
    rw [marksFrom, List.filter_append, List.map_append, ← ih]
    rcases commaPiecesFrom_cons_cases state c t with
      ⟨rfl, rfl, hcut⟩ | ⟨hnocut, piece, pieces, hlater, hcut⟩
    · obtain ⟨piece, pieces, hpieces⟩ := exists_commaPiecesFrom (.code 0) t
      rw [hcut, commaPieces, hpieces, joints, ← hpieces]
      rfl
    · rw [hcut, joints_cons_head, hlater]
      cases hdepth : state.depthOf? c with
      | none => rfl
      | some depth =>
        have hmark : isCut ⟨index, c, depth⟩ = false := by
          refine decide_eq_false ?_
          rintro ⟨hc, hzero⟩
          have hdepth' : state.depthOf? c = some 0 := hdepth.trans (congrArg some hzero)
          exact hnocut ⟨hc, hdepth'⟩
        simp [hmark]

/-! ## What is cut apart and joined -/

/-- A trimmed text without a comma at depth zero is one parameter, unless it is empty. -/
theorem parameters_of_notMem {t : Text} (h : .scalar ',' ∉ topLevelFrom (.code 0) t)
    (hne : t ≠ []) (htrim : t.trim = t) : parameters t = [t] := by
  rw [parameters, commaPieces, commaPiecesFrom_of_notMem h, List.map_singleton, htrim,
    List.filter_cons_of_pos (by simpa using hne), List.filter_nil]

theorem parameters_append_comma {u : Text} (h : stateAfter (.code 0) u = .code 0) (t : Text) :
    parameters (u ++ .scalar ',' :: t) = parameters u ++ parameters t := by
  rw [parameters, commaPieces, commaPiecesFrom_append_comma h, List.map_append, List.filter_append]
  rfl

theorem parameters_space (t : Text) : parameters (.scalar ' ' :: t) = parameters t := by
  obtain ⟨piece, pieces, hpieces⟩ := exists_commaPiecesFrom (.code 0) t
  have hspace : commaPieces (.scalar ' ' :: t) = (.scalar ' ' :: piece) :: pieces := by
    have hplain : (CodePoint.scalar ' ').IsPlain := CodePoint.isPlain_of_isBlank (by decide)
    rw [commaPieces, commaPiecesFrom, next_plain hplain, hpieces]
    rfl
  rw [parameters, parameters, hspace, commaPieces, hpieces]
  rfl

/-- Parameters that are joined by commas are the parameters of the whole. -/
theorem parameters_intercalate {ts : List Text} (h : IsCutFrom (.code 0) ts)
    (hts : ∀ t ∈ ts, t ≠ [] ∧ t.trim = t) : parameters (List.intercalate ", " ts) = ts := by
  induction ts with
  | nil => rfl
  | cons t ts ih =>
    obtain ⟨⟨hne, htrim⟩, hlater⟩ := List.forall_mem_cons.1 hts
    cases ts with
    | nil =>
      have hwhole : .scalar ',' ∉ topLevelFrom (.code 0) t := by
        cases h with
        | last hwhole => exact hwhole
        | cons hwhole _ _ => exact hwhole
      rw [List.intercalate_singleton, parameters_of_notMem hwhole hne htrim]
    | cons next ts =>
      cases h with
      | cons hwhole hcloses hrest =>
        have hjoin : List.intercalate (Text.ofString ", ") (t :: next :: ts) =
            t ++ .scalar ',' :: .scalar ' ' :: List.intercalate ", " (next :: ts) := by
          rw [List.intercalate_cons_cons, List.append_assoc]
          rfl
        rw [hjoin, parameters_append_comma hcloses, parameters_of_notMem hwhole hne htrim,
          parameters_space, ih hrest hlater]
        rfl

/-- The parameters of pieces are kept whole as the pieces are. -/
theorem isCutFrom_trimmed {pieces : List Text} (h : IsCutFrom (.code 0) pieces) :
    IsCutFrom (.code 0) ((pieces.map Text.trim).filter fun p => !p.isEmpty) := by
  induction pieces with
  | nil => exact .nil _
  | cons piece pieces ih =>
    rw [List.map_cons, List.filter_cons]
    cases h with
    | last hwhole =>
      split
      · exact .last (notMem_topLevelFrom_trim hwhole)
      · exact .nil _
    | cons hwhole hcloses hlater =>
      split
      · exact .cons (notMem_topLevelFrom_trim hwhole) (stateAfter_trim hcloses) (ih hlater)
      · exact ih hlater

theorem isCutFrom_parameters (params : Text) : IsCutFrom (.code 0) (parameters params) :=
  isCutFrom_trimmed (isCutFrom_commaPiecesFrom _ _)

theorem trim_of_mem_parameters {params p : Text} (hp : p ∈ parameters params) :
    p ≠ [] ∧ p.trim = p := by
  obtain ⟨hmem, hne⟩ := List.mem_filter.1 hp
  obtain ⟨piece, -, rfl⟩ := List.mem_map.1 hmem
  exact ⟨by simpa using hne, Text.trim_trim piece⟩

/-- A parameter that can stand anywhere in a parameter list: it is trimmed and not empty, leaves
nothing open, and has no comma at depth zero. -/
structure IsSelfContained (t : Text) : Prop where
  ne_nil : t ≠ []
  trimmed : t.trim = t
  closed : stateAfter (.code 0) t = .code 0
  whole : ∀ m ∈ marks t, m.char = .scalar ',' → m.depth ≠ 0

instance decidableIsSelfContained (t : Text) : Decidable (IsSelfContained t) :=
  decidable_of_iff
    (t ≠ [] ∧ t.trim = t ∧ stateAfter (.code 0) t = .code 0 ∧
      ∀ m ∈ marks t, m.char = .scalar ',' → m.depth ≠ 0)
    ⟨fun ⟨hne, htrim, hclosed, hwhole⟩ => ⟨hne, htrim, hclosed, hwhole⟩,
      fun h => ⟨h.ne_nil, h.trimmed, h.closed, h.whole⟩⟩

theorem isCutFrom_of_isSelfContained {ts : List Text} (h : ∀ t ∈ ts, IsSelfContained t) :
    IsCutFrom (.code 0) ts := by
  induction ts with
  | nil => exact .nil _
  | cons t ts ih =>
    obtain ⟨ht, hlater⟩ := List.forall_mem_cons.1 h
    exact .cons (notMem_topLevelFrom_iff.2 ht.whole) ht.closed (ih hlater)

/-- A parameter list is cut at its commas at depth zero, and its parameters are what is left of the
pieces by trimming. Joined by commas, the parameters are cut apart again, and so are any
self-contained ones. -/
theorem parameters_cut_join (params : Text) :
    (∃ pieces, List.intercalate "," pieces = params ∧
      joints 0 pieces = ((marks params).filter isCut).map Mark.index ∧
      parameters params = (pieces.map Text.trim).filter fun p => p ≠ []) ∧
    parameters (List.intercalate ", " (parameters params)) = parameters params ∧
    ∀ ts : List Text, (∀ t ∈ ts, IsSelfContained t) →
      parameters (List.intercalate ", " ts) = ts := by
  refine ⟨⟨commaPieces params, ?_, ?_, ?_⟩, ?_, fun ts hts => ?_⟩
  · exact intercalate_commaPiecesFrom _ params
  · exact joints_commaPiecesFrom _ 0 params
  · rw [parameters]
    congr 1
    funext p
    cases p <;> rfl
  · exact parameters_intercalate (isCutFrom_parameters params) fun p => trim_of_mem_parameters
  · apply parameters_intercalate (isCutFrom_of_isSelfContained hts)
    exact fun t ht => ⟨(hts t ht).ne_nil, (hts t ht).trimmed⟩

/-- A parameter list with a closer that nothing opened, an empty piece, and a literal that is still
open at its end. -/
def unevenList : Text := " a) ,\t, b = [1, \x27,\x27] , \x27c, "

/-- Three self-contained parameters, of which the last begins with a closer that nothing opened. -/
def selfContainedList : List Text := ["a", "b = [1, \x27,\x27]", ") c"]

/-- What is cut out of the one list, and what the other one is made of, is cut apart again. -/
theorem parameters_cut_join_uneven :
    parameters unevenList = ["a)", "b = [1, \x27,\x27]", "\x27c,"] ∧
    parameters "a), b = [1, \x27,\x27], \x27c," = parameters unevenList ∧
    (∀ t ∈ selfContainedList, IsSelfContained t) ∧
    parameters "a, b = [1, \x27,\x27], ) c" = selfContainedList := by
  have hcontained : ∀ t ∈ selfContainedList, IsSelfContained t := by decide
  obtain ⟨-, hagain, hjoin⟩ := parameters_cut_join unevenList
  exact ⟨by decide, hagain, hcontained, hjoin _ hcontained⟩

end Signature

end DeclSync
