import DeclSync.Text.CodePoint

/-!
# Patterns and searches

A pattern says what a piece of a text looks like: marks, runs of code points of a kind, and parts
that may be missing. A search with a pattern tries the ways to read each of its parts, and goes back
to another way where what follows cannot be read. Which way it finds first depends on the order in
which it tries; which ways there are does not.

## Main definitions

- `Pattern` — the patterns
- `Pattern.Spells` — the texts that a pattern stands for, and the pieces that it keeps of them
- `TryOrder` — an order in which a search tries
- `Pattern.readings` — what a search with a pattern finds, in that order

`Pattern.mem_readings_iff` says that a search in any order finds what the pattern stands for.
-/

namespace DeclSync

open Text

/-- A pattern for a piece of a text. -/
inductive Pattern where
  /-- The given text. -/
  | mark (text : Text)
  /-- One code point of a kind. -/
  | one (kind : CodePoint → Bool)
  /-- Any number of code points of a kind. -/
  | many (kind : CodePoint → Bool)
  /-- The one and then the other. -/
  | seq (first second : Pattern)
  /-- The same, or nothing. -/
  | optional (inner : Pattern)
  /-- The same, kept under a label. -/
  | kept (label : String) (inner : Pattern)

/-- What is read at the beginning of a text: the pieces that are kept, by their labels, and the rest
of the text. -/
structure Reading where
  kept : List (String × Text)
  rest : Text

/-- An order in which a search tries the ways to read a pattern at the beginning of a text. It may
differ from one pattern and one text to the next. -/
structure TryOrder where
  arrange : Pattern → Text → List Reading → List Reading
  perm_arrange (p : Pattern) (t : Text) (ways : List Reading) : (arrange p t ways).Perm ways

namespace TryOrder

/-- The longest run is tried first, and what may be missing is first looked for. -/
def longestFirst : TryOrder := ⟨fun _ _ ways => ways, fun _ _ _ => .refl _⟩

/-- The shortest run is tried first, and what may be missing is first left out. -/
def shortestFirst : TryOrder := ⟨fun _ _ ways => ways.reverse, fun _ _ ways => ways.reverse_perm⟩

end TryOrder

/-- What is left of a text behind a run of code points of a kind, the longest run first. -/
def Text.behindRuns (kind : CodePoint → Bool) : Text → List Text
  | [] => [[]]
  | c :: t => if kind c then behindRuns kind t ++ [c :: t] else [c :: t]

namespace Pattern

/-- That a pattern stands for a text, of which it keeps the given pieces. -/
inductive Spells : Pattern → Text → List (String × Text) → Prop where
  | mark (text : Text) : Spells (mark text) text []
  | one {kind : CodePoint → Bool} {c : CodePoint} (hc : kind c = true) : Spells (one kind) [c] []
  | many {kind : CodePoint → Bool} {u : Text} (hu : ∀ c ∈ u, kind c = true) :
      Spells (many kind) u []
  | seq {first second : Pattern} {v w : Text} {before after : List (String × Text)}
      (hv : Spells first v before) (hw : Spells second w after) :
      Spells (seq first second) (v ++ w) (before ++ after)
  | absent (inner : Pattern) : Spells (optional inner) [] []
  | present {inner : Pattern} {u : Text} {pieces : List (String × Text)}
      (hu : Spells inner u pieces) : Spells (optional inner) u pieces
  | kept {inner : Pattern} {u : Text} {inside : List (String × Text)} (label : String)
      (hu : Spells inner u inside) : Spells (kept label inner) u ((label, u) :: inside)

/-- All ways to read a pattern at the beginning of a text, in the order in which they are tried. -/
def readings (order : TryOrder) : Pattern → Text → List Reading
  | mark text, t => (after? text t).toList.map fun rest => ⟨[], rest⟩
  | one _, [] => []
  | one kind, c :: t => if kind c then [⟨[], t⟩] else []
  | many kind, t => order.arrange (many kind) t ((behindRuns kind t).map fun rest => ⟨[], rest⟩)
  | seq first second, t =>
    order.arrange (seq first second) t <| (readings order first t).flatMap fun r =>
      (readings order second r.rest).map fun s => ⟨r.kept ++ s.kept, s.rest⟩
  | optional inner, t => order.arrange (optional inner) t (readings order inner t ++ [⟨[], t⟩])
  | kept label inner, t =>
    (readings order inner t).map fun r =>
      ⟨(label, t.take (t.length - r.rest.length)) :: r.kept, r.rest⟩

end Pattern

theorem Text.mem_behindRuns_iff {kind : CodePoint → Bool} {t rest : Text} :
    rest ∈ behindRuns kind t ↔ ∃ u, (∀ c ∈ u, kind c = true) ∧ t = u ++ rest := by
  constructor
  · intro h
    induction t with
    | nil => exact ⟨[], by simp, (List.mem_singleton.1 h).symm⟩
    | cons c t ih =>
      rw [behindRuns] at h
      split at h
      · next hc =>
        rcases List.mem_append.1 h with hlater | hhere
        · obtain ⟨u, hu, rfl⟩ := ih hlater
          exact ⟨c :: u, List.forall_mem_cons.2 ⟨hc, hu⟩, rfl⟩
        · exact ⟨[], by simp, (List.mem_singleton.1 hhere).symm⟩
      · exact ⟨[], by simp, (List.mem_singleton.1 h).symm⟩
  · rintro ⟨u, hu, rfl⟩
    induction u with
    | nil =>
      cases rest with
      | nil => exact List.mem_singleton_self _
      | cons c rest =>
        rw [List.nil_append, behindRuns]
        split
        · exact List.mem_append_right _ (List.mem_singleton_self _)
        · exact List.mem_singleton_self _
    | cons c u ih =>
      obtain ⟨hc, hu⟩ := List.forall_mem_cons.1 hu
      rw [List.cons_append, behindRuns, if_pos hc]
      exact List.mem_append_left _ (ih hu)

namespace Pattern

section Spells

variable {kind : CodePoint → Bool} {first second inner : Pattern} {label : String} {text u : Text}
  {pieces : List (String × Text)}

theorem spells_mark_iff : (mark text).Spells u pieces ↔ u = text ∧ pieces = [] := by
  constructor
  · intro h
    cases h
    exact ⟨rfl, rfl⟩
  · rintro ⟨rfl, rfl⟩
    exact .mark u

theorem spells_one_iff :
    (one kind).Spells u pieces ↔ ∃ c, kind c = true ∧ u = [c] ∧ pieces = [] := by
  constructor
  · intro h
    cases h with
    | one hc => exact ⟨_, hc, rfl, rfl⟩
  · rintro ⟨c, hc, rfl, rfl⟩
    exact .one hc

theorem spells_many_iff :
    (many kind).Spells u pieces ↔ (∀ c ∈ u, kind c = true) ∧ pieces = [] := by
  constructor
  · intro h
    cases h with
    | many hu => exact ⟨hu, rfl⟩
  · rintro ⟨hu, rfl⟩
    exact .many hu

theorem spells_seq_iff : (seq first second).Spells u pieces ↔
    ∃ v before w after, first.Spells v before ∧ second.Spells w after ∧
      u = v ++ w ∧ pieces = before ++ after := by
  constructor
  · intro h
    cases h with
    | seq hv hw => exact ⟨_, _, _, _, hv, hw, rfl, rfl⟩
  · rintro ⟨v, before, w, after, hv, hw, rfl, rfl⟩
    exact .seq hv hw

theorem spells_optional_iff :
    (optional inner).Spells u pieces ↔ inner.Spells u pieces ∨ (u = [] ∧ pieces = []) := by
  constructor
  · intro h
    cases h with
    | absent => exact .inr ⟨rfl, rfl⟩
    | present hu => exact .inl hu
  · rintro (hu | ⟨rfl, rfl⟩)
    · exact .present hu
    · exact .absent inner

theorem spells_kept_iff : (kept label inner).Spells u pieces ↔
    ∃ inside, inner.Spells u inside ∧ pieces = (label, u) :: inside := by
  constructor
  · intro h
    cases h with
    | kept _ hu => exact ⟨_, hu, rfl⟩
  · rintro ⟨inside, hu, rfl⟩
    exact .kept label hu

end Spells

/-! ## What a search finds -/

/-- That a search finds at the beginning of a text the ways to read a pattern, and nothing else. -/
def FindsWays (order : TryOrder) (p : Pattern) : Prop :=
  ∀ (t : Text) (r : Reading), r ∈ p.readings order t ↔ ∃ u, p.Spells u r.kept ∧ t = u ++ r.rest

section FindsWays

variable {order : TryOrder} {first second inner : Pattern}

theorem findsWays_mark (order : TryOrder) (text : Text) : FindsWays order (mark text) := by
  intro t r
  simp only [readings, List.mem_map, Option.mem_toList, after?_eq_some_iff, spells_mark_iff]
  constructor
  · rintro ⟨rest, rfl, rfl⟩
    exact ⟨text, ⟨rfl, rfl⟩, rfl⟩
  · rintro ⟨u, ⟨rfl, hkept⟩, rfl⟩
    exact ⟨r.rest, rfl, by rw [← hkept]⟩

theorem findsWays_one (order : TryOrder) (kind : CodePoint → Bool) :
    FindsWays order (one kind) := by
  intro t r
  simp only [spells_one_iff]
  constructor
  · intro h
    cases t with
    | nil => exact absurd h List.not_mem_nil
    | cons c t =>
      rw [readings] at h
      split at h
      · next hc =>
        obtain rfl := List.mem_singleton.1 h
        exact ⟨[c], ⟨c, hc, rfl, rfl⟩, rfl⟩
      · exact absurd h List.not_mem_nil
  · rintro ⟨_, ⟨c, hc, rfl, hkept⟩, rfl⟩
    rw [List.singleton_append, readings, if_pos hc, ← hkept]
    exact List.mem_singleton_self _

theorem findsWays_many (order : TryOrder) (kind : CodePoint → Bool) :
    FindsWays order (many kind) := by
  intro t r
  -- here and below, the order only rearranges what is found, and so drops out
  simp only [readings, (order.perm_arrange _ _ _).mem_iff, List.mem_map, mem_behindRuns_iff,
    spells_many_iff]
  constructor
  · rintro ⟨rest, ⟨u, hu, rfl⟩, rfl⟩
    exact ⟨u, ⟨hu, rfl⟩, rfl⟩
  · rintro ⟨u, ⟨hu, hkept⟩, rfl⟩
    exact ⟨r.rest, ⟨u, hu, rfl⟩, by rw [← hkept]⟩

theorem FindsWays.seq (hfirst : FindsWays order first) (hsecond : FindsWays order second) :
    FindsWays order (seq first second) := by
  intro t r
  simp only [readings, (order.perm_arrange _ _ _).mem_iff, List.mem_flatMap, List.mem_map,
    hfirst _ _, hsecond _ _, spells_seq_iff]
  constructor
  · rintro ⟨r, ⟨v, hv, rfl⟩, s, ⟨w, hw, hrest⟩, rfl⟩
    exact ⟨v ++ w, ⟨v, r.kept, w, s.kept, hv, hw, rfl, rfl⟩, by rw [hrest, List.append_assoc]⟩
  · rintro ⟨_, ⟨v, before, w, after, hv, hw, rfl, hkept⟩, rfl⟩
    exact ⟨⟨before, w ++ r.rest⟩, ⟨v, hv, List.append_assoc _ _ _⟩, ⟨after, r.rest⟩,
      ⟨w, hw, rfl⟩, by rw [← hkept]⟩

theorem FindsWays.optional (hinner : FindsWays order inner) :
    FindsWays order (optional inner) := by
  intro t r
  simp only [readings, (order.perm_arrange _ _ _).mem_iff, List.mem_append, List.mem_singleton,
    hinner _ _, spells_optional_iff]
  constructor
  · rintro (⟨u, hu, rfl⟩ | rfl)
    · exact ⟨u, .inl hu, rfl⟩
    · exact ⟨[], .inr ⟨rfl, rfl⟩, rfl⟩
  · rintro ⟨u, hu | ⟨rfl, hkept⟩, rfl⟩
    · exact .inl ⟨u, hu, rfl⟩
    · exact .inr (by rw [List.nil_append, ← hkept])

/-- The piece that is kept is what lies in front of the rest. -/
theorem take_length_sub (u rest : Text) :
    (u ++ rest).take ((u ++ rest).length - rest.length) = u := by
  rw [List.length_append, Nat.add_sub_cancel, List.take_left]

theorem FindsWays.kept (label : String) (hinner : FindsWays order inner) :
    FindsWays order (kept label inner) := by
  intro t r
  simp only [readings, List.mem_map, hinner _ _, spells_kept_iff]
  constructor
  · rintro ⟨r, ⟨u, hu, rfl⟩, rfl⟩
    exact ⟨u, ⟨r.kept, hu, by rw [take_length_sub]⟩, rfl⟩
  · rintro ⟨u, ⟨inside, hinside, hkept⟩, rfl⟩
    exact ⟨⟨inside, r.rest⟩, ⟨u, hinside, rfl⟩, by rw [take_length_sub, ← hkept]⟩

end FindsWays

theorem findsWays (order : TryOrder) (p : Pattern) : FindsWays order p := by
  induction p with
  | mark text => exact findsWays_mark order text
  | one kind => exact findsWays_one order kind
  | many kind => exact findsWays_many order kind
  | seq first second hfirst hsecond => exact hfirst.seq hsecond
  | optional inner hinner => exact hinner.optional
  | kept label inner hinner => exact hinner.kept label

/-- In whichever order it tries, a search finds the ways to read a pattern, and nothing else. -/
theorem mem_readings_iff {order : TryOrder} {p : Pattern} {t : Text} {r : Reading} :
    r ∈ p.readings order t ↔ ∃ u, p.Spells u r.kept ∧ t = u ++ r.rest :=
  findsWays order p t r

end Pattern

end DeclSync
