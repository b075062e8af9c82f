import DeclSync.Script.TopLevel
import Mathlib.Data.List.Basic

/-!
# The top level and balanced text

What is looked for at the top level of a piece of script is looked for among the code points that a
scan meets at depth zero. Between a pair of brackets it meets none, whatever stands there in quotes
and brackets of its own, as long as all of these are closed again.

## Main definitions

- `Nesting.topLevelFrom` — the code points at depth zero, for a scan that starts in a state
- `Nesting.IsBalanced` — a text that opens what it closes, and closes what it opens

`Nesting.topLevelFrom_eq_map` says that the top level is made of the marks of depth zero, and
`Nesting.topLevelFrom_parenthesized` that nothing of a balanced text between brackets is at the top
level.
-/

namespace DeclSync

namespace CodePoint

/-- A code point that a scan outside string literals passes over without any effect. -/
def IsPlain (c : CodePoint) : Prop :=
  c.isQuote = false ∧ c.isCloser = false ∧ c.isOpener = false

/-- The code points that a scan outside string literals does not pass over. -/
def structural : List CodePoint := ['\x27', '"', '`', '(', ')', '[', ']', '\x7b', '\x7d']

theorem isPlain_of_notMem {c : CodePoint} (h : c ∉ structural) : c.IsPlain := by
  simp only [structural, List.mem_cons, List.not_mem_nil, or_false, not_or] at h
  simp [IsPlain, isQuote, isCloser, isOpener, h]

theorem isPlain_of_eq_true {p : CodePoint → Bool} {c : CodePoint} (h : p c = true)
    (hp : ∀ d ∈ structural, p d = false) : c.IsPlain := by
  refine isPlain_of_notMem fun hmem => ?_
  rw [hp c hmem] at h
  exact absurd h (by decide)

end CodePoint

namespace Nesting

variable {state : State} {c : CodePoint} {u t : Text}

/-- The code points that stand at depth zero outside string literals, scanned from a state. -/
def topLevelFrom (state : State) : Text → Text
  | [] => []
  | c :: t =>
    (if state.depthOf? c = some 0 then [c] else []) ++ topLevelFrom (state.next c) t

theorem topLevelFrom_append (state : State) (u t : Text) :
    topLevelFrom state (u ++ t) = topLevelFrom state u ++ topLevelFrom (stateAfter state u) t := by
  induction u generalizing state with
  | nil => rfl
  | cons c u ih => rw [List.cons_append, topLevelFrom, topLevelFrom, ih, List.append_assoc,
      stateAfter_cons]

theorem topLevelFrom_prefix (state : State) (h : u <+: t) :
    topLevelFrom state u <+: topLevelFrom state t := by
  obtain ⟨rest, rfl⟩ := h
  rw [topLevelFrom_append]
  exact List.prefix_append _ _

theorem mem_of_mem_topLevelFrom (h : c ∈ topLevelFrom state t) : c ∈ t := by
  induction t generalizing state with
  | nil => exact h
  | cons d t ih =>
    rw [topLevelFrom, List.mem_append] at h
    rcases h with hhere | hlater
    · split at hhere
      · exact List.mem_singleton.1 hhere ▸ List.mem_cons_self
      · exact absurd hhere List.not_mem_nil
    · exact List.mem_cons_of_mem d (ih hlater)

/-! ## What is looked for at the top level -/

/-- The top level is made of the marks of depth zero. -/
theorem topLevelFrom_eq_map (state : State) (index : Nat) (t : Text) :
    topLevelFrom state t =
      ((marksFrom state index t).filter fun m => m.depth = 0).map Mark.char := by
  induction t generalizing state index with
  | nil => rfl
  | cons c t ih =>
    rw [topLevelFrom, marksFrom, List.filter_append, List.map_append, ← ih]
    cases hdepth : state.depthOf? c with
    | none => rfl
    | some depth => cases depth <;> rfl

theorem notMem_topLevelFrom_iff {index : Nat} : c ∉ topLevelFrom state t ↔
    ∀ m ∈ marksFrom state index t, m.char = c → m.depth ≠ 0 := by
  rw [topLevelFrom_eq_map state index, List.mem_map]
  constructor
  · intro h m hm hchar hdepth
    exact h ⟨m, List.mem_filter.2 ⟨hm, decide_eq_true hdepth⟩, hchar⟩
  · rintro h ⟨m, hm, hchar⟩
    obtain ⟨hmem, hdepth⟩ := List.mem_filter.1 hm
    exact h m hmem hchar (of_decide_eq_true hdepth)

theorem hasAtTopLevel_eq_false (h : c ∉ topLevelFrom (.code 0) t) :
    t.hasAtTopLevel [c] = false := by
  by_contra hfound
  obtain ⟨m, hm, hwanted⟩ := List.any_eq_true.1 (Bool.not_eq_false _ ▸ hfound)
  obtain ⟨hchar, hdepth⟩ := Bool.and_eq_true_iff.1 hwanted
  have hc : m.char = c := (List.cons.inj (of_decide_eq_true hchar)).1
  exact notMem_topLevelFrom_iff.1 h m hm hc (of_decide_eq_true hdepth)

theorem assignmentFrom?_eq_none (h : .scalar '=' ∉ topLevelFrom state t)
    (behind : Option CodePoint) : Text.assignmentFrom? state behind t = none := by
  induction t generalizing state behind with
  | nil => rfl
  | cons c t ih =>
    rw [topLevelFrom, List.mem_append, not_or] at h
    have hhere : ¬ (c = .scalar '=' ∧ state.depthOf? c = some 0 ∧
        (!Text.isComparison behind t.head?) = true) := by
      rintro ⟨rfl, hdepth, -⟩
      rw [if_pos hdepth] at h
      exact h.1 (List.mem_singleton_self _)
    rw [Text.assignmentFrom?, if_neg hhere, ih h.2]
    rfl

/-! ## Plain text -/

theorem next_plain (h : c.IsPlain) (depth : Nat) : (State.code depth).next c = .code depth := by
  simp [State.next, h.1, h.2.1, h.2.2]

theorem depthOf?_plain (h : c.IsPlain) (depth : Nat) :
    (State.code depth).depthOf? c = some depth := by
  simp [State.depthOf?, h.1, h.2.1]

/-- Only outside everything does a plain code point stand at depth zero. -/
theorem depthOf?_eq_zero_iff (h : c.IsPlain) : state.depthOf? c = some 0 ↔ state = .code 0 := by
  cases state with
  | code depth => simp [depthOf?_plain h]
  | literal depth quote escaped => simp [State.depthOf?]

theorem stateAfter_plain (h : ∀ c ∈ t, c.IsPlain) (depth : Nat) :
    stateAfter (.code depth) t = .code depth := by
  induction t with
  | nil => rfl
  | cons c t ih =>
    rw [List.forall_mem_cons] at h
    rw [stateAfter_cons, next_plain h.1, ih h.2]

/-- Plain text outside all brackets is at the top level as a whole. -/
theorem topLevelFrom_plain (h : ∀ c ∈ t, c.IsPlain) : topLevelFrom (.code 0) t = t := by
  induction t with
  | nil => rfl
  | cons c t ih =>
    rw [List.forall_mem_cons] at h
    rw [topLevelFrom, next_plain h.1, depthOf?_plain h.1, if_pos rfl, ih h.2]
    rfl

/-! ## Balanced text -/

/-- A scan of the text from a state meets no closer that nothing opened. -/
def IsMatched (state : State) : Text → Prop
  | [] => True
  | c :: t => (state = .code 0 → c.isCloser = false) ∧ IsMatched (state.next c) t

instance decidableIsMatched : (state : State) → (t : Text) → Decidable (IsMatched state t)
  | _, [] => .isTrue trivial
  | state, c :: t =>
    have := decidableIsMatched (state.next c) t
    inferInstanceAs (Decidable ((state = .code 0 → c.isCloser = false) ∧ _))

/-- A text that closes nothing that it has not opened, and leaves neither a bracket nor a string
literal open at its end. -/
structure IsBalanced (t : Text) : Prop where
  matched : IsMatched (.code 0) t
  closed : stateAfter (.code 0) t = .code 0

/-- The same state with one more bracket open around it. -/
def State.raised : State → State
  | code depth => code (depth + 1)
  | literal depth quote escaped => literal (depth + 1) quote escaped

/-- Another bracket around a scan makes no difference to its steps, unless a closer was for it. -/
theorem next_raised (h : state = .code 0 → c.isCloser = false) :
    state.raised.next c = (state.next c).raised := by
  cases state with
  | literal depth quote escaped =>
    cases escaped with
    | true => rfl
    | false =>
      simp only [State.raised, State.next]
      split
      · rfl
      · split <;> rfl
  | code depth =>
    simp only [State.raised, State.next]
    split
    · rfl
    · split
      · next hcloser =>
        -- the depth was not zero, so one less is no cut off
        cases depth with
        | zero => exact absurd hcloser (by simp [h rfl])
        | succ depth => rfl
      · split <;> rfl

/-- Another bracket around a scan raises the depths that it finds, unless a closer was for it. -/
theorem depthOf?_raised (h : state = .code 0 → c.isCloser = false) :
    state.raised.depthOf? c = (state.depthOf? c).map (· + 1) := by
  cases state with
  | literal depth quote escaped => rfl
  | code depth =>
    simp only [State.raised, State.depthOf?]
    split
    · rfl
    · split
      · next hcloser =>
        cases depth with
        | zero => exact absurd hcloser (by simp [h rfl])
        | succ depth => rfl
      · rfl

theorem stateAfter_raised (h : IsMatched state t) :
    stateAfter state.raised t = (stateAfter state t).raised := by
  induction t generalizing state with
  | nil => rfl
  | cons c t ih => rw [stateAfter_cons, stateAfter_cons, next_raised h.1, ih h.2]

theorem IsMatched.raised (h : IsMatched state t) : IsMatched state.raised t := by
  induction t generalizing state with
  | nil => trivial
  | cons c t ih =>
    refine ⟨fun hzero => ?_, ?_⟩
    · cases state <;> exact absurd hzero (by simp [State.raised])
    · rw [next_raised h.1]
      exact ih h.2

theorem IsBalanced.matched_code (h : IsBalanced t) (depth : Nat) : IsMatched (.code depth) t := by
  induction depth with
  | zero => exact h.matched
  | succ depth ih => exact ih.raised

/-- A scan leaves a balanced text at the depth at which it came to it. -/
theorem IsBalanced.stateAfter_code (h : IsBalanced t) (depth : Nat) :
    stateAfter (.code depth) t = .code depth := by
  induction depth with
  | zero => exact h.closed
  | succ depth ih =>
    have hraised := stateAfter_raised (h.matched_code depth)
    rwa [ih] at hraised

/-- A text that closes nothing that it has not opened has no top level inside a bracket. -/
theorem topLevelFrom_raised (h : IsMatched state t) : topLevelFrom state.raised t = [] := by
  induction t generalizing state with
  | nil => rfl
  | cons c t ih =>
    have hinside : state.raised.depthOf? c ≠ some 0 := by simp [depthOf?_raised h.1]
    rw [topLevelFrom, if_neg hinside, next_raised h.1, ih h.2, List.append_nil]

/-- Of a balanced text between brackets, nothing but the brackets is at the top level. -/
theorem topLevelFrom_parenthesized (h : IsBalanced u) (t : Text) :
    topLevelFrom (.code 0) ("(" ++ (u ++ (")" ++ t))) =
      "(" ++ (")" ++ topLevelFrom (.code 0) t) := by
  have hinside : topLevelFrom (.code 1) u = [] := topLevelFrom_raised h.matched
  rw [topLevelFrom_append, topLevelFrom_append _ u, topLevelFrom_append _ (Text.ofString ")")]
  rw [show stateAfter (.code 0) (Text.ofString "(") = .code 1 from rfl, h.stateAfter_code, hinside]
  rfl

end Nesting

end DeclSync
