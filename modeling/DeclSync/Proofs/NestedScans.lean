import DeclSync.Proofs.Balance
import DeclSync.Proofs.ScannedLiterals

/-!
# Scans of texts that are put together

A scan of a text is made of the scans of its parts. Between two brackets a balanced text is scanned
as it is on its own, only further along and deeper; the brackets have the depth of what surrounds
them, and behind the closer the scan goes on at that depth. A string literal is passed over
wherever it is put in.

## Main definitions

- `Nesting.Mark.deepen` — a mark with more brackets open around it

`Nesting.marks_bracketed` says how the marks of a text follow from those of its parts.
-/

namespace DeclSync

namespace CodePoint

theorem isQuote_isCloser_of_isOpener {c : CodePoint} (h : c.isOpener = true) :
    c.isQuote = false ∧ c.isCloser = false := by
  simp only [isOpener, Bool.or_eq_true, decide_eq_true_eq] at h
  rcases h with (rfl | rfl) | rfl <;> exact ⟨rfl, rfl⟩

theorem isQuote_of_isCloser {c : CodePoint} (h : c.isCloser = true) : c.isQuote = false := by
  simp only [isCloser, Bool.or_eq_true, decide_eq_true_eq] at h
  rcases h with (rfl | rfl) | rfl <;> rfl

end CodePoint

namespace Nesting

/-- The same mark, with a number of further brackets open around it. -/
def Mark.deepen (brackets : Nat) (m : Mark) : Mark := { m with depth := brackets + m.depth }

/-- A scan inside one more bracket finds the same marks one deeper, unless a closer was for it. -/
theorem marksFrom_raised {state : State} {t : Text} (h : IsMatched state t) (index : Nat) :
    marksFrom state.raised index t = (marksFrom state index t).map (Mark.deepen 1) := by
  induction t generalizing state index with
  | nil => rfl
  | cons c t ih =>
    rw [marksFrom, marksFrom, List.map_append, next_raised h.1, depthOf?_raised h.1, ih h.2]
    cases state.depthOf? c with
    | none => rfl
    | some depth => simp [Mark.deepen, Nat.add_comm]

/-- A balanced text is scanned at any depth as it is on its own. -/
theorem IsBalanced.marksFrom_code {t : Text} (h : IsBalanced t) (depth index : Nat) :
    marksFrom (.code depth) index t = (marksFrom (.code 0) index t).map (Mark.deepen depth) := by
  induction depth with
  | zero =>
    refine (List.map_id'' (fun m => ?_) _).symm
    simp [Mark.deepen]
  | succ depth ih =>
    have hraised := marksFrom_raised (h.matched_code depth) index
    rw [State.raised, ih, List.map_map] at hraised
    rw [hraised]
    refine List.map_congr_left fun m _ => ?_
    have hdepth : 1 + (depth + m.depth) = depth + 1 + m.depth := by omega
    simp only [Function.comp, Mark.deepen, hdepth]

theorem marksFrom_eq_shift (state : State) (index : Nat) (t : Text) :
    marksFrom state index t = (marksFrom state 0 t).map (Mark.shift index) :=
  marksFrom_add state index 0 t

theorem marksFrom_opener {o : CodePoint} (h : o.isOpener = true) (depth index : Nat) (t : Text) :
    marksFrom (.code depth) index (o :: t) =
      ⟨index, o, depth⟩ :: marksFrom (.code (depth + 1)) (index + 1) t := by
  obtain ⟨hquote, hcloser⟩ := CodePoint.isQuote_isCloser_of_isOpener h
  have hnext : (State.code depth).next o = .code (depth + 1) := by
    simp [State.next, hquote, hcloser, h]
  have hdepth : (State.code depth).depthOf? o = some depth := by
    simp [State.depthOf?, hquote, hcloser]
  rw [marksFrom, hnext, hdepth]
  rfl

theorem marksFrom_closer {c : CodePoint} (h : c.isCloser = true) (depth index : Nat) (t : Text) :
    marksFrom (.code (depth + 1)) index (c :: t) =
      ⟨index, c, depth⟩ :: marksFrom (.code depth) (index + 1) t := by
  have hquote := CodePoint.isQuote_of_isCloser h
  have hnext : (State.code (depth + 1)).next c = .code depth := by
    simp [State.next, hquote, h]
  have hdepth : (State.code (depth + 1)).depthOf? c = some depth := by
    simp [State.depthOf?, hquote, h]
  rw [marksFrom, hnext, hdepth]
  rfl

/-- What a scan finds between two brackets and behind them, when it comes to the opener in code. -/
theorem marksFrom_bracketed {t : Text} {o c : CodePoint} (ht : IsBalanced t)
    (ho : o.isOpener = true) (hc : c.isCloser = true) (depth index : Nat) (x : Text) :
    marksFrom (.code depth) index (o :: (t ++ c :: x)) =
      ⟨index, o, depth⟩ ::
        ((marks t).map fun m => (m.shift (index + 1)).deepen (depth + 1)) ++
      ⟨index + (t.length + 1), c, depth⟩ ::
        (marksFrom (.code depth) 0 x).map (Mark.shift (index + (t.length + 2))) := by
  have hinside : marksFrom (.code (depth + 1)) (index + 1) t =
      (marks t).map fun m => (m.shift (index + 1)).deepen (depth + 1) := by
    rw [ht.marksFrom_code, marksFrom_eq_shift, List.map_map]
    rfl
  have hclose : index + 1 + t.length = index + (t.length + 1) := by omega
  have hbehind : index + (t.length + 1) + 1 = index + (t.length + 2) := by omega
  rw [marksFrom_opener ho, marksFrom_append, hinside, ht.stateAfter_code, marksFrom_closer hc,
    hclose, hbehind, marksFrom_eq_shift (.code depth) (index + (t.length + 2))]
  rfl

/-- If a scan of a text ends in code at some depth, then a balanced text between two brackets behind
it, of whatever kinds, is scanned as on its own, further along and deeper by what is open; the
brackets stand at the depth at which the text ends, and what is behind them is scanned from there. A
string literal in between adds nothing, and moves what is behind it. -/
theorem marks_bracketed {a : Text} {depth : Nat} (ha : stateAfter (.code 0) a = .code depth)
    (x : Text) :
    (∀ (t : Text) (o c : CodePoint), IsBalanced t → o.isOpener = true → c.isCloser = true →
      marks (a ++ o :: (t ++ c :: x)) =
        marks a ++
        ⟨a.length, o, depth⟩ ::
          ((marks t).map fun m => (m.shift (a.length + 1)).deepen (depth + 1)) ++
        ⟨a.length + (t.length + 1), c, depth⟩ ::
          (marksFrom (.code depth) 0 x).map (Mark.shift (a.length + (t.length + 2)))) ∧
    ∀ (quote : CodePoint) (u : Text), quote.isQuote = true → Literal.IsBody quote u →
      marks (a ++ x) = marks a ++ (marksFrom (.code depth) 0 x).map (Mark.shift a.length) ∧
      marks (a ++ quote :: (u ++ quote :: x)) =
        marks a ++ (marksFrom (.code depth) 0 x).map (Mark.shift (a.length + (u.length + 2))) := by
  have hbehind : ∀ y, marks (a ++ y) = marks a ++ marksFrom (.code depth) a.length y := by
    intro y
    rw [marks, marksFrom_append, ha, Nat.zero_add]
    rfl
  constructor
  · intro t o c ht ho hc
    rw [hbehind, marksFrom_bracketed ht ho hc, List.append_assoc]
  · intro quote u hquote hu
    rw [hbehind, hbehind, Literal.marksFrom_quoted hquote hu, ← marksFrom_eq_shift,
      ← marksFrom_eq_shift]
    exact ⟨rfl, rfl⟩

/-- A call that is still open, with a bracket in a literal. -/
def openCall : Text := "f(\x27[\x27"

/-- A balanced text with a closer in a literal. -/
def indexed : Text := "g[\"\x7d\"]"

/-- The rest of the call. -/
def callRest : Text := ",b)"

/-- The brackets around the balanced text are of different kinds, and the literal holds its own
quote behind a backslash. -/
theorem marks_bracketed_openCall :
    (stateAfter (.code 0) openCall = .code 1 ∧ IsBalanced indexed) ∧
    marks (openCall ++ .scalar '(' :: (indexed ++ .scalar '\x7d' :: callRest)) =
      [⟨0, 'f', 0⟩, ⟨1, '(', 0⟩, ⟨5, '(', 1⟩, ⟨6, 'g', 2⟩, ⟨7, '[', 2⟩, ⟨11, ']', 2⟩,
        ⟨12, '\x7d', 1⟩, ⟨13, ',', 1⟩, ⟨14, 'b', 1⟩, ⟨15, ')', 0⟩] ∧
    marks (openCall ++ .scalar '"' :: (Text.ofString "\\\"(" ++ .scalar '"' :: callRest)) =
      [⟨0, 'f', 0⟩, ⟨1, '(', 0⟩, ⟨10, ',', 1⟩, ⟨11, 'b', 1⟩, ⟨12, ')', 0⟩] := by
  have hopen : stateAfter (.code 0) openCall = .code 1 := by decide
  have hindexed : IsBalanced indexed := ⟨by decide, by decide⟩
  have hbody : Literal.IsBody (.scalar '"') (Text.ofString "\\\"(") :=
    .escaped _ (.plain (by decide) (by decide) .nil)
  obtain ⟨hbrackets, hliteral⟩ := marks_bracketed hopen callRest
  refine ⟨⟨hopen, hindexed⟩, ?_, ?_⟩
  · rw [hbrackets indexed _ _ hindexed (by decide) (by decide)]
    decide
  · rw [(hliteral _ _ (by decide) hbody).2]
    decide

end Nesting

end DeclSync
