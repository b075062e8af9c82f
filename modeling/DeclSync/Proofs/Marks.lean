import DeclSync.Text.CodePoint
import Mathlib.Data.List.Basic

/-!
# Where marks stand

A mark stands at an offset of a text if the text begins with it from there on. This module says what
the functions that look for a mark find, in terms of the offsets where it stands.

## Main results

- `Text.after?_eq_none_iff` — when a text does not begin with a mark
- `Text.not_prefix_of_notMem` — a mark does not stand where its first code point does not
- `Text.cut?_eq_some_iff` — a text is cut at the first place where the mark stands
- `Text.mentions_eq_true_iff` — a text mentions what is a piece of it
-/

namespace DeclSync

namespace Text

variable {mark t : Text}

theorem isSome_after?_iff : (after? mark t).isSome ↔ mark <+: t := by
  constructor
  · intro h
    obtain ⟨r, hr⟩ := Option.isSome_iff_exists.1 h
    exact ⟨r, (after?_eq_some_iff.1 hr).symm⟩
  · rintro ⟨r, rfl⟩
    rw [after?_eq_some_iff.2 rfl]
    rfl

theorem after?_eq_none_iff : after? mark t = none ↔ ¬ mark <+: t := by
  rw [← isSome_after?_iff, Option.not_isSome_iff_eq_none]

theorem after?_append (mark t : Text) : after? mark (mark ++ t) = some t :=
  after?_eq_some_iff.2 rfl

theorem drop_eq_of_prefix {i : Nat} (h : mark <+: t.drop i) :
    t.drop i = mark ++ t.drop (i + mark.length) := by
  obtain ⟨r, hr⟩ := h
  rw [← List.drop_drop, ← hr, List.drop_left]

/-- What stands inside the first of two texts stands there in both together. -/
theorem prefix_drop_append_iff {u v : Text} {p : Nat} (h : p + mark.length ≤ u.length) :
    mark <+: (u ++ v).drop p ↔ mark <+: u.drop p := by
  have hfits : mark.length ≤ (u.drop p).length := by
    rw [List.length_drop]
    omega
  rw [List.drop_append_of_le_length (by omega)]
  exact ⟨fun hmark => List.prefix_of_prefix_length_le hmark (List.prefix_append _ _) hfits,
    fun hmark => hmark.trans (List.prefix_append _ _)⟩

theorem cut?_append_self (mark rest : Text) : cut? mark (mark ++ rest) = some ([], rest) := by
  have hhere := after?_append mark rest
  cases htext : mark ++ rest with
  | nil =>
    rw [htext] at hhere
    rw [cut?, hhere]
    rfl
  | cons c t =>
    rw [htext] at hhere
    rw [cut?, hhere]

theorem cut?_append {before rest : Text}
    (hfirst : ∀ k < before.length, ¬ mark <+: (before ++ (mark ++ rest)).drop k) :
    cut? mark (before ++ (mark ++ rest)) = some (before, rest) := by
  induction before with
  | nil => exact cut?_append_self mark rest
  | cons c before ih =>
    have hno := after?_eq_none_iff.2 (hfirst 0 (Nat.succ_pos _))
    rw [List.cons_append, cut?]
    rw [List.drop_zero, List.cons_append] at hno
    rw [hno, ih fun k hk => hfirst (k + 1) (Nat.succ_lt_succ hk)]
    rfl

theorem not_prefix_of_cut? {before rest : Text} (h : cut? mark t = some (before, rest)) :
    ∀ k < before.length, ¬ mark <+: t.drop k := by
  induction t generalizing before with
  | nil =>
    obtain ⟨_, -, heq⟩ := Option.map_eq_some_iff.1 h
    obtain ⟨rfl, -⟩ := Prod.mk.inj heq
    exact fun k hk => absurd hk (Nat.not_lt_zero k)
  | cons c t ih =>
    intro k hk
    rw [cut?] at h
    cases hafter : after? mark (c :: t) with
    | some r =>
      rw [hafter] at h
      obtain ⟨rfl, -⟩ := Prod.mk.inj (Option.some.inj h)
      exact absurd hk (Nat.not_lt_zero k)
    | none =>
      rw [hafter] at h
      obtain ⟨⟨before', rest'⟩, hcut, heq⟩ := Option.map_eq_some_iff.1 h
      obtain ⟨rfl, rfl⟩ := Prod.mk.inj heq
      -- offset zero was looked at here, and all others in the rest
      cases k with
      | zero => exact after?_eq_none_iff.1 hafter
      | succ k => exact ih hcut k (Nat.lt_of_succ_lt_succ hk)

/-- A text is cut at the first place where the mark stands. -/
theorem cut?_eq_some_iff {before rest : Text} :
    cut? mark t = some (before, rest) ↔
      t = before ++ (mark ++ rest) ∧ ∀ k < before.length, ¬ mark <+: t.drop k := by
  constructor
  · intro h
    refine ⟨?_, not_prefix_of_cut? h⟩
    rw [eq_append_of_cut? h, List.append_assoc]
  · rintro ⟨rfl, hfirst⟩
    exact cut?_append hfirst

theorem mentions_eq_true_iff : t.mentions mark = true ↔ mark <:+: t := by
  constructor
  · intro h
    obtain ⟨⟨before, rest⟩, hcut⟩ := Option.isSome_iff_exists.1 h
    exact ⟨before, rest, (eq_append_of_cut? hcut).symm⟩
  · rintro ⟨before, rest, rfl⟩
    induction before with
    | nil =>
      rw [List.nil_append, mentions, cut?_append_self]
      rfl
    | cons c before ih =>
      rw [mentions] at ih ⊢
      rw [List.cons_append, List.cons_append, cut?]
      split
      · rfl
      · rw [Option.isSome_map, ih]

/-- A mark does not begin where its first code point does not stand. -/
theorem not_prefix_of_notMem {m : CodePoint} {body : Text} (hbody : m ∉ body) (rest : Text) :
    ∀ k < body.length, ¬ m :: mark <+: (body ++ rest).drop k := by
  intro k hk hmark
  rw [List.drop_append_of_le_length (Nat.le_of_lt hk), List.drop_eq_getElem_cons hk] at hmark
  have hmem := List.getElem_mem hk
  rw [← (List.cons_prefix_cons.1 hmark).1] at hmem
  exact hbody hmem

/-- A text is cut at the first place where a mark of one code point stands. -/
theorem cut?_of_notMem {m : CodePoint} {before : Text} (hbefore : m ∉ before) (rest : Text) :
    cut? [m] (before ++ ([m] ++ rest)) = some (before, rest) :=
  cut?_eq_some_iff.2 ⟨rfl, not_prefix_of_notMem hbefore _⟩

/-- A text is cut behind its first line. -/
theorem cut?_line {line : Text} (hline : .scalar '\n' ∉ line) (rest : Text) :
    cut? "\n" (line ++ ("\n" ++ rest)) = some (line, rest) :=
  cut?_of_notMem hline rest

end Text

end DeclSync
