import DeclSync.Proofs.Assignments
import DeclSync.Proofs.Parameters
import Mathlib.Data.List.Forall2

/-!
# The parameters of a signature

A signature declares each parameter of a parameter list once. What is kept of a parameter is a piece
of it: the parameter as it is, or what stands in front of its first assignment. A piece keeps what
the scans of the whole knew of it, and the type behind it is nothing to them; so what is declared is
cut apart as it was put together, and no default value is left in it.

## Main definitions

- `Signature.IsDeclaredAs` — what a parameter is declared as
- `Signature.kept` — what is kept of a parameter
- `Signature.typeMark` — what is put behind it

`Signature.ofParts_declares` says what a signature declares.
-/

namespace DeclSync

namespace Text

open Nesting (stateAfter)

theorem assignmentFrom?_blanks {blanks : Text} (h : ∀ c ∈ blanks, c.isBlank = true) (t : Text) :
    assignmentFrom? (.code 0) none (blanks ++ t) = t.assignment?.map (· + blanks.length) := by
  have hequal : .scalar '=' ∉ blanks := fun hmem => absurd (h _ hmem) (by decide)
  have hnone : assignmentFrom? (.code 0) none blanks = none :=
    Nesting.assignmentFrom?_eq_none (fun hmem => hequal (Nesting.mem_of_mem_topLevelFrom hmem)) none
  have hbehind : assignmentFrom? (.code 0) (blanks.getLast?.or none) t = t.assignment? := by
    cases hlast : blanks.getLast? with
    | none => rfl
    | some c =>
      refine assignmentFrom?_behind (fun hmem => ?_) _ t
      have hstarts : ∀ d ∈ comparisonStarts, d.isBlank = false := by decide
      have hblank := h c (List.mem_of_getLast? hlast)
      rw [hstarts c hmem] at hblank
      exact absurd hblank (by simp)
  rw [assignmentFrom?_append _ _ fun hlast => absurd (List.mem_of_getLast? hlast) hequal, hnone,
    Nesting.stateAfter_blanks h, hbehind]
  rfl

/-- A text without an assignment has none when it is trimmed. -/
theorem assignment?_trim {t : Text} (h : t.assignment? = none) : t.trim.assignment? = none := by
  obtain ⟨before, after, hbefore, hafter, ht⟩ := exists_trim t
  rw [ht, assignment?, assignmentFrom?_blanks hbefore, Option.map_eq_none_iff, assignment?,
    assignmentFrom?_append _ _ fun _ c hc => ?_, Option.or_eq_none_iff] at h
  · exact h.1
  · have hblank := hafter c (List.mem_of_mem_head? hc)
    constructor
    · rintro rfl
      exact absurd hblank (by decide)
    · rintro rfl
      exact absurd hblank (by decide)

end Text

namespace Signature

open Nesting

/-- What a parameter is declared as: what stands in front of its first assignment, as optional, or
the parameter as it is. -/
def IsDeclaredAs (param declared : Text) : Prop :=
  (∃ i, param.assignment? = some i ∧ declared = Text.trim (param.take i) ++ "?: any") ∨
    (param.assignment? = none ∧ declared = param ++ ": any")

/-- What is kept of a parameter. -/
def kept (param : Text) : Text :=
  match param.assignment? with
  | some i => Text.trim (param.take i)
  | none => param

/-- The type of a parameter, and whether it is optional. -/
def typeMark (param : Text) : Text := if param.assignment?.isSome then "?: any" else ": any"

theorem declareParameter_eq_append (param : Text) :
    declareParameter param = kept param ++ typeMark param := by
  rw [declareParameter, kept, typeMark]
  cases param.assignment? <;> rfl

theorem isDeclaredAs_declareParameter (param : Text) :
    IsDeclaredAs param (declareParameter param) := by
  rw [declareParameter]
  cases hassign : param.assignment? with
  | none => exact .inr ⟨hassign, rfl⟩
  | some i => exact .inl ⟨i, hassign, rfl⟩

/-! ## What is kept of a parameter -/

section Kept

variable {param : Text}

theorem trim_kept (h : param.trim = param) : (kept param).trim = kept param := by
  rw [kept]
  cases param.assignment? with
  | none => exact h
  | some i => exact Text.trim_trim _

theorem assignment?_kept (param : Text) : (kept param).assignment? = none := by
  rw [kept]
  cases hassign : param.assignment? with
  | none => exact hassign
  | some i => exact Text.assignment?_trim (Text.assignmentFrom?_take hassign).2

theorem stateAfter_kept (h : stateAfter (.code 0) param = .code 0) :
    stateAfter (.code 0) (kept param) = .code 0 := by
  rw [kept]
  cases hassign : param.assignment? with
  | none => exact h
  | some i => exact stateAfter_trim (Text.assignmentFrom?_take hassign).1

theorem notMem_topLevelFrom_kept {c : CodePoint} (h : c ∉ topLevelFrom (.code 0) param) :
    c ∉ topLevelFrom (.code 0) (kept param) := by
  rw [kept]
  cases param.assignment? with
  | none => exact h
  | some i =>
    have hfirst := topLevelFrom_prefix (.code 0) (List.take_prefix i param)
    exact notMem_topLevelFrom_trim fun hmem => h (hfirst.mem hmem)

end Kept

/-! ## What is declared -/

theorem typeMark_mem (param : Text) : typeMark param ∈ ([": any", "?: any"] : List Text) := by
  rw [typeMark]
  split
  · exact List.mem_cons_of_mem _ (List.mem_singleton_self _)
  · exact List.mem_cons_self

theorem isPlain_of_mem_typeMark {param : Text} {c : CodePoint} (hc : c ∈ typeMark param) :
    c.IsPlain ∧ c ≠ .scalar '=' ∧ c ≠ .scalar '>' ∧ c ≠ .scalar ',' := by
  have hall : ∀ mark ∈ ([": any", "?: any"] : List Text), ∀ c ∈ mark, c ∉ CodePoint.structural ∧
      c ≠ .scalar '=' ∧ c ≠ .scalar '>' ∧ c ≠ .scalar ',' := by decide
  obtain ⟨hplain, hne⟩ := hall _ (typeMark_mem param) c hc
  exact ⟨CodePoint.isPlain_of_notMem hplain, hne⟩

section Declared

variable {param : Text}

theorem declareParameter_ne_nil (param : Text) : declareParameter param ≠ [] := by
  have hmark : ∀ mark ∈ ([": any", "?: any"] : List Text), mark ≠ [] := by decide
  rw [declareParameter_eq_append]
  exact List.append_ne_nil_of_right_ne_nil _ (hmark _ (typeMark_mem param))

theorem trim_declareParameter (h : param.trim = param) :
    (declareParameter param).trim = declareParameter param := by
  have hmark : ∀ mark ∈ ([": any", "?: any"] : List Text), mark.reverse ≠ [] ∧
      (∀ c ∈ mark.head?, c.isBlank = false) ∧ ∀ c ∈ mark.reverse.head?, c.isBlank = false := by
    decide
  obtain ⟨hne, hbegins, hends⟩ := hmark _ (typeMark_mem param)
  rw [declareParameter_eq_append]
  refine Text.trim_eq_self_iff.2 ⟨?_, ?_⟩
  · exact (Text.trim_eq_self_iff.1 (trim_kept h)).1.append hbegins
  · rw [List.reverse_append]
    exact Text.BeginsWithout.append_of_ne_nil hends hne _

theorem assignment?_declareParameter (param : Text) :
    (declareParameter param).assignment? = none := by
  have hmark : Text.assignmentFrom? (stateAfter (.code 0) (kept param))
      ((kept param).getLast?.or none) (typeMark param) = none :=
    assignmentFrom?_eq_none
      (fun hmem => (isPlain_of_mem_typeMark (mem_of_mem_topLevelFrom hmem)).2.1 rfl) _
  rw [declareParameter_eq_append, Text.assignment?,
    Text.assignmentFrom?_append _ _ fun _ c hc => ?_, hmark, Option.map_none, Option.or_none]
  · exact assignment?_kept param
  · obtain ⟨-, hequal, hgreater, -⟩ := isPlain_of_mem_typeMark (List.mem_of_mem_head? hc)
    exact ⟨hequal, hgreater⟩

theorem stateAfter_declareParameter (h : stateAfter (.code 0) param = .code 0) :
    stateAfter (.code 0) (declareParameter param) = .code 0 := by
  rw [declareParameter_eq_append, stateAfter_append, stateAfter_kept h]
  exact stateAfter_plain (fun c hc => (isPlain_of_mem_typeMark hc).1) 0

theorem comma_notMem_declareParameter (h : .scalar ',' ∉ topLevelFrom (.code 0) param) :
    .scalar ',' ∉ topLevelFrom (.code 0) (declareParameter param) := by
  rw [declareParameter_eq_append, topLevelFrom_append, List.mem_append, not_or]
  refine ⟨notMem_topLevelFrom_kept h, fun hmem => ?_⟩
  exact (isPlain_of_mem_typeMark (mem_of_mem_topLevelFrom hmem)).2.2.2 rfl

end Declared

theorem isCutFrom_declared {ts : List Text} (h : IsCutFrom (.code 0) ts) :
    IsCutFrom (.code 0) (ts.map declareParameter) := by
  induction ts with
  | nil => exact .nil _
  | cons t ts ih =>
    cases h with
    | last hwhole => exact .last (comma_notMem_declareParameter hwhole)
    | cons hwhole hcloses hlater =>
      exact .cons (comma_notMem_declareParameter hwhole) (stateAfter_declareParameter hcloses)
        (ih hlater)

/-- The parameters that a signature declares are cut apart again. -/
theorem parameters_declared (params : Text) :
    parameters (List.intercalate ", " ((parameters params).map declareParameter)) =
      (parameters params).map declareParameter := by
  refine parameters_intercalate (isCutFrom_declared (isCutFrom_parameters params)) fun p hp => ?_
  obtain ⟨param, hparam, rfl⟩ := List.mem_map.1 hp
  exact ⟨declareParameter_ne_nil param, trim_declareParameter (trim_of_mem_parameters hparam).2⟩

/-- A signature declares the parameters of its parameter list one by one, and none of what it
declares has an assignment. -/
theorem ofParts_declares (name params : Text) (isAsync : Bool) : ∃ declared : Text,
    ofParts name params isAsync =
      name ++ "(" ++ declared ++ "): " ++ (if isAsync then "Promise<any>" else "any" : Text) ∧
    List.Forall₂ IsDeclaredAs (parameters params) (parameters declared) ∧
    ∀ p ∈ parameters declared, p.assignment? = none := by
  refine ⟨List.intercalate ", " ((parameters params).map declareParameter), rfl, ?_, ?_⟩
  · rw [parameters_declared, List.forall₂_map_right_iff, List.forall₂_same]
    exact fun p _ => isDeclaredAs_declareParameter p
  · rw [parameters_declared]
    intro p hp
    obtain ⟨param, -, rfl⟩ := List.mem_map.1 hp
    exact assignment?_declareParameter param

/-- A comparison that was cut at its default value is still none of an assignment. -/
example : ofParts "f" "a == =, b <= c = 1, d = \x27" true =
    "f(a ==?: any, b <= c?: any, d?: any): Promise<any>" := by decide

end Signature

end DeclSync
