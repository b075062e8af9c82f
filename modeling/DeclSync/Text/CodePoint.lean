/-!
# Code points and texts

A text is a list of code points. Files may hold bytes that are no UTF-8, and such a byte travels
through the program as a lone surrogate; so a code point is either a character (a Unicode scalar
value) or a surrogate.

## Main definitions

- `CodePoint` — a character or a surrogate
- `Text` — a list of code points; string literals coerce to it
- `Text.after?` — what follows a mark that opens a text
- `Text.cut?` — the parts of a text around the first place where a mark stands

`after?_eq_some_iff` says that `after? mark t` is the rest of `t` exactly when `t` is the mark and
that rest, and `eq_append_of_cut?` that the two parts and the mark make up the text.
-/

namespace DeclSync

/-- A Unicode code point: a character, or the surrogate `U+D800 + s`. -/
inductive CodePoint where
  | scalar (c : Char)
  | surrogate (s : Fin 0x800)
  deriving DecidableEq

namespace CodePoint

instance : Inhabited CodePoint := ⟨.scalar ' '⟩

instance : Coe Char CodePoint := ⟨.scalar⟩

/-- The number of a code point. -/
def toNat : CodePoint → Nat
  | scalar c => c.toNat
  | surrogate s => 0xD800 + s.val

/-- The code point of a number up to `0x10FFFF`. -/
def ofNat? (n : Nat) : Option CodePoint :=
  if h : n.isValidChar then some (scalar (Char.ofNatAux n h))
  else if h : n - 0xD800 < 0x800 then some (surrogate ⟨n - 0xD800, h⟩)
  else none

theorem ofNat?_toNat (c : CodePoint) : ofNat? c.toNat = some c := by
  cases c with
  | scalar c =>
    have h : c.toNat.isValidChar := c.valid
    rw [toNat, ofNat?, dif_pos h]
    rfl
  | surrogate s =>
    have hs := s.isLt
    have h : ¬ (0xD800 + s.val).isValidChar := by simp [Nat.isValidChar]; omega
    simp [ofNat?, toNat, h]

/-- Whether a code point is a surrogate. -/
def isSurrogate : CodePoint → Bool
  | scalar _ => false
  | surrogate _ => true

/-- The character that a code point is, unless it is a surrogate. -/
def char? : CodePoint → Option Char
  | scalar c => some c
  | surrogate _ => none

end CodePoint

/-- A text: a list of code points. -/
abbrev Text := List CodePoint

namespace Text

/-- The code points of a string. -/
def ofString (s : String) : Text := s.toList.map .scalar

instance : Coe String Text := ⟨ofString⟩

/-- The text as a string, if it holds no surrogate. -/
def toString? (t : Text) : Option String := (t.mapM CodePoint.char?).map String.ofList

/-- The decimal digits of a number. -/
def ofNat (n : Nat) : Text := (Nat.toDigits 10 n).map .scalar

/-- What follows the mark, when the text begins with it. -/
def after? : (mark text : Text) → Option Text
  | [], t => some t
  | _ :: _, [] => none
  | m :: mark, c :: t => if c = m then after? mark t else none

theorem after?_eq_some_iff {mark t r : Text} : after? mark t = some r ↔ t = mark ++ r := by
  induction mark generalizing t with
  | nil => simp [after?]
  | cons m mark ih =>
    cases t with
    | nil => simp [after?]
    | cons c t =>
      by_cases h : c = m
      · simp [after?, h, ih]
      · simp [after?, h]

/-- The text before the first place where the mark stands, and the text after the mark. -/
def cut? (mark : Text) : Text → Option (Text × Text)
  | [] => (after? mark []).map fun r => ([], r)
  | c :: t =>
    match after? mark (c :: t) with
    | some r => some ([], r)
    | none => (cut? mark t).map fun (before, r) => (c :: before, r)

theorem eq_append_of_cut? {mark t before r : Text} (h : cut? mark t = some (before, r)) :
    t = before ++ mark ++ r := by
  induction t generalizing before with
  | nil =>
    simp only [cut?, Option.map_eq_some_iff, Prod.mk.injEq] at h
    obtain ⟨r, hr, rfl, rfl⟩ := h
    simpa using after?_eq_some_iff.1 hr
  | cons c t ih =>
    simp only [cut?] at h
    split at h
    · next r' hr =>
      obtain ⟨rfl, rfl⟩ : [] = before ∧ r' = r := by simpa using h
      simpa using after?_eq_some_iff.1 hr
    · obtain ⟨⟨before', r'⟩, hr, he⟩ := Option.map_eq_some_iff.1 h
      obtain ⟨rfl, rfl⟩ : c :: before' = before ∧ r' = r := by simpa using he
      rw [ih hr]
      rfl

/-- Whether the mark stands anywhere in the text. -/
def mentions (t mark : Text) : Bool := (cut? mark t).isSome

/-- Whether the text begins with the mark. -/
def beginsWith (t mark : Text) : Bool := (after? mark t).isSome

end Text

end DeclSync
