import DeclSync.Text.CodePoint

/-!
# Texts as bytes

UTF-8 in both directions, without loss for any bytes: where no character is encoded, one byte is
taken and carried as the surrogate `U+DC00 + byte`, and such a surrogate is written as that byte
again. Other surrogates cannot be written.

## Main definitions

- `Bytes` — the contents of a file
- `Text.ofBytes` — the text that bytes stand for
- `Text.toBytes` — the bytes of a text, or the surrogates that keep it from being written

`Bytes.leadingChar?_eq_some_iff` says that a character is read exactly where its encoding stands.
-/

namespace DeclSync

/-- The contents of a file. -/
abbrev Bytes := List UInt8

/-- The code point that carries a byte which belongs to no encoded character. -/
def CodePoint.ofStrayByte (b : UInt8) : CodePoint :=
  .surrogate ⟨0x400 + b.toNat, by have := b.toNat_lt; omega⟩

/-- Whether a code point can be written: a character, or a surrogate that carries a byte beyond
ASCII. -/
def CodePoint.isWritable : CodePoint → Bool
  | .scalar _ => true
  | .surrogate s => 0x480 ≤ s.val && s.val < 0x500

/-- The bytes that a code point is written as; none for one that cannot be written. -/
def CodePoint.bytes : CodePoint → Bytes
  | .scalar c => String.utf8EncodeChar c
  | .surrogate s => if 0x480 ≤ s.val ∧ s.val < 0x500 then [UInt8.ofNat (s.val - 0x400)] else []

/-- The character whose encoding the bytes begin with. No encoded character is longer than four
bytes. -/
def Bytes.leadingChar? (bytes : Bytes) : Option Char := (bytes.take 4).toByteArray.utf8DecodeChar? 0

/-- A character is read exactly where its encoding stands. -/
theorem Bytes.leadingChar?_eq_some_iff {bytes : Bytes} {c : Char} :
    bytes.leadingChar? = some c ↔ ∃ rest, bytes = String.utf8EncodeChar c ++ rest := by
  constructor
  · intro h
    obtain ⟨r, hr⟩ := ByteArray.exists_of_utf8DecodeChar?_eq_some h
    have hl : bytes.take 4 = String.utf8EncodeChar c ++ r.data.toList := by
      simpa using congrArg (fun b => b.data.toList) hr
    exact ⟨r.data.toList ++ bytes.drop 4, by rw [← List.append_assoc, ← hl, List.take_append_drop]⟩
  · rintro ⟨rest, rfl⟩
    have hc : (String.utf8EncodeChar c).length ≤ 4 := by
      rw [String.length_utf8EncodeChar]
      exact Char.utf8Size_le_four c
    rw [leadingChar?, List.take_append, List.take_of_length_le hc, List.toByteArray_append]
    exact ByteArray.utf8DecodeChar?_utf8EncodeChar_append

/-- Reads bytes of which the first `covered` belong to the character read last. -/
def Bytes.decodeFrom (covered : Nat) : Bytes → Text
  | [] => []
  | b :: bytes =>
    match covered with
    | covered + 1 => decodeFrom covered bytes
    | 0 =>
      match Bytes.leadingChar? (b :: bytes) with
      | some c => c :: decodeFrom (c.utf8Size - 1) bytes
      | none => .ofStrayByte b :: decodeFrom 0 bytes

/-- A run of surrogates that keeps a text from being written: the offsets of its first and last code
point, and the first of them. -/
structure Unwritable where
  first : Nat
  last : Nat
  codePoint : CodePoint

namespace Text

/-- The text that bytes stand for. -/
def ofBytes (bytes : Bytes) : Text := bytes.decodeFrom 0

/-- The first code point that cannot be written, together with the surrogates that follow it
directly. -/
def unwritable? (t : Text) : Option Unwritable :=
  let before := t.takeWhile CodePoint.isWritable
  match t.drop before.length with
  | [] => none
  | c :: rest =>
    some ⟨before.length, before.length + (rest.takeWhile CodePoint.isSurrogate).length, c⟩

/-- The bytes that a text is written as. -/
def toBytes (t : Text) : Except Unwritable Bytes :=
  match t.unwritable? with
  | none => .ok (t.flatMap CodePoint.bytes)
  | some run => .error run

end Text

end DeclSync
