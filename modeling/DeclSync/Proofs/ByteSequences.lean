import DeclSync.Proofs.Utf8

/-!
# The bytes of a character

Which bytes encode which character, byte by byte: the first byte says how many bytes follow it, and
four first bytes narrow the range of the second one. So no character has an encoding that is longer
than it has to be, surrogates have none, and no number is beyond the last character.

## Main definitions

- `Bytes.IsTrail` — a byte that does not begin a character
- `Bytes.Encodes` — the bytes that encode the character of a number

`Bytes.encodes_iff` says that these are the bytes that characters are written as.
-/

namespace DeclSync

namespace Bytes

/-- A byte that follows the first one of a character. -/
def IsTrail (b : UInt8) : Prop := 0x80 ≤ b.toNat ∧ b.toNat ≤ 0xBF

/-- A second byte that can follow a first one: no shorter encoding would do, and the number is that
of a character. -/
structure MayFollow (a b : UInt8) : Prop where
  trail : IsTrail b
  not_overlong_three : a.toNat = 0xE0 → 0xA0 ≤ b.toNat
  not_surrogate : a.toNat = 0xED → b.toNat ≤ 0x9F
  not_overlong_four : a.toNat = 0xF0 → 0x90 ≤ b.toNat
  not_beyond : a.toNat = 0xF4 → b.toNat ≤ 0x8F

/-- The bytes that encode the character of a number. -/
inductive Encodes : Bytes → Nat → Prop where
  | one {a : UInt8} {n : Nat} (ha : a.toNat ≤ 0x7F) (hn : n = a.toNat) : Encodes [a] n
  | two {a b : UInt8} {n : Nat} (ha : 0xC2 ≤ a.toNat ∧ a.toNat ≤ 0xDF) (hb : IsTrail b)
      (hn : n = (a.toNat - 0xC0) * 0x40 + (b.toNat - 0x80)) : Encodes [a, b] n
  | three {a b c : UInt8} {n : Nat} (ha : 0xE0 ≤ a.toNat ∧ a.toNat ≤ 0xEF) (hb : MayFollow a b)
      (hc : IsTrail c)
      (hn : n = (a.toNat - 0xE0) * 0x1000 + (b.toNat - 0x80) * 0x40 + (c.toNat - 0x80)) :
      Encodes [a, b, c] n
  | four {a b c d : UInt8} {n : Nat} (ha : 0xF0 ≤ a.toNat ∧ a.toNat ≤ 0xF4) (hb : MayFollow a b)
      (hc : IsTrail c) (hd : IsTrail d)
      (hn : n = (a.toNat - 0xF0) * 0x40000 + (b.toNat - 0x80) * 0x1000 + (c.toNat - 0x80) * 0x40 +
        (d.toNat - 0x80)) : Encodes [a, b, c, d] n

/-- A character begins with a byte that follows none, and no other of its bytes does. -/
theorem Encodes.exists_cons {w : Bytes} {n : Nat} (h : Encodes w n) :
    ∃ a trail, w = a :: trail ∧ ¬ IsTrail a ∧ ∀ b ∈ trail, IsTrail b := by
  have hfirst : ∀ a : UInt8, a.toNat ≤ 0x7F ∨ 0xC0 ≤ a.toNat → ¬ IsTrail a := by
    rintro a ha ⟨hlow, hhigh⟩
    omega
  cases h with
  | one ha => exact ⟨_, [], rfl, hfirst _ (.inl ha), by simp⟩
  | two ha hb => exact ⟨_, _, rfl, hfirst _ (by omega), by simpa using hb⟩
  | three ha hb hc => exact ⟨_, _, rfl, hfirst _ (by omega), by simpa using ⟨hb.trail, hc⟩⟩
  | four ha hb hc hd => exact ⟨_, _, rfl, hfirst _ (by omega), by simpa using ⟨hb.trail, hc, hd⟩⟩

/-- The number is that of a character. -/
theorem Encodes.isValidChar {w : Bytes} {n : Nat} (h : Encodes w n) : n.isValidChar := by
  cases h with
  | one ha hn =>
    left
    omega
  | two ha hb hn =>
    obtain ⟨hlow, hhigh⟩ := hb
    left
    omega
  | @three a b c n ha hb hc hn =>
    obtain ⟨⟨hlow, hhigh⟩, hthree, hsurrogate, -, -⟩ := hb
    obtain ⟨hlow', hhigh'⟩ := hc
    by_cases hbelow : a.toNat ≤ 0xED
    · have hcases : a.toNat = 0xED ∨ a.toNat < 0xED := by omega
      left
      omega
    · right
      omega
  | four ha hb hc hd hn =>
    obtain ⟨⟨hlow, hhigh⟩, -, -, hfour, hbeyond⟩ := hb
    obtain ⟨hlow', hhigh'⟩ := hc
    obtain ⟨hlow'', hhigh''⟩ := hd
    right
    omega

/-- The bytes of a number are what its character is written as. -/
theorem Encodes.utf8EncodeChar_eq {w : Bytes} {c : Char} (h : Encodes w c.toNat) :
    String.utf8EncodeChar c = w := by
  have hval : c.val.toNat = c.toNat := rfl
  generalize c.toNat = n at h hval
  simp only [String.utf8EncodeChar, hval]
  cases h with
  | one ha hn => rw [if_pos (by omega), hn, UInt8.ofNat_toNat]
  | @two a b n ha hb hn =>
    obtain ⟨hlow, hhigh⟩ := hb
    have hfirst : n / 64 % 32 + 192 = a.toNat := by omega
    have hlast : n % 64 + 128 = b.toNat := by omega
    rw [if_neg (by omega), if_pos (by omega), hfirst, hlast, UInt8.ofNat_toNat, UInt8.ofNat_toNat]
  | @three a b c n ha hb hc hn =>
    obtain ⟨⟨hlow, hhigh⟩, hlong, -, -, -⟩ := hb
    obtain ⟨hlow', hhigh'⟩ := hc
    have hfirst : n / 4096 % 16 + 224 = a.toNat := by omega
    have hsecond : n / 64 % 64 + 128 = b.toNat := by omega
    have hlast : n % 64 + 128 = c.toNat := by omega
    rw [if_neg (by omega), if_neg (by omega), if_pos (by omega), hfirst, hsecond, hlast,
      UInt8.ofNat_toNat, UInt8.ofNat_toNat, UInt8.ofNat_toNat]
  | @four a b c d n ha hb hc hd hn =>
    obtain ⟨⟨hlow, hhigh⟩, -, -, hlong, hbeyond⟩ := hb
    obtain ⟨hlow', hhigh'⟩ := hc
    obtain ⟨hlow'', hhigh''⟩ := hd
    have hfirst : n / 262144 % 8 + 240 = a.toNat := by omega
    have hsecond : n / 4096 % 64 + 128 = b.toNat := by omega
    have hthird : n / 64 % 64 + 128 = c.toNat := by omega
    have hlast : n % 64 + 128 = d.toNat := by omega
    rw [if_neg (by omega), if_neg (by omega), if_neg (by omega), hfirst, hsecond, hthird, hlast,
      UInt8.ofNat_toNat, UInt8.ofNat_toNat, UInt8.ofNat_toNat, UInt8.ofNat_toNat]

/-- What a character is written as encodes its number. -/
theorem encodes_utf8EncodeChar (c : Char) : Encodes (String.utf8EncodeChar c) c.toNat := by
  have hval : c.val.toNat = c.toNat := rfl
  have hvalid : c.toNat.isValidChar := c.valid
  have hbyte : ∀ k < 0x100, (UInt8.ofNat k).toNat = k := by
    intro k hk
    rw [UInt8.toNat_ofNat', Nat.mod_eq_of_lt hk]
  simp only [String.utf8EncodeChar, hval]
  generalize c.toNat = n at hvalid
  have hlast : n < 0x110000 ∧ (n < 0xD800 ∨ 0xDFFF < n) := by
    rcases hvalid with h | h <;> omega
  split
  · refine .one ?_ ?_ <;> rw [hbyte _ (by omega)]
    assumption
  · split
    · refine .two ?_ ⟨?_, ?_⟩ ?_ <;> simp only [hbyte, show n / 64 % 32 + 192 < 0x100 by omega,
        show n % 64 + 128 < 0x100 by omega] <;> omega
    · split
      · refine .three ?_ ⟨⟨?_, ?_⟩, ?_, ?_, ?_, ?_⟩ ⟨?_, ?_⟩ ?_ <;>
          simp only [hbyte, show n / 4096 % 16 + 224 < 0x100 by omega,
            show n / 64 % 64 + 128 < 0x100 by omega, show n % 64 + 128 < 0x100 by omega] <;> omega
      · refine .four ?_ ⟨⟨?_, ?_⟩, ?_, ?_, ?_, ?_⟩ ⟨?_, ?_⟩ ⟨?_, ?_⟩ ?_ <;>
          simp only [hbyte, show n / 262144 % 8 + 240 < 0x100 by omega,
            show n / 4096 % 64 + 128 < 0x100 by omega, show n / 64 % 64 + 128 < 0x100 by omega,
            show n % 64 + 128 < 0x100 by omega] <;> omega

/-- Bytes encode a number exactly if they are what the character of that number is written as. -/
theorem encodes_iff {w : Bytes} {n : Nat} :
    Encodes w n ↔ ∃ c : Char, c.toNat = n ∧ String.utf8EncodeChar c = w := by
  constructor
  · intro h
    refine ⟨Char.ofNatAux n h.isValidChar, rfl, Encodes.utf8EncodeChar_eq ?_⟩
    exact h
  · rintro ⟨c, rfl, rfl⟩
    exact encodes_utf8EncodeChar c

end Bytes

end DeclSync
