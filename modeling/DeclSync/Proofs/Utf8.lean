import DeclSync.Text.Utf8
import Mathlib.Data.List.TakeWhile

/-!
# Bytes, texts and back

Reading a file loses nothing: the text of any bytes is written as those bytes. The other way round
a text may change when it is read back, since stray bytes that were apart can come to stand together
as a character. That never happens across an ASCII character, so what stands between two of them is
read back by itself.

## Main definitions

- `CodePoint.isAscii` — whether a code point is a character below `0x80`
- `Text.reread` — a text after it was written and read back
- `Text.IsDecoded` — a text that is read back as it was

`Text.bytes_ofBytes` says that nothing is lost, and `Text.reread_append` that texts are read back one
by one where they meet at an ASCII character.
-/

namespace DeclSync

/-! ## The bytes of a code point -/

theorem utf8EncodeChar_of_lt {c : Char} (h : c.toNat < 0x80) :
    String.utf8EncodeChar c = [UInt8.ofNat c.toNat] := by
  rw [String.utf8EncodeChar]
  exact if_pos (Nat.le_of_lt_succ h)

/-- A byte below `0x80` is the whole encoding of its character. -/
theorem utf8EncodeChar_eq_of_mem {c : Char} {b : UInt8} (hb : b ∈ String.utf8EncodeChar c)
    (hlt : b < 0x80) : String.utf8EncodeChar c = [b] ∧ c.toNat < 0x80 := by
  rw [UInt8.lt_iff_toNat_lt] at hlt
  -- all bytes of a longer encoding are beyond ASCII
  have hhigh : ∀ n, 0x80 ≤ n % 256 → b ≠ UInt8.ofNat n := by
    rintro n hn rfl
    rw [UInt8.toNat_ofNat'] at hlt
    exact absurd (Nat.lt_of_le_of_lt hn hlt) (by decide)
  simp only [String.utf8EncodeChar] at hb ⊢
  split at hb
  · next hone =>
    rw [if_pos hone, List.mem_singleton.1 hb]
    exact ⟨rfl, Nat.lt_succ_of_le hone⟩
  · split at hb
    · simp only [List.mem_cons, List.not_mem_nil, or_false] at hb
      rcases hb with hb | hb <;> exact absurd hb (hhigh _ (by omega))
    · split at hb
      · simp only [List.mem_cons, List.not_mem_nil, or_false] at hb
        rcases hb with hb | hb | hb <;> exact absurd hb (hhigh _ (by omega))
      · simp only [List.mem_cons, List.not_mem_nil, or_false] at hb
        rcases hb with hb | hb | hb | hb <;> exact absurd hb (hhigh _ (by omega))

namespace CodePoint

/-- Whether a code point is a character below `0x80`. -/
def isAscii : CodePoint → Bool
  | scalar c => c.toNat < 0x80
  | surrogate _ => false

theorem exists_bytes_eq {c : CodePoint} (h : c.isAscii = true) : ∃ b, c.bytes = [b] ∧ b < 0x80 := by
  cases c with
  | surrogate s => exact absurd h (by simp [isAscii])
  | scalar c =>
    have hlt : c.toNat < 0x80 := by simpa [isAscii] using h
    refine ⟨UInt8.ofNat c.toNat, utf8EncodeChar_of_lt hlt, ?_⟩
    rw [UInt8.lt_iff_toNat_lt, UInt8.toNat_ofNat', Nat.mod_eq_of_lt (by omega)]
    exact hlt

/-- Bytes below `0x80` are those of ASCII characters. -/
theorem bytes_eq_of_mem {c : CodePoint} {b : UInt8} (hb : b ∈ c.bytes) (hlt : b < 0x80) :
    c.bytes = [b] ∧ c.isAscii = true := by
  cases c with
  | scalar c =>
    obtain ⟨hbytes, hascii⟩ := utf8EncodeChar_eq_of_mem hb hlt
    exact ⟨hbytes, by simpa [isAscii] using hascii⟩
  | surrogate s =>
    rw [bytes] at hb
    split at hb
    · next hrange =>
      obtain rfl := List.mem_singleton.1 hb
      rw [UInt8.lt_iff_toNat_lt, UInt8.toNat_ofNat'] at hlt
      have hsmall : (s.val - 0x400) % 2 ^ 8 < 0x80 := hlt
      omega
    · simp at hb

theorem bytes_ne_nil {c : CodePoint} (h : c.isWritable = true) : c.bytes ≠ [] := by
  cases c with
  | scalar c => exact String.utf8EncodeChar_ne_nil
  | surrogate s =>
    have hrange : 0x480 ≤ s.val ∧ s.val < 0x500 := by simpa [isWritable] using h
    rw [bytes, if_pos hrange]
    simp

/-- A surrogate that can be written carries a byte. -/
theorem exists_bytes_eq_of_isSurrogate {c : CodePoint} (h : c.isSurrogate = true)
    (hwritable : c.isWritable = true) : ∃ b, c.bytes = [b] ∧ c = .ofStrayByte b := by
  cases c with
  | scalar c => exact absurd h (by simp [isSurrogate])
  | surrogate s =>
    have hrange : 0x480 ≤ s.val ∧ s.val < 0x500 := by simpa [isWritable] using hwritable
    have hbytes : (surrogate s).bytes = [UInt8.ofNat (s.val - 0x400)] := by
      rw [bytes, if_pos hrange]
    have hbyte : (UInt8.ofNat (s.val - 0x400)).toNat = s.val - 0x400 := by
      rw [UInt8.toNat_ofNat', Nat.mod_eq_of_lt (by omega)]
    refine ⟨_, hbytes, ?_⟩
    rw [ofStrayByte, surrogate.injEq, Fin.ext_iff]
    simp only [hbyte]
    omega

theorem bytes_ofStrayByte {b : UInt8} (h : 0x80 ≤ b) :
    (ofStrayByte b).bytes = [b] ∧ (ofStrayByte b).isWritable = true := by
  rw [UInt8.le_iff_toNat_le] at h
  have hle : 0x80 ≤ b.toNat := h
  have hlt := b.toNat_lt
  constructor
  · have hrange : 0x480 ≤ 0x400 + b.toNat ∧ 0x400 + b.toNat < 0x500 := by omega
    rw [ofStrayByte, bytes]
    simp only [hrange, and_self, if_true, Nat.add_sub_cancel_left, UInt8.ofNat_toNat]
  · simp only [ofStrayByte, isWritable, Bool.and_eq_true, decide_eq_true_eq]
    omega

end CodePoint

/-! ## Reading bytes -/

namespace Text

theorem decodeFrom_covered (u rest : Bytes) :
    Bytes.decodeFrom u.length (u ++ rest) = ofBytes rest := by
  induction u with
  | nil => rfl
  | cons b u ih => exact ih

theorem ofBytes_utf8EncodeChar (c : Char) (rest : Bytes) :
    ofBytes (String.utf8EncodeChar c ++ rest) = .scalar c :: ofBytes rest := by
  have hread : Bytes.leadingChar? (String.utf8EncodeChar c ++ rest) = some c :=
    Bytes.leadingChar?_eq_some_iff.2 ⟨rest, rfl⟩
  have hsize : (String.utf8EncodeChar c).length = c.utf8Size := String.length_utf8EncodeChar c
  obtain ⟨b, u, hu⟩ := List.exists_cons_of_ne_nil (String.utf8EncodeChar_ne_nil (c := c))
  rw [hu, List.cons_append] at hread ⊢
  rw [hu, List.length_cons] at hsize
  rw [ofBytes, Bytes.decodeFrom, hread]
  simp only [← hsize, Nat.add_sub_cancel, decodeFrom_covered]

/-- A text of characters is read where its bytes stand. -/
theorem ofBytes_flatMap_append {t : Text} (h : ∀ c ∈ t, c.isSurrogate = false) (rest : Bytes) :
    ofBytes (t.flatMap CodePoint.bytes ++ rest) = t ++ ofBytes rest := by
  induction t with
  | nil => rfl
  | cons c t ih =>
    rw [List.forall_mem_cons] at h
    cases c with
    | surrogate s => exact absurd h.1 (by simp [CodePoint.isSurrogate])
    | scalar c =>
      rw [List.flatMap_cons, List.append_assoc]
      exact (ofBytes_utf8EncodeChar c _).trans (congrArg _ (ih h.2))

theorem ofBytes_stray {b : UInt8} {rest : Bytes} (h : Bytes.leadingChar? (b :: rest) = none) :
    ofBytes (b :: rest) = .ofStrayByte b :: ofBytes rest := by
  rw [ofBytes, Bytes.decodeFrom, h]
  rfl

/-- Where no character is read, the byte is beyond ASCII. -/
theorem le_of_leadingChar?_eq_none {b : UInt8} {rest : Bytes}
    (h : Bytes.leadingChar? (b :: rest) = none) : 0x80 ≤ b := by
  by_contra hlt
  rw [UInt8.not_le, UInt8.lt_iff_toNat_lt] at hlt
  have hvalid : b.toNat.isValidChar := .inl (Nat.lt_trans hlt (by decide))
  have hcode : (Char.ofNat b.toNat).toNat = b.toNat := by
    rw [Char.ofNat, dif_pos hvalid]
    rfl
  have hread : Bytes.leadingChar? (b :: rest) = some (Char.ofNat b.toNat) := by
    refine Bytes.leadingChar?_eq_some_iff.2 ⟨rest, ?_⟩
    rw [utf8EncodeChar_of_lt (by rw [hcode]; exact hlt), hcode, UInt8.ofNat_toNat]
    rfl
  exact absurd (h.symm.trans hread) (by simp)

/-- Bytes are read character by character, and one by one where no character is encoded. -/
theorem ofBytes_induction {motive : Bytes → Prop} (nil : motive [])
    (char : ∀ c rest, motive rest → motive (String.utf8EncodeChar c ++ rest))
    (stray : ∀ b rest, Bytes.leadingChar? (b :: rest) = none → motive rest → motive (b :: rest))
    (bytes : Bytes) : motive bytes := by
  induction hn : bytes.length using Nat.strongRecOn generalizing bytes with
  | ind n ih =>
    cases bytes with
    | nil => exact nil
    | cons b rest =>
      cases hread : Bytes.leadingChar? (b :: rest) with
      | none =>
        refine stray b rest hread (ih rest.length ?_ rest rfl)
        rw [← hn]
        exact Nat.lt_succ_self _
      | some c =>
        obtain ⟨after, hafter⟩ := Bytes.leadingChar?_eq_some_iff.1 hread
        rw [hafter] at hn ⊢
        refine char c after (ih after.length ?_ after rfl)
        have hpos := List.length_pos_iff.2 (String.utf8EncodeChar_ne_nil (c := c))
        rw [← hn, List.length_append]
        omega

/-- Nothing is lost when bytes are read. -/
theorem bytes_ofBytes (bytes : Bytes) : (ofBytes bytes).flatMap CodePoint.bytes = bytes := by
  induction bytes using ofBytes_induction with
  | nil => rfl
  | char c rest ih =>
    rw [ofBytes_utf8EncodeChar, List.flatMap_cons, ih]
    rfl
  | stray b rest hread ih =>
    rw [ofBytes_stray hread, List.flatMap_cons, ih,
      (CodePoint.bytes_ofStrayByte (le_of_leadingChar?_eq_none hread)).1]
    rfl

theorem isWritable_of_mem_ofBytes {bytes : Bytes} {c : CodePoint} (hc : c ∈ ofBytes bytes) :
    c.isWritable = true := by
  induction bytes using ofBytes_induction with
  | nil => exact absurd hc List.not_mem_nil
  | char d rest ih =>
    rw [ofBytes_utf8EncodeChar, List.mem_cons] at hc
    rcases hc with rfl | hc
    · rfl
    · exact ih hc
  | stray b rest hread ih =>
    rw [ofBytes_stray hread, List.mem_cons] at hc
    rcases hc with rfl | hc
    · exact (CodePoint.bytes_ofStrayByte (le_of_leadingChar?_eq_none hread)).2
    · exact ih hc

/-- No character is read across a cut where a byte below `0x80` stands. -/
theorem leadingChar?_append_eq_none {b : UInt8} {rest v : Bytes}
    (hread : Bytes.leadingChar? (b :: rest) = none)
    (h : (∀ x ∈ (b :: rest).getLast?, x < 0x80) ∨ ∀ x ∈ v.head?, x < 0x80) :
    Bytes.leadingChar? (b :: rest ++ v) = none := by
  cases hacross : Bytes.leadingChar? (b :: rest ++ v) with
  | none => rfl
  | some c =>
    have hno : ∀ after, b :: rest ≠ String.utf8EncodeChar c ++ after := by
      intro after hafter
      rw [Bytes.leadingChar?_eq_some_iff.2 ⟨after, hafter⟩] at hread
      exact absurd hread (by simp)
    obtain ⟨after, hafter⟩ := Bytes.leadingChar?_eq_some_iff.1 hacross
    rcases List.append_eq_append_iff.1 hafter with ⟨inside, hencoded, hv⟩ | ⟨inside, hencoded, -⟩
    · cases inside with
      | nil => exact absurd hencoded.symm (by simpa using hno [])
      | cons x inside =>
        -- the cut is inside the encoding, which has no byte below `0x80` then
        have hlong : ∀ y ∈ String.utf8EncodeChar c, ¬ y < 0x80 := by
          intro y hy hlt
          have hone := congrArg List.length (utf8EncodeChar_eq_of_mem hy hlt).1
          rw [hencoded] at hone
          simp at hone
        rcases h with hlast | hhead
        · obtain ⟨y, hy⟩ := Option.isSome_iff_exists.1
            (List.getLast?_isSome.2 (List.cons_ne_nil b rest))
          refine absurd (hlast y hy) (hlong y ?_)
          rw [hencoded]
          exact List.mem_append_left _ (List.mem_of_getLast? hy)
        · refine absurd (hhead x (by rw [hv]; rfl)) (hlong x ?_)
          rw [hencoded]
          simp
    · exact absurd hencoded (hno inside)

/-- Bytes that were cut where a byte below `0x80` stands are read one after the other. -/
theorem ofBytes_append {u v : Bytes}
    (h : (∀ b ∈ u.getLast?, b < 0x80) ∨ ∀ b ∈ v.head?, b < 0x80) :
    ofBytes (u ++ v) = ofBytes u ++ ofBytes v := by
  -- what was read first does not matter for where the bytes are cut
  have hlater : ∀ {w rest : Bytes}, ((∀ b ∈ (w ++ rest).getLast?, b < 0x80) ∨
      ∀ b ∈ v.head?, b < 0x80) → (∀ b ∈ rest.getLast?, b < 0x80) ∨ ∀ b ∈ v.head?, b < 0x80 := by
    intro w rest h
    refine h.imp_left fun hlast b hb => hlast b ?_
    rw [List.getLast?_append, Option.mem_def.1 hb]
    rfl
  induction u using ofBytes_induction with
  | nil => rfl
  | char c rest ih =>
    rw [List.append_assoc, ofBytes_utf8EncodeChar, ofBytes_utf8EncodeChar, ih (hlater h)]
    rfl
  | stray b rest hread ih =>
    have hnone : Bytes.leadingChar? (b :: (rest ++ v)) = none :=
      leadingChar?_append_eq_none hread h
    rw [List.cons_append, ofBytes_stray hnone, ofBytes_stray hread, ih (hlater (w := [b]) h)]
    rfl

/-! ## What can be written -/

theorem unwritable?_eq_none_iff {t : Text} :
    t.unwritable? = none ↔ ∀ c ∈ t, c.isWritable = true := by
  have hrest : t.drop (t.takeWhile CodePoint.isWritable).length =
      t.dropWhile CodePoint.isWritable := by
    have hsplit := List.takeWhile_append_dropWhile (p := CodePoint.isWritable) (l := t)
    exact (congrArg (List.drop _) hsplit).symm.trans List.drop_left
  rw [← List.dropWhile_eq_nil_iff, unwritable?, hrest]
  cases t.dropWhile CodePoint.isWritable <;> simp

theorem toBytes_eq_ok_iff {t : Text} {bytes : Bytes} :
    t.toBytes = .ok bytes ↔ (∀ c ∈ t, c.isWritable = true) ∧ t.flatMap CodePoint.bytes = bytes := by
  rw [← unwritable?_eq_none_iff, toBytes]
  cases t.unwritable? <;> simp

/-! ## Writing a text and reading it back -/

/-- The text that is read back after a text was written. -/
def reread (t : Text) : Text := ofBytes (t.flatMap CodePoint.bytes)

/-- A text that is read back as it was, such as any text that was read. -/
def IsDecoded (t : Text) : Prop := t.reread = t

theorem isDecoded_ofBytes (bytes : Bytes) : (ofBytes bytes).IsDecoded := by
  rw [IsDecoded, reread, bytes_ofBytes]

theorem bytes_reread (t : Text) : t.reread.flatMap CodePoint.bytes = t.flatMap CodePoint.bytes :=
  bytes_ofBytes _

/-- A text that ends with an ASCII character, or is empty. -/
def EndsAscii (t : Text) : Prop := ∀ c ∈ t.getLast?, c.isAscii = true

/-- A text that begins with an ASCII character, or is empty. -/
def BeginsAscii (t : Text) : Prop := ∀ c ∈ t.head?, c.isAscii = true

/-- Texts that meet at an ASCII character are read back one by one. -/
theorem reread_append {u v : Text} (h : u.EndsAscii ∨ v.BeginsAscii) :
    (u ++ v).reread = u.reread ++ v.reread := by
  rw [reread, List.flatMap_append]
  refine ofBytes_append (h.imp (fun hu => ?_) fun hv => ?_)
  · rcases List.eq_nil_or_concat u with rfl | ⟨u, c, rfl⟩
    · simp
    · obtain ⟨x, hx, hlt⟩ := CodePoint.exists_bytes_eq (hu c (by simp))
      simpa [hx] using hlt
  · cases v with
    | nil => simp
    | cons c v =>
      obtain ⟨x, hx, hlt⟩ := CodePoint.exists_bytes_eq (hv c (by simp))
      simpa [hx] using hlt

theorem reread_cons {c : CodePoint} (hc : c.isAscii = true) (t : Text) :
    reread (c :: t) = c :: t.reread := by
  cases c with
  | surrogate s => exact absurd hc (by simp [CodePoint.isAscii])
  | scalar c => exact ofBytes_utf8EncodeChar c _

namespace IsDecoded

variable {c : CodePoint} {t : Text}

theorem isWritable (h : t.IsDecoded) : ∀ c ∈ t, c.isWritable = true := by
  intro c hc
  rw [← show t.reread = t from h] at hc
  exact isWritable_of_mem_ofBytes hc

/-- The first code point of a decoded text is a character, or a stray byte with which no character
begins. -/
theorem cons_cases (h : IsDecoded (c :: t)) : t.IsDecoded ∧ ((∃ d : Char, c = .scalar d) ∨
    ∃ b, c.bytes = [b] ∧ c = .ofStrayByte b ∧
      Bytes.leadingChar? (b :: t.flatMap CodePoint.bytes) = none) := by
  have hwritable := h.isWritable c List.mem_cons_self
  rw [IsDecoded, reread, List.flatMap_cons] at h
  cases hc : c.isSurrogate with
  | false =>
    cases c with
    | surrogate s => exact absurd hc (by simp [CodePoint.isSurrogate])
    | scalar d =>
      rw [show (CodePoint.scalar d).bytes = String.utf8EncodeChar d from rfl,
        ofBytes_utf8EncodeChar] at h
      exact ⟨(List.cons.inj h).2, .inl ⟨d, rfl⟩⟩
  | true =>
    obtain ⟨b, hbytes, hb⟩ := CodePoint.exists_bytes_eq_of_isSurrogate hc hwritable
    rw [hbytes, List.singleton_append] at h
    cases hread : Bytes.leadingChar? (b :: t.flatMap CodePoint.bytes) with
    | some d =>
      obtain ⟨after, hafter⟩ := Bytes.leadingChar?_eq_some_iff.1 hread
      rw [hafter, ofBytes_utf8EncodeChar] at h
      rw [← (List.cons.inj h).1] at hc
      exact absurd hc (by simp [CodePoint.isSurrogate])
    | none =>
      rw [ofBytes_stray hread] at h
      exact ⟨(List.cons.inj h).2, .inr ⟨b, hbytes, hb, hread⟩⟩

theorem tail (h : IsDecoded (c :: t)) : t.IsDecoded := h.cons_cases.1

theorem drop (h : t.IsDecoded) (n : Nat) : IsDecoded (t.drop n) := by
  induction n generalizing t with
  | zero => exact h
  | succ n ih =>
    cases t with
    | nil => exact h
    | cons c t => exact ih h.tail

theorem of_append {u v : Text} (h : IsDecoded (u ++ v)) : u.IsDecoded := by
  induction u with
  | nil => rfl
  | cons c u ih =>
    rw [List.cons_append] at h
    obtain ⟨htail, hfirst⟩ := h.cons_cases
    have hu : ofBytes (u.flatMap CodePoint.bytes) = u := ih htail
    rcases hfirst with ⟨d, rfl⟩ | ⟨b, hbytes, hstray, hnone⟩
    · rw [IsDecoded, reread, List.flatMap_cons]
      exact (ofBytes_utf8EncodeChar d _).trans (congrArg _ hu)
    · have hread : Bytes.leadingChar? (b :: u.flatMap CodePoint.bytes) = none := by
        cases hsome : Bytes.leadingChar? (b :: u.flatMap CodePoint.bytes) with
        | none => rfl
        | some d =>
          obtain ⟨after, hafter⟩ := Bytes.leadingChar?_eq_some_iff.1 hsome
          rw [List.flatMap_append, ← List.cons_append, hafter, List.append_assoc,
            Bytes.leadingChar?_eq_some_iff.2 ⟨_, rfl⟩] at hnone
          exact absurd hnone (by simp)
      rw [IsDecoded, reread, List.flatMap_cons, hbytes, List.singleton_append,
        ofBytes_stray hread, hu, ← hstray]

end IsDecoded

end Text

end DeclSync
