import DeclSync.Proofs.ByteSequences
import DeclSync.Proofs.SplicedFiles

/-!
# Reading and writing files

A file is read as one text and no other: a character where bytes stand that encode one, and each
other byte by itself, as the surrogate that carries it. What was read is written as the bytes that
it was read from. What is written is read back if it has no surrogates; and if it has one that
carries no byte, it is not written at all.

## Main definitions

- `Bytes.StandFor` — the text that bytes stand for, said without a decoder

`Sync.lossless` says that reading and writing lose nothing.
-/

namespace DeclSync

open Text

namespace Bytes

/-- Bytes stand for a text: a character where bytes begin that encode one, and otherwise the
surrogate that carries the first byte. -/
inductive StandFor : Bytes → Text → Prop where
  | nil : StandFor [] []
  | char {w rest : Bytes} {c : Char} {t : Text} (hw : Encodes w c.toNat) (hrest : StandFor rest t) :
      StandFor (w ++ rest) (.scalar c :: t)
  | stray {b : UInt8} {rest : Bytes} {s : CodePoint} {t : Text}
      (hno : ∀ w n, Encodes w n → ¬ w <+: b :: rest) (hs : s.toNat = 0xDC00 + b.toNat)
      (hrest : StandFor rest t) : StandFor (b :: rest) (s :: t)

theorem leadingChar?_eq_none_iff {bytes : Bytes} :
    bytes.leadingChar? = none ↔ ∀ w n, Encodes w n → ¬ w <+: bytes := by
  constructor
  · rintro hnone w n hw ⟨rest, rfl⟩
    obtain ⟨c, -, rfl⟩ := encodes_iff.1 hw
    rw [leadingChar?_eq_some_iff.2 ⟨rest, rfl⟩] at hnone
    exact absurd hnone (by simp)
  · intro hno
    cases hread : bytes.leadingChar? with
    | none => rfl
    | some c =>
      obtain ⟨rest, rfl⟩ := leadingChar?_eq_some_iff.1 hread
      exact absurd (List.prefix_append _ _) (hno _ _ (encodes_utf8EncodeChar c))

end Bytes

namespace CodePoint

theorem toNat_inj {c d : CodePoint} (h : c.toNat = d.toNat) : c = d := by
  have hc := ofNat?_toNat c
  rw [h, ofNat?_toNat d] at hc
  exact (Option.some.inj hc).symm

theorem toNat_ofStrayByte (b : UInt8) : (ofStrayByte b).toNat = 0xDC00 + b.toNat := by
  simp only [ofStrayByte, toNat]
  omega

/-- What cannot be written is a surrogate that carries no byte beyond ASCII. -/
theorem isWritable_eq_false_iff {c : CodePoint} : c.isWritable = false ↔
    c.isSurrogate = true ∧ ¬ (0xDC80 ≤ c.toNat ∧ c.toNat ≤ 0xDCFF) := by
  cases c with
  | scalar c => simp [isWritable, isSurrogate]
  | surrogate s =>
    simp only [isWritable, isSurrogate, toNat, Bool.and_eq_false_iff, decide_eq_false_iff_not,
      true_and]
    omega

end CodePoint

namespace Text

theorem standFor_ofBytes (bytes : Bytes) : bytes.StandFor (ofBytes bytes) := by
  induction bytes using ofBytes_induction with
  | nil => exact .nil
  | char c rest ih =>
    rw [ofBytes_utf8EncodeChar]
    exact .char (Bytes.encodes_utf8EncodeChar c) ih
  | stray b rest hread ih =>
    rw [ofBytes_stray hread]
    exact .stray (Bytes.leadingChar?_eq_none_iff.1 hread) (CodePoint.toNat_ofStrayByte b) ih

/-- Bytes stand for the text that is read from them, and for no other. -/
theorem standFor_iff {bytes : Bytes} {t : Text} : bytes.StandFor t ↔ ofBytes bytes = t := by
  constructor
  · intro h
    induction h with
    | nil => rfl
    | char hw _ ih => rw [← hw.utf8EncodeChar_eq, ofBytes_utf8EncodeChar, ih]
    | stray hno hs _ ih =>
      rw [ofBytes_stray (Bytes.leadingChar?_eq_none_iff.2 hno), ih,
        CodePoint.toNat_inj (hs.trans (CodePoint.toNat_ofStrayByte _).symm)]
  · rintro rfl
    exact standFor_ofBytes bytes

theorem toBytes_ofBytes (bytes : Bytes) : (ofBytes bytes).toBytes = .ok bytes :=
  toBytes_eq_ok_iff.2 ⟨fun _ hc => isWritable_of_mem_ofBytes hc, bytes_ofBytes bytes⟩

/-- A text of characters can be written, and is read back as it was. -/
theorem exists_toBytes_of_forall {t : Text} (h : ∀ c ∈ t, c.isSurrogate = false) :
    ∃ written, t.toBytes = .ok written ∧ ofBytes written = t := by
  refine ⟨_, toBytes_eq_ok_iff.2 ⟨fun c hc => ?_, rfl⟩, ?_⟩
  · cases c with
    | scalar c => rfl
    | surrogate s => exact absurd (h _ hc) (by simp [CodePoint.isSurrogate])
  · have hread := ofBytes_flatMap_append h []
    rwa [List.append_nil, show ofBytes [] = [] from rfl, List.append_nil] at hread

theorem exists_toBytes_eq_error_iff {t : Text} : (∃ run, t.toBytes = .error run) ↔
    ∃ c ∈ t, c.isSurrogate = true ∧ ¬ (0xDC80 ≤ c.toNat ∧ c.toNat ≤ 0xDCFF) := by
  have hfails : (∃ run, t.toBytes = .error run) ↔ t.unwritable? ≠ none := by
    rw [toBytes]
    cases t.unwritable? <;> simp
  rw [hfails, Ne, unwritable?_eq_none_iff]
  simp only [← CodePoint.isWritable_eq_false_iff, not_forall, Bool.not_eq_true, exists_prop]

end Text

namespace Sync

open FileTree

variable {files after : FileTree} {p : Path} {t : Text}

/-- A file that was read and is written again is left as it was. -/
theorem exists_putText_of_read {contents : Bytes} (h : files.read p = .ok contents) :
    ∃ after, putText files p (ofBytes contents) = .ok after ∧
      ∀ l, after.get? l = files.get? l := by
  obtain ⟨l, hl, hcontents⟩ := read_eq_ok_iff.1 h
  have hwrite := write_eq_of_contents? hl hcontents contents
  exact ⟨files.set l (.file contents),
    putText_eq_ok_iff.2 ⟨contents, toBytes_ofBytes contents, hwrite⟩,
    get?_set_of_contents? hcontents⟩

/-- A text that was written is read as what its bytes stand for. -/
theorem fileText_of_putText (h : putText files p t = .ok after) :
    fileText after p = .ok t.reread := by
  obtain ⟨contents, hcontents, hwrite⟩ := putText_eq_ok_iff.1 h
  obtain ⟨-, rfl⟩ := toBytes_eq_ok_iff.1 hcontents
  exact fileText_of_read (read_of_write hwrite)

/-- Reading and writing lose nothing: the bytes of a file stand for one text, which is written as
these bytes; a text without surrogates is written as bytes that stand for it; and a text cannot be
written exactly if it holds a surrogate that carries no byte, and then nothing is written. -/
theorem lossless (contents : Bytes) (t : Text) (files : FileTree) (p : Path) :
    ((∀ u, contents.StandFor u ↔ ofBytes contents = u) ∧
      (ofBytes contents).toBytes = .ok contents ∧
      (files.read p = .ok contents → fileText files p = .ok (ofBytes contents) ∧
        ∃ after, putText files p (ofBytes contents) = .ok after ∧
          ∀ l, after.get? l = files.get? l)) ∧
    ((∀ c ∈ t, c.isSurrogate = false) →
      (∃ written, t.toBytes = .ok written ∧ ofBytes written = t) ∧
      ∀ after, putText files p t = .ok after → fileText after p = .ok t) ∧
    ((∃ run, t.toBytes = .error run) ↔
      ∃ c ∈ t, c.isSurrogate = true ∧ ¬ (0xDC80 ≤ c.toNat ∧ c.toNat ≤ 0xDCFF)) ∧
    ∀ run, t.toBytes = .error run → putText files p t = .error (.unwritable run) ∧
      ∀ cfg target found us,
        (writeAll cfg files (⟨target, p, t, found⟩ :: us)).files = files := by
  refine ⟨⟨fun u => standFor_iff, toBytes_ofBytes contents, fun hread => ?_⟩, fun hchars => ?_,
    exists_toBytes_eq_error_iff, fun run hrun => ?_⟩
  · exact ⟨fileText_of_read hread, exists_putText_of_read hread⟩
  · obtain ⟨written, hwritten, hback⟩ := exists_toBytes_of_forall hchars
    refine ⟨⟨written, hwritten, hback⟩, fun after hput => ?_⟩
    obtain ⟨-, rfl⟩ := toBytes_eq_ok_iff.1 hwritten
    rw [fileText_of_putText hput]
    exact congrArg _ hback
  · have hput : putText files p t = .error (.unwritable run) := by
      rw [putText, hrun]
    refine ⟨hput, fun cfg target found us => ?_⟩
    rw [writeAll]
    simp only [hput]

/-- A byte that begins nothing, a truncated character, an overlong one, a surrogate, a number beyond
the last character, and then a character. -/
def malformed : Bytes :=
  [0x80, 0xE2, 0x82, 0xC0, 0xAF, 0xED, 0xA0, 0x80, 0xF4, 0x90, 0x80, 0x80, 0xC3, 0xA9]

/-- A file of these bytes. -/
def malformedFiles : FileTree where
  entries := [(["x.ts"], .file malformed)]

/-- All the malformed bytes are carried one by one; a character is read back; and a surrogate that
carries no byte is not written. -/
theorem lossless_malformed :
    malformedFiles.read (.ofText "x.ts") = .ok malformed ∧
    fileText malformedFiles (.ofText "x.ts") =
      .ok ((malformed.take 12).map CodePoint.ofStrayByte ++ "é") ∧
    (∀ c ∈ ofString "é", c.isSurrogate = false) ∧
    (∃ written, toBytes "é" = .ok written ∧ ofBytes written = "é") ∧
    toBytes [.surrogate 0] = .error ⟨0, 0, .surrogate 0⟩ ∧
    putText malformedFiles (.ofText "x.ts") [.surrogate 0] =
      .error (.unwritable ⟨0, 0, .surrogate 0⟩) := by
  have hread : malformedFiles.read (.ofText "x.ts") = .ok malformed := rfl
  have htext : ofBytes malformed = (malformed.take 12).map CodePoint.ofStrayByte ++ "é" := by
    decide +kernel
  have hchars : ∀ c ∈ ofString "é", c.isSurrogate = false := by decide
  have hrun : toBytes [.surrogate 0] = .error ⟨0, 0, .surrogate 0⟩ := rfl
  obtain ⟨⟨-, -, hfile⟩, hback, -, -⟩ :=
    lossless malformed "é" malformedFiles (.ofText "x.ts")
  obtain ⟨-, -, -, hunwritable⟩ :=
    lossless malformed [.surrogate 0] malformedFiles (.ofText "x.ts")
  exact ⟨hread, htext ▸ (hfile hread).1, hchars, (hback hchars).1, hrun, (hunwritable _ hrun).1⟩

end Sync

end DeclSync
