import DeclSync.Proofs.CarriedRegions
import DeclSync.Proofs.Runs

/-!
# The bytes of a written file

A consumer is patched as a text, and written as bytes. Bytes that are no UTF-8 are carried through
the text, and what is written for it are the bytes that were read. So the file that is written has
the bytes of the consumer, with those of the block in the place of its first region, wherever stray
bytes stand; and if the consumer has no region, it has its bytes as they are.

## Main definitions

- `Region.Spliced` — bytes with a block in the place of their first region

`Sync.spliced_run` says this of a run over one consumer.
-/

namespace DeclSync

open Text

/-! ## Texts as bytes -/

theorem Text.writesLineFeed_bytes : WritesLineFeed CodePoint.bytes 0x0A where
  last := ⟨[], rfl, List.not_mem_nil⟩
  only := by
    intro c hc hmem
    obtain ⟨hbytes, hascii⟩ := CodePoint.bytes_eq_of_mem hmem (by decide)
    -- the byte is read as the code point that it was written for
    have hread : reread [c] = [c] := reread_cons hascii []
    rw [reread, List.flatMap_singleton, hbytes] at hread
    have hlf : ofBytes [0x0A] = [.scalar '\n'] := ofBytes_utf8EncodeChar '\n' []
    exact hc (List.cons.inj (hread.symm.trans hlf)).1

namespace Region

/-- A mark without surrogates stands in bytes where it stands in their text. -/
theorem prefix_drop_ofBytes {mark : Text} (hmark : ∀ c ∈ mark, c.isSurrogate = false)
    {contents : Bytes} {p : Nat}
    (h : fileBytes mark <+: fileBytes ((ofBytes contents).drop p)) :
    mark <+: (ofBytes contents).drop p := by
  obtain ⟨rest, hrest⟩ := h
  have hdecoded : ofBytes (fileBytes ((ofBytes contents).drop p)) = (ofBytes contents).drop p :=
    (isDecoded_ofBytes contents).drop p
  rw [← hdecoded, ← hrest, ofBytes_flatMap_append hmark]
  exact List.prefix_append _ _

theorem carries_bytes {anchor endMarker : Text} (hanchor : ∀ c ∈ anchor, c.isSurrogate = false)
    (hmarker : ∀ c ∈ endMarker, c.isSurrogate = false) (contents : Bytes) :
    Carries CodePoint.bytes 0x0A anchor endMarker (ofBytes contents) where
  ne_nil := fun _ hc => CodePoint.bytes_ne_nil (isWritable_of_mem_ofBytes hc)
  lineFeed := writesLineFeed_bytes
  anchor := fun _ _ => prefix_drop_ofBytes hanchor
  endMarker := fun _ _ => prefix_drop_ofBytes hmarker

/-- The bytes of a file with the bytes of a block in the place of the first region, or as they are
if there is no region. -/
inductive Spliced (anchor block : Text) (contents : Bytes) : Bytes → Prop
  | region {start close : Nat} {encoded : Bytes}
      (hfirst : IsFirstIn 0x0A anchor.fileBytes standardEndMarker.fileBytes contents start close)
      (hblock : block.toBytes = .ok encoded) :
      Spliced anchor block contents (contents.take start ++ encoded ++
        contents.drop (close + standardEndMarker.fileBytes.length))
  | noRegion
      (hnone : ∀ start close,
        ¬ StandsIn 0x0A anchor.fileBytes standardEndMarker.fileBytes contents start close) :
      Spliced anchor block contents contents

end Region

namespace Sync

open FileTree Region

variable {cfg : Config} {files after : FileTree} {bundle : Text} {p : Path}

theorem standardEndMarker_isSurrogate : ∀ c ∈ standardEndMarker, c.isSurrogate = false := by
  decide

/-- What is written for a refreshed text are the bytes of the file, spliced. -/
theorem spliced_refresh (hanchor : ∀ c ∈ cfg.anchor, c.isSurrogate = false)
    {contents written : Bytes} {target : Path}
    (h : (refresh cfg target (ofBytes contents) bundle).text.toBytes = .ok written) :
    Spliced cfg.anchor (withLineBreak (LineEnding.prevalent (ofBytes contents)).text
      (blockOf cfg bundle)) contents written := by
  have hcarries := carries_bytes hanchor standardEndMarker_isSurrogate contents
  have hcontents := bytes_ofBytes contents
  obtain ⟨hwritable, rfl⟩ := toBytes_eq_ok_iff.1 h
  rcases isFirst_or_none cfg.anchor standardEndMarker (ofBytes contents) with
    ⟨start, close, hfirst⟩ | hnone
  · -- the parts around the block are written as the bytes that they were read from
    have hbefore := take_offsetIn CodePoint.bytes (ofBytes contents) start
    have hafter := drop_offsetIn CodePoint.bytes (ofBytes contents)
      (close + standardEndMarker.length)
    have hfirst' := hcarries.isFirstIn_of_isFirst hfirst
    rw [offsetIn_add hfirst.closes] at hafter
    rw [hcontents] at hbefore hafter hfirst'
    rw [(refresh_of_isFirst hfirst target bundle).2, framed] at hwritable ⊢
    rw [List.flatMap_append, List.flatMap_append, ← hbefore, ← hafter]
    refine .region hfirst' (toBytes_eq_ok_iff.2 ⟨fun c hc => hwritable c ?_, rfl⟩)
    exact List.mem_append_left _ (List.mem_append_right _ hc)
  · rw [(refresh_of_none hnone target bundle).2, hcontents]
    refine .noRegion fun start close hstands => ?_
    rw [← hcontents] at hstands
    obtain ⟨start', close', hstands', -, -⟩ := hcarries.standsIn_iff.1 hstands
    exact hnone start' close' hstands'

/-! ## Writing one consumer -/

theorem putText_eq_ok_iff {t : Text} : putText files p t = .ok after ↔
    ∃ contents, t.toBytes = .ok contents ∧ files.write p contents = .ok after := by
  rw [putText]
  cases t.toBytes with
  | error run => simp
  | ok contents => cases hwrite : files.write p contents <;> simp [Except.mapError, hwrite]

/-- One update that is not stopped puts its text at its destination. -/
theorem writeAll_singleton {u : Update} (h : (writeAll cfg files [u]).result = .ok ()) :
    ∃ written l, u.text.toBytes = .ok written ∧ files.locate u.destination = .ok l ∧
      ∀ other, (writeAll cfg files [u]).files.get? other =
        if other = l then some (.file written) else files.get? other := by
  rw [writeAll] at h ⊢
  cases hput : putText files u.destination u.text with
  | error failure =>
    rw [hput] at h
    exact absurd h (by simp)
  | ok after =>
    obtain ⟨written, hbytes, hwrite⟩ := putText_eq_ok_iff.1 hput
    obtain ⟨l, hl, hnotDirectory, rfl⟩ := write_eq_ok_iff.1 hwrite
    exact ⟨written, l, hbytes, hl, get?_set _ (isAncestral_of_get?_ne hnotDirectory) _⟩

/-! ## A whole run -/

/-- A run over one consumer that is not stopped writes one file: the bytes of the consumer, with the
block in the place of its first region. Nothing else is changed, at any location of the idealised
tree. -/
theorem spliced_run {target : Path} {v : Verdict} (htargets : cfg.targets = [target])
    (hanchor : ∀ c ∈ cfg.anchor, c.isSurrogate = false) (hrun : (run cfg files).result = .ok v) :
    ∃ source contents written l, files.read cfg.source = .ok source ∧
      files.read target = .ok contents ∧ files.locate (cfg.output.getD target) = .ok l ∧
      Spliced cfg.anchor (withLineBreak (LineEnding.prevalent (ofBytes contents)).text
        (blockOf cfg (ofBytes source))) contents written ∧
      ∀ other, (run cfg files).files.get? other =
        if other = l then some (.file written) else files.get? other := by
  obtain ⟨bundle, us, hbundle, hus⟩ := exists_updates_of_run hrun
  obtain ⟨hfiles, hdone⟩ := run_of_updates hbundle hus
  have hwritten := hdone.1 ⟨v, hrun⟩
  rw [updates_eq_ok_iff, htargets, List.forall₂_cons_left_iff] at hus
  obtain ⟨u, rest, ⟨t, ht, rfl⟩, hrest, rfl⟩ := hus
  obtain rfl := List.forall₂_nil_left_iff.1 hrest
  obtain ⟨written, l, hbytes, hl, hget⟩ := writeAll_singleton hwritten
  obtain ⟨l', contents, hl', hcontents, rfl⟩ := fileText_eq_ok_iff.1 ht
  obtain ⟨l'', source, hl'', hsource, rfl⟩ := fileText_eq_ok_iff.1 (bundleText_eq_ok_iff.1 hbundle)
  refine ⟨source, contents, written, l, read_eq_ok_iff.2 ⟨l'', hl'', hsource⟩,
    read_eq_ok_iff.2 ⟨l', hl', hcontents⟩, hl, spliced_refresh hanchor hbytes, ?_⟩
  rw [hfiles]
  exact hget

/-- A consumer with bytes that are no UTF-8 before and after its region. -/
def strayBytes : Bytes := 0xFF :: 0x0A :: fileBytes "// M\n];" ++ [0xC3, 0x0A]

/-- The files of a run that writes to another file than the one that it reads. -/
def strayFiles : FileTree where
  entries := [(["a.js"], .file []), (["x.ts"], .file strayBytes)]

/-- A run over these files. -/
def strayConfig : Config where
  source := .ofText "a.js"
  targets := [.ofText "x.ts"]
  output := some (.ofText "y.ts")
  anchor := "// M"
  arrayName := "ms"

theorem result_run_strayConfig : (run strayConfig strayFiles).result = .ok .passed :=
  eq_ok_of_toOption (by decide +kernel)

/-- The stray bytes of the consumer are in the other file, and the consumer is left as it is. -/
theorem spliced_run_stray :
    strayConfig.targets = [.ofText "x.ts"] ∧ (∀ c ∈ strayConfig.anchor, c.isSurrogate = false) ∧
    (run strayConfig strayFiles).result = .ok .passed ∧
    ∃ written, Spliced "// M" (withLineBreak LineEnding.lf.text (blockOf strayConfig ""))
      strayBytes written ∧
      (run strayConfig strayFiles).files.get? ["y.ts"] = some (.file written) ∧
      (run strayConfig strayFiles).files.get? ["x.ts"] = some (.file strayBytes) := by
  have hanchor : ∀ c ∈ strayConfig.anchor, c.isSurrogate = false := by decide
  refine ⟨rfl, hanchor, result_run_strayConfig, ?_⟩
  obtain ⟨source, contents, written, l, hsource, hcontents, hl, hspliced, hget⟩ :=
    spliced_run rfl hanchor result_run_strayConfig
  obtain rfl : [] = source := Except.ok.inj hsource
  obtain rfl : strayBytes = contents := Except.ok.inj hcontents
  obtain rfl : (["y.ts"] : Location) = l := Except.ok.inj hl
  have hending : LineEnding.prevalent (ofBytes strayBytes) = .lf := by decide +kernel
  rw [hending] at hspliced
  exact ⟨written, hspliced, (hget _).trans (if_pos rfl), (hget _).trans (if_neg (by decide))⟩

end Sync

end DeclSync
