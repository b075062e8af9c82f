import DeclSync.Proofs.Runs

/-!
# A second run

A second run with the same configuration reads the same bundle, if that is not one of the consumers,
and is not stopped if the first one was not. But it reads other consumers: those that the first run
has written. The block that is in them now takes part in deciding the line ending, and a block that
was given lone CRs is no region any more, or reaches up to a later end marker. So the second run
leaves every file as it is exactly if the first one has settled all consumers.

`Sync.contents?_run_run_iff` says this of one consumer.
-/

namespace DeclSync

namespace Sync

open FileTree Text

section Second

variable {cfg : Config} {files : FileTree} {bundle t : Text} {target : Path}
  (houtput : cfg.output = none) (hbundle : bundleText files cfg.source = .ok bundle)
  (h : Refreshable cfg bundle files)

include houtput hbundle h

theorem fileText_run (htarget : target ∈ cfg.targets) (ht : fileText files target = .ok t) :
    fileText (run cfg files).files target = .ok (refreshedText cfg bundle t).reread := by
  have hrun := overwritten_run houtput hbundle h
  obtain ⟨l, old, hl, hold, rfl⟩ := fileText_eq_ok_iff.1 ht
  refine fileText_eq_ok_iff.2
    ⟨l, _, hrun.shape.locate_eq target ▸ hl, hrun.atPath target htarget l hl, ?_⟩
  rw [refreshedContents, hold]
  rfl

/-- A bundle that is not among the consumers is the same for the second run. -/
theorem bundleText_run
    (hsource : ∀ target ∈ cfg.targets, files.locate target ≠ files.locate cfg.source) :
    bundleText (run cfg files).files cfg.source = .ok bundle := by
  have hrun := overwritten_run houtput hbundle h
  rw [bundleText_eq_ok_iff, fileText_eq_ok_iff] at hbundle ⊢
  obtain ⟨l, contents, hl, hcontents, htext⟩ := hbundle
  refine ⟨l, contents, hrun.shape.locate_eq _ ▸ hl, ?_, htext⟩
  rw [hrun.elsewhere l fun target htarget => hl ▸ hsource target htarget, hcontents]

theorem refreshable_run : Refreshable cfg bundle (run cfg files).files := by
  intro target htarget
  obtain ⟨t, ht, hwritable⟩ := h target htarget
  refine ⟨_, fileText_run houtput hbundle h htarget ht, ?_⟩
  obtain ⟨_, contents, -, -, rfl⟩ := fileText_eq_ok_iff.1 ht
  exact isWritable_refresh_reread (isDecoded_ofBytes contents) target bundle hwritable

/-- At the location of a consumer, the two runs leave what two refreshes give. -/
theorem contents?_run_run_iff {l : Location} (hanchor : cfg.anchor.IsOneLine)
    (harrayName : cfg.arrayName.IsOneLine)
    (hsource : ∀ target ∈ cfg.targets, files.locate target ≠ files.locate cfg.source)
    (htarget : target ∈ cfg.targets) (hl : files.locate target = .ok l)
    (ht : fileText files target = .ok t) :
    (run cfg (run cfg files).files).files.contents? l = (run cfg files).files.contents? l ↔
      IsSettled cfg t (refreshedText cfg bundle t).reread := by
  have hfirst := overwritten_run houtput hbundle h
  have hsecond := overwritten_run houtput (bundleText_run houtput hbundle h hsource)
    (refreshable_run houtput hbundle h)
  obtain ⟨t', ht', hwritable⟩ := h target htarget
  obtain rfl := Except.ok.inj (ht.symm.trans ht')
  obtain ⟨l', old, hl', hold, rfl⟩ := fileText_eq_ok_iff.1 ht
  obtain rfl := Except.ok.inj (hl.symm.trans hl')
  rw [hsecond.atPath target htarget l (hfirst.shape.locate_eq target ▸ hl), refreshedContents,
    hfirst.atPath target htarget l hl, refreshedContents, hold, Option.some.injEq]
  exact bytes_refresh_reread_iff hanchor harrayName (isDecoded_ofBytes old) target bundle hwritable

end Second

/-- If the bundle is not among the consumers and a run is not stopped, then a second run is not
stopped either, and leaves every file as it is exactly if each consumer was settled by the first. -/
theorem run_run_iff {cfg : Config} {files : FileTree} {v : Verdict} (houtput : cfg.output = none)
    (hanchor : cfg.anchor.IsOneLine) (harrayName : cfg.arrayName.IsOneLine)
    (hsource : ∀ target ∈ cfg.targets, files.locate target ≠ files.locate cfg.source)
    (hrun : (run cfg files).result = .ok v) :
    (∃ v', (run cfg (run cfg files).files).result = .ok v') ∧
    ((∀ l, (run cfg (run cfg files).files).files.contents? l = (run cfg files).files.contents? l) ↔
      ∀ target ∈ cfg.targets, ∀ t refreshed, fileText files target = .ok t →
        fileText (run cfg files).files target = .ok refreshed → IsSettled cfg t refreshed) := by
  -- the second run reads the same bundle, and refreshes what the first one has written
  obtain ⟨bundle, hbundle, h⟩ := (run_eq_ok_iff houtput).1 ⟨v, hrun⟩
  have hbundle' := bundleText_run houtput hbundle h hsource
  have h' := refreshable_run houtput hbundle h
  refine ⟨(run_eq_ok_iff houtput).2 ⟨bundle, hbundle', h'⟩, ?_⟩
  constructor
  · intro hall target htarget t refreshed ht hrefreshed
    obtain rfl := Except.ok.inj ((fileText_run houtput hbundle h htarget ht).symm.trans hrefreshed)
    obtain ⟨l, _, hl, -⟩ := fileText_eq_ok_iff.1 ht
    exact (contents?_run_run_iff houtput hbundle h hanchor harrayName hsource htarget hl ht).1
      (hall l)
  · intro hsettled l
    by_cases hconsumer : ∃ target ∈ cfg.targets, files.locate target = .ok l
    · obtain ⟨target, htarget, hl⟩ := hconsumer
      obtain ⟨t, ht, -⟩ := h target htarget
      exact (contents?_run_run_iff houtput hbundle h hanchor harrayName hsource htarget hl ht).2
        (hsettled target htarget t _ ht (fileText_run houtput hbundle h htarget ht))
    · -- the second run does not write here
      simp only [not_exists, not_and] at hconsumer
      have hshape := (overwritten_run houtput hbundle h).shape
      exact (overwritten_run houtput hbundle' h').elsewhere l fun target htarget =>
        hshape.locate_eq target ▸ hconsumer target htarget

/-! ## A consumer that is not settled -/

/-- A bundle without methods, and a consumer in which most line breaks are CR LF, but only inside
the region. -/
def crlfInRegion : FileTree where
  entries := [(["a.js"], .file []), (["x.ts"], .file (fileBytes
    "// Sypnex API method definitions\r\n\r\n\r\n\r\n\r\n];\na\nb\nc\n"))]

/-- A run over these two files. -/
def crlfInRegionConfig : Config where
  source := .ofText "a.js"
  targets := [.ofText "x.ts"]

theorem crlfInRegion_isOneLine :
    crlfInRegionConfig.anchor.IsOneLine ∧ crlfInRegionConfig.arrayName.IsOneLine := by
  unfold IsOneLine
  decide

theorem locate_crlfInRegion : ∀ target ∈ crlfInRegionConfig.targets,
    crlfInRegion.locate target ≠ crlfInRegion.locate crlfInRegionConfig.source := by
  decide +kernel

theorem run_crlfInRegion : (run crlfInRegionConfig crlfInRegion).result = .ok .passed :=
  eq_ok_of_toOption (by decide +kernel)

/-- The second run takes LF, since the block of the first one has fewer line breaks. -/
theorem contents?_run_run_crlfInRegion :
    (run crlfInRegionConfig (run crlfInRegionConfig crlfInRegion).files).files.contents? ["x.ts"] ≠
      (run crlfInRegionConfig crlfInRegion).files.contents? ["x.ts"] := by
  decide +kernel

/-- The consumer is not settled by the run. -/
theorem run_run_iff_crlfInRegion :
    (run crlfInRegionConfig crlfInRegion).result = .ok .passed ∧
    ¬ ∀ target ∈ crlfInRegionConfig.targets, ∀ t refreshed, fileText crlfInRegion target = .ok t →
      fileText (run crlfInRegionConfig crlfInRegion).files target = .ok refreshed →
        IsSettled crlfInRegionConfig t refreshed := by
  refine ⟨run_crlfInRegion, fun hsettled => ?_⟩
  have hsame := (run_run_iff rfl crlfInRegion_isOneLine.1 crlfInRegion_isOneLine.2
    locate_crlfInRegion run_crlfInRegion).2.2 hsettled
  exact contents?_run_run_crlfInRegion (hsame ["x.ts"])

/-- A second run may change what the first one wrote. -/
theorem not_run_run : ¬ ∀ (cfg : Config) (files : FileTree) (v : Verdict), cfg.output = none →
    cfg.anchor.IsOneLine → cfg.arrayName.IsOneLine →
    (∀ target ∈ cfg.targets, files.locate target ≠ files.locate cfg.source) →
    (run cfg files).result = .ok v →
    ∀ l, (run cfg (run cfg files).files).files.contents? l = (run cfg files).files.contents? l := by
  intro hall
  have hsame := hall crlfInRegionConfig crlfInRegion .passed rfl crlfInRegion_isOneLine.1
    crlfInRegion_isOneLine.2 locate_crlfInRegion run_crlfInRegion
  exact contents?_run_run_crlfInRegion (hsame ["x.ts"])

end Sync

end DeclSync
