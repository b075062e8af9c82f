import DeclSync.Proofs.Runs

/-!
# Consumers that share files

The paths of a run may lead to the same file more than once, and also to the bundle. That makes no
difference: everything is read before anything is written, so what is written over a file depends on
what was in it before the run and on nothing that the run wrote. The order of the consumers and how
often each is named make no difference either, neither to the files nor to the verdict.

Paths lead to the same file if they have the same location. File trees are idealised in this: there
are no links, and nothing under the working directory is reached by way of its own name.

## Main definitions

- `FileTree.LeadAlike` — lists of paths that lead to the same locations

`Sync.run_targets` says what a run leaves behind, whatever its consumers share.
-/

namespace DeclSync

/-! ## Paths that lead to the same locations -/

/-- Two lists of paths that lead to the same locations, in any order and however often. -/
structure FileTree.LeadAlike (files : FileTree) (ps qs : List Path) : Prop where
  forward : ∀ p ∈ ps, ∃ q ∈ qs, files.locate p = files.locate q
  backward : ∀ q ∈ qs, ∃ p ∈ ps, files.locate q = files.locate p

namespace FileTree.LeadAlike

variable {files : FileTree} {ps qs : List Path}

theorem symm (h : files.LeadAlike ps qs) : files.LeadAlike qs ps := ⟨h.backward, h.forward⟩

/-- The order of the paths, and how often each stands in the list, make no difference. -/
theorem of_mem_iff (h : ∀ p, p ∈ ps ↔ p ∈ qs) : files.LeadAlike ps qs :=
  ⟨fun p hp => ⟨p, (h p).1 hp, rfl⟩, fun q hq => ⟨q, (h q).2 hq, rfl⟩⟩

end FileTree.LeadAlike

namespace Sync

open FileTree Text

/-- Trees that were written over at the same locations, and with the same contents, hold the same.
-/
theorem Overwritten.get?_eq {before after after' : FileTree} {paths paths' : List Path}
    {contents : Location → Bytes} (h : Overwritten before paths contents after)
    (h' : Overwritten before paths' contents after') (halike : before.LeadAlike paths paths')
    (l : Location) : after.get? l = after'.get? l := by
  refine (h.shape.trans h'.shape.symm).get?_eq ?_
  by_cases hl : ∃ p ∈ paths, before.locate p = .ok l
  · obtain ⟨p, hp, hl⟩ := hl
    obtain ⟨q, hq, hsame⟩ := halike.forward p hp
    rw [h.atPath p hp l hl, h'.atPath q hq l (hsame ▸ hl)]
  · simp only [not_exists, not_and] at hl
    rw [h.elsewhere l hl, h'.elsewhere l fun q hq hql => ?_]
    obtain ⟨p, hp, hsame⟩ := halike.backward q hq
    exact hl p hp (hsame ▸ hql)

variable {cfg : Config} {files : FileTree} {bundle t : Text} {p q : Path}

theorem fileText_eq_of_locate_eq (h : files.locate p = files.locate q)
    (ht : fileText files p = .ok t) : fileText files q = .ok t := by
  rw [fileText_eq_ok_iff] at ht ⊢
  rwa [← h]

/-- Which consumers a run is suspicious about. -/
theorem any_found_iff {us : List Update} (hus : updates cfg (blockOf cfg bundle) files = .ok us) :
    (us.any fun u => !u.found) = true ↔ ∃ target ∈ cfg.targets, ∃ t,
      fileText files target = .ok t ∧ (refresh cfg target t bundle).found = false := by
  rw [updates_eq_ok_iff] at hus
  generalize cfg.targets = targets at hus ⊢
  induction hus with
  | nil => simp
  | @cons target u targets us hu _ ih =>
    obtain ⟨t, ht, rfl⟩ := hu
    simp [ih, ht]

/-- The verdict does not depend on how the consumers are named. -/
theorem verdictOf_eq {targets : List Path} {us us' : List Update}
    (halike : files.LeadAlike cfg.targets targets)
    (hus : updates cfg (blockOf cfg bundle) files = .ok us)
    (hus' : updates { cfg with targets } (blockOf cfg bundle) files = .ok us') :
    verdictOf { cfg with targets } bundle us' = verdictOf cfg bundle us := by
  have hany' := @any_found_iff { cfg with targets } files bundle us' hus'
  have hany : (us'.any fun u => !u.found) = us.any fun u => !u.found := by
    rw [Bool.eq_iff_iff, any_found_iff hus, hany']
    constructor
    · rintro ⟨q, hq, t, ht, hfound⟩
      obtain ⟨p, hp, hsame⟩ := halike.backward q hq
      exact ⟨p, hp, t, fileText_eq_of_locate_eq hsame ht, hfound⟩
    · rintro ⟨p, hp, t, ht, hfound⟩
      obtain ⟨q, hq, hsame⟩ := halike.forward p hp
      exact ⟨q, hq, t, fileText_eq_of_locate_eq hsame ht, hfound⟩
  rw [verdictOf, verdictOf, hany]

/-! ## A whole run -/

/-- A run over consumers that can be read, with a block that can be written, is not stopped. -/
theorem exists_result_run (houtput : cfg.output = none)
    (hbundle : bundleText files cfg.source = .ok bundle)
    (htargets : ∀ target ∈ cfg.targets, ∃ t, fileText files target = .ok t)
    (hblock : ∀ c ∈ blockOf cfg bundle, c.isWritable = true) :
    ∃ us, updates cfg (blockOf cfg bundle) files = .ok us ∧
      (run cfg files).result = .ok (verdictOf cfg bundle us) ∧
      Overwritten files cfg.targets (refreshedContents cfg bundle files) (run cfg files).files := by
  have h := refreshable_of_block hblock htargets
  obtain ⟨us, hus⟩ := h.exists_updates
  refine ⟨us, hus, ?_, overwritten_run houtput hbundle h⟩
  rw [result_run_of_updates hbundle hus, (writeAll_updates houtput hus h).1]
  rfl

/-- If the bundle and all consumers can be read and the block can be written, then a run is not
stopped. It leaves every consumer with the block in the place of its first region, as it was before
the run, and every other file as it was. And if the consumers are named in another order, by other
paths or more or less often, then the verdict and all files are the same. Which paths share a file
is what the idealised tree says of them. -/
theorem run_targets {source encoded : Bytes} (houtput : cfg.output = none)
    (hsource : files.read cfg.source = .ok source)
    (htargets : ∀ target ∈ cfg.targets, ∃ contents, files.read target = .ok contents)
    (hblock : (blockOf cfg (ofBytes source)).toBytes = .ok encoded) :
    ∃ v, (run cfg files).result = .ok v ∧
      (∀ target ∈ cfg.targets, ∀ contents, files.read target = .ok contents →
        ∃ written, (refresh cfg target (ofBytes contents) (ofBytes source)).text.toBytes =
            .ok written ∧ (run cfg files).files.read target = .ok written) ∧
      (∀ l, (∀ target ∈ cfg.targets, files.locate target ≠ .ok l) →
        (run cfg files).files.get? l = files.get? l) ∧
      ∀ targets, files.LeadAlike cfg.targets targets →
        (run { cfg with targets } files).result = .ok v ∧
          ∀ l, (run { cfg with targets } files).files.get? l = (run cfg files).files.get? l := by
  have hbundle := bundleText_eq_ok_iff.2 (fileText_of_read hsource)
  have hread : ∀ target ∈ cfg.targets, ∃ t, fileText files target = .ok t := by
    intro target htarget
    obtain ⟨contents, hcontents⟩ := htargets target htarget
    exact ⟨_, fileText_of_read hcontents⟩
  have hwritable := (toBytes_eq_ok_iff.1 hblock).1
  obtain ⟨us, hus, hresult, hrun⟩ := exists_result_run houtput hbundle hread hwritable
  refine ⟨_, hresult, fun target htarget contents hcontents => ?_, fun l hl => ?_,
    fun targets halike => ?_⟩
  · obtain ⟨l, hl, hold⟩ := read_eq_ok_iff.1 hcontents
    have hwritten := hrun.atPath target htarget l hl
    refine ⟨_, ?_, read_eq_ok_iff.2 ⟨l, hrun.shape.locate_eq target ▸ hl, hwritten⟩⟩
    obtain ⟨t, ht, hrefreshed⟩ := refreshable_of_block hwritable hread target htarget
    obtain rfl := Except.ok.inj ((fileText_of_read hcontents).symm.trans ht)
    rw [toBytes_eq_ok_iff, refreshedContents, hold]
    exact ⟨hrefreshed, rfl⟩
  · exact hrun.shape.get?_eq (hrun.elsewhere l hl)
  · -- the run over the other paths reads and writes the same files
    have hread' : ∀ q ∈ targets, ∃ t, fileText files q = .ok t := by
      intro q hq
      obtain ⟨p, hp, hsame⟩ := halike.backward q hq
      obtain ⟨t, ht⟩ := hread p hp
      exact ⟨t, fileText_eq_of_locate_eq hsame.symm ht⟩
    obtain ⟨us', hus', hresult', hrun'⟩ :=
      @exists_result_run { cfg with targets } files _ houtput hbundle hread' hwritable
    rw [verdictOf_eq halike hus hus'] at hresult'
    exact ⟨hresult', fun l => hrun'.get?_eq hrun halike.symm l⟩

/-- The bundle with a region of its own. -/
def sharedBundle : Bytes := fileBytes "f() \x7b\n// M\n];\n"

/-- The bundle, a consumer with CR LF, and a directory. -/
def sharedFiles : FileTree where
  entries := [(["a.js"], .file sharedBundle), (["x.ts"], .file (fileBytes "// M\r\n];\r\n")),
    (["d"], .directory)]

/-- A run over the consumer by two paths, and over the bundle itself. -/
def sharedConfig : Config where
  source := .ofText "a.js"
  targets := [.ofText "x.ts", .ofText "d/../x.ts", .ofText "a.js"]
  anchor := "// M"
  arrayName := "ms"

/-- The same consumers, named again in the opposite order. -/
def repeatedTargets : List Path := sharedConfig.targets ++ sharedConfig.targets.reverse

/-- The same files, each named once. -/
def distinctTargets : List Path := [.ofText "a.js", .ofText "x.ts"]

/-- The bundle may be a consumer, and consumers may be named again. -/
theorem run_targets_shared :
    (sharedConfig.output = none ∧ sharedFiles.read sharedConfig.source = .ok sharedBundle ∧
      (∀ target ∈ sharedConfig.targets, ∃ contents, sharedFiles.read target = .ok contents) ∧
      ∃ encoded, (blockOf sharedConfig (ofBytes sharedBundle)).toBytes = .ok encoded) ∧
    sharedFiles.LeadAlike sharedConfig.targets repeatedTargets ∧
    sharedFiles.LeadAlike sharedConfig.targets distinctTargets ∧
    ∃ v, (run sharedConfig sharedFiles).result = .ok v ∧
      (run { sharedConfig with targets := repeatedTargets } sharedFiles).result = .ok v ∧
      (run { sharedConfig with targets := distinctTargets } sharedFiles).result = .ok v ∧
      ∀ l, (run { sharedConfig with targets := distinctTargets } sharedFiles).files.get? l =
        (run sharedConfig sharedFiles).files.get? l := by
  have hsource : sharedFiles.read sharedConfig.source = .ok sharedBundle := rfl
  have htargets : ∀ target ∈ sharedConfig.targets,
      ∃ contents, sharedFiles.read target = .ok contents := by
    simp only [sharedConfig, List.forall_mem_cons]
    exact ⟨⟨_, rfl⟩, ⟨_, rfl⟩, ⟨_, rfl⟩, by simp⟩
  have hwritable : ∀ c ∈ blockOf sharedConfig (ofBytes sharedBundle), c.isWritable = true := by
    decide +kernel
  have hblock := toBytes_eq_ok_iff.2 ⟨hwritable, rfl⟩
  have hrepeated : sharedFiles.LeadAlike sharedConfig.targets repeatedTargets :=
    .of_mem_iff fun p => by simp [repeatedTargets]
  have hdistinct : sharedFiles.LeadAlike sharedConfig.targets distinctTargets :=
    ⟨by decide +kernel, by decide +kernel⟩
  obtain ⟨v, hv, -, -, hsame⟩ := run_targets rfl hsource htargets hblock
  exact ⟨⟨rfl, hsource, htargets, _, hblock⟩, hrepeated, hdistinct, v, hv, (hsame _ hrepeated).1,
    hsame _ hdistinct⟩

end Sync

end DeclSync
