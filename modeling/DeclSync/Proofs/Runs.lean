import DeclSync.Proofs.FileTrees
import DeclSync.Proofs.RefreshedFiles
import Mathlib.Data.List.Forall2

/-!
# Runs

A run without an output path writes over each of its consumers what a refresh makes of its text, and
changes nothing else. It is not stopped exactly if the bundle and all consumers can be read and the
refreshed texts can be written.

## Main definitions

- `Sync.refreshedText` — what a refresh makes of a text, wherever the text is from
- `Sync.Overwritten` — a tree with new contents at the locations that paths lead to
- `Sync.verdictOf` — how a run went that made given updates

`Sync.run_cases` says how far a run gets, `Sync.run_eq_ok_iff` when it is not stopped, and
`Sync.overwritten_run` what it leaves behind then.
-/

namespace DeclSync

namespace Sync

open FileTree Text

theorem eq_ok_of_toOption {α ε : Type} {x : Except ε α} {a : α} (h : x.toOption = some a) :
    x = .ok a := by
  cases x with
  | error e => exact absurd h (by simp [Except.toOption])
  | ok b => exact congrArg _ (Option.some.inj h)

theorem bind_eq_ok_iff {α β ε : Type} {x : Except ε α} {f : α → Except ε β} {b : β} :
    x >>= f = .ok b ↔ ∃ a, x = .ok a ∧ f a = .ok b := by
  cases x with
  | error e => simp [bind, Except.bind]
  | ok a => simp [bind, Except.bind]

theorem mapM_cons_eq_ok_iff {α β ε : Type} {f : α → Except ε β} {x : α} {xs : List α}
    {ys : List β} : (x :: xs).mapM f = .ok ys ↔
      ∃ y zs, f x = .ok y ∧ xs.mapM f = .ok zs ∧ y :: zs = ys := by
  rw [List.mapM_cons]
  simp only [bind_eq_ok_iff]
  constructor
  · rintro ⟨y, hy, zs, hzs, hys⟩
    exact ⟨y, zs, hy, hzs, Except.ok.inj hys⟩
  · rintro ⟨y, zs, hy, hzs, rfl⟩
    exact ⟨y, hy, zs, hzs, rfl⟩

/-- A list is mapped in `Except` exactly if each of its elements is. -/
theorem mapM_eq_ok_iff {α β ε : Type} {f : α → Except ε β} {xs : List α} {ys : List β} :
    xs.mapM f = .ok ys ↔ List.Forall₂ (fun x y => f x = .ok y) xs ys := by
  induction xs generalizing ys with
  | nil => exact ⟨fun h => Except.ok.inj h ▸ .nil, fun h => by cases h; rfl⟩
  | cons x xs ih =>
    rw [mapM_cons_eq_ok_iff, List.forall₂_cons_left_iff]
    simp only [ih, eq_comm, exists_and_left]

variable {cfg : Config} {files after : FileTree} {bundle t : Text} {p : Path}

/-! ## Reading -/

theorem fileText_eq_ok_iff : fileText files p = .ok t ↔
    ∃ l contents, files.locate p = .ok l ∧ files.contents? l = some contents ∧
      ofBytes contents = t := by
  have hread : fileText files p = .ok t ↔
      ∃ contents, files.read p = .ok contents ∧ ofBytes contents = t := by
    rw [fileText]
    cases files.read p <;> simp [Except.map]
  rw [hread]
  simp only [read_eq_ok_iff]
  constructor
  · rintro ⟨contents, ⟨l, hl, hcontents⟩, htext⟩
    exact ⟨l, contents, hl, hcontents, htext⟩
  · rintro ⟨l, contents, hl, hcontents, htext⟩
    exact ⟨contents, ⟨l, hl, hcontents⟩, htext⟩

theorem fileText_of_read {contents : Bytes} (h : files.read p = .ok contents) :
    fileText files p = .ok (ofBytes contents) := by
  rw [fileText, h]
  rfl

theorem bundleText_eq_ok_iff : bundleText files p = .ok t ↔ fileText files p = .ok t := by
  rw [bundleText]
  cases fileText files p <;> simp

/-! ## Writing the consumers one after another -/

/-- The tree after the files that paths lead to were written over. -/
structure Overwritten (before : FileTree) (paths : List Path) (contents : Location → Bytes)
    (after : FileTree) : Prop where
  shape : SameShape after before
  atPath : ∀ p ∈ paths, ∀ l, before.locate p = .ok l → after.contents? l = some (contents l)
  elsewhere : ∀ l, (∀ p ∈ paths, before.locate p ≠ .ok l) →
    after.contents? l = before.contents? l

namespace Overwritten

variable {tree before : FileTree} {paths : List Path} {contents : Location → Bytes} {l : Location}
  {old : Bytes}

theorem cons (hl : before.locate p = .ok l) (hold : before.contents? l = some old)
    (h : Overwritten (before.set l (.file (contents l))) paths contents after) :
    Overwritten before (p :: paths) contents after := by
  have hshape := sameShape_set hold (contents l)
  have hset := contents?_set hold (contents l)
  have hafter : after.contents? l = some (contents l) := by
    by_cases hagain : ∀ q ∈ paths, before.locate q ≠ .ok l
    · rw [h.elsewhere l (fun q hq => hshape.locate_eq q ▸ hagain q hq), hset, if_pos rfl]
    · -- the same file is written again, as the same
      simp only [not_forall, not_not] at hagain
      obtain ⟨q, hq, hlocated⟩ := hagain
      exact h.atPath q hq l (hshape.locate_eq q ▸ hlocated)
  refine ⟨h.shape.trans hshape, fun q hq other hother => ?_, fun other hother => ?_⟩
  · rcases List.mem_cons.1 hq with rfl | hq
    · obtain rfl := Except.ok.inj (hl.symm.trans hother)
      exact hafter
    · exact h.atPath q hq other (hshape.locate_eq q ▸ hother)
  · rw [h.elsewhere other fun q hq => hshape.locate_eq q ▸ hother q (List.mem_cons_of_mem _ hq),
      hset, if_neg]
    rintro rfl
    exact hother p List.mem_cons_self hl

end Overwritten

/-- Updates that can be written go over the files at their destinations, and leave the others as
they are. -/
theorem overwritten_writeAll {contents : Location → Bytes} {us : List Update}
    (h : ∀ u ∈ us, ∃ l old, files.locate u.destination = .ok l ∧ files.contents? l = some old ∧
      u.text.toBytes = .ok (contents l)) :
    (writeAll cfg files us).result = .ok () ∧
      Overwritten files (us.map Update.destination) contents (writeAll cfg files us).files := by
  induction us generalizing files with
  | nil => exact ⟨rfl, .refl files, by simp, by simp [writeAll]⟩
  | cons u us ih =>
    obtain ⟨l, old, hl, hold, hbytes⟩ := h u List.mem_cons_self
    have hput : putText files u.destination u.text = .ok (files.set l (.file (contents l))) := by
      rw [putText, hbytes]
      simp only [write_eq_of_contents? hl hold, Except.mapError]
    -- the other updates go to files of the tree that was written
    have hlater : ∀ v ∈ us, ∃ l' old, (files.set l (.file (contents l))).locate v.destination =
        .ok l' ∧ (files.set l (.file (contents l))).contents? l' = some old ∧
          v.text.toBytes = .ok (contents l') := by
      intro v hv
      obtain ⟨l', old', hl', hold', hbytes'⟩ := h v (List.mem_cons_of_mem _ hv)
      have hkept := contents?_set hold (contents l) l'
      rw [(sameShape_set hold _).locate_eq]
      by_cases hsame : l' = l
      · exact ⟨l', contents l, hl', hkept.trans (if_pos hsame), hbytes'⟩
      · exact ⟨l', old', hl', (hkept.trans (if_neg hsame)).trans hold', hbytes'⟩
    obtain ⟨hresult, hwritten⟩ := ih hlater
    rw [writeAll, hput]
    exact ⟨hresult, hwritten.cons hl hold⟩

theorem exists_toBytes_of_writeAll {us : List Update}
    (h : (writeAll cfg files us).result = .ok ()) :
    ∀ u ∈ us, ∃ bytes, u.text.toBytes = .ok bytes := by
  induction us generalizing files with
  | nil => simp
  | cons u us ih =>
    rw [writeAll] at h
    split at h
    · exact absurd h (by simp)
    · next files' hput =>
      intro v hv
      rcases List.mem_cons.1 hv with rfl | hv
      · rw [putText] at hput
        cases hbytes : v.text.toBytes with
        | ok bytes => exact ⟨bytes, rfl⟩
        | error run =>
          rw [hbytes] at hput
          exact absurd hput (by simp)
      · exact ih h v hv

/-! ## The consumers of a run -/

/-- What a refresh makes of a text, wherever the text is from. -/
def refreshedText (cfg : Config) (bundle t : Text) : Text :=
  (Region.replace? cfg.anchor Region.standardEndMarker (blockOf cfg bundle)
    (LineEnding.prevalent t).text t).getD t

/-- What a refresh makes of the file at a location. -/
def refreshedContents (cfg : Config) (bundle : Text) (files : FileTree) (l : Location) : Bytes :=
  (refreshedText cfg bundle (ofBytes ((files.contents? l).getD []))).fileBytes

/-- All consumers can be read, and what a refresh makes of them can be written. -/
def Refreshable (cfg : Config) (bundle : Text) (files : FileTree) : Prop :=
  ∀ target ∈ cfg.targets, ∃ t, fileText files target = .ok t ∧
    ∀ c ∈ refreshedText cfg bundle t, c.isWritable = true

theorem destination_refresh (houtput : cfg.output = none) (target : Path) (t bundle : Text) :
    (refresh cfg target t bundle).destination = target := by
  rw [refresh, updateOf, houtput]
  rfl

theorem updates_eq_ok_iff {us : List Update} :
    updates cfg (blockOf cfg bundle) files = .ok us ↔
      List.Forall₂ (fun target u => ∃ t, fileText files target = .ok t ∧
        refresh cfg target t bundle = u) cfg.targets us := by
  have hone : ∀ target u, (fileText files target).map (updateOf cfg (blockOf cfg bundle) target) =
      .ok u ↔ ∃ t, fileText files target = .ok t ∧ refresh cfg target t bundle = u := by
    intro target u
    cases fileText files target <;> simp [Except.map, refresh]
  rw [updates, mapM_eq_ok_iff]
  simp only [hone]

/-- Updates have been read from the consumers, and each of them from one. -/
theorem exists_of_updates {us : List Update}
    (hus : updates cfg (blockOf cfg bundle) files = .ok us) :
    (∀ target ∈ cfg.targets, ∃ t, fileText files target = .ok t) ∧
      ∀ u ∈ us, ∃ target t, fileText files target = .ok t ∧ refresh cfg target t bundle = u := by
  rw [updates_eq_ok_iff] at hus
  generalize cfg.targets = targets at hus
  induction hus with
  | nil => simp
  | @cons target u targets us hu _ ih =>
    obtain ⟨t, ht, hrefresh⟩ := hu
    rw [List.forall_mem_cons, List.forall_mem_cons]
    exact ⟨⟨⟨t, ht⟩, ih.1⟩, ⟨target, t, ht, hrefresh⟩, ih.2⟩

theorem exists_updates (h : ∀ target ∈ cfg.targets, ∃ t, fileText files target = .ok t) :
    ∃ us, updates cfg (blockOf cfg bundle) files = .ok us := by
  simp only [updates_eq_ok_iff]
  generalize cfg.targets = targets at h ⊢
  induction targets with
  | nil => exact ⟨[], .nil⟩
  | cons target targets ih =>
    obtain ⟨t, ht⟩ := h target List.mem_cons_self
    obtain ⟨us, hus⟩ := ih fun other hother => h other (List.mem_cons_of_mem _ hother)
    exact ⟨_ :: us, .cons ⟨t, ht, rfl⟩ hus⟩

theorem Refreshable.exists_updates (h : Refreshable cfg bundle files) :
    ∃ us, updates cfg (blockOf cfg bundle) files = .ok us := by
  refine Sync.exists_updates fun target htarget => ?_
  obtain ⟨t, ht, -⟩ := h target htarget
  exact ⟨t, ht⟩

/-- A block that can be written can be put into every consumer that can be read. -/
theorem refreshable_of_block (hblock : ∀ c ∈ blockOf cfg bundle, c.isWritable = true)
    (htargets : ∀ target ∈ cfg.targets, ∃ t, fileText files target = .ok t) :
    Refreshable cfg bundle files := by
  intro target htarget
  obtain ⟨t, ht⟩ := htargets target htarget
  obtain ⟨_, contents, -, -, rfl⟩ := fileText_eq_ok_iff.1 ht
  refine ⟨_, ht, isWritable_refresh (fun c hc => isWritable_of_mem_ofBytes hc) target bundle ?_⟩
  exact fun _ => ⟨.lf, by rwa [withLineBreak_lf]⟩

/-- Without an output path, the updates are written where the consumers are. -/
theorem updates_of_output (houtput : cfg.output = none) {us : List Update}
    (hus : updates cfg (blockOf cfg bundle) files = .ok us) :
    us.map Update.destination = cfg.targets ∧ ∀ u ∈ us, ∃ t,
      fileText files u.destination = .ok t ∧ refreshedText cfg bundle t = u.text := by
  rw [updates_eq_ok_iff] at hus
  generalize cfg.targets = targets at hus ⊢
  induction hus with
  | nil => simp
  | cons hu _ ih =>
    obtain ⟨t, ht, rfl⟩ := hu
    rw [List.map_cons, destination_refresh houtput, ih.1]
    refine ⟨rfl, fun v hv => ?_⟩
    rcases List.mem_cons.1 hv with rfl | hv
    · exact ⟨t, by rwa [destination_refresh houtput], rfl⟩
    · exact ih.2 v hv

/-! ## A whole run -/

/-- How a run went that made these updates of its consumers. -/
def verdictOf (cfg : Config) (bundle : Text) (us : List Update) : Verdict :=
  if cfg.strict && ((Method.ofBundle cfg.apiName bundle).isEmpty || us.any fun u => !u.found) then
    .suspicious
  else .passed

theorem result_run_of_updates {us : List Update}
    (hbundle : bundleText files cfg.source = .ok bundle)
    (hus : updates cfg (blockOf cfg bundle) files = .ok us) :
    (run cfg files).result =
      (writeAll cfg files us).result.map fun _ => verdictOf cfg bundle us := by
  rw [blockOf] at hus
  rw [run, verdictOf]
  simp only [openBundle, hbundle, runOn, hus]
  cases (writeAll cfg files us).result with
  | error failure => rfl
  | ok done =>
    obtain rfl : done = () := rfl
    simp only [Except.map]
    split <;> rfl

/-- What comes after the bundle and the consumers were read. -/
theorem run_of_updates {us : List Update} (hbundle : bundleText files cfg.source = .ok bundle)
    (hus : updates cfg (blockOf cfg bundle) files = .ok us) :
    (run cfg files).files = (writeAll cfg files us).files ∧
      ((∃ v, (run cfg files).result = .ok v) ↔ (writeAll cfg files us).result = .ok ()) := by
  constructor
  · rw [blockOf] at hus
    rw [run]
    simp only [openBundle, hbundle, runOn, hus]
    cases (writeAll cfg files us).result with
    | error failure => rfl
    | ok done =>
      -- whether the run is suspicious makes no difference to the files
      simp only
      split <;> rfl
  · rw [result_run_of_updates hbundle hus]
    cases (writeAll cfg files us).result <;> simp [Except.map]

/-- A run is stopped with all files as they were, or it has read the bundle and all consumers. -/
theorem run_cases (cfg : Config) (files : FileTree) :
    ((run cfg files).files = files ∧ ∃ failure, (run cfg files).result = .error failure) ∨
      ∃ bundle us, bundleText files cfg.source = .ok bundle ∧
        updates cfg (blockOf cfg bundle) files = .ok us := by
  cases hbundle : bundleText files cfg.source with
  | error failure =>
    left
    rw [run]
    simp only [openBundle, hbundle]
    exact ⟨trivial, failure, rfl⟩
  | ok bundle =>
    cases hus : updates cfg (blockOf cfg bundle) files with
    | ok us => exact .inr ⟨bundle, us, rfl, hus⟩
    | error error =>
      left
      rw [blockOf] at hus
      rw [run]
      simp only [openBundle, hbundle, runOn, hus]
      exact ⟨trivial, _, rfl⟩

/-- A run that is not stopped has read the bundle and all consumers. -/
theorem exists_updates_of_run {v : Verdict} (h : (run cfg files).result = .ok v) :
    ∃ bundle us, bundleText files cfg.source = .ok bundle ∧
      updates cfg (blockOf cfg bundle) files = .ok us := by
  rcases run_cases cfg files with ⟨-, failure, hfailure⟩ | hread
  · exact absurd (hfailure.symm.trans h) (by simp)
  · exact hread

section InPlace

variable (houtput : cfg.output = none)

include houtput

theorem writeAll_updates {us : List Update} (hus : updates cfg (blockOf cfg bundle) files = .ok us)
    (h : Refreshable cfg bundle files) :
    (writeAll cfg files us).result = .ok () ∧
      Overwritten files cfg.targets (refreshedContents cfg bundle files)
        (writeAll cfg files us).files := by
  obtain ⟨hdestinations, hread⟩ := updates_of_output houtput hus
  rw [← hdestinations]
  refine overwritten_writeAll fun u hu => ?_
  obtain ⟨t, ht, htext⟩ := hread u hu
  obtain ⟨t', ht', hwritable⟩ := h u.destination (hdestinations ▸ List.mem_map_of_mem hu)
  obtain rfl := Except.ok.inj (ht.symm.trans ht')
  obtain ⟨l, old, hl, hold, rfl⟩ := fileText_eq_ok_iff.1 ht
  -- what is written depends on the file only, so updates of the same file agree
  refine ⟨l, old, hl, hold, ?_⟩
  rw [← htext, toBytes_eq_ok_iff, refreshedContents, hold]
  exact ⟨hwritable, rfl⟩

/-- A run is not stopped exactly if the bundle and the consumers can be read, and what a refresh
makes of the consumers can be written. -/
theorem run_eq_ok_iff : (∃ v, (run cfg files).result = .ok v) ↔
    ∃ bundle, bundleText files cfg.source = .ok bundle ∧ Refreshable cfg bundle files := by
  constructor
  · rintro ⟨v, hv⟩
    obtain ⟨bundle, us, hbundle, hus⟩ := exists_updates_of_run hv
    have hwritten := (run_of_updates hbundle hus).2.1 ⟨v, hv⟩
    obtain ⟨hdestinations, hread⟩ := updates_of_output houtput hus
    refine ⟨bundle, hbundle, fun target htarget => ?_⟩
    rw [← hdestinations] at htarget
    obtain ⟨u, hu, rfl⟩ := List.mem_map.1 htarget
    obtain ⟨t, ht, htext⟩ := hread u hu
    obtain ⟨bytes, hbytes⟩ := exists_toBytes_of_writeAll hwritten u hu
    exact ⟨t, ht, htext ▸ (toBytes_eq_ok_iff.1 hbytes).1⟩
  · rintro ⟨bundle, hbundle, h⟩
    obtain ⟨us, hus⟩ := h.exists_updates
    exact (run_of_updates hbundle hus).2.2 (writeAll_updates houtput hus h).1

/-- A run that is not stopped writes over its consumers and nothing else. -/
theorem overwritten_run (hbundle : bundleText files cfg.source = .ok bundle)
    (h : Refreshable cfg bundle files) :
    Overwritten files cfg.targets (refreshedContents cfg bundle files) (run cfg files).files := by
  obtain ⟨us, hus⟩ := h.exists_updates
  rw [(run_of_updates hbundle hus).1]
  exact (writeAll_updates houtput hus h).2

end InPlace

end Sync

end DeclSync
