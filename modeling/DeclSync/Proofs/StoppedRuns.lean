import DeclSync.CommandLine.Program
import DeclSync.Proofs.Transcoding

/-!
# Runs that are stopped

A run that is stopped has changed no file. Nothing is written before everything was read. If the
block can be written, then so can every consumer that was read; and if it cannot, then the only
consumers that are written are those without a region, and these are written as they were. With an
output path there is one consumer only, and one write that fails changes nothing.

## Main definitions

- `Sync.IsIdle` — an update that changes nothing, whether it can be made or not

`Program.get?_run` says this of the program and of a run.
-/

namespace DeclSync

open FileTree Text

namespace Sync

open Region

variable {cfg : Config} {files after : FileTree} {bundle t : Text} {p : Path} {failure : Failure}

/-! ## Updates that change nothing -/

/-- An update that cannot be written, or that writes what is there. -/
def IsIdle (files : FileTree) (u : Update) : Prop :=
  (∃ run, u.text.toBytes = .error run) ∨ fileText files u.destination = .ok u.text

theorem fileText_eq_of_get?_eq (h : ∀ l, after.get? l = files.get? l) (p : Path) :
    fileText after p = fileText files p := by
  rw [fileText, fileText, read_eq_of_get?_eq h]

theorem get?_putText (h : fileText files p = .ok t) (hput : putText files p t = .ok after)
    (l : Location) : after.get? l = files.get? l := by
  obtain ⟨l', contents, hl, hcontents, rfl⟩ := fileText_eq_ok_iff.1 h
  obtain ⟨after', hput', hsame⟩ := exists_putText_of_read (read_eq_ok_iff.2 ⟨l', hl, hcontents⟩)
  obtain rfl := Except.ok.inj (hput.symm.trans hput')
  exact hsame l

/-- Idle updates change no file, wherever they are stopped. -/
theorem get?_writeAll {us : List Update} (h : ∀ u ∈ us, IsIdle files u) (l : Location) :
    (writeAll cfg files us).files.get? l = files.get? l := by
  induction us generalizing files with
  | nil => rfl
  | cons u us ih =>
    rw [List.forall_mem_cons] at h
    rw [writeAll]
    cases hput : putText files u.destination u.text with
    | error failure => rfl
    | ok after =>
      have hsame : ∀ l, after.get? l = files.get? l := by
        rcases h.1 with ⟨run, hrun⟩ | hread
        · obtain ⟨contents, hcontents, -⟩ := putText_eq_ok_iff.1 hput
          exact absurd (hrun.symm.trans hcontents) (by simp)
        · exact get?_putText hread hput
      -- the later updates are idle in the tree that was written
      have hlater : ∀ v ∈ us, IsIdle after v := fun v hv =>
        (h.2 v hv).imp_right fun hread => (fileText_eq_of_get?_eq hsame v.destination).trans hread
      exact (ih hlater).trans (hsame l)

/-- A single update that is stopped changes nothing. -/
theorem files_writeAll_singleton {u : Update}
    (h : (writeAll cfg files [u]).result = .error failure) :
    (writeAll cfg files [u]).files = files := by
  rw [writeAll] at h ⊢
  cases hput : putText files u.destination u.text with
  | error failure => rfl
  | ok after =>
    rw [hput] at h
    exact absurd h (by simp [writeAll])

/-! ## A block that cannot be written -/

/-- A consumer with a region can only be written if the block can. -/
theorem isWritable_blockOf {start close : Nat} {target : Path}
    (hfirst : IsFirst cfg.anchor standardEndMarker t start close)
    (h : ∀ c ∈ (refresh cfg target t bundle).text, c.isWritable = true) :
    ∀ c ∈ blockOf cfg bundle, c.isWritable = true := by
  rw [(refresh_of_isFirst hfirst target bundle).2] at h
  have hblock : ∀ c ∈ withLineBreak LineEnding.lf.text (blockOf cfg bundle), c.isWritable = true :=
    isWritable_withLineBreak fun c hc => h c (mem_framed hc)
  rwa [withLineBreak_lf] at hblock

theorem isIdle_refresh {target : Path} (houtput : cfg.output = none)
    (hblock : ¬ ∀ c ∈ blockOf cfg bundle, c.isWritable = true)
    (ht : fileText files target = .ok t) : IsIdle files (refresh cfg target t bundle) := by
  rcases isFirst_or_none cfg.anchor standardEndMarker t with ⟨start, close, hfirst⟩ | hnone
  · left
    cases htext : (refresh cfg target t bundle).text.toBytes with
    | error run => exact ⟨run, rfl⟩
    | ok written => exact absurd (isWritable_blockOf hfirst (toBytes_eq_ok_iff.1 htext).1) hblock
  · right
    rw [destination_refresh houtput, (refresh_of_none hnone target bundle).2]
    exact ht

/-! ## A whole run -/

/-- A run without an output path that is stopped changes no file. -/
theorem get?_run_inPlace (houtput : cfg.output = none)
    (hrun : (run cfg files).result = .error failure) (l : Location) :
    (run cfg files).files.get? l = files.get? l := by
  rcases run_cases cfg files with ⟨hsame, -⟩ | ⟨bundle, us, hbundle, hus⟩
  · rw [hsame]
  · have hunwritable : ¬ ∀ c ∈ blockOf cfg bundle, c.isWritable = true := by
      intro hblock
      have h := refreshable_of_block hblock (exists_of_updates hus).1
      obtain ⟨v, hv⟩ := (run_eq_ok_iff houtput).2 ⟨bundle, hbundle, h⟩
      exact absurd (hrun.symm.trans hv) (by simp)
    rw [(run_of_updates hbundle hus).1]
    refine get?_writeAll (fun u hu => ?_) l
    obtain ⟨target, t, ht, rfl⟩ := (exists_of_updates hus).2 u hu
    exact isIdle_refresh houtput hunwritable ht

/-- A run over one consumer that is stopped changes no file. -/
theorem get?_run_single (htargets : cfg.targets.length ≤ 1)
    (hrun : (run cfg files).result = .error failure) (l : Location) :
    (run cfg files).files.get? l = files.get? l := by
  rcases run_cases cfg files with ⟨hsame, -⟩ | ⟨bundle, us, hbundle, hus⟩
  · rw [hsame]
  · have hlength : us.length ≤ 1 := (updates_eq_ok_iff.1 hus).length_eq ▸ htargets
    rw [(run_of_updates hbundle hus).1]
    rw [result_run_of_updates hbundle hus] at hrun
    match us, hlength with
    | [], _ => rfl
    | [u], _ =>
      cases hwritten : (writeAll cfg files [u]).result with
      | error failure => rw [files_writeAll_singleton hwritten]
      | ok done =>
        rw [hwritten] at hrun
        exact absurd hrun (by simp [Except.map])

end Sync

namespace Options

/-- An output path is only accepted with a single target. -/
theorem config_of_parse {arguments : List Text} {rules : JoinRules} {o : Options}
    (h : parse arguments rules = .ok o) :
    o.config.output = none ∨ o.config.targets.length ≤ 1 := by
  have hpaired : ¬ (!o.output.isEmpty && o.targets.length > 1) = true := by
    rw [parse] at h
    obtain ⟨sorted, -, h⟩ := Sync.bind_eq_ok_iff.1 h
    obtain ⟨⟨final, refused⟩, -, h⟩ := Sync.bind_eq_ok_iff.1 h
    simp only at h
    -- nothing was refused, and the values are those that were reached
    split at h
    · exact absurd h (by simp)
    · split at h
      · exact absurd h (by simp)
      · next hpaired => exact Except.ok.inj h ▸ hpaired
  by_cases hempty : o.output.isEmpty = true
  · exact .inl (if_pos hempty)
  · have hfew : o.targets.length ≤ 1 := by
      by_contra hmany
      exact hpaired (by simp [hempty, Nat.not_le.1 hmany])
    right
    rw [config, List.length_map]
    split
    · exact Nat.le_refl 1
    · exact hfew

end Options

namespace Program

/-- A program that neither goes through nor is suspicious leaves every file as it was, by whichever
rules it reads its command line, and so does a run that is stopped, unless it has an output path and
several consumers. This is about idealised trees, in which a file that can be read can be written,
and about outputs that do not fail. -/
theorem get?_run :
    (∀ (arguments : List Text) (rules : JoinRules) (verbose : Bool) (files : FileTree),
      (run arguments verbose files rules).ending ≠ .returns 0 →
      (run arguments verbose files rules).ending ≠ .returns 2 →
        ∀ l, (run arguments verbose files rules).files.get? l = files.get? l) ∧
    ∀ (cfg : Config) (files : FileTree) (failure : Failure),
      (cfg.output = none ∨ cfg.targets.length ≤ 1) →
      (Sync.run cfg files).result = .error failure →
        ∀ l, (Sync.run cfg files).files.get? l = files.get? l := by
  have hsync : ∀ (cfg : Config) (files : FileTree) (failure : Failure),
      (cfg.output = none ∨ cfg.targets.length ≤ 1) → (Sync.run cfg files).result = .error failure →
        ∀ l, (Sync.run cfg files).files.get? l = files.get? l := by
    rintro cfg files failure (houtput | htargets) hrun
    · exact Sync.get?_run_inPlace houtput hrun
    · exact Sync.get?_run_single htargets hrun
  refine ⟨fun arguments rules verbose files hpassed hsuspicious l => ?_, hsync⟩
  rw [run] at hpassed hsuspicious ⊢
  cases hparse : Options.parse arguments rules with
  | error exit => rfl
  | ok o =>
    simp only [hparse, runWith] at hpassed hsuspicious ⊢
    cases hresult : (Sync.run o.config files).result with
    | error failure =>
      have hsame := hsync _ _ _ (Options.config_of_parse hparse) hresult l
      simp only
      split <;> exact hsame
    | ok verdict =>
      -- the exit codes of a run that is not stopped are 0 and 2
      rw [hresult] at hpassed hsuspicious
      cases verdict with
      | passed => exact absurd rfl hpassed
      | suspicious => exact absurd rfl hsuspicious

/-- A bundle, a consumer without a region, and one with a region. -/
def halfwayFiles : FileTree where
  entries := [(["a.js"], .file []), (["x.ts"], .file [0x41, 0xFF]),
    (["y.ts"], .file (fileBytes "// Sypnex API method definitions\n];"))]

/-- A run over both consumers, with an array name that cannot be written. -/
def halfwayConfig : Config where
  source := .ofText "a.js"
  targets := [.ofText "x.ts", .ofText "y.ts"]
  arrayName := [.surrogate 0]

/-- The command line for this run. -/
def halfwayArguments : List Text :=
  ["-s", "a.js", "-t", "x.ts", "-t", "y.ts", "--array-name", [.surrogate 0]]

/-- The first consumer is written, and the second one stops the run. -/
theorem get?_run_halfway :
    (∀ rules, (run halfwayArguments false halfwayFiles rules).ending ≠ .returns 0 ∧
      (run halfwayArguments false halfwayFiles rules).ending ≠ .returns 2 ∧
      ∀ l, (run halfwayArguments false halfwayFiles rules).files.get? l = halfwayFiles.get? l) ∧
    halfwayConfig.output = none ∧ ∃ failure,
      (Sync.run halfwayConfig halfwayFiles).result = .error failure ∧
        ∀ l, (Sync.run halfwayConfig halfwayFiles).files.get? l = halfwayFiles.get? l := by
  have hstops : ∀ rules, (match (run halfwayArguments false halfwayFiles rules).ending with
      | .stops _ => true
      | _ => false) = true := by
    intro rules
    cases rules <;> decide +kernel
  have hreturns : ∀ rules code,
      (run halfwayArguments false halfwayFiles rules).ending ≠ .returns code := by
    intro rules code hcode
    have hstop := hstops rules
    rw [hcode] at hstop
    exact absurd hstop Bool.false_ne_true
  have hnone : (Sync.run halfwayConfig halfwayFiles).result.toOption = none := by decide +kernel
  obtain ⟨failure, hfailure⟩ :
      ∃ failure, (Sync.run halfwayConfig halfwayFiles).result = .error failure := by
    cases hresult : (Sync.run halfwayConfig halfwayFiles).result with
    | error failure => exact ⟨failure, rfl⟩
    | ok verdict =>
      rw [hresult] at hnone
      exact absurd hnone (Option.some_ne_none verdict)
  obtain ⟨hprogram, hsync⟩ := get?_run
  refine ⟨fun rules => ⟨hreturns rules 0, hreturns rules 2, ?_⟩, rfl, failure, hfailure,
    hsync _ _ _ (.inl rfl) hfailure⟩
  exact hprogram _ rules _ _ (hreturns rules 0) (hreturns rules 2)

end Program

end DeclSync
