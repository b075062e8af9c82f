import DeclSync.Proofs.SharedTargets

/-!
# What a run reports

A run that is not stopped says what is suspicious: on the standard error output stands a warning if
the bundle has no methods, and then one for each consumer without a region, in the order in which
the consumers are named. The exit code says whether there is anything suspicious, but only of a
strict run. Nothing else depends on whether a run is strict.

## Main definitions

- `Sync.LacksRegion` — a consumer without a region
- `Sync.noMethodsWarning`, `Sync.missingAnchorWarning` — the lines that a run warns with

`Sync.run_reports` says what the exit code and the standard error output tell.
-/

namespace DeclSync

namespace Sync

open Region Text

variable {cfg : Config} {files : FileTree} {bundle t : Text} {target : Path} {us : List Update}

/-! ## Consumers without a region -/

/-- A consumer that can be read and has no region. -/
def LacksRegion (cfg : Config) (files : FileTree) (target : Path) : Prop :=
  ∃ t, fileText files target = .ok t ∧
    ∀ start close, ¬ StandsAt cfg.anchor standardEndMarker t start close

theorem found_refresh_eq_false_iff : (refresh cfg target t bundle).found = false ↔
    ∀ start close, ¬ StandsAt cfg.anchor standardEndMarker t start close := by
  rcases isFirst_or_none cfg.anchor standardEndMarker t with ⟨start, close, hfirst⟩ | hnone
  · rw [(refresh_of_isFirst hfirst target bundle).1]
    exact ⟨fun h => absurd h (by simp), fun h => absurd hfirst.toStandsAt (h start close)⟩
  · exact ⟨fun _ => hnone, fun _ => (refresh_of_none hnone target bundle).1⟩

theorem lacksRegion_iff_found (ht : fileText files target = .ok t) (bundle : Text) :
    LacksRegion cfg files target ↔ (refresh cfg target t bundle).found = false := by
  rw [found_refresh_eq_false_iff]
  constructor
  · rintro ⟨t', ht', hnone⟩
    obtain rfl := Except.ok.inj (ht.symm.trans ht')
    exact hnone
  · exact fun hnone => ⟨t, ht, hnone⟩

instance (cfg : Config) (files : FileTree) (target : Path) :
    Decidable (LacksRegion cfg files target) :=
  match h : fileText files target with
  | .error _ => .isFalse fun ⟨_, ht, _⟩ => absurd (h.symm.trans ht) (by simp)
  | .ok _ => decidable_of_iff _ (lacksRegion_iff_found h []).symm

/-- Whether a run is suspicious about its consumers. -/
theorem any_found_iff_lacksRegion (hus : updates cfg (blockOf cfg bundle) files = .ok us) :
    (us.any fun u => !u.found) = true ↔ ∃ target ∈ cfg.targets, LacksRegion cfg files target := by
  rw [any_found_iff hus]
  simp only [LacksRegion, found_refresh_eq_false_iff]

/-! ## Warnings -/

/-- The line that warns of a bundle without methods. -/
def noMethodsWarning (source : Path) : Text :=
  "Warning: " ++ ("no methods found in " ++ source.text ++ "; the generated block will be empty") ++
    "\n"

/-- The line that warns of a consumer without a region. -/
def missingAnchorWarning (anchor : Text) (target : Path) : Text :=
  "Warning: " ++
    ("anchor '" ++ anchor ++ "' not found in " ++ target.text ++ "; file left unchanged") ++ "\n"

theorem stderr_emptyWarning (cfg : Config) (methods : List Method) :
    (emptyWarning cfg methods).flatMap Message.stderr =
      if methods = [] then noMethodsWarning cfg.source else [] := by
  cases methods with
  | nil => exact (List.append_nil _).trans (Message.stderr_warning _)
  | cons m methods => rfl

theorem stderr_updatingMessages (cfg : Config) (u : Update) :
    (updatingMessages cfg u).flatMap Message.stderr =
      if u.found then [] else missingAnchorWarning cfg.anchor u.target := by
  rw [updatingMessages, List.flatMap_cons]
  split
  · rfl
  · exact (List.append_nil _).trans (Message.stderr_warning _)

theorem stderr_writeAll (h : (writeAll cfg files us).result = .ok ()) :
    (writeAll cfg files us).messages.flatMap Message.stderr =
      us.flatMap fun u => if u.found then [] else missingAnchorWarning cfg.anchor u.target := by
  induction us generalizing files with
  | nil => rfl
  | cons u us ih =>
    rw [writeAll] at h ⊢
    cases hput : putText files u.destination u.text with
    | error failure =>
      rw [hput] at h
      exact absurd h (by simp)
    | ok after =>
      rw [hput] at h
      rw [List.flatMap_cons, ← ih h, ← stderr_updatingMessages]
      simp only [List.flatMap_append, List.flatMap_cons]
      rfl

theorem stderr_bundleMessages (cfg : Config) (methods : List Method) :
    (bundleMessages cfg methods).flatMap Message.stderr =
      if methods = [] then noMethodsWarning cfg.source else [] := by
  have hsummary : (summary methods).flatMap Message.stderr = [] := by
    simp [summary, List.flatMap_eq_nil_iff, Message.stderr]
  rw [bundleMessages, List.flatMap_append, List.flatMap_append, List.flatMap_cons, hsummary,
    stderr_emptyWarning]
  exact List.append_nil _

/-- The updates that found no region are those of the consumers without one. -/
theorem flatMap_updates (warn : Path → Text)
    (hus : updates cfg (blockOf cfg bundle) files = .ok us) :
    (us.flatMap fun u => if u.found then [] else warn u.target) =
      (cfg.targets.filter fun target => LacksRegion cfg files target).flatMap warn := by
  rw [updates_eq_ok_iff] at hus
  generalize cfg.targets = targets at hus ⊢
  induction hus with
  | nil => rfl
  | @cons target u targets us hu _ ih =>
    obtain ⟨t, ht, rfl⟩ := hu
    rw [List.flatMap_cons, ih, List.filter_cons]
    by_cases hlacks : LacksRegion cfg files target
    · have hfound := (lacksRegion_iff_found ht bundle).1 hlacks
      rw [if_pos (decide_eq_true hlacks), hfound]
      rfl
    · have hfound : (refresh cfg target t bundle).found = true := by
        rwa [lacksRegion_iff_found ht bundle, Bool.not_eq_false] at hlacks
      rw [hfound, if_pos rfl, if_neg (by simpa using hlacks)]
      rfl

/-! ## A whole run -/

theorem exitCode_verdictOf (hus : updates cfg (blockOf cfg bundle) files = .ok us) :
    (verdictOf cfg bundle us).exitCode =
      if cfg.strict = true ∧ (Method.ofBundle cfg.apiName bundle = [] ∨
        ∃ target ∈ cfg.targets, LacksRegion cfg files target) then 2 else 0 := by
  have hsuspicious : (cfg.strict && ((Method.ofBundle cfg.apiName bundle).isEmpty ||
      us.any fun u => !u.found)) = true ↔ cfg.strict = true ∧
        (Method.ofBundle cfg.apiName bundle = [] ∨
          ∃ target ∈ cfg.targets, LacksRegion cfg files target) := by
    rw [Bool.and_eq_true_iff, Bool.or_eq_true_iff, List.isEmpty_iff, any_found_iff_lacksRegion hus]
  rw [verdictOf]
  split
  · next h => rw [if_pos (hsuspicious.1 h)]; rfl
  · next h => rw [if_neg (mt hsuspicious.2 h)]; rfl

/-- What stands on the standard error output after a run that has read everything. -/
theorem stderr_run_of_updates (hbundle : bundleText files cfg.source = .ok bundle)
    (hus : updates cfg (blockOf cfg bundle) files = .ok us) :
    (run cfg files).messages.flatMap Message.stderr =
      (if Method.ofBundle cfg.apiName bundle = [] then noMethodsWarning cfg.source else []) ++
        (writeAll cfg files us).messages.flatMap Message.stderr := by
  rw [blockOf] at hus
  rw [← stderr_bundleMessages, run]
  simp only [openBundle, hbundle, runOn, hus]
  cases (writeAll cfg files us).result with
  | error failure => simp [Message.stderr]
  | ok done =>
    -- the last message is about progress
    simp only
    split <;> simp [Message.stderr]

theorem writeAll_strict (cfg : Config) (strict : Bool) (files : FileTree) (us : List Update) :
    writeAll { cfg with strict } files us = writeAll cfg files us := by
  induction us generalizing files with
  | nil => rfl
  | cons u us ih =>
    rw [writeAll, writeAll]
    cases putText files u.destination u.text with
    | error failure => rfl
    | ok after =>
      simp only [ih]
      rfl

/-- Whether a run is strict makes no difference to its files and its warnings, nor to what stops it.
-/
theorem run_strict (cfg : Config) (files : FileTree) (strict : Bool) :
    (run { cfg with strict } files).files = (run cfg files).files ∧
    (run { cfg with strict } files).messages.flatMap Message.stderr =
      (run cfg files).messages.flatMap Message.stderr ∧
    ∀ failure, (run { cfg with strict } files).result = .error failure ↔
      (run cfg files).result = .error failure := by
  cases hbundle : bundleText files cfg.source with
  | error failure => simp [run, openBundle, hbundle]
  | ok bundle =>
    have hbundle' : bundleText files { cfg with strict }.source = .ok bundle := hbundle
    cases hus : updates cfg (blockOf cfg bundle) files with
    | error error =>
      have hus' : updates { cfg with strict } (blockOf cfg bundle) files = .error error := hus
      rw [blockOf] at hus hus'
      simp only [run, openBundle, hbundle, runOn, hus, hus', true_and]
      exact ⟨rfl, fun _ => trivial⟩
    | ok us =>
      have hus' : updates { cfg with strict } (blockOf { cfg with strict } bundle) files =
          .ok us := hus
      have hsame := writeAll_strict cfg strict files us
      refine ⟨?_, ?_, fun failure => ?_⟩
      · rw [(run_of_updates hbundle' hus').1, (run_of_updates hbundle hus).1, hsame]
      · rw [stderr_run_of_updates hbundle' hus', stderr_run_of_updates hbundle hus, hsame]
      · rw [result_run_of_updates hbundle' hus', result_run_of_updates hbundle hus, hsame]
        cases (writeAll cfg files us).result <;> simp [Except.map]

/-- A run that is not stopped ends with 2 if it is strict and the bundle has no methods or a
consumer no region, and with 0 otherwise. On the standard error output stands a warning if the
bundle has no methods, and then one for each consumer without a region, in their order, and nothing
else. A run that is strict and one that is not leave the same files and the same warnings behind. -/
theorem run_reports :
    (∀ (cfg : Config) (files : FileTree) (v : Verdict), (run cfg files).result = .ok v →
      (∀ target ∈ cfg.targets, ∃ t, fileText files target = .ok t) ∧
      ∃ bundle, bundleText files cfg.source = .ok bundle ∧
        v.exitCode = (if cfg.strict = true ∧ (Method.ofBundle cfg.apiName bundle = [] ∨
          ∃ target ∈ cfg.targets, LacksRegion cfg files target) then 2 else 0) ∧
        (run cfg files).messages.flatMap Message.stderr =
          (if Method.ofBundle cfg.apiName bundle = [] then noMethodsWarning cfg.source else []) ++
            (cfg.targets.filter fun target => LacksRegion cfg files target).flatMap
              (missingAnchorWarning cfg.anchor)) ∧
    ∀ (cfg : Config) (files : FileTree) (strict : Bool),
      (run { cfg with strict } files).files = (run cfg files).files ∧
      (run { cfg with strict } files).messages.flatMap Message.stderr =
        (run cfg files).messages.flatMap Message.stderr := by
  constructor
  · intro cfg files v hv
    obtain ⟨bundle, us, hbundle, hus⟩ := exists_updates_of_run hv
    have hresult := result_run_of_updates hbundle hus
    rw [hv] at hresult
    have hwritten := (run_of_updates hbundle hus).2.1 ⟨v, hv⟩
    rw [hwritten] at hresult
    obtain rfl : v = verdictOf cfg bundle us := Except.ok.inj hresult
    refine ⟨(exists_of_updates hus).1, bundle, hbundle, ?_, ?_⟩
    · exact exitCode_verdictOf hus
    · rw [stderr_run_of_updates hbundle hus, stderr_writeAll hwritten,
        flatMap_updates (missingAnchorWarning cfg.anchor) hus]
  · intro cfg files strict
    obtain ⟨hfiles, hstderr, -⟩ := run_strict cfg files strict
    exact ⟨hfiles, hstderr⟩

/-- A bundle without methods, a consumer with a region and one without. -/
def reportedFiles : FileTree where
  entries := [(["a.js"], .file []), (["x.ts"], .file (fileBytes "// M\n];\n")),
    (["y.ts"], .file (fileBytes "// N\n];\n"))]

/-- A strict run that comes to the consumer without a region twice. -/
def reportedConfig : Config where
  source := .ofText "a.js"
  targets := [.ofText "y.ts", .ofText "x.ts", .ofText "./y.ts"]
  anchor := "// M"
  strict := true

/-- The run warns of the bundle, and each time that it comes to the consumer. -/
theorem run_reports_twice :
    ((run reportedConfig reportedFiles).result = .ok .suspicious ∧
      .ofText "y.ts" ∈ reportedConfig.targets) ∧
    (∃ t, fileText reportedFiles (.ofText "y.ts") = .ok t) ∧ Verdict.suspicious.exitCode = 2 ∧
    (run reportedConfig reportedFiles).messages.flatMap Message.stderr =
      "Warning: no methods found in a.js; the generated block will be empty\n" ++
        ("Warning: anchor '// M' not found in y.ts; file left unchanged\n" ++
          "Warning: anchor '// M' not found in y.ts; file left unchanged\n") ∧
    (run { reportedConfig with strict := false } reportedFiles).files =
      (run reportedConfig reportedFiles).files := by
  have hresult : (run reportedConfig reportedFiles).result = .ok .suspicious :=
    eq_ok_of_toOption (by decide +kernel)
  have hmem : .ofText "y.ts" ∈ reportedConfig.targets := List.mem_cons_self
  have hempty : bundleText reportedFiles reportedConfig.source = .ok [] := rfl
  obtain ⟨hreports, hstrict⟩ := run_reports
  obtain ⟨hread, bundle, hbundle, hexit, hstderr⟩ := hreports _ _ _ hresult
  obtain rfl := Except.ok.inj (hempty.symm.trans hbundle)
  refine ⟨⟨hresult, hmem⟩, hread _ hmem, ?_, ?_, (hstrict reportedConfig reportedFiles false).1⟩
  · rw [hexit]
    decide +kernel
  · rw [hstderr]
    decide +kernel

end Sync

end DeclSync
