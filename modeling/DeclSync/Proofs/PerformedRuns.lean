import DeclSync.Sync

/-!
# Runs as they are performed

A run is described by what it leaves behind and by what it says, whether progress is shown or not.
Here it is performed step by step, on a world of files and outputs: it writes what it says when it
says it, keeps in mind whether anything was suspicious, and may be stopped in between. Only an echo
looks at whether progress is shown. The description tells what becomes of the world; and so whether
progress is shown makes a difference to the standard output alone, and there to the progress alone.

## Main definitions

- `World` — the files, and what was written to the outputs
- `Sync.perform` — a run, performed on a world
- `Sync.observe` — what can be seen of a run

`Sync.run_perform` says that a run is performed as it is described, and `Sync.observe_quiet` what
there is to see when progress is not shown.
-/

namespace DeclSync

/-- What a run is performed on: the files, whether progress is shown, and what was written to the
standard output and the standard error output. Writing to these does not fail. -/
structure World where
  files : FileTree
  verbose : Bool
  stdout : Text := []
  stderr : Text := []

/-- What is done on the world, which may be stopped by a failure. -/
abbrev RunM := EStateM Failure World

namespace RunM

variable {α : Type}

/-- Shows progress, if it is to be shown. -/
def echo (text : Text) : RunM Unit :=
  modify fun w => if w.verbose then { w with stdout := w.stdout ++ text } else w

/-- Writes to the standard output. -/
def print (text : Text) : RunM Unit := modify fun w => { w with stdout := w.stdout ++ text }

/-- Writes a warning to the standard error output. -/
def warn (text : Text) : RunM Unit :=
  modify fun w => { w with stderr := w.stderr ++ ("Warning: " ++ text ++ "\n") }

/-- Writes a warning if there is reason to. -/
def warnIf (suspicious : Bool) (text : Text) : RunM Unit :=
  if suspicious then warn text else pure ()

/-- Goes on with a result, or is stopped. -/
def ofResult : Except Failure α → RunM α
  | .ok a => pure a
  | .error failure => throw failure

/-- Reads the text of a file. -/
def readText (path : Path) : RunM Text := do
  ofResult ((Sync.fileText (← get).files path).mapError .ofFile)

/-- Writes a text to a file. -/
def writeText (path : Path) (text : Text) : RunM Unit := do
  let files ← ofResult (Sync.putText (← get).files path text)
  modify fun w => { w with files }

end RunM

namespace Sync

open RunM

/-- Reads the bundle. -/
def loadBundle (path : Path) : RunM Text := do
  echo ("Reading API file '" ++ path.text ++ "'...\n")
  ofResult (bundleText (← get).files path)

/-- Writes the summary of the methods of a bundle. -/
def printSummary (methods : List Method) : RunM Unit := do
  print ("Found " ++ Text.ofNat methods.length ++ " methods:\n")
  methods.forM fun m => print (summaryLine m)

/-- Reads all consumers. -/
def readConsumers : List Path → RunM (List (Path × Text))
  | [] => return []
  | path :: paths => do
    let text ← readText path
    let rest ← readConsumers paths
    return (path, text) :: rest

/-- Patches and writes the consumers one after another, and keeps in mind whether anything was
suspicious. -/
def updateConsumers (cfg : Config) (block : Text) (suspicious : Bool) :
    List (Path × Text) → RunM Bool
  | [] => return suspicious
  | (path, text) :: rest => do
    echo ("Updating '" ++ path.text ++ "'...\n")
    let u := updateOf cfg block path text
    warnIf (!u.found)
      ("anchor '" ++ cfg.anchor ++ "' not found in " ++ path.text ++ "; file left unchanged")
    writeText u.destination u.text
    echo ("Updated source written to " ++ u.destination.text ++ "\n")
    updateConsumers cfg block (suspicious || !u.found) rest

/-- The part of a run that follows the reading of the bundle, performed. -/
def performOn (cfg : Config) (bundle : Text) : RunM Verdict := do
  echo "Extracting methods...\n"
  let methods := Method.ofBundle cfg.apiName bundle
  printSummary methods
  warnIf methods.isEmpty
    ("no methods found in " ++ cfg.source.text ++ "; the generated block will be empty")
  echo "Generating declarations...\n"
  let block := Declaration.block cfg.anchor cfg.arrayName methods
  let consumers ← readConsumers cfg.targets
  let suspicious ← updateConsumers cfg block methods.isEmpty consumers
  if cfg.strict && suspicious then return .suspicious
  else
    echo "Extension updated successfully!\n"
    return .passed

/-- A run, performed. -/
def perform (cfg : Config) : RunM Verdict := do
  let bundle ← loadBundle cfg.source
  performOn cfg bundle

/-- What can be seen of a run: the files, its result, and what stands on the outputs. -/
structure Observation where
  files : FileTree
  result : Except Failure Verdict
  stdout : Text
  stderr : Text

/-- What can be seen of a run, with progress shown or not. -/
def observe (verbose : Bool) (cfg : Config) (files : FileTree) : Observation :=
  match (perform cfg).run { files, verbose } with
  | .ok v w => ⟨w.files, .ok v, w.stdout, w.stderr⟩
  | .error failure w => ⟨w.files, .error failure, w.stdout, w.stderr⟩

end Sync

/-! ## Actions one after another -/

/-- The world after its files were changed and messages were said. -/
def World.after (w : World) (files : FileTree) (said : List Message) : World :=
  { w with
    files
    stdout := w.stdout ++ said.flatMap (Message.stdout w.verbose)
    stderr := w.stderr ++ said.flatMap Message.stderr }

/-- How an action ends that has a described outcome. -/
def World.ends {α : Type} (w : World) (o : Outcome α) : EStateM.Result Failure World α :=
  match o.result with
  | .ok a => .ok a (w.after o.files o.messages)
  | .error failure => .error failure (w.after o.files o.messages)

theorem World.after_nil (w : World) : w.after w.files [] = w := by
  simp [World.after]

theorem World.files_after (w : World) (files : FileTree) (said : List Message) :
    (w.after files said).files = files := rfl

theorem World.after_after (w : World) (files files' : FileTree) (said said' : List Message) :
    (w.after files said).after files' said' = w.after files' (said ++ said') := by
  simp [World.after]

/-- What is said first stands before what is said later. -/
theorem World.ends_after {α : Type} (w : World) (files : FileTree) (said : List Message)
    (o : Outcome α) :
    (w.after files said).ends o = w.ends { o with messages := said ++ o.messages } := by
  simp only [World.ends, World.after_after]

namespace RunM

variable {α : Type}

theorem run_echo (text : Text) (w : World) :
    (echo text).run w = .ok () (w.after w.files [.progress text]) := by
  obtain ⟨files, verbose, stdout, stderr⟩ := w
  cases verbose <;> simp [echo, World.after, Message.stdout, Message.stderr]

theorem run_print (text : Text) (w : World) :
    (print text).run w = .ok () (w.after w.files [.report text]) := by
  simp [print, World.after, Message.stdout, Message.stderr]

theorem run_warn (text : Text) (w : World) :
    (warn text).run w = .ok () (w.after w.files [.warning [.text text]]) := by
  have hstdout : (Message.warning [.text text]).stdout w.verbose = [] := rfl
  simp [warn, World.after, Message.stderr_warning, hstdout]

theorem run_warnIf (suspicious : Bool) (text : Text) (w : World) : (warnIf suspicious text).run w =
    .ok () (w.after w.files (if suspicious then [.warning [.text text]] else [])) := by
  cases suspicious with
  | false => exact congrArg _ w.after_nil.symm
  | true => exact run_warn text w

theorem run_forM_print (f : α → Text) (xs : List α) (w : World) :
    (xs.forM fun a => print (f a)).run w =
      .ok () (w.after w.files (xs.map fun a => .report (f a))) := by
  induction xs generalizing w with
  | nil => exact congrArg _ w.after_nil.symm
  | cons a xs ih =>
    show (print (f a) >>= fun _ => xs.forM fun a => print (f a)).run w = _
    simp only [EStateM.run_bind, run_print, ih, World.after_after]
    rfl

theorem run_ofResult (result : Except Failure α) (w : World) :
    (ofResult result).run w = w.ends ⟨w.files, [], result⟩ := by
  cases result with
  | ok a => exact congrArg _ w.after_nil.symm
  | error failure => exact congrArg _ w.after_nil.symm

theorem run_writeText (path : Path) (text : Text) (w : World) :
    (writeText path text).run w =
      match Sync.putText w.files path text with
      | .ok files => .ok () (w.after files [])
      | .error failure => .error failure w := by
  simp only [writeText, EStateM.run_bind, EStateM.run_get]
  cases Sync.putText w.files path text with
  | ok files => simp [ofResult, World.after]
  | error failure => rfl

end RunM

namespace Sync

open RunM

variable {cfg : Config} {block : Text} {w : World} {us : List Update}

/-! ## The steps of a run -/

theorem run_loadBundle (path : Path) (w : World) :
    (loadBundle path).run w = w.ends (openBundle w.files path) := by
  simp only [loadBundle, EStateM.run_bind, run_echo, EStateM.run_get, run_ofResult, openBundle]
  show (w.after w.files _).ends ⟨w.files, [], bundleText w.files path⟩ = _
  cases bundleText w.files path <;> simp [World.ends, World.after_after]

theorem run_printSummary (methods : List Method) (w : World) :
    (printSummary methods).run w = .ok () (w.after w.files (summary methods)) := by
  simp only [printSummary, EStateM.run_bind, run_print, run_forM_print, World.after_after]
  rfl

/-- The consumers with their texts. -/
def consumerTexts (files : FileTree) (targets : List Path) :
    Except FileError (List (Path × Text)) :=
  targets.mapM fun target => (fileText files target).map fun text => (target, text)

/-- The updates of consumers that were read. -/
def updatesOf (cfg : Config) (block : Text) (consumers : List (Path × Text)) : List Update :=
  consumers.map fun c => updateOf cfg block c.1 c.2

theorem updates_eq_map (cfg : Config) (block : Text) (files : FileTree) :
    updates cfg block files = (consumerTexts files cfg.targets).map (updatesOf cfg block) := by
  rw [updates, consumerTexts]
  induction cfg.targets with
  | nil => rfl
  | cons target targets ih =>
    rw [List.mapM_cons, List.mapM_cons, ih]
    cases fileText files target with
    | error error => rfl
    | ok text =>
      cases targets.mapM fun target => (fileText files target).map fun text => (target, text) with
      | error error => rfl
      | ok consumers => rfl

theorem run_readConsumers (targets : List Path) (w : World) : (readConsumers targets).run w =
    w.ends ⟨w.files, [], (consumerTexts w.files targets).mapError .ofFile⟩ := by
  rw [consumerTexts]
  induction targets with
  | nil => exact congrArg _ w.after_nil.symm
  | cons target targets ih =>
    simp only [readConsumers, readText, EStateM.run_bind, EStateM.run_get, run_ofResult]
    rw [List.mapM_cons]
    cases fileText w.files target with
    | error error => rfl
    | ok text =>
      have hread : w.ends ⟨w.files, [], (Except.ok text).mapError .ofFile⟩ = .ok text w :=
        congrArg _ w.after_nil
      simp only [hread, ih]
      cases targets.mapM fun target => (fileText w.files target).map fun text => (target, text) with
      | error error => rfl
      | ok consumers => rfl

theorem updatingMessages_updateOf (cfg : Config) (block : Text) (path : Path) (text : Text) :
    updatingMessages cfg (updateOf cfg block path text) =
      [.progress ("Updating '" ++ path.text ++ "'...\n")] ++
        if !(updateOf cfg block path text).found then
          [.warning
            [.text ("anchor '" ++ cfg.anchor ++ "' not found in " ++ path.text ++
              "; file left unchanged")]]
        else [] := by
  rw [updatingMessages]
  cases (updateOf cfg block path text).found <;> rfl

theorem run_updateConsumers (cfg : Config) (block : Text) (suspicious : Bool)
    (consumers : List (Path × Text)) (w : World) :
    let us := updatesOf cfg block consumers
    let written := writeAll cfg w.files us
    (updateConsumers cfg block suspicious consumers).run w =
      w.ends { written with
        result := written.result.map fun _ => suspicious || us.any fun u => !u.found } := by
  induction consumers generalizing suspicious w with
  | nil => simp [updateConsumers, updatesOf, writeAll, World.ends, World.after_nil, Except.map]
  | cons c consumers ih =>
    obtain ⟨path, text⟩ := c
    have hsaid := updatingMessages_updateOf cfg block path text
    simp only [updateConsumers, EStateM.run_bind, run_echo, run_warnIf, run_writeText,
      World.after_after, World.files_after, ← hsaid, updatesOf, List.map_cons, writeAll]
    cases putText w.files (updateOf cfg block path text).destination
        (updateOf cfg block path text).text with
    | error failure => rfl
    | ok after =>
      simp only [ih, World.files_after, World.after_after, World.ends_after, updatesOf,
        List.any_cons, Bool.or_assoc, List.append_nil, List.append_assoc, List.singleton_append]

/-! ## A whole run -/

theorem bundleMessages_eq (cfg : Config) (methods : List Method) :
    bundleMessages cfg methods =
      [.progress "Extracting methods...\n"] ++ summary methods ++
        (if methods.isEmpty then
          [.warning
            [.text ("no methods found in " ++ cfg.source.text ++
              "; the generated block will be empty")]]
        else []) ++ [.progress "Generating declarations...\n"] := rfl

theorem run_performOn (cfg : Config) (bundle : Text) (w : World) :
    (performOn cfg bundle).run w = w.ends (runOn cfg w.files bundle) := by
  have hsaid := bundleMessages_eq cfg (Method.ofBundle cfg.apiName bundle)
  simp only [performOn, EStateM.run_bind, run_echo, run_printSummary, run_warnIf,
    run_readConsumers, World.files_after, World.after_after, ← hsaid, World.ends_after, runOn,
    updates_eq_map, List.append_nil]
  generalize Declaration.block cfg.anchor cfg.arrayName (Method.ofBundle cfg.apiName bundle) = block
  generalize bundleMessages cfg (Method.ofBundle cfg.apiName bundle) = said
  cases consumerTexts w.files cfg.targets with
  | error error => rfl
  | ok consumers =>
    have hread : (Except.ok consumers).mapError Failure.ofFile = .ok consumers := rfl
    simp only [hread, Except.map, World.ends, run_updateConsumers, World.files_after,
      World.after_after]
    cases (writeAll cfg w.files (updatesOf cfg block consumers)).result with
    | error failure => rfl
    | ok done =>
      simp only
      split
      · rfl
      · simp only [EStateM.run_bind, run_echo, World.files_after, World.after_after,
          List.append_assoc]
        rfl

/-- A run is performed as it is described. -/
theorem run_perform (cfg : Config) (w : World) :
    (perform cfg).run w = w.ends (run cfg w.files) := by
  rw [perform, EStateM.run_bind, run_loadBundle, run]
  cases hbundle : bundleText w.files cfg.source with
  | error failure =>
    simp only [openBundle, hbundle]
    rfl
  | ok bundle =>
    simp only [openBundle, hbundle]
    show (performOn cfg bundle).run (w.after w.files _) = _
    rw [run_performOn, World.ends_after]
    rfl

theorem observe_eq (verbose : Bool) (cfg : Config) (files : FileTree) :
    observe verbose cfg files =
      ⟨(run cfg files).files, (run cfg files).result,
        (run cfg files).messages.flatMap (Message.stdout verbose),
        (run cfg files).messages.flatMap Message.stderr⟩ := by
  rw [observe, run_perform, World.ends]
  cases (run cfg files).result with
  | ok v => simp [World.after]
  | error failure => simp [World.after]

/-! ## Progress and the summary -/

/-- The progress among messages. -/
def progressTexts (said : List Message) : List Text :=
  said.filterMap fun m =>
    match m with
    | .progress text => some text
    | _ => none

theorem progressTexts_append (said said' : List Message) :
    progressTexts (said ++ said') = progressTexts said ++ progressTexts said' :=
  List.filterMap_append

/-- The summary as it stands on the standard output. -/
def summaryText (methods : List Method) : Text :=
  "Found " ++ Text.ofNat methods.length ++ " methods:\n" ++ methods.flatMap summaryLine

/-- The summary of a run, which has one if the bundle can be read. -/
def reportOf (cfg : Config) (files : FileTree) : Text :=
  match bundleText files cfg.source with
  | .ok bundle => summaryText (Method.ofBundle cfg.apiName bundle)
  | .error _ => []

/-- Messages among which there is no report. -/
def HasNoReport (said : List Message) : Prop := ∀ text, .report text ∉ said

theorem hasNoReport_nil : HasNoReport [] := fun _ => List.not_mem_nil

theorem hasNoReport_progress (text : Text) : HasNoReport [.progress text] := by
  simp [HasNoReport]

theorem HasNoReport.append {said said' : List Message} (h : HasNoReport said)
    (h' : HasNoReport said') : HasNoReport (said ++ said') := fun text hmem =>
  (List.mem_append.1 hmem).elim (h text) (h' text)

theorem HasNoReport.stdout_eq {said : List Message} (h : HasNoReport said) :
    said.flatMap (Message.stdout true) = (progressTexts said).flatten ∧
      said.flatMap (Message.stdout false) = [] := by
  induction said with
  | nil => exact ⟨rfl, rfl⟩
  | cons m said ih =>
    obtain ⟨hloud, hquiet⟩ := ih fun text hmem => h text (List.mem_cons_of_mem m hmem)
    rw [List.flatMap_cons, List.flatMap_cons, hloud, hquiet]
    cases m with
    | progress text => exact ⟨rfl, rfl⟩
    | report text => exact absurd List.mem_cons_self (h text)
    | diagnostic text => exact ⟨rfl, rfl⟩

theorem stdout_summary (verbose : Bool) (methods : List Method) :
    (summary methods).flatMap (Message.stdout verbose) = summaryText methods := by
  simp [summary, summaryText, Message.stdout, List.flatMap_map]

theorem progressTexts_summary (methods : List Method) : progressTexts (summary methods) = [] := by
  simp [progressTexts, summary]

theorem hasNoReport_emptyWarning (cfg : Config) (methods : List Method) :
    HasNoReport (emptyWarning cfg methods) := by
  intro text
  rw [emptyWarning]
  split <;> simp [Message.warning]

theorem hasNoReport_updatingMessages (cfg : Config) (u : Update) :
    HasNoReport (updatingMessages cfg u) := by
  intro text
  rw [updatingMessages]
  cases u.found <;> simp [Message.warning]

theorem hasNoReport_writeAll (cfg : Config) (files : FileTree) (us : List Update) :
    HasNoReport (writeAll cfg files us).messages := by
  induction us generalizing files with
  | nil => exact hasNoReport_nil
  | cons u us ih =>
    rw [writeAll]
    cases putText files u.destination u.text with
    | error failure => exact hasNoReport_updatingMessages cfg u
    | ok after =>
      refine (hasNoReport_updatingMessages cfg u).append fun text hmem => ?_
      exact ih after text ((List.mem_cons.1 hmem).resolve_left (by simp))

theorem exists_messages_runOn (cfg : Config) (files : FileTree) (bundle : Text) :
    ∃ rest, (runOn cfg files bundle).messages =
      bundleMessages cfg (Method.ofBundle cfg.apiName bundle) ++ rest ∧ HasNoReport rest := by
  rw [runOn]
  simp only
  split
  · exact ⟨[], (List.append_nil _).symm, hasNoReport_nil⟩
  · next us hus =>
    have hwritten := hasNoReport_writeAll cfg files us
    split
    · exact ⟨_, rfl, hwritten⟩
    · split
      · exact ⟨_, rfl, hwritten⟩
      · exact ⟨_, List.append_assoc .., hwritten.append (hasNoReport_progress _)⟩

/-- What a run says apart from its summary is progress or goes to the standard error output. -/
theorem exists_messages_run (cfg : Config) (files : FileTree) :
    ∃ first report rest, (run cfg files).messages = first ++ (report ++ rest) ∧
      HasNoReport first ∧ HasNoReport rest ∧ progressTexts report = [] ∧
      ∀ verbose, report.flatMap (Message.stdout verbose) = reportOf cfg files := by
  rw [run, reportOf]
  simp only [openBundle]
  cases bundleText files cfg.source with
  | error failure =>
    exact ⟨[.progress ("Reading API file '" ++ cfg.source.text ++ "'...\n")], [], [], rfl,
      hasNoReport_progress _, hasNoReport_nil, rfl, fun _ => rfl⟩
  | ok bundle =>
    obtain ⟨rest, hrest, hnone⟩ := exists_messages_runOn cfg files bundle
    have hbefore := (hasNoReport_emptyWarning cfg (Method.ofBundle cfg.apiName bundle)).append
      (hasNoReport_progress "Generating declarations...\n")
    refine ⟨[.progress ("Reading API file '" ++ cfg.source.text ++ "'...\n"),
      .progress "Extracting methods...\n"], summary (Method.ofBundle cfg.apiName bundle), _, ?_,
      (hasNoReport_progress _).append (hasNoReport_progress _), hbefore.append hnone,
      progressTexts_summary _, fun verbose => stdout_summary verbose _⟩
    simp only [hrest, bundleMessages, List.append_assoc, List.cons_append, List.nil_append]

/-- Whether progress is shown makes no difference to the files, the result and the standard error
output of a run, whatever stops it. If it is not shown, then all of the progress is missing from the
standard output, and what is left is the summary. The outputs themselves never stop a run. -/
theorem observe_quiet (cfg : Config) (files : FileTree) :
    let loud := observe true cfg files
    let quiet := observe false cfg files
    quiet.files = loud.files ∧ quiet.result = loud.result ∧ quiet.stderr = loud.stderr ∧
    ∃ before after : List Text, before ++ after = progressTexts (run cfg files).messages ∧
      loud.stdout = before.flatten ++ (reportOf cfg files ++ after.flatten) ∧
      quiet.stdout = reportOf cfg files := by
  intro loud quiet
  have hloud : loud = _ := observe_eq true cfg files
  have hquiet : quiet = _ := observe_eq false cfg files
  rw [hloud, hquiet]
  refine ⟨rfl, rfl, rfl, ?_⟩
  obtain ⟨first, report, rest, hsaid, hfirst, hrest, hnone, hreport⟩ :=
    exists_messages_run cfg files
  refine ⟨progressTexts first, progressTexts rest, ?_, ?_, ?_⟩
  · rw [hsaid, progressTexts_append, progressTexts_append, hnone, List.nil_append]
  · simp only [hsaid, List.flatMap_append, hfirst.stdout_eq.1, hrest.stdout_eq.1, hreport]
  · simp only [hsaid, List.flatMap_append, hfirst.stdout_eq.2, hrest.stdout_eq.2, hreport,
      List.nil_append, List.append_nil]

end Sync

end DeclSync
