import DeclSync.Console
import DeclSync.Declaration
import DeclSync.Method.Extraction
import DeclSync.Region
import DeclSync.Storage.FileTree

/-!
# Synchronising consumers with a bundle

A run reads the bundle, reads all consumer files, and then writes them one after another with the
block of the bundle's methods in the place of their first region. So nothing is written unless
everything could be read. A run is suspicious if the bundle has no methods or a consumer has no
region; only a strict run is judged by that.

## Main definitions

- `Config` — what a run needs to know
- `Failure` — what stops a run
- `Outcome` — what a run leaves behind
- `Sync.run` — a run
-/

namespace DeclSync

/-- Where the bundle is unless the run is told otherwise. -/
def standardSource : Text := "./sypnex-api.js"

/-- Where the consumer is unless the run is told otherwise. -/
def standardTarget : Text := "./src/extension.ts"

/-- What a run needs to know: the bundle, the consumers, the file to write instead of each consumer
if there is one, the anchor of the region, the name of the array, how descriptions speak of the
interface, and whether the run is strict. -/
structure Config where
  source : Path := .ofText standardSource
  targets : List Path := [.ofText standardTarget]
  output : Option Path := none
  anchor : Text := Declaration.standardAnchor
  arrayName : Text := Declaration.standardArrayName
  apiName : Text := standardApiName
  strict : Bool := false

/-- What stops a run. -/
inductive Failure where
  | sourceMissing (path : Path)
  | file (error : FileError)
  | unwritable (run : Unwritable)

namespace Failure

/-- What is said of surrogates that keep a text from being written. -/
def unwritableMessage (run : Unwritable) : Text :=
  let place : Text :=
    if run.first = run.last then
      "character '\\u" ++ hexDigits 4 run.codePoint.toNat ++ "' in position " ++
        Text.ofNat run.first
    else "characters in position " ++ Text.ofNat run.first ++ "-" ++ Text.ofNat run.last
  "'utf-8' codec can't encode " ++ place ++ ": surrogates not allowed"

/-- What is said of a failure. -/
def message : Failure → Text
  | sourceMissing path => "API file not found: " ++ path.text
  | file error => error.message
  | unwritable run => unwritableMessage run

/-- What stops a run at a path that could not be used: the path itself, if it cannot be written. -/
def ofFile (error : FileError) : Failure :=
  match error.path.text.unwritable? with
  | some run => unwritable run
  | none => file error

end Failure

/-- How a run that was not stopped went. -/
inductive Verdict where
  | passed
  | suspicious
  deriving DecidableEq

/-- The exit code of a strict run that was suspicious. -/
def strictExitCode : Nat := 2

/-- The exit code of a run that was not stopped. -/
def Verdict.exitCode : Verdict → Nat
  | passed => 0
  | suspicious => strictExitCode

/-- What a run leaves behind: the files, what it said, and its result. -/
structure Outcome (α : Type) where
  files : FileTree
  messages : List Message
  result : Except Failure α

namespace Sync

/-- Reads the text of a file. -/
def fileText (files : FileTree) (path : Path) : Except FileError Text :=
  (files.read path).map Text.ofBytes

/-- Writes a text to a file. A text that cannot be written leaves the file as it was. -/
def putText (files : FileTree) (path : Path) (text : Text) : Except Failure FileTree :=
  match text.toBytes with
  | .error run => .error (.unwritable run)
  | .ok contents => (files.write path contents).mapError .ofFile

/-- Reads the bundle. A path that leads to no file, for whatever reason, is a missing bundle. -/
def bundleText (files : FileTree) (path : Path) : Except Failure Text :=
  match fileText files path with
  | .ok text => .ok text
  | .error error => .error (if error.fault = .nameTooLong then .file error else .sourceMissing path)

/-- Says that the bundle is read, and reads it. -/
def openBundle (files : FileTree) (path : Path) : Outcome Text :=
  ⟨files, [.progress ("Reading API file '" ++ path.text ++ "'...\n")], bundleText files path⟩

/-- A line of the summary. -/
def summaryLine (m : Method) : Text :=
  "   - " ++ (if m.isAsync then "async " else "" : String) ++ m.name ++ "(" ++ m.params ++ ")\n"

/-- The summary of the methods of a bundle. -/
def summary (methods : List Method) : List Message :=
  .report ("Found " ++ Text.ofNat methods.length ++ " methods:\n") ::
    methods.map fun m => .report (summaryLine m)

/-- The warning that the bundle has no methods. -/
def emptyWarning (cfg : Config) (methods : List Method) : List Message :=
  if methods.isEmpty then
    [.warning
      [.text ("no methods found in " ++ cfg.source.text ++ "; the generated block will be empty")]]
  else []

/-- What is said between reading the bundle and reading the consumers. -/
def bundleMessages (cfg : Config) (methods : List Method) : List Message :=
  .progress "Extracting methods...\n" :: summary methods ++ emptyWarning cfg methods ++
    [.progress "Generating declarations...\n"]

/-- A consumer, patched but not yet written. -/
structure Update where
  target : Path
  destination : Path
  text : Text
  found : Bool

/-- Patches the text of a consumer. -/
def updateOf (cfg : Config) (block : Text) (target : Path) (text : Text) : Update :=
  let patched :=
    Region.replace? cfg.anchor Region.standardEndMarker block (LineEnding.prevalent text).text text
  { target, destination := cfg.output.getD target, text := patched.getD text,
    found := patched.isSome }

/-- Reads and patches all consumers. -/
def updates (cfg : Config) (block : Text) (files : FileTree) : Except FileError (List Update) :=
  cfg.targets.mapM fun target => (fileText files target).map (updateOf cfg block target)

/-- What is said before a consumer is written. -/
def updatingMessages (cfg : Config) (u : Update) : List Message :=
  .progress ("Updating '" ++ u.target.text ++ "'...\n") ::
    if u.found then []
    else
      [.warning
        [.text ("anchor '" ++ cfg.anchor ++ "' not found in " ++ u.target.text ++
          "; file left unchanged")]]

/-- Writes the consumers one after another, and stops at the first that cannot be written. -/
def writeAll (cfg : Config) (files : FileTree) : List Update → Outcome Unit
  | [] => ⟨files, [], .ok ()⟩
  | u :: us =>
    match putText files u.destination u.text with
    | .error failure => ⟨files, updatingMessages cfg u, .error failure⟩
    | .ok files =>
      let rest := writeAll cfg files us
      let written := Message.progress ("Updated source written to " ++ u.destination.text ++ "\n")
      { rest with messages := updatingMessages cfg u ++ written :: rest.messages }

/-- The part of a run that follows the reading of the bundle. -/
def runOn (cfg : Config) (files : FileTree) (bundle : Text) : Outcome Verdict :=
  let methods := Method.ofBundle cfg.apiName bundle
  let said := bundleMessages cfg methods
  match updates cfg (Declaration.block cfg.anchor cfg.arrayName methods) files with
  | .error error => ⟨files, said, .error (.ofFile error)⟩
  | .ok us =>
    let written := writeAll cfg files us
    let said := said ++ written.messages
    match written.result with
    | .error failure => ⟨written.files, said, .error failure⟩
    | .ok () =>
      if cfg.strict && (methods.isEmpty || us.any fun u => !u.found) then
        ⟨written.files, said, .ok .suspicious⟩
      else ⟨written.files, said ++ [.progress "Extension updated successfully!\n"], .ok .passed⟩

/-- A run. -/
def run (cfg : Config) (files : FileTree) : Outcome Verdict :=
  let source := openBundle files cfg.source
  match source.result with
  | .error failure => ⟨files, source.messages, .error failure⟩
  | .ok bundle =>
    let rest := runOn cfg files bundle
    { rest with messages := source.messages ++ rest.messages }

end Sync

end DeclSync
