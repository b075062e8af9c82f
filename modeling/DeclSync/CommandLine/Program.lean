import DeclSync.CommandLine.Parser

/-!
# The program

The program reads its command line and makes a run. It explains a missing bundle, reports a file
that could not be used, and ends with an exit code; what it cannot report stops it.

## Main definitions

- `usage`, `help` — what the program says of itself
- `Program.run` — what the program does on a command line
-/

namespace DeclSync

/-- The name of the program in its own messages. -/
def programName : Text := "apisync"

/-- How the program is used. -/
def usage : Text :=
  "usage: " ++ programName ++ " [-h] [--source SOURCE] [--target TARGET] [--output OUTPUT]\n" ++
    "               [--anchor ANCHOR] [--array-name ARRAY_NAME]\n" ++
    "               [--api-name API_NAME] [--strict] [--verbose]\n"

/-- What each option is for. -/
def optionHelp : List String :=
  ["  -h, --help            show this help message and exit",
    "  --source SOURCE, -s SOURCE",
    "                        Path to the JavaScript API bundle",
    "  --target TARGET, -t TARGET",
    "                        Consumer file to update (repeatable)",
    "  --output OUTPUT, -o OUTPUT",
    "                        Optional output filename instead of updating the",
    "                        target in place",
    "  --anchor ANCHOR, -a ANCHOR",
    "                        Comment line that opens the generated block",
    "  --array-name ARRAY_NAME",
    "                        Name of the generated constant",
    "  --api-name API_NAME   How generated descriptions refer to the API",
    "  --strict              Exit non-zero if no methods are found or the anchor is",
    "                        missing",
    "  --verbose, -v         Output progress information to stdout"]

/-- The help text. -/
def help : Text :=
  usage ++ "\nAPISYNC: regenerate editor method declarations from a JavaScript API bundle\n" ++
    "\noptions:\n" ++ optionHelp.flatMap fun line => Text.ofString (line ++ "\n")

namespace Exit

/-- The exit code of a command line that gives no options. -/
def code : Exit → Nat
  | help => 0
  | usage _ => 2

/-- What is said of a command line that gives no options. -/
def message : Exit → Message
  | help => .report DeclSync.help
  | usage error =>
    .diagnostic (DeclSync.usage ++ programName ++ ": error: " ++ error.message ++ "\n")

end Exit

namespace Failure

/-- Whether the program reports a failure and ends, rather than being stopped by it. -/
def isReported : Failure → Bool
  | sourceMissing _ => true
  | file error => error.fault ≠ .nulInName
  | unwritable _ => false

/-- What the program says of a failure. -/
def report : Failure → List Message
  | sourceMissing path =>
    [.failure [.text ("Error: " ++ (sourceMissing path).message)],
      .failure [.text "Hint: pass --source with the path to your sypnex-api.js file"]]
  | failure => [.failure [.text ("Error: " ++ failure.message)]]

end Failure

/-- How the program ends: on its command line, with the exit code of a run, or stopped by a failure.
-/
inductive Ending where
  | exits (code : Nat)
  | returns (code : Nat)
  | stops (failure : Failure)

/-- What the program leaves behind; whether progress is shown is unchanged if the command line gives
no options. -/
structure ProgramOutcome where
  files : FileTree
  verbose : Bool
  messages : List Message
  ending : Ending

namespace Program

/-- What the program does with its options. -/
def runWith (o : Options) (files : FileTree) : ProgramOutcome :=
  let outcome := Sync.run o.config files
  match outcome.result with
  | .ok verdict => ⟨outcome.files, o.verbose, outcome.messages, .returns verdict.exitCode⟩
  | .error failure =>
    if failure.isReported then
      ⟨outcome.files, o.verbose, outcome.messages ++ failure.report, .returns 1⟩
    else ⟨outcome.files, o.verbose, outcome.messages, .stops failure⟩

/-- What the program does on a command line, which it reads by the given rules. -/
def run (arguments : List Text) (verbose : Bool) (files : FileTree)
    (rules : JoinRules := .earlier) : ProgramOutcome :=
  match Options.parse arguments rules with
  | .error exit => ⟨files, verbose, [exit.message], .exits exit.code⟩
  | .ok o => runWith o files

end Program

end DeclSync
