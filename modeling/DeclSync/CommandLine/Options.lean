import DeclSync.Sync

/-!
# Options

The options of the command line, as they are spelled, and the values that they set.

## Main definitions

- `Options` — the values of a command line
- `Switch` — an option: how it is spelled, and what it does
- `Options.config` — what the options tell a run
-/

namespace DeclSync

/-- The values of a command line. No target stands for the default one, and an empty output for
none. -/
structure Options where
  source : Text := standardSource
  targets : List Text := []
  output : Text := []
  anchor : Text := Declaration.standardAnchor
  arrayName : Text := Declaration.standardArrayName
  apiName : Text := standardApiName
  strict : Bool := false
  verbose : Bool := false
  deriving DecidableEq

/-- An option that takes a value. -/
inductive Setting where
  | source
  | target
  | output
  | anchor
  | arrayName
  | apiName
  deriving DecidableEq

/-- An option that takes no value. -/
inductive Flag where
  | help
  | strict
  | verbose
  deriving DecidableEq

/-- What an option is for. -/
inductive Purpose where
  | setting (s : Setting)
  | flag (f : Flag)
  deriving DecidableEq

/-- An option: how it is spelled, and what it is for. -/
structure Switch where
  spellings : List String
  purpose : Purpose
  deriving DecidableEq

/-- The options, in the order in which they are explained. -/
def switches : List Switch :=
  [⟨["-h", "--help"], .flag .help⟩,
    ⟨["--source", "-s"], .setting .source⟩,
    ⟨["--target", "-t"], .setting .target⟩,
    ⟨["--output", "-o"], .setting .output⟩,
    ⟨["--anchor", "-a"], .setting .anchor⟩,
    ⟨["--array-name"], .setting .arrayName⟩,
    ⟨["--api-name"], .setting .apiName⟩,
    ⟨["--strict"], .flag .strict⟩,
    ⟨["--verbose", "-v"], .flag .verbose⟩]

namespace Switch

/-- The option with a spelling. -/
def ofSpelling? (t : Text) : Option Switch :=
  switches.find? fun s => s.spellings.any fun spelling => t = spelling

/-- The name of an option in messages. -/
def name (s : Switch) : Text := Text.ofString ("/".intercalate s.spellings)

end Switch

namespace Options

/-- The options with a value set; a target is added to those before it. -/
def set (o : Options) (value : Text) : Setting → Options
  | .source => { o with source := value }
  | .target => { o with targets := o.targets ++ [value] }
  | .output => { o with output := value }
  | .anchor => { o with anchor := value }
  | .arrayName => { o with arrayName := value }
  | .apiName => { o with apiName := value }

/-- What the options tell a run. -/
def config (o : Options) : Config where
  source := .ofText o.source
  targets := (if o.targets.isEmpty then [standardTarget] else o.targets).map .ofText
  output := if o.output.isEmpty then none else some (.ofText o.output)
  anchor := o.anchor
  arrayName := o.arrayName
  apiName := o.apiName
  strict := o.strict

end Options

end DeclSync
