import DeclSync.CommandLine.Options
import DeclSync.Script.Identifier
import DeclSync.Text.DecimalDigit

/-!
# Reading a command line

First every argument is sorted by its form alone; what follows `--` is plain. A long option may be
shortened as long as it stays unique. A value is attached to its option, after `=` or right after a
short option, or is the next argument if that is plain. Short options without a value can be joined.
Then the options take effect in order, and what is left over is refused at the end.

The rules for joined options were revised within the 3.11 releases of what the program is run with.
The program runs with older and with newer ones, and both versions of the rules are modelled. They
differ where `=` stands behind a joined option or one that takes no value, and where a joined option
does not exist. What is proved of command lines is proved under both versions.

## Main definitions

- `UsageError` — what is wrong with a command line
- `JoinRules` — the two versions of the rules for joined options
- `Argument.ofText` — sorts an argument
- `SwitchUse.parts` — takes the options of an argument apart
- `Options.parse` — reads a command line
-/

namespace DeclSync

/-- What is wrong with a command line. -/
inductive UsageError where
  | ambiguous (argument : Text) (candidates : List Text)
  | missingValue (switch : Switch)
  | unwantedValue (switch : Switch) (value : Text)
  | unrecognised (arguments : List Text)
  | outputOfSeveralTargets
  deriving DecidableEq

/-- What is said of a faulty command line. -/
def UsageError.message : UsageError → Text
  | ambiguous argument candidates =>
    "ambiguous option: " ++ argument ++ " could match " ++ List.intercalate ", " candidates
  | missingValue switch => "argument " ++ switch.name ++ ": expected one argument"
  | unwantedValue switch value =>
    "argument " ++ switch.name ++ ": ignored explicit argument " ++ value.quoted
  | unrecognised arguments => "unrecognized arguments: " ++ List.intercalate " " arguments
  | outputOfSeveralTargets => "--output can only be used with a single --target"

/-- Why a command line gives no options: it is faulty, or asks for help. -/
inductive Exit where
  | help
  | usage (error : UsageError)
  deriving DecidableEq

/-- What stands behind an option in its argument: a value after `=`, or the text right after a short
option, which is its value or more options. -/
inductive Attachment where
  | nothing
  | value (value : Text)
  | joined (text : Text)
  deriving DecidableEq

/-- An option as it stands on a command line: whether its spelling is a short one, and what is
attached to it. -/
structure SwitchUse where
  switch : Switch
  isShort : Bool
  attached : Attachment
  deriving DecidableEq

/-- An argument by its form. -/
inductive Argument where
  | plain (text : Text)
  | separator
  | switch (use : SwitchUse)
  | unknown (text : Text)
  deriving DecidableEq

namespace Argument

/-- A spelling and the option that it stands for, used with something attached. -/
def useOf (spelling : Text) (switch : Switch) (attached : Attachment) : SwitchUse :=
  ⟨switch, !spelling.beginsWith "--", attached⟩

/-- All spellings, with their options. -/
def spellings : List (Text × Switch) :=
  switches.flatMap fun s => s.spellings.map fun spelling => (Text.ofString spelling, s)

/-- The options that an argument can stand for, if it is no spelling itself: those that a long one
shortens, or the short one that its first two code points spell. -/
def candidates (t : Text) : List (Text × SwitchUse) :=
  if t.beginsWith "--" then
    let (start, attached) :=
      match Text.cut? "=" t with
      | some (start, value) => (start, Attachment.value value)
      | none => (t, .nothing)
    (spellings.filter fun (spelling, _) => spelling.beginsWith start).map fun (spelling, s) =>
      (spelling, useOf spelling s attached)
  else
    (spellings.filter fun (spelling, _) => spelling = t.take 2).map fun (spelling, s) =>
      (spelling, useOf spelling s (.joined (t.drop 2)))

/-- Whether the text is a number with a minus sign, which one LF may follow. -/
def isNegativeNumber (t : Text) : Bool :=
  match Text.after? "-" t.dropFinalLf with
  | none => false
  | some t =>
    match Text.after? "." (t.dropWhile CodePoint.isDecimalDigit) with
    | none => !t.isEmpty && t.all CodePoint.isDecimalDigit
    | some fraction => !fraction.isEmpty && fraction.all CodePoint.isDecimalDigit

/-- The use of an option that is spelled in full, with a value after `=`. -/
def assigned? (t : Text) : Option SwitchUse := do
  let (spelling, value) ← Text.cut? "=" t
  let switch ← Switch.ofSpelling? spelling
  some (useOf spelling switch (.value value))

/-- Sorts an argument that stands before any `--`. -/
def ofText (t : Text) : Except UsageError Argument :=
  if !t.beginsWith "-" then .ok (plain t)
  else
    match Switch.ofSpelling? t with
    | some s => .ok (switch (useOf t s .nothing))
    | none =>
      if t.length = 1 then .ok (plain t)
      else
        match assigned? t with
        | some use => .ok (switch use)
        | none =>
          match candidates t with
          | [] =>
            .ok (if isNegativeNumber t || t.contains (.scalar ' ') then plain t else unknown t)
          | [(_, use)] => .ok (switch use)
          | several => .error (.ambiguous t (several.map fun (spelling, _) => spelling))

/-- Sorts the arguments of a command line. -/
def ofTexts : List Text → Except UsageError (List Argument)
  | [] => .ok []
  | t :: ts =>
    if t = "--" then .ok (separator :: ts.map plain)
    else do return (← ofText t) :: (← ofTexts ts)

/-- The text of an argument, if it can be the value of the option before it. -/
def value? : Argument → Option Text
  | plain t => some t
  | _ => none

end Argument

/-- What an option does. -/
inductive Effect where
  | set (s : Setting) (value : Text)
  | raise (f : Flag)
  deriving DecidableEq

/-- The two versions of the rules for joined options. -/
inductive JoinRules where
  /-- The rules of older releases. An `=` right behind the first option is dropped, and behind a
  joined one it is a code point like any other. Joined options all have to exist. -/
  | earlier
  /-- The rules of newer releases, from 3.11.10 at the latest. An `=` sets off a value wherever it
  stands. If a joined option does not exist, the text is left over from there on. -/
  | later
  deriving DecidableEq

/-- What an argument with options comes to: their effects in order, whether the last one takes the
next argument as its value, and the text that is left over, as an argument of its own. -/
structure SwitchParts where
  effects : List Effect
  takesNext : Bool := false
  leftOver : Option Text := none

namespace SwitchUse

/-- What an option comes to with nothing attached to it, when `next` can be its value. -/
def alone (s : Switch) (next : Option Text) : Except UsageError SwitchParts :=
  match s.purpose, next with
  | .flag f, _ => .ok { effects := [.raise f] }
  | .setting setting, some value => .ok { effects := [.set setting value], takesNext := true }
  | .setting _, none => .error (.missingValue s)

/-- What an option comes to with a value after `=`. -/
def assigned (s : Switch) (value : Text) : Except UsageError SwitchParts :=
  match s.purpose with
  | .setting setting => .ok { effects := [.set setting value] }
  | .flag _ => .error (.unwantedValue s value)

/-- What a short option comes to with the text joined to it: that is its value if it takes one, and
begins with another short option if it does not. -/
def joined (rules : JoinRules) (s : Switch) (next : Option Text) :
    Text → Except UsageError SwitchParts
  | [] => alone s next
  | c :: more =>
    if rules = .later ∧ c = .scalar '=' then assigned s more
    else
      match s.purpose with
      | .setting setting => .ok { effects := [.set setting (c :: more)] }
      | .flag f =>
        match Switch.ofSpelling? ['-', c] with
        | some other => do
          let parts ← joined rules other next more
          return { parts with effects := .raise f :: parts.effects }
        | none =>
          -- what begins with a dash can only have been meant as a value
          if rules = .earlier ∨ c = .scalar '-' then .error (.unwantedValue s (c :: more))
          else .ok { effects := [.raise f], leftOver := some ('-' :: c :: more) }

/-- What the options of an argument come to, when `next` can be the value of the last one. -/
def parts (rules : JoinRules) (use : SwitchUse) (next : Option Text) :
    Except UsageError SwitchParts :=
  match use.attached with
  | .nothing => alone use.switch next
  | .joined text => joined rules use.switch next text
  | .value value =>
    if rules = .earlier ∧ use.isShort ∧ value ≠ [] then joined rules use.switch next value
    else assigned use.switch value

end SwitchUse

namespace Options

/-- The options after an effect. -/
def apply (o : Options) : Effect → Except Exit Options
  | .set s value => .ok (o.set value s)
  | .raise .help => .error .help
  | .raise .strict => .ok { o with strict := true }
  | .raise .verbose => .ok { o with verbose := true }

/-- Lets the arguments take effect one after another, and collects what is left over of them. The
first argument is passed over if it was taken as the value of the option before it. -/
def applyAll (rules : JoinRules) (o : Options) (refused : List Text) (taken : Bool) :
    List Argument → Except Exit (Options × List Text)
  | [] => .ok (o, refused)
  | argument :: rest =>
    match taken, argument with
    | true, _ => applyAll rules o refused false rest
    | false, .plain t => applyAll rules o (refused ++ [t]) false rest
    | false, .unknown t => applyAll rules o (refused ++ [t]) false rest
    | false, .separator => applyAll rules o (refused ++ [("--" : Text)]) false rest
    | false, .switch use => do
      let parts ← (use.parts rules (rest.head?.bind Argument.value?)).mapError .usage
      applyAll rules (← parts.effects.foldlM apply o) (refused ++ parts.leftOver.toList)
        parts.takesNext rest

/-- Reads a command line, by the earlier rules for joined options unless the later ones are asked
for. -/
def parse (arguments : List Text) (rules : JoinRules := .earlier) : Except Exit Options := do
  let sorted ← (Argument.ofTexts arguments).mapError .usage
  let (o, refused) ← applyAll rules {} [] false sorted
  if !refused.isEmpty then .error (.usage (.unrecognised refused))
  else if !o.output.isEmpty && o.targets.length > 1 then .error (.usage .outputOfSeveralTargets)
  else .ok o

end Options

end DeclSync
