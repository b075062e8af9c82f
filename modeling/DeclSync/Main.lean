import DeclSync.CommandLine.Program

/-!
# The command

Loads what the paths of a command line lead to into a file tree, lets the program work on it, shows
what it said, and writes the files that it changed.
-/

namespace DeclSync

namespace Command

/-- The paths that a run on a command line can name. -/
def namedPaths (arguments : List Text) : List Path :=
  match Options.parse arguments with
  | .error _ => []
  | .ok o =>
    let cfg := o.config
    cfg.source :: cfg.output.toList ++ cfg.targets

/-- A path as the operating system takes it, unless it holds a surrogate. -/
def nativePath? (p : Path) : Option String := p.text.toString?

/-- Adds what a path leads to. -/
def load (tree : FileTree) (p : Path) : IO FileTree := do
  let some name := nativePath? p | return tree
  let l := Location.ofPath p
  try
    let contents ← IO.FS.readBinFile name
    return tree.set l (.file contents.toList)
  catch error =>
    match error with
    | .noFileOrDirectory .. => return tree
    | _ => return tree.set l .directory

/-- The paths on the way to a path, and the path itself. -/
def waypoints (p : Path) : List Path :=
  (List.range p.names.length).map fun n => { p with names := p.names.take (n + 1) }

/-- The part of the file system that paths lead through. -/
def snapshot (paths : List Path) : IO FileTree := (paths.flatMap waypoints).foldlM load {}

/-- The bytes of a text for an output; surrogates that cannot be written are left out. -/
def outputBytes (t : Text) : ByteArray := (t.flatMap CodePoint.bytes).toByteArray

/-- Writes the files that differ from those of an earlier tree. -/
def store (before after : FileTree) (paths : List Path) : IO Unit := do
  for p in paths do
    let l := Location.ofPath p
    if before.contents? l ≠ after.contents? l then
      if let (some name, some contents) := (nativePath? p, after.contents? l) then
        IO.FS.writeBinFile name contents.toByteArray

end Command

end DeclSync

open DeclSync in
/-- The command. -/
def main (arguments : List String) : IO UInt32 := do
  let arguments := arguments.map Text.ofString
  let paths := Command.namedPaths arguments
  let before ← Command.snapshot paths
  let outcome := Program.run arguments false before
  Command.store before outcome.files paths
  let stdout ← IO.getStdout
  let stderr ← IO.getStderr
  stdout.write (Command.outputBytes (outcome.messages.flatMap (Message.stdout outcome.verbose)))
  stderr.write (Command.outputBytes (outcome.messages.flatMap Message.stderr))
  match outcome.ending with
  | .exits code | .returns code => return code.toUInt32
  | .stops failure =>
    stderr.write (Command.outputBytes (failure.message ++ "\n"))
    return 1
