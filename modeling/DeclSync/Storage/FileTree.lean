import DeclSync.Storage.Location
import DeclSync.Text.Quoted
import DeclSync.Text.Utf8

/-!
# File trees

The files and directories that a run can see, as a value. A path leads to a location step by step:
two dots step up, and every other name but the last has to be a directory. The working directory,
those above it and the root always exist.

The tree is idealised. There are no links, permissions or limits of space, so a file that can be
read can be written too. And every location is a place of its own: how the working directory is
named from the root, or from the directories above it, is not known, and so no path that comes down
by these names leads to what lies under the working directory.

## Main definitions

- `FileTree` — the files and directories
- `FileTree.read`, `FileTree.write` — the contents of a file
- `FileError` — why a path could not be read or written
-/

namespace DeclSync

/-- What a location holds. -/
inductive Entry where
  | file (contents : Bytes)
  | directory
  deriving DecidableEq

/-- Why a path could not be used. Nothing else goes wrong: there are no faults of permission or of
the disk. -/
inductive FileFault where
  | notFound
  | notDirectory
  | isDirectory
  | nameTooLong
  | nulInName
  deriving DecidableEq

/-- A path that could not be used, and why. -/
structure FileError where
  fault : FileFault
  path : Path
  deriving DecidableEq

namespace FileFault

/-- The number and the words of a fault; a NUL is found before a file is asked for, and has none. -/
def description? : FileFault → Option (Nat × Text)
  | notFound => some (2, "No such file or directory")
  | notDirectory => some (20, "Not a directory")
  | isDirectory => some (21, "Is a directory")
  | nameTooLong => some (36, "File name too long")
  | nulInName => none

end FileFault

/-- What is said of a path that could not be used. -/
def FileError.message (e : FileError) : Text :=
  match e.fault.description? with
  | some (number, words) =>
    "[Errno " ++ Text.ofNat number ++ "] " ++ words ++ ": " ++ e.path.text.quoted
  | none => "embedded null byte"

/-- The files and directories that a run can see, without links. What no entry tells of is not
there, apart from the working directory, those above it and the root. -/
structure FileTree where
  entries : List (Location × Entry) := []

namespace FileTree

/-- What a location holds. -/
def get? (tree : FileTree) (l : Location) : Option Entry :=
  if l.isAncestral then some .directory else tree.entries.lookup l

/-- The tree without what a location holds. -/
def erase (tree : FileTree) (l : Location) : FileTree := ⟨tree.entries.filter fun e => e.1 ≠ l⟩

/-- The tree with an entry at a location. -/
def set (tree : FileTree) (l : Location) (entry : Entry) : FileTree :=
  ⟨(l, entry) :: (tree.erase l).entries⟩

theorem lookup_filter_ne {l other : Location} (h : other ≠ l) (entries : List (Location × Entry)) :
    (entries.filter fun e => e.1 ≠ l).lookup other = entries.lookup other := by
  induction entries with
  | nil => rfl
  | cons e entries ih =>
    obtain ⟨k, entry⟩ := e
    by_cases hk : k = l
    · have hb : (other == l) = false := by simpa using h
      subst hk
      simpa [List.lookup_cons, hb] using ih
    · simp only [ne_eq, hk, not_false_eq_true, decide_true, List.filter_cons_of_pos,
        List.lookup_cons]
      rw [ih]

/-- A location holds what was put there last. -/
theorem get?_set (tree : FileTree) {l : Location} (h : l.isAncestral = false) (entry : Entry)
    (other : Location) :
    (tree.set l entry).get? other = if other = l then some entry else tree.get? other := by
  by_cases ho : other = l
  · simp [get?, set, ho, h]
  · have hb : (other == l) = false := by simpa using ho
    simp only [get?, set, erase, List.lookup_cons, hb, ho, if_false]
    rw [lookup_filter_ne ho]

/-- The most bytes that a name may have. -/
def maxNameBytes : Nat := 255

/-- The most bytes that a path may have. -/
def maxPathBytes : Nat := 4095

/-- The number of bytes that a text is written as. -/
def byteCount (t : Text) : Nat := (t.flatMap CodePoint.bytes).length

/-- Where the names lead from a directory. -/
def locateFrom (tree : FileTree) (here : Location) : List Text → Except FileFault Location
  | [] => .ok here
  | name :: names =>
    if name = ".." then locateFrom tree here.parent names
    else if byteCount name > maxNameBytes then .error .nameTooLong
    else if names.isEmpty then .ok (name :: here)
    else
      match tree.get? (name :: here) with
      | some .directory => locateFrom tree (name :: here) names
      | some (.file _) => .error .notDirectory
      | none => .error .notFound

/-- Where a path leads; nowhere if it cannot be written. Two paths that lead to one place have the
same location, unless one of them comes down to the working directory by its name. -/
def locate (tree : FileTree) (p : Path) : Except FileFault Location :=
  if p.text.unwritable?.isSome then .error .notFound
  else if p.names.any fun name => name.contains (.scalar '\x00') then .error .nulInName
  else if byteCount p.text > maxPathBytes then .error .nameTooLong
  else tree.locateFrom (.startOf p) p.names

/-- The contents of the file that a path leads to. -/
def read (tree : FileTree) (p : Path) : Except FileError Bytes :=
  match tree.locate p with
  | .error fault => .error ⟨fault, p⟩
  | .ok l =>
    match tree.get? l with
    | some (.file contents) => .ok contents
    | some .directory => .error ⟨.isDirectory, p⟩
    | none => .error ⟨.notFound, p⟩

/-- The tree after writing the file that a path leads to. A file that is there can be written. -/
def write (tree : FileTree) (p : Path) (contents : Bytes) : Except FileError FileTree :=
  match tree.locate p with
  | .error fault => .error ⟨fault, p⟩
  | .ok l =>
    match tree.get? l with
    | some .directory => .error ⟨.isDirectory, p⟩
    | _ => .ok (tree.set l (.file contents))

/-- The tree with a directory at a location, and at those above it. -/
def makeDirectory (tree : FileTree) : Location → FileTree
  | [] => tree
  | name :: outer =>
    let tree := tree.makeDirectory outer
    if (tree.get? (name :: outer)).isSome then tree else tree.set (name :: outer) .directory

/-- The tree with a file at a location, and the directories above it. -/
def place (tree : FileTree) (l : Location) (contents : Bytes) : FileTree :=
  (tree.makeDirectory l.tail).set l (.file contents)

/-- The contents of the file at a location. -/
def contents? (tree : FileTree) (l : Location) : Option Bytes :=
  match tree.get? l with
  | some (.file contents) => some contents
  | _ => none

/-- The locations whose file differs in a later tree, with the contents there. -/
def changes (before after : FileTree) : List (Location × Option Bytes) :=
  let locations := ((before.entries ++ after.entries).map fun (l, _) => l).eraseDups
  (locations.filter fun l => before.contents? l ≠ after.contents? l).map fun l =>
    (l, after.contents? l)

end FileTree

end DeclSync
