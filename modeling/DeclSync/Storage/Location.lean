import DeclSync.Storage.Path

/-!
# Locations

A location is a place in a file tree, named from the working directory or from the root. Different
paths can lead to one location.

## Main definitions

- `Location` — a place in a file tree
- `Location.parent` — the location above it
- `Location.ofPath` — where a path leads if nothing is in its way
-/

namespace DeclSync

/-- A place in a file tree: the names that lead to it, the innermost first. It lies under the
working directory, unless the outermost names are double dots, or the outermost name is a slash. -/
abbrev Location := List Text

namespace Location

/-- The root of all absolute paths. -/
def root : Location := ["/"]

/-- The location above another one. -/
def parent : Location → Location
  | [] => [".."]
  | name :: outer =>
    if name = ".." then ".." :: ".." :: outer else if name = "/" then root else outer

/-- Whether a location is the working directory, a directory above it, or the root. -/
def isAncestral (l : Location) : Bool := (l.all fun (name : Text) => name = "..") || l = root

/-- The location that a path starts from. The root is not taken to be above the working directory:
what a path from the one leads to is never reached from the other. -/
def startOf (p : Path) : Location := if p.root.isEmpty then [] else root

/-- The location of a path, if every name on the way is a directory. -/
def ofPath (p : Path) : Location :=
  p.names.foldl (fun here (name : Text) => if name = ".." then parent here else name :: here)
    (startOf p)

/-- A location as text. -/
def text (l : Location) : Text := List.intercalate "/" l.reverse

end Location

end DeclSync
