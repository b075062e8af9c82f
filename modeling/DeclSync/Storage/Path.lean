import DeclSync.Text.CodePoint

/-!
# Paths

A path is read in a form in which equal spellings come together: empty parts and parts of one dot
are dropped, while two dots are kept. One slash in front makes a path absolute, exactly two make a
root of their own, and more count as one.

## Main definitions

- `Path` — a root and the names that lead from it
- `Path.ofText`, `Path.text` — reading and writing a path
-/

namespace DeclSync

/-- A path: its root, which is empty for a path from the working directory, and the names that lead
from it. -/
structure Path where
  root : Text
  names : List Text
  deriving DecidableEq

namespace Path

/-- The root of a path as it is written. -/
def rootOf (t : Text) : Text :=
  match (t.takeWhile (· = .scalar '/')).length with
  | 0 => ""
  | 2 => "//"
  | _ => "/"

/-- Reads a path. -/
def ofText (t : Text) : Path where
  root := rootOf t
  names := (t.splitOn (.scalar '/')).filter fun name => !name.isEmpty && name ≠ "."

/-- A path as text; the working directory is a dot. -/
def text (p : Path) : Text :=
  if p.root.isEmpty && p.names.isEmpty then "." else p.root ++ List.intercalate "/" p.names

end Path

end DeclSync
