import DeclSync.Method.Bare
import DeclSync.Method.Documented

/-!
# The methods of a bundle

The documented methods of a bundle come before the bare ones. Of all methods of a public name the
first is kept, so that a documented method wins over a bare one of its name.

## Main definitions

- `Method.combine` — two lists of methods as one, with a method a name
- `Method.ofBundle` — the methods of a bundle
-/

namespace DeclSync

namespace Method

/-- Keeps the first method of every name. -/
def firstOfEachName : List Method → List Method
  | [] => []
  | m :: methods => m :: (firstOfEachName methods).filter fun other => other.name ≠ m.name

/-- The methods of public names of both lists, one a name. -/
def combine (documented bare : List Method) : List Method :=
  firstOfEachName ((documented ++ bare).filter fun m => m.name.isPublicName)

/-- The methods of a bundle. -/
def ofBundle (apiName bundle : Text) : List Method :=
  combine (Documented.methods apiName bundle) (Bare.methods apiName bundle)

end Method

end DeclSync
