import DeclSync.Script.Literal
import DeclSync.Signature

/-!
# The declaration block

The methods of a bundle are declared as one constant array, under a comment line that starts with
the anchor. The block has LF between its lines and none at its end.

## Main definitions

- `Declaration.entry` — the entry of one method
- `Declaration.block` — the block of a list of methods
-/

namespace DeclSync

namespace Declaration

/-- The comment that opens a block unless another is asked for. -/
def standardAnchor : Text := "// Sypnex API method definitions"

/-- The name of the array unless another is asked for. -/
def standardArrayName : Text := "sypnexApiMethods"

/-- The entry of one method, without a comma behind it. -/
def entry (m : Method) : Text :=
  "\t\x7b\n" ++
    ("\t\tname: '" ++ m.name ++ "',\n") ++
    ("\t\tsignature: '" ++ m.signature.literalBody ++ "',\n") ++
    ("\t\tdescription: '" ++ m.description ++ "',\n") ++
    ("\t\tisAsync: " ++ (if m.isAsync then "true" else "false" : String) ++ "\n") ++
    "\t\x7d"

/-- The block that declares a list of methods. -/
def block (anchor arrayName : Text) (methods : List Method) : Text :=
  anchor ++ " (auto-generated)\nconst " ++ arrayName ++ " = [\n" ++
    List.intercalate ",\n" (methods.map entry) ++ "\n];"

end Declaration

end DeclSync
