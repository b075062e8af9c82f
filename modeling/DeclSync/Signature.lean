import DeclSync.Method.Basic
import DeclSync.Script.TopLevel
import DeclSync.Text.Blank

/-!
# Signatures

A method is declared with a signature in which every parameter and result has the type `any`: a
parameter with a default value is optional and loses the value, and an asynchronous method promises
its result.

## Main definitions

- `Signature.parameters` — the parameters of a parameter list
- `Signature.ofParts` — the signature of a method
-/

namespace DeclSync

namespace Signature

/-- The parameters of a parameter list: what stands between its top-level commas, trimmed, without
what is empty. -/
def parameters (params : Text) : List Text :=
  ((Nesting.commaPieces params).map Text.trim).filter fun p => !p.isEmpty

/-- How a parameter is declared. -/
def declareParameter (param : Text) : Text :=
  match param.assignment? with
  | some i => Text.trim (param.take i) ++ "?: any"
  | none => param ++ ": any"

/-- The type of a result. -/
def resultType (isAsync : Bool) : Text := if isAsync then "Promise<any>" else "any"

/-- The signature of a method with a name and a parameter list. -/
def ofParts (name params : Text) (isAsync : Bool) : Text :=
  let declared := (parameters params).map declareParameter
  name ++ "(" ++ List.intercalate ", " declared ++ "): " ++ resultType isAsync

end Signature

/-- The signature of a method. -/
def Method.signature (m : Method) : Text := Signature.ofParts m.name m.params m.isAsync

end DeclSync
