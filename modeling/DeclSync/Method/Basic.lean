import DeclSync.Text.CodePoint

/-!
# Methods

What is known of one method of a bundle. The comment is kept as it was written, from its opening to
its closing mark.
-/

namespace DeclSync

/-- A method of a bundle: its name, its parameter list as written, whether it is asynchronous, its
description in the form that stands in a string literal, and the documentation comment above it if
it was found by one. -/
structure Method where
  name : Text
  params : Text
  isAsync : Bool
  description : Text
  comment : Option Text := none
  deriving DecidableEq

end DeclSync
