import DeclSync.Text.CodePoint

/-!
# Identifiers of a script

Identifiers are made of ASCII letters, digits, `_` and `$`, and do not begin with a digit. Not every
identifier can name a public method: some are keywords, and some are words that call sites put where
a method name would stand.

## Main definitions

- `CodePoint.isIdentifierStart`, `CodePoint.isIdentifierChar` — what identifiers are made of
- `Text.isIdentifier` — whether a text is an identifier
- `Text.isPublicName` — whether a text can name a public method
-/

namespace DeclSync

namespace CodePoint

/-- Whether a code point can begin an identifier. -/
def isIdentifierStart : CodePoint → Bool
  | scalar c => c.isAlpha || c == '_' || c == '$'
  | surrogate _ => false

/-- Whether a code point can stand in an identifier. -/
def isIdentifierChar : CodePoint → Bool
  | scalar c => c.isAlphanum || c == '_' || c == '$'
  | surrogate _ => false

end CodePoint

/-- Words that name no public method, in the order of their code points. -/
def excludedNames : List String :=
  ["assign", "await", "break", "case", "catch", "class", "const", "continue", "debugger",
    "default", "delete", "do", "else", "enum", "export", "extends", "false", "finally", "for",
    "function", "if", "import", "in", "instanceof", "let", "new", "not", "null", "return", "super",
    "switch", "this", "throw", "true", "try", "typeof", "var", "void", "while", "with", "yield"]

namespace Text

/-- Whether the text begins with a code point that can begin an identifier. -/
def beginsIdentifier : Text → Bool
  | [] => false
  | c :: _ => c.isIdentifierStart

/-- Whether the text is an identifier. -/
def isIdentifier (t : Text) : Bool := t.beginsIdentifier && t.all CodePoint.isIdentifierChar

/-- The text without the LF at its end, if there is one. -/
def dropFinalLf (t : Text) : Text := if t.getLast? = some (.scalar '\n') then t.dropLast else t

/-- Whether a text can name a public method: an identifier, which one LF may follow, that does not
begin with `_`, and that as a whole is neither `constructor` nor an excluded name. -/
def isPublicName (t : Text) : Bool :=
  t.dropFinalLf.isIdentifier && !t.beginsWith "_" && t ≠ "constructor" &&
    !excludedNames.any fun name => t = name

end Text

end DeclSync
