import DeclSync.Text.Printable

/-!
# Quoted texts

How a text is shown inside a message: between single quotes, or between double quotes when it holds
single quotes only; the backslash, the quote itself and every code point that is not printable are
written as escapes.

## Main definitions

- `Text.quoted` — the text as it is shown in a message
-/

namespace DeclSync

/-- The hexadecimal digits of a number, with zeros in front up to a width. -/
def hexDigits (width n : Nat) : Text :=
  let digits : Text := (Nat.toDigits 16 n).map .scalar
  List.replicate (width - digits.length) (.scalar '0') ++ digits

/-- How a code point stands between two marks `quote`: the shortest numeric escape if it is not
printable. -/
def CodePoint.escaped (quote c : CodePoint) : Text :=
  if c = quote ∨ c = '\\' then ['\\', c]
  else if c = '\n' then "\\n"
  else if c = '\r' then "\\r"
  else if c = '\t' then "\\t"
  else if c.isPrintable then [c]
  else if c.toNat < 0x100 then "\\x" ++ hexDigits 2 c.toNat
  else if c.toNat < 0x10000 then "\\u" ++ hexDigits 4 c.toNat
  else "\\U" ++ hexDigits 8 c.toNat

/-- The quote that a text is shown between. -/
def Text.quoteMark (t : Text) : CodePoint :=
  if t.contains (.scalar '\x27') && !t.contains (.scalar '"') then '"' else '\x27'

/-- The text as it is shown in a message. -/
def Text.quoted (t : Text) : Text :=
  let quote := t.quoteMark
  quote :: t.flatMap (CodePoint.escaped quote) ++ [quote]

end DeclSync
