import Soul.Text.Printable

/-!
# Quoted text

The quoted form of a text shows every character on one line. The text stands
between single quotes, or between double quotes if it has a single quote and
no double quote. A backslash, the quote in use, a line feed, a carriage return
and a tab are written with a backslash; any other character that is not
printable is written by its number, with two, four or eight hexadecimal
digits; all other characters are written as they are.
-/

namespace Soul.Text

/-- The last `width` hexadecimal digits of `n`, in lower case. -/
def hex : (width n : Nat) → List Char
  | 0, _ => []
  | width + 1, n => hex width (n / 16) ++ [Nat.digitChar (n % 16)]

/-- The quote that encloses a text. -/
def quoteOf (text : List Char) : Char :=
  if text.contains '\'' && !text.contains '"' then '"' else '\''

/-- One character of a text enclosed by `quote`. -/
def escape (quote c : Char) : List Char :=
  if c == quote || c == '\\' then ['\\', c]
  else if c == '\n' then ['\\', 'n']
  else if c == '\r' then ['\\', 'r']
  else if c == '\t' then ['\\', 't']
  else if isPrintable c then [c]
  else if c.toNat < 0x100 then '\\' :: 'x' :: hex 2 c.toNat
  else if c.toNat < 0x10000 then '\\' :: 'u' :: hex 4 c.toNat
  else '\\' :: 'U' :: hex 8 c.toNat

/-- The quoted form of a text, as characters. -/
def quotedChars (text : List Char) : List Char :=
  let quote := quoteOf text
  quote :: text.flatMap (escape quote) ++ [quote]

/-- The quoted form of a text. -/
def quoted (text : String) : String := String.ofList (quotedChars text.toList)

end Soul.Text
