import Soul.File.Utf8
import Soul.Token.Scanner

/-!
# Lines of files

The lines of a file end with a line feed, a carriage return, or a carriage
return and a line feed. In the text that is read from the file a line feed
takes the place of each of them.

A carriage return at the very end waits for what follows. If that is a fault,
the carriage return is never read.
-/

namespace Soul.File

/-- The text with a line feed at the end of each line. -/
def unifyLines : List Char → List Char
  | [] => []
  | '\r' :: '\n' :: rest => '\n' :: unifyLines rest
  | '\r' :: rest => '\n' :: unifyLines rest
  | c :: rest => c :: unifyLines rest

/-- The text without a carriage return at its end. -/
def dropFinalReturn (chars : List Char) : List Char :=
  if chars.getLast? = some '\r' then chars.dropLast else chars

/-- A scanner before the first token of a file. -/
def scanner (name : String) (bytes : List UInt8) : Scanner :=
  let d := Utf8.decode bytes
  let chars := if d.fault.isSome then dropFinalReturn d.chars else d.chars
  .ofChars name (unifyLines chars) d.fault

end Soul.File
