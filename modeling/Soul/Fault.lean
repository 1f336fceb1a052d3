import Soul.Number.Reading
import Soul.Text.Quoted
import Soul.Token.Kind

/-!
# Faults

A fault is trouble that is no diagnostic: it has no place in the source and ends
the run in which it arises. An integer may be written with more digits than are
accepted, the bytes of a file may not be a text, a token may bind like a binary
operator without being one, and the stack may have no room for another frame.
-/

namespace Soul

/-- What keeps bytes from being a text. -/
inductive Malformation where
  /-- A byte that starts no character. -/
  | start
  /-- A character that is not continued as it has to be. -/
  | continuation
  /-- A character that is cut off by the end of the file. -/
  | truncated
  deriving DecidableEq, Inhabited

/-- What keeps bytes from being a text, in words. -/
def Malformation.message : Malformation → String
  | start => "invalid start byte"
  | continuation => "invalid continuation byte"
  | truncated => "unexpected end of data"

/-- Trouble that ends a run. -/
inductive Fault where
  /-- An integer written with too many digits. -/
  | overlongInteger (digits : Nat)
  /-- The bytes `first` and `others`, the first of them at `place`, are no
      character. -/
  | undecodable (first : UInt8) (others : List UInt8) (place : Nat) (reason : Malformation)
  /-- There is no operator for a kind that binds like one. -/
  | noOperator (kind : Kind)
  /-- There is no room left on the stack. -/
  | stackExhausted
  deriving DecidableEq, Inhabited

namespace Fault

/-- The bytes and their place, in words. -/
def span (first : UInt8) (others : List UInt8) (place : Nat) : String :=
  if others.isEmpty then
    "byte 0x" ++ String.ofList (Text.hex 2 first.toNat) ++ " in position " ++ toString place
  else
    "bytes in position " ++ toString place ++ "-" ++ toString (place + others.length)

/-- The fault in words. -/
def message : Fault → String
  | overlongInteger digits =>
    "Exceeds the limit (" ++ toString maxDigits ++ " digits) for integer string conversion: " ++
      "value has " ++ toString digits ++ " digits; " ++
      "use sys.set_int_max_str_digits() to increase the limit"
  | undecodable first others place reason =>
    "'utf-8' codec can't decode " ++ span first others place ++ ": " ++ reason.message
  | noOperator kind => "<TokenType." ++ kind.name ++ ": " ++ toString kind.ordinal ++ ">"
  | stackExhausted => "maximum recursion depth exceeded"

end Fault

end Soul
