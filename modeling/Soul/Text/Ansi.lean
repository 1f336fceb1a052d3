/-!
# Control sequences

A control sequence of a terminal is an escape character, an opening bracket,
any number of parameters (digits, semicolons and question marks) and a letter.
Output that does not go to a terminal is cleared of them.
-/

namespace Soul.Text

/-- A parameter of a control sequence. -/
def isParameter (c : Char) : Bool := c.isDigit || c == ';' || c == '?'

/-- The character that starts a control sequence. -/
def escapeChar : Char := '\x1b'

/-- The text without control sequences, where the characters `held` stand before
    it and may be the start of one. -/
def clearFrom : (held text : List Char) → List Char
  | held, [] => held
  | held, c :: rest =>
    if c = escapeChar then held ++ clearFrom [c] rest
    else match held with
      | [] => c :: clearFrom [] rest
      | [e] => if c = '[' then clearFrom [e, c] rest else e :: c :: clearFrom [] rest
      | _ =>
        if isParameter c then clearFrom (held ++ [c]) rest
        else if c.isAlpha then clearFrom [] rest
        else held ++ c :: clearFrom [] rest

/-- The text without control sequences. -/
def clear (text : String) : String := String.ofList (clearFrom [] text.toList)

end Soul.Text
