import Soul.Location
import Soul.Text.Quoted

/-!
# Diagnostics

A diagnostic says what is wrong with a source text and where. What is wrong is
a `Cause`: a character, a number or a string that cannot be a token, or a token
that the grammar does not allow where it stands. Each cause has a message and,
mostly, a hint; together with the location they make up one line

    main.soul:3:7: error: expected `=` in prototype; hint: found end of input

in which the location and the hint may be absent. A piece of a cause that is
present but empty is left out of the line as if it were absent.
-/

namespace Soul

/-- Which part of the front end a diagnostic comes from. -/
inductive Family where
  /-- No part in particular. -/
  | general
  /-- Cutting the text into tokens. -/
  | lexical
  /-- Reading the tokens by the grammar. -/
  | grammar
  deriving DecidableEq, Inhabited

/-- What is wrong. -/
inductive Cause where
  /-- A character that starts no token. -/
  | invalidCharacter (char : String)
  /-- A number with more than one point. -/
  | invalidNumber (text : String)
  /-- A string without its closing quote. -/
  | unterminatedString
  /-- A token that the grammar requires is not there. -/
  | missingToken (expected : String) (context found : Option String)
  /-- A token that cannot stand where it is. -/
  | unexpectedToken (found : String) (expected : Option String)
  /-- Expressions inside expressions beyond the limit. -/
  | nestingTooDeep (limit : Int)
  /-- Any other trouble, in words of its own. -/
  | other (family : Family) (message : String) (hint : Option String)
  deriving DecidableEq, Inhabited

/-- The text, unless it is absent or empty. -/
def nonempty? : Option String → Option String
  | none => none
  | some text => if text.isEmpty then none else some text

namespace Cause

/-- The part of the front end that finds the cause. -/
def family : Cause → Family
  | invalidCharacter _ | invalidNumber _ | unterminatedString => .lexical
  | missingToken .. | unexpectedToken .. | nestingTooDeep _ => .grammar
  | other family .. => family

/-- The name that listings give to the kind of a cause. -/
def name : Cause → String
  | invalidCharacter _ => "InvalidCharacterError"
  | invalidNumber _ => "InvalidNumberError"
  | unterminatedString => "UnterminatedStringError"
  | missingToken .. => "MissingTokenError"
  | unexpectedToken .. => "UnexpectedTokenError"
  | nestingTooDeep _ => "NestingTooDeepError"
  | other .general .. => "SouliteSyntaxError"
  | other .lexical .. => "LexicalError"
  | other .grammar .. => "ParseError"

/-- What is wrong, in words. -/
def message : Cause → String
  | invalidCharacter _ => "invalid token"
  | invalidNumber _ => "invalid number format"
  | unterminatedString => "unterminated string literal"
  | missingToken expected context _ =>
    "expected " ++ expected ++ ((nonempty? context).map (" in " ++ ·)).getD ""
  | unexpectedToken found _ => "unexpected token " ++ found
  | nestingTooDeep _ => "expression nested too deeply"
  | other _ message _ => message

/-- What to look at, in words. -/
def hint : Cause → Option String
  | invalidCharacter char => some ("unexpected character " ++ Text.quoted char)
  | invalidNumber text => some ("'" ++ text ++ "' has more than one '.'")
  | unterminatedString => some "add closing '\"' to complete the string"
  | missingToken _ _ found => (nonempty? found).map ("found " ++ ·)
  | unexpectedToken _ expected => (nonempty? expected).map ("expected " ++ ·)
  | nestingTooDeep limit => some ("more than " ++ toString limit ++ " levels of nesting")
  | other _ _ hint => hint

end Cause

/-- What is wrong, and where. -/
structure Diagnostic where
  /-- What is wrong. -/
  cause : Cause
  /-- Where, if that is known. -/
  location : Option Location
  deriving DecidableEq, Inhabited

namespace Diagnostic

/-- A line of a given `label`, with its location in front if that is known. -/
def line (label : String) (location : Option Location) (message : String) : String :=
  (location.map (·.text ++ ": ")).getD "" ++ label ++ ": " ++ message

/-- The diagnostic as one line. -/
def text (d : Diagnostic) : String :=
  line "error" d.location d.cause.message ++
    ((nonempty? d.cause.hint).map ("; hint: " ++ ·)).getD ""

end Diagnostic

end Soul
