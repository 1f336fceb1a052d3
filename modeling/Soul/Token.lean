import Soul.Token.Record

/-!
# Tokens

A token is a lexeme with its place in a source text. The lexeme says what the
token is and holds what the token carries, so that an identifier has a name, an
integer a natural number and what is no token of the language a cause.
-/

namespace Soul

/-- What a token is. -/
inductive Lexeme where
  | operator (op : Operator)
  | mark (m : Mark)
  | identifier (name : String)
  | typeName (name : String)
  /-- A comment; its body is all that follows the semicolon on the line. -/
  | comment (body : String)
  | integer (n : Nat)
  | real (x : Double)
  /-- A string; its body is all that stands between the quotes. -/
  | string (body : String)
  /-- What is no token of the language. -/
  | invalid (cause : Cause)
  | endOfInput
  deriving DecidableEq, Inhabited

namespace Lexeme

/-- The kind of a lexeme. -/
def kind : Lexeme → Kind
  | operator op => .operator op
  | mark m => .mark m
  | identifier _ => .identifier
  | typeName _ => .typeName
  | comment _ => .comment
  | integer _ => .integer
  | real _ => .real
  | string _ => .string
  | invalid _ => .invalid
  | endOfInput => .endOfInput

/-- What a lexeme at a location carries. -/
def payload (location : Location) : Lexeme → Payload
  | operator op => .text op.spelling
  | mark m => .text m.spelling
  | identifier s | typeName s | comment s | string s => .text s
  | integer n => .integer n
  | real x => .real x
  | invalid cause => .problem (.diagnostic ⟨cause, location⟩)
  | endOfInput => .none

end Lexeme

/-- A lexeme and its place. -/
structure Token where
  /-- What the token is. -/
  lexeme : Lexeme
  /-- The file that the token stands in. -/
  file : String
  /-- The place of its first character. -/
  position : Position
  /-- No other token stands before this one on its line. -/
  startsLine : Bool
  deriving DecidableEq, Inhabited

namespace Token

/-- The place of a token in its file. -/
def location (t : Token) : Location := .ofPosition t.file t.position

/-- The kind of a token. -/
def kind (t : Token) : Kind := t.lexeme.kind

/-- The outside view of a token. -/
def record (t : Token) : TokenRecord :=
  ⟨t.kind, t.lexeme.payload t.location, t.location, t.startsLine⟩

/-- The token as part of a message. -/
def description (t : Token) : String := t.record.description

/-- The diagnostic of what is no token of the language. -/
def diagnostic? (t : Token) : Option Diagnostic :=
  match t.lexeme with
  | .invalid cause => some ⟨cause, t.location⟩
  | _ => none

/-- The binary operator that the token is where an expression may go on. A dot
    that is the first token on its line opens a definition and is none. -/
def operator? (t : Token) : Option Operator :=
  match t.lexeme with
  | .operator .dot => if t.startsLine then none else some .dot
  | .operator op => some op
  | _ => none

/-- How tightly the token binds where an expression may go on, or `-1` if it binds
    nothing there. A dot that is the first token on its line binds nothing. -/
def precedence (t : Token) : Int :=
  if t.kind = .operator .dot ∧ t.startsLine = true then -1 else t.kind.precedence

/-- The token is a comment. -/
def isComment (t : Token) : Bool :=
  match t.lexeme with
  | .comment _ => true
  | _ => false

/-- The token is the end of the input. -/
def isEnd (t : Token) : Bool := t.lexeme == .endOfInput

/-- A token binds something just if it is an operator, as tightly as the operator. -/
theorem precedence_eq (t : Token) :
    t.precedence = (t.operator?.map fun op => (op.tier : Int)).getD (-1) := by
  obtain ⟨lexeme, file, position, startsLine⟩ := t
  cases lexeme with
  | operator op => cases op <;> cases startsLine <;> rfl
  | mark m => cases m <;> rfl
  | _ => rfl

/-- Where a token binds something, there is an operator for it. -/
theorem lookup_operators {t : Token} {op : Operator} (h : t.operator? = some op) :
    Kind.operators.lookup t.kind = some op := by
  unfold operator? at h
  split at h
  · next hlex =>
    split at h
    · exact nomatch h
    · cases h
      rw [kind, hlex]
      rfl
  · next op' _ hlex =>
    cases h
    rw [kind, hlex]
    exact Kind.lookup_operators op
  · exact nomatch h

end Token

end Soul
