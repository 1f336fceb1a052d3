import Soul.Token
import Soul.Fault

/-!
# Reading from a cursor

A cursor stands on one token of a source, the current one, with all the others
still ahead. Reading looks at the current token only and never goes back. To
move on is to fetch the next token; where a fault takes its place, the cursor
stays on the current one and the reading ends. At the end of the input the next
token is the end of the input again.

A reading gives a value or fails, and leaves the cursor where it stopped either
way (`Read`). It fails in one of three ways (`Failure`).

The cursor also counts the tokens it has fetched and the expressions it is
inside of.
-/

namespace Soul

/-- A place among the tokens of a source. -/
structure Cursor where
  /-- The token under examination. -/
  current : Token
  /-- The tokens not yet fetched, and the faults that come in place of some. -/
  ahead : List (Except Fault Token)
  /-- The number of tokens fetched. -/
  taken : Nat
  /-- The number of expressions that the cursor is inside of. -/
  depth : Nat

namespace Cursor

/-- A cursor before the first token of a source. -/
def start (file : String) (ahead : List (Except Fault Token)) : Cursor :=
  ⟨⟨.endOfInput, file, .start, true⟩, ahead, 0, 0⟩

/-- The current token and what is ahead of it. A loop that fetches a token in
    each round has no more rounds than this. -/
def remaining (c : Cursor) : List (Except Fault Token) := .ok c.current :: c.ahead

/-- What the cursor `c` fetched to get to where `c'` is. A fault in place of a
    token is not among it. -/
def fetched (c c' : Cursor) : List (Except Fault Token) := c.ahead.take (c'.taken - c.taken)

/-- The diagnostics of the fetched tokens that are none of the language. -/
def diagnostics (fetched : List (Except Fault Token)) : List Diagnostic :=
  fetched.filterMap fun
    | .ok token => token.diagnostic?
    | .error _ => none

end Cursor

/-- Why a reading fails. -/
inductive Failure where
  /-- The current token is none of the language. Its diagnostic is known since
      the token was fetched. -/
  | invalid (d : Diagnostic)
  /-- The grammar does not allow the current token. -/
  | violation (d : Diagnostic)
  /-- There is no next token, for a fault takes its place. -/
  | fault (f : Fault)
  deriving DecidableEq, Inhabited

/-- A reading of a value at a cursor. -/
abbrev Read := EStateM Failure Cursor

namespace Read

/-- The current token. -/
def current : Read Token := fun c => .ok c.current c

/-- Fetches the next token. -/
def advance : Read Unit := fun c =>
  match c.ahead with
  | [] => .ok () { c with current.startsLine := false, taken := c.taken + 1 }
  | .ok token :: rest => .ok () { c with current := token, ahead := rest, taken := c.taken + 1 }
  | .error fault :: rest => .error (.fault fault) { c with ahead := rest }

/-- Fails at a token: with the diagnostic of the token if it is none of the
    language, and with the given cause otherwise. -/
def refuse {α : Type} (token : Token) (cause : Cause) : Read α :=
  match token.diagnostic? with
  | some d => throw (.invalid d)
  | none => throw (.violation ⟨cause, token.location⟩)

/-- Passes over the current token, which has to be one that `select` accepts,
    and gives it with what `select` makes of it. -/
def expect {α : Type} (select : Lexeme → Option α) (expected : String)
    (context : Option String) : Read (Token × α) := do
  let token ← current
  match select token.lexeme with
  | some a =>
    advance
    return (token, a)
  | none => refuse token (.missingToken expected context (some token.description))

/-- Accepts the lexemes of a kind. -/
def ofKind (kind : Kind) (lexeme : Lexeme) : Option Unit :=
  if lexeme.kind = kind then some () else none

/-- Accepts identifiers, for their names. -/
def identifier : Lexeme → Option String
  | .identifier name => some name
  | _ => none

/-- Accepts the names of types. -/
def typeName : Lexeme → Option String
  | .typeName name => some name
  | _ => none

/-- Fetches tokens for as long as the current one is in the class `p`, at most
    one for each of `rounds`. -/
def skipWithin (p : Token → Bool) : (rounds : List (Except Fault Token)) → Read Unit
  | [] => pure ()
  | _ :: rounds => do
    if p (← current) then
      advance
      skipWithin p rounds

/-- Fetches tokens for as long as the current one is in the class `p`, to which
    the end of the input does not belong. -/
def skip (p : Token → Bool) : Read Unit := do
  skipWithin p (← get).remaining

/-- Passes over comments. -/
def skipComments : Read Unit := skip Token.isComment

/-- A token at which a new statement may begin after a failure. -/
def isResumption (token : Token) : Bool :=
  match token.lexeme with
  | .mark .dollar | .operator .dot | .endOfInput => true
  | _ => false

/-- Passes over what is left of a failed statement. -/
def synchronize : Read Unit := skip (!isResumption ·)

/-- Reads inside one more expression. -/
def nested {α : Type} (p : Read α) : Read α := fun c =>
  match p { c with depth := c.depth + 1 } with
  | .ok a c' => .ok a { c' with depth := c'.depth - 1 }
  | .error e c' => .error e { c' with depth := c'.depth - 1 }

end Read

end Soul
