import Soul.Cursor
import Soul.Expr

/-!
# Reading expressions

    expression ::= primary (operator primary)*
    primary    ::= identifier ('(' expression* ')')?
                 | integer | real | string
                 | ("'" | ',') identifier ('=' expression)?
                 | '(' expression ')'

The arguments of a call follow each other without a separator. A declaration
that begins with a comma is of a mutable variable.

The operators of a chain group by their tiers. The chain is read from left to
right: an operator takes the primary behind it for its right operand, unless an
operator of a higher tier follows, which then takes that primary first.

Comments may stand before a primary, before a closing parenthesis and between
arguments. Elsewhere a comment ends what is being read.

An expression may stand inside other expressions: in parentheses, as an
argument or as an initial value. No more than a given limit of them may be
inside each other.

Reading goes down into what is inside, and so does the reading of an operator of
a higher tier. Each way down takes frames on a stack. Where the stack is bounded
(`Read.expressionOn`), a reading that finds no room for a frame fails. Only the
readings that come back to themselves count; what else they make use of takes a
bounded number of frames.
-/

namespace Soul.Read

/-- Reads arguments up to the parenthesis that closes the call, which is passed
    over too, at most one argument for each of `rounds`. -/
def argumentsWithin (inner : Read Expr) :
    (rounds : List (Except Fault Token)) → Read (List Expr)
  | [] => pure []
  | _ :: rounds => do
    skipComments
    let token ← current
    match token.lexeme with
    | .mark .rightParen =>
      advance
      return []
    | .endOfInput =>
      refuse token (.missingToken "`)`" (some "call arguments") (some token.description))
    | _ =>
      let arg ← inner
      let args ← argumentsWithin inner rounds
      return arg :: args

/-- Reads arguments up to the parenthesis that closes the call, which is passed
    over too. -/
def arguments (inner : Read Expr) : Read (List Expr) := do
  argumentsWithin inner (← get).remaining

/-- Reads a variable or a call. The current token is the identifier `name`. -/
def named (inner : Read Expr) (token : Token) (name : String) : Read Expr := do
  advance
  match (← current).lexeme with
  | .mark .leftParen =>
    advance
    let args ← arguments inner
    return .call name args token.location
  | _ => return .var name token.location

/-- Reads a declaration. The current token is its first mark. -/
def declaration (inner : Read Expr) (token : Token) (isMutable : Bool) : Read Expr := do
  advance
  let (_, name) ← expect identifier "identifier after `'` or `,`" (some "declaration")
  match (← current).lexeme with
  | .operator .assign =>
    advance
    let initial ← inner
    return .declaration name isMutable (some initial) token.location
  | _ => return .declaration name isMutable none token.location

/-- Reads a primary: a variable or a call by `named`, a declaration by `declared` and
    an expression in parentheses by `inner`. -/
def primaryBy (named : Token → String → Read Expr) (declared : Token → Bool → Read Expr)
    (inner : Read Expr) : Read Expr := do
  skipComments
  let token ← current
  match token.lexeme with
  | .identifier name => named token name
  | .integer n =>
    advance
    return .literal (.integer n) token.location
  | .real x =>
    advance
    return .literal (.real x) token.location
  | .string body =>
    advance
    return .literal (.string body) token.location
  | .mark .apostrophe => declared token false
  | .mark .comma => declared token true
  | .mark .leftParen =>
    advance
    let e ← inner
    skipComments
    discard <| expect (ofKind (.mark .rightParen)) "`)`" (some "parenthesized expression")
    return e
  | _ => refuse token (.unexpectedToken token.description (some "expression"))

/-- Reads a primary, the expressions inside it by `inner`. -/
def primary (inner : Read Expr) : Read Expr :=
  primaryBy (named inner) (declaration inner) inner

/-- The operator with which the expression goes on, if it is of the tier `least`
    or a higher one. -/
def operatorFrom (least : Nat) : Read (Option (Token × Operator)) := do
  let token ← current
  if token.precedence < least then return none
  else match Kind.operators.lookup token.kind with
    | some op => return some (token, op)
    | none => throw (.fault (.noOperator token.kind))

/-- Reads operators of the tier `least` and higher ones with their right
    operands, behind the operand `lhs`, at most one for each of `rounds`. -/
def chainWithin (operand : Read Expr) :
    (rounds : List (Except Fault Token)) → (least : Nat) → (lhs : Expr) → Read Expr
  | [], _, lhs => pure lhs
  | _ :: rounds, least, lhs => do
    match ← operatorFrom least with
    | none => return lhs
    | some (token, op) =>
      advance
      let rhs ← operand
      -- With no operator of a higher tier behind it, this reads nothing.
      let rhs ← chainWithin operand rounds (op.tier + 1) rhs
      chainWithin operand rounds least (.binary op lhs rhs token.location)

/-- Reads operators of the tier `least` and higher ones with their right
    operands, behind the operand `lhs`. -/
def chain (operand : Read Expr) (least : Nat) (lhs : Expr) : Read Expr := do
  chainWithin operand (← get).remaining least lhs

/-- Reads an expression that may have `levels - 1` more inside each other. -/
def expressionWithin (limit : Int) : (levels : Nat) → Read Expr
  | 0 => nested do
    throw (.violation ⟨.nestingTooDeep limit, (← current).location⟩)
  | levels + 1 => nested do
    let operand := primary (expressionWithin limit levels)
    let lhs ← operand
    chain operand 0 lhs

/-- Reads an expression, of which no more than `limit` may be inside each
    other. -/
def expression (limit : Int) : Read Expr := do
  expressionWithin limit (limit - (← get).depth).toNat

/-! ## With a bounded stack -/

/-- Reads in a frame of its own, with the room that is then left on the stack. -/
def framed {α : Type} (p : (room : Nat) → Read α) : (room : Nat) → Read α
  | 0 => throw (.fault .stackExhausted)
  | room + 1 => p room

/-- Reads a primary in a frame of its own. What begins with a name or a mark has
    another one. -/
def primaryOn (inner : (room : Nat) → Read Expr) : (room : Nat) → Read Expr :=
  framed fun room => primaryBy
    (fun token name => framed (fun room => named (inner room) token name) room)
    (fun token isMutable => framed (fun room => declaration (inner room) token isMutable) room)
    (inner room)

/-- Reads operators of the tier `least` and higher ones with their right operands,
    behind the operand `lhs`, at most one for each of `rounds`. An operator of a
    higher tier is read in a frame of its own. -/
def chainWithinOn (operand : (room : Nat) → Read Expr) :
    (rounds : List (Except Fault Token)) → (least : Nat) → (lhs : Expr) → (room : Nat) → Read Expr
  | [], _, lhs, _ => pure lhs
  | _ :: rounds, least, lhs, room => do
    match ← operatorFrom least with
    | none => return lhs
    | some (token, op) =>
      advance
      let rhs ← operand room
      let rhs ←
        if (op.tier : Int) < (← current).precedence then
          framed (chainWithinOn operand rounds (op.tier + 1) rhs) room
        else pure rhs
      chainWithinOn operand rounds least (.binary op lhs rhs token.location) room

/-- Reads operators of the tier `least` and higher ones with their right operands,
    behind the operand `lhs`, in a frame of its own. -/
def chainOn (operand : (room : Nat) → Read Expr) (least : Nat) (lhs : Expr) :
    (room : Nat) → Read Expr :=
  framed fun room => do chainWithinOn operand (← get).remaining least lhs room

/-- Reads an expression that may have `levels - 1` more inside each other, in a frame
    of its own. -/
def expressionWithinOn (limit : Int) : (levels : Nat) → (room : Nat) → Read Expr
  | 0 => framed fun _ => nested do
    throw (.violation ⟨.nestingTooDeep limit, (← current).location⟩)
  | levels + 1 => framed fun room => nested do
    let operand := primaryOn (expressionWithinOn limit levels)
    let lhs ← operand room
    chainOn operand 0 lhs room

/-- Reads an expression, of which no more than `limit` may be inside each other, with
    the stack that is left. -/
def expressionOn (limit : Int) (room : Nat) : Read Expr := do
  expressionWithinOn limit (limit - (← get).depth).toNat room

end Soul.Read
