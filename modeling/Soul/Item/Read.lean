import Soul.Expr.Read
import Soul.Program

/-!
# Reading statements

    statement  ::= use | definition | expression
    use        ::= '$' identifier (':' identifier)?
    definition ::= '.' prototype expression
    prototype  ::= identifier '|' type* ('->' type)? (("'" | ',') identifier)* '='

A prototype lists the types of its parameters first and then, after the type of
the result, one name for each of them.
-/

namespace Soul.Read

/-- Reads an import. -/
def use : Read Import := do
  let (token, _) ← expect (ofKind (.mark .dollar)) "`$`" (some "import")
  let (_, name) ← expect identifier "module name" (some "import")
  match (← current).lexeme with
  | .mark .colon =>
    advance
    let (child, member) ← expect identifier "identifier after `:`" (some "import")
    return ⟨name, some ⟨member, child.location⟩, token.location⟩
  | _ => return ⟨name, none, token.location⟩

/-- Reads names of types for as long as there are any, at most one for each of
    `rounds`. -/
def typeNamesWithin : (rounds : List (Except Fault Token)) → Read (List String)
  | [] => pure []
  | _ :: rounds => do
    match typeName (← current).lexeme with
    | none => return []
    | some name =>
      advance
      let names ← typeNamesWithin rounds
      return name :: names

/-- Reads names of types for as long as there are any. -/
def typeNames : Read (List String) := do typeNamesWithin (← get).remaining

/-- Reads the type of a result, if there is one. -/
def result : Read (Option String) := do
  match (← current).lexeme with
  | .mark .arrow =>
    advance
    let (_, name) ← expect typeName "return type" (some "prototype")
    return some name
  | _ => return none

/-- Passes over the mark in front of the name of a parameter. -/
def parameterMark : Read Unit := do
  let token ← current
  match token.lexeme with
  | .mark .apostrophe | .mark .comma => advance
  | _ => refuse token (.missingToken "`'` or `,`" (some "argument list") (some token.description))

/-- Reads a name for each of the types. -/
def parameters : (types : List String) → Read (List Parameter)
  | [] => pure []
  | type :: types => do
    parameterMark
    let (_, name) ← expect identifier "argument name" (some "prototype")
    let rest ← parameters types
    return ⟨type, name⟩ :: rest

/-- Reads a prototype with the equals sign behind it. -/
def prototype : Read Prototype := do
  let (token, name) ← expect identifier "function name" (some "prototype")
  discard <| expect (ofKind (.operator .bitOr)) "`|`" (some "prototype")
  let types ← typeNames
  let result ← result
  let parameters ← parameters types
  discard <| expect (ofKind (.operator .assign)) "`=`" (some "prototype")
  return ⟨name, parameters, result, token.location⟩

/-- Reads the definition of a function, its body by `inner`. -/
def defineBy (inner : Read Expr) : Read Definition := do
  let (token, _) ← expect (ofKind (.operator .dot)) "`.`" (some "function definition")
  let prototype ← prototype
  let body ← inner
  return ⟨prototype, body, token.location⟩

/-- Reads a bare expression by `inner`. -/
def evaluateBy (inner : Read Expr) : Read Item := do
  let token ← current
  return .evaluate (← inner) token.location

/-- Reads a statement, as its first token tells, the expression in it by `inner`. -/
def itemBy (inner : Read Expr) : Read Item := do
  match (← current).lexeme with
  | .mark .dollar => return .use (← use)
  | .operator .dot => return .define (← defineBy inner)
  | _ => evaluateBy inner

/-- Reads the definition of a function. -/
def define (limit : Int) : Read Definition := defineBy (expression limit)

/-- Reads a bare expression. -/
def evaluate (limit : Int) : Read Item := evaluateBy (expression limit)

/-- Reads a statement. -/
def item (limit : Int) : Read Item := itemBy (expression limit)

/-- Reads a statement with a bounded stack. The stack has to have room for its text
    as well, which is noted as soon as it has been read. -/
def itemOn (limit : Int) (stack : Nat) : Read Item := do
  let item ← itemBy (expressionOn limit stack)
  if stack < item.textFrames then throw (.fault .stackExhausted) else return item

end Soul.Read
