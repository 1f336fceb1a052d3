import Soul.Location
import Soul.Number.Shortest
import Soul.Operator

/-!
# Expressions

An expression is a literal, a variable, two expressions joined by a binary
operator, a call, or the declaration of a variable with or without an initial
value. Every node may know its place in the source.

The text of an expression writes each pair of operands in parentheses and the
arguments of a call with nothing but a blank between them. It is made by going
down into the expression, with a frame on the stack for each step down
(`Expr.textFrames`).
-/

namespace Soul

/-- The kind of a literal. -/
inductive LiteralKind where
  | integer
  | real
  | string
  deriving DecidableEq, Inhabited

namespace LiteralKind

/-- The kinds of literals. -/
def all : List LiteralKind := [integer, real, string]

/-- The word for the kind in trees and outlines. -/
def word : LiteralKind → String
  | integer => "int"
  | real => "float"
  | string => "string"

/-- The name of the kind in listings. -/
def name : LiteralKind → String
  | integer => "INT"
  | real => "FLOAT"
  | string => "STRING"

/-- The kind of a word. -/
def ofWord? (word : String) : Option LiteralKind := all.find? (·.word == word)

end LiteralKind

/-- A constant. -/
inductive Literal where
  | integer (n : Nat)
  | real (x : Double)
  | string (body : String)
  deriving DecidableEq, Inhabited

namespace Literal

/-- The kind of a constant. -/
def kind : Literal → LiteralKind
  | integer _ => .integer
  | real _ => .real
  | string _ => .string

/-- The constant as a source text may write it. -/
def text : Literal → String
  | integer n => toString n
  | real x => x.text
  | string body => "\"" ++ body ++ "\""

end Literal

/-- An expression. -/
inductive Expr where
  | literal (value : Literal) (location : Option Location)
  | var (name : String) (location : Option Location)
  | binary (op : Operator) (lhs rhs : Expr) (location : Option Location)
  | call (callee : String) (args : List Expr) (location : Option Location)
  /-- The declaration of a variable, perhaps with its initial value. -/
  | declaration (name : String) (isMutable : Bool) (initial : Option Expr)
      (location : Option Location)
  deriving Inhabited

namespace Expr

/-- The place of the expression. -/
def location : Expr → Option Location
  | literal _ l | var _ l | binary _ _ _ l | call _ _ l | declaration _ _ _ l => l

mutual

/-- The expression on one line. -/
def text : Expr → String
  | literal value _ => value.text
  | var name _ => name
  | binary op lhs rhs _ => "(" ++ lhs.text ++ " " ++ op.spelling ++ " " ++ rhs.text ++ ")"
  | call callee args _ => callee ++ "(" ++ " ".intercalate (texts args) ++ ")"
  | declaration name isMutable initial _ =>
    (if isMutable then "let mut " else "let ") ++ name ++ initialText initial

/-- The texts of expressions. -/
def texts : List Expr → List String
  | [] => []
  | e :: es => e.text :: texts es

/-- The text of an initial value behind the name that it is given to. -/
def initialText : Option Expr → String
  | none => ""
  | some e => " = " ++ e.text

end

mutual

/-- The frames that it takes on the stack to make the text. A call goes through its
    arguments in a frame of its own. -/
def textFrames : Expr → Nat
  | literal _ _ | var _ _ => 1
  | binary _ lhs rhs _ => 1 + max lhs.textFrames rhs.textFrames
  | call _ args _ => 2 + argumentFrames args
  | declaration _ _ initial _ => 1 + initialFrames initial

/-- The frames for the texts of arguments, one after the other. -/
def argumentFrames : List Expr → Nat
  | [] => 0
  | e :: es => max e.textFrames (argumentFrames es)

/-- The frames for the text of an initial value. -/
def initialFrames : Option Expr → Nat
  | none => 0
  | some e => e.textFrames

end

end Expr

end Soul
