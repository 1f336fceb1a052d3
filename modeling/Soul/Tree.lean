import Soul.Program
import Soul.Token.Payload

/-!
# Free trees

A free tree is made of the same nodes as a program, but any node may stand
below any other: a variable among the items of a program, a declaration in
place of a prototype. Two sorts of nodes more have no parts and no text at all.
A literal of any kind may have any value.

The trees of programs are those in which every node is where it belongs
(`Program.tree`).
-/

namespace Soul

/-- A free tree. -/
inductive Tree where
  | literal (kind : LiteralKind) (value : Payload) (location : Option Location)
  | var (name : String) (location : Option Location)
  | binary (op : Operator) (lhs rhs : Tree) (location : Option Location)
  | call (callee : String) (args : List Tree) (location : Option Location)
  | declaration (name : String) (isMutable : Bool) (initial : Option Tree)
      (location : Option Location)
  /-- A prototype, the types and the names of its parameters each in a list. -/
  | prototype (name : String) (types names : List String) (result : Option String)
      (location : Option Location)
  /-- A function: its prototype and its body. -/
  | function (head body : Tree) (location : Option Location)
  | use (name : String) (parts : List Tree) (location : Option Location)
  | program (units : List Tree) (location : Option Location)
  /-- An expression of no sort in particular. -/
  | expression (location : Option Location)
  /-- A node of no sort in particular. -/
  | node (location : Option Location)
  deriving Inhabited

/-- What may be wrong with a free tree. -/
inductive TreeError where
  /-- The node has no text. -/
  | textless
  /-- The integer is too large for a double. -/
  | tooLarge
  /-- The text shows no number. -/
  | unreadable (text : String)
  /-- A value of this sort is no number. -/
  | notNumeric (sort : String)
  /-- A node of this sort has no name. -/
  | nameless (sort : String)
  /-- The prototype has not as many names as types. -/
  | arity (name : String) (types names : Nat)
  deriving DecidableEq, Inhabited

/-- What is wrong with a free tree, in words. -/
def TreeError.message : TreeError → String
  | textless => ""
  | tooLarge => "int too large to convert to float"
  | unreadable text => "could not convert string to float: " ++ Text.quoted text
  | notNumeric sort => "float() argument must be a string or a real number, not '" ++ sort ++ "'"
  | nameless sort => "'" ++ sort ++ "' object has no attribute 'name'"
  | arity name types names =>
    "prototype '" ++ name ++ "' has " ++ toString types ++ " types but " ++ toString names ++
      " names"

namespace Tree

/-- The name of the sort of a node. -/
def sort : Tree → String
  | literal .. => "Literal"
  | var .. => "Variable"
  | binary .. => "Binary"
  | call .. => "Call"
  | declaration .. => "VarDecl"
  | prototype .. => "Prototype"
  | function .. => "FunctionDef"
  | use .. => "Import"
  | program .. => "Program"
  | expression _ => "Expression"
  | node _ => "ASTNode"

/-- The place of a tree. -/
def location : Tree → Option Location
  | literal _ _ l | var _ l | binary _ _ _ l | call _ _ l | declaration _ _ _ l
  | prototype _ _ _ _ l | function _ _ l | use _ _ l | program _ l | expression l | node l => l

/-- The name of a node; that of a function is the name of its prototype. -/
def name : Tree → Except TreeError String
  | var name _ | declaration name _ _ _ | prototype name _ _ _ _ => .ok name
  | function head _ _ => head.name
  | tree => .error (.nameless tree.sort)

mutual

/-- The two trees agree in everything but the places of their nodes. -/
def equal : Tree → Tree → Bool
  | literal k v _, literal k' v' _ => k == k' && v.equal v'
  | var n _, var n' _ => n == n'
  | binary op l r _, binary op' l' r' _ => op == op' && l.equal l' && r.equal r'
  | call f as _, call f' as' _ => f == f' && equalAll as as'
  | declaration n m i _, declaration n' m' i' _ => n == n' && m == m' && equalOption i i'
  | prototype n ts ns r _, prototype n' ts' ns' r' _ =>
    n == n' && ts == ts' && ns == ns' && r == r'
  | function p b _, function p' b' _ => p.equal p' && b.equal b'
  | use n ps _, use n' ps' _ => n == n' && equalAll ps ps'
  | program us _, program us' _ => equalAll us us'
  | expression _, expression _ => true
  | node _, node _ => true
  | _, _ => false

/-- The two lists have as many trees, and these agree in turn. -/
def equalAll : List Tree → List Tree → Bool
  | [], [] => true
  | t :: ts, t' :: ts' => t.equal t' && equalAll ts ts'
  | _, _ => false

/-- Both trees are absent, or they agree. -/
def equalOption : Option Tree → Option Tree → Bool
  | none, none => true
  | some t, some t' => t.equal t'
  | _, _ => false

end

end Tree

/-! ## The trees of programs -/

/-- The value of a literal. -/
def Literal.payload : Literal → Payload
  | integer n => .integer n
  | real x => .real x
  | string body => .text body

namespace Expr

mutual

/-- The tree of an expression. -/
def tree : Expr → Tree
  | literal value l => .literal value.kind value.payload l
  | var name l => .var name l
  | binary op lhs rhs l => .binary op lhs.tree rhs.tree l
  | call callee args l => .call callee (trees args) l
  | declaration name isMutable initial l => .declaration name isMutable (initialTree initial) l

/-- The trees of expressions. -/
def trees : List Expr → List Tree
  | [] => []
  | e :: es => e.tree :: trees es

/-- The tree of an initial value. -/
def initialTree : Option Expr → Option Tree
  | none => none
  | some e => some e.tree

end

end Expr

/-- The tree of a prototype. -/
def Prototype.tree (p : Prototype) : Tree :=
  .prototype p.name (p.parameters.map (·.type)) (p.parameters.map (·.name)) p.result p.location

/-- The tree of a definition. -/
def Definition.tree (d : Definition) : Tree := .function d.prototype.tree d.body.tree d.location

/-- The tree of an import. -/
def Import.tree (i : Import) : Tree :=
  .use i.module (i.member.map fun m => Tree.use m.name [] m.location).toList i.location

/-- The tree of an item. -/
def Item.tree : Item → Tree
  | use i => i.tree
  | define d => d.tree
  | evaluate body location => (wrapped body location).tree

/-- The tree of a program. -/
def Program.tree (p : Program) : Tree := .program (p.items.map Item.tree) p.location

end Soul
