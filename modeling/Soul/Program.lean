import Soul.Expr

/-!
# Programs

A program is a list of items. An item imports a module or a name of a module,
defines a function, or is a bare expression. A function has a prototype, which
gives its name, its parameters and perhaps the type of its result, and one
expression for its body. A bare expression counts as a function without a name
and without parameters, and its text is that of such a function.
-/

namespace Soul

/-- A parameter of a function. -/
structure Parameter where
  /-- The name of its type. -/
  type : String
  /-- Its own name. -/
  name : String
  deriving DecidableEq, Inhabited

/-- What a function is called with and gives back. -/
structure Prototype where
  /-- The name of the function. -/
  name : String
  parameters : List Parameter
  /-- The name of the type of its result. -/
  result : Option String
  location : Option Location
  deriving DecidableEq, Inhabited

/-- The prototype on one line. -/
def Prototype.text (p : Prototype) : String :=
  p.name ++ "(" ++ ", ".intercalate (p.parameters.map fun q => q.type ++ " " ++ q.name) ++ ")" ++
    (p.result.map (" -> " ++ ·)).getD ""

/-- The definition of a function. -/
structure Definition where
  prototype : Prototype
  body : Expr
  location : Option Location
  deriving Inhabited

/-- The definition with its body on a line of its own. -/
def Definition.text (d : Definition) : String :=
  d.prototype.text ++ " \x7b\n\t" ++ d.body.text ++ "\n\x7d"

/-- A name of a module. -/
structure Member where
  name : String
  location : Option Location
  deriving DecidableEq, Inhabited

/-- The import of a module, or of one of its names. -/
structure Import where
  /-- The name of the module. -/
  module : String
  /-- The one name of the module that is imported, if not all of it is. -/
  member : Option Member
  location : Option Location
  deriving DecidableEq, Inhabited

/-- The import on one line. -/
def Import.text (i : Import) : String :=
  i.module ++ (i.member.map (":" ++ ·.name)).getD ""

/-- A statement of a program. -/
inductive Item where
  /-- An import. -/
  | use (i : Import)
  /-- The definition of a function. -/
  | define (d : Definition)
  /-- A bare expression. -/
  | evaluate (body : Expr) (location : Option Location)
  deriving Inhabited

namespace Item

/-- The function without a name and without parameters that a bare expression
    counts as. -/
def wrapped (body : Expr) (location : Option Location) : Definition :=
  ⟨⟨"", [], none, location⟩, body, location⟩

/-- The item as text. -/
def text : Item → String
  | use i => i.text
  | define d => d.text
  | evaluate body location => (wrapped body location).text

/-- The frames that it takes on the stack to make the text of what may be nested in
    the item, its body. -/
def textFrames : Item → Nat
  | use _ => 0
  | define d => d.body.textFrames
  | evaluate body _ => body.textFrames

/-- The place of the item. -/
def location : Item → Option Location
  | use i => i.location
  | define d => d.location
  | evaluate _ l => l

end Item

/-- All items of a source, in order. -/
structure Program where
  items : List Item
  location : Option Location
  deriving Inhabited

namespace Program

/-- The imports among the items. -/
def imports (p : Program) : List Import :=
  p.items.filterMap fun | .use i => some i | _ => none

/-- The definitions among the items. -/
def definitions (p : Program) : List Definition :=
  p.items.filterMap fun | .define d => some d | _ => none

/-- The bare expressions among the items. -/
def expressions (p : Program) : List Expr :=
  p.items.filterMap fun | .evaluate body _ => some body | _ => none

/-- The program as text, its items one below the other. -/
def text (p : Program) : String := "\n".intercalate (p.items.map Item.text)

end Program

end Soul
