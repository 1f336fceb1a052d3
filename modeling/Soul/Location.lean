/-!
# Positions and locations

A position is a place in a text: a line and a column, both counted from one.
Only the line feed starts a new line; every other character, a carriage return
or a tab as well, moves one column on.

A location names the file too. Its numbers are integers, since locations also
come from outside, where nothing says that they count from one.
-/

namespace Soul

/-- A place in a text. -/
structure Position where
  /-- The line, counted from one. -/
  line : Nat
  /-- The column, counted from one. -/
  column : Nat
  deriving DecidableEq, Inhabited

namespace Position

/-- The place of the first character of a text. -/
def start : Position := ⟨1, 1⟩

/-- The place behind the character `c` that stands at `p`. -/
def after (p : Position) (c : Char) : Position :=
  if c = '\n' then ⟨p.line + 1, 1⟩ else ⟨p.line, p.column + 1⟩

/-- The place behind the characters `cs`, the first of which stands at `p`. -/
def afterAll (p : Position) (cs : List Char) : Position := cs.foldl after p

@[simp] theorem afterAll_nil (p : Position) : p.afterAll [] = p := rfl

@[simp] theorem afterAll_cons (p : Position) (c : Char) (cs : List Char) :
    p.afterAll (c :: cs) = (p.after c).afterAll cs := rfl

theorem afterAll_append (p : Position) (cs ds : List Char) :
    p.afterAll (cs ++ ds) = (p.afterAll cs).afterAll ds := List.foldl_append

end Position

/-- A place in a file. -/
structure Location where
  /-- The name of the file. -/
  file : String
  /-- The line. -/
  line : Int
  /-- The column. -/
  column : Int
  deriving DecidableEq, Inhabited

namespace Location

/-- The location of a position in a file. -/
def ofPosition (file : String) (p : Position) : Location := ⟨file, p.line, p.column⟩

/-- The location as messages show it: file, line and column. -/
def text (l : Location) : String :=
  l.file ++ ":" ++ toString l.line ++ ":" ++ toString l.column

/-- A location that may be unknown, as a text of its own. -/
def textOrNone : Option Location → String
  | some l => l.text
  | none => "None"

end Location

end Soul
