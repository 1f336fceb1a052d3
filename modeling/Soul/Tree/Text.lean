import Soul.Number.Reading
import Soul.Tree

/-!
# The texts of free trees

The text of a free tree is made as that of a program is. It fails at the first
node, from left to right, that has no text: one of no sort in particular, or a
literal of the kind of real numbers whose value is no number.
-/

namespace Soul

/-- The double that the value of a literal stands for. -/
def Payload.toDouble : Payload → Except TreeError Double
  | integer n => match Double.ofInt? n with
    | some x => .ok x
    | .none => .error .tooLarge
  | real x => .ok x
  | text s => match Reading.double? s with
    | some x => .ok x
    | .none => .error (.unreadable s)
  | none => .error (.notNumeric "NoneType")
  | problem p => .error (.notNumeric p.name)

namespace Tree

/-- The text of a literal. -/
def literalText : LiteralKind → Payload → Except TreeError String
  | .integer, value => .ok value.plain
  | .real, value => value.toDouble.map Double.text
  | .string, value => .ok ("\"" ++ value.plain ++ "\"")

/-- The text of a prototype. -/
def prototypeText (name : String) (types names : List String) (result : Option String) : String :=
  name ++ "(" ++ ", ".intercalate (types.zipWith (fun t n => t ++ " " ++ n) names) ++ ")" ++
    (result.map (" -> " ++ ·)).getD ""

mutual

/-- The text of a tree. -/
def text : Tree → Except TreeError String
  | literal kind value _ => literalText kind value
  | var name _ => .ok name
  | binary op lhs rhs _ => do
    let l ← lhs.text
    let r ← rhs.text
    return "(" ++ l ++ " " ++ op.spelling ++ " " ++ r ++ ")"
  | call callee args _ => do
    return callee ++ "(" ++ " ".intercalate (← texts args) ++ ")"
  | declaration name isMutable initial _ => do
    return (if isMutable then "let mut " else "let ") ++ name ++ (← initialText initial)
  | prototype name types names result _ => .ok (prototypeText name types names result)
  | function head body _ => do
    let p ← head.text
    let b ← body.text
    return p ++ " \x7b\n\t" ++ b ++ "\n\x7d"
  | use name parts _ => do return ":".intercalate (name :: (← texts parts))
  | program units _ => do return "\n".intercalate (← texts units)
  | expression _ | node _ => .error .textless

/-- The texts of trees. -/
def texts : List Tree → Except TreeError (List String)
  | [] => .ok []
  | t :: ts => do
    let text ← t.text
    return text :: (← texts ts)

/-- The text of an initial value behind the name that it is given to. -/
def initialText : Option Tree → Except TreeError String
  | none => .ok ""
  | some t => do return " = " ++ (← t.text)

end

/-- The texts of the imports among the units of a program. -/
def importTexts (units : List Tree) : Except TreeError (List String) :=
  texts (units.filter fun | use .. => true | _ => false)

/-- The functions among the units of a program, with their names. -/
def functions : (units : List Tree) → Except TreeError (List (String × Tree))
  | [] => .ok []
  | function head body l :: units => do
    let name ← head.name
    return (name, function head body l) :: (← functions units)
  | _ :: units => functions units

/-- The names of the functions that have one. -/
def functionNames (units : List Tree) : Except TreeError (List String) := do
  return ((← functions units).map (·.1)).filter (!·.isEmpty)

/-- The texts of the functions without a name, which stand for bare
    expressions. -/
def expressionTexts (units : List Tree) : Except TreeError (List String) := do
  texts (((← functions units).filter (·.1.isEmpty)).map (·.2))

end Tree

end Soul
