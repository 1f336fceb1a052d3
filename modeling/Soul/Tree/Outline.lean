import Soul.Outline
import Soul.Tree.Text

/-!
# The outlines of free trees

The outline of a free tree is made as that of a program is; a node of no sort
in particular has no line. Where the label of a node cannot be made, the
outline ends, and the printer stays as many levels in as that node is
(`Printer.indent`). The next outline starts from there, unless the printer is
cleared first.
-/

namespace Soul

/-- A line of the outline of a free tree, or the trouble in its place. -/
structure Entry where
  /-- The number of levels that the line stands in from the margin. -/
  depth : Nat
  label : Except TreeError String

namespace Tree

/-- The label of a function. -/
def functionLabel (head : Tree) : Except TreeError String := do
  let name ← head.name
  return "Function: " ++ if name.isEmpty then "<top-level>" else name

mutual

/-- The outline of a tree that stands `depth` levels in. -/
def entries (depth : Nat) : Tree → List Entry
  | literal kind value _ =>
    [⟨depth, (literalText kind value).map (("Literal (" ++ kind.word ++ "): ") ++ ·)⟩]
  | var name _ => [⟨depth, .ok ("Variable: " ++ name)⟩]
  | binary op lhs rhs _ =>
    ⟨depth, .ok ("Binary: " ++ op.spelling)⟩ ::
      lhs.entries (depth + 1) ++ rhs.entries (depth + 1)
  | call callee args _ => ⟨depth, .ok ("Call: " ++ callee)⟩ :: entriesAll (depth + 1) args
  | declaration name isMutable initial _ =>
    let mode := if isMutable then "mutable" else "immutable"
    ⟨depth, .ok ("VarDecl (" ++ mode ++ "): " ++ name)⟩ :: initialEntries (depth + 1) initial
  | prototype name types names result _ =>
    [⟨depth, .ok ("Prototype: " ++ prototypeText name types names result)⟩]
  | function head body _ =>
    ⟨depth, functionLabel head⟩ :: head.entries (depth + 1) ++ body.entries (depth + 1)
  | use name parts _ => ⟨depth, .ok ("Import: " ++ name)⟩ :: entriesAll (depth + 1) parts
  | program units _ => ⟨depth, .ok "Program"⟩ :: entriesAll (depth + 1) units
  | expression _ | node _ => []

/-- The outlines of trees, one below the other. -/
def entriesAll (depth : Nat) : List Tree → List Entry
  | [] => []
  | t :: ts => t.entries depth ++ entriesAll depth ts

/-- The outline of an initial value. -/
def initialEntries (depth : Nat) : Option Tree → List Entry
  | none => []
  | some t => t.entries depth

end

end Tree

/-- What has been printed, and how many levels in the printer is. -/
structure Printer where
  output : List String
  indent : Nat
  deriving DecidableEq, Inhabited

namespace Printer

/-- Nothing printed, at the margin. -/
def empty : Printer := ⟨[], 0⟩

/-- Prints lines up to the first that cannot be made. -/
def printEntries (p : Printer) : List Entry → Except TreeError Unit × Printer
  | [] => (.ok (), p)
  | ⟨depth, .error e⟩ :: _ => (.error e, { p with indent := depth })
  | ⟨depth, .ok label⟩ :: rest =>
    { p with output := p.output ++ [(OutlineLine.mk depth label).text] }.printEntries rest

/-- Prints the outline of a tree below what has been printed. -/
def visit (p : Printer) (tree : Tree) : Except TreeError Unit × Printer :=
  p.printEntries (tree.entries p.indent)

/-- Prints the outline of a tree on its own. -/
def print (tree : Tree) : Except TreeError Unit × Printer := empty.visit tree

/-- What has been printed, as one text. -/
def text (p : Printer) : String := "\n".intercalate p.output

end Printer

end Soul
