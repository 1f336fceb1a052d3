import Soul.Program

/-!
# Outlines

The outline of a program shows it as a tree, a line for each node: the line
tells what the node is, and the lines of its parts follow, one level deeper. A
level is two blanks wide. Going down a level takes three frames on the stack
(`Program.outlineFrames`).
-/

namespace Soul

/-- A line of an outline. -/
structure OutlineLine where
  /-- The number of levels that the line stands in from the margin. -/
  depth : Nat
  label : String
  deriving DecidableEq, Inhabited

/-- The line as text. -/
def OutlineLine.text (l : OutlineLine) : String :=
  String.ofList (List.replicate (2 * l.depth) ' ') ++ l.label

namespace Expr

mutual

/-- The outline of an expression that stands `depth` levels in. -/
def outline (depth : Nat) : Expr → List OutlineLine
  | literal value _ => [⟨depth, "Literal (" ++ value.kind.word ++ "): " ++ value.text⟩]
  | var name _ => [⟨depth, "Variable: " ++ name⟩]
  | binary op lhs rhs _ =>
    ⟨depth, "Binary: " ++ op.spelling⟩ :: lhs.outline (depth + 1) ++ rhs.outline (depth + 1)
  | call callee args _ => ⟨depth, "Call: " ++ callee⟩ :: outlines (depth + 1) args
  | declaration name isMutable initial _ =>
    ⟨depth, "VarDecl (" ++ (if isMutable then "mutable" else "immutable") ++ "): " ++ name⟩ ::
      initialOutline (depth + 1) initial

/-- The outlines of expressions, one below the other. -/
def outlines (depth : Nat) : List Expr → List OutlineLine
  | [] => []
  | e :: es => e.outline depth ++ outlines depth es

/-- The outline of an initial value. -/
def initialOutline (depth : Nat) : Option Expr → List OutlineLine
  | none => []
  | some e => e.outline depth

end

mutual

/-- The frames that it takes on the stack to make the outline: two for a node, and
    one in which its parts are gone through. -/
def outlineFrames : Expr → Nat
  | literal _ _ | var _ _ => 2
  | binary _ lhs rhs _ => 3 + max lhs.outlineFrames rhs.outlineFrames
  | call _ args _ => 3 + argumentOutlineFrames args
  | declaration _ _ initial _ => 3 + initialOutlineFrames initial

/-- The frames for the outlines of arguments, one after the other. -/
def argumentOutlineFrames : List Expr → Nat
  | [] => 0
  | e :: es => max e.outlineFrames (argumentOutlineFrames es)

/-- The frames for the outline of an initial value. -/
def initialOutlineFrames : Option Expr → Nat
  | none => 0
  | some e => e.outlineFrames

end

end Expr

namespace Item

/-- The frames that it takes on the stack to make the outline. The outline of a
    prototype takes two. -/
def outlineFrames : Item → Nat
  | use i => 3 + if i.member.isSome then 3 else 0
  | define d => 3 + max 2 d.body.outlineFrames
  | evaluate body _ => 3 + max 2 body.outlineFrames

/-- The outline of a function under a label. -/
def functionOutline (depth : Nat) (label : String) (d : Definition) : List OutlineLine :=
  ⟨depth, "Function: " ++ label⟩ :: ⟨depth + 1, "Prototype: " ++ d.prototype.text⟩ ::
    d.body.outline (depth + 1)

/-- The outline of an item that stands `depth` levels in. -/
def outline (depth : Nat) : Item → List OutlineLine
  | use i =>
    ⟨depth, "Import: " ++ i.module⟩ ::
      (i.member.map fun m => OutlineLine.mk (depth + 1) ("Import: " ++ m.name)).toList
  | define d => functionOutline depth d.prototype.name d
  | evaluate body location => functionOutline depth "<top-level>" (wrapped body location)

end Item

namespace Program

/-- The outline of a program. -/
def outline (p : Program) : List OutlineLine :=
  ⟨0, "Program"⟩ :: p.items.flatMap (Item.outline 1)

/-- The frames that it takes on the stack to make the outline. -/
def outlineFrames (p : Program) : Nat :=
  3 + p.items.foldr (fun i frames => max i.outlineFrames frames) 0

/-- The outline of a program as text. -/
def outlineText (p : Program) : String := "\n".intercalate (p.outline.map OutlineLine.text)

end Program

end Soul
