import Soul.Tree

/-!
# Walking through free trees

A walk goes through a tree from the root down and from left to right. It notes
the nodes of the sorts it looks for, and may be told not to go below the nodes
of some sorts.
-/

namespace Soul

/-- What a walk does at a node. -/
inductive Visit where
  /-- Goes on below. -/
  | pass
  /-- Notes the node and goes on below. -/
  | enter
  /-- Notes the node and does not go below. -/
  | halt
  deriving DecidableEq, Inhabited

namespace Tree

/-- What a note says of a node besides its sort: the name it goes by, the name
    of its operator or its value, if it has one. -/
def label? : Tree → Option String
  | call callee _ _ => some callee
  | use name _ _ => some name
  | binary op _ _ _ => some op.name
  | literal _ .none _ => none
  | literal _ value _ => some value.plain
  | tree => tree.name.toOption

/-- The note of a node. -/
def label (t : Tree) : List String := t.sort :: t.label?.toList

/-- The notes of a walk from a node on, given those of the walk below it. -/
def noted (plan : String → Visit) (t : Tree) (below : List (List String)) :
    List (List String) :=
  match plan t.sort with
  | .pass => below
  | .enter => t.label :: below
  | .halt => [t.label]

mutual

/-- The notes of a walk that does at each sort of nodes what `plan` says. -/
def walk (plan : String → Visit) : Tree → List (List String)
  | binary op lhs rhs l => noted plan (binary op lhs rhs l) (lhs.walk plan ++ rhs.walk plan)
  | call callee args l => noted plan (call callee args l) (walkAll plan args)
  | declaration name isMutable initial l =>
    noted plan (declaration name isMutable initial l) (walkOption plan initial)
  | function head body l => noted plan (function head body l) (head.walk plan ++ body.walk plan)
  | use name parts l => noted plan (use name parts l) (walkAll plan parts)
  | program units l => noted plan (program units l) (walkAll plan units)
  | t => noted plan t []

/-- The notes of a walk through trees, one after the other. -/
def walkAll (plan : String → Visit) : List Tree → List (List String)
  | [] => []
  | t :: ts => t.walk plan ++ walkAll plan ts

/-- The notes of a walk through a tree that may be absent. -/
def walkOption (plan : String → Visit) : Option Tree → List (List String)
  | none => []
  | some t => t.walk plan

end

end Tree

end Soul
