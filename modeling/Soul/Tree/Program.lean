import Soul.Tree.Outline

/-!
# The trees of programs

The tree of a program has the text of the program (`Program.text_tree`), and the
tree of an expression the outline of the expression (`Expr.entries_tree`).
-/

namespace Soul

theorem Literal.literalText_payload (value : Literal) :
    Tree.literalText value.kind value.payload = .ok value.text := by
  cases value <;> rfl

namespace Expr

mutual

/-- The tree of an expression has the text of the expression. -/
theorem text_tree : (e : Expr) → e.tree.text = .ok e.text
  | literal value _ => value.literalText_payload
  | var .. => rfl
  | binary op lhs rhs _ => by
    rw [tree, Tree.text, text_tree lhs, text_tree rhs, text]
    rfl
  | call callee args _ => by
    rw [tree, Tree.text, texts_trees args, text]
    rfl
  | declaration name isMutable initial _ => by
    rw [tree, Tree.text, initialText_initialTree initial, text]
    rfl

theorem texts_trees : (es : List Expr) → Tree.texts (trees es) = .ok (texts es)
  | [] => rfl
  | e :: es => by
    rw [trees, Tree.texts, text_tree e, texts_trees es, texts]
    rfl

theorem initialText_initialTree :
    (initial : Option Expr) → Tree.initialText (initialTree initial) = .ok (initialText initial)
  | none => rfl
  | some e => by
    rw [initialTree, Tree.initialText, text_tree e, initialText]
    rfl

end

end Expr

theorem Prototype.prototypeText_parameters (p : Prototype) :
    Tree.prototypeText p.name (p.parameters.map (·.type)) (p.parameters.map (·.name)) p.result =
      p.text := by
  rw [Tree.prototypeText, List.zipWith_map, List.zipWith_self, Prototype.text]

/-- The tree of a definition has the text of the definition. -/
theorem Definition.text_tree (d : Definition) : d.tree.text = .ok d.text := by
  rw [Definition.tree, Tree.text, Prototype.tree, Tree.text, d.prototype.prototypeText_parameters,
    d.body.text_tree, Definition.text]
  rfl

/-- The tree of an import has the text of the import. -/
theorem Import.text_tree (i : Import) : i.tree.text = .ok i.text := by
  obtain ⟨name, member, l⟩ := i
  cases member with
  | none =>
    change Except.ok (":".intercalate [name]) = Except.ok (name ++ "")
    simp
  | some m =>
    change Except.ok (":".intercalate [name, ":".intercalate [m.name]]) =
      Except.ok (name ++ (":" ++ m.name))
    simp [String.append_assoc]

/-- The tree of an item has the text of the item. -/
theorem Item.text_tree : (i : Item) → i.tree.text = .ok i.text
  | use i => i.text_tree
  | define d => d.text_tree
  | evaluate body location => (wrapped body location).text_tree

theorem Item.texts_trees (items : List Item) :
    Tree.texts (items.map Item.tree) = .ok (items.map Item.text) := by
  induction items with
  | nil => rfl
  | cons i items ih =>
    rw [List.map_cons, Tree.texts, i.text_tree, ih, List.map_cons]
    rfl

/-- The tree of a program has the text of the program. -/
theorem Program.text_tree (p : Program) : p.tree.text = .ok p.text := by
  rw [Program.tree, Tree.text, Item.texts_trees, Program.text]
  rfl

/-- A line of an outline, as an entry of the outline of a tree. -/
def OutlineLine.entry (l : OutlineLine) : Entry := ⟨l.depth, .ok l.label⟩

namespace Expr

mutual

/-- The tree of an expression has the outline of the expression. -/
theorem entries_tree (depth : Nat) :
    (e : Expr) → e.tree.entries depth = (e.outline depth).map OutlineLine.entry
  | literal value _ => by
    rw [tree, Tree.entries, value.literalText_payload, outline]
    cases value <;> rfl
  | var .. => rfl
  | binary op lhs rhs _ => by
    rw [tree, Tree.entries, entries_tree _ lhs, entries_tree _ rhs, outline, List.map_append,
      List.map_cons]
    rfl
  | call callee args _ => by
    rw [tree, Tree.entries, entriesAll_trees _ args, outline, List.map_cons]
    rfl
  | declaration name isMutable initial _ => by
    rw [tree, Tree.entries, initialEntries_initialTree _ initial, outline, List.map_cons]
    rfl

theorem entriesAll_trees (depth : Nat) :
    (es : List Expr) → Tree.entriesAll depth (trees es) = (outlines depth es).map OutlineLine.entry
  | [] => rfl
  | e :: es => by
    rw [trees, Tree.entriesAll, entries_tree _ e, entriesAll_trees _ es, outlines, List.map_append]

theorem initialEntries_initialTree (depth : Nat) :
    (initial : Option Expr) → Tree.initialEntries depth (initialTree initial) =
      (initialOutline depth initial).map OutlineLine.entry
  | none => rfl
  | some e => by
    rw [initialTree, Tree.initialEntries, entries_tree _ e, initialOutline]

end

end Expr

end Soul
