import Soul.Proofs.CommentFree
import Soul.Proofs.Course

/-!
# Results of readings

What the reading of a text comes to, whatever the text is like.

* `readProgram_stop`: it breaks off for an integer with too many digits, if it gets
  as far as that, and for nothing else;
* `readProgram_wellFormed`: the statements that it gives have well-formed trees,
  each of the sort of the statement;
* `readProgram_oneLine`: each error and each warning is one line of the report.
-/

namespace Soul

/-! ## Breaking off -/

namespace Read

variable {α β : Type}

theorem exists_of_bind_eq_ok {p : Read α} {f : α → Read β} {c c' : Cursor} {b : β}
    (h : (p >>= f) c = .ok b c') : ∃ a c₁, p c = .ok a c₁ ∧ f a c₁ = .ok b c' := by
  cases hp : p c with
  | ok a c₁ => exact ⟨a, c₁, rfl, bind_of_ok hp f ▸ h⟩
  | error e c₁ =>
    rw [bind_of_error hp f] at h
    cases h

end Read

namespace Tree

/-- The tree is that of an import. -/
def isUse : Tree → Bool
  | use .. => true
  | _ => false

/-- The tree is that of a function with a name. -/
def isNamed : Tree → Bool
  | function (prototype name ..) .. => !name.isEmpty
  | _ => false

/-- The tree is that of a function without a name. -/
def isAnonymous : Tree → Bool
  | function (prototype name ..) .. => name.isEmpty
  | _ => false

/-- The body of a function. -/
def body? : Tree → Option Tree
  | function _ body _ => some body
  | _ => none

variable {T : Token → Prop}

theorem IsDefinition.isPrototype {head body : Tree} {l : Option Location}
    (h : (function head body l).IsDefinition T) : head.IsPrototype T := by
  cases h with
  | intro head => exact head

theorem IsPrototype.isName {name : String} {types names : List String} {result : Option String}
    {l : Option Location} (h : (prototype name types names result l).IsPrototype T) :
    IsName name := by
  cases h with
  | intro name => exact name

end Tree

theorem IsName.isEmpty_eq {name : String} (h : IsName name) : name.isEmpty = false := by
  obtain ⟨first, others, hn, -⟩ := h
  refine Bool.eq_false_iff.2 fun empty => ?_
  rw [String.isEmpty_iff.1 empty] at hn
  exact absurd hn.symm (List.cons_ne_nil _ _)

theorem Definition.isNamed_tree (d : Definition) :
    d.tree.isNamed = !d.prototype.name.isEmpty := rfl

theorem Definition.isAnonymous_tree (d : Definition) :
    d.tree.isAnonymous = d.prototype.name.isEmpty := rfl

namespace Item

variable {T : Token → Prop}

theorem IsWellFormed.isEmpty_name {d : Definition} (h : (define d).IsWellFormed T) :
    d.prototype.name.isEmpty = false :=
  (Tree.IsPrototype.isName (Tree.IsDefinition.isPrototype h)).isEmpty_eq

/-- The tree of a statement is of one sort and of no other. -/
theorem count_sorts (i : Item) :
    [i.tree.isUse, i.tree.isNamed, i.tree.isAnonymous].count true = 1 := by
  cases i with
  | use _ | evaluate _ _ => rfl
  | define d =>
    change [false, d.tree.isNamed, d.tree.isAnonymous].count true = 1
    rw [d.isNamed_tree, d.isAnonymous_tree]
    cases d.prototype.name.isEmpty <;> rfl

theorem IsWellFormed.isAnonymous_iff {i : Item} (h : i.IsWellFormed T) :
    i.tree.isAnonymous = true ↔ ∃ body l, i = .evaluate body l := by
  cases i with
  | use _ => simp [tree, Import.tree, Tree.isAnonymous]
  | define d =>
    change d.tree.isAnonymous = true ↔ _
    rw [d.isAnonymous_tree, h.isEmpty_name]
    simp
  | evaluate body l => exact ⟨fun _ => ⟨body, l, rfl⟩, fun _ => rfl⟩

theorem map_filterMap_eq {α : Type} {f : Item → Option α} {g : α → Tree} {k : Tree → Option Tree}
    {items : List Item} (h : ∀ i ∈ items, (f i).map g = k i.tree) :
    (items.filterMap f).map g = (items.map tree).filterMap k := by
  rw [List.map_filterMap, List.filterMap_map]
  exact List.filterMap_congr h

end Item

namespace Program

variable {T : Token → Prop} {p : Program}

theorem map_imports (p : Program) :
    p.imports.map Import.tree = (p.items.map Item.tree).filter Tree.isUse := by
  rw [← List.filterMap_eq_filter]
  refine Item.map_filterMap_eq fun i _ => ?_
  cases i <;> rfl

theorem map_definitions (h : ∀ i ∈ p.items, i.IsWellFormed T) :
    p.definitions.map Definition.tree = (p.items.map Item.tree).filter Tree.isNamed := by
  rw [← List.filterMap_eq_filter]
  refine Item.map_filterMap_eq fun i hi => ?_
  cases i with
  | use _ | evaluate _ _ => rfl
  | define d =>
    change some d.tree = Option.guard _ d.tree
    rw [Option.guard, d.isNamed_tree, (h _ hi).isEmpty_name]
    rfl

theorem map_expressions (h : ∀ i ∈ p.items, i.IsWellFormed T) :
    p.expressions.map Expr.tree =
      ((p.items.map Item.tree).filter Tree.isAnonymous).filterMap Tree.body? := by
  rw [List.filterMap_filter]
  refine Item.map_filterMap_eq fun i hi => ?_
  cases i with
  | use _ | evaluate _ _ => rfl
  | define d =>
    change none = if d.tree.isAnonymous = true then _ else _
    rw [d.isAnonymous_tree, (h _ hi).isEmpty_name]
    rfl

end Program

/-- Whatever the text, the statements that are read from it have well-formed trees,
    the nodes of which stand at tokens of the text. Imports, functions with a name and
    bare expressions are told apart by their trees. -/
theorem readProgram_wellFormed (file text : String) (skip : Bool) (nesting : Int)
    (consumer : Consumer) (journal : Journal) :
    let fetches := (Scanner.ofText file text).fetches skip
    let o := readProgram (.ofText file text) skip nesting consumer journal
    let units := o.items.map Item.tree
    (∀ t, .ok t ∈ fetches → t.IsFoundIn file text.toList) ∧
      o.program.tree = .program units (some ⟨file, 1, 1⟩) ∧
      (∀ i ∈ o.items, i.IsWellFormed (.ok · ∈ fetches) ∧
        (i.tree.isAnonymous = true ↔ ∃ body l, i = .evaluate body l)) ∧
      (∀ u ∈ units, [u.isUse, u.isNamed, u.isAnonymous].count true = 1) ∧
      o.program.imports.map Import.tree = units.filter Tree.isUse ∧
      o.program.definitions.map Definition.tree = units.filter Tree.isNamed ∧
      o.program.expressions.map Expr.tree =
        (units.filter Tree.isAnonymous).filterMap Tree.body? := by
  intro fetches o units
  have found : ∀ t, .ok t ∈ fetches → t.IsFoundIn file text.toList :=
    fun t ht => Scanner.isFoundIn_of_mem_fetches ht
  have begins := begins_readProgram (.ofText file text) skip nesting consumer journal
    ⟨.endOfInput, file, .start, true⟩
  have formed : ∀ i ∈ o.items, i.IsWellFormed (.ok · ∈ fetches) := begins.units
  have named : o.session.cursor.current.file = file := by
    rcases begins.current with blank | taken
    · exact congrArg Token.file blank
    · exact (found _ taken).file
  refine ⟨found, ?_, fun i hi => ⟨formed i hi, (formed i hi).isAnonymous_iff⟩, ?_,
    o.program.map_imports, Program.map_definitions formed, Program.map_expressions formed⟩
  · rw [← named]
    rfl
  · intro u hu
    obtain ⟨i, -, rfl⟩ := List.mem_map.1 hu
    exact i.count_sorts

/-! ## Diagnostics -/

theorem isLine_of_mem_nonempty? {text : Option String} {label s : String} (hl : IsLine label)
    (ht : ∀ s ∈ text, IsLine s) (hs : s ∈ (nonempty? text).map (label ++ ·)) : IsLine s := by
  have line := isLine_nonempty? hl ht
  rwa [Option.mem_def.1 hs] at line

theorem Token.staysOnLine_of_diagnostic? {t : Token} {d : Diagnostic} (h : t.lexeme.IsProper)
    (hd : t.diagnostic? = some d) : d.cause.StaysOnLine ∧ d.location = some t.location := by
  unfold diagnostic? at hd
  split at hd
  · next cause invalid =>
    cases hd
    rw [invalid] at h
    exact ⟨h, rfl⟩
  · cases hd

theorem Explains.staysOnLine {limit : Int} {t : Token} {d : Diagnostic} (h : t.lexeme.IsProper)
    (hd : Explains limit t (.violation d)) :
    d.cause.StaysOnLine ∧ d.location = some t.location := by
  have description : ∀ s ∈ some t.description, IsLine s := by
    rintro _ ⟨⟩
    exact h.isLine_description
  cases hd with
  | missing expected context =>
    refine ⟨⟨?_, fun s => isLine_of_mem_nonempty? (by decide) description⟩, rfl⟩
    refine IsLine.append (IsLine.append (by decide) expected) (isLine_nonempty? (by decide) ?_)
    rintro _ ⟨⟩
    exact context
  | unexpected =>
    refine ⟨⟨IsLine.append (by decide) h.isLine_description, ?_⟩, rfl⟩
    rintro _ ⟨⟩
    decide
  | tooDeep =>
    refine ⟨⟨(by decide : IsLine "expression nested too deeply"), ?_⟩, rfl⟩
    rintro _ ⟨⟩
    exact (IsLine.append (by decide) (isLine_int limit)).append (by decide)

/-- A diagnostic that is explained by a token of a text is one line. -/
theorem Diagnostic.IsExplained.isLine_text {limit : Int} {T : Token → Prop} {d : Diagnostic}
    {file : String} {chars : List Char} (h : d.IsExplained limit T)
    (found : ∀ t, T t → t.IsFoundIn file chars) (line : IsLine file) : IsLine d.text := by
  obtain ⟨t, ht, explained⟩ := h
  have proper := (found t ht).isProper
  obtain ⟨cause, place⟩ := explained.elim (Token.staysOnLine_of_diagnostic? proper)
    (Explains.staysOnLine proper)
  refine cause.isLine_text ?_
  rw [place]
  rintro _ ⟨⟩
  change IsLine t.file
  rwa [(found t ht).file]

theorem isLine_fullWarning (n : Nat) : IsLine (fullWarning n) :=
  isLine_line (by decide) ((IsLine.append (by decide) (isLine_nat n)).append (by decide)) nofun

namespace Diagnostics

theorem isLine_counted (n : Nat) {word : String} (h : IsLine word) : IsLine (counted n word) := by
  refine ((isLine_nat n).append (by decide)).append ?_
  split
  · exact h
  · exact h.append (by decide)

theorem isLine_summary (m n : Nat) : IsLine (summary m n) :=
  ((isLine_counted m (by decide)).append (by decide)).append (isLine_counted n (by decide))

/-- A report of errors and warnings that are one line each has these lines, and the
    summary behind them. -/
theorem splitOn_report {ds : Diagnostics} (errors : ∀ d ∈ ds.errors, IsLine d.text)
    (warnings : ∀ w ∈ ds.warnings, IsLine w) :
    ds.report.toList.splitOn '\n' = (ds.messages ++ ds.warnings ++
      [summary ds.errors.length ds.warnings.length]).map String.toList := by
  rw [report, reportText, String.toList_intercalate, messages, List.length_map]
  refine List.splitOn_intercalate '\n' ?_ (by simp)
  simp only [List.mem_map, List.mem_append, List.mem_singleton]
  rintro _ ⟨s, (⟨d, hd, rfl⟩ | hs) | rfl, rfl⟩ newline
  · exact absurd (errors d hd _ newline) (by decide)
  · exact absurd (warnings s hs _ newline) (by decide)
  · exact absurd (isLine_summary _ _ _ newline) (by decide)

end Diagnostics

/-- Whatever the text, each error and each warning of a reading is one line, if the
    name of the file is. So the lines of the report are the errors, the warnings and
    the summary. -/
theorem readProgram_oneLine (file text : String) (skip : Bool) (nesting limit : Int)
    (consumer : Consumer) (events : List Event) (line : IsLine file) :
    let o := readProgram (.ofText file text) skip nesting consumer ⟨.empty limit, events⟩
    let found := o.session.journal.diagnostics
    let lines := found.report.toList.splitOn '\n'
    (∀ d ∈ found.errors, IsLine d.text) ∧ (∀ w ∈ found.warnings, IsLine w) ∧
      lines.length = found.errors.length + found.warnings.length + 1 ∧
      lines.take found.errors.length = found.messages.map String.toList ∧
      lines = (found.messages ++ found.warnings ++
        [Diagnostics.summary found.errors.length found.warnings.length]).map String.toList := by
  intro o found lines
  have begins := begins_readProgram (.ofText file text) skip nesting consumer ⟨.empty limit, events⟩
    ⟨.endOfInput, file, .start, true⟩
  have errors : ∀ d ∈ found.errors, IsLine d.text := fun d hd =>
    (begins.errors rfl d hd).isLine_text (fun t ht => Scanner.isFoundIn_of_mem_fetches ht) line
  have warnings : ∀ w ∈ found.warnings, IsLine w := by
    intro w hw
    obtain ⟨n, rfl⟩ := begins.warnings rfl w hw
    exact isLine_fullWarning n
  have split := Diagnostics.splitOn_report errors warnings
  have count : found.messages.length = found.errors.length := List.length_map _
  refine ⟨errors, warnings, ?_, ?_, split⟩
  · rw [show lines = _ from split]
    simp [count, Nat.add_assoc]
  · rw [show lines = _ from split, List.append_assoc, List.map_append]
    exact List.take_left' ((List.length_map _).trans count)

/-- Two strings where the name of a module should be. The second one is shown in its
    error, and then there are too many errors. -/
theorem readProgram_oneLine_strings :
    let o := readProgram (.ofText "main" "$\"a\n$\"b\"") false 100 .all ⟨.empty 2, []⟩
    let lines := o.session.journal.diagnostics.report.toList.splitOn '\n'
    IsLine "main" ∧ o.errors.length = 2 ∧ o.session.journal.diagnostics.warnings.length = 1 ∧
      lines.length = 4 ∧ ∀ d ∈ o.errors, IsLine d.text := by
  have line : IsLine "main" := by decide
  have lines := readProgram_oneLine "main" "$\"a\n$\"b\"" false 100 2 .all [] line
  have counts :
      let o := readProgram (.ofText "main" "$\"a\n$\"b\"") false 100 .all ⟨.empty 2, []⟩
      o.errors.length = 2 ∧ o.session.journal.diagnostics.warnings.length = 1 := by
    decide +kernel
  -- From here on, only the numbers of lines matter; the reading is not run again.
  generalize readProgram (.ofText "main" "$\"a\n$\"b\"") false 100 .all ⟨.empty 2, []⟩ = o
    at lines counts ⊢
  obtain ⟨errors, -, count, -⟩ := lines
  obtain ⟨two, one⟩ := counts
  exact ⟨line, two, one, count.trans (congrArg (· + 1) (congrArg₂ (· + ·) two one)), errors⟩

end Soul
