import Soul.Proofs.Onward
import Soul.Proofs.ReadBack
import Soul.Proofs.Result
import Soul.Tree.Program

/-!
# Outlines that tell programs apart

Two programs that are read from texts have the same outline just if they are the same but for
the places of their nodes (`readProgram_outlineText_iff`).

The text of an outline has its lines, since no label breaks its line, and a line has its depth
and its label, since no label begins with a blank. The label of a node tells what the node is,
and the lines below it that are deeper are those of its parts, one after the other. So the lines
can be followed through both outlines at once, whatever stands behind them: the parts of a node
end where a line is no deeper than the node (`Shallow`).

For the real constants this needs that different numbers have different texts, as the numbers
have that are read from a source (`Expr.IsRounded`).
-/

namespace Soul

theorem MaximalRun.append_inj {p : Char → Bool} {x x' rest rest' : List Char}
    (h : MaximalRun p x rest) (h' : MaximalRun p x' rest') (heq : x ++ rest = x' ++ rest') :
    x = x' ∧ rest = rest' := by
  refine ⟨?_, ?_⟩
  · rw [← h.takeWhile_eq, heq, h'.takeWhile_eq]
  · rw [← h.dropWhile_eq, heq, h'.dropWhile_eq]

/-! ## Labels -/

namespace Double

theorem IsRounded.equal_iff {x y : Double} (hx : x.IsRounded false) (hy : y.IsRounded false) :
    x.equal y = true ↔ x = y := by
  cases hx with
  | @finite s k h =>
    cases hy with
    | @finite s' k' h' =>
      rcases s with _ | s <;> rcases s' with _ | s'
      · simp [equal, h.scale_eq_zero, h'.scale_eq_zero]
      · simp [equal]
      · simp [equal]
      · simp [equal]
    | infinity => simp [equal]
  | infinity =>
    cases hy with
    | finite h' => simp [equal]
    | infinity => simp [equal]

end Double

/-- The words for the kinds begin with different letters. -/
theorem LiteralKind.eq_of_word_append {kind kind' : LiteralKind} {s s' : String}
    (h : kind.word ++ s = kind'.word ++ s') : kind = kind' := by
  cases kind <;> cases kind' <;> first | rfl | simp [word, ← String.toList_inj] at h

namespace Literal

/-- If the constant is a real number, it is one that a ratio is rounded to. -/
def IsRounded (value : Literal) : Prop := ∀ x, value = .real x → x.IsRounded false

variable {value value' : Literal}

theorem payload_equal_iff (h : value.IsRounded) (h' : value'.IsRounded) :
    value.payload.equal value'.payload = true ∧ value.kind = value'.kind ↔ value = value' := by
  cases value with
  | integer n =>
    cases value' with
    | integer n' => simp [payload, Payload.equal, kind]
    | _ => simp [kind]
  | real x =>
    cases value' with
    | real x' => simp [payload, Payload.equal, kind, (h x rfl).equal_iff (h' x' rfl)]
    | _ => simp [kind]
  | string body =>
    cases value' with
    | string body' => simp [payload, Payload.equal, kind]
    | _ => simp [kind]

theorem text_injective (h : value.IsRounded) (h' : value'.IsRounded)
    (heq : value.text = value'.text) (same : value.kind = value'.kind) : value = value' := by
  cases value with
  | integer n =>
    cases value' with
    | integer n' =>
      rw [text, text, Nat.toString_eq_ofList_toDigits, Nat.toString_eq_ofList_toDigits] at heq
      rw [← natOfDigits_toDigits n, String.ofList_injective heq, natOfDigits_toDigits]
    | _ => cases same
  | real x =>
    cases value' with
    | real x' => exact congrArg real (Double.text_injective (h x rfl) (h' x' rfl) heq)
    | _ => cases same
  | string body =>
    cases value' with
    | string body' =>
      simpa [text] using heq
    | _ => cases same

end Literal

theorem Operator.spelling_injective {op op' : Operator} (h : op.spelling = op'.spelling) :
    op = op' := by
  have found : ∀ op : Operator, all.find? (·.chars == op.chars) = some op := by
    intro op
    cases op <;> rfl
  have chars : op.chars = op'.chars := String.ofList_injective h
  exact Option.some.inj (by rw [← found op, chars, found op'])

namespace Expr

/-- The expressions whose outlines are below the line of an expression. -/
def parts : Expr → List Expr
  | literal _ _ | var _ _ => []
  | binary _ lhs rhs _ => [lhs, rhs]
  | call _ args _ => args
  | declaration _ _ initial _ => initial.toList

/-- The label of an expression. -/
def label : Expr → String
  | literal value _ => "Literal (" ++ value.kind.word ++ "): " ++ value.text
  | var name _ => "Variable: " ++ name
  | binary op _ _ _ => "Binary: " ++ op.spelling
  | call callee _ _ => "Call: " ++ callee
  | declaration name isMutable _ _ =>
    "VarDecl (" ++ (if isMutable then "mutable" else "immutable") ++ "): " ++ name

/-- The outline of an expression is its line and the outlines of its parts. -/
theorem outline_eq (depth : Nat) (e : Expr) :
    e.outline depth = ⟨depth, e.label⟩ :: outlines (depth + 1) e.parts := by
  cases e with
  | literal value l => rw [outline, label, parts, outlines]
  | var name l => rw [outline, label, parts, outlines]
  | binary op lhs rhs l =>
    rw [outline, label, parts, outlines, outlines, outlines, List.append_nil, List.cons_append]
  | call callee args l => rw [outline, label, parts]
  | declaration name isMutable initial l =>
    rw [outline, label, parts]
    cases initial with
    | none => rw [initialOutline, Option.toList, outlines]
    | some e => rw [initialOutline, Option.toList, outlines, outlines, List.append_nil]

/-- The first characters of a label, which tell what the expression is. -/
def heading : Expr → List Char
  | literal _ _ => ['L', 'i', 't', 'e']
  | var _ _ => ['V', 'a', 'r', 'i']
  | binary _ _ _ _ => ['B', 'i', 'n', 'a']
  | call _ _ _ => ['C', 'a', 'l', 'l']
  | declaration _ _ _ _ => ['V', 'a', 'r', 'D']

theorem take_label (e : Expr) : e.label.toList.take 4 = e.heading := by
  cases e <;> simp only [label, String.toList_append] <;> rfl

theorem heading_eq {e e' : Expr} (h : e.label = e'.label) : e.heading = e'.heading := by
  rw [← take_label, h, take_label]

/-- All real constants in the expression are such that a ratio is rounded to. -/
inductive IsRounded : Expr → Prop
  | intro {e : Expr} : (∀ value l, e = .literal value l → value.IsRounded) →
      (∀ p ∈ e.parts, p.IsRounded) → e.IsRounded

theorem IsRounded.literal {value : Literal} {l : Option Location}
    (h : (Expr.literal value l).IsRounded) : value.IsRounded := by
  cases h with
  | intro values _ => exact values value l rfl

theorem IsRounded.parts {e : Expr} (h : e.IsRounded) : ∀ p ∈ e.parts, p.IsRounded := by
  cases h with
  | intro _ parts => exact parts

theorem literal_label_iff {value value' : Literal} {l l' : Option Location} (h : value.IsRounded)
    (h' : value'.IsRounded) :
    (literal value l).label = (literal value' l').label ↔ value = value' := by
  refine ⟨fun heq => ?_, fun heq => heq ▸ rfl⟩
  have kind : value.kind = value'.kind := by
    rw [label, label, String.append_assoc, String.append_assoc, String.append_assoc,
      String.append_assoc, String.append_right_inj] at heq
    exact LiteralKind.eq_of_word_append heq
  refine Literal.text_injective h h' ?_ kind
  rwa [label, label, kind, String.append_right_inj] at heq

theorem declaration_label_iff {name name' : String} {isMutable isMutable' : Bool}
    {initial initial' : Option Expr} {l l' : Option Location} :
    (declaration name isMutable initial l).label =
      (declaration name' isMutable' initial' l').label ↔
        name = name' ∧ isMutable = isMutable' := by
  refine ⟨fun heq => ?_, ?_⟩
  · cases isMutable <;> cases isMutable' <;>
      simp [label, ← String.toList_inj] at heq ⊢ <;> exact heq
  · rintro ⟨rfl, rfl⟩
    rfl

/-- Expressions are the same just if their labels are and their parts. -/
theorem equal_iff {e e' : Expr} (h : e.IsRounded) (h' : e'.IsRounded) :
    e.tree.equal e'.tree = true ↔
      e.label = e'.label ∧ Tree.equalAll (trees e.parts) (trees e'.parts) = true := by
  -- Expressions of different kinds have neither the same tree nor the same label.
  have apart : e.heading ≠ e'.heading → ¬(e.label = e'.label ∧
      Tree.equalAll (trees e.parts) (trees e'.parts) = true) := fun hne both =>
    hne (heading_eq both.1)
  cases e with
  | literal value l =>
    cases e' with
    | literal value' l' =>
      rw [literal_label_iff h.literal h'.literal, ← Literal.payload_equal_iff h.literal h'.literal]
      simp [tree, Tree.equal, parts, trees, Tree.equalAll, and_comm]
    | _ => exact iff_of_false (by simp [tree, Tree.equal]) (apart (by simp [heading]))
  | var name l =>
    cases e' with
    | var name' l' => simp [tree, Tree.equal, label, parts, trees, Tree.equalAll]
    | _ => exact iff_of_false (by simp [tree, Tree.equal]) (apart (by simp [heading]))
  | binary op lhs rhs l =>
    cases e' with
    | binary op' lhs' rhs' l' =>
      have spelling : op.spelling = op'.spelling ↔ op = op' :=
        ⟨Operator.spelling_injective, fun h => h ▸ rfl⟩
      simp [tree, Tree.equal, label, parts, trees, Tree.equalAll, spelling, and_assoc]
    | _ => exact iff_of_false (by simp [tree, Tree.equal]) (apart (by simp [heading]))
  | call callee args l =>
    cases e' with
    | call callee' args' l' => simp [tree, Tree.equal, label, parts]
    | _ => exact iff_of_false (by simp [tree, Tree.equal]) (apart (by simp [heading]))
  | declaration name isMutable initial l =>
    cases e' with
    | declaration name' isMutable' initial' l' =>
      rw [declaration_label_iff]
      cases initial <;> cases initial' <;>
        simp [tree, Tree.equal, parts, trees, initialTree, Tree.equalOption, Tree.equalAll]
    | _ => exact iff_of_false (by simp [tree, Tree.equal]) (apart (by simp [heading]))

end Expr

/-! ## Lines -/

/-- The lines begin with one that is less deep than `depth`, if there are any. -/
def Shallow (depth : Nat) (lines : List OutlineLine) : Prop :=
  ∀ line ∈ lines.head?, line.depth < depth

theorem Shallow.mono {depth depth' : Nat} {lines : List OutlineLine} (h : Shallow depth lines)
    (hle : depth ≤ depth') : Shallow depth' lines :=
  fun line hline => (h line hline).trans_le hle

theorem shallow_cons {depth : Nat} (label : String) (lines : List OutlineLine) :
    Shallow (depth + 1) (⟨depth, label⟩ :: lines) := by
  rintro _ ⟨⟩
  exact Nat.lt_succ_self depth

theorem Shallow.ne_cons {depth : Nat} {label : String} {lines lines' : List OutlineLine}
    (h : Shallow depth lines) : lines ≠ ⟨depth, label⟩ :: lines' := by
  rintro rfl
  exact Nat.lt_irrefl _ (h _ rfl)

namespace Expr

theorem shallow_outlines (depth : Nat) (es : List Expr) {lines : List OutlineLine}
    (h : Shallow depth lines) : Shallow (depth + 1) (outlines depth es ++ lines) := by
  cases es with
  | nil => exact h.mono (Nat.le_succ depth)
  | cons e es =>
    rw [outlines, outline_eq]
    exact shallow_cons _ _

/-- The outline of the expression can be told from that of another one, and so can what stands
    behind it. -/
def IsTold (e : Expr) : Prop :=
  ∀ {e' : Expr} {depth : Nat} {lines lines' : List OutlineLine}, e'.IsRounded →
    Shallow (depth + 1) lines → Shallow (depth + 1) lines' →
    (e.outline depth ++ lines = e'.outline depth ++ lines' ↔
      e.tree.equal e'.tree = true ∧ lines = lines')

theorem outlines_append_iff {es es' : List Expr} (h : ∀ e ∈ es, e.IsTold)
    (h' : ∀ e ∈ es', e.IsRounded) {depth : Nat} {lines lines' : List OutlineLine}
    (hl : Shallow depth lines) (hl' : Shallow depth lines') :
    outlines depth es ++ lines = outlines depth es' ++ lines' ↔
      Tree.equalAll (trees es) (trees es') = true ∧ lines = lines' := by
  induction es generalizing es' with
  | nil =>
    cases es' with
    | nil => simp [outlines, trees, Tree.equalAll]
    | cons e' es' =>
      -- The outline that is at its end goes on with a line that is not deep enough.
      refine iff_of_false ?_ (by simp [trees, Tree.equalAll])
      rw [outlines, outlines, outline_eq]
      exact hl.ne_cons
  | cons e es ih =>
    cases es' with
    | nil =>
      refine iff_of_false ?_ (by simp [trees, Tree.equalAll])
      rw [outlines, outlines, outline_eq]
      exact hl'.ne_cons.symm
    | cons e' es' =>
      obtain ⟨told, h⟩ := List.forall_mem_cons.1 h
      obtain ⟨rounded, h'⟩ := List.forall_mem_cons.1 h'
      rw [outlines, outlines, List.append_assoc, List.append_assoc,
        told rounded (shallow_outlines depth es hl) (shallow_outlines depth es' hl'), ih h h']
      simp [trees, Tree.equalAll, and_assoc]

theorem IsRounded.isTold {e : Expr} (h : e.IsRounded) : e.IsTold := by
  induction h with
  | @intro e values parts ih =>
    intro e' depth lines lines' h' hl hl'
    rw [outline_eq, outline_eq, List.cons_append, List.cons_append, List.cons.injEq,
      OutlineLine.mk.injEq, outlines_append_iff ih h'.parts hl hl',
      equal_iff (.intro values parts) h']
    simp only [true_and, and_assoc]

end Expr

/-! ## Prototypes -/

/-- All characters of the text are letters or digits. -/
def IsWord (s : String) : Prop := ∀ c ∈ s.toList, c.isAlphanum = true

theorem IsName.isWord {name : String} (h : IsName name) : IsWord name := by
  obtain ⟨first, others, hn, hf, ho⟩ := h
  rw [IsWord, hn]
  exact List.forall_mem_cons.2 ⟨isAlphanum_of_isLower hf, ho⟩

theorem IsTypeName.isWord {name : String} (h : IsTypeName name) : IsWord name := by
  obtain ⟨first, others, hn, hf, ho⟩ := h
  rw [IsWord, hn]
  exact List.forall_mem_cons.2 ⟨isAlphanum_of_isUpper hf, ho⟩

/-- A word ends where a character is no letter and no digit. -/
theorem IsWord.append_inj {s s' : String} {c c' : Char} {rest rest' : List Char} (h : IsWord s)
    (h' : IsWord s') (hc : c.isAlphanum = false) (hc' : c'.isAlphanum = false)
    (heq : s.toList ++ c :: rest = s'.toList ++ c' :: rest') :
    s = s' ∧ c :: rest = c' :: rest' := by
  have run : ∀ {s : String} {c : Char} {rest : List Char}, IsWord s → c.isAlphanum = false →
      MaximalRun Char.isAlphanum s.toList (c :: rest) := by
    refine fun h hc => ⟨h, ?_⟩
    rintro _ ⟨⟩
    exact hc
  obtain ⟨same, rest⟩ := (run h hc).append_inj (run h' hc') heq
  exact ⟨String.toList_inj.1 same, rest⟩

/-- The type and the name of the parameter are words. -/
structure Parameter.IsProper (q : Parameter) : Prop where
  type : IsWord q.type
  name : IsWord q.name

/-- The name of the function and the types and names of its parameters and its result are
    words. -/
structure Prototype.IsProper (p : Prototype) : Prop where
  name : IsWord p.name
  parameters : ∀ q ∈ p.parameters, q.IsProper
  result : ∀ type ∈ p.result, IsWord type

namespace Parameter

/-- The characters of a parameter in the text of a prototype. -/
def chars (q : Parameter) : List Char := q.type.toList ++ ' ' :: q.name.toList

theorem chars_append_inj {q q' : Parameter} {c c' : Char} {rest rest' : List Char}
    (h : q.IsProper) (h' : q'.IsProper) (hc : c.isAlphanum = false) (hc' : c'.isAlphanum = false)
    (heq : q.chars ++ c :: rest = q'.chars ++ c' :: rest') :
    q = q' ∧ c :: rest = c' :: rest' := by
  rw [chars, chars, List.append_assoc, List.append_assoc] at heq
  obtain ⟨type, heq⟩ := h.type.append_inj h'.type rfl rfl heq
  obtain ⟨name, heq⟩ := h.name.append_inj h'.name hc hc' (List.cons.inj heq).2
  exact ⟨by cases q; cases q'; simp_all, heq⟩

/-- The characters of parameters behind the first one. -/
def charsBehind (qs : List Parameter) : List Char := qs.flatMap fun q => ',' :: ' ' :: q.chars

theorem chars_intercalate (q : Parameter) (qs : List Parameter) :
    (", ".intercalate ((q :: qs).map fun q => q.type ++ " " ++ q.name)).toList =
      q.chars ++ charsBehind qs := by
  induction qs generalizing q with
  | nil => simp [charsBehind, chars]
  | cons q' qs ih =>
    rw [List.map_cons, List.map_cons, String.intercalate_cons_cons, String.toList_append]
    refine (congrArg _ (ih q')).trans ?_
    simp [charsBehind, chars]

/-- What follows a parameter. -/
theorem exists_charsBehind (qs : List Parameter) (rest : List Char) :
    ∃ c rest', charsBehind qs ++ ')' :: rest = c :: rest' ∧ c.isAlphanum = false := by
  cases qs with
  | nil => exact ⟨_, _, rfl, rfl⟩
  | cons q qs => exact ⟨_, _, rfl, rfl⟩

/-- A parameter ends where the next one begins or the parenthesis is closed. -/
theorem chars_charsBehind_inj {q q' : Parameter} {qs qs' : List Parameter}
    {rest rest' : List Char} (h : q.IsProper) (h' : q'.IsProper)
    (heq : q.chars ++ (charsBehind qs ++ ')' :: rest) =
      q'.chars ++ (charsBehind qs' ++ ')' :: rest')) :
    q = q' ∧ charsBehind qs ++ ')' :: rest = charsBehind qs' ++ ')' :: rest' := by
  obtain ⟨c, behind, hbehind, hc⟩ := exists_charsBehind qs rest
  obtain ⟨c', behind', hbehind', hc'⟩ := exists_charsBehind qs' rest'
  rw [hbehind, hbehind'] at heq ⊢
  exact chars_append_inj h h' hc hc' heq

theorem charsBehind_append_inj {qs qs' : List Parameter} {rest rest' : List Char}
    (h : ∀ q ∈ qs, q.IsProper) (h' : ∀ q ∈ qs', q.IsProper)
    (heq : charsBehind qs ++ ')' :: rest = charsBehind qs' ++ ')' :: rest') :
    qs = qs' ∧ rest = rest' := by
  induction qs generalizing qs' with
  | nil =>
    cases qs' with
    | nil => exact ⟨rfl, (List.cons.inj heq).2⟩
    | cons q' qs' => exact absurd (List.cons.inj heq).1 (by decide)
  | cons q qs ih =>
    cases qs' with
    | nil => exact absurd (List.cons.inj heq).1 (by decide)
    | cons q' qs' =>
      obtain ⟨hq, hqs⟩ := List.forall_mem_cons.1 h
      obtain ⟨hq', hqs'⟩ := List.forall_mem_cons.1 h'
      have heq' : q.chars ++ (charsBehind qs ++ ')' :: rest) =
          q'.chars ++ (charsBehind qs' ++ ')' :: rest') := by
        simpa [charsBehind] using heq
      obtain ⟨rfl, behind⟩ := chars_charsBehind_inj hq hq' heq'
      obtain ⟨rfl, rfl⟩ := ih hqs hqs' behind
      exact ⟨rfl, rfl⟩

/-- The parameters between the parentheses can be told, and so can what stands behind them. -/
theorem intercalate_append_inj {qs qs' : List Parameter} {rest rest' : List Char}
    (h : ∀ q ∈ qs, q.IsProper) (h' : ∀ q ∈ qs', q.IsProper)
    (heq : (", ".intercalate (qs.map fun q => q.type ++ " " ++ q.name)).toList ++ ')' :: rest =
      (", ".intercalate (qs'.map fun q => q.type ++ " " ++ q.name)).toList ++ ')' :: rest') :
    qs = qs' ∧ rest = rest' := by
  -- A parameter begins with a letter or a blank, and not with a parenthesis.
  have nonempty : ∀ {q : Parameter} {rest behind : List Char}, q.IsProper →
      ')' :: rest ≠ q.chars ++ behind := by
    intro q rest behind hq heq
    rw [chars, List.append_assoc] at heq
    have close : ([] : List Char) ++ ')' :: rest =
        q.type.toList ++ ' ' :: (q.name.toList ++ behind) := heq
    obtain ⟨-, same⟩ := IsWord.append_inj (s := "") nofun hq.type rfl rfl close
    exact absurd (List.cons.inj same).1 (by decide)
  cases qs with
  | nil =>
    cases qs' with
    | nil => exact ⟨rfl, (List.cons.inj heq).2⟩
    | cons q' qs' =>
      rw [chars_intercalate, List.append_assoc] at heq
      exact absurd heq (nonempty (h' q' List.mem_cons_self))
  | cons q qs =>
    rw [chars_intercalate, List.append_assoc] at heq
    cases qs' with
    | nil => exact absurd heq.symm (nonempty (h q List.mem_cons_self))
    | cons q' qs' =>
      rw [chars_intercalate, List.append_assoc] at heq
      obtain ⟨hq, hqs⟩ := List.forall_mem_cons.1 h
      obtain ⟨hq', hqs'⟩ := List.forall_mem_cons.1 h'
      obtain ⟨rfl, behind⟩ := chars_charsBehind_inj hq hq' heq
      obtain ⟨rfl, rfl⟩ := charsBehind_append_inj hqs hqs' behind
      exact ⟨rfl, rfl⟩

end Parameter

namespace Prototype

variable {p p' : Prototype}

theorem toList_text (p : Prototype) : p.text.toList = p.name.toList ++ '(' ::
    ((", ".intercalate (p.parameters.map fun q => q.type ++ " " ++ q.name)).toList ++
      ')' :: ((p.result.map (" -> " ++ ·)).getD "").toList) := by
  simp [text]

theorem result_inj {result result' : Option String}
    (h : (result.map (" -> " ++ ·)).getD "" = (result'.map (" -> " ++ ·)).getD "") :
    result = result' := by
  cases result with
  | none =>
    cases result' with
    | none => rfl
    | some type' => simp [← String.toList_inj] at h
  | some type =>
    cases result' with
    | none => simp [← String.toList_inj] at h
    | some type' => simpa using h

theorem text_inj (h : p.IsProper) (h' : p'.IsProper) (heq : p.text = p'.text) :
    p.name = p'.name ∧ p.parameters = p'.parameters ∧ p.result = p'.result := by
  rw [← String.toList_inj, toList_text, toList_text] at heq
  obtain ⟨name, heq⟩ := h.name.append_inj h'.name rfl rfl heq
  obtain ⟨parameters, heq⟩ :=
    Parameter.intercalate_append_inj h.parameters h'.parameters (List.cons.inj heq).2
  exact ⟨name, parameters, result_inj (String.toList_inj.1 heq)⟩

/-- Prototypes are the same just if their texts are. -/
theorem equal_iff (h : p.IsProper) (h' : p'.IsProper) :
    p.tree.equal p'.tree = true ↔ p.text = p'.text := by
  simp only [tree, Tree.equal, Bool.and_eq_true, beq_iff_eq]
  constructor
  · rintro ⟨⟨⟨name, types⟩, names⟩, result⟩
    rw [← prototypeText_parameters, ← prototypeText_parameters, name, types, names, result]
  · intro heq
    obtain ⟨name, parameters, result⟩ := text_inj h h' heq
    simp only [name, parameters, result, and_self]

end Prototype

/-! ## Statements -/

namespace Definition

/-- What is told of a function in the first line of its outline. -/
def label (d : Definition) : String :=
  if d.prototype.name.isEmpty then "<top-level>" else d.prototype.name

/-- The outline of the function can be told from that of another one. -/
structure IsProper (d : Definition) : Prop where
  prototype : d.prototype.IsProper
  body : d.body.IsRounded

variable {d d' : Definition}

theorem outline_append_iff (h : d.IsProper) (h' : d'.IsProper) {depth : Nat}
    {lines lines' : List OutlineLine} (hl : Shallow (depth + 1) lines)
    (hl' : Shallow (depth + 1) lines') :
    Item.functionOutline depth d.label d ++ lines =
      Item.functionOutline depth d'.label d' ++ lines' ↔
        d.tree.equal d'.tree = true ∧ lines = lines' := by
  have body := h.body.isTold h'.body (hl.mono (Nat.le_succ _)) (hl'.mono (Nat.le_succ _))
  have prototype := Prototype.equal_iff h.prototype h'.prototype
  have label : d.prototype.text = d'.prototype.text → d.label = d'.label := by
    intro heq
    rw [label, label, (Prototype.text_inj h.prototype h'.prototype heq).1]
  -- The first line tells no more than the prototype in the second one does.
  simp only [Item.functionOutline, List.cons_append, List.cons.injEq, OutlineLine.mk.injEq,
    String.append_right_inj, body, tree, Tree.equal, Bool.and_eq_true, prototype, true_and,
    and_assoc]
  exact ⟨And.right, fun rest => ⟨label rest.1, rest⟩⟩

end Definition

namespace Import

variable {i i' : Import}

theorem outline_append_iff {depth : Nat} {lines lines' : List OutlineLine}
    (hl : Shallow (depth + 1) lines) (hl' : Shallow (depth + 1) lines') :
    (Item.use i).outline depth ++ lines = (Item.use i').outline depth ++ lines' ↔
      i.tree.equal i'.tree = true ∧ lines = lines' := by
  obtain ⟨module, member, l⟩ := i
  obtain ⟨module', member', l'⟩ := i'
  cases member with
  | none =>
    cases member' with
    | none => simp [Item.outline, tree, Tree.equal, Tree.equalAll]
    | some m' =>
      refine iff_of_false (fun heq => ?_) (by simp [tree, Tree.equal, Tree.equalAll])
      exact hl.ne_cons (List.cons.inj heq).2
  | some m =>
    cases member' with
    | none =>
      refine iff_of_false (fun heq => ?_) (by simp [tree, Tree.equal, Tree.equalAll])
      exact hl'.ne_cons (List.cons.inj heq).2.symm
    | some m' => simp [Item.outline, tree, Tree.equal, Tree.equalAll, and_assoc]

end Import

namespace Item

/-- The outline of the statement can be told from that of another one. -/
inductive IsProper : Item → Prop
  | use {i : Import} : IsProper (.use i)
  | define {d : Definition} : d.prototype.name.isEmpty = false → d.IsProper → IsProper (.define d)
  | evaluate {body : Expr} {l : Option Location} : body.IsRounded → IsProper (.evaluate body l)

variable {i i' : Item}

theorem isProper_wrapped (body : Expr) (l : Option Location) :
    (wrapped body l).prototype.IsProper :=
  ⟨List.forall_mem_nil _, List.forall_mem_nil _, nofun⟩

/-- A statement that is no import has the outline and the tree of a function. -/
theorem IsProper.cases_function (h : i.IsProper) :
    (∃ j, i = .use j) ∨ ∃ d : Definition, d.IsProper ∧ i.tree = d.tree ∧
      ∀ depth, i.outline depth = functionOutline depth d.label d := by
  cases h with
  | use => exact .inl ⟨_, rfl⟩
  | @define d named proper =>
    refine .inr ⟨d, proper, rfl, fun depth => ?_⟩
    rw [Definition.label, named]
    rfl
  | @evaluate body l rounded =>
    exact .inr ⟨wrapped body l, ⟨isProper_wrapped body l, rounded⟩, rfl, fun _ => rfl⟩

theorem exists_outline_eq (depth : Nat) (i : Item) :
    ∃ label lines, i.outline depth = ⟨depth, label⟩ :: lines := by
  cases i <;> exact ⟨_, _, rfl⟩

theorem outline_append_iff (h : i.IsProper) (h' : i'.IsProper) {depth : Nat}
    {lines lines' : List OutlineLine} (hl : Shallow (depth + 1) lines)
    (hl' : Shallow (depth + 1) lines') :
    i.outline depth ++ lines = i'.outline depth ++ lines' ↔
      i.tree.equal i'.tree = true ∧ lines = lines' := by
  obtain ⟨j, rfl⟩ | ⟨d, proper, tree, outline⟩ := h.cases_function
  · obtain ⟨j', rfl⟩ | ⟨d', proper', tree', outline'⟩ := h'.cases_function
    · exact Import.outline_append_iff hl hl'
    · rw [outline', tree']
      refine iff_of_false ?_ (by simp [Item.tree, Import.tree, Definition.tree, Tree.equal])
      simp [Item.outline, functionOutline, ← String.toList_inj]
  · obtain ⟨j', rfl⟩ | ⟨d', proper', tree', outline'⟩ := h'.cases_function
    · rw [outline, tree]
      refine iff_of_false ?_ (by simp [Item.tree, Import.tree, Definition.tree, Tree.equal])
      simp [Item.outline, functionOutline, ← String.toList_inj]
    · rw [outline, outline', tree, tree']
      exact Definition.outline_append_iff proper proper' hl hl'

theorem shallow_outlines (depth : Nat) (items : List Item) :
    Shallow (depth + 1) (items.flatMap (outline depth)) := by
  cases items with
  | nil => exact nofun
  | cons i items =>
    obtain ⟨label, lines, heq⟩ := exists_outline_eq depth i
    rw [List.flatMap_cons, heq]
    exact shallow_cons _ _

theorem outlines_eq_iff {items items' : List Item} (h : ∀ i ∈ items, i.IsProper)
    (h' : ∀ i ∈ items', i.IsProper) (depth : Nat) :
    items.flatMap (outline depth) = items'.flatMap (outline depth) ↔
      Tree.equalAll (items.map tree) (items'.map tree) = true := by
  induction items generalizing items' with
  | nil =>
    cases items' with
    | nil => simp [Tree.equalAll]
    | cons i' items' =>
      obtain ⟨label, lines, heq⟩ := exists_outline_eq depth i'
      simp [Tree.equalAll, heq]
  | cons i items ih =>
    cases items' with
    | nil =>
      obtain ⟨label, lines, heq⟩ := exists_outline_eq depth i
      simp [Tree.equalAll, heq]
    | cons i' items' =>
      obtain ⟨hi, hitems⟩ := List.forall_mem_cons.1 h
      obtain ⟨hi', hitems'⟩ := List.forall_mem_cons.1 h'
      rw [List.flatMap_cons, List.flatMap_cons, outline_append_iff hi hi'
        (shallow_outlines depth items) (shallow_outlines depth items'), ih hitems hitems',
        List.map_cons, List.map_cons, Tree.equalAll, Bool.and_eq_true]

end Item

/-- Programs have the same lines in their outlines just if they are the same. -/
theorem Program.outline_eq_iff {p q : Program} (hp : ∀ i ∈ p.items, i.IsProper)
    (hq : ∀ i ∈ q.items, i.IsProper) : p.outline = q.outline ↔ p.tree.equal q.tree = true := by
  rw [outline, outline, List.cons.injEq, Item.outlines_eq_iff hp hq]
  simp [tree, Tree.equal]

/-! ## Texts -/

namespace OutlineLine

/-- The line that the characters show. -/
def ofChars (chars : List Char) : OutlineLine :=
  ⟨(chars.takeWhile (· == ' ')).length / 2, String.ofList (chars.dropWhile (· == ' '))⟩

/-- The label stays on its line and does not begin with a blank. -/
structure IsLegible (line : OutlineLine) : Prop where
  isLine : IsLine line.label
  starts : ∃ c ∈ line.label.toList.head?, c ≠ ' '

variable {line : OutlineLine}

theorem isLegible_append {title s : String} (depth : Nat) (ht : IsLine title)
    (starts : ∃ c ∈ title.toList.head?, c ≠ ' ') (hs : IsLine s) :
    IsLegible ⟨depth, title ++ s⟩ := by
  obtain ⟨c, hc, hne⟩ := starts
  refine ⟨ht.append hs, c, ?_, hne⟩
  rw [String.toList_append, List.head?_append, Option.mem_def.1 hc]
  rfl

theorem IsLegible.ofChars_text (h : line.IsLegible) : ofChars line.text.toList = line := by
  obtain ⟨c, hc, hne⟩ := h.starts
  have run : MaximalRun (· == ' ') (List.replicate (2 * line.depth) ' ') line.label.toList := by
    refine ⟨fun d hd => beq_iff_eq.2 (List.eq_of_mem_replicate hd), fun d hd => ?_⟩
    rw [Option.mem_unique hd hc]
    exact beq_eq_false_iff_ne.2 hne
  rw [text, String.toList_append, String.toList_ofList, ofChars, run.takeWhile_eq,
    run.dropWhile_eq, List.length_replicate, String.ofList_toList]
  simp

theorem IsLegible.isLine_text (h : line.IsLegible) : IsLine line.text :=
  IsLine.append (NoLineEnd.replicate _ rfl).isLine_ofList h.isLine

end OutlineLine

namespace Program

/-- The lines of an outline can be read from its text. -/
theorem map_ofChars_splitOn {p : Program} (h : ∀ line ∈ p.outline, line.IsLegible) :
    (p.outlineText.toList.splitOn '\n').map OutlineLine.ofChars = p.outline := by
  have apart : ∀ chars ∈ (p.outline.map OutlineLine.text).map String.toList, '\n' ∉ chars := by
    simp only [List.mem_map]
    rintro _ ⟨_, ⟨line, hline, rfl⟩, rfl⟩ newline
    exact absurd ((h line hline).isLine_text _ newline) (by decide)
  -- The separator is a single character, so the text splits where the lines were joined.
  rw [outlineText, String.toList_intercalate]
  change (List.splitOn '\n' (['\n'].intercalate _)).map _ = _
  rw [List.splitOn_intercalate '\n' apart (by simp [outline]), List.map_map, List.map_map]
  refine (List.map_congr_left fun line hline => ?_).trans (List.map_id _)
  exact (h line hline).ofChars_text

theorem isLegible_outline {p : Program}
    (h : ∀ i ∈ p.items, ∀ line ∈ i.outline 1, line.IsLegible) :
    ∀ line ∈ p.outline, line.IsLegible := by
  refine List.forall_mem_cons.2 ⟨⟨by decide, 'P', rfl, by decide⟩, fun line hline => ?_⟩
  obtain ⟨i, hi, hline⟩ := List.mem_flatMap.1 hline
  exact h i hi line hline

end Program

/-! ## Programs that are read -/

theorem IsWord.isLine {s : String} (h : IsWord s) : IsLine s :=
  fun c hc => isLineEnd_of_isAlphanum (h c hc)

theorem isLine_intercalate {separator : String} {texts : List String} (hs : IsLine separator)
    (h : ∀ text ∈ texts, IsLine text) : IsLine (separator.intercalate texts) := by
  induction texts with
  | nil => exact List.forall_mem_nil _
  | cons text texts ih =>
    obtain ⟨ht, h⟩ := List.forall_mem_cons.1 h
    cases texts with
    | nil => simpa using ht
    | cons text' texts =>
      rw [String.intercalate_cons_cons]
      exact (ht.append hs).append (ih h)

theorem Prototype.IsProper.isLine_text {p : Prototype} (h : p.IsProper) : IsLine p.text := by
  have parameters :
      IsLine (", ".intercalate (p.parameters.map fun q => q.type ++ " " ++ q.name)) := by
    refine isLine_intercalate (by decide) (List.forall_mem_map.2 fun q hq => ?_)
    have proper := h.parameters q hq
    exact (proper.type.isLine.append (by decide)).append proper.name.isLine
  refine (((h.name.isLine.append (by decide)).append parameters).append (by decide)).append ?_
  cases hr : p.result with
  | none => exact (by decide : IsLine "")
  | some type => exact IsLine.append (by decide) (h.result type hr).isLine

section Tokens

variable {T : Token → Prop}

namespace Expr

theorem isLine_label {e : Expr} (h : e.tree.IsExpression T) : IsLine e.label := by
  cases e with
  | literal value l =>
    have kind : ∀ kind : LiteralKind, IsLine ("Literal (" ++ kind.word ++ "): ") := by
      intro kind
      cases kind <;> decide
    refine (kind value.kind).append ?_
    cases value with
    | integer n => exact isLine_nat n
    | real x => exact x.isLine_text
    | string body =>
      cases h with
      | string hb _ => exact (IsLine.append (by decide) hb.isLine).append (by decide)
  | var name l =>
    cases h with
    | var hn _ => exact IsLine.append (by decide) hn.isLine
  | binary op lhs rhs l => exact IsLine.append (by decide) (isLine_spelling op)
  | call callee args l =>
    cases h with
    | call hn _ _ => exact IsLine.append (by decide) hn.isLine
  | declaration name isMutable initial l =>
    cases h with
    | declaration hn _ _ =>
      refine IsLine.append ?_ hn.isLine
      cases isMutable <;> decide

theorem isExpression_parts {e : Expr} (h : e.tree.IsExpression T) :
    ∀ p ∈ e.parts, p.tree.IsExpression T := by
  cases e with
  | literal value l => exact List.forall_mem_nil _
  | var name l => exact List.forall_mem_nil _
  | binary op lhs rhs l =>
    cases h with
    | binary hl hr _ => exact List.forall_mem_cons.2 ⟨hl, List.forall_mem_singleton.2 hr⟩
  | call callee args l =>
    rw [tree, trees_eq_map] at h
    cases h with
    | call _ hargs _ => exact List.forall_mem_map.1 hargs
  | declaration name isMutable initial l =>
    cases h with
    | declaration _ hi _ =>
      cases initial with
      | none => exact List.forall_mem_nil _
      | some e => exact List.forall_mem_singleton.2 (hi _ rfl)

theorem isLegible_label {e : Expr} (h : e.tree.IsExpression T) (depth : Nat) :
    OutlineLine.IsLegible ⟨depth, e.label⟩ := by
  have first : e.label.toList.head? = e.heading.head? := by
    rw [← take_label, List.head?_take, if_neg (by decide)]
  refine ⟨isLine_label h, ?_⟩
  rw [first]
  cases e <;> exact ⟨_, rfl, by decide⟩

theorem outlines_eq_flatMap (depth : Nat) (es : List Expr) :
    outlines depth es = es.flatMap (outline depth) := by
  induction es with
  | nil => rfl
  | cons e es ih => rw [outlines, ih, List.flatMap_cons]

theorem IsRounded.isLegible {e : Expr} (rounded : e.IsRounded) (h : e.tree.IsExpression T)
    (depth : Nat) : ∀ line ∈ e.outline depth, line.IsLegible := by
  induction rounded generalizing depth with
  | @intro e _ _ ih =>
    rw [outline_eq, outlines_eq_flatMap]
    refine List.forall_mem_cons.2 ⟨isLegible_label h depth, fun line hline => ?_⟩
    obtain ⟨p, hp, hline⟩ := List.mem_flatMap.1 hline
    exact ih p hp (isExpression_parts h p hp) (depth + 1) line hline

end Expr

theorem Prototype.isProper_of_tree {p : Prototype} (h : p.tree.IsPrototype T) :
    p.IsProper ∧ IsName p.name := by
  obtain ⟨name, parameters, result, l⟩ := p
  cases h with
  | intro name types names result _ _ =>
    refine ⟨⟨name.isWord, fun q hq => ⟨?_, ?_⟩, fun type ht => (result type ht).isWord⟩, name⟩
    · exact (types _ (List.mem_map_of_mem hq)).isWord
    · exact (names _ (List.mem_map_of_mem hq)).isWord

namespace Item

theorem isLegible_functionOutline {d : Definition} {label : String} (hl : IsLine label)
    (prototype : d.prototype.IsProper) (rounded : d.body.IsRounded)
    (body : d.body.tree.IsExpression T) (depth : Nat) :
    ∀ line ∈ functionOutline depth label d, line.IsLegible := by
  have function : OutlineLine.IsLegible ⟨depth, "Function: " ++ label⟩ :=
    OutlineLine.isLegible_append depth (by decide) ⟨'F', rfl, by decide⟩ hl
  have head : OutlineLine.IsLegible ⟨depth + 1, "Prototype: " ++ d.prototype.text⟩ :=
    OutlineLine.isLegible_append _ (by decide) ⟨'P', rfl, by decide⟩ prototype.isLine_text
  exact List.forall_mem_cons.2 ⟨function, List.forall_mem_cons.2 ⟨head, rounded.isLegible body _⟩⟩

theorem isLegible_import {name : String} (h : IsName name) (depth : Nat) :
    OutlineLine.IsLegible ⟨depth, "Import: " ++ name⟩ :=
  OutlineLine.isLegible_append depth (by decide) ⟨'I', rfl, by decide⟩ h.isLine

/-- The outline of a statement that is read can be told from others, in its text too. -/
theorem IsWellFormed.isProper {i : Item} (h : i.IsWellFormed T)
    (rounded : ∀ e ∈ i.body?, e.IsRounded) (depth : Nat) :
    i.IsProper ∧ ∀ line ∈ i.outline depth, line.IsLegible := by
  cases i with
  | use i =>
    refine ⟨.use, ?_⟩
    obtain ⟨module, member, l⟩ := i
    cases h with
    | intro hname _ parts _ _ =>
      refine List.forall_mem_cons.2 ⟨isLegible_import hname depth, ?_⟩
      cases member with
      | none => exact List.forall_mem_nil _
      | some m =>
        obtain ⟨member, l⟩ := m
        refine List.forall_mem_singleton.2 ?_
        cases parts _ List.mem_cons_self with
        | intro hm _ => exact isLegible_import hm _
  | define d =>
    have named := h.isEmpty_name
    obtain ⟨prototype, body, l⟩ := d
    cases h with
    | intro hp hb _ _ =>
      obtain ⟨proper, name⟩ := Prototype.isProper_of_tree hp
      have hr := rounded _ rfl
      exact ⟨.define named ⟨proper, hr⟩, isLegible_functionOutline name.isLine proper hr hb depth⟩
  | evaluate body l =>
    cases h with
    | intro hb _ _ _ =>
      have hr := rounded _ rfl
      exact ⟨.evaluate hr,
        isLegible_functionOutline (by decide) (isProper_wrapped body _) hr hb depth⟩

end Item

end Tokens

/-- The real numbers of a source are such that a ratio is rounded to. -/
theorem forms_isRounded : Forms (fun lexeme => ∀ x, lexeme = .real x → x.IsRounded false)
    Expr.IsRounded Expr.IsRounded where
  literal h := by
    refine .intro ?_ (List.forall_mem_nil _)
    rintro _ _ ⟨⟩ x rfl
    exact h x rfl
  var := .intro nofun (List.forall_mem_nil _)
  binary hl hr := .intro nofun (List.forall_mem_cons.2 ⟨hl, List.forall_mem_singleton.2 hr⟩)
  call h := .intro nofun h
  declaration h := .intro nofun fun p hp => h p (Option.mem_toList.1 hp)
  parenthesized h := h

theorem Spelled.ne_real {x : List Char} {lexeme : Lexeme} (h : Spelled x lexeme) (y : Double) :
    lexeme ≠ .real y := by
  cases h <;> nofun

theorem Token.IsFoundIn.isRounded {file : String} {text : List Char} {t : Token}
    (h : t.IsFoundIn file text) : ∀ x, t.lexeme = .real x → x.IsRounded false := by
  intro x hx
  obtain ⟨before, y, rest, -, -, lexes | ⟨hend, -⟩⟩ := h.place
  · rw [hx] at lexes
    cases lexes with
    | real _ _ _ _ => exact Decimal.isRounded_toDouble _ _
    | symbol _ longest => exact absurd rfl (longest.spelled.ne_real x)
  · rw [hx] at hend
    cases hend

theorem readProgram_isProper (file text : String) (skip : Bool) (nesting : Int)
    (consumer : Consumer) (journal : Journal) (depth : Nat) :
    ∀ i ∈ (readProgram (.ofText file text) skip nesting consumer journal).items,
      i.IsProper ∧ ∀ line ∈ i.outline depth, line.IsLegible := by
  have formed := (begins_readProgram (.ofText file text) skip nesting consumer journal
    ⟨.endOfInput, file, .start, true⟩).units
  have rounded : ∀ i ∈ (readProgram (.ofText file text) skip nesting consumer journal).items,
      ∀ e ∈ i.body?, e.IsRounded :=
    (readProgramBy_brings (fun _ _ => Read.item_brings (fun _ => forms_isRounded) fun _ _ h => h)
      nofun (fun _ ht => (Scanner.isFoundIn_of_mem_fetches ht).isRounded) consumer journal).2
  exact fun i hi => (formed i hi).isProper (rounded i hi) depth

/-- Whatever the texts, two programs that are read from them have the same outline just if they
    are the same but for the places of their nodes. -/
theorem readProgram_outlineText_iff (file file' text text' : String) (skip skip' : Bool)
    (nesting nesting' : Int) (consumer consumer' : Consumer) (journal journal' : Journal) :
    let p := (readProgram (.ofText file text) skip nesting consumer journal).program
    let q := (readProgram (.ofText file' text') skip' nesting' consumer' journal').program
    p.outlineText = q.outlineText ↔ p.tree.equal q.tree = true := by
  intro p q
  have hp := readProgram_isProper file text skip nesting consumer journal 1
  have hq := readProgram_isProper file' text' skip' nesting' consumer' journal' 1
  rw [← Program.outline_eq_iff (fun i hi => (hp i hi).1) fun i hi => (hq i hi).1]
  refine ⟨fun heq => ?_, fun heq => by rw [Program.outlineText, heq, Program.outlineText]⟩
  rw [← Program.map_ofChars_splitOn (Program.isLegible_outline fun i hi => (hp i hi).2), heq,
    Program.map_ofChars_splitOn (Program.isLegible_outline fun i hi => (hq i hi).2)]

end Soul
