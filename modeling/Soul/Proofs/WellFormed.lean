import Soul.Proofs.Content
import Soul.Proofs.Yield
import Soul.Tree

/-!
# The trees that are read

Whatever the source is like, the trees that are read from it are well formed:
names are names, the bodies of strings are what can stand between quotes, no
integer is negative, a prototype has a name for each type, and every node stands at
a token of the source (`Tree.IsExpression`, `Item.IsWellFormed`). This is proved for each
function of the reading, together with what the loop over the statements needs to
know of them: a statement that is read takes a token at least, and so does one
that is given up, unless the next thing to do is to skip its first token
(`Read.item_yields`).
-/

namespace Soul

namespace Tree

/-- The tree of an expression, each node of which stands at a token of the class
    `T`. -/
inductive IsExpression (T : Token → Prop) : Tree → Prop
  | integer {n : Int} {t : Token} : 0 ≤ n → T t →
      IsExpression T (.literal .integer (.integer n) t.location)
  | real {x : Double} {t : Token} : T t → IsExpression T (.literal .real (.real x) t.location)
  | string {body : String} {t : Token} : IsBody body → T t →
      IsExpression T (.literal .string (.text body) t.location)
  | var {name : String} {t : Token} : IsName name → T t → IsExpression T (.var name t.location)
  | binary {op : Operator} {lhs rhs : Tree} {t : Token} : IsExpression T lhs →
      IsExpression T rhs → T t → IsExpression T (.binary op lhs rhs t.location)
  | call {callee : String} {args : List Tree} {t : Token} : IsName callee →
      (∀ arg ∈ args, IsExpression T arg) → T t → IsExpression T (.call callee args t.location)
  | declaration {name : String} {isMutable : Bool} {initial : Option Tree} {t : Token} :
      IsName name → (∀ e ∈ initial, IsExpression T e) → T t →
      IsExpression T (.declaration name isMutable initial t.location)

/-- The tree of the prototype of a function, which stands at a token of the class
    `T`. -/
inductive IsPrototype (T : Token → Prop) : Tree → Prop
  | intro {name : String} {types names : List String} {result : Option String} {t : Token} :
      IsName name → (∀ type ∈ types, IsTypeName type) → (∀ name ∈ names, IsName name) →
      (∀ type ∈ result, IsTypeName type) → types.length = names.length → T t →
      IsPrototype T (.prototype name types names result t.location)

/-- The tree of a name of a module, which stands at a token of the class `T`. -/
inductive IsMember (T : Token → Prop) : Tree → Prop
  | intro {name : String} {t : Token} : IsName name → T t → IsMember T (.use name [] t.location)

/-- The tree of an import, which has at most one name of the module. -/
inductive IsImport (T : Token → Prop) : Tree → Prop
  | intro {name : String} {parts : List Tree} {t : Token} : IsName name → parts.length ≤ 1 →
      (∀ part ∈ parts, IsMember T part) → T t → t.lexeme = .mark .dollar →
      IsImport T (.use name parts t.location)

/-- The tree of the definition of a function, which begins with a dot. -/
inductive IsDefinition (T : Token → Prop) : Tree → Prop
  | intro {head body : Tree} {t : Token} : IsPrototype T head → IsExpression T body → T t →
      t.lexeme = .operator .dot → IsDefinition T (.function head body t.location)

/-- The tree of a bare expression: a function without a name, without parameters and
    without a result. -/
inductive IsBare (T : Token → Prop) : Tree → Prop
  | intro {body : Tree} {t : Token} : IsExpression T body → T t → t.lexeme ≠ .mark .dollar →
      t.lexeme ≠ .operator .dot →
      IsBare T (.function (.prototype "" [] [] none t.location) body t.location)

end Tree

/-- The statement has a tree of its sort, each node of which stands at a token of the
    class `T`. -/
def Item.IsWellFormed (T : Token → Prop) : Item → Prop
  | .use i => i.tree.IsImport T
  | .define d => d.tree.IsDefinition T
  | .evaluate body l => (evaluate body l).tree.IsBare T

theorem Expr.trees_eq_map (es : List Expr) : trees es = es.map tree := by
  induction es with
  | nil => rfl
  | cons e es ih => rw [trees, ih, List.map_cons]

namespace Read

variable {T : Token → Prop} {limit : Int} {c : Cursor} {inner operand : Read Expr}

/-! ## Expressions -/

/-- The reading gives the tree of an expression and takes a token at least. -/
def YieldsExpression (T : Token → Prop) (limit : Int) (p : Read Expr) : Prop :=
  ∀ c, Yields T limit p c (fun e c' => e.tree.IsExpression T ∧ c.taken < c'.taken) Anywhere

theorem argumentsWithin_yields (hi : YieldsExpression T limit inner)
    (rounds : List (Except Fault Token)) : Yields T limit (argumentsWithin inner rounds) c
      (fun args _ => ∀ arg ∈ args, arg.tree.IsExpression T) Anywhere := by
  induction rounds generalizing c with
  | nil => exact Yields.pure (List.forall_mem_nil _)
  | cons r rounds ih =>
    refine Yields.skipComments.bind fun _ c₁ _ _ => Yields.current_bind fun _ => ?_
    split
    · next ht =>
      exact Yields.advance_bind (by simp [ht]) fun _ _ => Yields.pure (List.forall_mem_nil _)
    · exact Yields.refuse (.missing (by decide) (by decide)) trivial
    · refine (hi c₁).bind fun arg _ _ harg => ih.bind fun args _ _ hargs => ?_
      exact Yields.pure (List.forall_mem_cons.2 ⟨harg.1, hargs⟩)

section Tokens

variable (proper : ∀ t, T t → t.lexeme.IsProper)

include proper

theorem isName_of_lexeme {t : Token} {name : String} (ht : T t) (h : t.lexeme = .identifier name) :
    IsName name := by
  have := proper t ht
  rwa [h] at this

theorem expect_identifier_yields {expected context : String} (hx : IsLine expected)
    (hi : IsLine context) : Yields T limit (expect identifier expected (some context)) c
      (fun r _ => T r.1 ∧ IsName r.2) Anywhere :=
  Yields.expect rfl hx hi trivial fun _ _ ht hs _ =>
    ⟨ht, isName_of_lexeme proper ht (lexeme_of_identifier hs)⟩

theorem expect_typeName_yields {expected context : String} (hx : IsLine expected)
    (hi : IsLine context) : Yields T limit (expect typeName expected (some context)) c
      (fun r _ => IsTypeName r.2) Anywhere := by
  refine Yields.expect rfl hx hi trivial fun name _ ht hs _ => ?_
  have := proper _ ht
  rwa [lexeme_of_typeName hs] at this

theorem named_yields (hi : YieldsExpression T limit inner) {name : String} (ht : T c.current)
    (hlex : c.current.lexeme = .identifier name) : Yields T limit (named inner c.current name) c
      (fun e c' => e.tree.IsExpression T ∧ c.taken < c'.taken) Anywhere := by
  have hname := isName_of_lexeme proper ht hlex
  refine Yields.advance_bind (by simp [hlex]) fun c₁ passes => Yields.current_bind fun _ => ?_
  split
  · next hparen =>
    refine Yields.advance_bind (by simp [hparen]) fun c₂ passes' => ?_
    refine (Yields.get_bind (argumentsWithin_yields hi _)).bind fun args c₃ reaches hargs => ?_
    refine Yields.pure ⟨?_, passes.taken_lt.trans (passes'.taken_lt.trans_le reaches.taken_le)⟩
    rw [Expr.tree, Expr.trees_eq_map]
    exact .call hname (List.forall_mem_map.2 hargs) ht
  · exact Yields.pure ⟨.var hname ht, passes.taken_lt⟩

theorem declaration_yields (hi : YieldsExpression T limit inner) (ht : T c.current) {m : Mark}
    (hlex : c.current.lexeme = .mark m) (isMutable : Bool) :
    Yields T limit (declaration inner c.current isMutable) c
      (fun e c' => e.tree.IsExpression T ∧ c.taken < c'.taken) Anywhere := by
  refine Yields.advance_bind (by simp [hlex]) fun c₁ passes => ?_
  refine (expect_identifier_yields proper (by decide) (by decide)).bind ?_
  rintro ⟨_, name⟩ c₂ reaches ⟨-, hname⟩
  refine Yields.current_bind fun _ => ?_
  split
  · next hassign =>
    refine Yields.advance_bind (by simp [hassign]) fun c₃ passes' => ?_
    refine (hi c₃).bind fun initial c₄ reaches' hinitial => Yields.pure ⟨?_, ?_⟩
    · refine .declaration hname ?_ ht
      rintro _ ⟨⟩
      exact hinitial.1
    · have := passes.taken_lt
      have := reaches.taken_le
      have := passes'.taken_lt
      have := reaches'.taken_le
      omega
  · exact Yields.pure ⟨.declaration hname nofun ht, passes.taken_lt.trans_le reaches.taken_le⟩

theorem literal_yields (value : Literal) (ht : T c.current)
    (hlex : c.current.lexeme = value.lexeme) :
    Yields T limit (do advance; return Expr.literal value c.current.location) c
      (fun e c' => e.tree.IsExpression T ∧ c.taken < c'.taken) Anywhere := by
  refine Yields.advance_bind ?_ fun c₁ passes => Yields.pure ⟨?_, passes.taken_lt⟩
  · cases value <;> simp [hlex, Literal.lexeme]
  · cases value with
    | integer n => exact .integer (Int.natCast_nonneg n) ht
    | real x => exact .real ht
    | string body =>
      have := proper _ ht
      rw [hlex] at this
      exact .string this ht

theorem primary_yields (hi : YieldsExpression T limit inner) :
    YieldsExpression T limit (primary inner) := by
  intro c
  refine Yields.skipComments.bind fun _ c₁ reaches _ => ?_
  -- Comments in front of the primary are further tokens that it takes.
  refine Yields.imp (Q := fun e c' => e.tree.IsExpression T ∧ c₁.taken < c'.taken) ?_
    fun _ _ _ h => ⟨h.1, reaches.taken_le.trans_lt h.2⟩
  refine Yields.current_bind fun ht => ?_
  split
  · next hlex => exact named_yields proper hi ht hlex
  · next n hlex => exact literal_yields proper (.integer n) ht hlex
  · next x hlex => exact literal_yields proper (.real x) ht hlex
  · next body hlex => exact literal_yields proper (.string body) ht hlex
  · next hlex => exact declaration_yields proper hi ht hlex false
  · next hlex => exact declaration_yields proper hi ht hlex true
  · next hlex =>
    refine Yields.advance_bind (by simp [hlex]) fun c₂ passes => ?_
    refine (hi c₂).bind fun e c₃ _ he => Yields.skipComments.bind fun _ c₄ reaches₄ _ => ?_
    refine (Yields.discard (Q := fun _ _ => True)
      (Yields.expect rfl (by decide) (by decide) trivial fun _ _ _ _ _ => trivial)).bind ?_
    intro _ c₅ reaches₅ _
    refine Yields.pure ⟨he.1, ?_⟩
    have := passes.taken_lt
    have := he.2
    have := reaches₄.taken_le
    have := reaches₅.taken_le
    omega
  · exact Yields.refuse .unexpected trivial

omit proper in
/-- Where a chain goes on, the current token is an operator. -/
theorem operatorFrom_yields (least : Nat) : Yields T limit (operatorFrom least) c
    (fun r c' => c' = c ∧ ∀ token op, r = some (token, op) →
      token = c.current ∧ T token ∧ c.current.operator? = some op) Anywhere := by
  rw [operatorFrom_eq]
  refine Yields.current_bind fun ht => ?_
  cases hop : c.current.operator? with
  | none =>
    refine Yields.pure (a := none) ⟨rfl, ?_⟩
    rintro _ _ ⟨⟩
  | some op =>
    refine Yields.pure ⟨rfl, fun token op' he => ?_⟩
    split at he
    · cases he
    · cases he
      exact ⟨rfl, ht, rfl⟩

omit proper in
theorem chainWithin_yields (ho : YieldsExpression T limit operand)
    (rounds : List (Except Fault Token)) (least : Nat) {lhs : Expr} (hl : lhs.tree.IsExpression T) :
    Yields T limit (chainWithin operand rounds least lhs) c
      (fun e _ => e.tree.IsExpression T) Anywhere := by
  induction rounds generalizing c least lhs with
  | nil => exact Yields.pure hl
  | cons r rounds ih =>
    refine (operatorFrom_yields least).bind ?_
    rintro (_ | ⟨token, op⟩) c' - ⟨rfl, found⟩
    · exact Yields.pure hl
    · obtain ⟨rfl, ht, hop⟩ := found token op rfl
      refine Yields.advance_bind (by simp [lexeme_of_operator? hop]) fun c₁ _ => ?_
      refine (ho c₁).bind fun rhs c₂ _ hr => ?_
      refine (ih (op.tier + 1) hr.1).bind fun rhs c₃ _ hr => ?_
      exact ih least (.binary hl hr ht)

theorem expressionWithin_yields (levels : Nat) :
    YieldsExpression T limit (expressionWithin limit levels) := by
  induction levels with
  | zero =>
    intro c
    exact Yields.nested (Yields.current_bind fun _ => Yields.throw rfl .tooDeep trivial)
  | succ levels ih =>
    intro c
    have operand := primary_yields proper ih
    refine Yields.nested ((operand _).bind fun lhs c₁ _ hl => ?_)
    refine (Yields.get_bind (chainWithin_yields operand _ 0 hl.1)).imp fun e c₂ reaches he => ?_
    exact ⟨he, hl.2.trans_le reaches.taken_le⟩

theorem expression_yields : YieldsExpression T limit (expression limit) :=
  fun _ => Yields.get_bind (expressionWithin_yields proper _ _)

/-! ## Statements -/

theorem use_yields (hlex : c.current.lexeme = .mark .dollar) : Yields T limit use c
    (fun i c' => i.tree.IsImport T ∧ c.taken < c'.taken) fun c' => c.taken < c'.taken := by
  refine Yields.expect_bind (a := ()) (by simp [ofKind, hlex, Lexeme.kind]) (by simp [hlex])
    fun c₁ ht passes => Yields.behind ?_ passes.taken_lt
  have behind : ∀ {c'}, c₁.Reaches [] c' → c.taken < c'.taken :=
    fun reaches => passes.taken_lt.trans_le reaches.taken_le
  refine (expect_identifier_yields proper (by decide) (by decide)).bind ?_
  rintro ⟨_, name⟩ c₂ reaches ⟨-, hname⟩
  refine Yields.current_bind fun _ => ?_
  split
  · next hcolon =>
    refine Yields.advance_bind (by simp [hcolon]) fun c₃ passes₃ => ?_
    refine (expect_identifier_yields proper (by decide) (by decide)).bind ?_
    rintro ⟨child, member⟩ c₄ reaches₄ ⟨hchild, hmember⟩
    refine Yields.pure ⟨.intro hname (Nat.le_refl 1) (List.forall_mem_singleton.2 ?_) ht hlex,
      behind (reaches.trans (.trans ⟨_, passes₃⟩ reaches₄))⟩
    exact .intro hmember hchild
  · exact Yields.pure ⟨.intro hname (Nat.zero_le 1) (List.forall_mem_nil _) ht hlex, behind reaches⟩

theorem typeNamesWithin_yields (rounds : List (Except Fault Token)) :
    Yields T limit (typeNamesWithin rounds) c (fun names _ => ∀ name ∈ names, IsTypeName name)
      Anywhere := by
  induction rounds generalizing c with
  | nil => exact Yields.pure (List.forall_mem_nil _)
  | cons r rounds ih =>
    refine Yields.current_bind fun ht => ?_
    split
    · exact Yields.pure (List.forall_mem_nil _)
    · next name hname =>
      have lexeme := lexeme_of_typeName hname
      have isTypeName := proper _ ht
      rw [lexeme] at isTypeName
      refine Yields.advance_bind (by simp [lexeme]) fun c₁ _ => ih.bind fun names _ _ hnames => ?_
      exact Yields.pure (List.forall_mem_cons.2 ⟨isTypeName, hnames⟩)

theorem result_yields : Yields T limit result c (fun r _ => ∀ name ∈ r, IsTypeName name)
    Anywhere := by
  refine Yields.current_bind fun _ => ?_
  split
  · next harrow =>
    refine Yields.advance_bind (by simp [harrow]) fun c₁ _ => ?_
    refine (expect_typeName_yields proper (by decide) (by decide)).bind ?_
    rintro ⟨_, name⟩ c₂ - hname
    refine Yields.pure ?_
    rintro _ ⟨⟩
    exact hname
  · exact Yields.pure nofun

omit proper in
theorem parameterMark_yields : Yields T limit parameterMark c (fun _ _ => True) Anywhere := by
  refine Yields.current_bind fun _ => ?_
  split
  · next ht => exact Yields.advance (by simp [ht]) fun _ _ => trivial
  · next ht => exact Yields.advance (by simp [ht]) fun _ _ => trivial
  · exact Yields.refuse (.missing (by decide) (by decide)) trivial

/-- Each of the types gets a name. -/
theorem parameters_yields (types : List String) : Yields T limit (parameters types) c
    (fun ps _ => ps.map (·.type) = types ∧ ∀ p ∈ ps, IsName p.name) Anywhere := by
  induction types generalizing c with
  | nil => exact Yields.pure ⟨rfl, List.forall_mem_nil _⟩
  | cons type types ih =>
    refine parameterMark_yields.bind fun _ c₁ _ _ => ?_
    refine (expect_identifier_yields proper (by decide) (by decide)).bind ?_
    rintro ⟨_, name⟩ c₂ - ⟨-, hname⟩
    refine ih.bind fun ps c₃ _ ⟨htypes, hnames⟩ => Yields.pure ⟨?_, ?_⟩
    · rw [List.map_cons, htypes]
    · exact List.forall_mem_cons.2 ⟨hname, hnames⟩

omit proper in
theorem discard_expect_yields {kind : Kind} {expected context : String}
    (he : ofKind kind .endOfInput = none) (hx : IsLine expected) (hi : IsLine context) :
    Yields T limit (discard (expect (ofKind kind) expected (some context))) c (fun _ _ => True)
      Anywhere :=
  Yields.discard (Yields.expect he hx hi trivial fun _ _ _ _ _ => trivial)

theorem prototype_yields : Yields T limit prototype c (fun p _ => p.tree.IsPrototype T)
    Anywhere := by
  refine (expect_identifier_yields proper (by decide) (by decide)).bind ?_
  rintro ⟨token, name⟩ c₁ - ⟨ht, hname⟩
  refine (discard_expect_yields rfl (by decide) (by decide)).bind fun _ c₂ _ _ => ?_
  refine (Yields.get_bind (typeNamesWithin_yields proper _)).bind fun types c₃ _ htypes => ?_
  refine (result_yields proper).bind fun result c₄ _ hresult => ?_
  refine (parameters_yields proper types).bind fun ps c₅ _ ⟨hps, hnames⟩ => ?_
  refine (discard_expect_yields rfl (by decide) (by decide)).bind fun _ c₆ _ _ => ?_
  refine Yields.pure (.intro hname ?_ (List.forall_mem_map.2 hnames) hresult ?_ ht)
  · rwa [hps]
  · rw [List.length_map, List.length_map]

theorem define_yields (hlex : c.current.lexeme = .operator .dot) : Yields T limit (define limit) c
    (fun d c' => d.tree.IsDefinition T ∧ c.taken < c'.taken) fun c' => c.taken < c'.taken := by
  refine Yields.expect_bind (a := ()) (by simp [ofKind, hlex, Lexeme.kind]) (by simp [hlex])
    fun c₁ ht passes => Yields.behind ?_ passes.taken_lt
  refine (prototype_yields proper).bind fun prototype c₂ reaches hprototype => ?_
  refine (expression_yields proper c₂).bind fun body c₃ reaches' hbody => ?_
  exact Yields.pure ⟨.intro hprototype hbody.1 ht hlex,
    passes.taken_lt.trans_le (reaches.trans reaches').taken_le⟩

theorem evaluate_yields (dollar : c.current.lexeme ≠ .mark .dollar)
    (dot : c.current.lexeme ≠ .operator .dot) : Yields T limit (evaluate limit) c
    (fun i c' => i.IsWellFormed T ∧ c.taken < c'.taken) Anywhere := by
  refine Yields.current_bind fun ht => (expression_yields proper c).bind ?_
  exact fun body c' _ hbody => Yields.pure ⟨.intro hbody.1 ht dollar dot, hbody.2⟩

/-- A statement that is read takes a token. One that fails has taken a token, too,
    or it is not to be resumed where it began. -/
theorem item_yields (hne : c.current.lexeme ≠ .endOfInput) : Yields T limit (item limit) c
    (fun i c' => i.IsWellFormed T ∧ c.taken < c'.taken)
    fun c' => c.taken < c'.taken ∨ isResumption c.current = false := by
  refine Yields.current_bind fun _ => ?_
  split
  · next hlex =>
    refine Yields.mono ((use_yields proper hlex).bind (R := fun i c' => i.IsWellFormed T ∧
      c.taken < c'.taken) fun i c' _ hi => Yields.pure hi) (fun _ _ _ h => h) fun _ _ h => .inl h
  · next hlex =>
    refine Yields.mono ((define_yields proper hlex).bind (R := fun i c' => i.IsWellFormed T ∧
      c.taken < c'.taken) fun d c' _ hd => Yields.pure hd) (fun _ _ _ h => h) fun _ _ h => .inl h
  · next dollar dot =>
    refine (evaluate_yields proper dollar dot).mono (fun _ _ _ h => h) fun _ _ _ => .inr ?_
    unfold isResumption
    split <;> simp_all

end Tokens

end Read

end Soul
