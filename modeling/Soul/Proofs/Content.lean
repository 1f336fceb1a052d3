import Soul.Proofs.CommentFree

/-!
# Names and constants of a source

The names and constants of a source are its content: identifiers, names of
types, numbers and strings. A program has its content from the source. None of it
is there twice or in another order, and if there are no errors nothing is missing
(`readProgram_content`).

A program stands on the tokens of its source (`Program.StandsOn`). Its items stand
one behind the other. The operands of an operator stand on either side of the token
at which the operator is located, so this token comes behind the whole content of
the one and before that of the other.

What a reading has passed over belongs to what it gives: `Read.Covers p d ts S`
says of the value `a` and the tokens passed over, whichever these are, that `S`
holds of them. There is one rule for each way in which readings are put together.
-/

namespace Soul

/-! ## Content -/

/-- The lexeme is a name or a constant. -/
@[simp]
def Lexeme.isContent : Lexeme → Bool
  | identifier _ | typeName _ | integer _ | real _ | string _ => true
  | _ => false

/-- The names and constants among the tokens. -/
def contentOf (ts : List Token) : List Lexeme := (ts.map Token.lexeme).filter Lexeme.isContent

/-- The constant as a lexeme. -/
def Literal.lexeme : Literal → Lexeme
  | integer n => .integer n
  | real x => .real x
  | string body => .string body

namespace Expr

mutual

/-- The names and constants of an expression. -/
def content : Expr → List Lexeme
  | literal value _ => [value.lexeme]
  | var name _ => [.identifier name]
  | binary _ lhs rhs _ => lhs.content ++ rhs.content
  | call callee args _ => .identifier callee :: contents args
  | declaration name _ initial _ => .identifier name :: initialContent initial

/-- The names and constants of expressions. -/
def contents : List Expr → List Lexeme
  | [] => []
  | e :: es => e.content ++ contents es

/-- The names and constants of an initial value. -/
def initialContent : Option Expr → List Lexeme
  | none => []
  | some e => e.content

end

mutual

/-- The expression stands on the tokens. -/
def StandsOn : Expr → List Token → Prop
  | literal value _, ts => contentOf ts = [value.lexeme]
  | var name _, ts => contentOf ts = [.identifier name]
  | binary op lhs rhs l, ts => ∃ left t right, ts = left ++ t :: right ∧
      t.kind = .operator op ∧ l = some t.location ∧ lhs.StandsOn left ∧ rhs.StandsOn right
  | call callee args _, ts => ∃ front back, ts = front ++ back ∧
      contentOf front = [.identifier callee] ∧ AllStandOn args back
  | declaration name _ initial _, ts => ∃ front back, ts = front ++ back ∧
      contentOf front = [.identifier name] ∧ InitialStandsOn initial back

/-- The expressions stand on the tokens, one behind the other. -/
def AllStandOn : List Expr → List Token → Prop
  | [], ts => contentOf ts = []
  | e :: es, ts => ∃ front back, ts = front ++ back ∧ e.StandsOn front ∧ AllStandOn es back

/-- The initial value stands on the tokens. -/
def InitialStandsOn : Option Expr → List Token → Prop
  | none, ts => contentOf ts = []
  | some e, ts => e.StandsOn ts

end

end Expr

/-- The names and constants of an import. -/
def Import.content (i : Import) : List Lexeme :=
  .identifier i.module :: i.member.toList.map fun m => .identifier m.name

/-- The names of a prototype. The types come before the parameters. -/
def Prototype.content (p : Prototype) : List Lexeme :=
  .identifier p.name :: (p.parameters.map (.typeName ·.type) ++
    (p.result.toList.map .typeName ++ p.parameters.map (.identifier ·.name)))

namespace Item

/-- The names and constants of an item. -/
def content : Item → List Lexeme
  | use i => i.content
  | define d => d.prototype.content ++ d.body.content
  | evaluate body _ => body.content

/-- The item stands on the tokens. -/
def StandsOn : Item → List Token → Prop
  | use i, ts => contentOf ts = i.content
  | define d, ts => ∃ front back, ts = front ++ back ∧ contentOf front = d.prototype.content ∧
      d.body.StandsOn back
  | evaluate body _, ts => body.StandsOn ts

/-- The items stand on some of the tokens, one behind the other. -/
def AllStandOn : List Item → List Token → Prop
  | [], _ => True
  | item :: items, ts => ∃ gap front back, ts = gap ++ (front ++ back) ∧ item.StandsOn front ∧
      AllStandOn items back

end Item

namespace Program

/-- The names and constants of a program. -/
def content (p : Program) : List Lexeme := p.items.flatMap Item.content

/-- The program stands on some of the tokens. -/
def StandsOn (p : Program) (ts : List Token) : Prop := Item.AllStandOn p.items ts

end Program

@[simp] theorem contentOf_nil : contentOf [] = [] := rfl

@[simp] theorem contentOf_append (ts us : List Token) :
    contentOf (ts ++ us) = contentOf ts ++ contentOf us := by
  simp [contentOf]

theorem contentOf_cons (t : Token) (ts : List Token) : contentOf (t :: ts) =
    if t.lexeme.isContent then t.lexeme :: contentOf ts else contentOf ts := by
  simp [contentOf, List.filter_cons]

theorem contentOf_operator {t : Token} {op : Operator} (h : t.kind = .operator op) :
    contentOf [t] = [] := by
  simp [contentOf_cons, Token.kind_eq_operator.1 h]

theorem contentOf_mark {t : Token} {m : Mark} (h : t.kind = .mark m) : contentOf [t] = [] := by
  simp [contentOf_cons, Token.kind_eq_mark.1 h]

theorem contentOf_comments {ts : List Token} (h : ∀ t ∈ ts, t.isComment = true) :
    contentOf ts = [] := by
  induction ts with
  | nil => rfl
  | cons t ts ih =>
    obtain ⟨ht, hts⟩ := List.forall_mem_cons.1 h
    obtain ⟨body, hlex⟩ := Token.isComment_iff.1 ht
    simp [contentOf_cons, hlex, ih hts]

/-! ## Where things stand -/

namespace Expr

mutual

/-- What an expression stands on has its content. -/
theorem StandsOn.contentOf_eq : (e : Expr) → {ts : List Token} → e.StandsOn ts →
    contentOf ts = e.content
  | literal _ _, _, h | var _ _, _, h => h
  | binary _ lhs rhs _, _, ⟨_, _, _, hts, hk, _, hl, hr⟩ => by
    simp [hts, contentOf_cons, Token.kind_eq_operator.1 hk, hl.contentOf_eq lhs,
      hr.contentOf_eq rhs, content]
  | call _ args _, _, ⟨_, _, hts, hfront, hargs⟩ => by
    rw [hts, contentOf_append, hfront, hargs.contentOf_eq args]
    rfl
  | declaration _ _ initial _, _, ⟨_, _, hts, hfront, hinitial⟩ => by
    rw [hts, contentOf_append, hfront, hinitial.contentOf_eq initial]
    rfl

theorem AllStandOn.contentOf_eq : (es : List Expr) → {ts : List Token} → AllStandOn es ts →
    contentOf ts = contents es
  | [], _, h => h
  | e :: es, _, ⟨_, _, hts, he, hes⟩ => by
    rw [hts, contentOf_append, he.contentOf_eq e, hes.contentOf_eq es]
    rfl

theorem InitialStandsOn.contentOf_eq : (e : Option Expr) → {ts : List Token} →
    InitialStandsOn e ts → contentOf ts = initialContent e
  | none, _, h => h
  | some e, _, h => StandsOn.contentOf_eq e h

end

/-- Tokens in front that have no content may be added. -/
theorem StandsOn.behind {gap : List Token} (hgap : contentOf gap = []) :
    (e : Expr) → {ts : List Token} → e.StandsOn ts → e.StandsOn (gap ++ ts)
  | literal _ _, ts, h | var _ _, ts, h => by
    unfold StandsOn at h ⊢
    rw [contentOf_append, hgap, h]
    rfl
  | binary _ lhs _ _, _, ⟨left, t, right, hts, hk, hloc, hl, hr⟩ =>
    ⟨gap ++ left, t, right, by rw [hts, List.append_assoc], hk, hloc, hl.behind hgap lhs, hr⟩
  | call _ _ _, _, ⟨front, back, hts, hfront, hback⟩
  | declaration _ _ _ _, _, ⟨front, back, hts, hfront, hback⟩ =>
    ⟨gap ++ front, back, by rw [hts, List.append_assoc],
      by rw [contentOf_append, hgap, hfront]; rfl, hback⟩

mutual

/-- Tokens behind that have no content may be added. -/
theorem StandsOn.before {gap : List Token} (hgap : contentOf gap = []) :
    (e : Expr) → {ts : List Token} → e.StandsOn ts → e.StandsOn (ts ++ gap)
  | literal _ _, ts, h | var _ _, ts, h => by
    unfold StandsOn at h ⊢
    rw [contentOf_append, hgap, h]
    rfl
  | binary _ _ rhs _, _, ⟨left, t, right, hts, hk, hloc, hl, hr⟩ =>
    ⟨left, t, right ++ gap, by rw [hts, List.append_assoc]; rfl, hk, hloc, hl,
      hr.before hgap rhs⟩
  | call _ args _, _, ⟨front, back, hts, hfront, hback⟩ =>
    ⟨front, back ++ gap, by rw [hts, List.append_assoc], hfront, hback.before hgap args⟩
  | declaration _ _ initial _, _, ⟨front, back, hts, hfront, hback⟩ =>
    ⟨front, back ++ gap, by rw [hts, List.append_assoc], hfront, hback.before hgap initial⟩

theorem AllStandOn.before {gap : List Token} (hgap : contentOf gap = []) :
    (es : List Expr) → {ts : List Token} → AllStandOn es ts → AllStandOn es (ts ++ gap)
  | [], ts, h => by
    unfold AllStandOn at h ⊢
    rw [contentOf_append, hgap, h]
    rfl
  | _ :: es, _, ⟨front, back, hts, he, hes⟩ =>
    ⟨front, back ++ gap, by rw [hts, List.append_assoc], he, hes.before hgap es⟩

theorem InitialStandsOn.before {gap : List Token} (hgap : contentOf gap = []) :
    (e : Option Expr) → {ts : List Token} → InitialStandsOn e ts → InitialStandsOn e (ts ++ gap)
  | none, ts, h => by
    unfold InitialStandsOn at h ⊢
    rw [contentOf_append, hgap, h]
    rfl
  | some e, _, h => StandsOn.before hgap e h

end

end Expr

namespace Item

theorem StandsOn.contentOf_eq {item : Item} {ts : List Token} (h : item.StandsOn ts) :
    contentOf ts = item.content := by
  cases item with
  | use i => exact h
  | define d =>
    obtain ⟨front, back, rfl, hfront, hback⟩ := h
    rw [contentOf_append, hfront, hback.contentOf_eq]
    rfl
  | evaluate body _ => exact Expr.StandsOn.contentOf_eq body h

/-- Any tokens may be added in front. -/
theorem AllStandOn.of_suffix {items : List Item} {ts us : List Token} (h : AllStandOn items us)
    (hs : us <:+ ts) : AllStandOn items ts := by
  obtain ⟨used, rfl⟩ := hs
  cases items with
  | nil => trivial
  | cons item items =>
    obtain ⟨gap, front, back, rfl, hitem, hitems⟩ := h
    exact ⟨used ++ gap, front, back, (List.append_assoc ..).symm, hitem, hitems⟩

theorem AllStandOn.sublist {items : List Item} {ts : List Token} (h : AllStandOn items ts) :
    List.Sublist (items.flatMap content) (contentOf ts) := by
  induction items generalizing ts with
  | nil => exact List.nil_sublist _
  | cons item items ih =>
    obtain ⟨gap, front, back, rfl, hitem, hitems⟩ := h
    rw [List.flatMap_cons, contentOf_append, contentOf_append, ← hitem.contentOf_eq]
    exact ((List.Sublist.refl _).append (ih hitems)).trans (List.sublist_append_right _ _)

end Item

/-! ## Readings and what they pass over -/

namespace Read

variable {α β : Type} {d : Nat} {t : Token} {ts : List Token}

/-- From a cursor that shows `ts` inside `d` expressions, the reading passes over
    tokens with which its value is in the relation `S`, if it does not fail. -/
def Covers (p : Read α) (d : Nat) (ts : List Token) (S : α → List Token → Prop) : Prop :=
  Ensures p d ts (fun a ts' => ∃ used, ts = used ++ ts' ∧ S a used) fun _ _ => True

namespace Covers

variable {p : Read α} {f : α → Read β} {S S' : α → List Token → Prop} {R : β → List Token → Prop}

theorem of_cons (h : ∀ t us, ts = t :: us → Covers p d (t :: us) S) : Covers p d ts S :=
  Ensures.of_cons fun t us hts _ => by
    subst hts
    exact h t us rfl

theorem imp (h : Covers p d ts S) (hS : ∀ a used, S a used → S' a used) : Covers p d ts S' :=
  Ensures.imp h fun a _ ⟨used, hts, hs⟩ => ⟨used, hts, hS a used hs⟩

theorem pure {a : α} (h : S a []) : Covers (pure a) d ts S :=
  Ensures.pure ⟨[], rfl, h⟩

theorem bind (h : Covers p d ts S) (hf : ∀ a used ts', S a used →
    Covers (f a) d ts' fun b more => R b (used ++ more)) : Covers (p >>= f) d ts R := by
  refine Ensures.bind h ?_
  rintro a ts' - - ⟨used, rfl, hs⟩
  refine Ensures.imp (hf a used ts' hs) ?_
  rintro b ts'' ⟨more, rfl, hr⟩
  exact ⟨used ++ more, (List.append_assoc ..).symm, hr⟩

theorem current_bind {f : Token → Read β} (h : Covers (f t) d (t :: ts) R) :
    Covers (Read.current >>= f) d (t :: ts) R :=
  Ensures.current_bind h

theorem get_bind {f : Cursor → Read β} (h : ∀ c, Covers (f c) d ts R) :
    Covers (get >>= f) d ts R :=
  Ensures.get_bind fun c _ => h c

theorem advance (ht : t.lexeme ≠ .endOfInput) {S : Unit → List Token → Prop} (h : S () [t]) :
    Covers Read.advance d (t :: ts) S :=
  Ensures.advance ht ⟨[t], rfl, h⟩

theorem advance_bind {f : Unit → Read β} (ht : t.lexeme ≠ .endOfInput)
    (h : Covers (f ()) d ts fun b more => R b (t :: more)) :
    Covers (Read.advance >>= f) d (t :: ts) R := by
  refine Ensures.advance_bind ht (Ensures.imp h ?_)
  rintro b ts' ⟨more, rfl, hr⟩
  exact ⟨t :: more, rfl, hr⟩

theorem refuse {cause : Cause} : Covers (Read.refuse t cause : Read α) d (t :: ts) S :=
  Ensures.refuse (fun _ _ => trivial) fun _ => trivial

theorem expect {select : Lexeme → Option α} {expected : String} {context : Option String}
    {S : Token × α → List Token → Prop} (he : select .endOfInput = none)
    (h : ∀ t a, select t.lexeme = some a → S (t, a) [t]) :
    Covers (Read.expect select expected context) d ts S :=
  of_cons fun t _ _ => Ensures.expect he (fun a ha => ⟨[t], rfl, h t a ha⟩)
    (fun _ _ => trivial) fun _ _ => trivial

theorem discard {S : Unit → List Token → Prop} (h : Covers p d ts fun _ => S ()) :
    Covers (discard p) d ts S :=
  Ensures.discard h

theorem nested (h : Covers p (d + 1) ts S) : Covers (nested p) d ts S := Ensures.nested h

/-- Comments have no content. -/
theorem skipComments_bind {f : Unit → Read β} (h : ∀ gap t us, contentOf gap = [] →
    Covers (f ()) d (t :: us) fun b more => R b (gap ++ more)) :
    Covers (Read.skipComments >>= f) d ts R := by
  refine Ensures.skipComments_bind fun t us hts => ?_
  have none : contentOf (ts.takeWhile Token.isComment) = [] :=
    contentOf_comments fun t ht => List.mem_takeWhile_imp ht
  refine Ensures.imp (h _ t us none) ?_
  rintro b ts' ⟨more, hmore, hr⟩
  refine ⟨ts.takeWhile Token.isComment ++ more, ?_, hr⟩
  rw [List.append_assoc, ← hmore, ← hts, List.takeWhile_append_dropWhile]

end Covers

/-! ## Expected lexemes -/

theorem lexeme_of_identifier {name : String} (h : identifier t.lexeme = some name) :
    t.lexeme = .identifier name := by
  unfold identifier at h
  split at h
  · next hlex =>
    cases h
    exact hlex
  · cases h

theorem lexeme_of_typeName {name : String} (h : typeName t.lexeme = some name) :
    t.lexeme = .typeName name := by
  unfold typeName at h
  split at h
  · next hlex =>
    cases h
    exact hlex
  · cases h

theorem lexeme_of_operator? {op : Operator} (h : t.operator? = some op) :
    t.lexeme = .operator op := by
  unfold Token.operator? at h
  split at h
  · next hlex =>
    split at h
    · cases h
    · cases h
      exact hlex
  · next hlex =>
    cases h
    exact hlex
  · cases h

theorem expect_identifier_covers {expected : String} {context : Option String} :
    Covers (expect identifier expected context) d ts
      fun r used => contentOf used = [.identifier r.2] :=
  Covers.expect rfl fun _ _ h => by simp [contentOf_cons, lexeme_of_identifier h]

theorem expect_ofKind_covers {kind : Kind} {expected : String} {context : Option String}
    (he : ofKind kind .endOfInput = none)
    (hk : ∀ t : Token, t.kind = kind → contentOf [t] = []) :
    Covers (expect (ofKind kind) expected context) d ts fun _ used => contentOf used = [] :=
  Covers.expect he fun t _ h => hk t (ofKind_eq_some h)

theorem discard_expect_covers {kind : Kind} {expected : String} {context : Option String}
    (he : ofKind kind .endOfInput = none)
    (hk : ∀ t : Token, t.kind = kind → contentOf [t] = []) :
    Covers (discard (expect (ofKind kind) expected context)) d ts
      fun _ used => contentOf used = [] :=
  Covers.discard (expect_ofKind_covers he hk)

/-! ## Expressions -/

/-- The reading gives an expression that stands on the tokens passed over. -/
def CoversExpression (p : Read Expr) : Prop := ∀ d ts, Covers p d ts Expr.StandsOn

variable {inner operand : Read Expr}

theorem argumentsWithin_covers (hi : CoversExpression inner) (rounds : List (Except Fault Token)) :
    Covers (argumentsWithin inner rounds) d ts Expr.AllStandOn := by
  induction rounds generalizing ts with
  | nil => exact Covers.pure rfl
  | cons r rounds ih =>
    refine Covers.skipComments_bind fun gap t us hgap => Covers.current_bind ?_
    split
    · next ht =>
      refine Covers.advance_bind (by simp [ht]) (Covers.pure ?_)
      simp [Expr.AllStandOn, hgap, contentOf_cons, ht]
    · exact Covers.refuse
    · refine (hi d (t :: us)).bind fun arg used _ harg => ih.bind fun args more _ hargs => ?_
      refine Covers.pure ⟨gap ++ used, more, ?_, harg.behind hgap, hargs⟩
      rw [List.append_nil, List.append_assoc]

theorem named_covers (hi : CoversExpression inner) {name : String}
    (ht : t.lexeme = .identifier name) :
    Covers (named inner t name) d (t :: ts) Expr.StandsOn := by
  refine Covers.advance_bind (by simp [ht]) (Covers.of_cons fun u us _ => Covers.current_bind ?_)
  split
  · next hu =>
    refine Covers.advance_bind (by simp [hu]) ?_
    refine Covers.bind (Covers.get_bind fun _ => argumentsWithin_covers hi _) ?_
    intro args used _ h
    exact Covers.pure ⟨[t, u], used, by simp, by simp [contentOf_cons, ht, hu], h⟩
  · exact Covers.pure (by simp [Expr.StandsOn, contentOf_cons, ht])

theorem declaration_covers (hi : CoversExpression inner) {m : Mark} (ht : t.lexeme = .mark m)
    (isMutable : Bool) : Covers (declaration inner t isMutable) d (t :: ts) Expr.StandsOn := by
  refine Covers.advance_bind (by simp [ht]) (expect_identifier_covers.bind ?_)
  rintro ⟨_, name⟩ used ts₁ hname
  have front : contentOf (t :: used) = [.identifier name] := by simp [contentOf_cons, ht, hname]
  refine Covers.of_cons fun u us _ => Covers.current_bind ?_
  split
  · next hu =>
    refine Covers.advance_bind (by simp [hu]) ((hi d us).bind fun value more _ hvalue => ?_)
    have equals : contentOf [u] = [] := contentOf_operator (Token.kind_eq_operator.2 hu)
    exact Covers.pure ⟨t :: used, u :: more, by simp, front, hvalue.behind equals value⟩
  · exact Covers.pure ⟨t :: used, [], by simp, front, rfl⟩

theorem literal_covers (value : Literal) {l : Option Location} (ht : t.lexeme = value.lexeme) :
    Covers (do advance; return .literal value l) d (t :: ts) Expr.StandsOn := by
  refine Covers.advance_bind ?_ (Covers.pure ?_)
  · cases value <;> simp [ht, Literal.lexeme]
  · cases value <;> simp [Expr.StandsOn, contentOf_cons, ht, Literal.lexeme]

theorem primary_covers (hi : CoversExpression inner) : CoversExpression (primary inner) := by
  intro d ts
  refine Covers.skipComments_bind fun gap t us hgap => ?_
  refine Covers.imp (S := Expr.StandsOn) ?_ fun e used h => h.behind hgap
  refine Covers.current_bind ?_
  split
  · next ht => exact named_covers hi ht
  · next n ht => exact literal_covers (.integer n) ht
  · next x ht => exact literal_covers (.real x) ht
  · next body ht => exact literal_covers (.string body) ht
  · next ht => exact declaration_covers hi ht false
  · next ht => exact declaration_covers hi ht true
  · next ht =>
    refine Covers.advance_bind (by simp [ht]) ((hi d us).bind fun e used _ he => ?_)
    refine Covers.skipComments_bind fun gap' _ _ hgap' => Covers.bind
      (discard_expect_covers rfl fun _ => contentOf_mark) fun _ right _ hright => Covers.pure ?_
    -- The parentheses and the comments before the second one have no content.
    have behind : contentOf (gap' ++ (right ++ [])) = [] := by simp [hgap', hright]
    exact (he.before behind e).behind (contentOf_mark (Token.kind_eq_mark.2 ht))
  · exact Covers.refuse

/-- Behind the operand `lhs`, which stands on `left`. -/
theorem chainWithin_covers (ho : CoversExpression operand) (rounds : List (Except Fault Token))
    (least : Nat) {lhs : Expr} {left : List Token} (hl : lhs.StandsOn left) :
    Covers (chainWithin operand rounds least lhs) d ts fun e used => e.StandsOn (left ++ used) := by
  induction rounds generalizing ts least lhs left with
  | nil => exact Covers.pure (by simpa using hl)
  | cons r rounds ih =>
    refine Covers.of_cons fun t us _ => ?_
    refine Ensures.operatorFrom_bind (fun _ => Covers.pure (by simpa using hl)) fun op hop _ => ?_
    have lexeme := lexeme_of_operator? hop
    refine Covers.advance_bind (by simp [lexeme]) ((ho d us).bind fun rhs first _ hr => ?_)
    refine (ih (op.tier + 1) hr).bind fun rhs more _ hr => ?_
    have joined : (Expr.binary op lhs rhs t.location).StandsOn (left ++ t :: (first ++ more)) :=
      ⟨left, t, first ++ more, rfl, Token.kind_eq_operator.2 lexeme, rfl, hl, hr⟩
    refine (ih least joined).imp fun e used he => ?_
    simpa using he

theorem expressionWithin_covers (limit : Int) (levels : Nat) :
    CoversExpression (expressionWithin limit levels) := by
  induction levels with
  | zero =>
    intro d ts
    exact Covers.nested (Covers.of_cons fun t us _ =>
      Covers.current_bind (Ensures.throw trivial))
  | succ levels ih =>
    intro d ts
    have operand := primary_covers ih
    exact Covers.nested ((operand (d + 1) ts).bind fun lhs left _ hl =>
      Covers.get_bind fun _ => chainWithin_covers operand _ 0 hl)

theorem expression_covers (limit : Int) : CoversExpression (expression limit) :=
  fun d ts => Covers.get_bind fun _ => expressionWithin_covers limit _ d ts

/-! ## Statements -/

theorem use_covers : Covers use d ts fun i used => contentOf used = i.content := by
  refine Covers.bind (expect_ofKind_covers rfl fun _ => contentOf_mark) ?_
  rintro ⟨dollar, _⟩ front _ hdollar
  refine expect_identifier_covers.bind ?_
  rintro ⟨_, name⟩ used _ hname
  refine Covers.of_cons fun t us _ => Covers.current_bind ?_
  split
  · next ht =>
    refine Covers.advance_bind (by simp [ht]) (expect_identifier_covers.bind ?_)
    rintro ⟨_, member⟩ more _ hmember
    refine Covers.pure ?_
    simp [hdollar, hname, contentOf_cons, ht, hmember, Import.content]
  · refine Covers.pure ?_
    simp [hdollar, hname, Import.content]

theorem typeNamesWithin_covers (rounds : List (Except Fault Token)) :
    Covers (typeNamesWithin rounds) d ts
      fun names used => contentOf used = names.map .typeName := by
  induction rounds generalizing ts with
  | nil => exact Covers.pure rfl
  | cons r rounds ih =>
    refine Covers.of_cons fun t us _ => Covers.current_bind ?_
    split
    · exact Covers.pure rfl
    · next name hname =>
      have lexeme := lexeme_of_typeName hname
      refine Covers.advance_bind (by simp [lexeme]) (ih.bind fun names used _ h => Covers.pure ?_)
      simp [contentOf_cons, lexeme, h]

theorem result_covers : Covers result d ts
    fun name used => contentOf used = name.toList.map .typeName := by
  refine Covers.of_cons fun t us _ => Covers.current_bind ?_
  split
  · next ht =>
    refine Covers.advance_bind (by simp [ht]) (Covers.bind (Covers.expect rfl
      (S := fun r used => contentOf used = [.typeName r.2]) fun t name hname => ?_) ?_)
    · simp [contentOf_cons, lexeme_of_typeName hname]
    · rintro ⟨_, name⟩ used _ hname
      refine Covers.pure ?_
      simp [contentOf_cons, ht, hname]
  · exact Covers.pure rfl

theorem parameterMark_covers : Covers parameterMark d ts fun _ used => contentOf used = [] := by
  refine Covers.of_cons fun t us _ => Covers.current_bind ?_
  split
  · next ht => exact Covers.advance (by simp [ht]) (by simp [contentOf_cons, ht])
  · next ht => exact Covers.advance (by simp [ht]) (by simp [contentOf_cons, ht])
  · exact Covers.refuse

/-- Each of the types gets a name. -/
theorem parameters_covers (types : List String) : Covers (parameters types) d ts
    fun ps used => ps.map (·.type) = types ∧ contentOf used = ps.map (.identifier ·.name) := by
  induction types generalizing ts with
  | nil => exact Covers.pure ⟨rfl, rfl⟩
  | cons type types ih =>
    refine parameterMark_covers.bind fun _ sign _ hsign => expect_identifier_covers.bind ?_
    rintro ⟨_, name⟩ used _ hname
    refine ih.bind fun ps more _ ⟨htypes, hnames⟩ => Covers.pure ?_
    simp [htypes, hsign, hname, hnames]

theorem prototype_covers : Covers prototype d ts
    fun p used => contentOf used = p.content := by
  refine expect_identifier_covers.bind ?_
  rintro ⟨_, name⟩ used _ hname
  refine Covers.bind (discard_expect_covers rfl fun _ => contentOf_operator) fun _ bar _ hbar => ?_
  refine Covers.bind (Covers.get_bind fun _ => typeNamesWithin_covers _) fun types _ _ htypes => ?_
  refine result_covers.bind fun _ _ _ hresult => ?_
  refine (parameters_covers types).bind fun ps _ _ ⟨hps, hnames⟩ => ?_
  refine Covers.bind (discard_expect_covers rfl fun _ => contentOf_operator) ?_
  intro _ equals _ hequals
  subst hps
  refine Covers.pure ?_
  simp [hname, hbar, htypes, hresult, hnames, hequals, Prototype.content]

theorem define_covers (limit : Int) : Covers (define limit) d ts
    fun x used => (Item.define x).StandsOn used := by
  refine Covers.bind (expect_ofKind_covers rfl fun _ => contentOf_operator) ?_
  rintro ⟨dot, _⟩ front _ hdot
  refine prototype_covers.bind fun prototype used _ hprototype => ?_
  refine (expression_covers limit d _).bind fun body more _ hbody => Covers.pure ?_
  exact ⟨front ++ used, more, by simp, by simp [hdot, hprototype], hbody⟩

/-- A statement stands on the tokens that its reading has passed over. -/
theorem item_covers (limit : Int) : Covers (item limit) d ts Item.StandsOn := by
  refine Covers.of_cons fun t us _ => Covers.current_bind ?_
  split
  · exact use_covers.bind fun i used _ h => Covers.pure (by simpa [Item.StandsOn] using h)
  · exact (define_covers limit).bind fun x used _ h => Covers.pure (by simpa using h)
  · refine Covers.current_bind ((expression_covers limit d _).bind fun body used _ h => ?_)
    exact Covers.pure (by simpa [Item.StandsOn] using h)

end Read

/-! ## Runs -/

namespace Session

variable {limit : Int} {consumer : Consumer} {count : Nat} {s s' : Session} {o : Outcome}
  {ts ts' : List Token} {item : Item}

/-- The item that has been read stands on the tokens that the session has moved
    over. -/
theorem standsOn_of_perform (shows : s.cursor.Shows 0 ts)
    (hp : s.perform (Read.item limit) = (.ok item, s')) (hm : s.Moves ts s' ts') :
    ∃ used, ts = used ++ ts' ∧ item.StandsOn used := by
  obtain ⟨c, hc, rfl⟩ := perform_eq_ok hp
  obtain ⟨ts₁, hl, used, hts, stands⟩ := (Read.item_covers limit).ok shows hc
  obtain rfl := hm.leads.shows.unique hl.shows
  exact ⟨used, hts, stands⟩

/-- The items of a run stand on the tokens that it runs over. -/
theorem Runs.standOn (h : Runs limit consumer count s ts o) (shows : s.cursor.Shows 0 ts) :
    Item.AllStandOn o.items ts := by
  induction h with
  | finish _ | full _ _ _ _ _ _ => trivial
  | comment _ hm _ ih => exact (ih (hm.shows shows)).of_suffix hm.leads.suffix
  | @item _ s s' _ _ ts' _ _ _ _ hp hm _ _ _ ih =>
    have shows' : s'.cursor.Shows 0 ts' := hm.shows shows
    obtain ⟨used, hts, stands⟩ := standsOn_of_perform shows hp hm
    exact ⟨[], used, ts', hts, stands, ih shows'⟩
  | objection _ _ hp hm _ _ =>
    obtain ⟨used, hts, stands⟩ := standsOn_of_perform shows hp hm
    exact ⟨[], used, _, hts, stands, trivial⟩
  | @resume _ s s' _ _ _ _ e _ _ _ _ hm _ _ hm' _ ih =>
    have shows' : (s'.collect e).cursor.Shows 0 _ := cursor_collect s' e ▸ hm.shows shows
    exact (ih (hm'.shows shows')).of_suffix (hm'.leads.suffix.trans hm.leads.suffix)

/-- Without errors, the items have all the content of the tokens. -/
theorem Clean.contentOf_eq (h : Clean limit consumer count s ts o) (shows : s.cursor.Shows 0 ts) :
    contentOf ts = o.items.flatMap Item.content := by
  induction h with
  | finish ht => simp [contentOf_cons, ht, Session.finish]
  | comment ht hm _ ih =>
    obtain ⟨body, hlex⟩ := Token.isComment_iff.1 ht
    simpa [contentOf_cons, hlex] using ih (hm.shows shows)
  | @item _ s s' _ _ ts' item o _ _ hp hm _ _ _ ih =>
    have shows' : s'.cursor.Shows 0 ts' := hm.shows shows
    obtain ⟨used, hts, stands⟩ := standsOn_of_perform shows hp hm
    rw [hts, contentOf_append, stands.contentOf_eq, ih shows']
    rfl

end Session

/-- The program stands on the tokens of the text, which come one behind the other.
    So its content is part of that of the text, in the same order, and it is all of
    that if there are no errors. -/
theorem readProgram_content (file text : String) (skip : Bool) (nesting limit : Int)
    (fit : NumbersFit text.toList) :
    let tokens := tokensOf file text skip
    let o := readProgram (.ofText file text) skip nesting .all (.empty limit)
    o.stop = none ∧ tokens.Pairwise (fun t u => t.position.Before u.position) ∧
      o.program.StandsOn tokens ∧ List.Sublist o.program.content (contentOf tokens) ∧
      (o.errors = [] → o.program.content = contentOf tokens) := by
  intro tokens o
  obtain ⟨ts, hts⟩ := Scanner.splits_ofText file fit
  obtain ⟨s, opens, run⟩ := runs_readProgram hts skip nesting .all (.empty limit)
  have htokens : tokens = shown skip ts := tokensOf_eq hts skip
  rw [htokens]
  have stop : o.stop = none := run.stop_eq_none
  have stand := run.standOn opens.shows
  refine ⟨stop, hts.2.pairwise.2.sublist List.filter_sublist, stand, stand.sublist, ?_⟩
  intro errors
  exact ((run.clean opens.noted stop errors).contentOf_eq opens.shows).symm

/-- An import, a definition whose types come before its parameters, and a
    declaration. -/
theorem readProgram_content_definition :
    let text := "$m:n\n.f|A B -> C 'p ,q = (p + 1.5) * g(q ;c\n \"s\")\n,x = 2"
    let o := readProgram (.ofText "main" text) false 100 .all (.empty 100)
    NumbersFit text.toList ∧ o.errors = [] ∧ o.program.StandsOn (tokensOf "main" text false) ∧
      o.program.content = contentOf (tokensOf "main" text false) ∧ o.program.content.length = 15 := by
  intro text o
  have fit : NumbersFit text.toList := by decide +kernel
  have errors : o.errors = [] := by decide +kernel
  obtain ⟨-, -, stands, -, content⟩ := readProgram_content "main" text false 100 100 fit
  exact ⟨fit, errors, stands, content errors, by decide +kernel⟩

end Soul
