import Mathlib.Data.List.Basic
import Soul.Token

/-!
# The grammar

    program    ::= (use | definition | expression)*
    use        ::= '$' identifier (':' identifier)?
    definition ::= '.' prototype expression
    prototype  ::= identifier '|' type^k ('->' type)? (("'" | ',') identifier)^k '='
    expression ::= primary (operator primary)*
    primary    ::= identifier ('(' expression* ')')?
                 | integer | real | string
                 | ("'" | ',') identifier ('=' expression)?
                 | '(' expression ')'

The rules are stated over lists of tokens, without their reading. A prototype
names as many parameters as it lists types, the `k` of its rule. The operators
are all binary operators, but a dot that is the first token of its line is none
(`IsBinary`). A dot that opens a definition behind another definition, or behind
an expression, has to be the first token of its line (`Statements`).

The grammar is ambiguous. In `f (x)` a call or two expressions may be seen, in
`'a = b + c` the sum may be the initial value or the declaration an operand.
-/

namespace Soul

/-! ## Kinds and lexemes -/

namespace Token

variable {t : Token}

theorem kind_eq_mark {m : Mark} : t.kind = .mark m ↔ t.lexeme = .mark m := by
  unfold kind
  cases t.lexeme <;> simp [Lexeme.kind]

theorem kind_eq_operator {op : Operator} : t.kind = .operator op ↔ t.lexeme = .operator op := by
  unfold kind
  cases t.lexeme <;> simp [Lexeme.kind]

theorem kind_eq_identifier : t.kind = .identifier ↔ ∃ name, t.lexeme = .identifier name := by
  unfold kind
  cases t.lexeme <;> simp [Lexeme.kind]

theorem kind_eq_typeName : t.kind = .typeName ↔ ∃ name, t.lexeme = .typeName name := by
  unfold kind
  cases t.lexeme <;> simp [Lexeme.kind]

theorem isComment_iff : t.isComment = true ↔ ∃ body, t.lexeme = .comment body := by
  unfold isComment
  cases t.lexeme <;> simp

theorem isComment_of_kind (h : t.kind ≠ .comment) : t.isComment = false := by
  cases hc : t.isComment with
  | false => rfl
  | true =>
    refine absurd ?_ h
    unfold isComment at hc
    split at hc
    · next hlex => simp [kind, hlex, Lexeme.kind]
    · exact absurd hc (by simp)

end Token

namespace Grammar

/-! ## Expressions -/

/-- A binary operator. A dot is one unless it is the first token of its line. -/
def IsBinary (t : Token) : Prop :=
  ∃ op, t.kind = .operator op ∧ (op = .dot → t.startsLine = false)

/-- The sign in front of the name of a variable or a parameter. -/
def IsSign (t : Token) : Prop := t.kind = .mark .apostrophe ∨ t.kind = .mark .comma

/-- A constant. -/
def IsLiteral (t : Token) : Prop := t.kind = .integer ∨ t.kind = .real ∨ t.kind = .string

/-- The parts of an expression. -/
inductive Part where
  | expression
  | primary
  /-- Any number of operators, each with the primary behind it. -/
  | operands
  /-- Any number of expressions. -/
  | arguments

/-- The tokens make up a part of an expression. -/
inductive Derives : Part → List Token → Prop
  | expression {first others : List Token} : Derives .primary first → Derives .operands others →
      Derives .expression (first ++ others)
  | noOperand : Derives .operands []
  | operand {op : Token} {first others : List Token} : IsBinary op → Derives .primary first →
      Derives .operands others → Derives .operands (op :: (first ++ others))
  | noArgument : Derives .arguments []
  | argument {first others : List Token} : Derives .expression first →
      Derives .arguments others → Derives .arguments (first ++ others)
  | named {name : Token} : name.kind = .identifier → Derives .primary [name]
  | call {name left right : Token} {args : List Token} : name.kind = .identifier →
      left.kind = .mark .leftParen → Derives .arguments args → right.kind = .mark .rightParen →
      Derives .primary (name :: left :: (args ++ [right]))
  | literal {t : Token} : IsLiteral t → Derives .primary [t]
  | declaration {sign name : Token} : IsSign sign → name.kind = .identifier →
      Derives .primary [sign, name]
  | initialized {sign name equals : Token} {value : List Token} : IsSign sign →
      name.kind = .identifier → equals.kind = .operator .assign → Derives .expression value →
      Derives .primary (sign :: name :: equals :: value)
  | parenthesized {left right : Token} {inside : List Token} : left.kind = .mark .leftParen →
      Derives .expression inside → right.kind = .mark .rightParen →
      Derives .primary (left :: (inside ++ [right]))

/-! ## Statements -/

/-- An import. -/
inductive IsUse : List Token → Prop
  | module {dollar name : Token} : dollar.kind = .mark .dollar → name.kind = .identifier →
      IsUse [dollar, name]
  | member {dollar name colon member : Token} : dollar.kind = .mark .dollar →
      name.kind = .identifier → colon.kind = .mark .colon → member.kind = .identifier →
      IsUse [dollar, name, colon, member]

/-- The type of a result, which may be missing. -/
inductive IsResult : List Token → Prop
  | none : IsResult []
  | some {arrow type : Token} : arrow.kind = .mark .arrow → type.kind = .typeName →
      IsResult [arrow, type]

/-- The names of so many parameters. -/
inductive IsParameters : Nat → List Token → Prop
  | none : IsParameters 0 []
  | more {n : Nat} {sign name : Token} {others : List Token} : IsSign sign →
      name.kind = .identifier → IsParameters n others →
      IsParameters (n + 1) (sign :: name :: others)

/-- A prototype with the equals sign behind it. -/
inductive IsPrototype : List Token → Prop
  | intro {name bar equals : Token} {types result parameters : List Token} :
      name.kind = .identifier → bar.kind = .operator .bitOr →
      (∀ t ∈ types, t.kind = .typeName) → IsResult result →
      IsParameters types.length parameters → equals.kind = .operator .assign →
      IsPrototype (name :: bar :: (types ++ (result ++ (parameters ++ [equals]))))

/-- The statements of a program. That they stand behind a definition or an
    expression is `follows`. -/
inductive Statements : (follows : Bool) → List Token → Prop
  | none {follows : Bool} : Statements follows []
  | use {follows : Bool} {first others : List Token} : IsUse first → Statements false others →
      Statements follows (first ++ others)
  | define {follows : Bool} {dot : Token} {prototype body others : List Token} :
      dot.kind = .operator .dot → (follows = true → dot.startsLine = true) →
      IsPrototype prototype → Derives .expression body → Statements true others →
      Statements follows (dot :: (prototype ++ (body ++ others)))
  | evaluate {follows : Bool} {first others : List Token} : Derives .expression first →
      Statements true others → Statements follows (first ++ others)

/-- The tokens make up a program. -/
def IsProgram (ts : List Token) : Prop := Statements false ts

/-! ## First tokens -/

theorem isBinary_iff {t : Token} : IsBinary t ↔ ∃ op, t.operator? = some op := by
  constructor
  · rintro ⟨op, hk, hdot⟩
    rw [Token.kind_eq_operator] at hk
    refine ⟨op, ?_⟩
    cases op <;> simp [Token.operator?, hk]
    exact hdot rfl
  · rintro ⟨op, ho⟩
    refine ⟨op, Token.kind_eq_operator.2 ?_, fun hd => ?_⟩
    · unfold Token.operator? at ho
      split at ho
      · next h => split at ho <;> simp_all
      · next h => simp_all
      · simp at ho
    · subst hd
      unfold Token.operator? at ho
      split at ho
      · split at ho <;> simp_all
      · next h hne => simp_all
      · simp at ho

/-- The token may be the first of an expression. -/
def StartsPrimary (t : Token) : Prop :=
  t.kind = .identifier ∨ IsLiteral t ∨ IsSign t ∨ t.kind = .mark .leftParen

theorem StartsPrimary.mem_kind {t : Token} (h : StartsPrimary t) :
    t.kind ∈ [.identifier, .integer, .real, .string, .mark .apostrophe, .mark .comma,
      .mark .leftParen] := by
  rcases h with h | (h | h | h) | (h | h) | h <;> simp [h]

theorem StartsPrimary.isComment {t : Token} (h : StartsPrimary t) : t.isComment = false :=
  Token.isComment_of_kind fun hk => absurd h.mem_kind (by simp [hk])

theorem StartsPrimary.operator? {t : Token} (h : StartsPrimary t) : t.operator? = none := by
  by_contra hne
  obtain ⟨op, ho⟩ := Option.ne_none_iff_exists'.1 hne
  obtain ⟨op', hk, -⟩ := isBinary_iff.2 ⟨op, ho⟩
  exact absurd h.mem_kind (by simp [hk])

theorem Derives.primary_cons {ts : List Token} (h : Derives .primary ts) :
    ∃ t ts', ts = t :: ts' ∧ StartsPrimary t := by
  cases h with
  | named hk => exact ⟨_, _, rfl, .inl hk⟩
  | call hk _ _ _ => exact ⟨_, _, rfl, .inl hk⟩
  | literal hl => exact ⟨_, _, rfl, .inr (.inl hl)⟩
  | declaration hs _ => exact ⟨_, _, rfl, .inr (.inr (.inl hs))⟩
  | initialized hs _ _ _ => exact ⟨_, _, rfl, .inr (.inr (.inl hs))⟩
  | parenthesized hk _ _ => exact ⟨_, _, rfl, .inr (.inr (.inr hk))⟩

theorem Derives.expression_cons {ts : List Token} (h : Derives .expression ts) :
    ∃ t ts', ts = t :: ts' ∧ StartsPrimary t := by
  cases h with
  | expression hp _ =>
    obtain ⟨t, ts', rfl, ht⟩ := hp.primary_cons
    exact ⟨t, _, rfl, ht⟩

/-- Operators and operands behind operators and operands. -/
theorem Derives.operands_append {ts us : List Token} (h : Derives .operands ts)
    (h' : Derives .operands us) : Derives .operands (ts ++ us) := by
  generalize hp : Part.operands = part at h
  induction h with
  | noOperand => exact h'
  | @operand op first others hop hfirst _ _ ih =>
    rw [List.cons_append, List.append_assoc]
    exact .operand hop hfirst (ih rfl)
  | _ => exact Part.noConfusion hp

end Grammar

end Soul
