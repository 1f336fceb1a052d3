import Soul.Proofs.Sound

/-!
# What follows the grammar is read

Reading is greedy and never goes back, while the grammar leaves open where an
expression ends: `f (x)` may be a call or two expressions, and the operators
behind `'a = b` may belong to the initial value or to the declaration. Greed
does no harm, since what is taken too much is always such that the rest can be
read just as well.

To say so, a reading is looked at together with all that may stand behind it, a
property `K` of tokens. It is asked of `K` that no operator comes first, and that
a parenthesis which comes first encloses an expression, behind which operators
with their operands and then `K` follow again (`Follows`). Where tokens are an
expression and then `K`, the reading of an expression succeeds and leaves `K`
(`CompleteExpression`), though perhaps not at the place where the derivation has
it. As each expression inside another one comes behind a token, the nesting is
never deeper than the number of tokens.
-/

namespace Soul

open Grammar

/-! ## What may stand behind an expression -/

/-- Operators with their operands, and then `K`. -/
def Continues (K : List Token → Prop) (ts : List Token) : Prop :=
  ∃ others k, ts = others ++ k ∧ Derives .operands others ∧ K k

/-- An expression in parentheses whose first one is gone, and then `K` behind
    operators with their operands. -/
def Encloses (K : List Token → Prop) (ts : List Token) : Prop :=
  ∃ inside right w, ts = inside ++ right :: w ∧ Derives .expression inside ∧
    right.kind = .mark .rightParen ∧ Continues K w

/-- An expression may stand in front of `K`. -/
structure Follows (K : List Token → Prop) : Prop where
  operator {k : List Token} : K k → ∃ t ts, k = t :: ts ∧ t.operator? = none
  paren {t : Token} {ts : List Token} : K (t :: ts) → t.kind = .mark .leftParen → Encloses K ts

section Behind

variable {K : List Token → Prop} {t : Token} {ts us : List Token}

theorem Continues.of (h : K ts) : Continues K ts := ⟨[], ts, rfl, .noOperand, h⟩

theorem Continues.exists_cons (hK : Follows K) (h : Continues K ts) : ∃ t us, ts = t :: us := by
  obtain ⟨others, k, rfl, -, hk⟩ := h
  obtain ⟨t, k', rfl, -⟩ := hK.operator hk
  cases others with
  | nil => exact ⟨t, k', rfl⟩
  | cons u others => exact ⟨u, others ++ t :: k', rfl⟩

/-- Where an operator comes first, its operand comes next. -/
theorem Continues.of_operator (hK : Follows K) {op : Operator} (h : Continues K (t :: ts))
    (ht : t.operator? = some op) :
    ∃ first w, ts = first ++ w ∧ Derives .primary first ∧ Continues K w := by
  obtain ⟨others, k, hts, hothers, hk⟩ := h
  cases hothers with
  | noOperand =>
    obtain ⟨u, k', rfl, hu⟩ := hK.operator hk
    obtain ⟨rfl, -⟩ := List.cons.inj hts
    exact absurd (hu.symm.trans ht) (by simp)
  | @operand op' first others _ hfirst hothers =>
    rw [List.cons_append, List.append_assoc] at hts
    exact ⟨first, others ++ k, (List.cons.inj hts).2, hfirst, others, k, rfl, hothers, hk⟩

theorem Continues.paren (hK : Follows K) (h : Continues K (t :: ts))
    (ht : t.kind = .mark .leftParen) : Encloses K ts := by
  obtain ⟨others, k, hts, hothers, hk⟩ := h
  cases hothers with
  | noOperand => exact hK.paren (hts ▸ hk) ht
  | operand hop _ _ =>
    obtain ⟨rfl, -⟩ := List.cons.inj hts
    obtain ⟨op, hkind, -⟩ := hop
    exact absurd (ht.symm.trans hkind) (by simp)

/-- All operators have been read where there is none any more. -/
theorem Continues.of_halts (hK : Follows K) (h : Continues K ts) (halts : Halts 0 ts) : K ts := by
  obtain ⟨t, us, rfl⟩ := h.exists_cons hK
  obtain ⟨others, k, hts, hothers, hk⟩ := h
  cases hothers with
  | noOperand => exact hts ▸ hk
  | operand hop _ _ =>
    obtain ⟨rfl, -⟩ := List.cons.inj hts
    obtain ⟨op, ho⟩ := isBinary_iff.1 hop
    exact absurd (halts t rfl op ho) (Nat.not_lt_zero _)

end Behind

theorem Grammar.Derives.expression_append {ts us : List Token} (h : Derives .expression ts)
    (hus : Derives .operands us) : Derives .expression (ts ++ us) := by
  cases h with
  | expression hfirst hothers =>
    rw [List.append_assoc]
    exact .expression hfirst (hothers.operands_append hus)

/-- An expression that begins with a parenthesis has a closing one. -/
theorem Grammar.Derives.encloses {K : List Token → Prop} {t : Token} {e k ts : List Token}
    (h : Derives .expression e) (hts : e ++ k = t :: ts) (ht : t.kind = .mark .leftParen)
    (hk : K k) : Encloses K ts := by
  cases h with
  | @expression first others hfirst hothers =>
    cases hfirst with
    | @parenthesized left right inside hleft hinside hright =>
      obtain ⟨rfl, rfl⟩ := List.cons.inj hts
      exact ⟨inside, right, others ++ k, by simp, hinside, hright, others, k, rfl, hothers, hk⟩
    | named hk | literal hk | call hk _ _ _ | declaration hk _ | initialized hk _ _ _ =>
      obtain ⟨rfl, -⟩ := List.cons.inj hts
      simp [ht, IsLiteral, IsSign] at hk

/-! ## Expressions -/

namespace Read

variable {α β : Type} {d n : Nat} {t : Token} {ts : List Token}

/-- What is known of the success of a reading that does not fail. -/
theorem Ensures.and {p : Read α} {Q Q' : α → List Token → Prop}
    {E : Failure → List Token → Prop} (h : Ensures p d ts Q Never) (h' : Ensures p d ts Q' E) :
    Ensures p d ts (fun a ts' => Q a ts' ∧ Q' a ts') Never := by
  intro c hc
  cases hp : p c with
  | ok a c' =>
    obtain ⟨ts₁, hl, hq⟩ := h.ok hc hp
    obtain ⟨ts₂, hl', hq'⟩ := h'.ok hc hp
    obtain rfl := hl.shows.unique hl'.shows
    exact ⟨ts₁, hl, hq, hq'⟩
  | error e c' => exact h.error hc hp

theorem Ensures.noComments_bind {f : Unit → Read β} {R : β → List Token → Prop}
    {E : Failure → List Token → Prop} (ht : t.isComment = false)
    (h : Ensures (f ()) d (t :: ts) R E) : Ensures (Read.skipComments >>= f) d (t :: ts) R E := by
  refine Ensures.skipComments_bind fun u us hts => ?_
  rw [List.dropWhile_cons_of_neg (by simp [ht])] at hts
  exact hts ▸ h

/-- The reading takes an expression in front of `K`, and perhaps more, and leaves
    `K`. There are no more than `n` tokens. -/
def CompleteExpression (n : Nat) (p : Read α) : Prop :=
  ∀ K, Follows K → ∀ d e k, Derives .expression e → K k → (e ++ k).length ≤ n →
    Ensures p d (e ++ k) (fun _ => K) Never

/-- The reading takes a primary, and perhaps more, of the operands in front of
    `K`. There are no more than `n` tokens. -/
def CompletePrimary (n : Nat) (p : Read α) : Prop :=
  ∀ K, Follows K → ∀ d e w, Derives .primary e → Continues K w → (e ++ w).length ≤ n →
    Ensures p d (e ++ w) (fun _ => Continues K) Never

/-- Arguments, the parenthesis that closes them, and then `K`. -/
def Closes (K : List Token → Prop) (ts : List Token) : Prop :=
  ∃ args right k, ts = args ++ right :: k ∧ Derives .arguments args ∧
    right.kind = .mark .rightParen ∧ K k

theorem operator?_of_mark {m : Mark} (h : t.kind = .mark m) : t.operator? = none := by
  simp [Token.operator?, Token.kind_eq_mark.1 h]

theorem closes_follows (K : List Token → Prop) : Follows (Closes K) where
  operator := by
    rintro _ ⟨args, right, k, rfl, hargs, hright, -⟩
    cases hargs with
    | noArgument => exact ⟨right, k, rfl, operator?_of_mark hright⟩
    | argument hfirst _ =>
      obtain ⟨t, ts, rfl, ht⟩ := hfirst.expression_cons
      exact ⟨t, _, rfl, ht.operator?⟩
  paren := by
    rintro t ts ⟨args, right, k, hts, hargs, hright, hk⟩ ht
    cases hargs with
    | noArgument =>
      obtain ⟨rfl, -⟩ := List.cons.inj hts
      exact absurd (ht.symm.trans hright) (by simp)
    | @argument first others hfirst hothers =>
      rw [List.append_assoc] at hts
      exact hfirst.encloses hts.symm ht ⟨others, right, k, rfl, hothers, hright, hk⟩

variable {inner operand : Read Expr} {K : List Token → Prop}

theorem argumentsWithin_complete (hs : SoundExpression inner) (hi : CompleteExpression n inner)
    (rounds : List (Except Fault Token)) (hr : ts.length ≤ rounds.length) (hn : ts.length ≤ n)
    (h : Closes K ts) : Ensures (argumentsWithin inner rounds) d ts (fun _ => K) Never := by
  induction rounds generalizing ts with
  | nil => exact Ensures.no_rounds hr
  | cons r rounds ih =>
    obtain ⟨args, right, k, rfl, hargs, hright, hk⟩ := h
    cases hargs with
    | noArgument =>
      have lexeme := Token.kind_eq_mark.1 hright
      refine Ensures.noComments_bind (by simp [Token.isComment, lexeme]) (Ensures.current_bind ?_)
      simp only [lexeme]
      exact Ensures.advance_bind (by simp [lexeme]) (Ensures.pure hk)
    | @argument first others hfirst hothers =>
      rw [List.append_assoc] at hr hn ⊢
      have closes : Closes K (others ++ right :: k) := ⟨others, right, k, rfl, hothers, hright, hk⟩
      have reads := (hi _ (closes_follows K) d _ _ hfirst closes hn).and (hs d _)
      obtain ⟨t, first, rfl, ht⟩ := hfirst.expression_cons
      refine Ensures.noComments_bind (ht.isComment) (Ensures.current_bind ?_)
      split
      · next hlex => exact absurd ht.mem_kind (by simp [Token.kind, hlex, Lexeme.kind])
      · next hlex => exact absurd ht.mem_kind (by simp [Token.kind, hlex, Lexeme.kind])
      · refine reads.bind ?_
        rintro arg ts' - hsuf ⟨hcloses, ⟨us, hus, hd⟩, -⟩
        -- More than `first` may have been taken, but never nothing.
        have shorter := length_lt_of_expression hus hd
        refine (ih ?_ (hsuf.length_le.trans hn) hcloses).bind fun _ _ _ _ hk => Ensures.pure hk
        rw [List.length_cons] at hr
        omega

theorem arguments_complete (hs : SoundExpression inner) (hi : CompleteExpression n inner)
    (hn : ts.length ≤ n) (h : Closes K ts) : Ensures (arguments inner) d ts (fun _ => K) Never :=
  Ensures.get_bind fun _ hc =>
    argumentsWithin_complete hs hi _ (Nat.le_of_eq hc.length_remaining.symm) hn h

/-- A parenthesis behind a name is taken for that of a call, be it one or not. -/
theorem named_complete (hs : SoundExpression inner) (hi : CompleteExpression n inner)
    (hK : Follows K) {name : String} (ht : t.lexeme = .identifier name) (hn : ts.length ≤ n)
    (h : Continues K ts ∨ ∃ left us, ts = left :: us ∧ left.kind = .mark .leftParen ∧
      Closes (Continues K) us) :
    Ensures (named inner t name) d (t :: ts) (fun _ => Continues K) Never := by
  have call : ∀ left us, ts = left :: us → left.kind = .mark .leftParen →
      Closes (Continues K) us → Ensures (named inner t name) d (t :: ts)
        (fun _ => Continues K) Never := by
    rintro left us rfl hleft hcloses
    have lexeme := Token.kind_eq_mark.1 hleft
    refine Ensures.advance_bind (by simp [ht]) (Ensures.current_bind ?_)
    simp only [lexeme]
    refine Ensures.advance_bind (by simp [lexeme]) ?_
    exact (arguments_complete hs hi (Nat.le_of_succ_le hn) hcloses).bind
      fun _ _ _ _ hw => Ensures.pure hw
  rcases h with h | ⟨left, us, hts, hleft, hcloses⟩
  · obtain ⟨u, us, rfl⟩ := h.exists_cons hK
    by_cases hu : u.kind = .mark .leftParen
    · -- Two expressions, read as a call with the second one for its argument.
      obtain ⟨inside, right, w, rfl, hinside, hright, hw⟩ := h.paren hK hu
      have args : Derives .arguments inside := by
        rw [← List.append_nil inside]
        exact .argument hinside .noArgument
      exact call u _ rfl hu ⟨inside, right, w, rfl, args, hright, hw⟩
    · refine Ensures.advance_bind (by simp [ht]) (Ensures.current_bind ?_)
      split
      · next hlex => exact absurd (Token.kind_eq_mark.2 hlex) hu
      · exact Ensures.pure h
  · exact call left us hts hleft hcloses

/-- An expression takes the operators behind it, whose operands they may be. -/
theorem CompleteExpression.continues (hi : CompleteExpression n inner) (hK : Follows K)
    {e w : List Token} (he : Derives .expression e) (hw : Continues K w)
    (hn : (e ++ w).length ≤ n) : Ensures inner d (e ++ w) (fun _ => Continues K) Never := by
  obtain ⟨others, k, rfl, hothers, hk⟩ := hw
  rw [← List.append_assoc] at hn ⊢
  exact (hi K hK d _ k (he.expression_append hothers) hk hn).imp fun _ _ => .of

/-- An equals sign behind a declared name begins an initial value, be it meant
    for one or for an operator. -/
theorem declaration_complete (hi : CompleteExpression n inner) (hK : Follows K) {name : Token}
    (ht : t.lexeme ≠ .endOfInput) (hname : name.kind = .identifier) (hn : ts.length ≤ n)
    (h : Continues K ts ∨ ∃ equals value w, ts = equals :: (value ++ w) ∧
      equals.kind = .operator .assign ∧ Derives .expression value ∧ Continues K w)
    (isMutable : Bool) : Ensures (declaration inner t isMutable) d (t :: name :: ts)
      (fun _ => Continues K) Never := by
  obtain ⟨text, hlex⟩ := Token.kind_eq_identifier.1 hname
  refine Ensures.advance_bind ht (Ensures.expect_bind (a := text) (by simp [identifier, hlex])
    (by simp [hlex]) ?_)
  rcases h with h | ⟨equals, value, w, rfl, hequals, hvalue, hw⟩
  · obtain ⟨u, us, rfl⟩ := h.exists_cons hK
    refine Ensures.current_bind ?_
    split
    · next hassign =>
      -- The declaration was an operand of the chain. What was its next operand
      -- begins the initial value, which takes the rest of the chain with it.
      have op : u.operator? = some .assign := by simp [Token.operator?, hassign]
      obtain ⟨first, w, rfl, hfirst, hw⟩ := h.of_operator hK op
      have value : Derives .expression first := by
        rw [← List.append_nil first]
        exact .expression hfirst .noOperand
      refine Ensures.advance_bind (by simp [hassign]) ?_
      exact (hi.continues hK value hw (Nat.le_of_succ_le hn)).bind
        fun _ _ _ _ hw => Ensures.pure hw
    · exact Ensures.pure h
  · have lexeme := Token.kind_eq_operator.1 hequals
    refine Ensures.current_bind ?_
    simp only [lexeme]
    refine Ensures.advance_bind (by simp [lexeme]) ?_
    exact (hi.continues hK hvalue hw (Nat.le_of_succ_le hn)).bind
      fun _ _ _ _ hw => Ensures.pure hw

theorem literal_complete (ht : IsLiteral t) (h : Continues K ts) :
    Ensures (primary inner) d (t :: ts) (fun _ => Continues K) Never := by
  refine Ensures.noComments_bind (StartsPrimary.isComment (.inr (.inl ht)))
    (Ensures.current_bind ?_)
  unfold IsLiteral Token.kind at ht
  cases hlex : t.lexeme with
  | integer n => exact Ensures.advance_bind (by simp [hlex]) (Ensures.pure h)
  | real x => exact Ensures.advance_bind (by simp [hlex]) (Ensures.pure h)
  | string body => exact Ensures.advance_bind (by simp [hlex]) (Ensures.pure h)
  | _ => simp [hlex, Lexeme.kind] at ht

theorem follows_rightParen (K : List Token → Prop) :
    Follows fun ts => ∃ right k, ts = right :: k ∧ right.kind = .mark .rightParen ∧ K k where
  operator := by
    rintro _ ⟨right, k, rfl, hright, -⟩
    exact ⟨right, k, rfl, operator?_of_mark hright⟩
  paren := by
    rintro t ts ⟨right, k, hts, hright, -⟩ ht
    obtain ⟨rfl, -⟩ := List.cons.inj hts
    exact absurd (ht.symm.trans hright) (by simp)

/-- The parenthesis that closes an expression is there. -/
theorem Ensures.close {a : Expr} {right : Token} {R : Expr → List Token → Prop}
    {E : Failure → List Token → Prop} (hright : right.kind = .mark .rightParen) (h : R a ts) :
    Ensures (do
      Read.skipComments
      Functor.discard <|
        Read.expect (ofKind (.mark .rightParen)) "`)`" (some "parenthesized expression")
      return a) d (right :: ts) R E := by
  have lexeme := Token.kind_eq_mark.1 hright
  refine Ensures.noComments_bind (by simp [Token.isComment, lexeme]) ?_
  refine (Ensures.discard (Q := fun _ => R a) (Ensures.expect rfl (fun _ _ => h) ?_ ?_)).bind
    fun _ _ _ _ h => Ensures.pure h
  · intro diag hdiag
    simp [Token.diagnostic?, lexeme] at hdiag
  · intro hnone
    simp [ofKind, lexeme, Lexeme.kind] at hnone

theorem parenthesized_complete (hi : CompleteExpression n inner)
    {right : Token} {inside w : List Token} (ht : t.kind = .mark .leftParen)
    (hinside : Derives .expression inside) (hright : right.kind = .mark .rightParen)
    (hw : K w) (hn : (inside ++ right :: w).length ≤ n) :
    Ensures (primary inner) d (t :: (inside ++ right :: w)) (fun _ => K) Never := by
  have lexeme := Token.kind_eq_mark.1 ht
  refine Ensures.noComments_bind (by simp [Token.isComment, lexeme]) (Ensures.current_bind ?_)
  simp only [lexeme]
  refine Ensures.advance_bind (by simp [lexeme]) ?_
  refine (hi _ (follows_rightParen K) d inside _ hinside ⟨right, w, rfl, hright, hw⟩ hn).bind ?_
  rintro _ _ - - ⟨right', w', rfl, hright', hw'⟩
  exact Ensures.close hright' hw'

theorem primary_complete (hs : SoundExpression inner) (hi : CompleteExpression n inner) :
    CompletePrimary (n + 1) (primary inner) := by
  intro K hK d e w he hw hn
  cases he with
  | @named name hname =>
    obtain ⟨text, hlex⟩ := Token.kind_eq_identifier.1 hname
    refine Ensures.noComments_bind (by simp [Token.isComment, hlex]) (Ensures.current_bind ?_)
    simp only [hlex]
    exact named_complete hs hi hK hlex (Nat.le_of_succ_le_succ hn) (.inl hw)
  | @call name left right args hname hleft hargs hright =>
    obtain ⟨text, hlex⟩ := Token.kind_eq_identifier.1 hname
    rw [List.cons_append, List.cons_append, List.append_assoc, List.singleton_append] at hn ⊢
    refine Ensures.noComments_bind (by simp [Token.isComment, hlex]) (Ensures.current_bind ?_)
    simp only [hlex]
    exact named_complete hs hi hK hlex (Nat.le_of_succ_le_succ hn)
      (.inr ⟨left, _, rfl, hleft, args, right, w, rfl, hargs, hright, hw⟩)
  | literal ht => exact literal_complete ht hw
  | @declaration sign name hsign hname =>
    refine Ensures.noComments_bind (StartsPrimary.isComment (.inr (.inr (.inl hsign))))
      (Ensures.current_bind ?_)
    have short : w.length ≤ n := Nat.le_of_succ_le (Nat.le_of_succ_le_succ hn)
    rcases hsign with hsign | hsign <;> have hlex := Token.kind_eq_mark.1 hsign
    all_goals
      simp only [hlex]
      exact declaration_complete hi hK (by simp [hlex]) hname short (.inl hw) _
  | @initialized sign name equals value hsign hname hequals hvalue =>
    refine Ensures.noComments_bind (StartsPrimary.isComment (.inr (.inr (.inl hsign))))
      (Ensures.current_bind ?_)
    have short : (equals :: (value ++ w)).length ≤ n :=
      Nat.le_of_succ_le (Nat.le_of_succ_le_succ hn)
    rcases hsign with hsign | hsign <;> have hlex := Token.kind_eq_mark.1 hsign
    all_goals
      simp only [hlex]
      exact declaration_complete hi hK (by simp [hlex]) hname short
        (.inr ⟨equals, value, w, rfl, hequals, hvalue, hw⟩) _
  | @parenthesized left right inside hleft hinside hright =>
    rw [List.cons_append, List.append_assoc, List.singleton_append] at hn ⊢
    exact parenthesized_complete hi hleft hinside hright hw (Nat.le_of_succ_le_succ hn)

theorem chainWithin_complete (ho : CompletePrimary n operand) (hK : Follows K)
    (rounds : List (Except Fault Token)) (least : Nat) (lhs : Expr)
    (hr : ts.length ≤ rounds.length) (hn : ts.length ≤ n) (h : Continues K ts) :
    Ensures (chainWithin operand rounds least lhs) d ts (fun _ => Continues K) Never := by
  induction rounds generalizing ts least lhs with
  | nil => exact Ensures.no_rounds hr
  | cons r rounds ih =>
    obtain ⟨t, us, rfl⟩ := h.exists_cons hK
    refine Ensures.operatorFrom_bind (fun _ => Ensures.pure h) fun op hop _ => ?_
    obtain ⟨first, w, rfl, hfirst, hw⟩ := h.of_operator hK hop
    obtain ⟨-, notEnd⟩ := isComment_of_operator? hop
    have short : (first ++ w).length ≤ rounds.length := Nat.le_of_succ_le_succ hr
    have few : (first ++ w).length ≤ n := Nat.le_of_succ_le hn
    refine Ensures.advance_bind notEnd ((ho K hK d first w hfirst hw few).bind ?_)
    -- Whatever the operand has taken, the chain goes on behind it. The operators of
    -- higher tiers are read first, then those from `least` on.
    intro rhs ts₁ _ hsuf₁ hts₁
    have le₁ := hsuf₁.length_le
    refine (ih (op.tier + 1) rhs (le₁.trans short) (le₁.trans few) hts₁).bind ?_
    intro rhs ts₂ _ hsuf₂ hts₂
    have le₂ := hsuf₂.length_le.trans le₁
    exact ih least _ (le₂.trans short) (le₂.trans few) hts₂

theorem chain_complete (ho : CompletePrimary n operand) (hK : Follows K) (least : Nat)
    (lhs : Expr) (hn : ts.length ≤ n) (h : Continues K ts) :
    Ensures (chain operand least lhs) d ts (fun _ => Continues K) Never :=
  Ensures.get_bind fun _ hc =>
    chainWithin_complete ho hK _ least lhs (Nat.le_of_eq hc.length_remaining.symm) hn h

/-- So many levels are enough for so many tokens. -/
theorem expressionWithin_complete (limit : Int) (levels : Nat) :
    CompleteExpression levels (expressionWithin limit levels) := by
  induction levels with
  | zero =>
    intro K hK d e k he _ hn
    -- An expression has a token, and there are no tokens.
    obtain ⟨t, e', rfl, -⟩ := he.expression_cons
    exact absurd hn (Nat.not_succ_le_zero _)
  | succ levels ih =>
    intro K hK d e k he hk hn
    have sound := expressionWithin_sound limit levels
    have operand := primary_complete sound ih
    cases he with
    | @expression first others hfirst hothers =>
      rw [List.append_assoc] at hn ⊢
      have continues : Continues K (others ++ k) := ⟨others, k, rfl, hothers, hk⟩
      refine Ensures.nested ((operand K hK (d + 1) first _ hfirst continues hn).bind ?_)
      intro lhs ts' _ hsuf hts'
      -- The chain leaves no operator, so it has read all of them.
      refine ((chain_complete operand hK 0 lhs (hsuf.length_le.trans hn) hts').and
        (chain_sound (primary_sound sound) 0 lhs)).imp ?_
      rintro e ts'' ⟨hts'', -, halts⟩
      exact hts''.of_halts hK halts

/-- At the top, the limit has to be as large as the number of tokens. -/
theorem expression_complete (limit : Int) (hK : Follows K) {e k : List Token}
    (he : Derives .expression e) (hk : K k) (hn : ((e ++ k).length : Int) ≤ limit) :
    Ensures (expression limit) 0 (e ++ k) (fun _ => K) Never := by
  refine Ensures.get_bind fun c hc => ?_
  refine expressionWithin_complete limit _ K hK 0 e k he hk ?_
  rw [hc.depth]
  omega

/-! ## Statements -/

/-- The statements of a program and the end of the input. -/
def Ready (follows : Bool) (ts : List Token) : Prop :=
  ∃ us e, ts = us ++ [e] ∧ e.lexeme = .endOfInput ∧ Statements follows us

theorem Ready.first {follows : Bool} (h : Ready follows ts) : ∃ t us, ts = t :: us ∧
    (t.lexeme = .endOfInput ∨ t.kind = .mark .dollar ∨
      (t.kind = .operator .dot ∧ (follows = true → t.startsLine = true)) ∨ StartsPrimary t) := by
  obtain ⟨us, e, rfl, he, hus⟩ := h
  cases hus with
  | none => exact ⟨e, [], rfl, .inl he⟩
  | use huse _ =>
    cases huse with
    | module hdollar _ => exact ⟨_, _, rfl, .inr (.inl hdollar)⟩
    | member hdollar _ _ _ => exact ⟨_, _, rfl, .inr (.inl hdollar)⟩
  | define hdot hline _ _ _ => exact ⟨_, _, rfl, .inr (.inr (.inl ⟨hdot, hline⟩))⟩
  | evaluate hbody _ =>
    obtain ⟨t, ts, rfl, ht⟩ := hbody.expression_cons
    exact ⟨t, _, rfl, .inr (.inr (.inr ht))⟩

theorem Ready.isComment {follows : Bool} (h : Ready follows (t :: ts)) : t.isComment = false := by
  obtain ⟨u, us, hus, first⟩ := h.first
  obtain ⟨rfl, rfl⟩ := List.cons.inj hus
  rcases first with he | hdollar | ⟨hdot, -⟩ | hprimary
  · simp [Token.isComment, he]
  · exact Token.isComment_of_kind (by simp [hdollar])
  · exact Token.isComment_of_kind (by simp [hdot])
  · exact hprimary.isComment

/-- A dot that opens a definition behind an expression is no operator. -/
theorem ready_follows : Follows (Ready true) where
  operator := by
    intro k hk
    obtain ⟨t, us, rfl, he | hdollar | ⟨hdot, hline⟩ | ht⟩ := hk.first
    · exact ⟨t, us, rfl, by simp [Token.operator?, he]⟩
    · exact ⟨t, us, rfl, operator?_of_mark hdollar⟩
    · exact ⟨t, us, rfl, by simp [Token.operator?, Token.kind_eq_operator.1 hdot, hline rfl]⟩
    · exact ⟨t, us, rfl, ht.operator?⟩
  paren := by
    rintro t ts ⟨us, e, hts, he, hus⟩ ht
    cases hus with
    | none =>
      obtain ⟨rfl, -⟩ := List.cons.inj hts
      simp [Token.kind, he, Lexeme.kind] at ht
    | use huse _ =>
      cases huse with
      | module hk _ | member hk _ _ _ =>
        obtain ⟨rfl, -⟩ := List.cons.inj hts
        exact absurd (ht.symm.trans hk) (by simp)
    | define hk _ _ _ _ =>
      obtain ⟨rfl, -⟩ := List.cons.inj hts
      exact absurd (ht.symm.trans hk) (by simp)
    | @evaluate _ first others hbody hothers =>
      rw [List.append_assoc] at hts
      exact hbody.encloses hts.symm ht ⟨others, e, rfl, he, hothers⟩

theorem expect_identifier_bind {expected : String} {context : Option String}
    {f : Token × String → Read β} {R : β → List Token → Prop} {E : Failure → List Token → Prop}
    (ht : t.kind = .identifier) (h : ∀ name, Ensures (f (t, name)) d ts R E) :
    Ensures (expect identifier expected context >>= f) d (t :: ts) R E := by
  obtain ⟨name, hlex⟩ := Token.kind_eq_identifier.1 ht
  exact Ensures.expect_bind (by simp [identifier, hlex]) (by simp [hlex]) (h name)

theorem expect_ofKind_bind {kind : Kind} {expected : String} {context : Option String}
    {f : Token × Unit → Read β} {R : β → List Token → Prop} {E : Failure → List Token → Prop}
    (ht : t.kind = kind) (hk : kind ≠ .endOfInput) (h : Ensures (f (t, ())) d ts R E) :
    Ensures (expect (ofKind kind) expected context >>= f) d (t :: ts) R E := by
  refine Ensures.expect_bind (if_pos ht) (fun he => hk ?_) h
  rw [← ht, Token.kind, he]
  rfl

theorem use_complete {us : List Token} (hus : IsUse us) (hw : Ready false ts) :
    Ensures use d (us ++ ts) (fun _ => Ready false) Never := by
  obtain ⟨u, ts', rfl, hu⟩ := hw.first
  cases hus with
  | module hdollar hname =>
    refine expect_ofKind_bind hdollar (by simp) (expect_identifier_bind hname fun name => ?_)
    refine Ensures.current_bind ?_
    split
    · next hlex => simp [StartsPrimary, IsLiteral, IsSign, Token.kind, hlex, Lexeme.kind] at hu
    · exact Ensures.pure hw
  | member hdollar hname hcolon hmember =>
    have lexeme := Token.kind_eq_mark.1 hcolon
    refine expect_ofKind_bind hdollar (by simp) (expect_identifier_bind hname fun name => ?_)
    refine Ensures.current_bind ?_
    simp only [lexeme]
    exact Ensures.advance_bind (by simp [lexeme])
      (expect_identifier_bind hmember fun member => Ensures.pure hw)

theorem typeNamesWithin_complete (rounds : List (Except Fault Token)) {types : List Token}
    (htypes : ∀ t ∈ types, t.kind = .typeName) (ht : t.kind ≠ .typeName)
    (hr : (types ++ t :: ts).length ≤ rounds.length) :
    Ensures (typeNamesWithin rounds) d (types ++ t :: ts)
      (fun names ts' => ts' = t :: ts ∧ names.length = types.length) Never := by
  induction rounds generalizing types with
  | nil => exact Ensures.no_rounds hr
  | cons r rounds ih =>
    cases types with
    | nil =>
      refine Ensures.current_bind ?_
      cases hname : typeName t.lexeme with
      | none => exact Ensures.pure ⟨rfl, rfl⟩
      | some name => exact absurd (typeName_eq_some hname) ht
    | cons u types =>
      obtain ⟨hu, htypes⟩ := List.forall_mem_cons.1 htypes
      obtain ⟨name, hlex⟩ := Token.kind_eq_typeName.1 hu
      refine Ensures.current_bind ?_
      simp only [typeName, hlex]
      refine Ensures.advance_bind (by simp [hlex])
        ((ih htypes (Nat.le_of_succ_le_succ hr)).bind ?_)
      rintro names _ - - ⟨rfl, hlen⟩
      exact Ensures.pure ⟨rfl, by simp [hlen]⟩

theorem parameters_complete (types : List String) {ps : List Token}
    (hps : IsParameters types.length ps) :
    Ensures (parameters types) d (ps ++ ts) (fun _ ts' => ts' = ts) Never := by
  induction types generalizing ps with
  | nil =>
    cases hps with
    | none => exact Ensures.pure rfl
  | cons type types ih =>
    cases hps with
    | @more _ sign name others hsign hname hothers =>
      refine Ensures.bind (Q := fun _ ts' => ts' = name :: (others ++ ts)) ?_ ?_
      · refine Ensures.current_bind ?_
        rcases hsign with hsign | hsign <;> have hlex := Token.kind_eq_mark.1 hsign
        all_goals
          simp only [hlex]
          exact Ensures.advance (by simp [hlex]) rfl
      · rintro _ _ - - rfl
        refine expect_identifier_bind hname fun name => (ih hothers).bind ?_
        rintro _ _ - - rfl
        exact Ensures.pure rfl

theorem result_complete {us : List Token} (hus : IsResult us) (ht : t.kind ≠ .mark .arrow) :
    Ensures result d (us ++ t :: ts) (fun _ ts' => ts' = t :: ts) Never := by
  cases hus with
  | none =>
    refine Ensures.current_bind ?_
    split
    · next hlex => exact absurd (Token.kind_eq_mark.2 hlex) ht
    · exact Ensures.pure rfl
  | some harrow htype =>
    have lexeme := Token.kind_eq_mark.1 harrow
    obtain ⟨name, hlex⟩ := Token.kind_eq_typeName.1 htype
    refine Ensures.current_bind ?_
    simp only [lexeme]
    exact Ensures.advance_bind (by simp [lexeme])
      (Ensures.expect_bind (a := name) (by simp [typeName, hlex]) (by simp [hlex])
        (Ensures.pure rfl))

/-- The parts of a prototype can be told apart by their first tokens. -/
theorem prototype_complete {us : List Token} (hus : IsPrototype us) :
    Ensures prototype d (us ++ ts) (fun _ ts' => ts' = ts) Never := by
  obtain ⟨hname, hbar, htypes, hresult, hparameters, hequals⟩ := hus
  next name bar equals types result parameters =>
  -- What stands behind the result is neither an arrow nor a type.
  have first : ∃ t us, parameters ++ equals :: ts = t :: us ∧ t.kind ≠ .mark .arrow ∧
      t.kind ≠ .typeName := by
    generalize types.length = n at hparameters
    cases hparameters with
    | none => exact ⟨equals, ts, rfl, by simp [hequals], by simp [hequals]⟩
    | more hsign _ _ =>
      refine ⟨_, _, rfl, ?_⟩
      rcases hsign with hsign | hsign <;> simp [hsign]
  obtain ⟨t, us, hus, harrow, htype⟩ := first
  -- What stands behind the types is no type.
  have second : ∃ u vs, result ++ t :: us = u :: vs ∧ u.kind ≠ .typeName := by
    cases hresult with
    | none => exact ⟨t, us, rfl, htype⟩
    | some hk _ => exact ⟨_, _, rfl, by simp [hk]⟩
  obtain ⟨u, vs, hvs, hu⟩ := second
  have shape : name :: bar :: (types ++ (result ++ (parameters ++ [equals]))) ++ ts =
      name :: bar :: (types ++ u :: vs) := by
    rw [← hvs, ← hus]
    simp
  rw [shape]
  refine expect_identifier_bind hname fun text => ?_
  refine Ensures.bind (Q := fun _ ts' => ts' = types ++ u :: vs)
    (expect_ofKind_bind hbar (by simp) (Ensures.pure rfl)) ?_
  rintro _ _ - - rfl
  refine (Ensures.get_bind fun _ hc => typeNamesWithin_complete _ htypes hu
    (Nat.le_of_eq hc.length_remaining.symm)).bind ?_
  rintro names _ - - ⟨rfl, hlen⟩
  rw [← hvs]
  refine (result_complete hresult harrow).bind ?_
  rintro _ _ - - rfl
  rw [← hus]
  refine (parameters_complete names (hlen ▸ hparameters)).bind ?_
  rintro _ _ - - rfl
  refine Ensures.bind (Q := fun _ ts' => ts' = ts)
    (expect_ofKind_bind hequals (by simp) (Ensures.pure rfl)) ?_
  rintro _ _ - - rfl
  exact Ensures.pure rfl

/-- A statement at the start of a program is read, and what it leaves goes on as a
    program does. -/
theorem item_complete (limit : Int) {follows : Bool} (h : Ready follows (t :: ts))
    (ht : t.lexeme ≠ .endOfInput) (hn : ((t :: ts).length : Int) ≤ limit) :
    Ensures (item limit) 0 (t :: ts) (fun _ ts' => ∃ follows, Ready follows ts') Never := by
  obtain ⟨us, e, hts, he, hus⟩ := h
  cases hus with
  | none =>
    obtain ⟨rfl, -⟩ := List.cons.inj hts
    exact absurd he ht
  | @use _ first others huse hothers =>
    have reads : Ensures use 0 (t :: ts) (fun _ => Ready false) Never := by
      rw [hts, List.append_assoc]
      exact use_complete huse ⟨others, e, rfl, he, hothers⟩
    have lexeme : t.lexeme = .mark .dollar := by
      cases huse with
      | module hk _ | member hk _ _ _ =>
        obtain ⟨rfl, -⟩ := List.cons.inj hts
        exact Token.kind_eq_mark.1 hk
    refine Ensures.current_bind ?_
    simp only [lexeme]
    exact reads.bind fun _ _ _ _ h => Ensures.pure ⟨false, h⟩
  | @define _ dot prototype body others hdot _ hprototype hbody hothers =>
    obtain ⟨rfl, hts'⟩ := List.cons.inj hts
    have lexeme := Token.kind_eq_operator.1 hdot
    have shape : ts = prototype ++ (body ++ (others ++ [e])) := hts'.trans (by simp)
    subst shape
    have few : ((body ++ (others ++ [e])).length : Int) ≤ limit := by
      simp only [List.length_cons, List.length_append] at hn ⊢
      omega
    refine Ensures.current_bind ?_
    simp only [lexeme]
    refine Ensures.bind (Q := fun _ => Ready true) ?_ fun _ _ _ _ h => Ensures.pure ⟨true, h⟩
    refine expect_ofKind_bind hdot (by simp) ((prototype_complete hprototype).bind ?_)
    rintro _ _ - - rfl
    exact (expression_complete limit ready_follows hbody ⟨others, e, rfl, he, hothers⟩ few).bind
      fun _ _ _ _ h => Ensures.pure h
  | @evaluate _ first others hbody hothers =>
    rw [List.append_assoc] at hts
    have few : ((first ++ (others ++ [e])).length : Int) ≤ limit := hts ▸ hn
    have reads := expression_complete limit ready_follows hbody ⟨others, e, rfl, he, hothers⟩ few
    obtain ⟨u, first, rfl, hu⟩ := hbody.expression_cons
    obtain ⟨rfl, rfl⟩ := List.cons.inj hts
    refine Ensures.current_bind ?_
    split
    · next hlex => exact absurd hu.mem_kind (by simp [Token.kind, hlex, Lexeme.kind])
    · next hlex => exact absurd hu.mem_kind (by simp [Token.kind, hlex, Lexeme.kind])
    · exact Ensures.current_bind (reads.bind fun _ _ _ _ h => Ensures.pure ⟨true, h⟩)

end Read

end Soul
