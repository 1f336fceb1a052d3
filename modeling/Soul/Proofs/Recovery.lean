import Soul.Proofs.Accept
import Soul.Proofs.Alongside

/-!
# Recovery at statement boundaries

A failed statement does no harm to those behind it. Where a text is followed, on
a line of its own, by another one that begins with a dollar sign or a dot, the
two are read as if each were alone (`readProgram_join`), whatever the first one is
like: it may break off inside a call, a prototype or a string.

For the reading of each part of a statement, it is shown that it goes alike in
front of the end of the input and in front of a barrier (`Read.Robust`), and from
this, round by round, that the runs over the two sources go alongside each other
up to the barrier (`Session.Runs.alongside`). That is made use of twice. The first
text is compared with the whole, and then the second one with what is left.
-/

namespace Soul

namespace Read

variable {n d : Nat} {t b : Token} {ts us bs : List Token} {inner operand : Read Expr}

/-! ## Expressions -/

/-- Expressions are read alike, at a barrier not at all. -/
structure Robust (n : Nat) (rest : List Token) (p : Read Expr) : Prop where
  sound : SoundExpression p
  stuck {d : Nat} {t : Token} {ts : List Token} : IsBarrier t → Stuck p d (t :: ts)
  alongside {d : Nat} {ts us : List Token} : Alike n rest ts us →
    Alongside n rest p p d ts us fun e e' _ _ => e' = e.down n

theorem argumentsWithin_alongside (hb : IsBarrier b) (hi : Robust n (b :: bs) inner)
    (rounds rounds' : List (Except Fault Token)) (hr : ts.length ≤ rounds.length)
    (hr' : us.length ≤ rounds'.length) (h : Alike n (b :: bs) ts us) :
    Alongside n (b :: bs) (argumentsWithin inner rounds) (argumentsWithin inner rounds') d ts us
      fun es es' _ _ => es' = Expr.downAll n es := by
  induction rounds generalizing rounds' ts us with
  | nil => exact Alongside.no_rounds (.inl hr)
  | cons r rounds ih =>
    cases rounds' with
    | nil => exact Alongside.no_rounds (.inr hr')
    | cons r' rounds' =>
      refine Alongside.skipComments_bind hb h fun dropped => ?_
      have le := (List.dropWhile_sublist (l := ts) Token.isComment).length_le.trans hr
      have le' := (List.dropWhile_sublist (l := us) Token.isComment).length_le.trans hr'
      generalize ts.dropWhile Token.isComment = ts at dropped le
      generalize us.dropWhile Token.isComment = us at dropped le'
      cases dropped with
      | @last e he =>
        refine Alongside.current_bind (Alongside.stuck (.last he) ?_ ?_)
        · simp only [he]
          exact .refuse (IsBarrier.diagnostic? (.inl he))
        · -- The end of the input is refused here, the other barriers as arguments.
          obtain h | h | ⟨h, -⟩ := id hb <;> simp only [h]
          · exact .refuse hb.diagnostic?
          · exact (hi.stuck hb).bind
          · exact (hi.stuck hb).bind
      | @cons t ts us ht ha =>
        refine Alongside.current_bind ?_
        rw [Token.lexeme_down]
        split
        · exact Alongside.advance_bind ht ha (.pure ha rfl)
        · next he => exact absurd he ht
        · refine ((hi.alongside (.cons ht ha)).and_ensures (hi.sound d _) (hi.sound d _)).bind ?_
          rintro e _ ts' us' ⟨rfl, ⟨⟨vs, hvs, hd⟩, -⟩, ⟨vs', hvs', hd'⟩, -⟩ halike - -
          have short : ts'.length ≤ rounds.length :=
            Nat.le_of_lt_succ ((length_lt_of_expression hvs hd).trans_le le)
          have short' : us'.length ≤ rounds'.length :=
            Nat.le_of_lt_succ ((length_lt_of_expression hvs' hd').trans_le le')
          refine (ih rounds' short short' halike).bind ?_
          rintro es _ ts'' us'' rfl halike' - -
          exact .pure halike' rfl

theorem arguments_alongside (hb : IsBarrier b) (hi : Robust n (b :: bs) inner)
    (h : Alike n (b :: bs) ts us) : Alongside n (b :: bs) (arguments inner) (arguments inner) d ts us
      fun es es' _ _ => es' = Expr.downAll n es :=
  Alongside.get_bind fun _ _ hc hc' => argumentsWithin_alongside hb hi _ _
    (Nat.le_of_eq hc.length_remaining.symm) (Nat.le_of_eq hc'.length_remaining.symm) h

theorem named_alongside (hb : IsBarrier b) (hi : Robust n (b :: bs) inner) (name : String)
    (ht : t.lexeme ≠ .endOfInput) (h : Alike n (b :: bs) ts us) :
    Alongside n (b :: bs) (named inner t name) (named inner (t.down n) name) d (t :: ts)
      (t.down n :: us) fun e e' _ _ => e' = e.down n := by
  refine Alongside.advance_bind ht h ?_
  have value : (Expr.var name (t.down n).location) = Expr.down n (.var name t.location) := by
    simp [Expr.down, Token.location_down]
  refine Alongside.peek_bind hb h value ?_ ?_
  · intro u hu
    obtain hlex | hlex | ⟨hlex, -⟩ := hu <;> simp [hlex]
  · rintro u ts us rfl rfl hu ha
    rw [Token.lexeme_down]
    split
    · refine Alongside.advance_bind hu ha ((arguments_alongside hb hi ha).bind ?_)
      rintro es _ ts' us' rfl halike - -
      exact .pure halike (by simp [Expr.down, Token.location_down])
    · exact .pure h value

theorem identifier_of_barrier (u : Token) (hu : IsBarrier u) : identifier u.lexeme = none := by
  obtain h | h | ⟨h, -⟩ := hu <;> simp [identifier, h]

theorem declaration_alongside (hb : IsBarrier b) (hi : Robust n (b :: bs) inner)
    (isMutable : Bool) (ht : t.lexeme ≠ .endOfInput) (h : Alike n (b :: bs) ts us) :
    Alongside n (b :: bs) (declaration inner t isMutable) (declaration inner (t.down n) isMutable) d
      (t :: ts) (t.down n :: us) fun e e' _ _ => e' = e.down n := by
  refine Alongside.advance_bind ht h ((Alongside.expect hb identifier_of_barrier h).bind ?_)
  rintro ⟨_, name⟩ _ ts us rfl h - -
  have value : Expr.declaration name isMutable none (t.down n).location =
      Expr.down n (.declaration name isMutable none t.location) := by
    simp [Expr.down, Expr.downInitial, Token.location_down]
  refine Alongside.peek_bind hb h value ?_ ?_
  · intro u hu
    obtain hlex | hlex | ⟨hlex, -⟩ := hu <;> simp [hlex]
  · rintro u ts us rfl rfl hu ha
    rw [Token.lexeme_down]
    split
    · refine Alongside.advance_bind hu ha ((hi.alongside ha).bind ?_)
      rintro e _ ts' us' rfl halike - -
      exact .pure halike (by simp [Expr.down, Expr.downInitial, Token.location_down])
    · exact .pure h value

/-- A mark or an operator that is expected is passed over on both sides. -/
theorem discard_expect_alongside (hb : IsBarrier b) {kind : Kind} {expected : String}
    {context : Option String} (hk : kind ∉ [.endOfInput, .mark .dollar, .operator .dot])
    (h : Alike n (b :: bs) ts us) :
    Alongside n (b :: bs) (discard (expect (ofKind kind) expected context))
      (discard (expect (ofKind kind) expected context)) d ts us fun _ _ _ _ => True :=
  (Alongside.expect hb (fun _ hu => if_neg (hu.kind_ne hk)) h).bind
    fun _ _ _ _ _ h _ _ => .pure h trivial

theorem primary_stuck (ht : IsBarrier t) : Stuck (primary inner) d (t :: ts) := by
  refine Ensures.skipComments_bind fun u vs hts => ?_
  rw [List.dropWhile_cons_of_neg (by simp [ht.isComment])] at hts
  obtain ⟨rfl, rfl⟩ := List.cons.inj hts
  refine Ensures.current_bind ?_
  obtain hlex | hlex | ⟨hlex, -⟩ := id ht <;> simp only [hlex]
  all_goals exact Stuck.refuse ht.diagnostic?

theorem primary_alongside (hb : IsBarrier b) (hi : Robust n (b :: bs) inner)
    (h : Alike n (b :: bs) ts us) : Alongside n (b :: bs) (primary inner) (primary inner) d ts us
      fun e e' _ _ => e' = e.down n := by
  refine Alongside.skipComments_bind hb h fun dropped => ?_
  generalize ts.dropWhile Token.isComment = ts at dropped
  generalize us.dropWhile Token.isComment = us at dropped
  cases dropped with
  | @last e he =>
    refine Alongside.current_bind (Alongside.stuck (.last he) ?_ ?_)
    · simp only [he]
      exact .refuse (IsBarrier.diagnostic? (.inl he))
    · obtain hlex | hlex | ⟨hlex, -⟩ := id hb <;> simp only [hlex]
      all_goals exact .refuse hb.diagnostic?
  | @cons t ts us ht ha =>
    refine Alongside.current_bind ?_
    rw [Token.lexeme_down]
    split
    · exact named_alongside hb hi _ ht ha
    · exact Alongside.advance_bind ht ha (.pure ha (by simp [Expr.down, Token.location_down]))
    · exact Alongside.advance_bind ht ha (.pure ha (by simp [Expr.down, Token.location_down]))
    · exact Alongside.advance_bind ht ha (.pure ha (by simp [Expr.down, Token.location_down]))
    · exact declaration_alongside hb hi false ht ha
    · exact declaration_alongside hb hi true ht ha
    · refine Alongside.advance_bind ht ha ((hi.alongside ha).bind ?_)
      rintro e _ ts' us' rfl halike - -
      refine Alongside.skipComments_bind hb halike fun dropped => ?_
      exact (discard_expect_alongside hb (by decide) dropped).bind
        fun _ _ _ _ _ h _ _ => .pure h rfl
    · exact .refuse ht ha

/-- An operator is there on both sides or on none. -/
theorem operatorFrom_alongside (hb : IsBarrier b) (least : Nat) (h : Alike n (b :: bs) ts us) :
    Alongside n (b :: bs) (operatorFrom least) (operatorFrom least) d ts us fun r r' ts' us' =>
      (r = none ∧ r' = none) ∨ ∃ t op ts₁ us₁, ts' = t :: ts₁ ∧ us' = t.down n :: us₁ ∧
        t.lexeme ≠ .endOfInput ∧ Alike n (b :: bs) ts₁ us₁ ∧ r = some (t, op) ∧
        r' = some (t.down n, op) := by
  rw [operatorFrom_eq]
  cases id h with
  | @last e he =>
    refine Alongside.current_bind ?_
    rw [hb.operator?, IsBarrier.operator? (.inl he)]
    exact .pure h (.inl ⟨rfl, rfl⟩)
  | @cons t ts us ht ha =>
    refine Alongside.current_bind ?_
    rw [Token.operator?_down]
    cases t.operator? with
    | none => exact .pure h (.inl ⟨rfl, rfl⟩)
    | some op =>
      by_cases hlt : op.tier < least
      · simp only [if_pos hlt]
        exact .pure h (.inl ⟨rfl, rfl⟩)
      · simp only [if_neg hlt]
        exact .pure h (.inr ⟨t, op, ts, us, rfl, rfl, ht, ha, rfl, rfl⟩)

theorem chainWithin_alongside (hb : IsBarrier b)
    (ho : ∀ {d ts us}, Alike n (b :: bs) ts us →
      Alongside n (b :: bs) operand operand d ts us fun e e' _ _ => e' = e.down n)
    (rounds rounds' : List (Except Fault Token)) (least : Nat) (lhs : Expr)
    (hr : ts.length ≤ rounds.length) (hr' : us.length ≤ rounds'.length)
    (h : Alike n (b :: bs) ts us) :
    Alongside n (b :: bs) (chainWithin operand rounds least lhs)
      (chainWithin operand rounds' least (lhs.down n)) d ts us fun e e' _ _ => e' = e.down n := by
  induction rounds generalizing rounds' least lhs ts us with
  | nil => exact Alongside.no_rounds (.inl hr)
  | cons r rounds ih =>
    cases rounds' with
    | nil => exact Alongside.no_rounds (.inr hr')
    | cons r' rounds' =>
      refine (operatorFrom_alongside hb least h).bind ?_
      rintro _ _ _ _ (⟨rfl, rfl⟩ | ⟨t, op, ts, us, rfl, rfl, ht, ha, rfl, rfl⟩) halike hsuf hsuf'
      · exact .pure halike rfl
      · have le : ts.length ≤ rounds.length :=
          Nat.le_of_succ_le_succ (hsuf.length_le.trans hr)
        have le' : us.length ≤ rounds'.length :=
          Nat.le_of_succ_le_succ (hsuf'.length_le.trans hr')
        refine Alongside.advance_bind ht ha ((ho ha).bind ?_)
        rintro rhs _ ts₁ us₁ rfl h₁ hs₁ hs₁'
        refine (ih rounds' (op.tier + 1) rhs (hs₁.length_le.trans le) (hs₁'.length_le.trans le')
          h₁).bind ?_
        rintro rhs _ ts₂ us₂ rfl h₂ hs₂ hs₂'
        have value : Expr.binary op (lhs.down n) (rhs.down n) (t.down n).location =
            Expr.down n (.binary op lhs rhs t.location) := by
          simp [Expr.down, Token.location_down]
        rw [value]
        exact ih rounds' least _ ((hs₂.trans hs₁).length_le.trans le)
          ((hs₂'.trans hs₁').length_le.trans le') h₂

theorem expressionWithin_robust (hb : IsBarrier b) (limit : Int) (levels : Nat) :
    Robust n (b :: bs) (expressionWithin limit levels) := by
  induction levels with
  | zero =>
    have stuck : ∀ {d t ts}, Stuck (expressionWithin limit 0) d (t :: ts) :=
      Ensures.nested (Ensures.current_bind (Ensures.throw ⟨⟨_, rfl⟩, rfl⟩))
    refine ⟨expressionWithin_sound limit 0, fun _ => stuck, fun h => ?_⟩
    cases id h with
    | last _ => exact .stuck h stuck stuck
    | cons _ _ => exact .stuck h stuck stuck
  | succ levels ih =>
    refine ⟨expressionWithin_sound limit _, fun ht => Ensures.nested (primary_stuck ht).bind,
      fun h => Alongside.nested ((primary_alongside hb ih h).bind ?_)⟩
    rintro lhs _ ts us rfl h' - -
    exact Alongside.get_bind fun _ _ hc hc' =>
      chainWithin_alongside hb (primary_alongside hb ih) _ _ 0 lhs
        (Nat.le_of_eq hc.length_remaining.symm) (Nat.le_of_eq hc'.length_remaining.symm) h'

theorem expression_alongside (hb : IsBarrier b) (limit : Int) (h : Alike n (b :: bs) ts us) :
    Alongside n (b :: bs) (expression limit) (expression limit) d ts us
      fun e e' _ _ => e' = e.down n := by
  refine Alongside.get_bind fun c c' hc hc' => ?_
  rw [hc.depth, hc'.depth]
  exact (expressionWithin_robust hb limit _).alongside h

/-! ## Statements -/

/-- A token that is expected, and is there on both sides. -/
theorem expect_ofKind_alongside {α β : Type} {kind : Kind} {expected : String}
    {context : Option String} {f : Token × Unit → Read α} {g : Token × Unit → Read β}
    {W : α → β → List Token → List Token → Prop} (hk : t.kind = kind)
    (ht : t.lexeme ≠ .endOfInput) (ha : Alike n (b :: bs) ts us)
    (h : Alongside n (b :: bs) (f (t, ())) (g (t.down n, ())) d ts us W) :
    Alongside n (b :: bs) (expect (ofKind kind) expected context >>= f)
      (expect (ofKind kind) expected context >>= g) d (t :: ts) (t.down n :: us) W := by
  have there : ofKind kind t.lexeme = some () := if_pos hk
  refine Alongside.bind (V := fun r r' ts' us' => r = (t, ()) ∧ r' = (t.down n, ()) ∧ ts' = ts ∧
    us' = us) ?_ ?_
  · refine Alongside.current_bind ?_
    rw [Token.lexeme_down, there]
    exact Alongside.advance_bind ht ha (.pure ha ⟨rfl, rfl, rfl, rfl⟩)
  · rintro _ _ _ _ ⟨rfl, rfl, rfl, rfl⟩ - - -
    exact h

theorem use_alongside (hb : IsBarrier b) (hk : t.kind = .mark .dollar)
    (ht : t.lexeme ≠ .endOfInput) (ha : Alike n (b :: bs) ts us) :
    Alongside n (b :: bs) use use d (t :: ts) (t.down n :: us) fun i i' _ _ => i' = i.down n := by
  refine expect_ofKind_alongside hk ht ha ?_
  refine (Alongside.expect hb identifier_of_barrier ha).bind ?_
  rintro ⟨_, name⟩ _ ts us rfl h - -
  have value : Import.mk name none (t.down n).location = Import.down n ⟨name, none, t.location⟩ := by
    simp [Import.down, Token.location_down]
  refine Alongside.peek_bind hb h value ?_ ?_
  · intro u hu
    obtain hlex | hlex | ⟨hlex, -⟩ := hu <;> simp [hlex]
  · rintro u ts us rfl rfl hu ha
    rw [Token.lexeme_down]
    split
    · refine Alongside.advance_bind hu ha ((Alongside.expect hb identifier_of_barrier ha).bind ?_)
      rintro ⟨child, member⟩ _ ts us rfl h - -
      exact .pure h (by simp [Import.down, Member.down, Token.location_down])
    · exact .pure h value

theorem typeName_of_barrier (u : Token) (hu : IsBarrier u) : typeName u.lexeme = none := by
  obtain h | h | ⟨h, -⟩ := hu <;> simp [typeName, h]

theorem typeNamesWithin_alongside (hb : IsBarrier b) (rounds rounds' : List (Except Fault Token))
    (hr : ts.length ≤ rounds.length) (hr' : us.length ≤ rounds'.length)
    (h : Alike n (b :: bs) ts us) :
    Alongside n (b :: bs) (typeNamesWithin rounds) (typeNamesWithin rounds') d ts us
      fun names names' _ _ => names = names' := by
  induction rounds generalizing rounds' ts us with
  | nil => exact Alongside.no_rounds (.inl hr)
  | cons r rounds ih =>
    cases rounds' with
    | nil => exact Alongside.no_rounds (.inr hr')
    | cons r' rounds' =>
      refine Alongside.peek_bind (a := []) hb h rfl ?_ ?_
      · intro u hu
        simp [typeName_of_barrier u hu]
      · rintro t ts us rfl rfl ht ha
        rw [Token.lexeme_down]
        cases typeName t.lexeme with
        | none => exact .pure h rfl
        | some name =>
          refine Alongside.advance_bind ht ha ((ih rounds' (Nat.le_of_succ_le_succ hr)
            (Nat.le_of_succ_le_succ hr') ha).bind ?_)
          rintro names _ ts us rfl h - -
          exact .pure h rfl

theorem result_alongside (hb : IsBarrier b) (h : Alike n (b :: bs) ts us) :
    Alongside n (b :: bs) result result d ts us fun r r' _ _ => r = r' := by
  refine Alongside.peek_bind (a := none) hb h rfl ?_ ?_
  · intro u hu
    obtain hlex | hlex | ⟨hlex, -⟩ := hu <;> simp [hlex]
  · rintro t ts us rfl rfl ht ha
    rw [Token.lexeme_down]
    split
    · refine Alongside.advance_bind ht ha ((Alongside.expect hb typeName_of_barrier ha).bind ?_)
      rintro ⟨_, name⟩ _ ts us rfl h - -
      exact .pure h rfl
    · exact .pure h rfl

theorem parameterMark_alongside (hb : IsBarrier b) (h : Alike n (b :: bs) ts us) :
    Alongside n (b :: bs) parameterMark parameterMark d ts us fun _ _ _ _ => True := by
  cases id h with
  | @last e he =>
    refine Alongside.current_bind (Alongside.stuck h ?_ ?_)
    · simp only [he]
      exact .refuse (IsBarrier.diagnostic? (.inl he))
    · obtain hlex | hlex | ⟨hlex, -⟩ := id hb <;> simp only [hlex]
      all_goals exact .refuse hb.diagnostic?
  | @cons t ts us ht ha =>
    refine Alongside.current_bind ?_
    rw [Token.lexeme_down]
    split
    · exact .advance ht ha trivial
    · exact .advance ht ha trivial
    · exact .refuse ht ha

theorem parameters_alongside (hb : IsBarrier b) (types : List String)
    (h : Alike n (b :: bs) ts us) :
    Alongside n (b :: bs) (parameters types) (parameters types) d ts us
      fun ps ps' _ _ => ps = ps' := by
  induction types generalizing ts us with
  | nil => exact .pure h rfl
  | cons type types ih =>
    refine (parameterMark_alongside hb h).bind ?_
    rintro _ _ ts us - h - -
    refine (Alongside.expect hb identifier_of_barrier h).bind ?_
    rintro ⟨_, name⟩ _ ts us rfl h - -
    refine (ih h).bind ?_
    rintro ps _ ts us rfl h - -
    exact .pure h rfl

theorem prototype_alongside (hb : IsBarrier b) (h : Alike n (b :: bs) ts us) :
    Alongside n (b :: bs) prototype prototype d ts us fun p p' _ _ => p' = p.down n := by
  refine (Alongside.expect hb identifier_of_barrier h).bind ?_
  rintro ⟨token, name⟩ _ ts us rfl h - -
  refine (discard_expect_alongside hb (by decide) h).bind ?_
  rintro _ _ ts us - h - -
  refine (Alongside.get_bind fun _ _ hc hc' => typeNamesWithin_alongside hb _ _
    (Nat.le_of_eq hc.length_remaining.symm) (Nat.le_of_eq hc'.length_remaining.symm) h).bind ?_
  rintro types _ ts us rfl h - -
  refine (result_alongside hb h).bind ?_
  rintro result _ ts us rfl h - -
  refine (parameters_alongside hb types h).bind ?_
  rintro parameters _ ts us rfl h - -
  refine (discard_expect_alongside hb (by decide) h).bind ?_
  rintro _ _ ts us - h - -
  exact .pure h (by simp [Prototype.down, Token.location_down])

theorem define_alongside (hb : IsBarrier b) (limit : Int) (hk : t.kind = .operator .dot)
    (ht : t.lexeme ≠ .endOfInput) (ha : Alike n (b :: bs) ts us) :
    Alongside n (b :: bs) (define limit) (define limit) d (t :: ts) (t.down n :: us)
      fun x x' _ _ => x' = x.down n := by
  refine expect_ofKind_alongside hk ht ha ((prototype_alongside hb ha).bind ?_)
  rintro prototype _ ts us rfl h - -
  refine (expression_alongside hb limit h).bind ?_
  rintro body _ ts us rfl h - -
  exact .pure h (by simp [Definition.down, Token.location_down])

/-- A statement that begins in front of the barrier. -/
theorem item_alongside (hb : IsBarrier b) (limit : Int) (ht : t.lexeme ≠ .endOfInput)
    (ha : Alike n (b :: bs) ts us) :
    Alongside n (b :: bs) (item limit) (item limit) d (t :: ts) (t.down n :: us)
      fun i i' _ _ => i' = i.down n := by
  refine Alongside.current_bind ?_
  rw [Token.lexeme_down]
  split
  · next hlex =>
    refine (use_alongside hb (Token.kind_eq_mark.2 hlex) ht ha).bind ?_
    rintro i _ ts us rfl h - -
    exact .pure h rfl
  · next hlex =>
    refine (define_alongside hb limit (Token.kind_eq_operator.2 hlex) ht ha).bind ?_
    rintro x _ ts us rfl h - -
    exact .pure h rfl
  · refine Alongside.current_bind ((expression_alongside hb limit (.cons ht ha)).bind ?_)
    rintro body _ ts us rfl h - -
    exact .pure h (by simp [Item.down, Token.location_down])

end Read

/-! ## Runs -/

section Counting

variable {n : Nat} {b : Token} {bs ts ts' us us' : List Token}

/-- The second source has the errors of the first one, and those behind the
    barrier. -/
theorem Alike.length_pending (hb : IsBarrier b) (h : Alike n (b :: bs) ts us) :
    (pending us).length = (pending ts).length + (pending (b :: bs)).length := by
  have all : ∀ {ts us}, Alike n (b :: bs) ts us → (us.filterMap Token.diagnostic?).length =
      (ts.filterMap Token.diagnostic?).length + (pending (b :: bs)).length := by
    intro ts us h
    induction h with
    | @last e he =>
      have none : e.diagnostic? = none := IsBarrier.diagnostic? (.inl he)
      simp [pending, none, hb.diagnostic?]
    | @cons t ts us _ _ ih =>
      rw [List.filterMap_cons, List.filterMap_cons, Token.diagnostic?_down]
      cases t.diagnostic? with
      | none => exact ih
      | some diag =>
        simp only [Option.map_some, List.length_cons, ih]
        omega
  cases h with
  | last _ => simp [pending]
  | cons _ h => exact all h

/-- On the way between two places, the same number of errors is come to. -/
theorem Alike.length_errorsBetween (hb : IsBarrier b) (h : Alike n (b :: bs) ts us)
    (h' : Alike n (b :: bs) ts' us') (hs : ts' <:+ ts) (hs' : us' <:+ us) :
    (errorsBetween us us').length = (errorsBetween ts ts').length := by
  -- What lies between is what was ahead at first less what is ahead now.
  have count := congrArg List.length (errorsBetween_append_pending hs)
  have count' := congrArg List.length (errorsBetween_append_pending hs')
  rw [List.length_append] at count count'
  have := h.length_pending hb
  have := h'.length_pending hb
  omega

end Counting

namespace Session

variable {n d k : Nat} {b : Token} {bs ts ts' us us' rest : List Token} {limit : Int}
  {s s' s₁ s₁' : Session}

/-- The second session has collected `k` errors more than the first one. -/
structure Ahead (k : Nat) (s s' : Session) : Prop where
  errors : s'.errors.length = s.errors.length + k
  limit : s'.journal.diagnostics.limit = s.journal.diagnostics.limit

theorem Ahead.moves (hb : IsBarrier b) (h : Ahead k s s') (hm : s.Moves ts s₁ ts')
    (hm' : s'.Moves us s₁' us') (ha : Alike n (b :: bs) ts us) (ha' : Alike n (b :: bs) ts' us') :
    Ahead k s₁ s₁' where
  errors := by
    have := h.errors
    have := ha.length_errorsBetween hb ha' hm.leads.suffix hm'.leads.suffix
    rw [hm.errors, hm'.errors, List.length_append, List.length_append]
    omega
  limit := hm'.limit.trans (h.limit.trans hm.limit.symm)

theorem Ahead.collect (h : Ahead k s s') {e e' : Failure} (he : e.Similar e') :
    Ahead k (s.collect e) (s'.collect e') := by
  cases he with
  | invalid => exact h
  | violation =>
    have more (s : Session) (d : Diagnostic) :
        (s.collect (.violation d)).errors.length = s.errors.length + 1 := List.length_append
    refine ⟨?_, h.limit⟩
    rw [more, more, h.errors, Nat.add_right_comm]

/-- A collection that has more in it is full before the other. -/
theorem Ahead.isFull (h : Ahead k s s') (hf : s.journal.diagnostics.isFull = true) :
    s'.journal.diagnostics.isFull = true := by
  have errors : s'.journal.diagnostics.errors.length =
      s.journal.diagnostics.errors.length + k := h.errors
  rw [Diagnostics.isFull_iff] at hf ⊢
  rw [h.limit]
  omega

theorem perform_alongside {α β : Type} {p : Read α} {q : Read β}
    {V : α → β → List Token → List Token → Prop} (h : Read.Alongside n rest p q d ts us V)
    (hs : s.cursor.Shows d ts) (hs' : s'.cursor.Shows d us) :
    (∃ a s₁ a' s₁' ts' us', s.perform p = (.ok a, s₁) ∧ s'.perform q = (.ok a', s₁') ∧
      V a a' ts' us' ∧ Alike n rest ts' us' ∧ s.Moves ts s₁ ts' ∧ s'.Moves us s₁' us') ∨
    ∃ e s₁ e' s₁' ts' us', s.perform p = (.error e, s₁) ∧ s'.perform q = (.error e', s₁') ∧
      e.Similar e' ∧ Alike n rest ts' us' ∧ s.Moves ts s₁ ts' ∧ s'.Moves us s₁' us' := by
  unfold perform
  obtain ⟨a, c, a', c', ts', us', h₁, h₂, hv, ha, hl, hl'⟩ |
    ⟨e, c, e', c', ts', us', h₁, h₂, he, ha, hl, hl'⟩ := h _ _ hs hs'
  · rw [h₁, h₂]
    exact .inl ⟨a, _, a', _, ts', us', rfl, rfl, hv, ha, .of_leads hs hl, .of_leads hs' hl'⟩
  · rw [h₁, h₂]
    exact .inr ⟨e, _, e', _, ts', us', rfl, rfl, he, ha, .of_leads hs hl, .of_leads hs' hl'⟩

/-- A run in which a statement has been read. -/
theorem Runs.of_ok {consumer : Consumer} {count : Nat} {o : Outcome} {t : Token} {item : Item}
    (h : Runs limit consumer count s (t :: ts) o) (ht : t.lexeme ≠ .endOfInput)
    (hc : t.isComment = false) (hp : s.perform (Read.item limit) = (.ok item, s₁))
    (taken : consumer count item = none) :
    ∃ ts₁ o₁, s.Moves (t :: ts) s₁ ts₁ ∧
      Runs limit consumer (count + 1) (s₁.deliver item) ts₁ o₁ ∧ o = o₁.behind [item] := by
  cases h with
  | finish he => exact absurd he ht
  | comment hc' _ _ => exact absurd (hc'.symm.trans hc) (by simp)
  | @item _ _ _ _ _ ts₁ _ o₁ _ _ hp' hm _ _ run =>
    obtain ⟨hi, rfl⟩ := Prod.mk.inj (hp'.symm.trans hp)
    obtain rfl := Except.ok.inj hi
    exact ⟨ts₁, o₁, hm, run, rfl⟩
  | objection _ _ hp' _ _ hd =>
    obtain rfl := Except.ok.inj (Prod.mk.inj (hp'.symm.trans hp)).1
    exact absurd (hd.symm.trans taken) (by simp)
  | full _ _ hp' _ _ _ => exact absurd (hp'.symm.trans hp) (by simp)
  | resume _ _ hp' _ _ _ _ _ => exact absurd (hp'.symm.trans hp) (by simp)

/-- A run in which a statement has failed. It ends here, or is resumed. -/
theorem Runs.of_failed {consumer : Consumer} {count : Nat} {o : Outcome} {t : Token} {e : Failure}
    (h : Runs limit consumer count s (t :: ts) o) (ht : t.lexeme ≠ .endOfInput)
    (hc : t.isComment = false) (hp : s.perform (Read.item limit) = (.error e, s₁)) :
    ∃ ts₁, s.Moves (t :: ts) s₁ ts₁ ∧
      ((s₁.collect e).journal.diagnostics.isFull = true ∧
          o = (s₁.collect e).warnFull.finish none ∨
        (s₁.collect e).journal.diagnostics.isFull = false ∧
          ∃ s₂, (s₁.collect e).Moves ts₁ s₂ (ts₁.dropWhile (!Read.isResumption ·)) ∧
            Runs limit consumer count s₂ (ts₁.dropWhile (!Read.isResumption ·)) o) := by
  cases h with
  | finish he => exact absurd he ht
  | comment hc' _ _ => exact absurd (hc'.symm.trans hc) (by simp)
  | item _ _ hp' _ _ _ _ => exact absurd (hp'.symm.trans hp) (by simp)
  | objection _ _ hp' _ _ _ => exact absurd (hp'.symm.trans hp) (by simp)
  | full _ _ hp' hm _ full =>
    obtain ⟨he, rfl⟩ := Prod.mk.inj (hp'.symm.trans hp)
    obtain rfl := Except.error.inj he
    exact ⟨_, hm, .inl ⟨full, rfl⟩⟩
  | resume _ _ hp' hm _ notFull hm' run =>
    obtain ⟨he, rfl⟩ := Prod.mk.inj (hp'.symm.trans hp)
    obtain rfl := Except.error.inj he
    exact ⟨_, hm, .inr ⟨notFull, _, hm', run⟩⟩

/-- A run in which a statement has failed, without too many errors. -/
theorem Runs.of_error {count : Nat} {o : Outcome} {t : Token} {e : Failure}
    (h : Runs limit .all count s (t :: ts) o) (ht : t.lexeme ≠ .endOfInput)
    (hc : t.isComment = false) (hp : s.perform (Read.item limit) = (.error e, s₁))
    (room : o.session.journal.diagnostics.isFull = false) :
    (s₁.collect e).journal.diagnostics.isFull = false ∧ ∃ ts₁ s₂, s.Moves (t :: ts) s₁ ts₁ ∧
      (s₁.collect e).Moves ts₁ s₂ (ts₁.dropWhile (!Read.isResumption ·)) ∧
      Runs limit .all count s₂ (ts₁.dropWhile (!Read.isResumption ·)) o := by
  obtain ⟨ts₁, hm, ⟨full, rfl⟩ | ⟨notFull, s₂, hm', run⟩⟩ := h.of_failed ht hc hp
  · exact absurd (full.symm.trans room) (by simp)
  · exact ⟨notFull, ts₁, s₂, hm, hm', run⟩

theorem Runs.of_comment {consumer : Consumer} {count : Nat} {o : Outcome} {t : Token}
    (h : Runs limit consumer count s (t :: ts) o) (ht : t.isComment = true) :
    ∃ s₁, s.Moves (t :: ts) s₁ ts ∧ Runs limit consumer count s₁ ts o := by
  cases h with
  | finish he => simp [Token.isComment, he] at ht
  | comment _ hm run => exact ⟨_, hm, run⟩
  | item _ hc | objection _ hc | full _ hc | resume _ hc =>
    exact absurd (ht.symm.trans hc) (by simp)

theorem Runs.of_end {consumer : Consumer} {count : Nat} {o : Outcome} {e : Token}
    (h : Runs limit consumer count s [e] o) (he : e.lexeme = .endOfInput) :
    o = (s.note "Reached end of input").finish none := by
  cases h with
  | finish _ => rfl
  | comment hc _ _ => simp [Token.isComment, he] at hc
  | item hne | objection hne | full hne | resume hne => exact absurd he hne

theorem limit_collect (s : Session) (e : Failure) :
    (s.collect e).journal.diagnostics.limit = s.journal.diagnostics.limit := by
  cases e <;> rfl

theorem Runs.limit_eq {consumer : Consumer} {count : Nat} {o : Outcome}
    (h : Runs limit consumer count s ts o) :
    o.session.journal.diagnostics.limit = s.journal.diagnostics.limit := by
  induction h with
  | finish _ => rfl
  | comment _ hm _ ih | item _ _ _ hm _ _ _ ih => exact ih.trans hm.limit
  | objection _ _ _ hm _ _ => exact hm.limit
  | full _ _ _ hm _ _ => exact (limit_collect _ _).trans hm.limit
  | resume _ _ _ hm _ _ hm' _ ih =>
    exact ih.trans (hm'.limit.trans ((limit_collect _ _).trans hm.limit))

/-- When the first run has come to its end, what is left of the second one is a
    run over `rest`. -/
def Leaves (limit : Int) (n k : Nat) (rest : List Token) (o o' : Outcome) : Prop :=
  ∃ count s o₁, Runs limit .all count s rest o₁ ∧ s.cursor.Shows 0 rest ∧
    Ahead k o.session s ∧ o'.items = o.items.map (Item.down n) ++ o₁.items ∧
    o'.session = o₁.session

/-- A run over the first source, and one over the second that never has too many
    errors. -/
theorem Runs.alongside (hb : IsBarrier b) {count count' : Nat} {o o' : Outcome}
    (h : Runs limit .all count s ts o) (h' : Runs limit .all count' s' us o')
    (ha : Alike n (b :: bs) ts us) (hs : s.cursor.Shows 0 ts) (hs' : s'.cursor.Shows 0 us)
    (hk : Ahead k s s') (room : o'.session.journal.diagnostics.isFull = false) :
    Leaves limit n k (b :: bs) o o' := by
  induction h generalizing count' s' us o' with
  | finish he =>
    -- The second run stands on the barrier, and all of it is left.
    cases ha with
    | last _ => exact ⟨count', s', o', h', hs', ⟨hk.errors, hk.limit⟩, rfl, rfl⟩
    | cons hne _ => exact absurd he hne
  | @comment count s s₁ t ts o ht hm run ih =>
    cases ha with
    | last he => simp [Token.isComment, he] at ht
    | cons hne ha =>
      obtain ⟨_, hm', run'⟩ := h'.of_comment ht
      exact ih run' ha (hm.shows hs) (hm'.shows hs')
        (hk.moves hb hm hm' (.cons hne ha) ha) room
  | @item count s s₁ t ts ts₁ item o hne hc hp hm _ _ _ ih =>
    cases ha with
    | last he => exact absurd he hne
    | cons _ ha =>
      obtain ⟨_, _, _, s₁', ts₂, us₁, hp₁, hp', rfl, ha₁, hm₁, hm'⟩ | ⟨_, _, _, _, _, _, hp₁, -⟩ :=
        perform_alongside (Read.item_alongside hb limit hne ha) hs hs'
      · -- The same statement is handed over, and what is left is alike again.
        obtain ⟨hi, rfl⟩ := Prod.mk.inj (hp.symm.trans hp₁)
        obtain rfl := Except.ok.inj hi
        obtain rfl := hm.leads.shows.unique hm₁.leads.shows
        obtain ⟨us₂, o₁', hm₂', run', rfl⟩ := h'.of_ok hne hc hp' rfl
        obtain rfl := hm'.leads.shows.unique hm₂'.leads.shows
        have shows : s₁.cursor.Shows 0 ts₁ := hm.shows hs
        have shows' : s₁'.cursor.Shows 0 us₁ := hm'.shows hs'
        have ahead := hk.moves hb hm hm' (.cons hne ha) ha₁
        obtain ⟨count₂, s₂, o₂, run₂, shows₂, ahead₂, items, session⟩ :=
          ih run' ha₁ shows shows' ⟨ahead.errors, ahead.limit⟩ room
        exact ⟨count₂, s₂, o₂, run₂, shows₂, ahead₂, congrArg (List.cons _) items, session⟩
      · exact absurd (hp₁.symm.trans hp) (by simp)
  | objection _ _ _ _ _ hc => exact absurd hc (by simp [Consumer.all])
  | @full count s s₁ t ts ts₁ e hne hc hp hm _ full =>
    cases ha with
    | last he => exact absurd he hne
    | cons _ ha =>
      obtain ⟨_, _, _, _, _, _, hp₁, -⟩ | ⟨_, _, e', s₁', ts₂, us₁, hp₁, hp', he, ha₁, hm₁, hm'⟩ :=
        perform_alongside (Read.item_alongside hb limit hne ha) hs hs'
      · exact absurd (hp₁.symm.trans hp) (by simp)
      · -- The second collection would have been full as well.
        obtain ⟨hi, rfl⟩ := Prod.mk.inj (hp.symm.trans hp₁)
        obtain rfl := Except.error.inj hi
        have ahead := (hk.moves hb hm₁ hm' (.cons hne ha) ha₁).collect he
        obtain ⟨notFull, -⟩ := h'.of_error hne hc hp' room
        exact absurd (notFull.symm.trans (ahead.isFull full)) (by simp)
  | @resume count s s₁ s₂ t ts ts₁ e o hne hc hp hm _ _ hm₂ _ ih =>
    cases ha with
    | last he => exact absurd he hne
    | cons _ ha =>
      obtain ⟨_, _, _, _, _, _, hp₁, -⟩ | ⟨_, _, e', s₁', ts₂, us₁, hp₁, hp', he, ha₁, hm₁, hm'⟩ :=
        perform_alongside (Read.item_alongside hb limit hne ha) hs hs'
      · exact absurd (hp₁.symm.trans hp) (by simp)
      · obtain ⟨hi, rfl⟩ := Prod.mk.inj (hp.symm.trans hp₁)
        obtain rfl := Except.error.inj hi
        obtain rfl := hm.leads.shows.unique hm₁.leads.shows
        obtain ⟨-, us₂, s₂', hm₂', hm₃', run'⟩ := h'.of_error hne hc hp' room
        obtain rfl := hm'.leads.shows.unique hm₂'.leads.shows
        have ahead := (hk.moves hb hm hm' (.cons hne ha) ha₁).collect he
        -- Skipping does not go beyond a barrier, which is a place to resume at.
        have resumed := ha₁.dropWhile (p := (!Read.isResumption ·)) (by simp [hb.isResumption])
          (fun u hu => by simp [Read.isResumption, hu]) fun _ => rfl
        have shows : (s₁.collect e).cursor.Shows 0 ts₁ := cursor_collect s₁ e ▸ hm.shows hs
        have shows' : (s₁'.collect e').cursor.Shows 0 us₁ := cursor_collect s₁' e' ▸ hm'.shows hs'
        exact ih run' resumed (hm₂.shows shows) (hm₃'.shows shows')
          (ahead.moves hb hm₂ hm₃' ha₁ resumed) room

end Session

/-! ## Texts -/

theorem Segments.startsLine {file : String} {p : Position} {text : List Char} {t : Token}
    {ts : List Token} (h : Segments file p true text (t :: ts)) : t.startsLine = true := by
  cases h <;> rfl

/-- The first token of the text is a dollar sign or a dot. Where comments are
    passed over, a dot behind one has to be the first token of its line. (It is
    not if a carriage return ends the comment.) -/
def OpensStatement (file text : String) (skip : Bool) : Prop :=
  ∃ t, ((Scanner.ofText file text).next skip).1 = .ok t ∧ (t.kind = .mark .dollar ∨
    t.kind = .operator .dot ∧ (skip = true → t.startsLine = true))

theorem OpensStatement.isBarrier {file text : String} {skip : Bool} {ts : List Token}
    (h : OpensStatement file text skip) (hs : (Scanner.ofText file text).Splits ts) :
    ∃ b bs, shown skip ts = b :: bs ∧ IsBarrier b := by
  obtain ⟨t, ht, hk⟩ := h
  obtain ⟨t', s', hnext, first⟩ := hs.next skip
  obtain rfl : t = t' := Except.ok.inj (ht.symm.trans (congrArg Prod.fst hnext))
  obtain ⟨bs, hbs⟩ : ∃ bs, shown skip ts = t :: bs := by
    obtain ⟨hts, -⟩ | ⟨_, hts, -⟩ := first
    · exact ⟨_, hts⟩
    · exact ⟨_, hts⟩
  refine ⟨t, bs, hbs, ?_⟩
  rcases hk with hk | ⟨hk, line⟩
  · exact .inr (.inl (Token.kind_eq_mark.1 hk))
  · refine .inr (.inr ⟨Token.kind_eq_operator.1 hk, ?_⟩)
    cases skip with
    | true => exact line rfl
    | false =>
      -- With its comments, the text begins with this token.
      have all : ts = t :: bs := by simpa [shown] using hbs
      subst all
      exact Segments.startsLine hs.2

theorem Ended.alike {ts : List Token} (h : Ended ts) (n : Nat) (rest : List Token) :
    Alike n rest ts (ts.dropLast.map (Token.down n) ++ rest) := by
  induction h with
  | last he => exact .last he
  | @cons t ts ht hts ih =>
    rw [List.dropLast_cons_of_ne_nil hts.ne_nil]
    exact .cons ht ih

theorem shown_join (skip : Bool) (n : Nat) {ts : List Token} (us : List Token) (h : Ended ts) :
    shown skip (ts.dropLast ++ us.map (Token.down n)) =
      (shown skip ts).dropLast ++ (shown skip us).map (Token.down n) := by
  obtain ⟨xs, e, rfl, he⟩ := h.exists_concat
  have last : shown skip [e] = [e] := shown_end skip (by simp [Token.isEnd, he])
  have split : shown skip (xs ++ [e]) = shown skip xs ++ [e] :=
    (List.filter_append ..).trans (congrArg (shown skip xs ++ ·) last)
  have moved : shown skip (us.map (Token.down n)) = (shown skip us).map (Token.down n) := by
    unfold shown
    rw [List.filter_map]
    rfl
  rw [split, List.dropLast_concat, List.dropLast_concat, ← moved]
  exact List.filter_append ..

theorem Alike.length_first {n : Nat} {b : Token} {bs ts us : List Token} (hb : IsBarrier b)
    (h : Alike n (b :: bs) ts us) : ((us.take 1).filterMap Token.diagnostic?).length =
      ((ts.take 1).filterMap Token.diagnostic?).length := by
  cases h with
  | @last e he =>
    have none : e.diagnostic? = none := IsBarrier.diagnostic? (.inl he)
    simp [none, hb.diagnostic?]
  | @cons t _ _ _ _ =>
    cases ht : t.diagnostic? <;> simp [Token.diagnostic?_down, ht]

/-- A run over the tokens of two sources, the second of which begins with a
    barrier, is a run over the first and then one over the second. -/
theorem Session.Runs.join {nesting limit : Int} {n : Nat} {sA sB s : Session}
    {oA oB o : Outcome} {b : Token} {ts bs : List Token} (hb : IsBarrier b)
    (openA : sA.Opens (.empty limit) ts) (runA : Runs nesting .all 0 sA ts oA)
    (openB : sB.Opens (.empty limit) (b :: bs)) (runB : Runs nesting .all 0 sB (b :: bs) oB)
    (opens : s.Opens (.empty limit) (ts.dropLast ++ (b :: bs).map (Token.down n)))
    (run : Runs nesting .all 0 s (ts.dropLast ++ (b :: bs).map (Token.down n)) o)
    (room : o.session.journal.diagnostics.isFull = false) :
    o.items = oA.items ++ oB.items.map (Item.down n) ∧
      o.errors.length = oA.errors.length + oB.errors.length := by
  -- The first source and the whole, up to the first token of the second source.
  have alikeA := openA.shows.ended.alike 0 ((b :: bs).map (Token.down n))
  rw [show Token.down 0 = id from rfl, List.map_id] at alikeA
  have barrier : IsBarrier (b.down n) := hb
  have aheadA : Ahead 0 sA s := by
    refine ⟨?_, opens.limit.trans openA.limit.symm⟩
    rw [openA.errors, opens.errors, List.length_append, List.length_append,
      alikeA.length_first barrier, Nat.add_zero]
  obtain ⟨_, s₁, o₁, run₁, shows₁, ahead₁, items₁, session₁⟩ :=
    runA.alongside barrier run alikeA openA.shows opens.shows aheadA room
  -- The second source and what is left of the whole.
  obtain ⟨ys, e, hys, he⟩ := openB.shows.ended.exists_concat
  have last : IsBarrier (e.down n) := .inl he
  have alikeB := openB.shows.ended.alike n [e.down n]
  have moved : (b :: bs).dropLast.map (Token.down n) ++ [e.down n] =
      (b :: bs).map (Token.down n) := by
    rw [hys, List.dropLast_concat, List.map_append]
    rfl
  rw [moved] at alikeB
  have aheadB : Ahead s₁.errors.length sB s₁ := by
    have none : sB.errors = [] := by
      rw [openB.errors]
      simp [hb.diagnostic?, Journal.empty, Diagnostics.empty]
    refine ⟨by rw [none, List.length_nil, Nat.zero_add], ?_⟩
    exact ahead₁.limit.trans (runA.limit_eq.trans (openA.limit.trans openB.limit.symm))
  obtain ⟨_, s₂, o₂, run₂, -, ahead₂, items₂, session₂⟩ :=
    runB.alongside last run₁ alikeB openB.shows shows₁ aheadB (session₁ ▸ room)
  obtain rfl := run₂.of_end he
  constructor
  · have same : Item.down 0 = id := funext Item.down_zero
    rw [items₁, items₂, same, List.map_id]
    exact congrArg (oA.items ++ ·) (List.append_nil _)
  · have errors : o.errors = s₂.errors := by
      rw [Outcome.errors, session₁, session₂]
      rfl
    rw [errors, ahead₂.errors, ahead₁.errors, Nat.add_zero, Nat.add_comm]

/-- Texts that are joined by a line feed, the second of which opens a statement,
    are read one after the other, unless there are too many errors. -/
theorem readProgram_join (file A B : String) (skip : Bool) (nesting limit : Int)
    (fitA : NumbersFit A.toList) (fitB : NumbersFit B.toList) (opens : OpensStatement file B skip)
    (room : (readProgram (.ofText file (A ++ "\n" ++ B)) skip nesting .all
      (.empty limit)).session.journal.diagnostics.isFull = false) :
    let read (text : String) := readProgram (.ofText file text) skip nesting .all (.empty limit)
    (read (A ++ "\n" ++ B)).items =
        (read A).items ++ (read B).items.map (Item.down (1 + A.toList.count '\n')) ∧
      (read (A ++ "\n" ++ B)).errors.length = (read A).errors.length + (read B).errors.length ∧
      (read A).stop = none ∧ (read B).stop = none ∧ (read (A ++ "\n" ++ B)).stop = none := by
  intro read
  obtain ⟨ts, hA⟩ := Scanner.splits_ofText file fitA
  obtain ⟨us, hB⟩ := Scanner.splits_ofText file fitB
  obtain ⟨b, bs, hbs, hb⟩ := opens.isBarrier hB
  obtain ⟨sA, openA, runA⟩ := runs_readProgram hA skip nesting .all (.empty limit)
  obtain ⟨sB, openB, runB⟩ := runs_readProgram hB skip nesting .all (.empty limit)
  obtain ⟨s, openAB, runAB⟩ :=
    runs_readProgram (Scanner.splits_join hA hB) skip nesting .all (.empty limit)
  rw [shown_join skip _ us hA.2.ended, hbs] at openAB runAB
  rw [hbs] at openB runB
  obtain ⟨items, errors⟩ := runA.join hb openA openB runB openAB runAB room
  exact ⟨items, errors, runA.stop_eq_none, runB.stop_eq_none, runAB.stop_eq_none⟩

/-- A call that is cut off, and a definition and an import on the lines behind. -/
theorem readProgram_join_open_call :
    let A := "x 'a = f (1"
    let B := ".g| = 2\n$m"
    let whole := readProgram (.ofText "main" (A ++ "\n" ++ B)) false 100 .all (.empty 100)
    NumbersFit A.toList ∧ NumbersFit B.toList ∧ OpensStatement "main" B false ∧
      whole.session.journal.diagnostics.isFull = false ∧
      whole.items.length = 3 ∧ whole.errors.length = 1 := by
  intro A B whole
  have fitA : NumbersFit A.toList := by decide +kernel
  have fitB : NumbersFit B.toList := by decide +kernel
  have opens : OpensStatement "main" B false :=
    ⟨⟨.operator .dot, "main", ⟨1, 1⟩, true⟩, by decide +kernel, .inr ⟨rfl, nofun⟩⟩
  have room : whole.session.journal.diagnostics.isFull = false := by decide +kernel
  obtain ⟨items, errors, -⟩ := readProgram_join "main" A B false 100 100 fitA fitB opens room
  refine ⟨fitA, fitB, opens, room, ?_, ?_⟩
  · rw [items]
    decide +kernel
  · rw [errors]
    decide +kernel

end Soul
