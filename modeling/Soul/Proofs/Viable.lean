import Soul.Proofs.Foresight
import Soul.Proofs.Report

/-!
# Failures at the first token that cannot be

A statement that cannot be read fails as early as it can: the tokens in front of the one it
fails at are the beginning of some statement, and together with that one they are not. Only
where expressions are too deep inside each other it may fail in front of tokens that could
be there.

The loops of the readings are first unrolled to equations without rounds. With these each
reading is foreseen (`Read.Foreseen`), from the innermost outwards. An expression can be
started with a name and stops in front of a name, of a closing parenthesis and of the end of
the input (`Read.IsQuiet`), so that these are the tokens with which made-up parts begin.
The main statement is `Read.item_fails_earliest`.
-/

namespace Soul

theorem Cursor.Shows.length_ahead {c : Cursor} {d : Nat} {t : Token} {ts : List Token}
    (h : c.Shows d (t :: ts)) : c.ahead.length = ts.length := by
  rw [h.ahead_eq, List.length_map]

namespace Read

variable {α β : Type} {d : Nat} {t : Token} {ts : List Token} {inner operand : Read Expr}

/-! ## Loops without rounds -/

theorem argumentsWithin_agree_arguments (hi : SoundExpression inner)
    {rounds : List (Except Fault Token)} (hr : ts.length ≤ rounds.length) :
    Agree (argumentsWithin inner rounds) (arguments inner) d ts := fun c hc =>
  argumentsWithin_agree hi rounds c.remaining hr (Nat.le_of_eq hc.length_remaining.symm) c hc

theorem arguments_of_rightParen (ht : t.lexeme = .mark .rightParen) :
    Agree (arguments inner) (advance >>= fun _ => pure []) d (t :: ts) := by
  intro c hc
  refine ((Agree.of_skipComments ?_).trans (Agree.of_current.trans ?_)) c hc
  · simp [Token.isComment, ht]
  · rw [ht]
    exact Agree.refl _

theorem arguments_of_end (ht : t.lexeme = .endOfInput) : Agree (arguments inner)
    (refuse t (.missingToken "`)`" (some "call arguments") (some t.description))) d (t :: ts) := by
  intro c hc
  refine ((Agree.of_skipComments ?_).trans (Agree.of_current.trans ?_)) c hc
  · simp [Token.isComment, ht]
  · rw [ht]
    exact Agree.refl _

/-- The arguments of a call are the first one and the others. -/
theorem arguments_of_cons (hi : SoundExpression inner) (hc : t.isComment = false)
    (hp : t.lexeme ≠ .mark .rightParen) (he : t.lexeme ≠ .endOfInput) :
    Agree (arguments inner) (do
      let arg ← inner
      let args ← arguments inner
      return arg :: args) d (t :: ts) := by
  intro c shows
  have enough : ts.length ≤ c.ahead.length := shows.length_ahead.ge
  refine ((Agree.of_skipComments hc).trans (Agree.of_current.trans ?_)) c shows
  split
  · next h => exact absurd h hp
  · next h => exact absurd h he
  · refine (Agree.refl inner).bind (hi d (t :: ts)) fun arg ts' _ ⟨⟨xs, hxs, hd⟩, _⟩ => ?_
    have shorter : ts'.length ≤ c.ahead.length :=
      (Nat.le_of_lt_succ (length_lt_of_expression hxs hd)).trans enough
    exact (argumentsWithin_agree_arguments hi shorter).bind (argumentsWithin_sound hi _ shorter)
      fun _ _ _ _ => Agree.refl _

/-- An operator of the chain is followed by its right operand, and then the chain goes on. -/
theorem chain_of_operator (ho : SoundPrimary operand) {op : Operator} (hop : t.operator? = some op)
    {least : Nat} (hle : least ≤ op.tier) (lhs : Expr) :
    Agree (chain operand least lhs) (do
      advance
      let rhs ← operand
      let rhs ← chain operand (op.tier + 1) rhs
      chain operand least (.binary op lhs rhs t.location)) d (t :: ts) := by
  intro c shows
  have enough : ts.length ≤ c.ahead.length := shows.length_ahead.ge
  have within : ∀ {ts' : List Token} {least : Nat} {lhs : Expr}, ts' <:+ ts →
      Agree (chainWithin operand c.ahead least lhs) (chain operand least lhs) d ts' :=
    fun hsuf c' shows' => chainWithin_agree ho _ c'.remaining _ _ (hsuf.length_le.trans enough)
      (Nat.le_of_eq shows'.length_remaining.symm) c' shows'
  obtain ⟨-, notEnd⟩ := isComment_of_operator? hop
  have found : operatorFrom least c = .ok (some (t, op)) c := by
    obtain ⟨-, halts⟩ | ⟨op', hop', -, heq⟩ := operatorFrom_cases least c
    · exact absurd (halts op (shows.current_eq ▸ hop)) (Nat.not_lt.2 hle)
    · rw [shows.current_eq] at hop' heq
      rw [heq, Option.some.inj (hop'.symm.trans hop)]
  change (operatorFrom least >>= _) c = _
  rw [bind_of_ok found]
  refine Agree.advance_bind notEnd ((Agree.refl operand).bind (ho d ts) ?_) c shows
  intro rhs ts₁ hsuf₁ _
  refine (within hsuf₁).bind (chainWithin_sound ho _ _ rhs (hsuf₁.length_le.trans enough)) ?_
  exact fun rhs' ts₂ hsuf₂ _ => within (hsuf₂.trans hsuf₁)

theorem chain_of_halts {least : Nat} (h : ∀ op, t.operator? = some op → op.tier < least)
    (lhs : Expr) : Agree (chain operand least lhs) (pure lhs) d (t :: ts) := by
  intro c shows
  obtain ⟨heq, -⟩ | ⟨op, hop, hle, -⟩ := operatorFrom_cases least c
  · change (operatorFrom least >>= _) c = _
    rw [bind_of_ok heq]
  · exact absurd (h op (shows.current_eq ▸ hop)) (Nat.not_lt.2 hle)

theorem typeNames_of_some {name : String} (ht : typeName t.lexeme = some name) :
    Agree typeNames (do
      advance
      let names ← typeNames
      return name :: names) d (t :: ts) := by
  intro c shows
  have enough : ts.length ≤ c.ahead.length := shows.length_ahead.ge
  have notEnd : t.lexeme ≠ .endOfInput := by
    intro he
    simp [he, typeName] at ht
  change typeNamesWithin (.ok c.current :: c.ahead) c = _
  rw [typeNamesWithin]
  refine (Agree.of_current.trans ?_) c shows
  simp only [ht]
  refine Agree.advance_bind notEnd (Agree.bind (fun c' shows' => ?_)
    (typeNamesWithin_sound c.ahead enough) fun _ _ _ _ => Agree.refl _)
  exact typeNamesWithin_agree _ c'.remaining enough (Nat.le_of_eq shows'.length_remaining.symm) c'
    shows'

theorem typeNames_of_none (ht : typeName t.lexeme = none) :
    Agree typeNames (pure []) d (t :: ts) := by
  intro c shows
  change typeNamesWithin (.ok c.current :: c.ahead) c = _
  rw [typeNamesWithin]
  refine (Agree.of_current.trans ?_) c shows
  simp only [ht]
  exact Agree.refl _

/-! ## Expressions -/

/-- A made-up token. -/
def filler (lexeme : Lexeme) : Token := ⟨lexeme, "", .start, false⟩

theorem isFiller_identifier (name : String) : (filler (.identifier name)).IsFiller :=
  ⟨rfl, rfl, nofun⟩

theorem isFiller_mark (m : Mark) : (filler (.mark m)).IsFiller := ⟨rfl, rfl, nofun⟩

theorem isFiller_operator (op : Operator) : (filler (.operator op)).IsFiller := ⟨rfl, rfl, nofun⟩

/-- No expression goes on with the token. -/
def IsQuiet (t : Token) : Prop :=
  t.lexeme = .endOfInput ∨ t.lexeme = .mark .rightParen ∨ ∃ name, t.lexeme = .identifier name

theorem IsQuiet.operator? (h : IsQuiet t) : t.operator? = none := by
  rcases h with h | h | ⟨name, h⟩ <;> simp [Token.operator?, h]

theorem IsQuiet.ne_mark (h : IsQuiet t) {m : Mark} (hm : m ≠ .rightParen) : t.lexeme ≠ .mark m := by
  rcases h with h | h | ⟨name, h⟩ <;> simp [h, hm.symm]

theorem IsQuiet.isComment (h : IsQuiet t) : t.isComment = false := by
  rcases h with h | h | ⟨name, h⟩ <;> simp [Token.isComment, h]

theorem isQuiet_rightParen : IsQuiet (filler (.mark .rightParen)) := .inr (.inl rfl)

theorem isQuiet_identifier (name : String) : IsQuiet (filler (.identifier name)) :=
  .inr (.inr ⟨name, rfl⟩)

/-! ### Primaries -/

section Inner

variable (sound : SoundExpression inner) (hi : ∀ ts, Foreseen IsQuiet inner d ts)

include hi

include sound in
/-- The induction is on the number of tokens, since an argument has one at least. -/
theorem arguments_resumes : Resumes IsQuiet IsQuiet (arguments inner) d := by
  have start : Startable IsQuiet IsQuiet (arguments inner) d :=
    .step (isFiller_mark _) isQuiet_rightParen (fun _ => arguments_of_rightParen rfl) (.pure [])
  refine ⟨start, fun ts => ?_⟩
  induction hn : ts.length using Nat.strong_induction_on generalizing ts with
  | _ n ih =>
    subst hn
    refine .of_cons fun t us hts hc => ?_
    subst hts
    by_cases hp : t.lexeme = .mark .rightParen
    · exact .step (by simp [hp]) (fun _ => arguments_of_rightParen hp) (.pure [])
    · by_cases he : t.lexeme = .endOfInput
      · exact .refuse _ (fun _ => arguments_of_end he) start.viable
      · have moves : Ensures (arguments inner) d (t :: us)
            (fun _ ts' => ts'.length < (t :: us).length) Refused := by
          refine (arguments_sound sound).imp ?_
          rintro _ _ ⟨us, right, passed, -, -⟩
          exact passed.length_lt (by simp)
        -- If the first argument breaks off at `t` itself, a parenthesis can be in its place.
        refine .peek (fun _ => arguments_of_cons sound hc hp he) start.viable moves ?_
        refine (hi _).bind_of_ensures (sound d _) (fun arg => ?_) (fun _ hu => hu) ?_
        · exact start.bind fun args => .pure (arg :: args)
        · rintro arg ts' ⟨⟨us, passed, derives⟩, -⟩
          exact (ih _ (length_lt_of_expression passed derives) ts' rfl).map (arg :: ·)

include sound in
/-- Behind a name there may be the arguments of a call. -/
theorem named_resumes (token : Token) (name : String) : ∃ rest : Unit → Read Expr,
    named inner token name = advance >>= rest ∧ Resumes IsQuiet IsQuiet (rest ()) d := by
  refine ⟨_, rfl, .optional (.mark .leftParen)
    (do return .call name (← arguments inner) token.location) (.var name token.location)
    (fun u hu => ?_) (fun u hu => ?_) nofun (fun u hu => hu.ne_mark (by decide)) fun us => ?_⟩
  · rw [hu]
  · split
    · next h => exact absurd h hu
    · rfl
  · exact ((arguments_resumes sound hi).foreseen us).map _

/-- Behind the mark of a declaration there are its name and, if there is one, its initial
    value. -/
theorem declaration_resumes (token : Token) (isMutable : Bool) : ∃ rest : Unit → Read Expr,
    declaration inner token isMutable = advance >>= rest ∧
      Resumes IsQuiet IsQuiet (rest ()) d := by
  refine ⟨_, rfl, Resumes.bind (.expect (isFiller_identifier "x") (isQuiet_identifier _) rfl rfl) ?_
    fun _ hu => hu⟩
  rintro ⟨_, name⟩
  refine .optional (.operator .assign)
    (do return .declaration name isMutable (some (← inner)) token.location)
    (.declaration name isMutable none token.location) (fun u hu => ?_) (fun u hu => ?_) nofun
    (fun u hu => ?_) fun us => ?_
  · rw [hu]
  · split
    · next h => exact absurd h hu
    · rfl
  · intro h
    simpa [Token.operator?, h] using hu.operator?
  · exact (hi us).map _

end Inner

/-- Reads the parenthesis that closes the one in front of `e`. -/
def close (e : Expr) : Read Expr := do
  skipComments
  discard <| expect (ofKind (.mark .rightParen)) "`)`" (some "parenthesized expression")
  return e

theorem close_resumes (e : Expr) : Resumes IsQuiet IsQuiet (close e) d := by
  refine .skipComments (fun _ hu => hu.isComment) (Resumes.bind (M := IsQuiet) ?_ ?_ fun _ hu => hu)
  · exact Resumes.discard (.expect (isFiller_mark .rightParen) isQuiet_rightParen rfl rfl)
  · exact fun _ => .pure e

theorem primary_resumes (sound : SoundExpression inner) (hi : ∀ ts, Foreseen IsQuiet inner d ts) :
    Resumes IsQuiet IsQuiet (primary inner) d := by
  have start : Startable IsQuiet IsQuiet (primary inner) d := by
    obtain ⟨rest, heq, resumes⟩ := named_resumes sound hi (filler (.identifier "x")) "x"
    refine .step (isFiller_identifier "x") (isQuiet_identifier _) (fun ts => ?_) resumes.start
    rw [← heq]
    exact (Agree.of_skipComments rfl).trans Agree.of_current
  refine ⟨start, fun ts => .of_cons fun t us _ hc => ?_⟩
  -- What is read is decided by the first token alone.
  have agree : ∀ ts, Agree (primary inner) _ d (t :: ts) := fun ts =>
    (Agree.of_skipComments hc).trans Agree.of_current
  cases ht : t.lexeme with
  | identifier name =>
    obtain ⟨rest, heq, resumes⟩ := named_resumes sound hi t name
    rw [ht] at agree
    exact .step (by simp [ht]) (fun ts => heq ▸ agree ts) (resumes.foreseen us)
  | integer n =>
    rw [ht] at agree
    exact .step (by simp [ht]) agree (.pure _)
  | real x =>
    rw [ht] at agree
    exact .step (by simp [ht]) agree (.pure _)
  | string body =>
    rw [ht] at agree
    exact .step (by simp [ht]) agree (.pure _)
  | mark m =>
    rw [ht] at agree
    cases m with
    | apostrophe =>
      obtain ⟨rest, heq, resumes⟩ := declaration_resumes hi t false
      exact .step (by simp [ht]) (fun ts => heq ▸ agree ts) (resumes.foreseen us)
    | comma =>
      obtain ⟨rest, heq, resumes⟩ := declaration_resumes hi t true
      exact .step (by simp [ht]) (fun ts => heq ▸ agree ts) (resumes.foreseen us)
    | leftParen => exact .step (by simp [ht]) agree ((hi us).bind close_resumes fun _ hu => hu)
    | _ => exact .refuse _ agree start.viable
  | _ =>
    rw [ht] at agree
    exact .refuse _ agree start.viable

/-! ### Chains -/

/-- The induction is on the number of tokens, since an operand has one at least. -/
theorem chain_resumes (sound : SoundPrimary operand) (ho : Resumes IsQuiet IsQuiet operand d)
    (least : Nat) (lhs : Expr) : Resumes IsQuiet IsQuiet (chain operand least lhs) d := by
  have start : ∀ (least : Nat) (lhs : Expr),
      Startable IsQuiet IsQuiet (chain operand least lhs) d := fun least lhs =>
    .done lhs fun u hu _ =>
      chain_of_halts (fun op hop => absurd (hu.operator?.symm.trans hop) nofun) lhs
  refine ⟨start least lhs, fun ts => ?_⟩
  induction hn : ts.length using Nat.strong_induction_on generalizing ts least lhs with
  | _ n ih =>
    subst hn
    refine .of_cons fun t us hts hc => ?_
    subst hts
    by_cases halts : ∀ op, t.operator? = some op → op.tier < least
    · refine .done lhs fun u hu _ => chain_of_halts (fun op hop => ?_) lhs
      rcases hu with rfl | hu
      · exact halts op hop
      · exact absurd (hu.operator?.symm.trans hop) nofun
    · obtain ⟨op, hop, hle⟩ : ∃ op, t.operator? = some op ∧ least ≤ op.tier := by
        simpa using halts
      refine .step (isComment_of_operator? hop).2 (fun _ => chain_of_operator sound hop hle lhs) ?_
      refine (ho.foreseen us).bind_of_ensures (sound d us) (fun rhs => ?_) (fun _ hu => hu) ?_
      · exact (start _ rhs).bind fun rhs => start _ _
      · rintro rhs ts₁ ⟨_, ⟨used, rfl, -⟩, -⟩
        -- Behind its first operand the chain goes on twice: for the right operand with the
        -- tiers above that of `op`, and then with `least` again.
        have within : ∀ {ts₂ : List Token}, ts₂.length ≤ ts₁.length →
            ts₂.length < (t :: (used ++ ts₁)).length := by
          intro ts₂ hle
          simp only [List.length_cons, List.length_append]
          omega
        refine .bind_of_ensures (ih _ (within le_rfl) _ rhs ts₁ rfl) (chain_sound sound _ rhs)
          (fun rhs => start _ _) (fun _ hu => hu) ?_
        rintro rhs' ts₂ ⟨⟨_, ⟨used', rfl, -⟩, -⟩, -⟩
        exact ih _ (within (by simp)) _ _ ts₂ rfl

/-! ### Expressions inside each other -/

theorem expressionWithin_resumes (limit : Int) (levels : Nat)
    (h : ∀ ts, Foreseen IsQuiet (expressionWithin limit levels) (d + 1) ts) :
    Resumes IsQuiet IsQuiet (expressionWithin limit (levels + 1)) d := by
  have sound := expressionWithin_sound limit levels
  have operand : Resumes IsQuiet IsQuiet (primary (expressionWithin limit levels)) (d + 1) :=
    primary_resumes sound h
  exact .nested (operand.bind (fun lhs => chain_resumes (primary_sound sound) operand 0 lhs)
    fun _ hu => hu)

theorem expressionWithin_foreseen (limit : Int) (levels : Nat) :
    Foreseen IsQuiet (expressionWithin limit levels) d ts := by
  induction levels generalizing d ts with
  | zero =>
    -- The only failure that no made-up tokens could have prevented.
    refine .nested (.of_cons fun t us _ _ _ _ => ⟨[], t, us, rfl, .inr ?_⟩)
    exact ⟨.violation ⟨.nestingTooDeep limit, t.location⟩,
      fun rest => Ensures.current_bind (.throw ⟨rfl, rfl⟩), fun deep => absurd trivial deep⟩
  | succ levels ih => exact (expressionWithin_resumes limit levels fun _ => ih).foreseen ts

/-- An expression can be read where one more may be inside the others. -/
theorem expression_resumes {limit : Int} (h : d < limit) :
    Resumes IsQuiet IsQuiet (expression limit) d := by
  obtain ⟨levels, hlevels⟩ : ∃ levels, (limit - d).toNat = levels + 1 :=
    ⟨(limit - d).toNat - 1, by omega⟩
  have agree : ∀ ts, Agree (expression limit) (expressionWithin limit (levels + 1)) d ts := by
    intro ts c shows
    rw [← hlevels, ← shows.depth]
    rfl
  have resumes := expressionWithin_resumes (d := d) limit levels fun _ =>
    expressionWithin_foreseen limit levels
  exact ⟨resumes.start.of_agree agree, fun ts => (resumes.foreseen ts).of_agree agree⟩

/-! ## Statements -/

/-- Any token may come first. -/
def AnyToken (_ : Token) : Prop := True

theorem use_resumes : Resumes AnyToken IsQuiet use d := by
  refine Resumes.bind (.expect (isFiller_mark .dollar) trivial rfl rfl) ?_ fun _ _ => trivial
  rintro ⟨token, _⟩
  refine Resumes.bind (M := IsQuiet) (.expect (isFiller_identifier "x") trivial rfl rfl) ?_
    fun _ hu => hu
  rintro ⟨_, name⟩
  refine .optional (.mark .colon) (do
      let child ← expect identifier "identifier after `:`" (some "import")
      return ⟨name, some ⟨child.2, child.1.location⟩, token.location⟩) ⟨name, none, token.location⟩
    (fun u hu => ?_) (fun u hu => ?_) nofun (fun u hu => hu.ne_mark (by decide)) fun us => ?_
  · rw [hu]
  · split
    · next h => exact absurd h hu
    · rfl
  · refine Resumes.foreseen (M := AnyToken) (.bind (M := IsQuiet) ?_ ?_ fun _ hu => hu) us
    · exact .expect (isFiller_identifier "x") trivial rfl rfl
    · exact fun _ => .pure _

/-- Neither the types of the parameters nor that of the result go on with the token. -/
structure PastTypes (t : Token) : Prop where
  typeName : typeName t.lexeme = none
  ne_arrow : t.lexeme ≠ .mark .arrow

theorem IsQuiet.pastTypes (h : IsQuiet t) : PastTypes t := by
  refine ⟨?_, h.ne_mark (by decide)⟩
  rcases h with h | h | ⟨name, h⟩ <;> simp [Read.typeName, h]

theorem pastTypes_apostrophe : PastTypes (filler (.mark .apostrophe)) := ⟨rfl, nofun⟩

theorem pastTypes_assign : PastTypes (filler (.operator .assign)) := ⟨rfl, nofun⟩

theorem typeNames_resumes : Resumes PastTypes PastTypes typeNames d := by
  have start : Startable PastTypes PastTypes typeNames d :=
    .done [] fun u hu _ => typeNames_of_none hu.typeName
  refine ⟨start, fun ts => ?_⟩
  induction ts with
  | nil => exact .of_cons nofun
  | cons t ts ih =>
    cases ht : typeName t.lexeme with
    | none =>
      refine .done [] fun u hu _ => typeNames_of_none ?_
      rcases hu with rfl | hu
      · exact ht
      · exact hu.typeName
    | some name =>
      have notEnd : t.lexeme ≠ .endOfInput := fun h => by simp [h, typeName] at ht
      exact .step notEnd (fun _ => typeNames_of_some ht) (ih.map _)

theorem result_resumes : Resumes PastTypes PastTypes result d := by
  refine .optional (.mark .arrow) (do
      let child ← expect typeName "return type" (some "prototype")
      return some child.2) none
    (fun u hu => ?_) (fun u hu => ?_) nofun (fun u hu => hu.ne_arrow) fun us => ?_
  · rw [hu]
  · split
    · next h => exact absurd h hu
    · rfl
  · refine Resumes.foreseen (M := AnyToken) (.bind (M := PastTypes) ?_ ?_ fun _ hu => hu) us
    · exact .expect (x := filler (.typeName "x")) ⟨rfl, rfl, nofun⟩ trivial rfl rfl
    · exact fun _ => .pure _

theorem parameterMark_resumes {N : Token → Prop} : Resumes PastTypes N parameterMark d := by
  have start : Startable PastTypes N parameterMark d := by
    refine .step (isFiller_mark .apostrophe) pastTypes_apostrophe (fun _ => ?_) (.pure ())
    rw [bind_pure]
    exact Agree.of_current
  refine ⟨start, fun ts => .of_cons fun t us _ _ => ?_⟩
  have agree : ∀ ts, Agree parameterMark _ d (t :: ts) := fun _ => Agree.of_current
  split at agree
  · next h => exact .step (by simp [h]) (fun ts => (bind_pure advance).symm ▸ agree ts) (.pure ())
  · next h => exact .step (by simp [h]) (fun ts => (bind_pure advance).symm ▸ agree ts) (.pure ())
  · exact .refuse _ agree start.viable

theorem parameters_resumes (types : List String) :
    Resumes PastTypes PastTypes (parameters types) d := by
  induction types with
  | nil => exact .pure []
  | cons type types ih =>
    refine parameterMark_resumes.bind (M := AnyToken) (fun _ => ?_) fun _ _ => trivial
    refine Resumes.bind (.expect (isFiller_identifier "x") trivial rfl rfl) ?_ fun _ hu => hu
    exact fun _ => ih.map _

theorem prototype_resumes : Resumes AnyToken IsQuiet prototype d := by
  refine Resumes.bind (M := AnyToken) (.expect (isFiller_identifier "f") trivial rfl rfl) ?_
    fun _ _ => trivial
  rintro ⟨token, name⟩
  refine Resumes.bind (Resumes.discard (.expect (isFiller_operator .bitOr) trivial rfl rfl))
    (fun _ => ?_) fun _ hu => hu.pastTypes
  refine typeNames_resumes.bind (fun types => ?_) fun _ hu => hu.pastTypes
  refine result_resumes.bind (fun result => ?_) fun _ hu => hu.pastTypes
  refine (parameters_resumes types).bind (fun parameters => ?_) fun _ hu => hu.pastTypes
  refine Resumes.bind (M := IsQuiet) (.discard ?_) (fun _ => .pure _) fun _ hu => hu
  exact .expect (isFiller_operator .assign) pastTypes_assign rfl rfl

theorem define_resumes {limit : Int} (h : d < limit) :
    Resumes AnyToken IsQuiet (define limit) d := by
  refine Resumes.bind (M := AnyToken) (.expect (isFiller_operator .dot) trivial rfl rfl) ?_
    fun _ _ => trivial
  rintro ⟨token, _⟩
  refine prototype_resumes.bind (fun prototype => ?_) fun _ hu => hu
  exact (expression_resumes h).map _

theorem evaluate_foreseen {limit : Int} (h : d < limit) :
    Foreseen IsQuiet (evaluate limit) d ts := by
  have expression := expression_resumes h
  have agree : ∀ (t : Token) ts, Agree (evaluate limit)
      (do return .evaluate (← Read.expression limit) t.location) d (t :: ts) :=
    fun _ _ => Agree.of_current
  have viable : Viable IsQuiet (evaluate limit) d [] := by
    obtain ⟨ext, ⟨fillers, e, taken⟩, -⟩ := expression.start
    cases ext with
    | nil =>
      -- An expression has a token at least.
      have stays : Takes (Read.expression limit) d [] ⟨.endOfInput, "", .start, false⟩ e :=
        taken _ (.inl rfl)
      obtain ⟨⟨us, passed, derives⟩, -⟩ := stays.ensured (.last rfl) (expression_sound limit d _)
      exact absurd (length_lt_of_expression passed derives) (Nat.lt_irrefl _)
    | cons x ext =>
      refine ⟨x :: ext, fillers, .evaluate e x.location, fun u hu rest => ?_⟩
      refine .of_agree (agree x _) ((taken u hu rest).bind ?_)
      rintro _ _ - - ⟨rfl, rfl⟩
      exact .pure ⟨rfl, rfl⟩
  refine .of_cons fun t us _ _ => ?_
  have moves : Ensures (evaluate limit) d (t :: us) (fun _ ts' => ts'.length < (t :: us).length)
      Refused := (evaluate_sound limit).imp fun _ _ => SoundItem.length_lt
  exact .peek (agree t) viable moves ((expression.foreseen _).map _)

/-- Reads the statement of which the given token is the first one. -/
def statement (limit : Int) (first : Token) : Read Item :=
  match first.lexeme with
  | .mark .dollar => do return .use (← use)
  | .operator .dot => do return .define (← define limit)
  | _ => evaluate limit

theorem item_eq_statement (limit : Int) (c : Cursor) : item limit c = statement limit c.current c :=
  rfl

theorem statement_foreseen {limit : Int} (h : d < limit) (first : Token) :
    Foreseen IsQuiet (statement limit first) d ts := by
  unfold statement
  split
  · exact (use_resumes.foreseen ts).map _
  · exact ((define_resumes h).foreseen ts).map _
  · exact evaluate_foreseen h

end Read

/-- Where a failure is located. -/
def Failure.location? : Failure → Option Location
  | .invalid diag | .violation diag => diag.location
  | .fault _ => none

theorem Refused.location_eq {e : Failure} {t : Token} {ts : List Token} (h : Refused e (t :: ts)) :
    e.location? = some t.location := by
  cases h with
  | invalid hd => exact Token.location_of_diagnostic? hd
  | violation => rfl

namespace Read

variable {α : Type}

/-- Some tokens behind `us`, none of which starts a line, and the end of the input behind them
    are all that the reading lacks: it passes over them up to the end. -/
def Continues (p : Read α) (d : Nat) (us : List Token) : Prop :=
  ∃ ext : List Token, (∀ x ∈ ext, x.startsLine = false) ∧ ∀ eof, eof.lexeme = .endOfInput →
    Ended (us ++ ext ++ [eof]) ∧ Ensures p d (us ++ ext ++ [eof]) (fun _ ts => ts = [eof]) Never

/-- A statement that cannot be read, other than for being too deep, fails at the first token
    with which it cannot be. The failure is located there. The tokens of the statement in front
    of that one are the beginning of a statement that can be read, and with that token behind
    them they are not, whatever follows. -/
theorem item_fails_earliest {limit : Int} {c c' : Cursor} {ts : List Token} {e : Failure}
    (hlimit : c.depth < limit) (shows : c.Shows c.depth ts) (bare : ∀ t ∈ ts, t.isComment = false)
    (start : c.current.lexeme ≠ .endOfInput) (fails : item limit c = .error e c')
    (deep : ¬ e.IsTooDeep) :
    e.location? = some c'.current.location ∧ ∃ us rest, ts = us ++ c'.current :: rest ∧
      Continues (statement limit c.current) c.depth us ∧
      Breaks (statement limit c.current) c.depth us c'.current e := by
  have located : e.location? = some c'.current.location := by
    obtain ⟨first, others, rfl⟩ := shows.ended.exists_cons
    rw [shows.current_eq] at start
    obtain ⟨_, leads, refused, -⟩ := (item_sound limit start).error shows fails
    obtain ⟨t, rest, rfl⟩ := leads.shows.ended.exists_cons
    rw [refused.location_eq, leads.shows.current_eq]
  rw [item_eq_statement] at fails
  obtain ⟨us, t, rest, rfl, ⟨a, taken⟩ | ⟨e', breaks, viable⟩⟩ :=
    statement_foreseen hlimit c.current shows.ended bare
  -- A statement that is read up to `t` does not fail.
  · obtain ⟨_, -, never⟩ := (taken t (.inl rfl) rest).error shows fails
    exact never.elim
  · obtain ⟨_, leads, rfl, rfl⟩ := (breaks rest).error shows fails
    rw [leads.shows.current_eq] at located ⊢
    obtain ⟨ext, fillers, a, taken⟩ := viable deep
    refine ⟨located, us, rest, rfl, ⟨ext, fun x hx => (fillers x hx).startsLine, ?_⟩, breaks⟩
    intro eof heof
    obtain ⟨hus, -⟩ := shows.ended.of_append (List.cons_ne_nil _ _)
    have inside : ∀ u ∈ us ++ ext, u.lexeme ≠ .endOfInput :=
      List.forall_mem_append.2 ⟨hus, fun x hx => (fillers x hx).ne_end⟩
    exact ⟨.append inside (.last heof), (taken eof (.inl heof) []).imp fun _ _ h => h.2⟩

/-- The parenthesis in `(a` is not closed. The end of the input is the first token with which
    that cannot be. -/
theorem item_fails_earliest_open_parenthesis :
    let left : Token := ⟨.mark .leftParen, "main", ⟨1, 1⟩, true⟩
    let name : Token := ⟨.identifier "a", "main", ⟨1, 2⟩, false⟩
    let eof : Token := ⟨.endOfInput, "main", ⟨1, 3⟩, false⟩
    ∃ e c', item 2 ⟨left, [.ok name, .ok eof], 0, 0⟩ = .error e c' ∧
      e.location? = some eof.location ∧ Continues (statement 2 left) 0 [left, name] ∧
      Breaks (statement 2 left) 0 [left, name] eof e := by
  intro left name eof
  have shows : Cursor.Shows ⟨left, [.ok name, .ok eof], 0, 0⟩ 0 [left, name, eof] :=
    ⟨rfl, .cons nofun (.cons nofun (.last rfl)), rfl⟩
  have bare : ∀ t ∈ [left, name, eof], t.isComment = false := by
    simp only [List.forall_mem_cons]
    exact ⟨rfl, rfl, rfl, List.forall_mem_nil _⟩
  have fails : item 2 ⟨left, [.ok name, .ok eof], 0, 0⟩ = .error _ ⟨eof, [], 2, 0⟩ := rfl
  obtain ⟨located, us, rest, hts, continues, breaks⟩ :=
    item_fails_earliest (by decide) shows bare nofun fails nofun
  obtain rfl : us = [left, name] := by
    rcases us with _ | ⟨x, _ | ⟨y, _ | ⟨z, us⟩⟩⟩ <;> simp [left, name, eof] at hts
    simp [left, name, hts]
  exact ⟨_, _, fails, located, continues, breaks⟩

end Read

end Soul
