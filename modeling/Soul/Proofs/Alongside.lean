import Soul.Proofs.LineFeed
import Soul.Proofs.Sound

/-!
# Two readings alongside each other

Two sources are read alongside each other. They have the same tokens up to a
point, but for a shift by some lines. There the first source ends, and the second
goes on with a token behind which no statement continues (`IsBarrier`): the end of
the input, a dollar sign, or a dot that is the first token of its line.

No reading of a part of a statement can tell a barrier from the end of the input.
Both readings succeed with the same value, but for the shift, or both fail, for
the same sort of reason; and they stop at the same place (`Read.Alongside`). As
with `Read.Ensures`, there is one rule for each way in which readings are put
together.
-/

namespace Soul

/-! ## Moving down -/

/-- The location `n` lines further down. -/
def Location.down (n : Nat) (l : Location) : Location := { l with line := l.line + n }

theorem Token.location_down (n : Nat) (t : Token) : (t.down n).location = t.location.down n := by
  simp [location, Location.ofPosition, Location.down, down, Position.down]

namespace Expr

mutual

/-- The expression `n` lines further down. -/
def down (n : Nat) : Expr → Expr
  | literal value l => literal value (l.map (Location.down n))
  | var name l => var name (l.map (Location.down n))
  | binary op lhs rhs l => binary op (lhs.down n) (rhs.down n) (l.map (Location.down n))
  | call callee args l => call callee (downAll n args) (l.map (Location.down n))
  | declaration name isMutable initial l =>
    declaration name isMutable (downInitial n initial) (l.map (Location.down n))

/-- The expressions `n` lines further down. -/
def downAll (n : Nat) : List Expr → List Expr
  | [] => []
  | e :: es => e.down n :: downAll n es

/-- The initial value `n` lines further down. -/
def downInitial (n : Nat) : Option Expr → Option Expr
  | none => none
  | some e => some (e.down n)

end

end Expr

/-- The prototype `n` lines further down. -/
def Prototype.down (n : Nat) (p : Prototype) : Prototype :=
  { p with location := p.location.map (Location.down n) }

/-- The definition `n` lines further down. -/
def Definition.down (n : Nat) (d : Definition) : Definition :=
  ⟨d.prototype.down n, d.body.down n, d.location.map (Location.down n)⟩

/-- The name of a module `n` lines further down. -/
def Member.down (n : Nat) (m : Member) : Member :=
  { m with location := m.location.map (Location.down n) }

/-- The import `n` lines further down. -/
def Import.down (n : Nat) (i : Import) : Import :=
  { i with member := i.member.map (Member.down n), location := i.location.map (Location.down n) }

/-- The item `n` lines further down. -/
def Item.down (n : Nat) : Item → Item
  | use i => use (i.down n)
  | define d => define (d.down n)
  | evaluate body l => evaluate (body.down n) (l.map (Location.down n))

@[simp] theorem Location.down_zero (l : Location) : l.down 0 = l := by
  simp [down]

theorem Location.map_down_zero (l : Option Location) : l.map (down 0) = l := by
  cases l <;> simp

namespace Expr

mutual

@[simp] theorem down_zero : (e : Expr) → e.down 0 = e
  | literal value l | var name l => by simp [down, Location.map_down_zero]
  | binary op lhs rhs l => by simp [down, Location.map_down_zero, down_zero lhs, down_zero rhs]
  | call callee args l => by simp [down, Location.map_down_zero, downAll_zero args]
  | declaration name isMutable initial l => by
    simp [down, Location.map_down_zero, downInitial_zero initial]

theorem downAll_zero : (es : List Expr) → downAll 0 es = es
  | [] => rfl
  | e :: es => by simp [downAll, down_zero e, downAll_zero es]

theorem downInitial_zero : (e : Option Expr) → downInitial 0 e = e
  | none => rfl
  | some e => by simp [downInitial, down_zero e]

end

end Expr

theorem Item.down_zero (item : Item) : item.down 0 = item := by
  cases item with
  | use i =>
    obtain ⟨module, member, l⟩ := i
    cases member <;> simp [down, Import.down, Member.down, Location.map_down_zero]
  | define d => simp [down, Definition.down, Prototype.down, Location.map_down_zero]
  | evaluate body l => simp [down, Location.map_down_zero]

/-! ## Sources that are alike -/

/-- No statement that has been begun goes on with the token. -/
def IsBarrier (t : Token) : Prop :=
  t.lexeme = .endOfInput ∨ t.lexeme = .mark .dollar ∨
    (t.lexeme = .operator .dot ∧ t.startsLine = true)

/-- The second source has the tokens of the first, `n` lines further down, and
    `rest` in place of the end of the input. -/
inductive Alike (n : Nat) (rest : List Token) : List Token → List Token → Prop
  | last {e : Token} : e.lexeme = .endOfInput → Alike n rest [e] rest
  | cons {t : Token} {ts us : List Token} : t.lexeme ≠ .endOfInput → Alike n rest ts us →
      Alike n rest (t :: ts) (t.down n :: us)

/-- Failures of the same sort. -/
inductive Failure.Similar : Failure → Failure → Prop
  | invalid {d d' : Diagnostic} : Similar (.invalid d) (.invalid d')
  | violation {d d' : Diagnostic} : Similar (.violation d) (.violation d')

namespace IsBarrier

variable {b : Token}

theorem isComment (h : IsBarrier b) : b.isComment = false := by
  obtain h | h | ⟨h, -⟩ := h <;> simp [Token.isComment, h]

theorem diagnostic? (h : IsBarrier b) : b.diagnostic? = none := by
  obtain h | h | ⟨h, -⟩ := h <;> simp [Token.diagnostic?, h]

theorem operator? (h : IsBarrier b) : b.operator? = none := by
  obtain h | h | ⟨h, hl⟩ := h
  · simp [Token.operator?, h]
  · simp [Token.operator?, h]
  · simp [Token.operator?, h, hl]

theorem isResumption (h : IsBarrier b) : Read.isResumption b = true := by
  obtain h | h | ⟨h, -⟩ := h <;> simp [Read.isResumption, h]

theorem kind_ne {kind : Kind} (h : IsBarrier b)
    (hk : kind ∉ [.endOfInput, .mark .dollar, .operator .dot]) : b.kind ≠ kind := by
  rintro rfl
  obtain h | h | ⟨h, -⟩ := h <;> simp [Token.kind, h, Lexeme.kind] at hk

end IsBarrier

namespace Token

theorem diagnostic?_down (n : Nat) (t : Token) :
    (t.down n).diagnostic? = t.diagnostic?.map fun d =>
      ⟨d.cause, d.location.map (Location.down n)⟩ := by
  unfold diagnostic?
  rw [lexeme_down]
  cases t.lexeme <;> simp [location_down]

@[simp] theorem operator?_down (n : Nat) (t : Token) : (t.down n).operator? = t.operator? := rfl

@[simp] theorem isComment_down (n : Nat) (t : Token) : (t.down n).isComment = t.isComment := rfl

end Token

/-- Tokens of a class are left out on both sides. -/
theorem Alike.dropWhile {n : Nat} {b : Token} {bs ts us : List Token} {p : Token → Bool}
    (h : Alike n (b :: bs) ts us) (hb : p b = false)
    (he : ∀ e : Token, e.lexeme = .endOfInput → p e = false)
    (hd : ∀ t : Token, p (t.down n) = p t) :
    Alike n (b :: bs) (ts.dropWhile p) (us.dropWhile p) := by
  induction h with
  | @last e hlex =>
    rw [List.dropWhile_cons_of_neg (by simp [he e hlex]), List.dropWhile_cons_of_neg (by simp [hb])]
    exact .last hlex
  | @cons t ts us hlex hts ih =>
    by_cases ht : p t = true
    · rwa [List.dropWhile_cons_of_pos ht, List.dropWhile_cons_of_pos (by rw [hd, ht])]
    · rw [List.dropWhile_cons_of_neg ht, List.dropWhile_cons_of_neg (by rwa [hd])]
      exact .cons hlex hts

namespace Read

variable {α α' β β' : Type}

/-- What becomes of two readings from cursors that show `ts` and `us`: they both
    succeed, with values in the relation `V`, or they both fail. -/
def Alongside (n : Nat) (rest : List Token) (p : Read α) (q : Read β) (d : Nat)
    (ts us : List Token) (V : α → β → List Token → List Token → Prop) : Prop :=
  ∀ c c' : Cursor, c.Shows d ts → c'.Shows d us →
    (∃ a c₁ b c₁' ts' us', p c = .ok a c₁ ∧ q c' = .ok b c₁' ∧ V a b ts' us' ∧
      Alike n rest ts' us' ∧ c.Leads ts c₁ ts' ∧ c'.Leads us c₁' us') ∨
    ∃ e c₁ e' c₁' ts' us', p c = .error e c₁ ∧ q c' = .error e' c₁' ∧ e.Similar e' ∧
      Alike n rest ts' us' ∧ c.Leads ts c₁ ts' ∧ c'.Leads us c₁' us'

/-- The reading fails at its first token, which is a token of the language. -/
def Stuck (p : Read α) (d : Nat) (ts : List Token) : Prop :=
  Ensures p d ts (fun _ _ => False) fun e ts' => (∃ diag, e = .violation diag) ∧ ts' = ts

variable {n d : Nat} {rest ts us : List Token} {t b : Token} {bs : List Token}
  {p : Read α} {q : Read β} {f : α → Read α'} {g : β → Read β'}
  {V : α → β → List Token → List Token → Prop}
  {W : α' → β' → List Token → List Token → Prop}

namespace Stuck

theorem bind (h : Stuck p d ts) : Stuck (p >>= f) d ts :=
  Ensures.bind h fun _ _ _ _ never => never.elim

theorem refuse {cause : Cause} (ht : t.diagnostic? = none) :
    Stuck (refuse t cause : Read α) d (t :: ts) :=
  Ensures.refuse (fun _ hd => absurd (ht.symm.trans hd) (by simp)) fun _ => ⟨⟨_, rfl⟩, rfl⟩

theorem expect {select : Lexeme → Option α} {expected : String} {context : Option String}
    (ht : t.diagnostic? = none) (hs : select t.lexeme = none) :
    Stuck (expect select expected context) d (t :: ts) := by
  refine Ensures.current_bind ?_
  rw [hs]
  exact refuse ht

end Stuck

namespace Alongside

theorem no_rounds (h : ts.length ≤ 0 ∨ us.length ≤ 0) : Alongside n rest p q d ts us V := by
  intro c c' hc hc'
  rcases h with h | h
  · exact absurd (List.eq_nil_of_length_eq_zero (Nat.le_zero.1 h)) hc.ended.ne_nil
  · exact absurd (List.eq_nil_of_length_eq_zero (Nat.le_zero.1 h)) hc'.ended.ne_nil

theorem pure {a : α} {b : β} (h : Alike n rest ts us) (hv : V a b ts us) :
    Alongside n rest (pure a) (pure b) d ts us V :=
  fun c c' hc hc' => .inl ⟨a, c, b, c', ts, us, rfl, rfl, hv, h, hc.leads, hc'.leads⟩

/-- Two readings that fail where they are. -/
theorem stuck (h : Alike n rest ts us) (hp : Stuck p d ts) (hq : Stuck q d us) :
    Alongside n rest p q d ts us V := by
  refine fun c c' hc hc' => .inr ?_
  cases h₁ : p c with
  | ok a c₁ =>
    obtain ⟨_, -, never⟩ := hp.ok hc h₁
    exact never.elim
  | error e c₁ =>
    cases h₂ : q c' with
    | ok a c₁ =>
      obtain ⟨_, -, never⟩ := hq.ok hc' h₂
      exact never.elim
    | error e' c₁' =>
      obtain ⟨_, hl, ⟨diag, rfl⟩, rfl⟩ := hp.error hc h₁
      obtain ⟨_, hl', ⟨diag', rfl⟩, rfl⟩ := hq.error hc' h₂
      exact ⟨_, _, _, _, _, _, rfl, rfl, .violation, h, hl, hl'⟩

/-- What is known of each of the two readings is known of both. -/
theorem and_ensures {Q : α → List Token → Prop} {Q' : β → List Token → Prop}
    {E E' : Failure → List Token → Prop} (h : Alongside n rest p q d ts us V)
    (hp : Ensures p d ts Q E) (hq : Ensures q d us Q' E') :
    Alongside n rest p q d ts us fun a b ts' us' => V a b ts' us' ∧ Q a ts' ∧ Q' b us' := by
  refine fun c c' hc hc' => (h c c' hc hc').imp ?_ id
  rintro ⟨a, c₁, b, c₁', ts', us', h₁, h₂, hv, halike, hl, hl'⟩
  obtain ⟨ts₁, hl₁, hQ⟩ := hp.ok hc h₁
  obtain ⟨us₁, hl₁', hQ'⟩ := hq.ok hc' h₂
  obtain rfl := hl.shows.unique hl₁.shows
  obtain rfl := hl'.shows.unique hl₁'.shows
  exact ⟨a, c₁, b, c₁', ts', us', h₁, h₂, ⟨hv, hQ, hQ'⟩, halike, hl, hl'⟩

theorem bind (h : Alongside n rest p q d ts us V)
    (hf : ∀ a b ts' us', V a b ts' us' → Alike n rest ts' us' → ts' <:+ ts → us' <:+ us →
      Alongside n rest (f a) (g b) d ts' us' W) :
    Alongside n rest (p >>= f) (q >>= g) d ts us W := by
  intro c c' hc hc'
  obtain ⟨a, c₁, b, c₁', ts', us', h₁, h₂, hv, halike, hl, hl'⟩ |
    ⟨e, c₁, e', c₁', ts', us', h₁, h₂, both⟩ := h c c' hc hc'
  · rw [bind_of_ok h₁, bind_of_ok h₂]
    obtain ⟨a, c₂, b, c₂', ts'', us'', h₃, h₄, hw, halike', hl₂, hl₂'⟩ |
      ⟨e, c₂, e', c₂', ts'', us'', h₃, h₄, he, halike', hl₂, hl₂'⟩ :=
      hf a b ts' us' hv halike hl.suffix hl'.suffix c₁ c₁' (hl.shows_at hc) (hl'.shows_at hc')
    · exact .inl ⟨a, c₂, b, c₂', ts'', us'', h₃, h₄, hw, halike', hl.trans hl₂, hl'.trans hl₂'⟩
    · exact .inr ⟨e, c₂, e', c₂', ts'', us'', h₃, h₄, he, halike', hl.trans hl₂, hl'.trans hl₂'⟩
  · exact .inr ⟨e, c₁, e', c₁', ts', us', bind_of_error h₁ f, bind_of_error h₂ g, both⟩

theorem current_bind {f : Token → Read α'} {g : Token → Read β'} {u : Token}
    (h : Alongside n rest (f t) (g u) d (t :: ts) (u :: us) W) :
    Alongside n rest (current >>= f) (current >>= g) d (t :: ts) (u :: us) W := by
  intro c c' hc hc'
  have both := h c c' hc hc'
  rwa [← hc.current_eq, ← hc'.current_eq] at both ⊢

/-- The next token decides whether to go on, and at a barrier nothing is read. -/
theorem peek_bind {f : Token → Read α'} {g : Token → Read β'} {a : α'} {a' : β'}
    (hb : IsBarrier b) (h : Alike n (b :: bs) ts us) (hv : W a a' ts us)
    (stop : ∀ u, IsBarrier u → f u = Pure.pure a ∧ g u = Pure.pure a')
    (step : ∀ t ts' us', ts = t :: ts' → us = t.down n :: us' → t.lexeme ≠ .endOfInput →
      Alike n (b :: bs) ts' us' →
      Alongside n (b :: bs) (f t) (g (t.down n)) d (t :: ts') (t.down n :: us') W) :
    Alongside n (b :: bs) (current >>= f) (current >>= g) d ts us W := by
  cases id h with
  | @last e he =>
    refine current_bind ?_
    rw [(stop e (.inl he)).1, (stop b hb).2]
    exact pure h hv
  | @cons t ts us ht ha => exact current_bind (step t ts us rfl rfl ht ha)

/-- Two readings that do not fail. -/
theorem of_ensures {Q : α → List Token → Prop} {Q' : β → List Token → Prop}
    (hp : Ensures p d ts Q Never) (hq : Ensures q d us Q' Never)
    (h : ∀ a b ts' us', Q a ts' → Q' b us' → V a b ts' us' ∧ Alike n rest ts' us') :
    Alongside n rest p q d ts us V := by
  refine fun c c' hc hc' => .inl ?_
  cases h₁ : p c with
  | error e c₁ =>
    obtain ⟨_, -, never⟩ := hp.error hc h₁
    exact never.elim
  | ok a c₁ =>
    cases h₂ : q c' with
    | error e' c₁' =>
      obtain ⟨_, -, never⟩ := hq.error hc' h₂
      exact never.elim
    | ok b c₁' =>
      obtain ⟨ts', hl, hQ⟩ := hp.ok hc h₁
      obtain ⟨us', hl', hQ'⟩ := hq.ok hc' h₂
      obtain ⟨hv, halike⟩ := h a b ts' us' hQ hQ'
      exact ⟨a, c₁, b, c₁', ts', us', rfl, rfl, hv, halike, hl, hl'⟩

theorem advance (ht : t.lexeme ≠ .endOfInput) (h : Alike n rest ts us)
    {V : Unit → Unit → List Token → List Token → Prop} (hv : V () () ts us) :
    Alongside n rest advance advance d (t :: ts) (t.down n :: us) V := by
  have ht' : (t.down n).lexeme ≠ .endOfInput := ht
  refine of_ensures (Ensures.advance ht (Q := fun _ ts' => ts' = ts) rfl)
    (Ensures.advance ht' (Q := fun _ us' => us' = us) rfl) ?_
  rintro _ _ _ _ rfl rfl
  exact ⟨hv, h⟩

theorem advance_bind {f : Unit → Read α'} {g : Unit → Read β'} (ht : t.lexeme ≠ .endOfInput)
    (ha : Alike n rest ts us) (h : Alongside n rest (f ()) (g ()) d ts us W) :
    Alongside n rest (Read.advance >>= f) (Read.advance >>= g) d (t :: ts) (t.down n :: us) W := by
  refine (advance ht ha (V := fun _ _ ts' us' => ts' = ts ∧ us' = us) ⟨rfl, rfl⟩).bind ?_
  rintro _ _ _ _ ⟨rfl, rfl⟩ - - -
  exact h

/-- The same token is refused for the same sort of reason. -/
theorem refuse {cause cause' : Cause} (ht : t.lexeme ≠ .endOfInput) (h : Alike n rest ts us) :
    Alongside n rest (refuse t cause : Read α) (refuse (t.down n) cause' : Read β) d (t :: ts)
      (t.down n :: us) V := by
  refine fun c c' hc hc' => .inr ?_
  unfold Read.refuse
  rw [Token.diagnostic?_down]
  cases t.diagnostic? with
  | none => exact ⟨_, c, _, c', _, _, rfl, rfl, .violation, .cons ht h, hc.leads, hc'.leads⟩
  | some diag => exact ⟨_, c, _, c', _, _, rfl, rfl, .invalid, .cons ht h, hc.leads, hc'.leads⟩

theorem get_bind {f : Cursor → Read α'} {g : Cursor → Read β'}
    (h : ∀ c c' : Cursor, c.Shows d ts → c'.Shows d us →
      Alongside n rest (f c) (g c') d ts us W) :
    Alongside n rest (get >>= f) (get >>= g) d ts us W :=
  fun c c' hc hc' => h c c' hc hc' c c' hc hc'

theorem nested (h : Alongside n rest p q (d + 1) ts us V) :
    Alongside n rest (nested p) (nested q) d ts us V := by
  intro c c' hc hc'
  unfold Read.nested
  obtain ⟨a, c₁, b, c₁', ts', us', h₁, h₂, hv, halike, hl, hl'⟩ |
    ⟨e, c₁, e', c₁', ts', us', h₁, h₂, he, halike, hl, hl'⟩ := h _ _ hc.deeper hc'.deeper
  · rw [h₁, h₂]
    exact .inl ⟨a, _, b, _, ts', us', rfl, rfl, hv, halike, hl.back, hl'.back⟩
  · rw [h₁, h₂]
    exact .inr ⟨e, _, e', _, ts', us', rfl, rfl, he, halike, hl.back, hl'.back⟩

/-- Comments are passed over on both sides. -/
theorem skipComments_bind {f : Unit → Read α'} {g : Unit → Read β'} (hb : IsBarrier b)
    (ha : Alike n (b :: bs) ts us) (h : Alike n (b :: bs) (ts.dropWhile Token.isComment)
      (us.dropWhile Token.isComment) → Alongside n (b :: bs) (f ()) (g ()) d
        (ts.dropWhile Token.isComment) (us.dropWhile Token.isComment) W) :
    Alongside n (b :: bs) (skipComments >>= f) (skipComments >>= g) d ts us W := by
  have dropped := ha.dropWhile hb.isComment (fun e he => by simp [Token.isComment, he])
    (Token.isComment_down n)
  refine bind (V := fun _ _ ts' us' => ts' = ts.dropWhile Token.isComment ∧
    us' = us.dropWhile Token.isComment) (of_ensures
      (Ensures.skipComments (Q := fun _ ts' => ts' = ts.dropWhile Token.isComment) rfl)
      (Ensures.skipComments (Q := fun _ us' => us' = us.dropWhile Token.isComment) rfl) ?_) ?_
  · rintro _ _ _ _ rfl rfl
    exact ⟨⟨rfl, rfl⟩, dropped⟩
  · rintro _ _ _ _ ⟨rfl, rfl⟩ - - -
    exact h dropped

/-- A token that is expected is there on both sides or on none. -/
theorem expect {select : Lexeme → Option α} {expected : String} {context : Option String}
    (hb : IsBarrier b) (hs : ∀ u : Token, IsBarrier u → select u.lexeme = none)
    (h : Alike n (b :: bs) ts us) :
    Alongside n (b :: bs) (expect select expected context) (expect select expected context) d ts us
      (fun r r' _ _ => r' = (r.1.down n, r.2)) := by
  cases h with
  | @last e he =>
    have barrier : IsBarrier e := .inl he
    exact stuck (.last he) (.expect barrier.diagnostic? (hs e barrier))
      (.expect hb.diagnostic? (hs b hb))
  | @cons t ts us ht ha =>
    refine current_bind ?_
    rw [Token.lexeme_down]
    cases select t.lexeme with
    | none => exact refuse ht ha
    | some a => exact advance_bind ht ha (pure ha rfl)

end Alongside

end Read

end Soul
