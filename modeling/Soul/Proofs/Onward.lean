import Soul.Proofs.Content

/-!
# Readings from any cursor

Whatever is ahead of a cursor, be it the tokens of a source or not, a reading only
moves on (`Cursor.Onward`): what is ahead of it becomes less, the lexeme on which it
comes to stand was there before, and the depth is as it was, whether the reading
gives a value or fails.

`Read.Brings T p c Q` says this of the reading `p` from the cursor `c`, and of its value
that it satisfies `Q`, if all lexemes there are of the class `T`. There is one rule for
each way in which readings are put together.

An expression is formed of constants, names and other expressions in a few ways. A
property that each of these ways preserves (`Forms`) is one of every expression that
is read (`Read.expressionWithin_brings`) and of the body of every statement
(`Read.item_brings`).
-/

namespace Soul

namespace Cursor

/-- The cursor `c'` is where a reading from `c` may have come to. -/
structure Onward (c c' : Cursor) : Prop where
  depth : c'.depth = c.depth
  ahead : c'.ahead <:+ c.ahead
  current : ∃ t : Token, .ok t ∈ c.remaining ∧ c'.current.lexeme = t.lexeme

/-- All lexemes at the cursor and ahead of it are of the class `T`. -/
def Holds (T : Lexeme → Prop) (c : Cursor) : Prop := ∀ t : Token, .ok t ∈ c.remaining → T t.lexeme

variable {c c' c'' : Cursor} {T : Lexeme → Prop}

theorem Onward.refl (c : Cursor) : c.Onward c :=
  ⟨rfl, List.suffix_rfl, c.current, List.mem_cons_self, rfl⟩

/-- Whatever lexeme is left was there before. -/
theorem Onward.exists_mem (h : c.Onward c') {t : Token} (ht : .ok t ∈ c'.remaining) :
    ∃ u : Token, .ok u ∈ c.remaining ∧ t.lexeme = u.lexeme := by
  rcases List.mem_cons.1 ht with heq | ahead
  · obtain rfl := Except.ok.inj heq
    exact h.current
  · exact ⟨t, List.mem_cons_of_mem _ (h.ahead.subset ahead), rfl⟩

theorem Onward.trans (h : c.Onward c') (h' : c'.Onward c'') : c.Onward c'' where
  depth := h'.depth.trans h.depth
  ahead := h'.ahead.trans h.ahead
  current := by
    obtain ⟨t, ht, same⟩ := h'.current
    obtain ⟨u, hu, same'⟩ := h.exists_mem ht
    exact ⟨u, hu, same.trans same'⟩

theorem Onward.holds (h : c.Onward c') (hc : c.Holds T) : c'.Holds T := by
  intro t ht
  obtain ⟨u, hu, same⟩ := h.exists_mem ht
  exact same ▸ hc u hu

theorem Onward.back (h : Onward { c with depth := c.depth + 1 } c') :
    c.Onward { c' with depth := c'.depth - 1 } :=
  ⟨by rw [h.depth]; rfl, h.ahead, h.current⟩

end Cursor

namespace Read

variable {α β : Type}

/-- What becomes of a reading from the cursor `c` among lexemes of the class `T`. -/
def Brings (T : Lexeme → Prop) (p : Read α) (c : Cursor) (Q : α → Prop) : Prop :=
  c.Holds T → match p c with
    | .ok a c' => c.Onward c' ∧ Q a
    | .error _ c' => c.Onward c'

variable {T : Lexeme → Prop} {p : Read α} {f : α → Read β} {c : Cursor} {Q Q' : α → Prop}
  {R : β → Prop}

namespace Brings

theorem ok (h : Brings T p c Q) (hc : c.Holds T) {a : α} {c' : Cursor} (hp : p c = .ok a c') :
    c.Onward c' ∧ Q a := by
  have := h hc
  rwa [hp] at this

theorem error (h : Brings T p c Q) (hc : c.Holds T) {e : Failure} {c' : Cursor}
    (hp : p c = .error e c') : c.Onward c' := by
  have := h hc
  rwa [hp] at this

theorem imp (h : Brings T p c Q) (hQ : ∀ a, Q a → Q' a) : Brings T p c Q' := by
  intro hc
  cases hp : p c with
  | ok a c' =>
    obtain ⟨onward, hq⟩ := h.ok hc hp
    exact ⟨onward, hQ a hq⟩
  | error e c' => exact h.error hc hp

theorem bind (h : Brings T p c Q) (hf : ∀ a c', c.Onward c' → Q a → Brings T (f a) c' R) :
    Brings T (p >>= f) c R := by
  intro hc
  cases hp : p c with
  | error e c' =>
    rw [bind_of_error hp]
    exact h.error hc hp
  | ok a c' =>
    rw [bind_of_ok hp]
    obtain ⟨onward, hq⟩ := h.ok hc hp
    have after := hf a c' onward hq (onward.holds hc)
    cases hfa : f a c' with
    | ok b c'' =>
      rw [hfa] at after
      exact ⟨onward.trans after.1, after.2⟩
    | error e c'' =>
      rw [hfa] at after
      exact onward.trans after

theorem pure {a : α} (h : Q a) : Brings T (pure a) c Q := fun _ => ⟨.refl c, h⟩

theorem throw {e : Failure} : Brings T (throw e : Read α) c Q := fun _ => .refl c

theorem current_bind {f : Token → Read β}
    (h : T c.current.lexeme → Brings T (f c.current) c R) : Brings T (current >>= f) c R :=
  fun hc => h (hc _ List.mem_cons_self) hc

theorem get_bind {f : Cursor → Read β} (h : Brings T (f c) c R) : Brings T (get >>= f) c R := h

theorem advance : Brings T advance c fun _ => True := by
  obtain ⟨current, ahead, taken, depth⟩ := c
  rintro -
  match ahead with
  -- With nothing ahead the cursor stays where it is, and at a fault its token stays the same.
  | [] => exact ⟨⟨rfl, List.suffix_rfl, current, List.mem_cons_self, rfl⟩, trivial⟩
  | .ok t :: rest =>
    exact ⟨⟨rfl, List.suffix_cons _ _, t, List.mem_cons_of_mem _ List.mem_cons_self, rfl⟩, trivial⟩
  | .error f :: rest => exact ⟨rfl, List.suffix_cons _ _, current, List.mem_cons_self, rfl⟩

theorem advance_bind {f : Unit → Read β} (h : ∀ c', c.Onward c' → Brings T (f ()) c' R) :
    Brings T (Read.advance >>= f) c R :=
  advance.bind fun _ c' onward _ => h c' onward

theorem refuse {token : Token} {cause : Cause} : Brings T (refuse token cause : Read α) c Q := by
  unfold Read.refuse
  split
  · exact throw
  · exact throw

theorem expect {select : Lexeme → Option α} {expected : String} {context : Option String} :
    Brings T (expect select expected context) c fun _ => True := by
  refine current_bind fun _ => ?_
  split
  · exact advance_bind fun _ _ => pure trivial
  · exact refuse

theorem skipWithin (q : Token → Bool) (rounds : List (Except Fault Token)) :
    Brings T (skipWithin q rounds) c fun _ => True := by
  induction rounds generalizing c with
  | nil => exact pure trivial
  | cons r rounds ih =>
    refine current_bind fun _ => ?_
    split
    · exact advance_bind fun _ _ => ih
    · exact pure trivial

theorem skip (q : Token → Bool) : Brings T (skip q) c fun _ => True := get_bind (skipWithin q _)

theorem discard (h : Brings T p c Q) : Brings T (discard p) c fun _ => True :=
  h.bind (f := fun _ => Pure.pure ()) fun _ _ _ _ => pure trivial

theorem nested (h : Brings T p { c with depth := c.depth + 1 } Q) : Brings T (nested p) c Q := by
  intro hc
  unfold Read.nested
  cases hp : p { c with depth := c.depth + 1 } with
  | ok a c' =>
    obtain ⟨onward, hq⟩ := h.ok hc hp
    exact ⟨onward.back, hq⟩
  | error e c' => exact (h.error hc hp).back

end Brings

theorem skip_of_not {q : Token → Bool} (h : q c.current = false) : skip q c = .ok () c := by
  change (if q c.current then _ else _ : Read Unit) c = _
  rw [h]
  rfl

theorem current_bind_apply {α : Type} (f : Token → Read α) (c : Cursor) :
    (current >>= f) c = f c.current c :=
  rfl

/-- The chain stops at the cursor, or the operator there is one of the chain. -/
theorem operatorFrom_cases (least : Nat) (c : Cursor) :
    (operatorFrom least c = .ok none c ∧
      ∀ op, c.current.operator? = some op → op.tier < least) ∨
    ∃ op, c.current.operator? = some op ∧ least ≤ op.tier ∧
      operatorFrom least c = .ok (some (c.current, op)) c := by
  rw [operatorFrom_eq, current_bind_apply]
  cases ho : c.current.operator? with
  | none => exact .inl ⟨rfl, nofun⟩
  | some op =>
    by_cases hlt : op.tier < least
    · simp only [if_pos hlt]
      refine .inl ⟨rfl, ?_⟩
      rintro _ ⟨⟩
      exact hlt
    · simp only [if_neg hlt]
      exact .inr ⟨op, rfl, Nat.not_lt.1 hlt, rfl⟩

end Read

/-! ## Expressions -/

/-- The ways in which expressions of the class `P` are formed, of lexemes of the class
    `T` and with expressions of the class `I` inside. -/
structure Forms (T : Lexeme → Prop) (I P : Expr → Prop) : Prop where
  literal {value : Literal} {l : Option Location} : T value.lexeme → P (.literal value l)
  var {name : String} {l : Option Location} : P (.var name l)
  binary {op : Operator} {lhs rhs : Expr} {l : Option Location} : P lhs → P rhs →
    P (.binary op lhs rhs l)
  call {callee : String} {args : List Expr} {l : Option Location} : (∀ arg ∈ args, I arg) →
    P (.call callee args l)
  declaration {name : String} {isMutable : Bool} {initial : Option Expr} {l : Option Location} :
    (∀ e ∈ initial, I e) → P (.declaration name isMutable initial l)
  parenthesized {e : Expr} : I e → P e

/-- Any lexeme. -/
def AnyLexeme (_ : Lexeme) : Prop := True

/-- Any expression. -/
def AnyExpr (_ : Expr) : Prop := True

theorem forms_any : Forms AnyLexeme AnyExpr AnyExpr where
  literal _ := trivial
  var := trivial
  binary _ _ := trivial
  call _ := trivial
  declaration _ := trivial
  parenthesized _ := trivial

theorem Cursor.holds_any (c : Cursor) : c.Holds AnyLexeme := fun _ _ => trivial

namespace Read

variable {T : Lexeme → Prop} {c : Cursor} {inner operand : Read Expr}

section Primary

variable {I P : Expr → Prop}

theorem argumentsWithin_brings (hi : ∀ c, Brings T inner c I)
    (rounds : List (Except Fault Token)) :
    Brings T (argumentsWithin inner rounds) c fun args => ∀ arg ∈ args, I arg := by
  induction rounds generalizing c with
  | nil => exact Brings.pure (List.forall_mem_nil _)
  | cons r rounds ih =>
    refine (Brings.skip _).bind fun _ c₁ _ _ => Brings.current_bind fun _ => ?_
    split
    · exact Brings.advance_bind fun _ _ => Brings.pure (List.forall_mem_nil _)
    · exact Brings.refuse
    · refine (hi c₁).bind fun arg _ _ harg => ih.bind fun args _ _ hargs => ?_
      exact Brings.pure (List.forall_mem_cons.2 ⟨harg, hargs⟩)

variable (forms : Forms T I P)

include forms

theorem named_brings (hi : ∀ c, Brings T inner c I) (token : Token) (name : String) :
    Brings T (named inner token name) c P := by
  refine Brings.advance_bind fun c₁ _ => Brings.current_bind fun _ => ?_
  split
  · refine Brings.advance_bind fun c₂ _ => ?_
    exact (Brings.get_bind (argumentsWithin_brings hi _)).bind fun args _ _ hargs =>
      Brings.pure (forms.call hargs)
  · exact Brings.pure forms.var

theorem declaration_brings (hi : ∀ c, Brings T inner c I) (token : Token) (isMutable : Bool) :
    Brings T (declaration inner token isMutable) c P := by
  refine Brings.advance_bind fun c₁ _ => Brings.expect.bind ?_
  rintro ⟨_, name⟩ c₂ - -
  refine Brings.current_bind fun _ => ?_
  split
  · refine Brings.advance_bind fun c₃ _ => (hi c₃).bind fun initial _ _ hinitial => ?_
    refine Brings.pure (forms.declaration ?_)
    rintro _ ⟨⟩
    exact hinitial
  · exact Brings.pure (forms.declaration nofun)

theorem primary_brings (hi : ∀ c, Brings T inner c I) : Brings T (primary inner) c P := by
  refine (Brings.skip _).bind fun _ c₁ _ _ => Brings.current_bind fun ht => ?_
  have constant : ∀ value : Literal, c₁.current.lexeme = value.lexeme →
      Brings T (do advance; return Expr.literal value c₁.current.location) c₁ P := fun _ hlex =>
    Brings.advance_bind fun _ _ => Brings.pure (forms.literal (hlex ▸ ht))
  split
  · exact named_brings forms hi _ _
  · next hlex => exact constant (.integer _) hlex
  · next hlex => exact constant (.real _) hlex
  · next hlex => exact constant (.string _) hlex
  · exact declaration_brings forms hi _ _
  · exact declaration_brings forms hi _ _
  · refine Brings.advance_bind fun c₂ _ => (hi c₂).bind fun e _ _ he => ?_
    refine (Brings.skip _).bind fun _ _ _ _ => Brings.expect.discard.bind fun _ _ _ _ => ?_
    exact Brings.pure (forms.parenthesized he)
  · exact Brings.refuse

omit forms in
theorem operatorFrom_brings (least : Nat) : Brings T (operatorFrom least) c fun _ => True := by
  rw [operatorFrom_eq]
  refine Brings.current_bind fun _ => ?_
  split
  · exact Brings.pure trivial
  · exact Brings.pure trivial

theorem chainWithin_brings (ho : ∀ c, Brings T operand c P) (rounds : List (Except Fault Token))
    (least : Nat) {lhs : Expr} (hl : P lhs) :
    Brings T (chainWithin operand rounds least lhs) c P := by
  induction rounds generalizing c least lhs with
  | nil => exact Brings.pure hl
  | cons r rounds ih =>
    refine (operatorFrom_brings least).bind fun found c₁ _ _ => ?_
    split
    · exact Brings.pure hl
    · refine Brings.advance_bind fun c₂ _ => (ho c₂).bind fun rhs c₃ _ hr => ?_
      exact (ih _ hr).bind fun rhs' c₄ _ hr' => ih _ (forms.binary hl hr')

end Primary

/-! ## Statements -/

variable {limit : Int} {I P : Nat → Expr → Prop} (forms : ∀ levels, Forms T (I levels) (P levels))
  (outer : ∀ levels e, P levels e → I (levels + 1) e)

section Expression

include forms outer

theorem expressionWithin_brings (levels : Nat) (c : Cursor) :
    Brings T (expressionWithin limit levels) c (I levels) := by
  induction levels generalizing c with
  | zero => exact Brings.nested (Brings.current_bind fun _ => Brings.throw)
  | succ levels ih =>
    -- The operands of a chain are side by side, at the same level.
    have operand : ∀ c, Brings T (primary (expressionWithin limit levels)) c (P levels) :=
      fun _ => primary_brings (forms levels) ih
    refine Brings.nested ((operand _).bind fun lhs _ _ hl => Brings.get_bind ?_)
    exact (chainWithin_brings (forms levels) operand _ 0 hl).imp (outer levels)

theorem expression_brings (c : Cursor) :
    Brings T (expression limit) c (I (limit - c.depth).toNat) :=
  Brings.get_bind (expressionWithin_brings forms outer _ c)

end Expression

theorem use_brings : Brings T use c fun _ => True := by
  refine Brings.expect.bind fun _ _ _ _ => Brings.expect.bind fun _ _ _ _ => ?_
  refine Brings.current_bind fun _ => ?_
  split
  · exact Brings.advance_bind fun _ _ => Brings.expect.bind fun _ _ _ _ => Brings.pure trivial
  · exact Brings.pure trivial

theorem typeNamesWithin_brings (rounds : List (Except Fault Token)) :
    Brings T (typeNamesWithin rounds) c fun _ => True := by
  induction rounds generalizing c with
  | nil => exact Brings.pure trivial
  | cons r rounds ih =>
    refine Brings.current_bind fun _ => ?_
    split
    · exact Brings.pure trivial
    · exact Brings.advance_bind fun _ _ => ih.bind fun _ _ _ _ => Brings.pure trivial

theorem result_brings : Brings T result c fun _ => True := by
  refine Brings.current_bind fun _ => ?_
  split
  · exact Brings.advance_bind fun _ _ => Brings.expect.bind fun _ _ _ _ => Brings.pure trivial
  · exact Brings.pure trivial

theorem parameters_brings (types : List String) : Brings T (parameters types) c fun _ => True := by
  induction types generalizing c with
  | nil => exact Brings.pure trivial
  | cons type types ih =>
    have mark : Brings T parameterMark c fun _ => True := by
      refine Brings.current_bind fun _ => ?_
      split
      · exact Brings.advance
      · exact Brings.advance
      · exact Brings.refuse
    refine mark.bind fun _ _ _ _ => Brings.expect.bind fun _ _ _ _ => ?_
    exact ih.bind fun _ _ _ _ => Brings.pure trivial

theorem prototype_brings : Brings T prototype c fun _ => True := by
  refine Brings.expect.bind fun _ _ _ _ => Brings.expect.discard.bind fun _ _ _ _ => ?_
  refine (Brings.get_bind (typeNamesWithin_brings _)).bind fun types _ _ _ => ?_
  refine result_brings.bind fun _ _ _ _ => (parameters_brings types).bind fun _ _ _ _ => ?_
  exact Brings.expect.discard.bind fun _ _ _ _ => Brings.pure trivial

include forms outer

theorem define_brings :
    Brings T (define limit) c fun d => I (limit - c.depth).toNat d.body := by
  refine Brings.expect.bind fun _ c₁ onward _ => ?_
  refine prototype_brings.bind fun _ c₂ onward' _ => ?_
  refine (expression_brings forms outer c₂).bind fun body _ _ hbody => Brings.pure ?_
  rwa [onward'.depth, onward.depth] at hbody

theorem evaluate_brings : Brings T (evaluate limit) c
    fun i => ∃ body l, i = .evaluate body l ∧ I (limit - c.depth).toNat body :=
  Brings.current_bind fun _ => (expression_brings forms outer c).bind fun body _ _ hbody =>
    Brings.pure ⟨body, _, rfl, hbody⟩

end Read

/-- The expression that a statement has for its body. -/
def Item.body? : Item → Option Expr
  | use _ => none
  | define d => some d.body
  | evaluate body _ => some body

namespace Read

variable {T : Lexeme → Prop} {c : Cursor} {limit : Int} {I P : Nat → Expr → Prop}

theorem item_brings (forms : ∀ levels, Forms T (I levels) (P levels))
    (outer : ∀ levels e, P levels e → I (levels + 1) e) :
    Brings T (item limit) c fun i => ∀ e ∈ i.body?, I (limit - c.depth).toNat e := by
  refine Brings.current_bind fun _ => ?_
  split
  · exact use_brings.bind fun _ _ _ _ => Brings.pure nofun
  · refine (define_brings forms outer).bind fun d _ _ hd => Brings.pure ?_
    rintro _ ⟨⟩
    exact hd
  · refine (evaluate_brings forms outer).imp ?_
    rintro _ ⟨body, l, rfl, hbody⟩ _ ⟨⟩
    exact hbody

end Read

/-! ## Programs -/

namespace Session

variable {T : Lexeme → Prop} {statement : Read Item} {consumer : Consumer} {count : Nat}
  {s s' : Session} {Q : Item → Prop}

/-- A reading in a session. -/
theorem perform_brings {α : Type} {p : Read α} {Q : α → Prop} {r : Except Failure α}
    (hs : s.cursor.Holds T) (h : Read.Brings T p s.cursor Q) (hp : s.perform p = (r, s')) :
    s.cursor.Onward s'.cursor ∧ ∀ a, r = .ok a → Q a := by
  cases r with
  | ok a =>
    obtain ⟨c, hc, rfl⟩ := of_perform_ok hp
    obtain ⟨onward, hq⟩ := h.ok hs hc
    refine ⟨onward, ?_⟩
    rintro _ ⟨⟩
    exact hq
  | error e =>
    obtain ⟨c, hc, rfl⟩ := of_perform_error hp
    exact ⟨h.error hs hc, nofun⟩

/-- A round only moves on. -/
theorem Turns.onward {turn : Turn} (hs : s.cursor.Holds T)
    (reads : Read.Brings T statement s.cursor Q) (h : Turns statement consumer count s turn) :
    s.cursor.Onward turn.session.cursor := by
  have skipped : ∀ {s' s'' : Session} {e : Failure} {r : Except Failure Unit},
      s.perform statement = (.error e, s') → (s'.collect e).perform Read.synchronize = (r, s'') →
      s.cursor.Onward s''.cursor := by
    intro s' s'' e r hp hp'
    have failed := (perform_brings hs reads hp).1
    have resumed := (perform_brings (Cursor.holds_any _) (Read.Brings.skip _) hp').1
    exact failed.trans (cursor_collect s' e ▸ resumed)
  cases h with
  | finish _ => exact .refl _
  | comment _ hp => exact (perform_brings hs Read.Brings.advance hp).1
  | commentFailed _ hp =>
    rw [Turn.session, session_fail]
    exact (perform_brings hs Read.Brings.advance hp).1
  | item _ hp _ | objection _ hp _ | fault _ hp => exact (perform_brings hs reads hp).1
  | @full s' e _ hp _ _ => exact cursor_collect s' e ▸ (perform_brings hs reads hp).1
  | resume _ hp _ _ hp' => exact skipped hp hp'
  | resumeFailed _ hp _ _ hp' =>
    rw [Turn.session, session_fail]
    exact skipped hp hp'

/-- What every statement satisfies that is read at the depth zero, the items satisfy that
    are read from there on. The loop ends at this depth again. -/
theorem itemsWithin_brings
    (reads : ∀ c : Cursor, c.depth = 0 → Read.Brings T statement c Q) (rounds count : Nat)
    (hs : s.cursor.Holds T) (depth : s.cursor.depth = 0) :
    (s.itemsWithin statement consumer rounds count).session.cursor.depth = 0 ∧
      ∀ i ∈ (s.itemsWithin statement consumer rounds count).items, Q i := by
  refine (itemsWithin_preserves (I := fun s => s.cursor.Holds T ∧ s.cursor.depth = 0) ?_ rounds
    count ⟨hs, depth⟩).imp_left And.right
  rintro _ s _ ⟨hs, depth⟩ turns
  have onward := turns.onward hs (reads s.cursor depth)
  refine ⟨⟨onward.holds hs, onward.depth.trans depth⟩, fun i hi => ?_⟩
  obtain ⟨s', hp⟩ := turns.read i hi
  exact (perform_brings hs (reads s.cursor depth) hp).2 i rfl

end Session

/-- What every statement satisfies that is read at the depth zero, every item satisfies
    of a program. The reading ends at the depth zero. -/
theorem readProgramBy_brings {T : Lexeme → Prop} {Q : Item → Prop} {source : Scanner}
    {skip : Bool} {statement : Read Item}
    (reads : ∀ c : Cursor, c.depth = 0 → Read.Brings T statement c Q)
    (hend : T .endOfInput) (hsource : ∀ t : Token, .ok t ∈ source.fetches skip → T t.lexeme)
    (consumer : Consumer) (journal : Journal) :
    let o := readProgramBy statement source skip consumer journal
    o.session.cursor.depth = 0 ∧ ∀ i ∈ o.items, Q i := by
  unfold readProgramBy Session.program
  have holds : (Session.start source.file (source.fetches skip) journal).cursor.Holds T := by
    intro t ht
    rcases List.mem_cons.1 ht with heq | ahead
    · rw [Except.ok.inj heq]
      exact hend
    · exact hsource t ahead
  split
  · next s hp =>
    obtain ⟨onward, -⟩ := Session.perform_brings holds Read.Brings.advance hp
    exact Session.itemsWithin_brings reads _ _ (onward.holds holds) onward.depth
  · next e s hp =>
    obtain ⟨onward, -⟩ := Session.perform_brings holds Read.Brings.advance hp
    simp only [Session.session_fail, Session.items_fail]
    exact ⟨onward.depth, List.forall_mem_nil _⟩

end Soul
