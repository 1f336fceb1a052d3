import Soul.Item.Read

/-!
# Reasoning about readings

A reading is looked at through the tokens that its cursor shows: the current
one and those ahead, up to the end of the input (`Cursor.Shows`). What it does
there is said by `Read.Ensures p d ts Q E`: from a cursor that shows `ts`, inside
`d` expressions, the reading `p` either gives a value `a` and shows tokens `ts'`
with `Q a ts'`, or fails with a failure `e` and shows tokens `ts'` with `E e ts'`.
In any case it only moves on: `ts'` is an end of `ts`, every token passed over has
been counted, and the depth is as it was (`Cursor.Leads`).

There is one rule for each way in which readings are put together. The loops
take at most as many rounds as there are tokens, so their rounds never run out.
-/

namespace Soul

/-- Tokens of a source: the last one, and no other, is the end of the input. -/
inductive Ended : List Token → Prop
  | last {t : Token} : t.lexeme = .endOfInput → Ended [t]
  | cons {t : Token} {ts : List Token} : t.lexeme ≠ .endOfInput → Ended ts → Ended (t :: ts)

namespace Ended

variable {t : Token} {ts ts' : List Token}

theorem ne_nil (h : Ended ts) : ts ≠ [] := by
  cases h <;> exact List.cons_ne_nil _ _

theorem tail (h : Ended (t :: ts)) (ht : t.lexeme ≠ .endOfInput) : Ended ts := by
  cases h with
  | last he => exact absurd he ht
  | cons _ hts => exact hts

theorem tail_eq_nil (h : Ended (t :: ts)) (ht : t.lexeme = .endOfInput) : ts = [] := by
  cases h with
  | last _ => rfl
  | cons hne _ => exact absurd ht hne

theorem exists_cons (h : Ended ts) : ∃ t ts', ts = t :: ts' :=
  List.exists_cons_of_ne_nil h.ne_nil

end Ended

/-- The cursor stands on the first of the tokens `ts`, the others of which are
    ahead, and is inside `d` expressions. -/
structure Cursor.Shows (c : Cursor) (d : Nat) (ts : List Token) : Prop where
  remaining : c.remaining = ts.map .ok
  ended : Ended ts
  depth : c.depth = d

/-- From the cursor `c`, which shows `ts`, the cursor `c'` has been moved on to
    where it shows `ts'`. -/
structure Cursor.Leads (c : Cursor) (ts : List Token) (c' : Cursor) (ts' : List Token) :
    Prop where
  shows : c'.Shows c.depth ts'
  suffix : ts' <:+ ts
  taken : c'.taken + ts'.length = c.taken + ts.length

namespace Cursor

variable {c c' c'' : Cursor} {d : Nat} {t : Token} {ts ts' ts'' : List Token}

theorem Shows.current_eq (h : c.Shows d (t :: ts)) : c.current = t :=
  Except.ok.inj (List.cons.inj h.remaining).1

theorem Shows.ahead_eq (h : c.Shows d (t :: ts)) : c.ahead = ts.map .ok :=
  (List.cons.inj h.remaining).2

theorem Shows.length_remaining (h : c.Shows d ts) : c.remaining.length = ts.length := by
  rw [h.remaining, List.length_map]

theorem Shows.unique {d' : Nat} (h : c.Shows d ts) (h' : c.Shows d' ts') : ts = ts' :=
  List.map_inj_right (fun _ _ => Except.ok.inj) |>.1 (h.remaining.symm.trans h'.remaining)

theorem Shows.leads (h : c.Shows d ts) : c.Leads ts c ts :=
  ⟨{ h with depth := rfl }, List.suffix_rfl, rfl⟩

theorem Leads.trans (h : c.Leads ts c' ts') (h' : c'.Leads ts' c'' ts'') : c.Leads ts c'' ts'' where
  shows := { h'.shows with depth := h'.shows.depth.trans h.shows.depth }
  suffix := h'.suffix.trans h.suffix
  taken := h'.taken.trans h.taken

theorem Leads.shows_at (hc : c.Shows d ts) (h : c.Leads ts c' ts') : c'.Shows d ts' :=
  { h.shows with depth := h.shows.depth.trans hc.depth }

theorem Shows.deeper (h : c.Shows d ts) :
    Cursor.Shows { c with depth := c.depth + 1 } (d + 1) ts :=
  ⟨h.remaining, h.ended, congrArg (· + 1) h.depth⟩

theorem Leads.back (h : Cursor.Leads { c with depth := c.depth + 1 } ts c' ts') :
    c.Leads ts { c' with depth := c'.depth - 1 } ts' := by
  refine ⟨⟨h.shows.remaining, h.shows.ended, ?_⟩, h.suffix, h.taken⟩
  rw [h.shows.depth]
  rfl

end Cursor

namespace Read

variable {α β : Type}

/-- What becomes of a reading from a cursor that shows `ts` inside `d`
    expressions. -/
def Ensures (p : Read α) (d : Nat) (ts : List Token) (Q : α → List Token → Prop)
    (E : Failure → List Token → Prop) : Prop :=
  ∀ c : Cursor, c.Shows d ts → match p c with
    | .ok a c' => ∃ ts', c.Leads ts c' ts' ∧ Q a ts'
    | .error e c' => ∃ ts', c.Leads ts c' ts' ∧ E e ts'

/-- No failure, wherever. -/
def Never (_ : Failure) (_ : List Token) : Prop := False

variable {p : Read α} {f : α → Read β} {d : Nat} {t : Token} {ts : List Token}
  {Q Q' : α → List Token → Prop} {R : β → List Token → Prop} {E E' : Failure → List Token → Prop}

theorem bind_of_ok {c c' : Cursor} {a : α} (h : p c = .ok a c') (f : α → Read β) :
    (p >>= f) c = f a c' := by
  simp only [Bind.bind, EStateM.bind, h]

theorem bind_of_error {c c' : Cursor} {e : Failure} (h : p c = .error e c') (f : α → Read β) :
    (p >>= f) c = .error e c' := by
  simp only [Bind.bind, EStateM.bind, h]

/-- Wherever a token binds something there is an operator, so a chain goes on at an
    operator of its tiers and stops at anything else. -/
theorem operatorFrom_eq (least : Nat) : operatorFrom least = do
    let token ← current
    match token.operator? with
    | some op => return if op.tier < least then none else some (token, op)
    | none => return none := by
  refine congrArg (current >>= ·) (funext fun t => ?_)
  rw [t.precedence_eq]
  cases ho : t.operator? with
  | none => exact if_pos (Int.lt_of_lt_of_le (by decide) (Int.natCast_nonneg least))
  | some op =>
    rw [Token.lookup_operators ho]
    by_cases hlt : op.tier < least
    · simp [hlt]
    · simp [hlt]

namespace Ensures

theorem ok (h : Ensures p d ts Q E) {c c' : Cursor} {a : α} (hc : c.Shows d ts)
    (hp : p c = .ok a c') : ∃ ts', c.Leads ts c' ts' ∧ Q a ts' := by
  have := h c hc
  rwa [hp] at this

theorem error (h : Ensures p d ts Q E) {c c' : Cursor} {e : Failure} (hc : c.Shows d ts)
    (hp : p c = .error e c') : ∃ ts', c.Leads ts c' ts' ∧ E e ts' := by
  have := h c hc
  rwa [hp] at this

theorem mono (h : Ensures p d ts Q E) (hQ : ∀ a ts', Ended ts' → ts' <:+ ts → Q a ts' → Q' a ts')
    (hE : ∀ e ts', Ended ts' → ts' <:+ ts → E e ts' → E' e ts') : Ensures p d ts Q' E' := by
  intro c hc
  cases hp : p c with
  | ok a c' =>
    obtain ⟨ts', hl, hq⟩ := h.ok hc hp
    exact ⟨ts', hl, hQ a ts' hl.shows.ended hl.suffix hq⟩
  | error e c' =>
    obtain ⟨ts', hl, he⟩ := h.error hc hp
    exact ⟨ts', hl, hE e ts' hl.shows.ended hl.suffix he⟩

theorem imp (h : Ensures p d ts Q E) (hQ : ∀ a ts', Q a ts' → Q' a ts') :
    Ensures p d ts Q' E :=
  h.mono (fun a ts' _ _ => hQ a ts') fun _ _ _ _ he => he

theorem bind (h : Ensures p d ts Q E)
    (hf : ∀ a ts', Ended ts' → ts' <:+ ts → Q a ts' → Ensures (f a) d ts' R E) :
    Ensures (p >>= f) d ts R E := by
  intro c hc
  cases hp : p c with
  | error e c' =>
    rw [bind_of_error hp]
    exact h.error hc hp
  | ok a c' =>
    rw [bind_of_ok hp]
    obtain ⟨ts', hl, hq⟩ := h.ok hc hp
    have after := hf a ts' hl.shows.ended hl.suffix hq c' (hl.shows_at hc)
    cases hfa : f a c' with
    | ok b c'' =>
      rw [hfa] at after
      obtain ⟨ts'', hl', hr⟩ := after
      exact ⟨ts'', hl.trans hl', hr⟩
    | error e c'' =>
      rw [hfa] at after
      obtain ⟨ts'', hl', he⟩ := after
      exact ⟨ts'', hl.trans hl', he⟩

/-- Some token is always shown, so a loop that has a round for each has one. -/
theorem no_rounds (h : ts.length ≤ 0) : Ensures p d ts Q E :=
  fun _ hc => absurd (List.eq_nil_of_length_eq_zero (Nat.le_zero.1 h)) hc.ended.ne_nil

theorem pure {a : α} (h : Q a ts) : Ensures (pure a) d ts Q E :=
  fun _ hc => ⟨ts, hc.leads, h⟩

theorem throw {e : Failure} (h : E e ts) : Ensures (throw e : Read α) d ts Q E :=
  fun _ hc => ⟨ts, hc.leads, h⟩

theorem current_bind {f : Token → Read β} (h : Ensures (f t) d (t :: ts) R E) :
    Ensures (Read.current >>= f) d (t :: ts) R E := by
  intro c hc
  have := h c hc
  rwa [← hc.current_eq] at this ⊢

theorem advance {Q : Unit → List Token → Prop} (ht : t.lexeme ≠ .endOfInput) (h : Q () ts) :
    Ensures advance d (t :: ts) Q E := by
  intro c hc
  have ended := hc.ended.tail ht
  obtain ⟨u, us, rfl⟩ := ended.exists_cons
  have ahead : c.ahead = .ok u :: us.map .ok := hc.ahead_eq
  simp only [Read.advance, ahead]
  refine ⟨u :: us, ⟨⟨rfl, ended, rfl⟩, List.suffix_cons t _, ?_⟩, h⟩
  simp only [List.length_cons]
  omega

theorem advance_bind {f : Unit → Read β} (ht : t.lexeme ≠ .endOfInput)
    (h : Ensures (f ()) d ts R E) : Ensures (Read.advance >>= f) d (t :: ts) R E :=
  (advance ht (Q := fun _ ts' => ts' = ts) rfl).bind fun _ _ _ _ hts => hts ▸ h

/-- A refused token is the one that the cursor stands on. -/
theorem refuse {cause : Cause} (hi : ∀ diag, t.diagnostic? = some diag → E (.invalid diag) (t :: ts))
    (hv : t.diagnostic? = none → E (.violation ⟨cause, t.location⟩) (t :: ts)) :
    Ensures (refuse t cause : Read α) d (t :: ts) Q E := by
  unfold Read.refuse
  split
  · next diag hd => exact throw (hi diag hd)
  · next hd => exact throw (hv hd)

/-- A token that is expected, and is there. -/
theorem expect_bind {select : Lexeme → Option α} {a : α} {expected : String}
    {context : Option String} {f : Token × α → Read β} (ha : select t.lexeme = some a)
    (ht : t.lexeme ≠ .endOfInput) (h : Ensures (f (t, a)) d ts R E) :
    Ensures (expect select expected context >>= f) d (t :: ts) R E := by
  refine bind (Q := fun r ts' => r = (t, a) ∧ ts' = ts) ?_ ?_
  · refine current_bind ?_
    simp only [ha]
    exact advance_bind ht (pure ⟨rfl, rfl⟩)
  · rintro _ _ - - ⟨rfl, rfl⟩
    exact h

/-- A token that is expected may be there or not. -/
theorem expect {select : Lexeme → Option α} {expected : String} {context : Option String}
    {Q : Token × α → List Token → Prop} (he : select .endOfInput = none)
    (hQ : ∀ a, select t.lexeme = some a → Q (t, a) ts)
    (hi : ∀ diag, t.diagnostic? = some diag → E (.invalid diag) (t :: ts))
    (hv : select t.lexeme = none → t.diagnostic? = none →
      E (.violation ⟨.missingToken expected context (some t.description), t.location⟩) (t :: ts)) :
    Ensures (expect select expected context) d (t :: ts) Q E := by
  refine current_bind ?_
  cases hs : select t.lexeme with
  | none => exact refuse hi (hv hs)
  | some a =>
    have ht : t.lexeme ≠ .endOfInput := by
      intro h
      rw [h, he] at hs
      exact absurd hs (by simp)
    exact advance_bind ht (pure (hQ a hs))

theorem skipWithin {q : Token → Bool} {Q : Unit → List Token → Prop}
    (hq : ∀ u : Token, u.lexeme = .endOfInput → q u = false)
    (rounds : List (Except Fault Token)) (hr : ts.length ≤ rounds.length)
    (h : Q () (ts.dropWhile q)) : Ensures (skipWithin q rounds) d ts Q E := by
  induction rounds generalizing ts with
  | nil => exact no_rounds hr
  | cons r rounds ih =>
    cases ts with
    | nil => exact fun c hc => absurd rfl hc.ended.ne_nil
    | cons t ts =>
      refine current_bind ?_
      by_cases ht : q t = true
      · rw [if_pos ht]
        rw [List.dropWhile_cons_of_pos ht] at h
        -- The end of the input is not of the class, so there is a token behind `t`.
        refine advance_bind (fun he => ?_) (ih (Nat.le_of_succ_le_succ hr) h)
        rw [hq t he] at ht
        exact absurd ht (by decide)
      · rw [if_neg ht]
        rw [List.dropWhile_cons_of_neg ht] at h
        exact pure h

theorem get_bind {f : Cursor → Read β}
    (h : ∀ c : Cursor, c.Shows d ts → Ensures (f c) d ts R E) :
    Ensures (get >>= f) d ts R E :=
  fun c hc => h c hc c hc

/-- To skip is to leave out the tokens of the class at the start. -/
theorem skip {q : Token → Bool} {Q : Unit → List Token → Prop}
    (hq : ∀ u : Token, u.lexeme = .endOfInput → q u = false) (h : Q () (ts.dropWhile q)) :
    Ensures (skip q) d ts Q E :=
  get_bind fun _ hc => skipWithin hq _ (Nat.le_of_eq hc.length_remaining.symm) h

theorem skipComments {Q : Unit → List Token → Prop} (h : Q () (ts.dropWhile Token.isComment)) :
    Ensures skipComments d ts Q E :=
  skip (fun u hu => by simp [Token.isComment, hu]) h

theorem synchronize {Q : Unit → List Token → Prop}
    (h : Q () (ts.dropWhile (!isResumption ·))) : Ensures synchronize d ts Q E :=
  skip (fun u hu => by simp [isResumption, hu]) h

theorem discard {Q : Unit → List Token → Prop} (h : Ensures p d ts (fun _ => Q ()) E) :
    Ensures (discard p) d ts Q E :=
  h.bind (f := fun _ => Pure.pure ()) fun _ _ _ _ hq => pure hq

theorem nested (h : Ensures p (d + 1) ts Q E) : Ensures (nested p) d ts Q E := by
  intro c hc
  unfold Read.nested
  cases hp : p { c with depth := c.depth + 1 } with
  | ok a c' =>
    obtain ⟨ts', hl, hq⟩ := h.ok hc.deeper hp
    exact ⟨ts', hl.back, hq⟩
  | error e c' =>
    obtain ⟨ts', hl, he⟩ := h.error hc.deeper hp
    exact ⟨ts', hl.back, he⟩

end Ensures

end Read

end Soul
