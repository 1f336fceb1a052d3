import Soul.Item.Read
import Soul.Proofs.Line
import Soul.Proofs.Reading

/-!
# Readings of any source

A source may have faults among its tokens. A reading of it only moves on: it
passes over tokens one by one and stops on a later one, or it stops at a fault,
which is then the last thing it has fetched (`Cursor.Passes`). In the first case
it has a value or it has failed; how it may have failed is laid down by
`Explains`: at the token on which it stands, with that token's own diagnostic or
with one that describes the token.

`Read.Yields T limit p c Q E` says this of the reading `p` from the cursor `c`, if
all tokens there are of the class `T`, and of its value and the cursor behind it
that they satisfy `Q`. A reading that fails other than for a fault does so at a
cursor that satisfies `E`. There is one rule for each way in which readings are
put together.
-/

namespace Soul

/-- What a failure has fetched that is no token. -/
def Failure.fetches : Failure → List (Except Fault Token)
  | .fault f => [.error f]
  | .invalid _ | .violation _ => []

/-- A reading of expressions, not more than `limit` of them inside each other, may
    end in the failure when it stands on the token `t`. -/
inductive Explains (limit : Int) (t : Token) : Failure → Prop
  | invalid {d : Diagnostic} : t.diagnostic? = some d → Explains limit t (.invalid d)
  | missing {expected context : String} : IsLine expected → IsLine context →
      Explains limit t (.violation
        ⟨.missingToken expected (some context) (some t.description), t.location⟩)
  | unexpected : Explains limit t (.violation
        ⟨.unexpectedToken t.description (some "expression"), t.location⟩)
  | tooDeep : Explains limit t (.violation ⟨.nestingTooDeep limit, t.location⟩)
  | fault {f : Fault} : Explains limit t (.fault f)

/-! ## Cursors -/

theorem Terminated.of_suffix {fs gs : List (Except Fault Token)} (h : Terminated fs)
    (hs : gs <:+ fs) (hne : gs ≠ []) : Terminated gs := by
  induction h with
  | last ht =>
    rcases List.suffix_cons_iff.1 hs with rfl | hs
    · exact .last ht
    · exact absurd (List.suffix_nil.1 hs) hne
  | broken =>
    rcases List.suffix_cons_iff.1 hs with rfl | hs
    · exact .broken
    · exact absurd (List.suffix_nil.1 hs) hne
  | token ht hfs ih =>
    rcases List.suffix_cons_iff.1 hs with rfl | hs
    · exact .token ht hfs
    · exact ih hs
  | fault hfs ih =>
    rcases List.suffix_cons_iff.1 hs with rfl | hs
    · exact .fault hfs
    · exact ih hs

theorem Terminated.ne_nil {fs : List (Except Fault Token)} (h : Terminated fs) : fs ≠ [] := by
  cases h <;> exact List.cons_ne_nil _ _

namespace Cursor

/-- The cursor stands on a token of a source with tokens of the class `T`. -/
structure Stands (T : Token → Prop) (c : Cursor) : Prop where
  terminated : Terminated c.remaining
  tokens : ∀ t, .ok t ∈ c.remaining → T t

/-- From `c` to `c'` the tokens `before` have been passed over, and what stands
    behind the token on which `c'` stands, `last`, has been fetched. -/
structure Passes (c : Cursor) (before : List Token) (last : List (Except Fault Token))
    (c' : Cursor) : Prop where
  remaining : c.remaining = before.map .ok ++ .ok c'.current :: (last ++ c'.ahead)
  taken : c'.taken = c.taken + before.length
  depth : c'.depth = c.depth

/-- Some tokens have been passed over on the way from `c` to `c'`. -/
def Reaches (c : Cursor) (last : List (Except Fault Token)) (c' : Cursor) : Prop :=
  ∃ before, c.Passes before last c'

variable {T : Token → Prop} {c c' c'' : Cursor} {before : List Token}
  {last : List (Except Fault Token)}

theorem Stands.current (h : c.Stands T) : T c.current := h.tokens _ List.mem_cons_self

theorem Stands.deeper (h : c.Stands T) (d : Nat) : Stands T { c with depth := d } :=
  ⟨h.terminated, h.tokens⟩

/-- Behind a token that is not the end of the input there is something more. -/
theorem Stands.ahead_ne_nil (h : c.Stands T) (hne : c.current.lexeme ≠ .endOfInput) :
    c.ahead ≠ [] := by
  obtain ⟨current, ahead, taken, depth⟩ := c
  cases h.terminated with
  | last he => exact absurd he hne
  | token _ hfs => exact hfs.ne_nil

theorem Reaches.refl (c : Cursor) : c.Reaches [] c := ⟨[], rfl, rfl, rfl⟩

theorem Passes.trans {before' : List Token} (h : c.Passes before [] c')
    (h' : c'.Passes before' last c'') : c.Passes (before ++ before') last c'' where
  remaining := by
    have behind : Except.ok c'.current :: ([] ++ c'.ahead) = c'.remaining := rfl
    rw [h.remaining, behind, h'.remaining, List.map_append, List.append_assoc]
  taken := by
    rw [h'.taken, h.taken, List.length_append, Nat.add_assoc]
  depth := h'.depth.trans h.depth

theorem Reaches.trans (h : c.Reaches [] c') (h' : c'.Reaches last c'') : c.Reaches last c'' := by
  obtain ⟨before, hb⟩ := h
  obtain ⟨before', hb'⟩ := h'
  exact ⟨before ++ before', hb.trans hb'⟩

theorem Reaches.taken_le (h : c.Reaches last c') : c.taken ≤ c'.taken := by
  obtain ⟨before, hb⟩ := h
  rw [hb.taken]
  exact Nat.le_add_right _ _

theorem Passes.taken_lt {t : Token} (h : c.Passes [t] [] c') : c.taken < c'.taken := by
  rw [h.taken]
  exact Nat.lt_succ_self _

theorem Reaches.suffix (h : c.Reaches [] c') : c'.remaining <:+ c.remaining := by
  obtain ⟨before, hb⟩ := h
  exact ⟨before.map .ok, hb.remaining.symm⟩

theorem Reaches.stands (h : c.Reaches [] c') (hc : c.Stands T) : c'.Stands T :=
  ⟨hc.terminated.of_suffix h.suffix (List.cons_ne_nil _ _),
    fun t ht => hc.tokens t (h.suffix.subset ht)⟩

/-- The token on which a reading stops is one of the source, be it at a fault. -/
theorem Reaches.current (h : c.Reaches last c') (hc : c.Stands T) : T c'.current := by
  obtain ⟨before, hb⟩ := h
  refine hc.tokens _ ?_
  rw [hb.remaining]
  exact List.mem_append_right _ List.mem_cons_self

/-- A reading that has not passed over a token stands where it was. -/
theorem Reaches.current_eq (h : c.Reaches last c') (ht : c'.taken ≤ c.taken) :
    c'.current = c.current := by
  obtain ⟨before, hb⟩ := h
  have none : before = [] := by
    refine List.eq_nil_of_length_eq_zero ?_
    have := hb.taken
    omega
  have remaining := hb.remaining
  rw [none] at remaining
  exact (Except.ok.inj (List.cons.inj remaining).1).symm

theorem Reaches.back (h : Reaches { c with depth := c.depth + 1 } last c') :
    c.Reaches last { c' with depth := c'.depth - 1 } := by
  obtain ⟨before, hb⟩ := h
  exact ⟨before, hb.remaining, hb.taken, by rw [hb.depth]; rfl⟩

end Cursor

namespace Read

variable {α β : Type}

/-- What becomes of a reading from the cursor `c` in a source with tokens of the
    class `T`. -/
def Yields (T : Token → Prop) (limit : Int) (p : Read α) (c : Cursor) (Q : α → Cursor → Prop)
    (E : Cursor → Prop) : Prop :=
  c.Stands T → match p c with
    | .ok a c' => c.Reaches [] c' ∧ Q a c'
    | .error e c' => c.Reaches e.fetches c' ∧ Explains limit c'.current e ∧ (e.fetches = [] → E c')

/-- A cursor, wherever it is. -/
def Anywhere (_ : Cursor) : Prop := True

variable {T : Token → Prop} {limit : Int} {p : Read α} {f : α → Read β} {c : Cursor}
  {Q Q' : α → Cursor → Prop} {R : β → Cursor → Prop} {E E' : Cursor → Prop}

namespace Yields

theorem ok (h : Yields T limit p c Q E) (hc : c.Stands T) {a : α} {c' : Cursor}
    (hp : p c = .ok a c') : c.Reaches [] c' ∧ Q a c' := by
  have := h hc
  rwa [hp] at this

theorem error (h : Yields T limit p c Q E) (hc : c.Stands T) {e : Failure} {c' : Cursor}
    (hp : p c = .error e c') :
    c.Reaches e.fetches c' ∧ Explains limit c'.current e ∧ (e.fetches = [] → E c') := by
  have := h hc
  rwa [hp] at this

theorem mono (h : Yields T limit p c Q E) (hQ : ∀ a c', c.Reaches [] c' → Q a c' → Q' a c')
    (hE : ∀ c', c.Reaches [] c' → E c' → E' c') : Yields T limit p c Q' E' := by
  intro hc
  cases hp : p c with
  | ok a c' =>
    obtain ⟨reaches, hq⟩ := h.ok hc hp
    exact ⟨reaches, hQ a c' reaches hq⟩
  | error e c' =>
    obtain ⟨reaches, explains, he⟩ := h.error hc hp
    exact ⟨reaches, explains, fun none => hE c' (none ▸ reaches) (he none)⟩

theorem imp (h : Yields T limit p c Q E) (hQ : ∀ a c', c.Reaches [] c' → Q a c' → Q' a c') :
    Yields T limit p c Q' E :=
  h.mono hQ fun _ _ he => he

theorem bind (h : Yields T limit p c Q E)
    (hf : ∀ a c', c.Reaches [] c' → Q a c' → Yields T limit (f a) c' R E) :
    Yields T limit (p >>= f) c R E := by
  intro hc
  cases hp : p c with
  | error e c' =>
    rw [bind_of_error hp]
    exact h.error hc hp
  | ok a c' =>
    rw [bind_of_ok hp]
    obtain ⟨reaches, hq⟩ := h.ok hc hp
    have after := hf a c' reaches hq (reaches.stands hc)
    cases hfa : f a c' with
    | ok b c'' =>
      rw [hfa] at after
      exact ⟨reaches.trans after.1, after.2⟩
    | error e c'' =>
      rw [hfa] at after
      exact ⟨reaches.trans after.1, after.2⟩

theorem pure {a : α} (h : Q a c) : Yields T limit (pure a) c Q E :=
  fun _ => ⟨.refl c, h⟩

theorem throw {e : Failure} (he : e.fetches = []) (hx : Explains limit c.current e) (h : E c) :
    Yields T limit (throw e : Read α) c Q E :=
  fun _ => ⟨he ▸ .refl c, hx, fun _ => h⟩

theorem current_bind {f : Token → Read β} (h : T c.current → Yields T limit (f c.current) c R E) :
    Yields T limit (current >>= f) c R E :=
  fun hc => h hc.current hc

theorem get_bind {f : Cursor → Read β} (h : Yields T limit (f c) c R E) :
    Yields T limit (get >>= f) c R E :=
  h

theorem advance {Q : Unit → Cursor → Prop} (hne : c.current.lexeme ≠ .endOfInput)
    (h : ∀ c', c.Passes [c.current] [] c' → Q () c') : Yields T limit advance c Q E := by
  intro hc
  obtain ⟨fetch, rest, ahead⟩ := List.exists_cons_of_ne_nil (hc.ahead_ne_nil hne)
  cases fetch with
  | ok t =>
    simp only [Read.advance, ahead]
    have passes : c.Passes [c.current] [] ⟨t, rest, c.taken + 1, c.depth⟩ :=
      ⟨by rw [Cursor.remaining, ahead]; rfl, rfl, rfl⟩
    exact ⟨⟨_, passes⟩, h _ passes⟩
  | error f =>
    simp only [Read.advance, ahead]
    have passes : c.Passes [] [.error f] ⟨c.current, rest, c.taken, c.depth⟩ :=
      ⟨by rw [Cursor.remaining, ahead]; rfl, rfl, rfl⟩
    exact ⟨⟨_, passes⟩, .fault, fun none => absurd none (List.cons_ne_nil _ _)⟩

theorem advance_bind {f : Unit → Read β} (hne : c.current.lexeme ≠ .endOfInput)
    (h : ∀ c', c.Passes [c.current] [] c' → Yields T limit (f ()) c' R E) :
    Yields T limit (Read.advance >>= f) c R E :=
  (advance (Q := fun _ c' => c.Passes [c.current] [] c') hne fun _ hp => hp).bind
    fun _ c' _ hp => h c' hp

theorem refuse {cause : Cause}
    (hx : Explains limit c.current (.violation ⟨cause, c.current.location⟩)) (h : E c) :
    Yields T limit (refuse c.current cause : Read α) c Q E := by
  unfold Read.refuse
  split
  · next d hd => exact throw rfl (.invalid hd) h
  · exact throw rfl hx h

/-- A token that is expected may be there or not. -/
theorem expect {select : Lexeme → Option α} {expected context : String}
    {Q : Token × α → Cursor → Prop} (he : select .endOfInput = none) (hx : IsLine expected)
    (hi : IsLine context) (h : E c)
    (hQ : ∀ a c', T c.current → select c.current.lexeme = some a →
      c.Passes [c.current] [] c' → Q (c.current, a) c') :
    Yields T limit (expect select expected (some context)) c Q E := by
  refine current_bind fun ht => ?_
  cases hs : select c.current.lexeme with
  | none => exact refuse (.missing hx hi) h
  | some a =>
    have hne : c.current.lexeme ≠ .endOfInput := by
      intro hend
      rw [hend, he] at hs
      exact absurd hs (by simp)
    exact advance_bind hne fun c' hp => pure (hQ a c' ht hs hp)

/-- A token that is expected, and is there. -/
theorem expect_bind {select : Lexeme → Option α} {a : α} {expected : String}
    {context : Option String} {f : Token × α → Read β} (ha : select c.current.lexeme = some a)
    (hne : c.current.lexeme ≠ .endOfInput)
    (h : ∀ c', T c.current → c.Passes [c.current] [] c' →
      Yields T limit (f (c.current, a)) c' R E) :
    Yields T limit (Read.expect select expected context >>= f) c R E := by
  refine bind (Q := fun r c' => T c.current ∧ r = (c.current, a) ∧ c.Passes [c.current] [] c') ?_ ?_
  · refine current_bind fun ht => ?_
    simp only [ha]
    exact advance_bind hne fun c' hp => pure ⟨ht, rfl, hp⟩
  · rintro _ c' - ⟨ht, rfl, hp⟩
    exact h c' ht hp

/-- Where the class holds of the current token, a skip passes over it. -/
theorem skipWithin {q : Token → Bool} (hq : ∀ u : Token, u.lexeme = .endOfInput → q u = false)
    (rounds : List (Except Fault Token)) : Yields T limit (skipWithin q rounds) c
      (fun _ c' => rounds ≠ [] → q c.current = true → c.taken < c'.taken) E := by
  induction rounds generalizing c with
  | nil => exact pure fun hne => absurd rfl hne
  | cons r rounds ih =>
    refine current_bind fun _ => ?_
    by_cases ht : q c.current = true
    · rw [if_pos ht]
      refine advance_bind (fun he => absurd ht (by simp [hq _ he])) fun c' hp => ?_
      refine ih.imp fun _ c'' reaches _ _ _ => ?_
      exact Nat.lt_of_lt_of_le hp.taken_lt reaches.taken_le
    · rw [if_neg ht]
      exact pure fun _ hc => absurd hc ht

theorem skip {q : Token → Bool} (hq : ∀ u : Token, u.lexeme = .endOfInput → q u = false) :
    Yields T limit (skip q) c (fun _ c' => q c.current = true → c.taken < c'.taken) E :=
  get_bind ((skipWithin hq _).imp fun _ _ _ h => h (List.cons_ne_nil _ _))

theorem skipComments : Yields T limit skipComments c (fun _ _ => True) E :=
  (skip fun u hu => by simp [Token.isComment, hu]).imp fun _ _ _ _ => trivial

theorem synchronize : Yields T limit synchronize c
    (fun _ c' => isResumption c.current = false → c.taken < c'.taken) E :=
  (skip fun u hu => by simp [isResumption, hu]).imp fun _ _ _ h hr => h (by simp [hr])

theorem discard {Q : Unit → Cursor → Prop} (h : Yields T limit p c (fun _ => Q ()) E) :
    Yields T limit (discard p) c Q E :=
  h.bind (f := fun _ => Pure.pure ()) fun _ _ _ hq => pure hq

theorem nested (h : Yields T limit p { c with depth := c.depth + 1 }
      (fun a c' => Q a { c' with depth := c'.depth - 1 })
      (fun c' => E { c' with depth := c'.depth - 1 })) :
    Yields T limit (nested p) c Q E := by
  intro hc
  unfold Read.nested
  cases hp : p { c with depth := c.depth + 1 } with
  | ok a c' =>
    obtain ⟨reaches, hq⟩ := h.ok (hc.deeper _) hp
    exact ⟨reaches.back, hq⟩
  | error e c' =>
    obtain ⟨reaches, explains, he⟩ := h.error (hc.deeper _) hp
    exact ⟨reaches.back, explains, he⟩

/-- A reading that starts behind a token fails behind it. -/
theorem behind {n : Nat} (h : Yields T limit p c Q Anywhere) (hn : n < c.taken) :
    Yields T limit p c Q fun c' => n < c'.taken :=
  h.mono (fun _ _ _ hq => hq) fun _ reaches _ => hn.trans_le reaches.taken_le

end Yields

end Read

end Soul
