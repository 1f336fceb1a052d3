import Soul.FrontEnd
import Soul.Proofs.Onward

/-!
# Congruence of readings

A reading is put together of others. Whatever relates two of them that are to stand in
the same place, and is kept by putting one reading behind another (`Read.Congruence`), it
relates the expressions and statements that are read by them: there is one lemma for each
function that reads.

There are two such relations. Readings may do the same from every cursor that is inside a
given number of expressions (`Read.SameAt`). And one of them may do what the other does
unless that fails in a given way (`Read.SameUnless`); then the programs that are read by
them are the same, or the failure has shown (`Session.readProgramBy_sameUnless`).
-/

namespace Soul

namespace Read

/-! ## The depth is kept -/

section KeepsDepth

variable {α β : Type} {p : Read α} {f : α → Read β}

/-- The reading leaves the depth as it was, whether it gives a value or fails. -/
def KeepsDepth (p : Read α) : Prop :=
  ∀ c : Cursor, match p c with
    | .ok _ c' | .error _ c' => c'.depth = c.depth

theorem KeepsDepth.of_brings {Q : Cursor → α → Prop} (h : ∀ c, Brings AnyLexeme p c (Q c)) :
    KeepsDepth p := by
  intro c
  cases hp : p c with
  | ok a c' => exact ((h c).ok c.holds_any hp).1.depth
  | error e c' => exact ((h c).error c.holds_any hp).depth

theorem KeepsDepth.bind (h : KeepsDepth p) (hf : ∀ a, KeepsDepth (f a)) :
    KeepsDepth (p >>= f) := by
  intro c
  have first := h c
  cases hp : p c with
  | error e c' =>
    rw [hp] at first
    rw [bind_of_error hp]
    exact first
  | ok a c' =>
    rw [hp] at first
    rw [bind_of_ok hp]
    have second := hf a c'
    cases hq : f a c' <;> rw [hq] at second <;> exact second.trans first

theorem KeepsDepth.nested (h : KeepsDepth p) : KeepsDepth (nested p) := by
  intro c
  have inside := h { c with depth := c.depth + 1 }
  unfold Read.nested
  cases hp : p { c with depth := c.depth + 1 } <;> rw [hp] at inside <;>
    exact congrArg (· - 1) inside

theorem keepsDepth_pure (a : α) : KeepsDepth (pure a) := fun _ => rfl

theorem keepsDepth_get : KeepsDepth get := fun _ => rfl

theorem keepsDepth_current : KeepsDepth current := fun _ => rfl

theorem keepsDepth_refuse {token : Token} {cause : Cause} :
    KeepsDepth (refuse token cause : Read α) :=
  .of_brings fun _ => Brings.refuse (Q := fun _ => True)

theorem keepsDepth_advance : KeepsDepth advance := .of_brings fun _ => Brings.advance

theorem keepsDepth_skip (q : Token → Bool) : KeepsDepth (skip q) :=
  .of_brings fun _ => Brings.skip q

theorem keepsDepth_expect {select : Lexeme → Option α} {expected : String}
    {context : Option String} : KeepsDepth (expect select expected context) :=
  .of_brings fun _ => Brings.expect

theorem keepsDepth_operatorFrom (least : Nat) : KeepsDepth (operatorFrom least) :=
  .of_brings fun _ => operatorFrom_brings least

theorem keepsDepth_prototype : KeepsDepth prototype := .of_brings fun _ => prototype_brings

theorem keepsDepth_use : KeepsDepth use := .of_brings fun _ => use_brings

end KeepsDepth

/-! ## Expressions and statements -/

/-- A relation between readings, which holds between a reading that keeps the depth and
    itself, and is kept where other readings follow. -/
structure Congruence (R : (α : Type) → Read α → Read α → Prop) : Prop where
  refl {α : Type} {p : Read α} : KeepsDepth p → R α p p
  bind {α β : Type} {p q : Read α} {f g : α → Read β} : R α p q → (∀ a, R β (f a) (g a)) →
    R β (p >>= f) (q >>= g)

namespace Congruence

variable {R : (α : Type) → Read α → Read α → Prop} (congruence : Congruence R)

include congruence

theorem after {α β : Type} {p : Read α} {f g : α → Read β} (h : KeepsDepth p)
    (hf : ∀ a, R β (f a) (g a)) : R β (p >>= f) (p >>= g) :=
  congruence.bind (congruence.refl h) hf

section Inner

variable {inner inner' : Read Expr} (same : R Expr inner inner')

include same

theorem argumentsWithin (rounds : List (Except Fault Token)) :
    R _ (argumentsWithin inner rounds) (argumentsWithin inner' rounds) := by
  induction rounds with
  | nil => exact congruence.refl (keepsDepth_pure _)
  | cons r rounds ih =>
    refine congruence.after (keepsDepth_skip _) fun _ =>
      congruence.after keepsDepth_current fun t => ?_
    split
    · exact congruence.refl (keepsDepth_advance.bind fun _ => keepsDepth_pure _)
    · exact congruence.refl keepsDepth_refuse
    · exact congruence.bind same fun arg => congruence.bind ih fun args =>
        congruence.refl (keepsDepth_pure _)

theorem named (token : Token) (name : String) :
    R _ (named inner token name) (named inner' token name) := by
  refine congruence.after keepsDepth_advance fun _ =>
    congruence.after keepsDepth_current fun t => ?_
  split
  · refine congruence.after keepsDepth_advance fun _ => congruence.bind ?_ fun args =>
      congruence.refl (keepsDepth_pure _)
    exact congruence.after keepsDepth_get fun c => congruence.argumentsWithin same c.remaining
  · exact congruence.refl (keepsDepth_pure _)

theorem declaration (token : Token) (isMutable : Bool) :
    R _ (declaration inner token isMutable) (declaration inner' token isMutable) := by
  refine congruence.after keepsDepth_advance fun _ => congruence.after keepsDepth_expect fun r =>
    congruence.after keepsDepth_current fun t => ?_
  split
  · exact congruence.after keepsDepth_advance fun _ => congruence.bind same fun initial =>
      congruence.refl (keepsDepth_pure _)
  · exact congruence.refl (keepsDepth_pure _)

theorem primaryBy {named named' : Token → String → Read Expr}
    {declared declared' : Token → Bool → Read Expr}
    (sameNamed : ∀ token name, R _ (named token name) (named' token name))
    (sameDeclared : ∀ token isMutable, R _ (declared token isMutable) (declared' token isMutable)) :
    R _ (primaryBy named declared inner) (primaryBy named' declared' inner') := by
  have constant : ∀ e : Expr, R _ (do advance; return e) (do advance; return e) := fun e =>
    congruence.refl (keepsDepth_advance.bind fun _ => keepsDepth_pure e)
  refine congruence.after (keepsDepth_skip _) fun _ =>
    congruence.after keepsDepth_current fun t => ?_
  split
  · exact sameNamed _ _
  · exact constant _
  · exact constant _
  · exact constant _
  · exact sameDeclared _ _
  · exact sameDeclared _ _
  · refine congruence.after keepsDepth_advance fun _ => congruence.bind same fun e =>
      congruence.refl ((keepsDepth_skip _).bind fun _ => ?_)
    exact (keepsDepth_expect.bind fun _ => keepsDepth_pure _).bind fun _ => keepsDepth_pure e
  · exact congruence.refl keepsDepth_refuse

theorem primary : R _ (primary inner) (primary inner') :=
  congruence.primaryBy same (congruence.named same) (congruence.declaration same)

omit same

theorem chainWithin {operand operand' : Read Expr} (same : R _ operand operand')
    (rounds : List (Except Fault Token)) (least : Nat) (lhs : Expr) :
    R _ (chainWithin operand rounds least lhs) (chainWithin operand' rounds least lhs) := by
  induction rounds generalizing least lhs with
  | nil => exact congruence.refl (keepsDepth_pure _)
  | cons r rounds ih =>
    refine congruence.after (keepsDepth_operatorFrom least) fun found => ?_
    split
    · exact congruence.refl (keepsDepth_pure _)
    · exact congruence.after keepsDepth_advance fun _ => congruence.bind same fun rhs =>
        congruence.bind (ih _ rhs) fun rhs' => ih _ _

theorem chain {operand operand' : Read Expr} (same : R _ operand operand') (least : Nat)
    (lhs : Expr) : R _ (chain operand least lhs) (chain operand' least lhs) :=
  congruence.after keepsDepth_get fun c => congruence.chainWithin same c.remaining least lhs

/-- An expression is an operand with a chain behind it. -/
theorem operands {operand operand' : Read Expr} (same : R _ operand operand') :
    R _ (do let lhs ← operand; Read.chain operand 0 lhs)
      (do let lhs ← operand'; Read.chain operand' 0 lhs) :=
  congruence.bind same (congruence.chain same 0)

include same

theorem defineBy : R _ (defineBy inner) (defineBy inner') :=
  congruence.after keepsDepth_expect fun _ => congruence.after keepsDepth_prototype fun _ =>
    congruence.bind same fun _ => congruence.refl (keepsDepth_pure _)

theorem evaluateBy : R _ (evaluateBy inner) (evaluateBy inner') :=
  congruence.after keepsDepth_current fun _ => congruence.bind same fun _ =>
    congruence.refl (keepsDepth_pure _)

theorem itemBy : R _ (itemBy inner) (itemBy inner') := by
  refine congruence.after keepsDepth_current fun t => ?_
  split
  · exact congruence.refl (keepsDepth_use.bind fun _ => keepsDepth_pure _)
  · exact congruence.bind (congruence.defineBy same) fun _ => congruence.refl (keepsDepth_pure _)
  · exact congruence.evaluateBy same

end Inner

end Congruence

/-! ## At a given depth -/

section SameAt

variable {α : Type} {d : Nat} {p q : Read α}

/-- The readings do the same from every cursor that is inside `d` expressions, and the
    first one keeps the depth. -/
structure SameAt (d : Nat) (p q : Read α) : Prop where
  keeps : KeepsDepth p
  same (c : Cursor) : c.depth = d → p c = q c

theorem congruence_sameAt (d : Nat) : Congruence fun _ => SameAt d where
  refl keeps := ⟨keeps, fun _ _ => rfl⟩
  bind {α β p q f g} h hf := by
    refine ⟨h.keeps.bind fun a => (hf a).keeps, fun c hc => ?_⟩
    have same := h.same c hc
    have kept := h.keeps c
    cases hp : p c with
    | error e c' => rw [bind_of_error hp, bind_of_error (same.symm.trans hp)]
    | ok a c' =>
      rw [hp] at kept
      rw [bind_of_ok hp, bind_of_ok (same.symm.trans hp)]
      exact (hf a).same c' (kept.trans hc)

theorem nested_congr {c : Cursor}
    (h : p { c with depth := c.depth + 1 } = q { c with depth := c.depth + 1 }) :
    nested p c = nested q c := by
  rw [nested, nested, h]

end SameAt

/-! ## But for a failure -/

section SameUnless

variable {α : Type} {F : Failure → Prop} {p q : Read α}

/-- The second reading does what the first one does, unless the first one fails in one of
    the ways `F`. -/
def SameUnless (F : Failure → Prop) (p q : Read α) : Prop :=
  ∀ c : Cursor, q c = p c ∨ ∃ e c', F e ∧ p c = .error e c'

theorem congruence_sameUnless (F : Failure → Prop) : Congruence fun _ => SameUnless F where
  refl _ _ := .inl rfl
  bind {α β p q f g} h hf c := by
    obtain same | ⟨e, c', he, failed⟩ := h c
    · cases hp : p c with
      | error e c' => exact .inl (by rw [bind_of_error hp, bind_of_error (same.trans hp)])
      | ok a c' =>
        rw [bind_of_ok hp, bind_of_ok (same.trans hp)]
        exact hf a c'
    · exact .inr ⟨e, c', he, bind_of_error failed f⟩

theorem SameUnless.trans {r : Read α} (first : SameUnless F p q) (second : SameUnless F q r) :
    SameUnless F p r := by
  intro c
  obtain same | failed := first c
  · rw [← same]
    exact second c
  · exact .inr failed

theorem SameUnless.nested (h : SameUnless F p q) : SameUnless F (nested p) (nested q) := by
  intro c
  unfold Read.nested
  obtain same | ⟨e, c', he, failed⟩ := h { c with depth := c.depth + 1 }
  · exact .inl (by rw [same])
  · exact .inr ⟨e, { c' with depth := c'.depth - 1 }, he, by rw [failed]⟩

end SameUnless

end Read

/-! ## Programs -/

namespace Session

variable {F : Failure → Prop} {statement statement' : Read Item} {consumer : Consumer}

theorem perform_sameUnless {α : Type} {p q : Read α} (h : Read.SameUnless F p q) (s : Session) :
    s.perform q = s.perform p ∨ ∃ e s', F e ∧ s.perform p = (.error e, s') := by
  unfold perform
  obtain same | ⟨e, c', he, failed⟩ := h s.cursor
  · exact .inl (by rw [same])
  · exact .inr ⟨e, s.moveTo c', he, by rw [failed]⟩

section Loops

variable (h : Read.SameUnless F statement statement') {D : Session → Outcome → Outcome → Prop}
  (failed : ∀ {s s' : Session} {e : Failure} (rounds count : Nat), F e → s.AtStatement →
    s.perform statement = (.error e, s') → s.perform statement' ≠ s.perform statement →
    D s (s.itemsWithin statement consumer (rounds + 1) count)
      (s.itemsWithin statement' consumer (rounds + 1) count))
  (earlier : ∀ {count count' : Nat} {s s' : Session} {items : List Item} {o o' : Outcome},
    Turns statement consumer count s (.goes items count' s') → D s' o o' →
    D s (o.behind items) (o'.behind items))

include h failed earlier

/-- Two loops come to the same, or a statement has failed for one of them and `D` holds of
    what they come to. It is enough that `D` holds where that statement has failed, and
    that it is kept by the rounds before. -/
theorem itemsWithin_sameUnless (rounds count : Nat) (s : Session) :
    s.itemsWithin statement' consumer rounds count = s.itemsWithin statement consumer rounds count ∨
      D s (s.itemsWithin statement consumer rounds count)
        (s.itemsWithin statement' consumer rounds count) := by
  induction rounds generalizing count s with
  | zero => exact .inl rfl
  | succ rounds ih =>
    by_cases same : s.AtStatement → s.perform statement' = s.perform statement
    · have same := turn_congr same consumer count
      cases ht : s.turn statement consumer count with
      | ends o => exact .inl (by rw [itemsWithin_of_ends ht, itemsWithin_of_ends (same.trans ht)])
      | goes items count' s' =>
        rw [itemsWithin_of_goes ht, itemsWithin_of_goes (same.trans ht)]
        exact (ih count' s').imp (congrArg _) (earlier (.of_goes ht))
    · obtain ⟨here, differ⟩ := Classical.not_imp.1 same
      obtain ⟨e, s', he, hp⟩ := (perform_sameUnless h s).resolve_left differ
      exact .inr (failed rounds count he here hp differ)

/-- The same of the readings of a source, the first token of which is fetched before. -/
theorem readProgramBy_sameUnless
    (first : ∀ {s s' : Session} {o o' : Outcome}, s.perform Read.advance = (.ok (), s') →
      D s' o o' → D s o o') (source : Scanner) (skip : Bool) (journal : Journal) :
    readProgramBy statement' source skip consumer journal =
        readProgramBy statement source skip consumer journal ∨
      D (start source.file (source.fetches skip) journal)
        (readProgramBy statement source skip consumer journal)
        (readProgramBy statement' source skip consumer journal) := by
  unfold readProgramBy program
  split
  · next s hp =>
    exact (itemsWithin_sameUnless h failed earlier _ 0 s).imp_right (first hp)
  · exact .inl rfl

end Loops

end Session

end Soul
