import Soul.Proofs.Congruence
import Soul.Proofs.Course

/-!
# Depth

A cursor counts the expressions that it is inside of. Each reading leaves the count as
it was, whether it gives a value or fails (`Read.DepthKept`). So the loop over the
statements of a program begins each round with the count zero, and so it ends.

The count decides how far expressions may be inside each other: an expression raises it
by one and fails at once if it is above the limit then (`Read.expression_eq_nested`). So
no reading that begins with a count up to the limit enters an expression with a count
above it (`Read.EntersWithin`), and nowhere is the count more than one above the limit.

The expressions that are read have no more of them inside each other than that
(`Expr.innerLevels`).
-/

namespace Soul

namespace Read

variable {α : Type} {limit : Int}

/-! ## The count is kept -/

theorem expression_any (limit : Int) (c : Cursor) :
    Brings AnyLexeme (expression limit) c AnyExpr :=
  expression_brings (I := fun _ => AnyExpr) (fun _ => forms_any) (fun _ _ _ => trivial) c

theorem primary_any (limit : Int) (c : Cursor) :
    Brings AnyLexeme (primary (expression limit)) c AnyExpr :=
  primary_brings forms_any (expression_any limit)

theorem chain_any (limit : Int) (least : Nat) (lhs : Expr) (c : Cursor) :
    Brings AnyLexeme (chain (primary (expression limit)) least lhs) c AnyExpr :=
  Brings.get_bind (chainWithin_brings forms_any (primary_any limit) _ least trivial)

theorem keepsDepth_expression (limit : Int) : KeepsDepth (expression limit) :=
  .of_brings (expression_any limit)

/-! ## The count decides -/

/-- Reads an expression where the depth has been raised for it, if it is up to `limit`,
    and the expressions inside it by `inner`. -/
def guarded (limit : Int) (inner : Read Expr) : Read Expr := do
  if limit < (← get).depth then
    throw (.violation ⟨.nestingTooDeep limit, (← current).location⟩)
  else
    let lhs ← primary inner
    chain (primary inner) 0 lhs

theorem guarded_of_lt {inner : Read Expr} {c : Cursor} (h : limit < c.depth) :
    guarded limit inner c =
      .error (.violation ⟨.nestingTooDeep limit, c.current.location⟩) c := by
  change (if limit < c.depth then _ else _ : Read Expr) c = _
  rw [if_pos h]
  rfl

theorem guarded_of_le {inner : Read Expr} {c : Cursor} (h : (c.depth : Int) ≤ limit) :
    guarded limit inner c =
      (do let lhs ← primary inner; chain (primary inner) 0 lhs : Read Expr) c := by
  change (if limit < c.depth then _ else _ : Read Expr) c = _
  rw [if_neg (Int.not_lt.2 h)]

/-- An expression raises the depth, and is read if it is up to the limit then. -/
theorem expression_eq_nested (limit : Int) :
    expression limit = nested (guarded limit (expression limit)) := by
  funext c
  change expressionWithin limit (limit - c.depth).toNat c = _
  -- A level is left just if the depth is still up to the limit when it has been raised.
  cases hl : (limit - c.depth).toNat with
  | zero =>
    refine nested_congr ?_
    rw [guarded_of_lt (by simp only [Nat.cast_add, Nat.cast_one]; omega)]
    rfl
  | succ levels =>
    have same : SameAt (c.depth + 1) (expression limit) (expressionWithin limit levels) := by
      refine ⟨keepsDepth_expression limit, fun c' hc' => ?_⟩
      have enough : (limit - c'.depth).toNat = levels := by omega
      change expressionWithin limit (limit - c'.depth).toNat c' = _
      rw [enough]
    refine nested_congr ?_
    rw [guarded_of_le (by simp only [Nat.cast_add, Nat.cast_one]; omega)]
    have congruence := congruence_sameAt (c.depth + 1)
    exact ((congruence.operands (congruence.primary same)).same _ rfl).symm

/-- A reading that begins at a depth up to the limit enters no expression at a depth
    above it: with `inner` to read the expressions inside, it does the same whatever
    `inner` does there. -/
def EntersWithin (limit : Int) (p : Read Expr → Read α) : Prop :=
  ∀ inner : Read Expr, (∀ c : Cursor, (c.depth : Int) ≤ limit → inner c = expression limit c) →
    ∀ c : Cursor, (c.depth : Int) ≤ limit → p inner c = p (expression limit) c

/-- What is put together of readings enters expressions where these do. -/
theorem EntersWithin.of_congruence {p : Read Expr → Read α}
    (h : ∀ {d : Nat} {inner : Read Expr}, Congruence (fun _ => SameAt d) →
      SameAt d (expression limit) inner → SameAt d (p (expression limit)) (p inner)) :
    EntersWithin limit p := by
  intro inner agrees c hc
  have same : SameAt c.depth (expression limit) inner :=
    ⟨keepsDepth_expression limit, fun c' hc' => (agrees c' (hc' ▸ hc)).symm⟩
  exact ((h (congruence_sameAt c.depth) same).same c rfl).symm

/-- Where the raised depth is above the limit, nothing inside is read. -/
theorem entersWithin_nested (limit : Int) :
    EntersWithin limit fun inner => nested (guarded limit inner) := by
  intro inner agrees c _
  refine nested_congr ?_
  by_cases within : ((c.depth + 1 : Nat) : Int) ≤ limit
  · have same : SameAt (c.depth + 1) (expression limit) inner :=
      ⟨keepsDepth_expression limit, fun c' hc' => (agrees c' (hc' ▸ within)).symm⟩
    have congruence := congruence_sameAt (c.depth + 1)
    rw [guarded_of_le within, guarded_of_le within]
    exact ((congruence.operands (congruence.primary same)).same _ rfl).symm
  · rw [guarded_of_lt (Int.not_le.1 within), guarded_of_lt (Int.not_le.1 within)]

/-- The readings leave the depth as it was. -/
structure DepthKept (limit : Int) : Prop where
  expression : KeepsDepth (expression limit)
  primary : KeepsDepth (primary (Read.expression limit))
  chain (least : Nat) (lhs : Expr) :
    KeepsDepth (chain (Read.primary (Read.expression limit)) least lhs)
  define : KeepsDepth (define limit)
  prototype : KeepsDepth prototype
  use : KeepsDepth use
  evaluate : KeepsDepth (evaluate limit)

/-- An expression raises the depth by one and fails at once if it is above the limit
    then. No reading enters an expression at a depth above the limit, so the depth is
    never more than one above it. -/
structure DepthBounded (limit : Int) : Prop where
  expression_eq : expression limit = nested (guarded limit (expression limit))
  define_eq : define limit = defineBy (expression limit)
  evaluate_eq : evaluate limit = evaluateBy (expression limit)
  expression : EntersWithin limit fun inner => nested (guarded limit inner)
  primary : EntersWithin limit primary
  chain (least : Nat) (lhs : Expr) :
    EntersWithin limit fun inner => chain (Read.primary inner) least lhs
  define : EntersWithin limit defineBy
  evaluate : EntersWithin limit evaluateBy

theorem depthKept (limit : Int) : DepthKept limit where
  expression := keepsDepth_expression limit
  primary := .of_brings (primary_any limit)
  chain least lhs := .of_brings (chain_any limit least lhs)
  define := .of_brings fun _ =>
    define_brings (I := fun _ => AnyExpr) (fun _ => forms_any) fun _ _ _ => trivial
  prototype := keepsDepth_prototype
  use := keepsDepth_use
  evaluate := .of_brings fun _ =>
    evaluate_brings (I := fun _ => AnyExpr) (fun _ => forms_any) fun _ _ _ => trivial

theorem depthBounded (limit : Int) : DepthBounded limit where
  expression_eq := expression_eq_nested limit
  define_eq := rfl
  evaluate_eq := rfl
  expression := entersWithin_nested limit
  primary := .of_congruence fun congruence same => congruence.primary same
  chain least lhs := .of_congruence fun congruence same =>
    congruence.chain (congruence.primary same) least lhs
  define := .of_congruence fun congruence same => congruence.defineBy same
  evaluate := .of_congruence fun congruence same => congruence.evaluateBy same

end Read

/-! ## Expressions inside each other -/

namespace Expr

mutual

/-- How many expressions are inside each other within the expression. The operands of an
    operator are not inside it but side by side. -/
def innerLevels : Expr → Nat
  | literal _ _ | var _ _ => 0
  | binary _ lhs rhs _ => max lhs.innerLevels rhs.innerLevels
  | call _ args _ => argumentLevels args
  | declaration _ _ initial _ => initialLevels initial

/-- How many expressions are inside each other in the parentheses of a call. -/
def argumentLevels : List Expr → Nat
  | [] => 0
  | e :: es => max (1 + e.innerLevels) (argumentLevels es)

/-- How many expressions are inside each other in an initial value. -/
def initialLevels : Option Expr → Nat
  | none => 0
  | some e => 1 + e.innerLevels

end

theorem argumentLevels_le {args : List Expr} {n : Nat} (h : ∀ arg ∈ args, 1 + arg.innerLevels ≤ n) :
    argumentLevels args ≤ n := by
  induction args with
  | nil => exact Nat.zero_le n
  | cons arg args ih =>
    obtain ⟨first, others⟩ := List.forall_mem_cons.1 h
    exact Nat.max_le.2 ⟨first, ih others⟩

end Expr

/-- What is inside an expression has a level less. -/
theorem forms_innerLevels (levels : Nat) :
    Forms AnyLexeme (1 + ·.innerLevels ≤ levels) (·.innerLevels ≤ levels) where
  literal _ := Nat.zero_le levels
  var := Nat.zero_le levels
  binary hl hr := Nat.max_le.2 ⟨hl, hr⟩
  call hargs := Expr.argumentLevels_le hargs
  declaration {_ _ initial _} hinitial := by
    cases initial with
    | none => exact Nat.zero_le levels
    | some e => exact hinitial e rfl
  parenthesized he := (Nat.le_add_left _ 1).trans he

/-- The depth is kept by every reading and never more than one above the limit. After the
    first token has been fetched, the reading of a program is a loop of rounds each of
    which begins at the depth zero. It ends at the depth zero, and the bodies that are read
    have no more expressions inside each other than the limit says. -/
theorem readProgram_depth (limit : Int) : Read.DepthKept limit ∧ Read.DepthBounded limit ∧
    ∀ (source : Scanner) (skip : Bool) (consumer : Consumer) (journal : Journal),
      let start := Session.start source.file (source.fetches skip) journal
      let o := readProgram source skip limit consumer journal
      ((∃ e s, start.perform Read.advance = (.error e, s) ∧ o = s.fail e) ∨
        ∃ opened, start.perform Read.advance = (.ok (), opened) ∧
          Session.Loop (·.cursor.depth = 0) (Read.item limit) consumer 0 opened o) ∧
      o.session.cursor.depth = 0 ∧
      ∀ i ∈ o.items, ∀ e ∈ i.body?, 1 + (e.innerLevels : Int) ≤ limit := by
  refine ⟨Read.depthKept limit, Read.depthBounded limit, ?_⟩
  intro source skip consumer journal start o
  refine ⟨?_, ?_⟩
  · cases hp : start.perform Read.advance with
    | mk r s =>
      have ho : o = start.program (Read.item limit) consumer := rfl
      rw [ho, Session.program, hp]
      cases r with
      | error e => exact .inl ⟨e, s, rfl, rfl⟩
      | ok _ =>
        have loop := Session.loop_of_start source skip limit consumer hp
        exact .inr ⟨s, rfl, loop.mono fun _ h => h.2⟩
  -- From the depth zero the levels are as many as the limit says.
  · refine readProgramBy_brings (T := AnyLexeme) (fun c depth => ?_) trivial (fun _ _ => trivial)
      consumer journal
    refine (Read.item_brings forms_innerLevels fun levels e he => ?_).imp fun i hi e he => ?_
    · omega
    · have := hi e he
      omega

end Soul
