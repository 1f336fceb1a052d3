import Soul.Proofs.Congruence

/-!
# The nesting limit only rejects

Two readings that differ in the nesting limit alone do the same, value and cursor
included, unless the one with the lower limit fails for expressions that are too deep.
This holds of expressions, and so of statements (`Read.item_sameUnless_tooDeep`).

A program is read statement by statement, and a statement that is too deep leaves an
error behind. So with a higher limit the reading comes to the same outcome, or with the
lower one it has found an error of this kind (`readProgram_foundTooDeep`).
-/

namespace Soul

/-- The failure is that expressions are inside each other beyond `limit`. -/
def Failure.ExceedsNesting (limit : Int) (e : Failure) : Prop :=
  ∃ l, e = .violation ⟨.nestingTooDeep limit, l⟩

namespace Read

variable {limit limit' : Int}

/-- More levels make a difference only where there are too few of them. -/
theorem expressionWithin_sameUnless_tooDeep {levels levels' : Nat} (le : levels ≤ levels') :
    SameUnless (Failure.ExceedsNesting limit) (expressionWithin limit levels)
      (expressionWithin limit' levels') := by
  have congruence := congruence_sameUnless (Failure.ExceedsNesting limit)
  induction levels generalizing levels' with
  | zero => exact fun c => .inr ⟨_, c, ⟨c.current.location, rfl⟩, rfl⟩
  | succ levels ih =>
    cases levels' with
    | zero => exact absurd le (Nat.not_succ_le_zero _)
    | succ levels' =>
      have operand := congruence.primary (ih (Nat.le_of_succ_le_succ le))
      exact (congruence.operands operand).nested

theorem item_sameUnless_tooDeep (le : limit ≤ limit') :
    SameUnless (Failure.ExceedsNesting limit) (item limit) (item limit') := by
  have congruence := congruence_sameUnless (Failure.ExceedsNesting limit)
  refine congruence.itemBy (congruence.after keepsDepth_get fun c => ?_)
  exact expressionWithin_sameUnless_tooDeep (by omega)

end Read

/-! ## Programs -/

namespace Session

variable {statement : Read Item} {consumer : Consumer} {count : Nat} {limit limit' : Int}
  {s s' : Session} {turn : Turn}

theorem errors_kept_of_perform {α : Type} {p : Read α} {r : Except Failure α}
    (h : s.perform p = (r, s')) : s.errors <+: s'.errors := by
  have moved (c : Cursor) : s.errors <+: (s.moveTo c).errors :=
    ⟨_, (Journal.errors_recordAll _ _).symm⟩
  cases r with
  | ok a =>
    obtain ⟨c, -, rfl⟩ := of_perform_ok h
    exact moved c
  | error e =>
    obtain ⟨c, -, rfl⟩ := of_perform_error h
    exact moved c

/-- The errors that have been collected stay. -/
theorem Turns.errors_kept (h : Turns statement consumer count s turn) :
    s.errors <+: turn.session.errors := by
  have collected : ∀ {s' : Session} {e : Failure}, s.perform statement = (.error e, s') →
      s.errors <+: (s'.collect e).errors := fun hp =>
    (errors_kept_of_perform hp).trans (errors_collect_kept _ _)
  cases h with
  | finish _ => exact List.prefix_rfl
  | comment _ hp | fault _ hp => exact errors_kept_of_perform hp
  | item _ hp _ | objection _ hp _ =>
    have kept := errors_kept_of_perform hp
    exact kept
  | commentFailed _ hp =>
    rw [Turn.session, session_fail]
    exact errors_kept_of_perform hp
  | full _ hp _ _ => exact collected hp
  | resume _ hp _ _ hp' => exact (collected hp).trans (errors_kept_of_perform hp')
  | resumeFailed _ hp _ _ hp' =>
    rw [Turn.session, session_fail]
    exact (collected hp).trans (errors_kept_of_perform hp')

theorem errors_kept_itemsWithin (statement : Read Item) (consumer : Consumer) (rounds count : Nat)
    (s : Session) : s.errors <+: (s.itemsWithin statement consumer rounds count).errors :=
  (itemsWithin_preserves (I := fun s' => s.errors <+: s'.errors) (Q := fun _ => True)
    (fun kept turns => ⟨kept.trans turns.errors_kept, fun _ _ => trivial⟩) rounds count
    List.prefix_rfl).1

/-- The diagnostic of a statement that fails stays with the errors. -/
theorem Turns.collected {e : Failure} (h : Turns statement consumer count s turn)
    (here : s.AtStatement) (hp : s.perform statement = (.error e, s'))
    (noFault : ∀ f, e ≠ .fault f) :
    (s'.collect e).errors <+: turn.session.errors := by
  have same : ∀ {r : Except Failure Item} {s₁ : Session}, s.perform statement = (r, s₁) →
      .error e = r ∧ s' = s₁ := fun h => Prod.mk.inj (hp.symm.trans h)
  cases h with
  | finish hend => exact absurd hend here.notEnd
  | comment comment _ | commentFailed comment _ =>
    exact absurd (comment.symm.trans here.noComment) (by simp)
  | item _ hp' _ | objection _ hp' _ => exact nomatch (same hp').1
  | fault _ hp' =>
    obtain ⟨⟨⟩, -⟩ := same hp'
    exact absurd rfl (noFault _)
  | full _ hp' _ _ =>
    obtain ⟨⟨⟩, rfl⟩ := same hp'
    exact List.prefix_rfl
  | resume _ hp' _ _ hs =>
    obtain ⟨⟨⟩, rfl⟩ := same hp'
    exact errors_kept_of_perform hs
  | resumeFailed _ hp' _ _ hs =>
    obtain ⟨⟨⟩, rfl⟩ := same hp'
    rw [Turn.session, session_fail]
    exact errors_kept_of_perform hs

/-- An error has been found since, for expressions inside each other beyond `limit`. -/
def FoundTooDeep (limit : Int) (s : Session) (o : Outcome) : Prop :=
  ∃ l, (⟨.nestingTooDeep limit, l⟩ : Diagnostic) ∈ o.errors.drop s.errors.length

theorem FoundTooDeep.of_kept {o : Outcome} (h : FoundTooDeep limit s' o)
    (kept : s.errors <+: s'.errors) : FoundTooDeep limit s o := by
  obtain ⟨l, hl⟩ := h
  exact ⟨l, (List.drop_sublist_drop_left _ kept.length_le).subset hl⟩

theorem FoundTooDeep.of_collect {o : Outcome} {l : Option Location}
    (kept : s.errors <+: s'.errors)
    (later : (s'.collect (.violation ⟨.nestingTooDeep limit, l⟩)).errors <+: o.errors) :
    FoundTooDeep limit s o := by
  refine FoundTooDeep.of_kept ⟨l, ?_⟩ kept
  have last : s'.errors ++ [⟨.nestingTooDeep limit, l⟩] <+: o.errors := later
  obtain ⟨more, hmore⟩ := last
  rw [← hmore, List.append_assoc, List.drop_left]
  exact List.mem_cons_self

/-- The loop begins with a statement that is too deep. -/
theorem foundTooDeep_of_failed {e : Failure} (rounds : Nat) (tooDeep : e.ExceedsNesting limit)
    (here : s.AtStatement) (hp : s.perform statement = (.error e, s')) :
    FoundTooDeep limit s (s.itemsWithin statement consumer (rounds + 1) count) := by
  obtain ⟨l, rfl⟩ := tooDeep
  refine .of_collect (l := l) (errors_kept_of_perform hp) ?_
  cases ht : s.turn statement consumer count with
  | ends o =>
    rw [itemsWithin_of_ends ht]
    exact (Turns.of_ends ht).collected here hp nofun
  | goes items count' s₁ =>
    rw [itemsWithin_of_goes ht]
    exact ((Turns.of_goes ht).collected here hp nofun).trans (errors_kept_itemsWithin ..)

end Session

/-- With a higher nesting limit the reading of a source comes to the same outcome, or
    with the lower one it has found an error for expressions that are too deep. -/
theorem readProgram_foundTooDeep {limit limit' : Int} (le : limit ≤ limit')
    (source : Scanner) (skip : Bool) (consumer : Consumer) (journal : Journal) :
    let start := Session.start source.file (source.fetches skip) journal
    let o := readProgram source skip limit consumer journal
    readProgram source skip limit' consumer journal = o ∨ start.FoundTooDeep limit o :=
  Session.readProgramBy_sameUnless (Read.item_sameUnless_tooDeep le)
    (D := fun s o _ => s.FoundTooDeep limit o)
    (fun rounds _ tooDeep here hp _ => Session.foundTooDeep_of_failed rounds tooDeep here hp)
    (fun turns found => found.of_kept turns.errors_kept)
    (fun hp found => found.of_kept (Session.errors_kept_of_perform hp)) source skip journal

/-- The nesting limit only rejects. A text that is read without an error is read to the
    same outcome with any higher limit: the same program, locations included, from as many
    tokens. -/
theorem readProgram_raise_nesting (file text : String) (skip : Bool) (limit limit' : Int)
    (journal : Journal) (fit : NumbersFit text.toList) (le : limit ≤ limit') :
    let read (nesting : Int) (consumer : Consumer) :=
      readProgram (.ofText file text) skip nesting consumer journal
    (∀ consumer, (read limit consumer).errors = journal.diagnostics.errors →
      (read limit' consumer).errors = journal.diagnostics.errors ∧
        (read limit' consumer).program = (read limit consumer).program ∧
        (read limit' consumer).session.cursor.taken = (read limit consumer).session.cursor.taken ∧
        read limit' consumer = read limit consumer) ∧
      ∀ nesting, (read nesting .all).stop = none := by
  intro read
  constructor
  · intro consumer clean
    have same : read limit' consumer = read limit consumer := by
      refine (readProgram_foundTooDeep le (.ofText file text) skip consumer
        journal).resolve_right ?_
      rintro ⟨l, found⟩
      -- Nothing has been added to the errors that were there at the start.
      have none : (read limit consumer).errors.drop journal.diagnostics.errors.length = [] := by
        rw [clean, List.drop_length]
      exact List.not_mem_nil (none ▸ found)
    rw [same]
    exact ⟨clean, rfl, rfl, rfl⟩
  · intro nesting
    obtain ⟨ts, hts⟩ := Scanner.splits_ofText file fit
    obtain ⟨s, -, run⟩ := runs_readProgram hts skip nesting .all journal
    exact run.stop_eq_none

/-- Parentheses around an argument of a call: three expressions inside each other, which is
    one too many for the limit two. -/
theorem readProgram_raise_nesting_call :
    let text := "f((1 + 2) ;c\n 'a = 3)"
    let read (nesting : Int) := readProgram (.ofText "main" text) false nesting .all (.empty 100)
    NumbersFit text.toList ∧ (3 : Int) ≤ 5 ∧ (read 2).errors.length = 1 ∧ (read 3).errors = [] ∧
      (read 5).errors = [] ∧ (read 5).program = (read 3).program ∧
      (read 5).session.cursor.taken = (read 3).session.cursor.taken := by
  intro text read
  have fit : NumbersFit text.toList := by decide +kernel
  have tooDeep : (read 2).errors.length = 1 := by decide +kernel
  have clean : (read 3).errors = [] := by decide +kernel
  obtain ⟨errors, program, taken, -⟩ :=
    (readProgram_raise_nesting "main" text false 3 5 (.empty 100) fit (by decide)).1 .all clean
  exact ⟨fit, by decide, tooDeep, clean, errors, program, taken⟩

end Soul
