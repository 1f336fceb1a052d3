import Soul.Proofs.Accept

/-!
# Every token is fetched once

The reading of a program always comes to an end, and on its way it fetches the
tokens of the source one after the other, each of them once. It fetches all of
them unless it ends for too many errors, and never one behind the end of the
input (`readProgram_fetches`).

The loops of a reading are written with a number of rounds, one for each token
that is left. This bound is never what ends them: each round passes over a token,
so a loop that is given more rounds does just the same (`Read.Unbounded`). The
loop over the statements ends at the end of the input or when there are too many
errors, and in no other way (`Session.Runs.ends`).
-/

namespace Soul

namespace Read

variable {α β : Type} {d : Nat} {t : Token} {ts : List Token}

theorem operatorFrom_ensures (least : Nat) : Ensures (operatorFrom least) d (t :: ts)
    (fun r ts' => ts' = t :: ts ∧ (r = none ∨ ∃ op, t.operator? = some op ∧ r = some (t, op)))
    Never := by
  rw [operatorFrom_eq]
  refine Ensures.current_bind ?_
  cases ho : t.operator? with
  | none => exact Ensures.pure ⟨rfl, .inl rfl⟩
  | some op =>
    by_cases hlt : op.tier < least
    · simp only [if_pos hlt]
      exact Ensures.pure ⟨rfl, .inl rfl⟩
    · simp only [if_neg hlt]
      exact Ensures.pure ⟨rfl, .inr ⟨op, rfl, rfl⟩⟩

/-! ## Readings that do the same -/

/-- The readings do the same from a cursor that shows `ts` inside `d`
    expressions. -/
def Agree (p q : Read α) (d : Nat) (ts : List Token) : Prop :=
  ∀ c : Cursor, c.Shows d ts → p c = q c

namespace Agree

variable {p p' : Read α} {f f' : α → Read β} {Q : α → List Token → Prop}
  {E : Failure → List Token → Prop}

theorem refl (p : Read α) : Agree p p d ts := fun _ _ => rfl

theorem no_rounds (h : ts.length ≤ 0) : Agree p p' d ts :=
  fun _ hc => absurd (List.eq_nil_of_length_eq_zero (Nat.le_zero.1 h)) hc.ended.ne_nil

theorem of_cons (h : ∀ t us, ts = t :: us → Agree p p' d (t :: us)) : Agree p p' d ts := by
  intro c hc
  obtain ⟨t, us, rfl⟩ := hc.ended.exists_cons
  exact h t us rfl c hc

theorem bind (hp : Agree p p' d ts) (h : Ensures p d ts Q E)
    (hf : ∀ a ts', ts' <:+ ts → Q a ts' → Agree (f a) (f' a) d ts') :
    Agree (p >>= f) (p' >>= f') d ts := by
  intro c hc
  have same := hp c hc
  cases h₁ : p c with
  | error e c' => rw [bind_of_error h₁, bind_of_error (same.symm.trans h₁)]
  | ok a c' =>
    rw [bind_of_ok h₁, bind_of_ok (same.symm.trans h₁)]
    obtain ⟨ts', hl, hq⟩ := h.ok hc h₁
    exact hf a ts' hl.suffix hq c' (hl.shows_at hc)

theorem current_bind {f f' : Token → Read β} (h : Agree (f t) (f' t) d (t :: ts)) :
    Agree (current >>= f) (current >>= f') d (t :: ts) := by
  intro c hc
  have same := h c hc
  rwa [← hc.current_eq] at same

theorem advance_bind {f f' : Unit → Read β} (ht : t.lexeme ≠ .endOfInput)
    (h : Agree (f ()) (f' ()) d ts) : Agree (advance >>= f) (advance >>= f') d (t :: ts) :=
  (refl advance).bind (Ensures.advance (E := Never) ht (Q := fun _ ts' => ts' = ts) rfl)
    fun _ _ _ hts => hts ▸ h

theorem operatorFrom_bind {least : Nat} {f f' : Option (Token × Operator) → Read β}
    (hn : Agree (f none) (f' none) d (t :: ts))
    (hs : ∀ op, t.operator? = some op → Agree (f (some (t, op))) (f' (some (t, op))) d (t :: ts)) :
    Agree (operatorFrom least >>= f) (operatorFrom least >>= f') d (t :: ts) := by
  refine (refl (operatorFrom least)).bind (operatorFrom_ensures least) ?_
  rintro _ _ - ⟨rfl, rfl | ⟨op, ho, rfl⟩⟩
  · exact hn
  · exact hs op ho

end Agree

/-! ## Rounds to spare -/

variable {inner operand : Read Expr}

theorem skipWithin_agree {q : Token → Bool} (hq : ∀ u : Token, u.lexeme = .endOfInput → q u = false)
    (rounds rounds' : List (Except Fault Token)) (hr : ts.length ≤ rounds.length)
    (hr' : ts.length ≤ rounds'.length) :
    Agree (skipWithin q rounds) (skipWithin q rounds') d ts := by
  induction rounds generalizing rounds' ts with
  | nil => exact Agree.no_rounds hr
  | cons r rounds ih =>
    cases rounds' with
    | nil => exact Agree.no_rounds hr'
    | cons r' rounds' =>
      refine Agree.of_cons fun t us hts => ?_
      subst hts
      refine Agree.current_bind ?_
      by_cases ht : q t = true
      · simp only [if_pos ht]
        refine Agree.advance_bind (fun he => ?_)
          (ih rounds' (Nat.le_of_succ_le_succ hr) (Nat.le_of_succ_le_succ hr'))
        rw [hq t he] at ht
        exact absurd ht (by decide)
      · simp only [if_neg ht]
        exact Agree.refl _

theorem typeNamesWithin_agree (rounds rounds' : List (Except Fault Token))
    (hr : ts.length ≤ rounds.length) (hr' : ts.length ≤ rounds'.length) :
    Agree (typeNamesWithin rounds) (typeNamesWithin rounds') d ts := by
  induction rounds generalizing rounds' ts with
  | nil => exact Agree.no_rounds hr
  | cons r rounds ih =>
    cases rounds' with
    | nil => exact Agree.no_rounds hr'
    | cons r' rounds' =>
      refine Agree.of_cons fun t us hts => ?_
      subst hts
      refine Agree.current_bind ?_
      cases ht : typeName t.lexeme with
      | none => exact Agree.refl _
      | some name =>
        have notEnd : t.lexeme ≠ .endOfInput := by
          rintro he
          simp [he, typeName] at ht
        have short := Nat.le_of_succ_le_succ hr
        refine Agree.advance_bind notEnd ((ih rounds' short (Nat.le_of_succ_le_succ hr')).bind
          (typeNamesWithin_sound rounds short) fun _ _ _ _ => Agree.refl _)

/-- An argument passes over a token, so it leaves one round less to be spent. -/
theorem argumentsWithin_agree (hi : SoundExpression inner)
    (rounds rounds' : List (Except Fault Token)) (hr : ts.length ≤ rounds.length)
    (hr' : ts.length ≤ rounds'.length) :
    Agree (argumentsWithin inner rounds) (argumentsWithin inner rounds') d ts := by
  induction rounds generalizing rounds' ts with
  | nil => exact Agree.no_rounds hr
  | cons r rounds ih =>
    cases rounds' with
    | nil => exact Agree.no_rounds hr'
    | cons r' rounds' =>
      refine (Agree.refl skipComments).bind
        (Ensures.skipComments (E := Never) (Q := fun _ _ => True) trivial) fun _ us hsuf _ => ?_
      refine Agree.of_cons fun t vs hus => ?_
      subst hus
      refine Agree.current_bind ?_
      split
      · exact Agree.refl _
      · exact Agree.refl _
      · refine (Agree.refl inner).bind (hi d (t :: vs)) fun arg ts' _ ⟨⟨xs, hxs, hd⟩, _⟩ => ?_
        have shorter := (length_lt_of_expression hxs hd).trans_le hsuf.length_le
        have short : ts'.length ≤ rounds.length := Nat.le_of_lt_succ (shorter.trans_le hr)
        have short' : ts'.length ≤ rounds'.length := Nat.le_of_lt_succ (shorter.trans_le hr')
        exact (ih rounds' short short').bind (argumentsWithin_sound hi rounds short)
          fun _ _ _ _ => Agree.refl _

theorem chainWithin_agree (ho : SoundPrimary operand) (rounds rounds' : List (Except Fault Token))
    (least : Nat) (lhs : Expr) (hr : ts.length ≤ rounds.length) (hr' : ts.length ≤ rounds'.length) :
    Agree (chainWithin operand rounds least lhs) (chainWithin operand rounds' least lhs) d ts := by
  induction rounds generalizing rounds' ts least lhs with
  | nil => exact Agree.no_rounds hr
  | cons r rounds ih =>
    cases rounds' with
    | nil => exact Agree.no_rounds hr'
    | cons r' rounds' =>
      refine Agree.of_cons fun t us hts => ?_
      subst hts
      refine Agree.operatorFrom_bind (Agree.refl _) fun op hop => ?_
      obtain ⟨-, notEnd⟩ := isComment_of_operator? hop
      refine Agree.advance_bind notEnd ((Agree.refl operand).bind (ho d us) ?_)
      intro rhs ts₁ hsuf₁ _
      have short₁ := hsuf₁.length_le.trans (Nat.le_of_succ_le_succ hr)
      have short₁' := hsuf₁.length_le.trans (Nat.le_of_succ_le_succ hr')
      refine (ih rounds' (op.tier + 1) rhs short₁ short₁').bind
        (chainWithin_sound ho rounds _ rhs short₁) fun rhs ts₂ hsuf₂ _ => ?_
      exact ih rounds' least _ (hsuf₂.length_le.trans short₁) (hsuf₂.length_le.trans short₁')

/-- The bound on the rounds of a loop does not show at the cursor. Whichever loop
    of a reading starts there, it does the same with more rounds. -/
structure Unbounded (limit : Int) (c : Cursor) : Prop where
  skip {q : Token → Bool} {rounds : List (Except Fault Token)} :
    (∀ u : Token, u.lexeme = .endOfInput → q u = false) →
    c.remaining.length ≤ rounds.length → skipWithin q rounds c = skip q c
  typeNames {rounds : List (Except Fault Token)} :
    c.remaining.length ≤ rounds.length → typeNamesWithin rounds c = typeNames c
  arguments {levels : Nat} {rounds : List (Except Fault Token)} :
    c.remaining.length ≤ rounds.length →
    argumentsWithin (expressionWithin limit levels) rounds c =
      arguments (expressionWithin limit levels) c
  chain {levels least : Nat} {lhs : Expr} {rounds : List (Except Fault Token)} :
    c.remaining.length ≤ rounds.length →
    chainWithin (primary (expressionWithin limit levels)) rounds least lhs c =
      chain (primary (expressionWithin limit levels)) least lhs c

theorem unbounded (limit : Int) {c : Cursor} (hc : c.Shows d ts) : Unbounded limit c := by
  have all : ts.length ≤ c.remaining.length := Nat.le_of_eq hc.length_remaining.symm
  have enough : ∀ {rounds : List (Except Fault Token)}, c.remaining.length ≤ rounds.length →
      ts.length ≤ rounds.length := fun hr => all.trans hr
  exact
    { skip := fun hq hr => skipWithin_agree hq _ _ (enough hr) all c hc
      typeNames := fun hr => typeNamesWithin_agree _ _ (enough hr) all c hc
      arguments := fun {levels _} hr =>
        argumentsWithin_agree (expressionWithin_sound limit levels) _ _ (enough hr) all c hc
      chain := fun {levels least lhs _} hr =>
        chainWithin_agree (primary_sound (expressionWithin_sound limit levels)) _ _ least lhs
          (enough hr) all c hc }

end Read

/-! ## Runs -/

namespace Session

variable {limit : Int} {count : Nat} {s : Session} {ts : List Token} {o : Outcome}

theorem warnings_collect (s : Session) (e : Failure) :
    (s.collect e).journal.diagnostics.warnings = s.journal.diagnostics.warnings := by
  cases e <;> rfl

theorem warnings_warnFull (s : Session) : ∃ line, s.warnFull.journal.diagnostics.warnings =
    s.journal.diagnostics.warnings ++ [line] := ⟨_, rfl⟩

/-- The run ends on the last of the tokens, or with a warning that there are too
    many errors. Either way it has only moved on. -/
theorem Runs.ends (h : Runs limit .all count s ts o) (shows : s.cursor.Shows 0 ts) :
    ∃ ts', s.cursor.Leads ts o.session.cursor ts' ∧
      (ts'.length = 1 ∧ o.session.journal.diagnostics.warnings = s.journal.diagnostics.warnings ∨
        o.session.journal.diagnostics.isFull = true ∧
          ∃ line, o.session.journal.diagnostics.warnings =
            s.journal.diagnostics.warnings ++ [line]) := by
  induction h with
  | finish _ => exact ⟨_, shows.leads, .inl ⟨rfl, rfl⟩⟩
  | comment _ hm _ ih =>
    obtain ⟨ts', hl, hend⟩ := ih (hm.shows shows)
    exact ⟨ts', hm.leads.trans hl, hm.warnings ▸ hend⟩
  | @item _ s s' _ _ ts₁ _ _ _ _ _ hm _ _ _ ih =>
    have shows' : s'.cursor.Shows 0 ts₁ := hm.shows shows
    obtain ⟨ts', hl, hend⟩ := ih shows'
    refine ⟨ts', hm.leads.trans hl, ?_⟩
    rw [← hm.warnings]
    exact hend
  | objection _ _ _ _ _ hc => exact absurd hc (by simp [Consumer.all])
  | @full _ s s' _ _ ts' e _ _ _ hm _ hfull =>
    refine ⟨ts', cursor_collect s' e ▸ hm.leads, .inr ⟨hfull, ?_⟩⟩
    rw [← hm.warnings, ← warnings_collect s' e]
    exact (s'.collect e).warnings_warnFull
  | @resume _ s s' s'' _ _ _ e _ _ _ _ hm _ _ hm' _ ih =>
    have shows' : (s'.collect e).cursor.Shows 0 _ := cursor_collect s' e ▸ hm.shows shows
    obtain ⟨ts', hl, hend⟩ := ih (hm'.shows shows')
    have same : s''.journal.diagnostics.warnings = s.journal.diagnostics.warnings :=
      hm'.warnings.trans ((warnings_collect s' e).trans hm.warnings)
    have led := cursor_collect s' e ▸ hm'.leads
    exact ⟨ts', hm.leads.trans (led.trans hl), same ▸ hend⟩

end Session

/-! ## Texts -/

/-- The tokens of a text, the end of the input among them. -/
def tokensOf (file text : String) (skip : Bool) : List Token :=
  (TokenStream.start (.ofText file text) skip Diagnostics.standardLimit).rest.tokens

theorem tokensOf_eq {file text : String} {ts : List Token}
    (hs : (Scanner.ofText file text).Splits ts) (skip : Bool) :
    tokensOf file text skip = shown skip ts :=
  (TokenStream.rest_of_splits (s := TokenStream.start (.ofText file text) skip _) hs).2.1

/-- The reading of a program ends, whatever the text is like. Its cursor stands on
    the last of the tokens it has fetched, which are the first ones of the text,
    each fetched once. They are all tokens of the text unless there were too many
    errors. -/
theorem readProgram_fetches (file text : String) (skip : Bool) (nesting : Int) (journal : Journal)
    (fit : NumbersFit text.toList) :
    let tokens := tokensOf file text skip
    let o := readProgram (.ofText file text) skip nesting .all journal
    let c := o.session.cursor
    let found := o.session.journal.diagnostics
    (∀ {d : Nat} {ts : List Token} {start : Cursor}, start.Shows d ts → Read.Unbounded nesting start) ∧
      o.stop = none ∧ Ended tokens ∧ 0 < c.taken ∧ c.taken ≤ tokens.length ∧
      c.remaining = (tokens.drop (c.taken - 1)).map .ok ∧
      (c.taken = tokens.length ∧ found.warnings = journal.diagnostics.warnings ∨
        found.isFull = true ∧ ∃ line, found.warnings = journal.diagnostics.warnings ++ [line]) := by
  intro tokens o c found
  obtain ⟨ts, hts⟩ := Scanner.splits_ofText file fit
  obtain ⟨s, opens, run⟩ := runs_readProgram hts skip nesting .all journal
  obtain ⟨ts', hl, hend⟩ := run.ends opens.shows
  have htokens : tokens = shown skip ts := tokensOf_eq hts skip
  rw [htokens, ← opens.warnings]
  have count : c.taken + ts'.length = 1 + (shown skip ts).length := opens.taken ▸ hl.taken
  have pos := List.length_pos_iff.2 hl.shows.ended.ne_nil
  have fewer := hl.suffix.length_le
  refine ⟨fun hc => Read.unbounded nesting hc, run.stop_eq_none, opens.shows.ended,
    by omega, by omega, ?_, hend.imp_left fun ⟨hlast, same⟩ => ⟨by omega, same⟩⟩
  have left : c.taken - 1 = (shown skip ts).length - ts'.length := by omega
  rw [left, ← List.suffix_iff_eq_drop.1 hl.suffix]
  exact hl.shows.remaining

/-- A call that is never closed, with statements that fail inside. -/
theorem readProgram_fetches_open_call :
    let text := "f (. $m ; c\n? 1.2.3"
    let o := readProgram (.ofText "main" text) false 2 .all (.empty 5)
    NumbersFit text.toList ∧ (tokensOf "main" text false).length = 9 ∧
      o.session.cursor.taken = 9 := by
  intro text o
  have fit : NumbersFit text.toList := by decide +kernel
  have length : (tokensOf "main" text false).length = 9 := by decide +kernel
  obtain ⟨-, -, -, -, -, -, ⟨all, -⟩ | ⟨full, -⟩⟩ :=
    readProgram_fetches "main" text false 2 (.empty 5) fit
  · exact ⟨fit, length, all.trans length⟩
  · exact absurd full (by decide +kernel)

end Soul
