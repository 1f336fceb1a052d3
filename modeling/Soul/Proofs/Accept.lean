import Soul.Proofs.Complete
import Soul.Proofs.Run

/-!
# The language that is read without errors

A text is read without errors if and only if its tokens make up a program
(`readProgram_clean_iff`), where comments are dropped beforehand and more
expressions may be inside each other than there are tokens.

From left to right, each statement that is read is one of the grammar, and a
failed one leaves an error: its own, or that of the token it fails at, which has
been collected before. From right to left, no statement fails, and no token of a
program has an error of its own.
-/

namespace Soul

open Grammar Read

/-- The errors collected when the reading of a program ends. -/
abbrev Outcome.errors (o : Outcome) : List Diagnostic := o.session.errors

theorem Diagnostics.rejection?_eq_none {ds : Diagnostics} (h : ds.errors = []) :
    ds.rejection? = none := by
  simp [rejection?, hasErrors, h]

/-! ## Tokens of the grammar -/

theorem Token.diagnostic?_of_kind {t : Token} (h : t.kind ≠ .invalid) : t.diagnostic? = none := by
  unfold diagnostic?
  split
  · next cause hlex => exact absurd (by simp [kind, hlex, Lexeme.kind]) h
  · rfl

namespace Grammar

theorem IsSign.kind_ne_invalid {t : Token} (h : IsSign t) : t.kind ≠ .invalid := by
  rcases h with h | h <;> simp [h]

theorem IsLiteral.kind_ne_invalid {t : Token} (h : IsLiteral t) : t.kind ≠ .invalid := by
  rcases h with h | h | h <;> simp [h]

theorem Derives.kind_ne_invalid {part : Part} {ts : List Token} (h : Derives part ts) :
    ∀ t ∈ ts, t.kind ≠ .invalid := by
  induction h with
  | noOperand | noArgument => simp
  | expression _ _ ih ih' | argument _ _ ih ih' => exact List.forall_mem_append.2 ⟨ih, ih'⟩
  | operand hop _ _ ih ih' =>
    obtain ⟨op, hk, -⟩ := hop
    simpa [hk, or_imp, forall_and] using ⟨ih, ih'⟩
  | named hk => simp [hk]
  | call hname hleft _ hright ih => simpa [hname, hleft, hright, or_imp, forall_and] using ih
  | literal h => simpa using h.kind_ne_invalid
  | declaration hsign hname => simpa [hname] using hsign.kind_ne_invalid
  | initialized hsign hname hequals _ ih =>
    simpa [hname, hequals] using ⟨hsign.kind_ne_invalid, ih⟩
  | parenthesized hleft _ hright ih => simpa [hleft, hright, or_imp, forall_and] using ih

theorem IsParameters.kind_ne_invalid {n : Nat} {ts : List Token} (h : IsParameters n ts) :
    ∀ t ∈ ts, t.kind ≠ .invalid := by
  induction h with
  | none => simp
  | more hsign hname _ ih => simpa [hname] using ⟨hsign.kind_ne_invalid, ih⟩

theorem IsPrototype.kind_ne_invalid {ts : List Token} (h : IsPrototype ts) :
    ∀ t ∈ ts, t.kind ≠ .invalid := by
  cases h with
  | @intro _ _ _ types result _ hname hbar htypes hresult hparameters hequals =>
    have inTypes : ∀ t ∈ types, t.kind ≠ .invalid := fun t ht => by simp [htypes t ht]
    have inResult : ∀ t ∈ result, t.kind ≠ .invalid := by
      cases hresult with
      | none => exact List.forall_mem_nil _
      | some harrow htype => simp [harrow, htype]
    simpa [hname, hbar, hequals, or_imp, forall_and] using
      ⟨inTypes, inResult, hparameters.kind_ne_invalid⟩

theorem Statements.kind_ne_invalid {follows : Bool} {ts : List Token} (h : Statements follows ts) :
    ∀ t ∈ ts, t.kind ≠ .invalid := by
  induction h with
  | none => simp
  | use huse _ ih =>
    refine List.forall_mem_append.2 ⟨?_, ih⟩
    cases huse with
    | module hdollar hname => simp [hdollar, hname]
    | member hdollar hname hcolon hmember => simp [hdollar, hname, hcolon, hmember]
  | define hdot _ hprototype hbody _ ih =>
    simpa [hdot, or_imp, forall_and] using
      ⟨hprototype.kind_ne_invalid, hbody.kind_ne_invalid, ih⟩
  | evaluate hbody _ ih => exact List.forall_mem_append.2 ⟨hbody.kind_ne_invalid, ih⟩

/-- Where no operator comes first, statements may stand behind an expression. -/
theorem Statements.behind {ts : List Token} (h : Statements false ts) (halts : Halts 0 ts) :
    Statements true ts := by
  cases h with
  | none => exact .none
  | use huse hothers => exact .use huse hothers
  | evaluate hbody hothers => exact .evaluate hbody hothers
  | @define _ dot _ _ _ hdot _ hprototype hbody hothers =>
    refine .define hdot (fun _ => ?_) hprototype hbody hothers
    -- A dot elsewhere on its line would be an operator.
    by_contra hline
    have op : dot.operator? = some .dot := by
      simp [Token.operator?, Token.kind_eq_operator.1 hdot, hline]
    exact absurd (halts dot rfl .dot op) (Nat.not_lt_zero _)

end Grammar

theorem Read.Ready.diagnostic? {follows : Bool} {ts : List Token} (h : Ready follows ts) :
    ∀ t ∈ ts, t.diagnostic? = none := by
  obtain ⟨us, e, rfl, he, hus⟩ := h
  intro t ht
  refine Token.diagnostic?_of_kind ?_
  rcases List.mem_append.1 ht with ht | ht
  · exact hus.kind_ne_invalid t ht
  · rw [List.mem_singleton.1 ht]
    simp [Token.kind, he, Lexeme.kind]

/-! ## Runs without errors -/

namespace Session

variable {limit : Int} {count : Nat} {s s' : Session} {ts ts' : List Token} {o : Outcome}
  {e : Failure}

theorem errors_collect_kept (s : Session) (e : Failure) : s.errors <+: (s.collect e).errors := by
  cases e with
  | violation d => exact List.prefix_append s.errors [d]
  | invalid d | fault f => exact List.prefix_rfl

/-- Errors that have been collected stay. -/
theorem Runs.errors_kept {consumer : Consumer} (h : Runs limit consumer count s ts o) :
    s.errors <+: o.errors := by
  induction h with
  | finish _ => exact List.prefix_rfl
  | comment _ hm _ ih | item _ _ _ hm _ _ _ ih => exact hm.errors_kept.trans ih
  | objection _ _ _ hm _ _ => exact hm.errors_kept
  | full _ _ _ hm _ _ => exact hm.errors_kept.trans (errors_collect_kept _ _)
  | resume _ _ _ hm _ _ hm' _ ih =>
    exact hm.errors_kept.trans ((errors_collect_kept _ _).trans (hm'.errors_kept.trans ih))

theorem Runs.stop_eq_none (h : Runs limit .all count s ts o) : o.stop = none := by
  induction h with
  | finish _ | full _ _ _ _ _ _ => rfl
  | comment _ _ _ ih | item _ _ _ _ _ _ _ ih | resume _ _ _ _ _ _ _ _ ih => exact ih
  | objection _ _ _ _ _ hc => exact absurd hc (by simp [Consumer.all])

/-- A statement that fails leaves an error behind. -/
theorem errors_collect_ne_nil (hs : s.Noted ts) (he : Refused e ts) : (s.collect e).errors ≠ [] := by
  cases he with
  | invalid hdiag => exact List.ne_nil_of_mem (hs _ rfl _ hdiag)
  | violation => exact List.concat_ne_nil _ _

/-- Without comments, what is passed over is what is made use of. -/
theorem eq_append_of_passed {us : List Token} (h : Passed ts ts' us)
    (bare : ∀ t ∈ ts, t.isComment = false) : ts = us ++ ts' := by
  obtain ⟨used, rfl, rfl⟩ := h
  rw [Soul.bare, List.filter_eq_self.2]
  intro t ht
  simp [bare t (List.mem_append_left _ ht)]

/-- What is read without errors is a program. -/
theorem Runs.statements (h : Runs limit .all count s ts o) (shows : s.cursor.Shows 0 ts)
    (noted : s.Noted ts) (bare : ∀ t ∈ ts, t.isComment = false) (he : o.errors = []) :
    Statements false ts.dropLast := by
  induction h with
  | finish _ => exact .none
  | comment ht _ _ _ => exact absurd (bare _ List.mem_cons_self) (by simp [ht])
  | @item _ s s' t ts ts' _ _ _ _ _ hm sound _ _ ih =>
    obtain ⟨us, follows, passed, -, halts, adds⟩ := sound
    have shows' := hm.shows shows
    have split := eq_append_of_passed passed bare
    have bare' : ∀ t ∈ ts', t.isComment = false := fun t ht =>
      bare t (split ▸ List.mem_append_right _ ht)
    have others := ih shows' (hm.noted noted) bare' he
    rw [split, List.dropLast_append_of_ne_nil shows'.ended.ne_nil]
    refine adds _ ?_
    cases follows with
    | false => exact others
    | true =>
      -- What was read would have gone on with an operator, had there been one.
      refine others.behind fun u hu op hop => halts rfl u ?_ op hop
      obtain ⟨us', hus'⟩ := List.head?_eq_some_iff.1 hu
      obtain ⟨last, hlast⟩ := List.dropLast_prefix ts'
      rw [← hlast, hus']
      rfl
  | objection _ _ _ _ _ hc => exact absurd hc (by simp [Consumer.all])
  | full _ _ _ hm refused _ => exact absurd he (errors_collect_ne_nil (hm.noted noted) refused)
  | resume _ _ _ hm refused _ hm' run _ =>
    -- The error of the failed statement is still there at the end.
    have kept := hm'.errors_kept.trans run.errors_kept
    rw [he] at kept
    exact absurd (List.prefix_nil.1 kept) (errors_collect_ne_nil (hm.noted noted) refused)

theorem Moves.diagnostics_eq (h : s.Moves ts s' ts') (valid : ∀ t ∈ ts, t.diagnostic? = none) :
    s'.journal.diagnostics = s.journal.diagnostics := by
  have none : errorsBetween ts ts' = [] :=
    List.filterMap_eq_nil_iff.2 fun t ht =>
      valid t (List.mem_of_mem_tail (List.mem_of_mem_take ht))
  have errors := h.errors
  rw [none, List.append_nil] at errors
  rw [Diagnostics.mk.injEq]
  exact ⟨h.limit, errors, h.warnings⟩

/-- A program is read without a change to the diagnostics. -/
theorem Runs.diagnostics_eq {follows : Bool} (h : Runs limit .all count s ts o)
    (shows : s.cursor.Shows 0 ts) (ready : Ready follows ts) (hn : (ts.length : Int) ≤ limit) :
    o.session.journal.diagnostics = s.journal.diagnostics := by
  induction h generalizing follows with
  | finish _ => rfl
  | comment ht _ _ _ => exact absurd ready.isComment (by simp [ht])
  | @item _ s s' t ts ts' item o notEnd _ hp hm _ _ _ ih =>
    obtain ⟨_, _, ts₁, hp₁, hm₁, follows', ready'⟩ | ⟨_, _, _, _, _, never⟩ :=
      perform_cases shows (item_complete limit ready notEnd hn)
    · obtain ⟨-, rfl⟩ := Prod.mk.inj (hp.symm.trans hp₁)
      obtain rfl := hm.leads.shows.unique hm₁.leads.shows
      have fewer := hm.leads.suffix.length_le
      have shows' : s'.cursor.Shows 0 ts' := hm.shows shows
      exact (ih shows' ready' (by omega)).trans (hm.diagnostics_eq ready.diagnostic?)
    · exact never.elim
  | objection _ _ _ _ _ hc => exact absurd hc (by simp [Consumer.all])
  | full notEnd _ hp _ _ _ | resume notEnd _ hp _ _ _ _ _ _ =>
    -- No statement of a program fails.
    obtain ⟨_, _, _, hp₁, -⟩ | ⟨_, _, _, _, _, never⟩ :=
      perform_cases shows (item_complete limit ready notEnd hn)
    · exact absurd (hp.symm.trans hp₁) (by simp)
    · exact never.elim

end Session

theorem Ended.exists_concat {ts : List Token} (h : Ended ts) :
    ∃ us e, ts = us ++ [e] ∧ e.lexeme = .endOfInput := by
  induction h with
  | @last t ht => exact ⟨[], t, rfl, ht⟩
  | @cons t _ _ _ ih =>
    obtain ⟨us, e, rfl, he⟩ := ih
    exact ⟨t :: us, e, rfl, he⟩

/-- The tokens of a text in front of the end of the input. Comments are passed
    over. -/
def programTokens (file text : String) (limit : Int) : List Token :=
  (TokenStream.start (.ofText file text) true limit).rest.tokens.dropLast

/-- Exactly the programs are read without any diagnostic. -/
theorem readProgram_clean_iff (file text : String) (nesting limit : Int)
    (fit : NumbersFit text.toList)
    (deep : ((programTokens file text limit).length : Int) < nesting) :
    let o := readProgram (.ofText file text) true nesting .all (.empty limit)
    o.stop = none ∧
      (o.session.journal.diagnostics = .empty limit ↔ IsProgram (programTokens file text limit)) := by
  intro o
  obtain ⟨ts, hts⟩ := Scanner.splits_ofText file fit
  obtain ⟨s, opens, run⟩ := runs_readProgram hts true nesting .all (.empty limit)
  have tokens : programTokens file text limit = (shown true ts).dropLast :=
    congrArg List.dropLast (TokenStream.rest_of_splits
      (s := TokenStream.start (.ofText file text) true limit) hts).2.1
  rw [tokens] at deep ⊢
  refine ⟨run.stop_eq_none, fun clean => ?_, fun program => ?_⟩
  · refine run.statements opens.shows opens.noted ?_ (congrArg Diagnostics.errors clean)
    intro t ht
    simpa using (List.mem_filter.1 ht).2
  · obtain ⟨us, e, hus, he⟩ := opens.shows.ended.exists_concat
    rw [hus, List.dropLast_concat] at program deep
    have ready : Ready false (shown true ts) := ⟨us, e, hus, he, program⟩
    have few : ((shown true ts).length : Int) ≤ nesting := by
      rw [hus, List.length_append, List.length_singleton]
      omega
    have first : ((shown true ts).take 1).filterMap Token.diagnostic? = [] :=
      List.filterMap_eq_nil_iff.2 fun t ht => ready.diagnostic? t (List.mem_of_mem_take ht)
    have errors := opens.errors
    rw [first] at errors
    calc o.session.journal.diagnostics = s.journal.diagnostics :=
          run.diagnostics_eq opens.shows ready few
      _ = .empty limit := by
        rw [Diagnostics.empty, Diagnostics.mk.injEq]
        exact ⟨opens.limit, errors, opens.warnings⟩

/-- A call, and a definition on the next line whose dot is no operator. -/
theorem readProgram_clean_iff_call_definition :
    let text := "f (x)\n.g|A 'p = ,a = p + 1"
    NumbersFit text.toList ∧ ((programTokens "main" text 100).length : Int) < 100 ∧
      IsProgram (programTokens "main" text 100) := by
  intro text
  have fit : NumbersFit text.toList := by decide +kernel
  have deep : ((programTokens "main" text 100).length : Int) < 100 := by decide +kernel
  refine ⟨fit, deep, (readProgram_clean_iff "main" text 100 100 fit deep).2.1 ?_⟩
  decide +kernel

end Soul
