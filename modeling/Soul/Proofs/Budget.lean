import Soul.Proofs.CommentFree
import Soul.Proofs.Report

/-!
# Too many errors

A reading ends when a statement fails and the collection of errors is full by
then. How much room is left is all that it takes from what has been collected
before.

* `readProgram_shared`: behind errors that were collected earlier, a text is read as
  with a fresh collection that has room for as many errors as are left. The same
  errors are added, whether or not there are equal ones already.
* `FrontEnd.run_lower_limit`: with a lower limit a run is the same, or it ends
  earlier and then gives a warning.
* `FrontEnd.run_overrun`: the limit may be passed, by the errors of tokens that are
  none of the language. They are collected where the reading moves over them, and
  the limit counts only when the next statement fails.

For the first two, two runs are kept alongside each other. Both stand on the same
token, and the second has collected what the first has, behind what was found
earlier (`Session.Shares`). As the second has at least as much room, it is not
full before the first is.
-/

namespace Soul

/-- The warnings collected when the reading of a program ends. -/
abbrev Outcome.warnings (o : Outcome) : List String := o.session.journal.diagnostics.warnings

theorem Cursor.Shows.ext {c c' : Cursor} {d : Nat} {ts : List Token} (h : c.Shows d ts)
    (h' : c'.Shows d ts) (taken : c'.taken = c.taken) : c' = c := by
  obtain ⟨t, us, rfl⟩ := h.ended.exists_cons
  rw [Cursor.mk.injEq]
  exact ⟨h'.current_eq.trans h.current_eq.symm, h'.ahead_eq.trans h.ahead_eq.symm, taken,
    h'.depth.trans h.depth.symm⟩

/-! ## Runs alongside each other -/

namespace Outcome

variable {earlier : Diagnostics} {o o' : Outcome} {item : Item}

/-- Both readings have come to the same end, the second one behind what was found
    earlier. -/
structure Shares (earlier : Diagnostics) (o o' : Outcome) : Prop where
  items : o'.items = o.items
  cursor : o'.session.cursor = o.session.cursor
  errors : o'.errors = earlier.errors ++ o.errors
  warnings : ∃ added, o'.warnings = earlier.warnings ++ added ∧ added.length = o.warnings.length

/-- The first reading has ended for too many errors, where the second one had room
    for more. -/
structure CutOff (earlier : Diagnostics) (o o' : Outcome) : Prop where
  items : o.items <+: o'.items
  errors : earlier.errors ++ o.errors <+: o'.errors
  failed : o.errors ≠ []
  warned : o.warnings ≠ []
  room : o.session.journal.diagnostics.limit < earlier.limit - earlier.errors.length

theorem Shares.behind (h : Shares earlier o o') :
    Shares earlier (o.behind [item]) (o'.behind [item]) :=
  { h with items := congrArg (List.cons item) h.items }

theorem CutOff.behind (h : CutOff earlier o o') :
    CutOff earlier (o.behind [item]) (o'.behind [item]) :=
  { h with items := List.cons_prefix_cons.2 ⟨rfl, h.items⟩ }

end Outcome

namespace Session

variable {earlier : Diagnostics} {limit : Int} {count : Nat} {s s' s₁ s₁' : Session}
  {t : Token} {ts ts' : List Token} {o o' : Outcome} {e : Failure}

theorem Noted.collect (h : s.Noted ts) (e : Failure) : (s.collect e).Noted ts :=
  fun t ht diag hdiag => (errors_collect_kept s e).subset (h t ht diag hdiag)

/-- The sessions stand on the same token. The second one has collected what the
    first one has, behind what was found earlier, and has at least as much room. -/
structure Shares (earlier : Diagnostics) (s s' : Session) : Prop where
  cursor : s'.cursor = s.cursor
  errors : s'.errors = earlier.errors ++ s.errors
  warnings : s'.journal.diagnostics.warnings = earlier.warnings ++ s.journal.diagnostics.warnings
  limit : s'.journal.diagnostics.limit = earlier.limit
  room : s.journal.diagnostics.limit ≤ earlier.limit - earlier.errors.length

namespace Shares

theorem perform {α : Type} {p : Read α} {r : Except Failure α} (h : Shares earlier s s')
    (hp : s.perform p = (r, s₁)) : ∃ s₁', s'.perform p = (r, s₁') ∧ s₁'.cursor = s₁.cursor := by
  unfold Session.perform at hp ⊢
  rw [h.cursor]
  cases hc : p s.cursor <;> rw [hc] at hp <;> cases hp <;> exact ⟨_, rfl, rfl⟩

theorem moves (h : Shares earlier s s') (hm : s.Moves ts s₁ ts') (hm' : s'.Moves ts s₁' ts') :
    Shares earlier s₁ s₁' where
  cursor := by
    have led := hm'.leads
    rw [h.cursor] at led
    have := hm.leads.taken
    have := led.taken
    exact hm.leads.shows.ext led.shows (by omega)
  errors := by rw [hm'.errors, h.errors, hm.errors, List.append_assoc]
  warnings := by rw [hm'.warnings, h.warnings, hm.warnings]
  limit := hm'.limit.trans h.limit
  room := hm.limit ▸ h.room

theorem collect (h : Shares earlier s s') (e : Failure) :
    Shares earlier (s.collect e) (s'.collect e) := by
  cases e with
  | violation d =>
    have errors : s'.errors ++ [d] = earlier.errors ++ (s.errors ++ [d]) := by
      rw [h.errors, List.append_assoc]
    exact ⟨h.cursor, errors, h.warnings, h.limit, h.room⟩
  | invalid _ | fault _ => exact h

theorem length_errors (h : Shares earlier s s') :
    s'.journal.diagnostics.errors.length =
      earlier.errors.length + s.journal.diagnostics.errors.length :=
  (congrArg List.length h.errors).trans List.length_append

/-- The second collection is not full before the first one is. -/
theorem isFull (h : Shares earlier s s') (full : s'.journal.diagnostics.isFull = true) :
    s.journal.diagnostics.isFull = true := by
  have := h.length_errors
  have := h.limit
  have := h.room
  rw [Diagnostics.isFull_iff] at full ⊢
  omega

theorem room_of_isFull (h : Shares earlier s s') (full : s.journal.diagnostics.isFull = true)
    (room : s'.journal.diagnostics.isFull = false) :
    s.journal.diagnostics.limit < earlier.limit - earlier.errors.length := by
  have := h.length_errors
  have := h.limit
  rw [Diagnostics.isFull_iff] at full
  rw [← Bool.not_eq_true, Diagnostics.isFull_iff] at room
  omega

/-- A statement that fails in the first session fails in the second one too, with
    the same error. -/
theorem of_failed (h : Shares earlier s s') (hm : s.Moves (t :: ts) s₁ ts')
    (hp : s.perform (Read.item limit) = (.error e, s₁)) (ht : t.lexeme ≠ .endOfInput)
    (hc : t.isComment = false) (h' : Runs limit .all count s' (t :: ts) o') :
    ∃ s₁' : Session, Shares earlier (s₁.collect e) (s₁'.collect e) ∧
      ((s₁'.collect e).journal.diagnostics.isFull = true ∧
          o' = (s₁'.collect e).warnFull.finish none ∨
        (s₁'.collect e).journal.diagnostics.isFull = false ∧
          ∃ s₂', (s₁'.collect e).Moves ts' s₂' (ts'.dropWhile (!Read.isResumption ·)) ∧
            Runs limit .all count s₂' (ts'.dropWhile (!Read.isResumption ·)) o') := by
  obtain ⟨s₁', hp', cursor⟩ := h.perform hp
  obtain ⟨ts₁, hm', ends⟩ := h'.of_failed ht hc hp'
  obtain rfl := hm.leads.shows.unique (cursor ▸ hm'.leads.shows)
  exact ⟨s₁', (h.moves hm hm').collect e, ends⟩

end Shares

/-- The runs come to the same end, or the first one is cut off. -/
theorem Runs.shares (h : Runs limit .all count s ts o) (h' : Runs limit .all count s' ts o')
    (noted : s.Noted ts) (hs : Shares earlier s s') :
    Outcome.Shares earlier o o' ∨ Outcome.CutOff earlier o o' := by
  induction h generalizing s' o' with
  | finish he =>
    obtain rfl := h'.of_end he
    exact .inl ⟨rfl, hs.cursor, hs.errors, _, hs.warnings, rfl⟩
  | comment ht hm _ ih =>
    obtain ⟨_, hm', run'⟩ := h'.of_comment ht
    exact ih run' (hm.noted noted) (hs.moves hm hm')
  | item hne hc hp hm _ taken _ ih =>
    obtain ⟨s₁', hp', cursor⟩ := hs.perform hp
    obtain ⟨ts₁', o₁', hm', run', rfl⟩ := h'.of_ok hne hc hp' taken
    obtain rfl := hm.leads.shows.unique (cursor ▸ hm'.leads.shows)
    have moved := hs.moves hm hm'
    exact (ih run' (hm.noted noted)
      ⟨moved.cursor, moved.errors, moved.warnings, moved.limit, moved.room⟩).imp .behind .behind
  | objection _ _ _ _ _ hd => exact absurd hd (by simp [Consumer.all])
  | @full _ _ s₁ _ _ _ e hne hc hp hm refused full =>
    obtain ⟨line, warned⟩ := (s₁.collect e).warnings_warnFull
    obtain ⟨s₁', collected, ⟨_, rfl⟩ | ⟨notFull, s₂, hm₂, run'⟩⟩ := hs.of_failed hm hp hne hc h'
    · -- Both give a warning. The numbers of errors in them may differ.
      obtain ⟨line', warned'⟩ := (s₁'.collect e).warnings_warnFull
      rw [collected.warnings, List.append_assoc] at warned'
      refine .inl ⟨rfl, collected.cursor, collected.errors, _, warned', ?_⟩
      refine Eq.trans ?_ (congrArg List.length warned.symm)
      simp only [List.length_append, List.length_singleton]
    · -- What the second run has collected by now stays.
      have kept := hm₂.errors_kept.trans run'.errors_kept
      rw [collected.errors] at kept
      exact .inr ⟨List.nil_prefix, kept, errors_collect_ne_nil (hm.noted noted) refused,
        fun none => List.concat_ne_nil _ _ (warned.symm.trans none),
        collected.room_of_isFull full notFull⟩
  | @resume _ _ s₁ _ _ _ _ e _ hne hc hp hm _ notFull hm₂ _ ih =>
    obtain ⟨s₁', collected, ⟨full, _⟩ | ⟨_, s₂', hm₂', run'⟩⟩ := hs.of_failed hm hp hne hc h'
    · exact absurd (notFull.symm.trans (collected.isFull full)) (by simp)
    · exact ih run' (hm₂.noted (Noted.collect (hm.noted noted) e)) (collected.moves hm₂ hm₂')

theorem Opens.shares {journal journal' : Journal} (h : s.Opens journal ts)
    (h' : s'.Opens journal' ts) (fresh : journal.diagnostics = .empty limit)
    (room : limit ≤ journal'.diagnostics.limit - journal'.diagnostics.errors.length) :
    Shares journal'.diagnostics s s' where
  cursor := h.shows.ext h'.shows (h'.taken.trans h.taken.symm)
  errors := by
    rw [h'.errors, h.errors, fresh]
    rfl
  warnings := by
    rw [h'.warnings, h.warnings, fresh]
    exact (List.append_nil _).symm
  limit := h'.limit
  room := by
    rw [h.limit, fresh]
    exact room

end Session

/-- The reading of a text with a fresh collection, and with another one that has
    at least as much room. -/
theorem readProgram_shares (file : String) {text : String} (fit : NumbersFit text.toList)
    (skip : Bool) (nesting : Int) {limit : Int} (journal journal' : Journal)
    (fresh : journal.diagnostics = .empty limit)
    (room : limit ≤ journal'.diagnostics.limit - journal'.diagnostics.errors.length) :
    let o := readProgram (.ofText file text) skip nesting .all journal
    let o' := readProgram (.ofText file text) skip nesting .all journal'
    o.stop = none ∧ o'.stop = none ∧
      (Outcome.Shares journal'.diagnostics o o' ∨ Outcome.CutOff journal'.diagnostics o o' ∧
        limit < journal'.diagnostics.limit - journal'.diagnostics.errors.length) := by
  intro o o'
  obtain ⟨ts, hts⟩ := Scanner.splits_ofText file fit
  obtain ⟨s, opens, run⟩ := runs_readProgram hts skip nesting .all journal
  obtain ⟨s', opens', run'⟩ := runs_readProgram hts skip nesting .all journal'
  have limit_eq : o.session.journal.diagnostics.limit = limit := by
    rw [run.limit_eq, opens.limit, fresh]
    rfl
  refine ⟨run.stop_eq_none, run'.stop_eq_none, ?_⟩
  refine (run.shares run' opens.noted (opens.shares opens' fresh room)).imp_right fun cut => ?_
  exact ⟨cut, limit_eq ▸ cut.room⟩

/-- Whatever has been collected before, a text is read as with a fresh collection
    that has room for as many errors as are left. What was there stays, and the same
    errors are added behind it, and a warning if there is one. -/
theorem readProgram_shared (file text : String) (skip : Bool) (nesting : Int) (journal : Journal)
    (fit : NumbersFit text.toList) :
    let held := journal.diagnostics
    let shared := readProgram (.ofText file text) skip nesting .all journal
    let fresh := readProgram (.ofText file text) skip nesting .all
      (.empty (held.limit - held.errors.length))
    shared.stop = none ∧ fresh.stop = none ∧ shared.program = fresh.program ∧
      shared.session.cursor.taken = fresh.session.cursor.taken ∧
      shared.errors = held.errors ++ fresh.errors ∧
      ∃ added, shared.warnings = held.warnings ++ added ∧
        added.length = fresh.warnings.length := by
  intro held shared fresh
  obtain ⟨stop, stop', shares | ⟨-, less⟩⟩ :=
    readProgram_shares file fit skip nesting (.empty (held.limit - held.errors.length)) journal
      rfl (Int.le_refl _)
  · refine ⟨stop', stop, ?_, congrArg Cursor.taken shares.cursor, shares.errors, shares.warnings⟩
    unfold Outcome.program
    rw [shares.items, shares.cursor]
  · exact absurd less (Int.lt_irrefl _)

/-- The same text again. Its errors are collected a second time. -/
theorem readProgram_shared_again :
    let text := ") ? $m"
    let first := readProgram (.ofText "main" text) false 100 .all (.empty 5)
    let second := readProgram (.ofText "main" text) false 100 .all first.session.journal
    let fresh := readProgram (.ofText "main" text) false 100 .all (.empty 3)
    NumbersFit text.toList ∧ first.errors.length = 2 ∧ second.program = fresh.program ∧
      second.errors = first.errors ++ first.errors := by
  intro text first second fresh
  have fit : NumbersFit text.toList := by decide +kernel
  have left : first.session.journal.diagnostics.limit -
      first.session.journal.diagnostics.errors.length = 3 := by decide +kernel
  have same : fresh.errors = first.errors := by decide +kernel
  obtain ⟨-, -, program, -, errors, -⟩ :=
    readProgram_shared "main" text false 100 first.session.journal fit
  rw [left] at program errors
  have both : second.errors = first.errors ++ fresh.errors := errors
  rw [same] at both
  exact ⟨fit, by decide +kernel, program, both⟩

/-! ## Lower limits -/

namespace Outcome

variable {o o' : Outcome} {file : String} {strict : Bool} {limit : Int}

theorem diagnostics_run_noteResult (o : Outcome) (file : String) (strict : Bool) :
    ((o.noteResult file).run file strict).journal.diagnostics =
      o.session.journal.diagnostics := by
  have same (o : Outcome) : (o.run file strict).journal = o.session.journal := by
    dsimp only [run]
    split <;> rfl
  rw [same]
  unfold noteResult
  split <;> rfl

/-- A reading that has not broken off gives a result, if errors are no obstacle. -/
theorem run_noteResult_eq_ok {parsed : Parsed} (stop : o.stop = none) :
    ((o.noteResult file).run file strict).result = .ok parsed ↔
      (strict = true → o.errors = []) ∧ parsed = o.result file := by
  rw [(run_noteResult file strict stop).2]
  cases strict with
  | false => simp [eq_comm]
  | true =>
    by_cases errors : o.errors = []
    · simp [Diagnostics.rejection?_eq_none errors, errors, eq_comm]
    · simp [Diagnostics.rejection?, Diagnostics.hasErrors, errors]

/-- Where nothing was found earlier, the first reading has given the first items and
    errors of the second one. -/
theorem shorter (h : Shares (.empty limit) o o' ∨ CutOff (.empty limit) o o') :
    o.items <+: o'.items ∧ o.errors <+: o'.errors ∧ (o.errors = [] → o'.errors = []) := by
  obtain shares | cut := h
  · have errors : o'.errors = o.errors := shares.errors
    exact ⟨shares.items ▸ List.prefix_rfl, errors ▸ List.prefix_rfl, errors.trans⟩
  · exact ⟨cut.items, cut.errors, fun none => absurd none cut.failed⟩

/-- Where nothing was found earlier and there is no warning, both give the same. -/
theorem Shares.run_eq (h : Shares (.empty limit) o o') (stop : o.stop = none)
    (stop' : o'.stop = none) (quiet : o.warnings = []) :
    ((o'.noteResult file).run file strict).result = ((o.noteResult file).run file strict).result ∧
      o'.warnings = [] := by
  have errors : o'.errors = o.errors := h.errors
  have warnings : o'.warnings = [] := by
    obtain ⟨added, hadded, count⟩ := h.warnings
    rw [quiet] at count
    rw [hadded, List.eq_nil_of_length_eq_zero count]
    rfl
  have rejection : o'.session.journal.diagnostics.rejection? =
      o.session.journal.diagnostics.rejection? := by
    simp only [Diagnostics.rejection?, Diagnostics.hasErrors, Diagnostics.report,
      Diagnostics.messages, errors, warnings, quiet]
  have result : o'.result file = o.result file := by
    simp only [result, program, h.items, h.cursor, errors]
  refine ⟨?_, warnings⟩
  rw [(run_noteResult file strict stop).2, (run_noteResult file strict stop').2, rejection, result]

end Outcome

/-- With a lower limit, the items and the errors of a run are the first ones of
    what they are otherwise. If there is no warning, the runs give the same. -/
theorem FrontEnd.run_lower_limit (options : Options) (limit : Int) (file text : String)
    (fit : NumbersFit text.toList) (lower : limit ≤ options.limit) :
    let short := FrontEnd.run { options with limit := limit } .all (.ofText file text)
    let long := FrontEnd.run options .all (.ofText file text)
    let found := short.journal.diagnostics
    let found' := long.journal.diagnostics
    short.items <+: long.items ∧ found.errors <+: found'.errors ∧
      (options.strict = false → ∃ parsed, short.result = .ok parsed) ∧
      (∀ parsed, short.result = .ok parsed → ∃ parsed', long.result = .ok parsed' ∧
        parsed.program.items <+: parsed'.program.items ∧
        parsed.diagnostics <+: parsed'.diagnostics) ∧
      (found.warnings = [] → long.result = short.result ∧ long.items = short.items ∧
        found'.errors = found.errors ∧ found'.warnings = []) := by
  intro short long found found'
  let journal (limit : Int) := (Journal.empty limit).note .frontEnd ("Parsing " ++ file)
  let read (limit : Int) :=
    readProgram (.ofText file text) options.skipComments standardNesting .all (journal limit)
  obtain ⟨stop, stop', ends⟩ : (read limit).stop = none ∧ (read options.limit).stop = none ∧
      (Outcome.Shares (.empty options.limit) (read limit) (read options.limit) ∨
        Outcome.CutOff (.empty options.limit) (read limit) (read options.limit) ∧ _) :=
    readProgram_shares file fit options.skipComments standardNesting (journal limit)
      (journal options.limit) rfl (by simpa [journal, Journal.empty, Diagnostics.empty] using lower)
  have hitems : short.items = (read limit).items :=
    (Outcome.run_noteResult file options.strict stop).1
  have hitems' : long.items = (read options.limit).items :=
    (Outcome.run_noteResult file options.strict stop').1
  have hfound : found = (read limit).session.journal.diagnostics :=
    (read limit).diagnostics_run_noteResult file options.strict
  have hfound' : found' = (read options.limit).session.journal.diagnostics :=
    (read options.limit).diagnostics_run_noteResult file options.strict
  obtain ⟨items, errors, clean⟩ := Outcome.shorter (ends.imp_right And.left)
  rw [hitems, hitems', hfound, hfound']
  refine ⟨items, errors, fun lenient => ?_, fun parsed hparsed => ?_, fun quiet => ?_⟩
  · exact ⟨_, (Outcome.run_noteResult_eq_ok stop).2 ⟨by simp [lenient], rfl⟩⟩
  · obtain ⟨accepted, rfl⟩ := (Outcome.run_noteResult_eq_ok stop).1 hparsed
    exact ⟨_, (Outcome.run_noteResult_eq_ok stop').2 ⟨fun strict => clean (accepted strict), rfl⟩,
      items, errors⟩
  · obtain shares | ⟨cut, -⟩ := ends
    · obtain ⟨result, warnings⟩ := shares.run_eq stop stop' quiet
      exact ⟨result, shares.items, shares.errors, warnings⟩
    · exact absurd quiet cut.warned

/-- Two statements fail. One error is too many for a limit of one, and both are
    too few for a limit of three. -/
theorem FrontEnd.run_lower_limit_imports :
    let text := "$a )\n$b )\n$c"
    let run (limit : Int) := FrontEnd.run ⟨false, limit, false⟩ .all (.ofText "main" text)
    NumbersFit text.toList ∧ (run 1).items <+: (run 5).items ∧ (run 1).items.length = 1 ∧
      (run 5).items.length = 3 ∧ (run 3).journal.diagnostics.warnings = [] ∧
      (run 5).result = (run 3).result := by
  intro text run
  have fit : NumbersFit text.toList := by decide +kernel
  have quiet : (run 3).journal.diagnostics.warnings = [] := by decide +kernel
  obtain ⟨items, -⟩ :=
    FrontEnd.run_lower_limit ⟨false, 5, false⟩ 1 "main" text fit (by decide)
  obtain ⟨-, -, -, -, same⟩ :=
    FrontEnd.run_lower_limit ⟨false, 5, false⟩ 3 "main" text fit (by decide)
  exact ⟨fit, items, by decide +kernel, by decide +kernel, quiet, (same quiet).1⟩

/-! ## Beyond the limit -/

theorem pending_suffix {ts ts' : List Token} (h : ts' <:+ ts) : pending ts' <:+ pending ts :=
  ⟨_, errorsBetween_append_pending h⟩

theorem prefix_pending {ts ts' : List Token} {late : List Diagnostic}
    (h : ts' <:+ ts) (hl : late <+: pending ts') : errorsBetween ts ts' ++ late <+: pending ts := by
  rw [← errorsBetween_append_pending h]
  exact (List.prefix_append_right_inj _).2 hl

/-- Fewer errors than the limit, then errors of tokens in a row, and perhaps one
    more. The errors of all the tokens are `invalid`. -/
def Limited (limit : Int) (invalid errors : List Diagnostic) : Prop :=
  ∃ (early late : List Diagnostic) (last : Option Diagnostic),
    errors = early ++ (late ++ last.toList) ∧ (early.length : Int) < limit ∧ late <:+: invalid

namespace Limited

variable {limit : Int} {invalid invalid' errors : List Diagnostic}

theorem mono (h : Limited limit invalid errors) (hi : invalid <:+: invalid') :
    Limited limit invalid' errors := by
  obtain ⟨early, late, last, split, few, row⟩ := h
  exact ⟨early, late, last, split, few, row.trans hi⟩

theorem length_le (h : Limited limit invalid errors) :
    (errors.length : Int) ≤ limit + invalid.length := by
  obtain ⟨early, late, last, rfl, few, row⟩ := h
  have := row.length_le
  have := Option.length_toList_le (o := last)
  simp only [List.length_append]
  omega

/-- Errors that are not lexical keep within the limit. -/
theorem length_filter_le (h : Limited limit invalid errors)
    (lexical : ∀ d ∈ invalid, d.cause.family = .lexical) :
    ((errors.filter (·.cause.family ≠ .lexical)).length : Int) ≤ limit := by
  obtain ⟨early, late, last, rfl, few, row⟩ := h
  have none : late.filter (·.cause.family ≠ .lexical) = [] :=
    List.filter_eq_nil_iff.2 fun d hd => by simp [lexical d (row.subset hd)]
  have := List.length_filter_le (fun d : Diagnostic => d.cause.family ≠ .lexical) early
  have := List.length_filter_le (fun d : Diagnostic => d.cause.family ≠ .lexical) last.toList
  have := Option.length_toList_le (o := last)
  rw [List.filter_append, List.filter_append, none, List.nil_append, List.length_append]
  omega

end Limited

namespace Session

variable {nesting : Int} {count : Nat} {s : Session} {ts : List Token} {o : Outcome}

theorem errors_collect (s : Session) (e : Failure) :
    ∃ last : Option Diagnostic, (s.collect e).errors = s.errors ++ last.toList := by
  cases e with
  | violation d => exact ⟨some d, rfl⟩
  | invalid _ | fault _ => exact ⟨none, (List.append_nil _).symm⟩

/-- As long as no failed statement has been left behind, the errors of tokens are
    all that is added, and that of the statement with which the run ends. -/
theorem Runs.limited (h : Runs nesting .all count s ts o) :
    (∃ (late : List Diagnostic) (last : Option Diagnostic),
      o.errors = s.errors ++ (late ++ last.toList) ∧ late <+: pending ts) ∨
    Limited s.journal.diagnostics.limit (pending ts) o.errors := by
  induction h with
  | finish _ => exact .inl ⟨[], none, (List.append_nil _).symm, List.nil_prefix⟩
  | comment _ hm _ ih | item _ _ _ hm _ _ _ ih =>
    obtain ⟨late, last, errors, row⟩ | limited := ih
    · refine .inl ⟨_, last, errors.trans ?_, prefix_pending hm.leads.suffix row⟩
      refine (congrArg (· ++ _) hm.errors).trans ?_
      simp only [List.append_assoc]
    · exact .inr ((hm.limit ▸ limited).mono (pending_suffix hm.leads.suffix).isInfix)
  | objection _ _ _ _ _ hd => exact absurd hd (by simp [Consumer.all])
  | @full _ s s₁ t ts ts₁ e _ _ _ hm _ _ =>
    obtain ⟨last, hlast⟩ := errors_collect s₁ e
    refine .inl ⟨errorsBetween (t :: ts) ts₁, last, ?_, ?_⟩
    · rw [← List.append_assoc, ← hm.errors]
      exact hlast
    · exact ⟨_, errorsBetween_append_pending hm.leads.suffix⟩
  | @resume _ s s₁ s₂ t ts ts₁ e o _ _ _ hm _ notFull hm₂ _ ih =>
    have limit : (s₁.collect e).journal.diagnostics.limit = s.journal.diagnostics.limit := by
      rw [limit_collect, hm.limit]
    have within := (pending_suffix hm.leads.suffix).isInfix
    right
    obtain ⟨late, last, errors, row⟩ | limited := ih
    · -- The collection was not full when the statement was left behind.
      have few : ((s₁.collect e).errors.length : Int) < s.journal.diagnostics.limit := by
        rw [← Bool.not_eq_true, Diagnostics.isFull_iff, Int.not_le, limit] at notFull
        exact notFull
      refine ⟨(s₁.collect e).errors, _, last, ?_, few,
        (prefix_pending hm₂.leads.suffix row).isInfix.trans within⟩
      rw [errors, hm₂.errors]
      simp only [List.append_assoc]
    · rw [hm₂.limit, limit] at limited
      exact limited.mono ((pending_suffix hm₂.leads.suffix).isInfix.trans within)

end Session

/-- A run keeps to the limit on errors, apart from tokens that are none of the
    language. Their errors may come on top of it, but no others. -/
theorem FrontEnd.run_overrun (file text : String) (skip : Bool) (limit : Int)
    (fit : NumbersFit text.toList) (pos : 1 ≤ limit) :
    let run := FrontEnd.run ⟨skip, limit, false⟩ .all (.ofText file text)
    let invalid := (tokensOf file text skip).filterMap Token.diagnostic?
    ∃ parsed, run.result = .ok parsed ∧ Limited limit invalid parsed.diagnostics ∧
      (parsed.diagnostics.length : Int) ≤ limit + invalid.length ∧
      ((parsed.diagnostics.filter (·.cause.family ≠ .lexical)).length : Int) ≤ limit := by
  intro run invalid
  let journal := (Journal.empty limit).note .frontEnd ("Parsing " ++ file)
  let o := readProgram (.ofText file text) skip standardNesting .all journal
  obtain ⟨ts, hts⟩ := Scanner.splits_ofText file fit
  obtain ⟨s, opens, runs⟩ := runs_readProgram hts skip standardNesting .all journal
  have hinvalid : invalid =
      ((shown skip ts).take 1).filterMap Token.diagnostic? ++ pending (shown skip ts) := by
    rw [pending, ← List.filterMap_append, ← List.drop_one, List.take_append_drop,
      ← tokensOf_eq hts skip]
  have limited : Limited limit invalid o.errors := by
    obtain ⟨late, last, errors, row⟩ | limited := runs.limited
    · refine ⟨[], s.errors ++ late, last, ?_, pos, ?_⟩
      · rw [List.nil_append, List.append_assoc]
        exact errors
      · rw [hinvalid, opens.errors]
        exact ((List.prefix_append_right_inj _).2 row).isInfix
    · rw [opens.limit] at limited
      exact limited.mono (hinvalid ▸ (List.suffix_append _ _).isInfix)
  have lexical : ∀ d ∈ invalid, d.cause.family = .lexical := by
    intro d hd
    obtain ⟨t, ht, own⟩ := List.mem_filterMap.1 hd
    rw [tokensOf_eq hts skip] at ht
    exact hts.2.family_eq_lexical t (List.mem_filter.1 ht).1 d own
  exact ⟨_, (Outcome.run_noteResult_eq_ok runs.stop_eq_none).2 ⟨by simp, rfl⟩, limited,
    limited.length_le, limited.length_filter_le lexical⟩

/-- The limit is two. An error of a statement, those of two tokens passed over
    behind it, and that of the import come to four. -/
theorem FrontEnd.run_overrun_import :
    let text := ") ? ?\n$)"
    let run := FrontEnd.run ⟨false, 2, false⟩ .all (.ofText "main" text)
    let invalid := (tokensOf "main" text false).filterMap Token.diagnostic?
    NumbersFit text.toList ∧ ∃ parsed, run.result = .ok parsed ∧
      Limited 2 invalid parsed.diagnostics ∧ run.journal.diagnostics.errors.length = 4 := by
  intro text run invalid
  have fit : NumbersFit text.toList := by decide +kernel
  obtain ⟨parsed, result, limited, -⟩ := FrontEnd.run_overrun "main" text false 2 fit (by decide)
  exact ⟨fit, parsed, result, limited, by decide +kernel⟩

/-- The limit is two, and there are three errors. No warning is given, since the
    reading comes to the end of the input. -/
theorem FrontEnd.run_exceeds_limit :
    let run := FrontEnd.run ⟨false, 2, false⟩ .all (.ofText "<input>" ") ? ?")
    NumbersFit ") ? ?".toList ∧ run.result.toOption.map (·.diagnostics.length) = some 3 ∧
      run.journal.diagnostics.warnings = [] := by
  decide +kernel

end Soul
