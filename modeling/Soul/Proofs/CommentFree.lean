import Soul.Proofs.Mirror
import Soul.Proofs.Recovery

/-!
# Comments may be dropped beforehand

A program that is read without errors is the same if comments are dropped before
the reading, all locations included, and the consumer is given the same items
(`FrontEnd.run_skipComments`). Two shapes are excepted (`Discerned`): a comment
between an identifier and a parenthesis, which would be a call without it, and a
dot behind a comment on the same line, which would be an operator.

A run without errors passes over comments and reads statements, and nothing else
(`Session.Clean`). So an opener stands behind any comments between statements, and
each statement is the same without its comments.
-/

namespace Soul

open Grammar Read

variable {t u : Token} {ts us : List Token}

/-! ## First tokens of statements -/

theorem Grammar.Statements.first {follows : Bool} (h : Statements follows (t :: ts)) :
    t.kind = .mark .dollar ∨ t.kind = .operator .dot ∨ StartsPrimary t := by
  generalize hts : t :: ts = all at h
  cases h with
  | none => cases hts
  | use huse _ =>
    cases huse with
    | module hdollar _ | member hdollar _ _ _ =>
      cases hts
      exact .inl hdollar
  | define hdot _ _ _ _ =>
    cases hts
    exact .inr (.inl hdot)
  | evaluate hbody _ =>
    obtain ⟨u, us, rfl, hu⟩ := hbody.expression_cons
    cases hts
    exact .inr (.inr hu)

/-- A statement begins with an opener, if its dot is the first token of a line. -/
theorem Read.SoundItem.isOpener {ts' : List Token} (h : SoundItem (t :: ts) ts')
    (ht : t.isComment = false) (hdot : t.kind = .operator .dot → t.startsLine = true) :
    IsOpener t := by
  obtain ⟨us, _, ⟨used, hused, rfl⟩, hne, -, adds⟩ := h
  cases used with
  | nil => exact absurd rfl hne
  | cons t' used =>
    obtain ⟨rfl, -⟩ := List.cons.inj hused
    have statement := adds [] .none
    rw [bare_cons ht] at statement
    obtain hk | hk | hk := statement.first
    · exact .inl (by simp [hk])
    · exact .inr ⟨hk, hdot hk⟩
    · exact .of_startsPrimary hk

/-- The first token behind comments stands right behind one of them. -/
theorem exists_comment_before (ht : t.isComment = true) (hu : u ∈ (bare ts).head?) :
    ∃ c others, c :: u :: others <:+ t :: ts ∧ c.isComment = true := by
  induction ts generalizing t with
  | nil => cases hu
  | cons v vs ih =>
    cases hv : v.isComment with
    | false =>
      rw [bare_cons hv] at hu
      cases hu
      exact ⟨t, vs, List.suffix_rfl, ht⟩
    | true =>
      rw [bare_cons_comment hv] at hu
      obtain ⟨c, others, hs, hc⟩ := ih hv hu
      exact ⟨c, others, hs.trans (List.suffix_cons t _), hc⟩

/-! ## Runs without errors -/

namespace Session

/-- A session comes to the end of the input, past comments and statements that the
    consumer takes. -/
inductive Clean (limit : Int) (consumer : Consumer) :
    (count : Nat) → Session → List Token → Outcome → Prop
  | finish {count : Nat} {s : Session} {t : Token} : t.lexeme = .endOfInput →
      Clean limit consumer count s [t] ((s.note "Reached end of input").finish none)
  | comment {count : Nat} {s s' : Session} {t : Token} {ts : List Token} {o : Outcome} :
      t.isComment = true → s.Moves (t :: ts) s' ts → Clean limit consumer count s' ts o →
      Clean limit consumer count s (t :: ts) o
  | item {count : Nat} {s s' : Session} {t : Token} {ts ts' : List Token} {item : Item}
      {o : Outcome} : t.lexeme ≠ .endOfInput → t.isComment = false →
      s.perform (Read.item limit) = (.ok item, s') → s.Moves (t :: ts) s' ts' →
      SoundItem (t :: ts) ts' → consumer count item = none →
      Clean limit consumer (count + 1) (s'.deliver item) ts' o →
      Clean limit consumer count s (t :: ts) (o.behind [item])

variable {limit : Int} {consumer : Consumer} {count : Nat} {s s' : Session} {o o' : Outcome}

theorem Runs.clean (h : Runs limit consumer count s ts o) (noted : s.Noted ts)
    (stop : o.stop = none) (errors : o.errors = []) : Clean limit consumer count s ts o := by
  induction h with
  | finish ht => exact .finish ht
  | comment ht hm _ ih => exact .comment ht hm (ih (hm.noted noted) stop errors)
  | item hne hc hp hm sound taken _ ih =>
    exact .item hne hc hp hm sound taken (ih (hm.noted noted) stop errors)
  | objection _ _ _ _ _ _ => cases stop
  | full _ _ _ hm refused _ =>
    exact absurd errors (errors_collect_ne_nil (hm.noted noted) refused)
  | resume _ _ _ hm refused _ hm' run _ =>
    have kept := hm'.errors_kept.trans run.errors_kept
    rw [errors] at kept
    exact absurd (List.prefix_nil.1 kept) (errors_collect_ne_nil (hm.noted noted) refused)

theorem perform_eq_ok {α : Type} {p : Read α} {a : α} (h : s.perform p = (.ok a, s')) :
    ∃ c, p s.cursor = .ok a c ∧ s' = s.moveTo c := by
  unfold perform at h
  split at h
  · next c hp =>
    cases h
    exact ⟨c, hp, rfl⟩
  · cases h

namespace Clean

theorem isOpener (h : Clean limit consumer count s ts o) :
    ∀ u ∈ (bare ts).head?, (u.kind = .operator .dot → u.startsLine = true) → IsOpener u := by
  induction h with
  | @finish _ _ t ht =>
    rw [bare_cons (by simp [Token.isComment, ht])]
    rintro _ ⟨⟩ -
    exact .inl (by simp [Token.kind, ht, Lexeme.kind])
  | comment ht _ _ ih =>
    rw [bare_cons_comment ht]
    exact ih
  | item _ ht _ _ sound _ _ _ =>
    rw [bare_cons ht]
    rintro _ ⟨⟩ hdot
    exact sound.isOpener ht hdot

/-- Comments between statements stand before an opener. -/
theorem settled (h : Clean limit consumer count s ts o) (hd : Discerned ts) : Settled ts := by
  intro t ht hc u hu
  obtain ⟨ts, rfl⟩ := List.head?_eq_some_iff.1 ht
  refine h.isOpener u hu fun hdot => ?_
  rw [bare_cons_comment hc] at hu
  obtain ⟨c, others, hs, hc'⟩ := exists_comment_before hc hu
  exact (hd.first_two hs).2 hc' hdot

theorem errors_kept (h : Clean limit consumer count s ts o) : s.errors <+: o.errors := by
  induction h with
  | finish _ => exact List.prefix_rfl
  | comment _ hm _ ih | item _ _ _ hm _ _ _ ih => exact hm.errors_kept.trans ih

theorem warnings (h : Clean limit consumer count s ts o) :
    o.session.journal.diagnostics.warnings = s.journal.diagnostics.warnings := by
  induction h with
  | finish _ => rfl
  | comment _ hm _ ih | item _ _ _ hm _ _ _ ih => exact ih.trans hm.warnings

/-- Tokens that are none of the language would have left an error. -/
theorem pending_eq_nil (h : Clean limit consumer count s ts o) (errors : o.errors = []) :
    pending ts = [] := by
  have none : ∀ {s s' : Session} {ts ts' : List Token}, s.Moves ts s' ts' → s'.errors <+: [] →
      errorsBetween ts ts' = [] := by
    intro s s' ts ts' hm kept
    have := hm.errors
    rw [List.prefix_nil.1 kept] at this
    exact (List.append_eq_nil_iff.1 this.symm).2
  induction h with
  | finish _ => rfl
  | comment _ hm run ih =>
    rw [← errorsBetween_append_pending hm.leads.suffix, ih errors,
      none hm (errors ▸ run.errors_kept)]
    rfl
  | item _ _ _ hm _ _ run ih =>
    have kept := run.errors_kept
    rw [← errorsBetween_append_pending hm.leads.suffix, ih errors, none hm (errors ▸ kept)]
    rfl

/-- Without the comments, the same items are read. -/
theorem mirrored (h : Clean limit consumer count s ts o) (shows : s.cursor.Shows 0 ts)
    (hd : Discerned ts) (valid : ∀ t ∈ ts, t.diagnostic? = none)
    (shows' : s'.cursor.Shows 0 (bare ts)) (h' : Runs limit consumer count s' (bare ts) o') :
    o'.items = o.items ∧ o'.stop = none ∧ o'.errors = s'.errors ∧
      o'.session.cursor.current = o.session.cursor.current := by
  induction h generalizing s' o' with
  | @finish _ s t ht =>
    rw [bare_cons (by simp [Token.isComment, ht])] at shows' h'
    obtain rfl := h'.of_end ht
    exact ⟨rfl, rfl, rfl, shows'.current_eq.trans shows.current_eq.symm⟩
  | comment ht hm _ ih =>
    rw [bare_cons_comment ht] at shows' h'
    exact ih (hm.shows shows) (hd.of_suffix (List.suffix_cons _ _))
      (fun t ht => valid t (List.mem_cons_of_mem _ ht)) shows' h'
  | @item count s s₁ t ts ts₁ item o hne ht hp hm _ taken run ih =>
    obtain ⟨c, hc, rfl⟩ := perform_eq_ok hp
    obtain ⟨_, hl, mirror⟩ := item_mirrored limit ht hd shows hc
    obtain rfl := hm.leads.shows.unique hl.shows
    have behind := hd.of_suffix hm.leads.suffix
    obtain ⟨c', hc', hl'⟩ := (mirror (run.settled behind)).2 s'.cursor shows'
    have hp' : s'.perform (Read.item limit) = (.ok item, s'.moveTo c') := by
      unfold perform
      rw [hc']
    have hm' : s'.Moves (bare (t :: ts)) (s'.moveTo c') (bare ts₁) := .of_leads shows' hl'
    have same : (s'.moveTo c').errors = s'.errors :=
      congrArg Diagnostics.errors (hm'.diagnostics_eq fun t ht => valid t (List.mem_filter.1 ht).1)
    rw [bare_cons ht] at h'
    obtain ⟨_, o₁, hm₁, run', rfl⟩ := h'.of_ok hne ht hp' taken
    obtain rfl := hm'.leads.shows.unique hm₁.leads.shows
    have shows₁ : (s.moveTo c).cursor.Shows 0 ts₁ := hm.shows shows
    have shows₁' : (s'.moveTo c').cursor.Shows 0 (bare ts₁) := hm'.shows shows'
    have shows₂' : ((s'.moveTo c').deliver item).cursor.Shows 0 (bare ts₁) := shows₁'
    obtain ⟨items, stop, errors, current⟩ := ih shows₁ behind
      (fun t ht => valid t (hm.leads.suffix.subset ht)) shows₂' run'
    exact ⟨congrArg (List.cons item) items, stop, errors.trans same, current⟩

end Clean

end Session

/-! ## Texts -/

theorem shown_true (ts : List Token) : shown true ts = bare ts := rfl

theorem shown_false (ts : List Token) : shown false ts = ts :=
  List.filter_eq_self.2 fun _ _ => rfl

/-- Comments are no errors. -/
theorem filterMap_diagnostic?_shown (skip : Bool) (ts : List Token) :
    (shown skip ts).filterMap Token.diagnostic? = ts.filterMap Token.diagnostic? := by
  rw [shown, List.filterMap_filter]
  refine List.filterMap_congr fun t _ => ?_
  split
  · rfl
  · next passed =>
    obtain ⟨body, comment⟩ := Token.isComment_iff.1 (by simpa using passed : _ ∧ _).2
    rw [Token.diagnostic?, comment]

/-- The tokens of a source are all of the language if it is read without errors. -/
theorem Session.Opens.filterMap_diagnostic?_eq_nil {limit : Int} {consumer : Consumer}
    {journal : Journal} {s : Session} {ts : List Token} {o : Outcome} (opens : s.Opens journal ts)
    (clean : s.Clean limit consumer 0 ts o) (errors : o.errors = []) :
    ts.filterMap Token.diagnostic? = [] := by
  have first : s.errors = [] := List.prefix_nil.1 (errors ▸ clean.errors_kept)
  rw [opens.errors] at first
  rw [← List.take_append_drop 1 ts, List.filterMap_append, (List.append_eq_nil_iff.1 first).2,
    List.drop_one]
  exact clean.pending_eq_nil errors

theorem readProgram_skipComments {file text : String} {nesting : Int} {consumer : Consumer}
    {journal : Journal} {o : Outcome} (fit : NumbersFit text.toList)
    (apart : Discerned (tokensOf file text false)) (fresh : journal.diagnostics.errors = [])
    (ho : readProgram (.ofText file text) false nesting consumer journal = o)
    (stop : o.stop = none) (errors : o.errors = []) :
    let o' := readProgram (.ofText file text) true nesting consumer journal
    o'.stop = none ∧ o'.errors = [] ∧ o'.items = o.items ∧ o'.program = o.program := by
  intro o'
  subst ho
  obtain ⟨ts, hts⟩ := Scanner.splits_ofText file fit
  obtain ⟨s, opens, run⟩ := runs_readProgram hts false nesting consumer journal
  obtain ⟨s', opens', run'⟩ := runs_readProgram hts true nesting consumer journal
  rw [tokensOf_eq hts, shown_false] at apart
  rw [shown_false] at opens run
  rw [shown_true] at opens' run'
  have clean := run.clean opens.noted stop errors
  have valid : ∀ t ∈ ts, t.diagnostic? = none :=
    List.filterMap_eq_nil_iff.1 (opens.filterMap_diagnostic?_eq_nil clean errors)
  obtain ⟨items, stop', errors', current⟩ :=
    clean.mirrored opens.shows apart valid opens'.shows run'
  have none : s'.errors = [] := by
    rw [opens'.errors, fresh, List.nil_append]
    exact List.filterMap_eq_nil_iff.2 fun t ht =>
      valid t (List.mem_filter.1 (List.mem_of_mem_take ht)).1
  refine ⟨stop', errors'.trans none, items, ?_⟩
  unfold Outcome.program
  rw [items, current]

namespace Outcome

variable {o : Outcome} {file : String} {strict : Bool}

theorem run_noteResult (file : String) (strict : Bool) (stop : o.stop = none) :
    ((o.noteResult file).run file strict).items = o.items ∧
      ((o.noteResult file).run file strict).result =
        match if strict then o.session.journal.diagnostics.rejection? else none with
        | some r => .error (.rejected r)
        | none => .ok (o.result file) := by
  obtain ⟨items, _, session⟩ := o
  cases stop
  cases h : if strict then session.journal.diagnostics.rejection? else none with
  | some r => simp [noteResult, run, h]
  | none => simp [noteResult, run, h, result, program]

theorem stop_of_run_noteResult {parsed : Parsed}
    (h : ((o.noteResult file).run file strict).result = .ok parsed) : o.stop = none := by
  cases hs : o.stop with
  | none => rfl
  | some stop => simp [noteResult, run, hs] at h

end Outcome

/-- A program that is read without errors is the same if comments are dropped
    beforehand, and the consumer is given the same items. Only the number of tokens
    is another one. -/
theorem FrontEnd.run_skipComments (options : Options) (consumer : Consumer) (file text : String)
    (parsed : Parsed) (fit : NumbersFit text.toList)
    (apart : Discerned (tokensOf file text false)) :
    let kept := FrontEnd.run { options with skipComments := false } consumer (.ofText file text)
    let dropped := FrontEnd.run { options with skipComments := true } consumer (.ofText file text)
    kept.result = .ok parsed → parsed.diagnostics = [] →
      (∃ count, dropped.result = .ok { parsed with tokenCount := count }) ∧
        dropped.items = kept.items := by
  intro kept dropped hkept clean
  let journal := (Journal.empty options.limit).note .frontEnd ("Parsing " ++ file)
  let o := readProgram (.ofText file text) false standardNesting consumer journal
  have stop : o.stop = none := Outcome.stop_of_run_noteResult hkept
  obtain ⟨items, result⟩ := Outcome.run_noteResult file options.strict stop
  have hparsed : parsed = o.result file := by
    have := result.symm.trans hkept
    split at this
    · cases this
    · exact (Except.ok.inj this).symm
  subst hparsed
  let o' := readProgram (.ofText file text) true standardNesting consumer journal
  obtain ⟨stop', errors', items', program'⟩ :
      o'.stop = none ∧ o'.errors = [] ∧ o'.items = o.items ∧ o'.program = o.program :=
    readProgram_skipComments fit apart rfl rfl stop clean
  obtain ⟨same, result'⟩ :=
    Outcome.run_noteResult file options.strict stop'
  have accepted : ∀ ds : Diagnostics, ds.errors = [] →
      (if options.strict then ds.rejection? else none) = none := by
    intro ds hds
    simp [ds.rejection?_eq_none hds]
  rw [accepted _ errors'] at result'
  have hparsed : o'.result file = { o.result file with tokenCount := o'.session.cursor.taken } := by
    have errors : o'.errors = o.errors := errors'.trans clean.symm
    simp only [Outcome.result, program', errors]
  exact ⟨⟨_, result'.trans (congrArg Except.ok hparsed)⟩, same.trans (items'.trans items.symm)⟩

/-- Comments in all the places where they are passed over, the last of them in
    front of a definition. -/
theorem FrontEnd.run_skipComments_definition :
    let text := "f ( ;a\n x ;b\n) + ;c\n (1 ;d\n) ;e\n.g|A 'p = ;f\n p"
    let kept := FrontEnd.run ⟨false, 100, true⟩ .all (.ofText "main" text)
    let dropped := FrontEnd.run ⟨true, 100, true⟩ .all (.ofText "main" text)
    NumbersFit text.toList ∧ Discerned (tokensOf "main" text false) ∧
      ∃ parsed, kept.result = .ok parsed ∧ parsed.diagnostics = [] ∧
        (∃ count, dropped.result = .ok { parsed with tokenCount := count }) ∧
        dropped.items = kept.items := by
  intro text kept dropped
  have fit : NumbersFit text.toList := by decide +kernel
  have apart : Discerned (tokensOf "main" text false) := by decide +kernel
  have clean : kept.result.toOption.any (·.diagnostics.isEmpty) = true := by decide +kernel
  cases hkept : kept.result with
  | error abort =>
    rw [hkept] at clean
    cases clean
  | ok parsed =>
    rw [hkept] at clean
    have none : parsed.diagnostics = [] := List.isEmpty_iff.1 clean
    exact ⟨fit, apart, parsed, rfl, none,
      FrontEnd.run_skipComments ⟨false, 100, true⟩ .all "main" text parsed fit apart hkept none⟩

end Soul
