import Soul.FrontEnd
import Soul.Proofs.Loop
import Soul.Proofs.Segment
import Soul.Proofs.Sound

/-!
# Runs over a program

The reading of a program goes on statement by statement. What it comes to is
laid down by the relation `Session.Runs`, with one rule for each way in which a
round of it may go: the end of the input, a comment, a statement that is read, a
statement that the consumer objects to, and a failed statement, behind which the
reading ends or is resumed. The reading follows these rules
(`runs_readProgram`), since each round passes over a token.

A session that moves on collects the errors of the tokens it comes to
(`Session.Moves`). So the error of a token is collected before the token can be
refused (`Session.Noted`).
-/

namespace Soul

open Read

/-- The errors collected in a session. -/
abbrev Session.errors (s : Session) : List Diagnostic := s.journal.diagnostics.errors

/-- The errors of the tokens behind the first one. -/
def pending (ts : List Token) : List Diagnostic := ts.tail.filterMap Token.diagnostic?

/-- The errors of the tokens that one comes to on the way from `ts` to `ts'`. -/
def errorsBetween (ts ts' : List Token) : List Diagnostic :=
  (ts.tail.take (ts.length - ts'.length)).filterMap Token.diagnostic?

theorem errorsBetween_append_pending {ts ts' : List Token} (h : ts' <:+ ts) :
    errorsBetween ts ts' ++ pending ts' = pending ts := by
  obtain ⟨used, rfl⟩ := h
  have behind : ts'.tail = (used ++ ts').tail.drop used.length := by
    rw [← List.drop_one, ← List.drop_one, List.drop_drop, Nat.add_comm, ← List.drop_drop,
      List.drop_left]
  rw [errorsBetween, pending, pending, behind, List.length_append, Nat.add_sub_cancel,
    ← List.filterMap_append, List.take_append_drop]

/-- One comes to the first token of `ts'`, unless one is there. -/
theorem mem_errorsBetween {t : Token} {ts us : List Token} {diag : Diagnostic}
    (h : t :: us <:+ ts) (hne : t :: us ≠ ts) (ht : t.diagnostic? = some diag) :
    diag ∈ errorsBetween ts (t :: us) := by
  obtain ⟨used, rfl⟩ := h
  cases used with
  | nil => exact absurd rfl hne
  | cons u used =>
    refine List.mem_filterMap.2 ⟨t, ?_, ht⟩
    have count : (u :: used ++ t :: us).length - (t :: us).length = (used ++ [t]).length := by
      simp
      omega
    rw [count, List.cons_append, List.tail_cons, List.append_cons used t us, List.take_left]
    exact List.mem_append_right _ List.mem_cons_self

theorem Cursor.Leads.diagnostics_fetched {c c' : Cursor} {d : Nat} {ts ts' : List Token}
    (hc : c.Shows d ts) (h : c.Leads ts c' ts') :
    diagnostics (c.fetched c') = errorsBetween ts ts' := by
  obtain ⟨t, us, rfl⟩ := hc.ended.exists_cons
  have taken : c'.taken - c.taken = (t :: us).length - ts'.length := by
    have := h.taken
    have := h.suffix.length_le
    omega
  unfold diagnostics fetched errorsBetween
  rw [taken, hc.ahead_eq, ← List.map_take, List.filterMap_map]
  rfl

namespace Session

/-- The session has moved on from the tokens `ts` to the tokens `ts'`, and has
    collected the errors of those it came to. -/
structure Moves (s : Session) (ts : List Token) (s' : Session) (ts' : List Token) : Prop where
  leads : s.cursor.Leads ts s'.cursor ts'
  errors : s'.errors = s.errors ++ errorsBetween ts ts'
  limit : s'.journal.diagnostics.limit = s.journal.diagnostics.limit
  warnings : s'.journal.diagnostics.warnings = s.journal.diagnostics.warnings

/-- The error of the first token, if it has one, is collected. -/
def Noted (s : Session) (ts : List Token) : Prop :=
  ∀ t ∈ ts.head?, ∀ diag, t.diagnostic? = some diag → diag ∈ s.errors

variable {s s' : Session} {d : Nat} {t : Token} {ts ts' : List Token}

theorem Moves.of_leads {c : Cursor} (hs : s.cursor.Shows d ts) (h : s.cursor.Leads ts c ts') :
    s.Moves ts (s.moveTo c) ts' where
  leads := h
  errors := by
    rw [← h.diagnostics_fetched hs]
    exact Journal.errors_recordAll _ _
  limit := Journal.limit_recordAll _ _
  warnings := Journal.warnings_recordAll _ _

theorem Moves.shows (hs : s.cursor.Shows d ts) (h : s.Moves ts s' ts') :
    s'.cursor.Shows d ts' :=
  h.leads.shows_at hs

theorem Moves.errors_kept (h : s.Moves ts s' ts') : s.errors <+: s'.errors :=
  h.errors ▸ List.prefix_append _ _

theorem Moves.noted (h : s.Moves ts s' ts') (hs : s.Noted ts) : s'.Noted ts' := by
  intro t ht diag hdiag
  obtain ⟨us, rfl⟩ := List.head?_eq_some_iff.1 ht
  rw [h.errors]
  by_cases hts : t :: us = ts
  · exact List.mem_append_left _ (hs t (hts ▸ rfl) diag hdiag)
  · exact List.mem_append_right _ (mem_errorsBetween h.leads.suffix hts hdiag)

/-- A reading in a session. -/
theorem perform_cases {α : Type} {p : Read α} {Q : α → List Token → Prop}
    {E : Failure → List Token → Prop} (hs : s.cursor.Shows d ts) (h : Ensures p d ts Q E) :
    (∃ a s' ts', s.perform p = (.ok a, s') ∧ s.Moves ts s' ts' ∧ Q a ts') ∨
      ∃ e s' ts', s.perform p = (.error e, s') ∧ s.Moves ts s' ts' ∧ E e ts' := by
  unfold perform
  cases hp : p s.cursor with
  | ok a c =>
    obtain ⟨ts', hl, hq⟩ := h.ok hs hp
    exact .inl ⟨a, _, ts', rfl, .of_leads hs hl, hq⟩
  | error e c =>
    obtain ⟨ts', hl, he⟩ := h.error hs hp
    exact .inr ⟨e, _, ts', rfl, .of_leads hs hl, he⟩

theorem moves_of_ok {α : Type} {p : Read α} {Q : α → List Token → Prop}
    {E : Failure → List Token → Prop} {a : α} (hs : s.cursor.Shows d ts) (h : Ensures p d ts Q E)
    (hp : s.perform p = (.ok a, s')) : ∃ ts', s.Moves ts s' ts' ∧ Q a ts' := by
  obtain ⟨c, hc, rfl⟩ := of_perform_ok hp
  obtain ⟨ts', hl, hq⟩ := h.ok hs hc
  exact ⟨ts', .of_leads hs hl, hq⟩

theorem moves_of_error {α : Type} {p : Read α} {Q : α → List Token → Prop}
    {E : Failure → List Token → Prop} {e : Failure} (hs : s.cursor.Shows d ts)
    (h : Ensures p d ts Q E) (hp : s.perform p = (.error e, s')) :
    ∃ ts', s.Moves ts s' ts' ∧ E e ts' := by
  obtain ⟨c, hc, rfl⟩ := of_perform_error hp
  obtain ⟨ts', hl, he⟩ := h.error hs hc
  exact ⟨ts', .of_leads hs hl, he⟩

/-- What a session comes to that stands on the first of the tokens, having handed
    over `count` items. -/
inductive Runs (limit : Int) (consumer : Consumer) :
    (count : Nat) → Session → List Token → Outcome → Prop
  | finish {count : Nat} {s : Session} {t : Token} : t.lexeme = .endOfInput →
      Runs limit consumer count s [t] ((s.note "Reached end of input").finish none)
  | comment {count : Nat} {s s' : Session} {t : Token} {ts : List Token} {o : Outcome} :
      t.isComment = true → s.Moves (t :: ts) s' ts → Runs limit consumer count s' ts o →
      Runs limit consumer count s (t :: ts) o
  | item {count : Nat} {s s' : Session} {t : Token} {ts ts' : List Token} {item : Item}
      {o : Outcome} : t.lexeme ≠ .endOfInput → t.isComment = false →
      s.perform (Read.item limit) = (.ok item, s') → s.Moves (t :: ts) s' ts' →
      SoundItem (t :: ts) ts' → consumer count item = none →
      Runs limit consumer (count + 1) (s'.deliver item) ts' o →
      Runs limit consumer count s (t :: ts) (o.behind [item])
  | objection {count : Nat} {s s' : Session} {t : Token} {ts ts' : List Token} {item : Item}
      {d : Diagnostic} : t.lexeme ≠ .endOfInput → t.isComment = false →
      s.perform (Read.item limit) = (.ok item, s') → s.Moves (t :: ts) s' ts' →
      SoundItem (t :: ts) ts' → consumer count item = some d →
      Runs limit consumer count s (t :: ts)
        (((s'.deliver item).finish (some (.objection d))).behind [item])
  | full {count : Nat} {s s' : Session} {t : Token} {ts ts' : List Token} {e : Failure} :
      t.lexeme ≠ .endOfInput → t.isComment = false →
      s.perform (Read.item limit) = (.error e, s') → s.Moves (t :: ts) s' ts' → Refused e ts' →
      (s'.collect e).journal.diagnostics.isFull = true →
      Runs limit consumer count s (t :: ts) ((s'.collect e).warnFull.finish none)
  | resume {count : Nat} {s s' s'' : Session} {t : Token} {ts ts' : List Token} {e : Failure}
      {o : Outcome} : t.lexeme ≠ .endOfInput → t.isComment = false →
      s.perform (Read.item limit) = (.error e, s') → s.Moves (t :: ts) s' ts' → Refused e ts' →
      (s'.collect e).journal.diagnostics.isFull = false →
      (s'.collect e).Moves ts' s'' (ts'.dropWhile (!isResumption ·)) →
      Runs limit consumer count s'' (ts'.dropWhile (!isResumption ·)) o →
      Runs limit consumer count s (t :: ts) o

@[simp] theorem cursor_collect (s : Session) (e : Failure) : (s.collect e).cursor = s.cursor := by
  cases e <;> rfl

theorem synchronize_ensures (ts : List Token) : Ensures Read.synchronize 0 ts
    (fun _ ts' => ts' = ts.dropWhile (!isResumption ·)) Never :=
  Ensures.synchronize rfl

/-- As many rounds as there are tokens are enough. -/
theorem runs_itemsWithin (limit : Int) (consumer : Consumer) (rounds count : Nat)
    (hs : s.cursor.Shows 0 ts) (hr : ts.length ≤ rounds) :
    Runs limit consumer count s ts (s.itemsWithin (Read.item limit) consumer rounds count) := by
  induction rounds generalizing s ts count with
  | zero => exact absurd (List.eq_nil_of_length_eq_zero (Nat.le_zero.1 hr)) hs.ended.ne_nil
  | succ rounds ih =>
    obtain ⟨t, us, rfl⟩ := hs.ended.exists_cons
    have fewer : ∀ {vs : List Token}, vs.length < (t :: us).length → vs.length ≤ rounds :=
      fun h => Nat.le_of_lt_succ (h.trans_le hr)
    have advances : t.isComment = true →
        Ensures Read.advance 0 (t :: us) (fun _ ts' => ts' = us) Never := fun comment =>
      Ensures.advance (fun hend => by simp [Token.isComment, hend] at comment) rfl
    have first : s.AtStatement → t.lexeme ≠ .endOfInput ∧ t.isComment = false :=
      fun here => hs.current_eq ▸ And.intro here.notEnd here.noComment
    have turns := turns_turn (Read.item limit) consumer count s
    rw [itemsWithin]
    generalize s.turn (Read.item limit) consumer count = turn at turns ⊢
    cases turns with
    | finish hend =>
      rw [hs.current_eq] at hend
      obtain rfl := hs.ended.tail_eq_nil hend
      exact .finish hend
    | comment comment hp =>
      rw [hs.current_eq] at comment
      obtain ⟨_, hm, rfl⟩ := moves_of_ok hs (advances comment) hp
      exact .comment comment hm (ih count (hm.shows hs) (fewer (Nat.lt_succ_self _)))
    | commentFailed comment hp =>
      rw [hs.current_eq] at comment
      obtain ⟨_, -, never⟩ := moves_of_error hs (advances comment) hp
      exact never.elim
    | @item s' item here hp hc =>
      obtain ⟨notEnd, noComment⟩ := first here
      obtain ⟨ts', hm, sound⟩ := moves_of_ok hs (item_sound limit notEnd) hp
      have next := ih (s := s'.deliver item) (count + 1) (hm.shows hs :) (fewer sound.length_lt)
      exact .item notEnd noComment hp hm sound hc next
    | objection here hp hc =>
      obtain ⟨notEnd, noComment⟩ := first here
      obtain ⟨ts', hm, sound⟩ := moves_of_ok hs (item_sound limit notEnd) hp
      exact .objection notEnd noComment hp hm sound hc
    | fault here hp =>
      obtain ⟨_, -, refused, -⟩ := moves_of_error hs (item_sound limit (first here).1) hp
      cases refused
    | full here hp _ full =>
      obtain ⟨notEnd, noComment⟩ := first here
      obtain ⟨ts', hm, refused, -⟩ := moves_of_error hs (item_sound limit notEnd) hp
      exact .full notEnd noComment hp hm refused full
    | @resume s' s'' e here hp _ full hp' =>
      obtain ⟨notEnd, noComment⟩ := first here
      obtain ⟨ts', hm, refused, after⟩ := moves_of_error hs (item_sound limit notEnd) hp
      have shows : (s'.collect e).cursor.Shows 0 ts' := cursor_collect s' e ▸ hm.shows hs
      obtain ⟨_, hm', rfl⟩ := moves_of_ok shows (synchronize_ensures ts') hp'
      -- A failed statement is given up behind its first token (`after`), so there are
      -- rounds enough to resume.
      have next := ih count (hm'.shows shows) (fewer (Nat.lt_succ_of_le after.length_le))
      exact .resume notEnd noComment hp hm refused full hm' next
    | @resumeFailed s' s'' e e' here hp _ _ hp' =>
      obtain ⟨ts', hm, -⟩ := moves_of_error hs (item_sound limit (first here).1) hp
      have shows : (s'.collect e).cursor.Shows 0 ts' := cursor_collect s' e ▸ hm.shows hs
      obtain ⟨_, -, never⟩ := moves_of_error shows (synchronize_ensures ts') hp'
      exact never.elim

/-- A session that stands on the first of the tokens of a source. -/
structure Opens (s : Session) (journal : Journal) (ts : List Token) : Prop where
  shows : s.cursor.Shows 0 ts
  errors : s.errors = journal.diagnostics.errors ++ (ts.take 1).filterMap Token.diagnostic?
  limit : s.journal.diagnostics.limit = journal.diagnostics.limit
  warnings : s.journal.diagnostics.warnings = journal.diagnostics.warnings
  taken : s.cursor.taken = 1

theorem Opens.noted {journal : Journal} (h : s.Opens journal ts) : s.Noted ts := by
  intro t ht diag hdiag
  obtain ⟨us, rfl⟩ := List.head?_eq_some_iff.1 ht
  rw [h.errors]
  exact List.mem_append_right _ (List.mem_filterMap.2 ⟨t, List.mem_cons_self, hdiag⟩)

/-- The reading of a program fetches the first token, from a cursor that stands on none,
    and has a round for each token then. -/
theorem exists_opens (file : String) (journal : Journal) (hts : Ended ts) :
    ∃ s : Session, s.Opens journal ts ∧ ∀ statement consumer,
      (start file (ts.map .ok) journal).program statement consumer =
        s.itemsWithin statement consumer ts.length 0 := by
  obtain ⟨t, us, rfl⟩ := hts.exists_cons
  let s : Session :=
    ⟨⟨t, us.map .ok, 1, 0⟩, journal.recordAll (Cursor.diagnostics [.ok t])⟩
  have shows : s.cursor.Shows 0 (t :: us) := ⟨rfl, hts, rfl⟩
  refine ⟨s, ⟨shows, ?_, Journal.limit_recordAll _ _, Journal.warnings_recordAll _ _, rfl⟩, ?_⟩
  · exact Journal.errors_recordAll _ _
  · intro statement consumer
    have rounds : s.cursor.ahead.length + 1 = (t :: us).length := by simp [s]
    rw [← rounds]
    rfl

end Session

/-! ## Sources -/

theorem Segments.ended {file : String} {p : Position} {fresh : Bool} {text : List Char}
    {ts : List Token} (h : Segments file p fresh text ts) : Ended ts := by
  induction h with
  | last _ => exact .last rfl
  | token _ _ hl _ ih => exact .cons hl.ne_endOfInput ih

theorem Ended.shown {ts : List Token} (h : Ended ts) (skip : Bool) : Ended (shown skip ts) := by
  induction h with
  | @last t ht =>
    rw [shown_end skip (by simp [Token.isEnd, ht])]
    exact .last ht
  | @cons t ts ht _ ih =>
    by_cases hc : (skip && t.isComment) = true
    · rwa [Soul.shown, List.filter_cons_of_neg (by simp [hc])]
    · rw [Soul.shown, List.filter_cons_of_pos (by simp [hc])]
      exact .cons ht ih

/-- The reading of a source that splits into tokens begins with the first of them. -/
theorem Scanner.Splits.exists_opens {source : Scanner} {ts : List Token} (hs : source.Splits ts)
    (skip : Bool) (journal : Journal) :
    ∃ s : Session, s.Opens journal (shown skip ts) ∧ ∀ statement consumer,
      readProgramBy statement source skip consumer journal =
        s.itemsWithin statement consumer (shown skip ts).length 0 := by
  unfold readProgramBy
  rw [hs.fetches_eq]
  exact Session.exists_opens _ journal (hs.2.ended.shown skip)

/-- The reading of a source runs over its tokens. -/
theorem runs_readProgram {source : Scanner} {ts : List Token} (hs : source.Splits ts)
    (skip : Bool) (nesting : Int) (consumer : Consumer) (journal : Journal) :
    ∃ s : Session, s.Opens journal (shown skip ts) ∧ Session.Runs nesting consumer 0 s
      (shown skip ts) (readProgram source skip nesting consumer journal) := by
  obtain ⟨s, opens, read⟩ := hs.exists_opens skip journal
  refine ⟨s, opens, ?_⟩
  rw [readProgram, read]
  exact Session.runs_itemsWithin nesting consumer _ 0 opens.shows (Nat.le_refl _)

end Soul
