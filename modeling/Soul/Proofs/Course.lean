import Soul.Proofs.Fetch
import Soul.Proofs.WellFormed

/-!
# The course of a reading

`Session.Runs` lays down the reading of a program whose source has no faults. Here
is what such a reading comes to in any source (`Session.Goes`), in single steps:
the session moves on, or an error is collected, or an item is handed over; and in
the end there is nothing more to read, there are too many errors, the consumer
objects, or a fault is fetched. That the reading follows these rules rests on the
functions for statements (`Read.item_yields`): each round of it takes a token.

From the rules one can read off what a reading fetches and how it ends
(`Session.Goes.asked`, `Session.Goes.ends`), what it gives (`Session.Goes.units`)
and what it collects (`Session.Goes.errors`, `Session.Goes.warnings`).
-/

namespace Soul

open Read

/-- The error is that of a token of the class `T`, or one of the grammar at such a
    token. -/
def Diagnostic.IsExplained (limit : Int) (T : Token → Prop) (d : Diagnostic) : Prop :=
  ∃ t, T t ∧ (t.diagnostic? = some d ∨ Explains limit t (.violation d))

/-- The warning that there are `n` errors, which are too many. -/
def fullWarning (n : Nat) : String :=
  Diagnostic.line "warning" none ("too many errors (" ++ toString n ++ "), stopping")

namespace Cursor

variable {c c' : Cursor} {last : List (Except Fault Token)}

theorem Reaches.exists_ahead (h : c.Reaches last c') :
    ∃ ts : List Token, c.ahead = ts.map .ok ++ (last ++ c'.ahead) := by
  obtain ⟨before, hb⟩ := h
  cases before with
  | nil => exact ⟨[], (List.cons.inj hb.remaining).2⟩
  | cons b before =>
    refine ⟨before ++ [c'.current], (List.cons.inj hb.remaining).2.trans ?_⟩
    rw [List.map_append, List.append_assoc]
    rfl

/-- What has been passed over is no longer ahead. -/
theorem Reaches.length_ahead (h : c.Reaches last c') :
    c'.ahead.length + last.length + c'.taken = c.ahead.length + c.taken := by
  obtain ⟨before, hb⟩ := h
  have length := congrArg List.length hb.remaining
  have taken := hb.taken
  simp only [remaining, List.length_cons, List.length_append, List.length_map] at length
  omega

theorem Reaches.depth (h : c.Reaches last c') : c'.depth = c.depth := by
  obtain ⟨before, hb⟩ := h
  exact hb.depth

/-- A failed statement that has taken no token is skipped, which takes one. -/
theorem Reaches.taken_lt_of_skipped {c'' : Cursor} (h : c.Reaches [] c') (h' : c'.Reaches [] c'')
    (behind : c.taken < c'.taken ∨ isResumption c.current = false)
    (skipped : isResumption c'.current = false → c'.taken < c''.taken) : c.taken < c''.taken := by
  by_cases taken : c.taken < c'.taken
  · exact taken.trans_le h'.taken_le
  · have same := h.current_eq (Nat.not_lt.1 taken)
    exact h.taken_le.trans_lt (skipped (same ▸ behind.resolve_left taken))

end Cursor

namespace Session

/-- The session has moved on, and has fetched `last` behind the token that it has
    come to. -/
structure Steps (s : Session) (last : List (Except Fault Token)) (s' : Session) : Prop where
  reaches : s.cursor.Reaches last s'.cursor
  moved : s' = s.moveTo s'.cursor

/-- What a session may come to that has handed over `count` items. -/
inductive Goes (T : Token → Prop) (limit : Int) (consumer : Consumer) :
    (count : Nat) → Session → Outcome → Prop
  | finish {count : Nat} {s : Session} : s.cursor.current.lexeme = .endOfInput →
      Goes T limit consumer count s ((s.note "Reached end of input").finish none)
  | full {count : Nat} {s : Session} : s.journal.diagnostics.isFull = true →
      Goes T limit consumer count s (s.warnFull.finish none)
  | fault {count : Nat} {s s' : Session} {f : Fault} : s.Steps [.error f] s' →
      Goes T limit consumer count s (s'.finish (some (.fault f)))
  | objection {count : Nat} {s : Session} {item : Item} {d : Diagnostic} : item.IsWellFormed T →
      consumer count item = some d →
      Goes T limit consumer count s (((s.deliver item).finish (some (.objection d))).behind [item])
  | move {count : Nat} {s s' : Session} {o : Outcome} : s.Steps [] s' →
      Goes T limit consumer count s' o → Goes T limit consumer count s o
  | failed {count : Nat} {s : Session} {e : Failure} {o : Outcome} :
      Explains limit s.cursor.current e → Goes T limit consumer count (s.collect e) o →
      Goes T limit consumer count s o
  | item {count : Nat} {s : Session} {item : Item} {o : Outcome} : item.IsWellFormed T →
      consumer count item = none → Goes T limit consumer (count + 1) (s.deliver item) o →
      Goes T limit consumer count s (o.behind [item])

variable {T : Token → Prop} {limit : Int} {consumer : Consumer} {count : Nat} {s s' : Session}
  {o : Outcome} {last : List (Except Fault Token)}

/-! ## The reading follows the rules -/

section Perform

variable {α : Type} {p : Read α} {Q : α → Cursor → Prop} {E : Cursor → Prop}

theorem steps_of_ok {a : α} (hs : s.cursor.Stands T) (h : Yields T limit p s.cursor Q E)
    (hp : s.perform p = (.ok a, s')) : s.Steps [] s' ∧ Q a s'.cursor := by
  obtain ⟨c, hc, rfl⟩ := of_perform_ok hp
  obtain ⟨reaches, hq⟩ := h.ok hs hc
  exact ⟨⟨reaches, rfl⟩, hq⟩

theorem steps_of_error {e : Failure} (hs : s.cursor.Stands T) (h : Yields T limit p s.cursor Q E)
    (hp : s.perform p = (.error e, s')) : s.Steps e.fetches s' ∧
      Explains limit s'.cursor.current e ∧ (e.fetches = [] → E s'.cursor) := by
  obtain ⟨c, hc, rfl⟩ := of_perform_error hp
  obtain ⟨reaches, explains, he⟩ := h.error hs hc
  exact ⟨⟨reaches, rfl⟩, explains, he⟩

end Perform

theorem Steps.stands (h : s.Steps [] s') (hs : s.cursor.Stands T) : s'.cursor.Stands T :=
  h.reaches.stands hs

/-- A reading that cannot fail but for a fault ends the session if it fails. -/
theorem Goes.of_fail {e : Failure} (h : s.Steps e.fetches s') (he : e.fetches ≠ []) :
    Goes T limit consumer count s (s'.fail e) := by
  cases e with
  | fault f => exact .fault h
  | invalid _ | violation _ => exact absurd rfl he

/-- A failure for no fault fetches nothing. -/
theorem fetches_eq_nil {e : Failure} (h : ∀ f, e ≠ .fault f) : e.fetches = [] := by
  cases e with
  | fault f => exact absurd rfl (h f)
  | invalid _ | violation _ => rfl

theorem stands_collect {e : Failure} (hs : s.cursor.Stands T) : (s.collect e).cursor.Stands T := by
  rwa [cursor_collect]

section Turns

variable (limit) in
theorem advance_yields_of_isComment (comment : s.cursor.current.isComment = true) :
    Yields T limit Read.advance s.cursor (fun _ c => s.cursor.taken < c.taken) fun _ => False :=
  Yields.advance (fun hend => by simp [Token.isComment, hend] at comment)
    fun _ passes => passes.taken_lt

variable (proper : ∀ t, T t → t.lexeme.IsProper) (hs : s.cursor.Stands T)

include proper hs

/-- A statement fails but for a fault: the session has moved on to where it does. -/
theorem failed_of_perform {e : Failure} (here : s.AtStatement) (noFault : ∀ f, e ≠ .fault f)
    (hp : s.perform (Read.item limit) = (.error e, s')) :
    s.Steps [] s' ∧ Explains limit s'.cursor.current e ∧
      (s.cursor.taken < s'.cursor.taken ∨ isResumption s.cursor.current = false) := by
  obtain ⟨steps, explains, behind⟩ := steps_of_error hs (item_yields proper here.notEnd) hp
  rw [fetches_eq_nil noFault] at steps behind
  exact ⟨steps, explains, behind rfl⟩

/-- A round in which the loop goes on takes a token. -/
theorem Turns.goes {items : List Item} {count' : Nat}
    (h : Turns (Read.item limit) consumer count s (.goes items count' s')) :
    (s.cursor.Reaches [] s'.cursor ∧ s.cursor.taken < s'.cursor.taken) ∧
      ∀ o, Goes T limit consumer count' s' o → Goes T limit consumer count s (o.behind items) := by
  cases h with
  | comment comment hp =>
    obtain ⟨steps, taken⟩ := steps_of_ok hs (advance_yields_of_isComment limit comment) hp
    exact ⟨⟨steps.reaches, taken⟩, fun _ next => .move steps next⟩
  | item here hp hc =>
    obtain ⟨steps, unit, taken⟩ := steps_of_ok hs (item_yields proper here.notEnd) hp
    exact ⟨⟨steps.reaches, taken⟩, fun _ next => .move steps (.item unit hc next)⟩
  | @resume s₁ _ e here hp noFault _ hp' =>
    obtain ⟨steps, explains, behind⟩ := failed_of_perform proper hs here noFault hp
    obtain ⟨steps', skipped⟩ := steps_of_ok (stands_collect (steps.stands hs))
      (Yields.synchronize : Yields T limit _ _ _ fun _ => False) hp'
    have reaches := steps'.reaches
    rw [cursor_collect] at reaches skipped
    have taken := steps.reaches.taken_lt_of_skipped reaches behind skipped
    exact ⟨⟨steps.reaches.trans reaches, taken⟩,
      fun _ next => .move steps (.failed explains (.move steps' next))⟩

/-- A round in which the loop ends. -/
theorem Turns.ends (h : Turns (Read.item limit) consumer count s (.ends o)) :
    Goes T limit consumer count s o := by
  cases h with
  | finish hend => exact .finish hend
  | commentFailed comment hp =>
    obtain ⟨steps, -, never⟩ :=
      steps_of_error hs (advance_yields_of_isComment limit comment) hp
    exact .of_fail steps never
  | objection here hp hc =>
    obtain ⟨steps, unit, -⟩ := steps_of_ok hs (item_yields proper here.notEnd) hp
    exact .move steps (.objection unit hc)
  | fault here hp => exact .fault (steps_of_error hs (item_yields proper here.notEnd) hp).1
  | full here hp noFault full =>
    obtain ⟨steps, explains, -⟩ := failed_of_perform proper hs here noFault hp
    exact .move steps (.failed explains (.full full))
  | resumeFailed here hp noFault _ hp' =>
    obtain ⟨steps, explains, -⟩ := failed_of_perform proper hs here noFault hp
    obtain ⟨steps', -, never⟩ := steps_of_error (stands_collect (steps.stands hs))
      (Yields.synchronize : Yields T limit _ _ _ fun _ => False) hp'
    exact .move steps (.failed explains (.of_fail steps' never))

/-- As many rounds as there are tokens and faults are enough, and every one of them begins at
    the same depth. -/
theorem loop_of_stands (limit : Int) (consumer : Consumer) (rounds count : Nat)
    (hr : s.cursor.ahead.length < rounds) :
    Loop (fun s' => s'.cursor.Stands T ∧ s'.cursor.depth = s.cursor.depth) (Read.item limit)
      consumer count s (s.itemsWithin (Read.item limit) consumer rounds count) := by
  refine loop_itemsWithin (fun {_ _ s₁ s₂ _} hs₁ turns => ?_) rounds count ⟨hs, rfl⟩ hr
  obtain ⟨⟨reaches, taken⟩, -⟩ := turns.goes proper hs₁.1
  have length := reaches.length_ahead
  rw [List.length_nil] at length
  exact ⟨⟨reaches.stands hs₁.1, reaches.depth.trans hs₁.2⟩, by omega⟩

omit hs in
theorem Loop.goes_of_stands (h : Loop (·.cursor.Stands T) (Read.item limit) consumer count s o) :
    Goes T limit consumer count s o := by
  induction h with
  | ends hs ht => exact (Turns.of_ends ht).ends proper hs
  | goes hs ht _ ih => exact ((Turns.of_goes ht).goes proper hs).2 _ ih

theorem goes_itemsWithin (limit : Int) (consumer : Consumer) (rounds count : Nat)
    (hr : s.cursor.ahead.length < rounds) :
    Goes T limit consumer count s (s.itemsWithin (Read.item limit) consumer rounds count) :=
  ((loop_of_stands proper hs limit consumer rounds count hr).mono
    fun _ h => h.1).goes_of_stands proper

end Turns

/-! ## What follows from the rules -/

theorem Steps.errors (h : s.Steps last s') :
    s'.errors = s.errors ++ Cursor.diagnostics (s.cursor.fetched s'.cursor) := by
  rw [h.moved]
  exact Journal.errors_recordAll _ _

theorem Steps.warnings (h : s.Steps last s') :
    s'.journal.diagnostics.warnings = s.journal.diagnostics.warnings := by
  rw [h.moved]
  exact Journal.warnings_recordAll _ _

/-- The session ends on a token of the source. -/
theorem Goes.current (h : Goes T limit consumer count s o) (hs : s.cursor.Stands T) :
    T o.session.cursor.current := by
  induction h with
  | finish _ | full _ | objection _ _ => exact hs.current
  | fault steps => exact steps.reaches.current hs
  | move steps _ ih => exact ih (steps.stands hs)
  | failed _ _ ih => exact ih (stands_collect hs)
  | item _ _ _ ih => exact ih hs

theorem findSome?_tokens_append (ts : List Token) (fs : List (Except Fault Token)) :
    (ts.map Except.ok ++ fs).findSome? fetchFault? = fs.findSome? fetchFault? := by
  induction ts with
  | nil => rfl
  | cons t ts ih => exact ih

/-- What is asked for comes in order. The session breaks off if a fault is among it,
    and not otherwise. -/
theorem Goes.asked (h : Goes T limit .all count s o) : ∃ asked : List (Except Fault Token),
    s.cursor.ahead = asked ++ o.session.cursor.ahead ∧
      o.stop = (asked.findSome? fetchFault?).map .fault := by
  induction h with
  | finish _ | full _ => exact ⟨[], rfl, rfl⟩
  | objection _ hc => exact absurd hc (by simp [Consumer.all])
  | @fault _ s s' f steps =>
    obtain ⟨ts, ahead⟩ := steps.reaches.exists_ahead
    refine ⟨ts.map .ok ++ [.error f], ahead.trans (List.append_assoc ..).symm, ?_⟩
    rw [findSome?_tokens_append]
    rfl
  | move steps _ ih =>
    obtain ⟨ts, ahead⟩ := steps.reaches.exists_ahead
    obtain ⟨asked, ahead', stop⟩ := ih
    refine ⟨ts.map .ok ++ asked, ?_, ?_⟩
    · rw [ahead, List.nil_append, ahead', List.append_assoc]
    · rw [findSome?_tokens_append, stop]
  | @failed _ s e _ _ _ ih => rwa [cursor_collect] at ih
  | item _ _ _ ih => exact ih

/-- The session breaks off, or it has come to the end of the input, or it ends with
    a warning for too many errors. -/
theorem Goes.ends (h : Goes T limit .all count s o) (stop : o.stop = none) :
    o.session.cursor.current.lexeme = .endOfInput ∧
        o.session.journal.diagnostics.warnings = s.journal.diagnostics.warnings ∨
      o.session.journal.diagnostics.isFull = true ∧
        ∃ n, o.session.journal.diagnostics.warnings =
          s.journal.diagnostics.warnings ++ [fullWarning n] := by
  induction h with
  | finish hend => exact .inl ⟨hend, rfl⟩
  | full hfull => exact .inr ⟨hfull, _, rfl⟩
  | fault _ | objection _ _ => exact absurd stop (Option.some_ne_none _)
  | move steps _ ih => exact steps.warnings ▸ ih stop
  | @failed _ s e _ _ _ ih => exact warnings_collect s e ▸ ih stop
  | item _ _ _ ih => exact ih stop

/-- The items are those of the source. -/
theorem Goes.units (h : Goes T limit consumer count s o) : ∀ i ∈ o.items, i.IsWellFormed T := by
  induction h with
  | finish _ | full _ | fault _ => exact List.forall_mem_nil _
  | objection unit _ => exact List.forall_mem_singleton.2 unit
  | move _ _ ih | failed _ _ ih => exact ih
  | item unit _ _ ih => exact List.forall_mem_cons.2 ⟨unit, ih⟩

theorem mem_diagnostics_fetched {c c' : Cursor} {d : Diagnostic} (hc : c.Stands T)
    (hd : d ∈ Cursor.diagnostics (c.fetched c')) : d.IsExplained limit T := by
  obtain ⟨fetch, hf, hd⟩ := List.mem_filterMap.1 hd
  have mem : fetch ∈ c.remaining := List.mem_cons_of_mem _ (List.mem_of_mem_take hf)
  cases fetch with
  | ok t => exact ⟨t, hc.tokens t mem, .inl hd⟩
  | error f => exact absurd hd (by simp)

/-- The errors that are collected are those of tokens of the source, and those of
    the grammar at such tokens. -/
theorem Goes.errors (h : Goes T limit consumer count s o) (hs : s.cursor.Stands T)
    (known : ∀ d ∈ s.errors, d.IsExplained limit T) :
    ∀ d ∈ o.session.errors, d.IsExplained limit T := by
  have stepped : ∀ {s s' : Session} {last : List (Except Fault Token)}, s.cursor.Stands T →
      s.Steps last s' → (∀ d ∈ s.errors, d.IsExplained limit T) →
      ∀ d ∈ s'.errors, d.IsExplained limit T := by
    intro s s' last hs steps known d hd
    rw [steps.errors] at hd
    exact (List.mem_append.1 hd).elim (known d) (mem_diagnostics_fetched hs)
  induction h with
  | finish _ | full _ | objection _ _ => exact known
  | fault steps => exact stepped hs steps known
  | move steps _ ih => exact ih (steps.stands hs) (stepped hs steps known)
  | @failed _ s e _ explains _ ih =>
    refine ih (stands_collect hs) ?_
    cases e with
    | violation d =>
      intro d' hd
      rcases List.mem_append.1 hd with hd | hd
      · exact known d' hd
      · exact List.mem_singleton.1 hd ▸ ⟨_, hs.current, .inr explains⟩
    | invalid _ | fault _ => exact known
  | item _ _ _ ih => exact ih hs known

theorem Goes.warnings (h : Goes T limit consumer count s o)
    (known : ∀ line ∈ s.journal.diagnostics.warnings, ∃ n, line = fullWarning n) :
    ∀ line ∈ o.session.journal.diagnostics.warnings, ∃ n, line = fullWarning n := by
  induction h with
  | finish _ | objection _ _ => exact known
  | full _ =>
    intro line hline
    exact (List.mem_append.1 hline).elim (known line) fun h => ⟨_, List.mem_singleton.1 h⟩
  | fault steps => exact steps.warnings ▸ known
  | move steps _ ih => exact ih (steps.warnings ▸ known)
  | @failed _ s e _ _ _ ih => exact ih (warnings_collect s e ▸ known)
  | item _ _ _ ih => exact ih known

/-! ## Sources -/

/-- A session that has fetched the first token of a source. -/
def opened (t : Token) (rest : List (Except Fault Token)) (journal : Journal) : Session :=
  ⟨⟨t, rest, 1, 0⟩, journal.recordAll (Cursor.diagnostics [.ok t])⟩

/-- What the reading of a program comes to: it breaks off for a fault in place of
    the first token, or goes on from there. -/
inductive Begins (T : Token → Prop) (limit : Int) (consumer : Consumer) (journal : Journal)
    (blank : Token) : List (Except Fault Token) → Outcome → Prop
  | fault {f : Fault} {rest : List (Except Fault Token)} :
      Begins T limit consumer journal blank (.error f :: rest)
        (finish ⟨⟨blank, rest, 0, 0⟩, journal⟩ (some (.fault f)))
  | token {t : Token} {rest : List (Except Fault Token)} {o : Outcome} :
      (opened t rest journal).cursor.Stands T →
      Goes T limit consumer 0 (opened t rest journal) o →
      Begins T limit consumer journal blank (.ok t :: rest) o

theorem stands_of_start {blank : Token} {journal : Journal} {fs : List (Except Fault Token)}
    (hfs : Terminated fs) (tokens : ∀ t, .ok t ∈ fs → T t)
    (hp : (⟨⟨blank, fs, 0, 0⟩, journal⟩ : Session).perform Read.advance = (.ok (), s)) :
    s.cursor.Stands T ∧ s.cursor.depth = 0 := by
  obtain ⟨fetch, rest, rfl⟩ := List.exists_cons_of_ne_nil hfs.ne_nil
  cases fetch with
  | error f => exact nomatch (Prod.mk.inj hp).1
  | ok t =>
    obtain ⟨-, rfl⟩ := Prod.mk.inj hp
    exact ⟨⟨hfs, tokens⟩, rfl⟩

/-- The reading of a program looks at no token before it has fetched one: the cursor
    may stand on any `blank` before that. -/
theorem begins_program (proper : ∀ t, T t → t.lexeme.IsProper) (limit : Int)
    (consumer : Consumer) (journal : Journal) (blank : Token) {fs : List (Except Fault Token)}
    (hfs : Terminated fs) (tokens : ∀ t, .ok t ∈ fs → T t) :
    Begins T limit consumer journal blank fs
      ((⟨⟨blank, fs, 0, 0⟩, journal⟩ : Session).program (Read.item limit) consumer) := by
  obtain ⟨fetch, rest, rfl⟩ := List.exists_cons_of_ne_nil hfs.ne_nil
  cases fetch with
  | error f => exact .fault
  | ok t =>
    have stands : (opened t rest journal).cursor.Stands T := ⟨hfs, tokens⟩
    exact .token stands (goes_itemsWithin proper stands limit consumer _ 0 (Nat.lt_succ_self _))

namespace Begins

variable {journal : Journal} {blank : Token} {fs : List (Except Fault Token)}

theorem asked (h : Begins T limit .all journal blank fs o) : ∃ asked : List (Except Fault Token),
    fs = asked ++ o.session.cursor.ahead ∧ o.stop = (asked.findSome? fetchFault?).map .fault := by
  cases h with
  | @fault f rest => exact ⟨[.error f], rfl, rfl⟩
  | @token t rest _ _ goes =>
    obtain ⟨asked, ahead, stop⟩ := goes.asked
    exact ⟨.ok t :: asked, congrArg (List.cons (.ok t)) ahead, stop⟩

theorem ends (h : Begins T limit .all journal blank fs o) (stop : o.stop = none) :
    o.session.cursor.current.lexeme = .endOfInput ∧
        o.session.journal.diagnostics.warnings = journal.diagnostics.warnings ∨
      o.session.journal.diagnostics.isFull = true ∧
        ∃ n, o.session.journal.diagnostics.warnings =
          journal.diagnostics.warnings ++ [fullWarning n] := by
  cases h with
  | fault => exact absurd stop (Option.some_ne_none _)
  | @token t rest _ _ goes =>
    have same : (opened t rest journal).journal.diagnostics.warnings =
        journal.diagnostics.warnings := Journal.warnings_recordAll _ _
    exact same ▸ goes.ends stop

theorem units (h : Begins T limit consumer journal blank fs o) :
    ∀ i ∈ o.items, i.IsWellFormed T := by
  cases h with
  | fault => exact List.forall_mem_nil _
  | token _ goes => exact goes.units

theorem current (h : Begins T limit consumer journal blank fs o) :
    o.session.cursor.current = blank ∨ T o.session.cursor.current := by
  cases h with
  | fault => exact .inl rfl
  | token stands goes => exact .inr (goes.current stands)

theorem errors (h : Begins T limit consumer journal blank fs o)
    (fresh : journal.diagnostics.errors = []) :
    ∀ d ∈ o.session.errors, d.IsExplained limit T := by
  cases h with
  | fault =>
    intro d (hd : d ∈ journal.diagnostics.errors)
    exact absurd (fresh ▸ hd) List.not_mem_nil
  | @token t rest _ stands goes =>
    refine goes.errors stands fun d hd => ?_
    have first : (opened t rest journal).errors = [] ++ Cursor.diagnostics [.ok t] :=
      fresh ▸ Journal.errors_recordAll _ _
    rw [first] at hd
    exact ⟨t, stands.current, .inl (by simpa [Cursor.diagnostics] using hd)⟩

theorem warnings (h : Begins T limit consumer journal blank fs o)
    (fresh : journal.diagnostics.warnings = []) :
    ∀ line ∈ o.session.journal.diagnostics.warnings, ∃ n, line = fullWarning n := by
  cases h with
  | fault =>
    intro line (hline : line ∈ journal.diagnostics.warnings)
    exact absurd (fresh ▸ hline) List.not_mem_nil
  | @token t rest _ _ goes =>
    refine goes.warnings fun line hline => ?_
    have none : (opened t rest journal).journal.diagnostics.warnings = [] :=
      fresh ▸ Journal.warnings_recordAll _ _
    exact absurd (none ▸ hline) List.not_mem_nil

end Begins

end Session

/-- Once the first token of a source has been fetched, the loop over its statements makes as many
    rounds as it needs, each of which begins at the depth zero. -/
theorem Session.loop_of_start (source : Scanner) (skip : Bool) (limit : Int) (consumer : Consumer)
    {journal : Journal} {opened : Session}
    (hp : (start source.file (source.fetches skip) journal).perform Read.advance =
      (.ok (), opened)) :
    Loop (fun s => s.cursor.Stands (.ok · ∈ source.fetches skip) ∧ s.cursor.depth = 0)
      (Read.item limit) consumer 0 opened
      (opened.itemsWithin (Read.item limit) consumer (opened.cursor.ahead.length + 1) 0) := by
  obtain ⟨stands, depth⟩ := stands_of_start (source.terminated_fetches skip) (fun _ ht => ht) hp
  exact depth ▸ loop_of_stands (fun t ht => (Scanner.isLexed_of_mem_fetchesWithin ht).isProper)
    stands limit consumer _ 0 (Nat.lt_succ_self _)

/-- The reading of a source, whatever the source is like. -/
theorem begins_readProgram (source : Scanner) (skip : Bool) (nesting : Int) (consumer : Consumer)
    (journal : Journal) (blank : Token) :
    let fs := source.fetches skip
    Session.Begins (.ok · ∈ fs) nesting consumer journal blank fs
      ((⟨⟨blank, fs, 0, 0⟩, journal⟩ : Session).program (Read.item nesting) consumer) := by
  intro fs
  exact Session.begins_program (fun t ht => (Scanner.isLexed_of_mem_fetchesWithin ht).isProper)
    nesting consumer journal blank (source.terminated_fetches skip) fun t ht => ht

end Soul
