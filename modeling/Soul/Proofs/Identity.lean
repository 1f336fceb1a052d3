import Soul.Register
import Soul.Proofs.Course

/-!
# Errors by identity

A session collects the error of a token as soon as the token is fetched. A statement that
fails at this token fails with the same error, which is not collected again
(`Failure.invalid`), while each error of the grammar is a new one (`Failure.violation`).
Two errors may say the same and still be two.

A register tells errors apart in this way, by their places in a pool. So let there be a
ledger beside the session: a register in which each error takes a new place when it comes
up, and to which an error is handed in whenever the session comes across it, be it for the
second time (`Session.Filed`). The register comes to hold what the session has collected,
and no place twice (`readProgram_filed`).
-/

namespace Soul

namespace Register

variable {r : Register} {place : Nat} {limit : Int} {ds : List Diagnostic}

/-- Hands in a problem that comes up, which takes a new place in the pool. -/
def addNew (r : Register) (p : Problem) : Register :=
  { r with pool := r.pool ++ [p] }.add r.pool.length

/-- The register holds these errors, at places in the pool of which none is held twice, and
    is full when there are `limit` of them. -/
structure Holds (r : Register) (limit : Int) (ds : List Diagnostic) : Prop where
  errors : r.errors = ds.map .diagnostic
  places : ∀ place ∈ r.held, place < r.pool.length
  nodup : r.held.Nodup
  limit : r.limit = limit

/-- What is held already is not collected again. -/
theorem add_of_mem (h : place ∈ r.held) : r.add place = r :=
  if_pos (List.contains_iff_mem.2 h)

theorem addNew_eq (places : ∀ place ∈ r.held, place < r.pool.length) (p : Problem) :
    r.addNew p =
      { r with
        pool := r.pool ++ [p]
        held := r.held ++ [r.pool.length]
        events := r.events ++ [.line .error .diagnostics p.text] } := by
  have fresh : ¬r.held.contains r.pool.length = true := fun held =>
    Nat.lt_irrefl _ (places _ (List.contains_iff_mem.1 held))
  unfold addNew add
  rw [if_neg fresh, List.getElem?_concat_length]

/-- An error that comes up is collected, whatever the others say. -/
theorem Holds.addNew (h : r.Holds limit ds) (d : Diagnostic) :
    (r.addNew (.diagnostic d)).Holds limit (ds ++ [d]) where
  errors := by
    have old : r.held.filterMap ((r.pool ++ [.diagnostic d])[·]?) = r.errors :=
      List.filterMap_congr fun place held => List.getElem?_append_left (h.places place held)
    rw [addNew_eq h.places, Register.errors, List.filterMap_append, old, h.errors]
    simp
  places := by
    rw [addNew_eq h.places]
    intro place held
    rw [List.length_append, List.length_singleton]
    rcases List.mem_append.1 held with held | held
    · exact Nat.lt_succ_of_lt (h.places place held)
    · exact List.mem_singleton.1 held ▸ Nat.lt_succ_self _
  nodup := nodup_held_add _ _ h.nodup
  limit := by
    rw [addNew_eq h.places]
    exact h.limit

/-- Hands in errors that come up, one after the other. -/
def addAll (r : Register) (ds : List Diagnostic) : Register :=
  ds.foldl (fun r d => r.addNew (.diagnostic d)) r

theorem Holds.addAll (h : r.Holds limit ds) (more : List Diagnostic) :
    (r.addAll more).Holds limit (ds ++ more) := by
  induction more generalizing r ds with
  | nil => exact (List.append_nil ds).symm ▸ h
  | cons d more ih => exact List.append_cons ds d more ▸ ih (h.addNew d)

theorem holds_empty (limit : Int) : (empty [] limit).Holds limit [] :=
  ⟨rfl, List.forall_mem_nil _, List.nodup_nil, rfl⟩

theorem Holds.isFull_eq {diagnostics : Diagnostics}
    (h : r.Holds diagnostics.limit diagnostics.errors) : r.isFull = diagnostics.isFull := by
  rw [isFull, Diagnostics.isFull, h.errors, h.limit, List.length_map]

end Register

/-- A register, and the place in it of the error of the current token. -/
structure Ledger where
  register : Register
  own : Option Nat

namespace Ledger

/-- A ledger that holds what a journal has collected. -/
def ofJournal (j : Journal) : Ledger :=
  ⟨(Register.empty [] j.diagnostics.limit).addAll j.diagnostics.errors, none⟩

/-- Hands in the error of a token that has been fetched, if it has one. -/
def fetch (l : Ledger) : Except Fault Token → Ledger
  | .ok t =>
    match t.diagnostic? with
    | some d => ⟨l.register.addNew (.diagnostic d), some l.register.pool.length⟩
    | none => { l with own := none }
  | .error _ => l

/-- Hands in the errors of tokens that have been fetched, one after the other. -/
def fetchAll (l : Ledger) (fs : List (Except Fault Token)) : Ledger := fs.foldl fetch l

/-- Hands in the error of a statement that fails at the current token: the error of the
    token, or a new one. -/
def fail (l : Ledger) : Failure → Ledger
  | .invalid _ =>
    match l.own with
    | some place => { l with register := l.register.add place }
    | none => l
  | .violation d => { l with register := l.register.addNew (.diagnostic d) }
  | .fault _ => l

/-- The error of the token, if it has one, has been handed in, and its place is known. -/
def Owns (l : Ledger) (t : Token) : Prop :=
  ∀ d, t.diagnostic? = some d → ∃ place ∈ l.register.held, l.own = some place ∧
    l.register.pool[place]? = some (.diagnostic d)

variable {l : Ledger} {limit : Int} {ds : List Diagnostic} {t : Token}

theorem holds_fetch (h : l.register.Holds limit ds) (f : Except Fault Token) :
    (l.fetch f).register.Holds limit (ds ++ Cursor.diagnostics [f]) := by
  cases f with
  | error f => exact (List.append_nil ds).symm ▸ h
  | ok t =>
    cases hd : t.diagnostic? with
    | none => simpa [fetch, Cursor.diagnostics, hd] using h
    | some d => simpa [fetch, Cursor.diagnostics, hd] using h.addNew d

theorem holds_fetchAll (h : l.register.Holds limit ds) (fs : List (Except Fault Token)) :
    (l.fetchAll fs).register.Holds limit (ds ++ Cursor.diagnostics fs) := by
  induction fs generalizing l ds with
  | nil => exact (List.append_nil ds).symm ▸ h
  | cons f fs ih =>
    have next := ih (holds_fetch h f)
    rwa [List.append_assoc, Cursor.diagnostics, Cursor.diagnostics, ← List.filterMap_append] at next

theorem owns_fetch (h : l.register.Holds limit ds) (t : Token) : (l.fetch (.ok t)).Owns t := by
  intro d hd
  have new : l.fetch (.ok t) =
      ⟨l.register.addNew (.diagnostic d), some l.register.pool.length⟩ := by simp [fetch, hd]
  rw [new, Register.addNew_eq h.places]
  exact ⟨_, List.mem_append_right _ (List.mem_singleton_self _), rfl, List.getElem?_concat_length⟩

theorem Owns.addNew (h : l.Owns t) (holds : l.register.Holds limit ds) (p : Problem) :
    Owns { l with register := l.register.addNew p } t := by
  intro d hd
  obtain ⟨place, held, own, pool⟩ := h d hd
  rw [Register.addNew_eq holds.places]
  refine ⟨place, List.mem_append_left _ held, own, ?_⟩
  rw [← pool]
  exact List.getElem?_append_left (holds.places place held)

/-- A statement that fails with the error of the current token hands in one that is held. -/
theorem Owns.fail_invalid (h : l.Owns t) {d : Diagnostic} (hd : t.diagnostic? = some d) :
    l.fail (.invalid d) = l := by
  obtain ⟨register, own⟩ := l
  obtain ⟨place, held, known, -⟩ := h d hd
  obtain rfl : own = some place := known
  exact congrArg (Ledger.mk · _) (Register.add_of_mem held)

end Ledger

/-- What has been fetched on the way from one cursor to another ends with the token that it
    has come to. -/
theorem Cursor.Reaches.fetched_cases {c c' : Cursor} {last : List (Except Fault Token)}
    (h : c.Reaches last c') :
    c.fetched c' = [] ∧ c'.current = c.current ∨ ∃ fs, c.fetched c' = fs ++ [.ok c'.current] := by
  obtain ⟨before, passes⟩ := h
  have taken := passes.taken
  cases before with
  | nil =>
    refine .inl ⟨?_, (Except.ok.inj (List.cons.inj passes.remaining).1).symm⟩
    rw [fetched, taken, List.length_nil, Nat.add_zero, Nat.sub_self, List.take_zero]
  | cons b before =>
    refine .inr ⟨before.map .ok, ?_⟩
    have ahead : c.ahead = (before.map .ok ++ [.ok c'.current]) ++ (last ++ c'.ahead) := by
      rw [List.append_assoc]
      exact (List.cons.inj passes.remaining).2
    have count : c'.taken - c.taken =
        (before.map Except.ok ++ [Except.ok (ε := Fault) c'.current]).length := by
      simp only [List.length_append, List.length_map, List.length_cons, List.length_nil] at taken ⊢
      omega
    rw [fetched, count, ahead, List.take_left]

namespace Session

/-- The ledger holds what the session has collected, and knows the error of the current
    token. -/
structure Mirrors (s : Session) (l : Ledger) : Prop where
  holds : l.register.Holds s.journal.diagnostics.limit s.errors
  owns : l.Owns s.cursor.current

/-- With the ledger `l` beside it a session goes on to another one, with the ledger `l'`. The
    ledger is handed in the errors of the tokens that are fetched and of the statements that
    fail. -/
inductive Filed (limit : Int) : Session → Ledger → Session → Ledger → Prop
  | done {s : Session} {l : Ledger} : Filed limit s l s l
  | move {s s' s'' : Session} {l l'' : Ledger} {last : List (Except Fault Token)} :
      s.Steps last s' → Filed limit s' (l.fetchAll (s.cursor.fetched s'.cursor)) s'' l'' →
      Filed limit s l s'' l''
  | fail {s s'' : Session} {l l'' : Ledger} {e : Failure} : Explains limit s.cursor.current e →
      Filed limit (s.collect e) (l.fail e) s'' l'' → Filed limit s l s'' l''
  | note {s s' s'' : Session} {l l'' : Ledger} : Filed limit s' l s'' l'' →
      s'.cursor = s.cursor → s'.errors = s.errors →
      s'.journal.diagnostics.limit = s.journal.diagnostics.limit → Filed limit s l s'' l''

variable {T : Token → Prop} {limit : Int} {consumer : Consumer} {count : Nat} {s s' : Session}
  {l l' : Ledger} {o : Outcome} {last : List (Except Fault Token)}

theorem Mirrors.steps (h : s.Mirrors l) (steps : s.Steps last s') :
    s'.Mirrors (l.fetchAll (s.cursor.fetched s'.cursor)) where
  holds := by
    have limit : s'.journal.diagnostics.limit = s.journal.diagnostics.limit := by
      rw [steps.moved]
      exact Journal.limit_recordAll _ _
    rw [limit, steps.errors]
    exact Ledger.holds_fetchAll h.holds _
  owns := by
    obtain ⟨none, current⟩ | ⟨fs, fetched⟩ := steps.reaches.fetched_cases
    · rw [none, current]
      exact h.owns
    · rw [fetched, Ledger.fetchAll, List.foldl_append]
      exact Ledger.owns_fetch (Ledger.holds_fetchAll h.holds fs) _

theorem Mirrors.collect (h : s.Mirrors l) {e : Failure} (he : Explains limit s.cursor.current e) :
    (s.collect e).Mirrors (l.fail e) := by
  cases e with
  | fault f => exact h
  | violation d => exact ⟨h.holds.addNew d, h.owns.addNew h.holds _⟩
  | invalid d =>
    cases he with
    | invalid hd => exact (h.owns.fail_invalid hd).symm ▸ h

/-- The ledger goes on to hold what the session has collected. -/
theorem Filed.mirrors (h : Filed limit s l s' l') (start : s.Mirrors l) : s'.Mirrors l' := by
  induction h with
  | done => exact start
  | move steps _ ih => exact ih (start.steps steps)
  | fail explains _ ih => exact ih (start.collect explains)
  | note _ cursor errors limit ih => exact ih ⟨limit ▸ errors ▸ start.holds, cursor ▸ start.owns⟩

theorem Goes.filed (h : Goes T limit consumer count s o) (l : Ledger) :
    ∃ l', Filed limit s l o.session l' := by
  induction h generalizing l with
  | finish _ | full _ | objection _ _ => exact ⟨l, .note .done rfl rfl rfl⟩
  | fault steps => exact ⟨_, .move steps .done⟩
  | move steps _ ih =>
    obtain ⟨l', filed⟩ := ih _
    exact ⟨l', .move steps filed⟩
  | failed explains _ ih =>
    obtain ⟨l', filed⟩ := ih _
    exact ⟨l', .fail explains filed⟩
  | item _ _ _ ih =>
    obtain ⟨l', filed⟩ := ih l
    exact ⟨l', .note filed rfl rfl rfl⟩

theorem Begins.filed {journal : Journal} {blank : Token} {fs : List (Except Fault Token)}
    (h : Begins T limit consumer journal blank fs o) (l : Ledger) :
    ∃ l', Filed limit ⟨⟨blank, fs, 0, 0⟩, journal⟩ l o.session l' := by
  cases h with
  | @fault f rest =>
    have steps : Steps ⟨⟨blank, .error f :: rest, 0, 0⟩, journal⟩ [.error f]
        ⟨⟨blank, rest, 0, 0⟩, journal⟩ := ⟨⟨[], rfl, rfl, rfl⟩, rfl⟩
    exact ⟨_, .move steps .done⟩
  | @token t rest _ _ goes =>
    have steps : Steps ⟨⟨blank, .ok t :: rest, 0, 0⟩, journal⟩ [] (opened t rest journal) :=
      ⟨⟨[blank], rfl, rfl, rfl⟩, rfl⟩
    obtain ⟨l', filed⟩ := goes.filed _
    exact ⟨l', .move steps filed⟩

end Session

/-- The reading of a source collects each error once, and tells errors apart by where they
    come up, not by what they say. -/
theorem readProgram_filed (source : Scanner) (skip : Bool) (nesting : Int) (consumer : Consumer)
    (journal : Journal) :
    let o := readProgram source skip nesting consumer journal
    ∃ l, Session.Filed nesting (.start source.file (source.fetches skip) journal)
        (.ofJournal journal) o.session l ∧
      l.register.errors = o.errors.map .diagnostic ∧ l.register.held.Nodup ∧
      l.register.isFull = o.session.journal.diagnostics.isFull := by
  intro o
  obtain ⟨l, filed⟩ := (begins_readProgram source skip nesting consumer journal
    ⟨.endOfInput, source.file, .start, true⟩).filed (.ofJournal journal)
  have start : (Session.start source.file (source.fetches skip) journal).Mirrors
      (.ofJournal journal) :=
    ⟨(Register.holds_empty _).addAll _, fun d hd => nomatch hd⟩
  have mirrors := filed.mirrors start
  exact ⟨l, filed, mirrors.holds.errors, mirrors.holds.nodup, mirrors.holds.isFull_eq⟩

end Soul
