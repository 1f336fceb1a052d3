import Soul.Program.Read

/-!
# The loop over the statements

A program is read in rounds, and `Session.turn` is one of them. All that a round can
do is laid down by `Session.Turns`, with one rule for each way in which it may go. A
round of the loop is never looked at but through these rules.

The loop makes rounds until one of them ends it (`Session.Loop`). It is given a number
of them to make, which is never reached where each round leaves less ahead of it
(`Session.loop_itemsWithin`).
-/

namespace Soul

namespace Turn

/-- The session in which a round ends. -/
def session : Turn → Session
  | ends o => o.session
  | goes _ _ s => s

/-- The items that are read in a round. -/
def items : Turn → List Item
  | ends o => o.items
  | goes items _ _ => items

end Turn

namespace Session

/-- The session stands at a token that is neither the end of the input nor a
    comment. -/
structure AtStatement (s : Session) : Prop where
  notEnd : s.cursor.current.lexeme ≠ .endOfInput
  noComment : s.cursor.current.isComment = false

/-- What a round may come to that begins in the session `s`, with `count` items handed
    over. -/
inductive Turns (statement : Read Item) (consumer : Consumer) (count : Nat) (s : Session) :
    Turn → Prop
  | finish : s.cursor.current.lexeme = .endOfInput →
      Turns statement consumer count s (.ends ((s.note "Reached end of input").finish none))
  | comment {s' : Session} : s.cursor.current.isComment = true →
      s.perform Read.advance = (.ok (), s') → Turns statement consumer count s (.goes [] count s')
  | commentFailed {s' : Session} {e : Failure} : s.cursor.current.isComment = true →
      s.perform Read.advance = (.error e, s') →
      Turns statement consumer count s (.ends (s'.fail e))
  | item {s' : Session} {item : Item} : s.AtStatement → s.perform statement = (.ok item, s') →
      consumer count item = none →
      Turns statement consumer count s (.goes [item] (count + 1) (s'.deliver item))
  | objection {s' : Session} {item : Item} {d : Diagnostic} : s.AtStatement →
      s.perform statement = (.ok item, s') → consumer count item = some d →
      Turns statement consumer count s
        (.ends (((s'.deliver item).finish (some (.objection d))).behind [item]))
  | fault {s' : Session} {f : Fault} : s.AtStatement →
      s.perform statement = (.error (.fault f), s') →
      Turns statement consumer count s (.ends (s'.finish (some (.fault f))))
  | full {s' : Session} {e : Failure} : s.AtStatement → s.perform statement = (.error e, s') →
      (∀ f, e ≠ .fault f) → (s'.collect e).journal.diagnostics.isFull = true →
      Turns statement consumer count s (.ends ((s'.collect e).warnFull.finish none))
  | resume {s' s'' : Session} {e : Failure} : s.AtStatement →
      s.perform statement = (.error e, s') → (∀ f, e ≠ .fault f) →
      (s'.collect e).journal.diagnostics.isFull = false →
      (s'.collect e).perform Read.synchronize = (.ok (), s'') →
      Turns statement consumer count s (.goes [] count s'')
  | resumeFailed {s' s'' : Session} {e e' : Failure} : s.AtStatement →
      s.perform statement = (.error e, s') → (∀ f, e ≠ .fault f) →
      (s'.collect e).journal.diagnostics.isFull = false →
      (s'.collect e).perform Read.synchronize = (.error e', s'') →
      Turns statement consumer count s (.ends (s''.fail e'))

section Perform

variable {α : Type} {p : Read α} {s s' : Session}

theorem of_perform_ok {a : α} (h : s.perform p = (.ok a, s')) :
    ∃ c, p s.cursor = .ok a c ∧ s' = s.moveTo c := by
  unfold perform at h
  split at h
  · next b c hc =>
    obtain ⟨⟨⟩, rfl⟩ := Prod.mk.inj h
    exact ⟨c, hc, rfl⟩
  · exact nomatch (Prod.mk.inj h).1

theorem of_perform_error {e : Failure} (h : s.perform p = (.error e, s')) :
    ∃ c, p s.cursor = .error e c ∧ s' = s.moveTo c := by
  unfold perform at h
  split at h
  · exact nomatch (Prod.mk.inj h).1
  · next e' c hc =>
    obtain ⟨⟨⟩, rfl⟩ := Prod.mk.inj h
    exact ⟨c, hc, rfl⟩

end Perform

@[simp]
theorem session_fail (s : Session) (e : Failure) : (s.fail e).session = s := by
  cases e <;> rfl

@[simp]
theorem items_fail (s : Session) (e : Failure) : (s.fail e).items = [] := by
  cases e <;> rfl

variable {statement : Read Item} {consumer : Consumer} {count : Nat} {s : Session}

theorem atStatement_of_ne (hend : s.cursor.current.lexeme ≠ .endOfInput)
    (hcomment : ∀ body, s.cursor.current.lexeme ≠ .comment body) : s.AtStatement := by
  refine ⟨hend, ?_⟩
  unfold Token.isComment
  split
  · next body hlex => exact absurd hlex (hcomment body)
  · rfl

theorem turns_attempt (here : s.AtStatement) :
    Turns statement consumer count s (s.attempt statement consumer count) := by
  unfold attempt
  split
  · next item s' hp =>
    cases hc : consumer count item with
    | some d => exact .objection here hp hc
    | none => exact .item here hp hc
  · next f s' hp => exact .fault here hp
  · next e s' noFault hp =>
    dsimp only
    split
    · next full => exact .full here hp (fun f hf => noFault f hf) full
    · next full =>
      have notFull := Bool.eq_false_iff.2 full
      split
      · next s'' hs => exact .resume here hp (fun f hf => noFault f hf) notFull hs
      · next e' s'' hs => exact .resumeFailed here hp (fun f hf => noFault f hf) notFull hs

/-- A round goes in one of these ways. -/
theorem turns_turn (statement : Read Item) (consumer : Consumer) (count : Nat) (s : Session) :
    Turns statement consumer count s (s.turn statement consumer count) := by
  unfold turn
  split
  · next hend => exact .finish hend
  · next body hlex =>
    have comment : s.cursor.current.isComment = true := by simp [Token.isComment, hlex]
    split
    · next s' hp => exact .comment comment hp
    · next e s' hp => exact .commentFailed comment hp
  · next hend hcomment => exact turns_attempt (atStatement_of_ne hend hcomment)

theorem Turns.of_goes {items : List Item} {count' : Nat} {s' : Session}
    (h : s.turn statement consumer count = .goes items count' s') :
    Turns statement consumer count s (.goes items count' s') :=
  h ▸ turns_turn ..

theorem Turns.of_ends {o : Outcome} (h : s.turn statement consumer count = .ends o) :
    Turns statement consumer count s (.ends o) :=
  h ▸ turns_turn ..

/-- The items of a round have been read in it as statements. -/
theorem Turns.read {turn : Turn} (h : Turns statement consumer count s turn) :
    ∀ i ∈ turn.items, ∃ s', s.perform statement = (.ok i, s') := by
  cases h with
  | finish _ | comment _ _ | fault _ _ | full _ _ _ _ | resume _ _ _ _ _ =>
    exact List.forall_mem_nil _
  | commentFailed _ _ | resumeFailed _ _ _ _ _ =>
    rw [Turn.items, items_fail]
    exact List.forall_mem_nil _
  | item _ hp _ | objection _ hp _ => exact List.forall_mem_singleton.2 ⟨_, hp⟩

/-- What a round comes to hangs on what the statement comes to that is read in it, if it is
    one for a statement. -/
theorem turn_congr {statement' : Read Item}
    (h : s.AtStatement → s.perform statement' = s.perform statement) (consumer : Consumer)
    (count : Nat) : s.turn statement' consumer count = s.turn statement consumer count := by
  unfold turn
  split
  · rfl
  · rfl
  · next hend hcomment =>
    unfold attempt
    rw [h (atStatement_of_ne hend hcomment)]

theorem itemsWithin_of_ends {o : Outcome} (h : s.turn statement consumer count = .ends o)
    (rounds : Nat) : s.itemsWithin statement consumer (rounds + 1) count = o := by
  rw [itemsWithin, h]

theorem itemsWithin_of_goes {items : List Item} {count' : Nat} {s' : Session}
    (h : s.turn statement consumer count = .goes items count' s') (rounds : Nat) :
    s.itemsWithin statement consumer (rounds + 1) count =
      (s'.itemsWithin statement consumer rounds count').behind items := by
  rw [itemsWithin, h]

/-- What every round preserves, the loop preserves; and what the items of every round
    satisfy, all of them satisfy. -/
theorem itemsWithin_preserves {I : Session → Prop} {Q : Item → Prop}
    (step : ∀ {count : Nat} {s : Session} {turn : Turn}, I s →
      Turns statement consumer count s turn → I turn.session ∧ ∀ i ∈ turn.items, Q i)
    (rounds count : Nat) (hs : I s) :
    I (s.itemsWithin statement consumer rounds count).session ∧
      ∀ i ∈ (s.itemsWithin statement consumer rounds count).items, Q i := by
  induction rounds generalizing s count with
  | zero => exact ⟨hs, List.forall_mem_nil _⟩
  | succ rounds ih =>
    cases ht : s.turn statement consumer count with
    | ends o =>
      rw [itemsWithin_of_ends ht]
      exact step hs (.of_ends ht)
    | goes items count' s' =>
      obtain ⟨hs', first⟩ := step hs (.of_goes ht)
      obtain ⟨last, others⟩ := ih count' hs'
      rw [itemsWithin_of_goes ht]
      exact ⟨last, List.forall_mem_append.2 ⟨first, others⟩⟩

/-- The loop from the session `s` on, in which each round begins in a session that
    satisfies `I`. -/
inductive Loop (I : Session → Prop) (statement : Read Item) (consumer : Consumer) :
    (count : Nat) → Session → Outcome → Prop
  | ends {count : Nat} {s : Session} {o : Outcome} : I s →
      s.turn statement consumer count = .ends o → Loop I statement consumer count s o
  | goes {count count' : Nat} {s s' : Session} {items : List Item} {o : Outcome} : I s →
      s.turn statement consumer count = .goes items count' s' →
      Loop I statement consumer count' s' o → Loop I statement consumer count s (o.behind items)

theorem Loop.mono {I J : Session → Prop} {o : Outcome} (h : Loop I statement consumer count s o)
    (hij : ∀ s, I s → J s) : Loop J statement consumer count s o := by
  induction h with
  | ends hs ht => exact .ends (hij _ hs) ht
  | goes hs ht _ ih => exact .goes (hij _ hs) ht ih

/-- A loop in which each round leaves less ahead makes as many rounds as it needs. -/
theorem loop_itemsWithin {I : Session → Prop}
    (progress : ∀ {count count' : Nat} {s s' : Session} {items : List Item}, I s →
      Turns statement consumer count s (.goes items count' s') →
      I s' ∧ s'.cursor.ahead.length < s.cursor.ahead.length)
    (rounds count : Nat) (hs : I s) (hr : s.cursor.ahead.length < rounds) :
    Loop I statement consumer count s (s.itemsWithin statement consumer rounds count) := by
  induction rounds generalizing s count with
  | zero => exact absurd hr (Nat.not_lt_zero _)
  | succ rounds ih =>
    cases ht : s.turn statement consumer count with
    | ends o =>
      rw [itemsWithin_of_ends ht]
      exact .ends hs ht
    | goes items count' s' =>
      obtain ⟨hs', less⟩ := progress hs (.of_goes ht)
      rw [itemsWithin_of_goes ht]
      exact .goes hs ht (ih count' hs' (by omega))

end Session

end Soul
