import Soul.Journal
import Soul.Problem

/-!
# Problems collected from a pool

A register collects from a fixed pool of problems. One and the same member of
the pool is collected once only, however often it is handed in, while two equal
members are collected separately: what counts is the place in the pool.
-/

namespace Soul

/-- The problems of a pool that have been collected, and warnings. -/
structure Register where
  /-- The problems that may be handed in. -/
  pool : List Problem
  /-- The number of errors at which the register is full. -/
  limit : Int
  /-- The places of the members of the pool that have been collected, in the
      order collected. -/
  held : List Nat
  /-- The warnings as lines, in the order collected. -/
  warnings : List String
  /-- The trail of what has been collected. -/
  events : List Event

namespace Register

/-- Nothing handed in yet. -/
def empty (pool : List Problem) (limit : Int) : Register := ⟨pool, limit, [], [], []⟩

/-- Hands in the member of the pool at `place`. -/
def add (r : Register) (place : Nat) : Register :=
  if r.held.contains place then r
  else match r.pool[place]? with
    | none => r
    | some p =>
      { r with held := r.held ++ [place], events := r.events ++ [.line .error .diagnostics p.text] }

/-- Collects a warning. -/
def warn (r : Register) (message : String) (location : Option Location) : Register :=
  let line := Diagnostic.line "warning" location message
  { r with
    warnings := r.warnings ++ [line]
    events := r.events ++ [.line .warning .diagnostics line] }

/-- Drops all that has been collected; the trail stays. -/
def clear (r : Register) : Register := { r with held := [], warnings := [] }

/-- Sets the number of errors at which the register is full. -/
def setLimit (r : Register) (limit : Int) : Register := { r with limit := limit }

/-- The problems collected, in the order collected. -/
def errors (r : Register) : List Problem := r.held.filterMap (r.pool[·]?)

/-- The problems collected, as texts. -/
def messages (r : Register) : List String := r.errors.map (·.text)

/-- The number of errors has reached the limit. -/
def isFull (r : Register) : Bool := r.limit ≤ r.errors.length

/-- The errors, the warnings and a summary. -/
def report (r : Register) : String := Diagnostics.reportText r.messages r.warnings

/-- The rejection of what has errors. -/
def rejection? (r : Register) : Option Problem :=
  if r.errors.isEmpty then none else some (.rejection r.report r.messages)

/-- Nothing is collected twice. -/
theorem nodup_held_add (r : Register) (place : Nat) (h : r.held.Nodup) :
    (r.add place).held.Nodup := by
  unfold add
  split
  · exact h
  · split
    · exact h
    · rename_i fresh _ _ _
      rw [List.nodup_append]
      refine ⟨h, by simp, ?_⟩
      intro a ha b hb
      rw [List.mem_singleton] at hb
      rintro rfl
      exact fresh (by simpa [hb] using ha)

end Register

end Soul
