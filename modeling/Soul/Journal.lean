import Soul.Diagnostics

/-!
# The journal of a run

While a run collects its diagnostics it also leaves a trail of events, in the
order in which they happen: a line for each error and each warning as it is
collected, lines that tell how far the run has come, and the text of every item
handed to the consumer of the run.
-/

namespace Soul

/-- How serious a line of the trail is. -/
inductive Level where
  | debug
  | warning
  | error
  deriving DecidableEq, Inhabited

/-- The name of a level as it stands in front of a line. -/
def Level.name : Level → String
  | debug => "DEBUG"
  | warning => "WARNING"
  | error => "ERROR"

/-- The part of the program that a line of the trail comes from. -/
inductive Channel where
  /-- The collection of errors and warnings. -/
  | diagnostics
  /-- The reading of statements. -/
  | statements
  /-- The run over a whole source. -/
  | frontEnd
  /-- The command line. -/
  | command
  deriving DecidableEq, Inhabited

/-- One event of a run. -/
inductive Event where
  /-- A line of the trail. -/
  | line (level : Level) (channel : Channel) (text : String)
  /-- An item was handed to the consumer. -/
  | delivered (text : String)
  deriving DecidableEq, Inhabited

/-- The diagnostics of a run and its trail. -/
structure Journal where
  /-- The errors and warnings collected. -/
  diagnostics : Diagnostics
  /-- The events, in the order in which they happened. -/
  events : List Event
  deriving DecidableEq, Inhabited

namespace Journal

/-- A journal with nothing in it. -/
def empty (limit : Int) : Journal := ⟨.empty limit, []⟩

/-- One more event. -/
def push (event : Event) (j : Journal) : Journal := { j with events := j.events ++ [event] }

/-- Tells how far the run has come. -/
def note (channel : Channel) (text : String) (j : Journal) : Journal :=
  j.push (.line .debug channel text)

/-- Collects an error. -/
def record (j : Journal) (d : Diagnostic) : Journal :=
  { j with diagnostics := j.diagnostics.record d }.push (.line .error .diagnostics d.text)

/-- Collects errors, one after the other. -/
def recordAll (j : Journal) (ds : List Diagnostic) : Journal := ds.foldl record j

/-- Collects a warning. -/
def warn (j : Journal) (message : String) (location : Option Location) : Journal :=
  let line := Diagnostic.line "warning" location message
  { j with diagnostics := j.diagnostics.warn line }.push (.line .warning .diagnostics line)

/-- Drops the errors and warnings; the trail stays. -/
def clear (j : Journal) : Journal := { j with diagnostics := j.diagnostics.clear }

@[simp] theorem diagnostics_push (event : Event) (j : Journal) :
    (j.push event).diagnostics = j.diagnostics := rfl

@[simp] theorem diagnostics_note (channel : Channel) (text : String) (j : Journal) :
    (j.note channel text).diagnostics = j.diagnostics := rfl

@[simp] theorem diagnostics_record (j : Journal) (d : Diagnostic) :
    (j.record d).diagnostics = j.diagnostics.record d := rfl

/-- Errors that are collected one after the other are there in that order. -/
theorem errors_recordAll (j : Journal) (ds : List Diagnostic) :
    (j.recordAll ds).diagnostics.errors = j.diagnostics.errors ++ ds := by
  induction ds generalizing j with
  | nil => exact (List.append_nil _).symm
  | cons d ds ih =>
    rw [recordAll, List.foldl_cons, ← recordAll, ih, diagnostics_record,
      Diagnostics.errors_record, List.append_assoc, List.singleton_append]

theorem limit_recordAll (j : Journal) (ds : List Diagnostic) :
    (j.recordAll ds).diagnostics.limit = j.diagnostics.limit := by
  induction ds generalizing j with
  | nil => rfl
  | cons d ds ih => exact ih (j.record d)

theorem warnings_recordAll (j : Journal) (ds : List Diagnostic) :
    (j.recordAll ds).diagnostics.warnings = j.diagnostics.warnings := by
  induction ds generalizing j with
  | nil => rfl
  | cons d ds ih => exact ih (j.record d)

end Journal

end Soul
