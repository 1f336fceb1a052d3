import Soul.Diagnostic

/-!
# Collected diagnostics

A run over a source collects its errors and warnings in the order in which they
are found. The collection has a limit: once it holds that many errors it is
full, and the run is not to go on (`Diagnostics.isFull`). The limit is an
integer; one of zero or less makes a collection full from the start.
-/

namespace Soul

/-- The errors and warnings found so far. -/
structure Diagnostics where
  /-- The number of errors at which the collection is full. -/
  limit : Int
  /-- The errors, in the order found. -/
  errors : List Diagnostic
  /-- The warnings as lines, in the order found. -/
  warnings : List String
  deriving DecidableEq, Inhabited

namespace Diagnostics

/-- The limit where none is given. -/
def standardLimit : Int := 100

/-- Nothing found yet. -/
def empty (limit : Int) : Diagnostics := ⟨limit, [], []⟩

/-- One more error. -/
def record (d : Diagnostic) (ds : Diagnostics) : Diagnostics :=
  { ds with errors := ds.errors ++ [d] }

/-- One more warning, as a line. -/
def warn (line : String) (ds : Diagnostics) : Diagnostics :=
  { ds with warnings := ds.warnings ++ [line] }

/-- No errors and no warnings any more; the limit stays. -/
def clear (ds : Diagnostics) : Diagnostics := empty ds.limit

/-- The number of errors has reached the limit. -/
def isFull (ds : Diagnostics) : Bool := ds.limit ≤ ds.errors.length

/-- There is an error. -/
def hasErrors (ds : Diagnostics) : Bool := !ds.errors.isEmpty

/-- The errors as lines. -/
def messages (ds : Diagnostics) : List String := ds.errors.map (·.text)

/-- A number of things, the word in the singular for one of them. -/
def counted (n : Nat) (word : String) : String :=
  toString n ++ " " ++ if n = 1 then word else word ++ "s"

/-- The numbers of errors and of warnings, which are the last line of a report. -/
def summary (errors warnings : Nat) : String :=
  counted errors "error" ++ ", " ++ counted warnings "warning"

/-- The report of errors and warnings: both as given, and a summary. -/
def reportText (messages warnings : List String) : String :=
  "\n".intercalate (messages ++ warnings ++ [summary messages.length warnings.length])

/-- The errors, the warnings and a summary, a line each. -/
def report (ds : Diagnostics) : String := reportText ds.messages ds.warnings

@[simp] theorem errors_record (d : Diagnostic) (ds : Diagnostics) :
    (ds.record d).errors = ds.errors ++ [d] := rfl

@[simp] theorem warnings_record (d : Diagnostic) (ds : Diagnostics) :
    (ds.record d).warnings = ds.warnings := rfl

@[simp] theorem limit_record (d : Diagnostic) (ds : Diagnostics) :
    (ds.record d).limit = ds.limit := rfl

theorem isFull_iff (ds : Diagnostics) : ds.isFull = true ↔ ds.limit ≤ ds.errors.length :=
  decide_eq_true_iff

end Diagnostics

end Soul
