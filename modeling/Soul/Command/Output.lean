import Soul.FrontEnd
import Soul.Text.Ansi

/-!
# The output of the command

The command writes to its output and to its error output and ends with an exit
code: `0` if all is well, `1` if the source has errors, `2` if the arguments are
wrong and `3` for any other trouble. What it writes is cleared of control
sequences, except for the lines of the journal. Of these the ones that only tell
how far the run has come are written on request, together with the level of
each line.
-/

namespace Soul.Command

/-- What a run of the command leaves. -/
structure Output where
  exit : Nat
  stdout : String
  stderr : String
  deriving DecidableEq, Inhabited

/-- What goes wrong after the arguments have been accepted. -/
inductive Trouble where
  /-- The source has errors. -/
  | source (text : String)
  /-- The file or another argument is wrong. -/
  | argument (text : String)
  /-- Anything else. -/
  | other (text : String)
  deriving DecidableEq, Inhabited

/-- The trouble that a run ends with. -/
def Trouble.ofAbort : Abort → Trouble
  | .objection d => source d.text
  | .rejected r => source r.report
  | .missing path => argument (Abort.missing path).message
  | .fault f => other f.message
  | .tooLong path => other (Abort.tooLong path).message
  | .directory path => other (Abort.directory path).message

/-- The trouble that a problem is. -/
def Trouble.ofProblem : Problem → Trouble
  | .outside .badParameter text | .outside .missingFile text | .outside .forbiddenFile text =>
    argument text
  | .outside .badValue text | .outside .failure text => other text
  | p => source p.text

namespace Output

/-- Nothing written yet. -/
def empty : Output := ⟨0, "", ""⟩

/-- Writes a line. -/
def echo (o : Output) (text : String) : Output :=
  { o with stdout := o.stdout ++ Text.clear text ++ "\n" }

/-- Writes a line to the error output. -/
def echoError (o : Output) (text : String) : Output :=
  { o with stderr := o.stderr ++ Text.clear text ++ "\n" }

/-- Writes a line of the journal to the error output. -/
def log (verbose : Bool) (o : Output) : Event → Output
  | .delivered _ => o
  | .line level _ text =>
    if verbose then { o with stderr := o.stderr ++ level.name ++ ": " ++ text ++ "\n" }
    else if level = .debug then o
    else { o with stderr := o.stderr ++ text ++ "\n" }

/-- Writes lines of the journal to the error output. -/
def logAll (verbose : Bool) (o : Output) (events : List Event) : Output :=
  events.foldl (log verbose) o

/-- Ends with an exit code. -/
def finish (o : Output) (exit : Nat) : Output := { o with exit := exit }

/-- Tells the trouble and ends. -/
def fail (o : Output) (verbose : Bool) : Trouble → Output
  | .source text => (o.echoError text).finish 1
  | .argument text => (o.echoError ("Error: " ++ text)).finish 2
  | .other text =>
    let o := o.echoError ("Internal error: " ++ text)
    let trace := if verbose then "Traceback (most recent call last):\n" else ""
    { o with stderr := o.stderr ++ trace, exit := 3 }

end Output

end Soul.Command
