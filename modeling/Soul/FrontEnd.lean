import Soul.File.Lines
import Soul.File.Path
import Soul.File.Store
import Soul.Program.Read

/-!
# The front end

The front end reads a program from a source, a text or a file. Its options say
whether comments are dropped before the reading, how many errors are too many,
and whether any error at all makes the run fail (`Options.strict`). In the last
case the failure tells all errors at once.
-/

namespace Soul

/-- How a source is to be read. -/
structure Options where
  /-- Comments are dropped before the reading. -/
  skipComments : Bool
  /-- The number of errors at which the reading ends. -/
  limit : Int
  /-- Any error makes the run fail. -/
  strict : Bool
  deriving DecidableEq, Inhabited

/-- The options where none are given. -/
def Options.standard : Options := ⟨false, Diagnostics.standardLimit, false⟩

/-- All errors of a run that fails for them. -/
structure Rejection where
  report : String
  errors : List Diagnostic
  deriving DecidableEq, Inhabited

/-- The rejection of what has errors. -/
def Diagnostics.rejection? (ds : Diagnostics) : Option Rejection :=
  if ds.hasErrors then some ⟨ds.report, ds.errors⟩ else none

/-- Why a run gives no result. -/
inductive Abort where
  | fault (f : Fault)
  /-- The consumer objects to an item. -/
  | objection (d : Diagnostic)
  | rejected (r : Rejection)
  /-- There is no such file. -/
  | missing (path : String)
  /-- The path of the file is too long. -/
  | tooLong (path : String)
  /-- The file is a directory. -/
  | directory (path : String)
  deriving DecidableEq, Inhabited

namespace Abort

/-- The abort for a reading that breaks off. -/
def ofStop : Stop → Abort
  | .fault f => fault f
  | .objection d => objection d

/-- Why a run gives no result, in words. -/
def message : Abort → String
  | fault f => f.message
  | objection d => d.text
  | rejected r => r.report
  | missing path => "Source file not found: " ++ path
  | tooLong path => "[Errno 36] File name too long: " ++ Text.quoted path
  | directory path => "[Errno 21] Is a directory: " ++ Text.quoted path

end Abort

/-- What a run gives. -/
structure Parsed where
  /-- The name of the source. -/
  file : String
  program : Program
  diagnostics : List Diagnostic
  /-- The number of tokens fetched. -/
  tokenCount : Nat

/-- A run, whether it gives a result or not. -/
structure Run where
  result : Except Abort Parsed
  /-- The items that the consumer has been given. -/
  items : List Item
  journal : Journal

namespace Run

/-- A run that gives nothing. -/
def failed (abort : Abort) (journal : Journal) : Run := ⟨.error abort, [], journal⟩

end Run

/-- Reads a program from a source, each statement by `statement`, adding to a
    journal. -/
def readProgramBy (statement : Read Item) (source : Scanner) (skipComments : Bool)
    (consumer : Consumer) (journal : Journal) : Outcome :=
  (Session.start source.file (source.fetches skipComments) journal).program statement consumer

/-- Reads a program from a source, adding to a journal. -/
def readProgram (source : Scanner) (skipComments : Bool) (nesting : Int) (consumer : Consumer)
    (journal : Journal) : Outcome :=
  readProgramBy (Read.item nesting) source skipComments consumer journal

/-- Reads a program from a source with a bounded stack, adding to a journal. -/
def readProgramOn (stack : Nat) (source : Scanner) (skipComments : Bool) (nesting : Int)
    (consumer : Consumer) (journal : Journal) : Outcome :=
  readProgramBy (Read.itemOn nesting stack) source skipComments consumer journal

namespace Outcome

/-- The result of a reading of a source. -/
def result (o : Outcome) (file : String) : Parsed :=
  ⟨file, o.program, o.session.journal.diagnostics.errors, o.session.cursor.taken⟩

/-- The reading of a source as a run, which fails for errors if it is strict. -/
def run (o : Outcome) (file : String) (strict : Bool) : Run :=
  let journal := o.session.journal
  let rejection := if strict then journal.diagnostics.rejection? else none
  match o.stop, rejection with
  | some stop, _ => ⟨.error (.ofStop stop), o.items, journal⟩
  | none, some r => ⟨.error (.rejected r), o.items, journal⟩
  | none, none => ⟨.ok (o.result file), o.items, journal⟩

/-- Notes in the journal what a reading has come to, unless it broke off. -/
def noteResult (o : Outcome) (file : String) : Outcome :=
  let s := o.session
  let text := "Parsed " ++ file ++ ": " ++ toString o.items.length ++ " units, " ++
    toString s.cursor.taken ++ " tokens, " ++ toString s.journal.diagnostics.errors.length ++
    " errors"
  if o.stop.isSome then o
  else { o with session.journal := s.journal.note .frontEnd text }

end Outcome

namespace FrontEnd

/-- The journal of a run that begins to read a source. -/
def journal (options : Options) (source : Scanner) : Journal :=
  (Journal.empty options.limit).note .frontEnd ("Parsing " ++ source.file)

/-- Reads a source. -/
def run (options : Options) (consumer : Consumer) (source : Scanner) : Run :=
  let outcome := readProgram source options.skipComments standardNesting consumer
    (journal options source)
  (outcome.noteResult source.file).run source.file options.strict

/-- Reads a source with a bounded stack. -/
def runOn (stack : Nat) (options : Options) (consumer : Consumer) (source : Scanner) : Run :=
  let outcome := readProgramOn stack source options.skipComments standardNesting consumer
    (journal options source)
  (outcome.noteResult source.file).run source.file options.strict

/-- Reads a file with a bounded stack. The path is brought into its normal form, under
    which `look` finds the file. -/
def runFile (stack : Nat) (options : Options) (consumer : Consumer)
    (look : String → File.Lookup) (path : String) : Run :=
  let name := File.normalize path
  match look name with
  | .missing => .failed (.missing path) (.empty options.limit)
  | .tooLong => .failed (.tooLong name) (.empty options.limit)
  | .directory => .failed (.directory name) (.empty options.limit)
  | .file bytes => runOn stack options consumer (File.scanner name bytes)

end FrontEnd

end Soul
