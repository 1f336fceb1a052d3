import Soul.Item.Read
import Soul.Journal

/-!
# Reading programs

A program is read statement by statement up to the end of the input. Comments
between statements are passed over. Each item goes to a consumer as soon as it
has been read.

A statement that cannot be read is left out. Its diagnostic is collected, once,
and the reading goes on at the next token with which a statement may begin: a
dollar sign, a dot or the end of the input. If the collection of diagnostics is
full by then, the program ends there with a warning.

The diagnostic of a token that is none of the language is collected when the
token is fetched, whether or not a statement fails at it.
-/

namespace Soul

/-- A reading that is going on. -/
structure Session where
  cursor : Cursor
  journal : Journal

/-- What becomes of each item: given the number of items handed over before, the
    consumer takes it or objects to it. -/
abbrev Consumer := Nat → Item → Option Diagnostic

/-- The consumer that takes every item. -/
def Consumer.all : Consumer := fun _ _ => none

/-- Why the reading of a program breaks off. -/
inductive Stop where
  | fault (f : Fault)
  /-- The consumer objects to an item. -/
  | objection (d : Diagnostic)
  deriving DecidableEq, Inhabited

namespace Session

/-- A session before the first token of a source. -/
def start (file : String) (ahead : List (Except Fault Token)) (journal : Journal) : Session :=
  ⟨.start file ahead, journal⟩

/-- Moves the cursor and collects the diagnostics of the tokens fetched. -/
def moveTo (s : Session) (c : Cursor) : Session :=
  ⟨c, s.journal.recordAll (Cursor.diagnostics (s.cursor.fetched c))⟩

/-- Carries out a reading. -/
def perform {α : Type} (s : Session) (p : Read α) : Except Failure α × Session :=
  match p s.cursor with
  | .ok a c => (.ok a, s.moveTo c)
  | .error e c => (.error e, s.moveTo c)

/-- Notes something about the statements in the journal. -/
def note (s : Session) (text : String) : Session :=
  { s with journal := s.journal.note .statements text }

end Session

/-- What the journal says of an item that has been read. -/
def Item.note : Item → String
  | use i => "Parsed import: $" ++ i.text
  | define d => "Parsed function: " ++ d.text
  | evaluate body _ => "Parsed top-level expression: " ++ body.text

/-- The end of the reading of a program. -/
structure Outcome where
  /-- The items read, all of which the consumer has been given. -/
  items : List Item
  /-- Why the reading broke off, if it did. -/
  stop : Option Stop
  session : Session

namespace Outcome

/-- The outcome with more items in front. -/
def behind (items : List Item) (o : Outcome) : Outcome := { o with items := items ++ o.items }

/-- The program of the items read. -/
def program (o : Outcome) : Program :=
  ⟨o.items, some ⟨o.session.cursor.current.file, 1, 1⟩⟩

end Outcome

/-- What a round of the loop over the statements comes to. -/
inductive Turn where
  /-- The loop ends. -/
  | ends (o : Outcome)
  /-- The loop goes on, behind the items, with `count` items handed over so far. -/
  | goes (items : List Item) (count : Nat) (s : Session)

namespace Session

/-- The outcome of a session that ends here. -/
def finish (s : Session) (stop : Option Stop) : Outcome := ⟨[], stop, s⟩

/-- The outcome of a session that ends with a failure. -/
def fail (s : Session) : Failure → Outcome
  | .fault f => s.finish (some (.fault f))
  | .invalid _ | .violation _ => s.finish none

/-- Collects the diagnostic of a failed statement, unless it is known. -/
def collect (s : Session) : Failure → Session
  | .violation d => { s with journal := s.journal.record d }
  | .invalid _ | .fault _ => s

/-- Warns that the reading ends for too many errors. -/
def warnFull (s : Session) : Session :=
  let count := toString s.journal.diagnostics.errors.length
  { s with journal := s.journal.warn ("too many errors (" ++ count ++ "), stopping") none }

/-- Notes an item and hands it to the consumer. -/
def deliver (s : Session) (item : Item) : Session :=
  let s := s.note item.note
  { s with journal := s.journal.push (.delivered item.text) }

/-- What the loop over the statements does at a token that is neither the end of the
    input nor a comment: it reads a statement by `statement`, and makes good for it if
    that fails. -/
def attempt (statement : Read Item) (consumer : Consumer) (count : Nat) (s : Session) : Turn :=
  match s.perform statement with
  | (.ok item, s) =>
    let s := s.deliver item
    match consumer count item with
    | some d => .ends ((s.finish (some (.objection d))).behind [item])
    | none => .goes [item] (count + 1) s
  | (.error (.fault f), s) => .ends (s.finish (some (.fault f)))
  | (.error failure, s) =>
    let s := s.collect failure
    if s.journal.diagnostics.isFull then .ends (s.warnFull.finish none)
    else match s.perform Read.synchronize with
      | (.ok _, s) => .goes [] count s
      | (.error failure, s) => .ends (s.fail failure)

/-- One round of the loop over the statements, of which `count` have been read
    before. -/
def turn (statement : Read Item) (consumer : Consumer) (count : Nat) (s : Session) : Turn :=
  match s.cursor.current.lexeme with
  | .endOfInput => .ends ((s.note "Reached end of input").finish none)
  | .comment _ =>
    match s.perform Read.advance with
    | (.ok _, s) => .goes [] count s
    | (.error failure, s) => .ends (s.fail failure)
  | _ => s.attempt statement consumer count

/-- Reads statements, each by `statement`, of which `count` have been read before and
    at most `rounds` are tried. -/
def itemsWithin (statement : Read Item) (consumer : Consumer) :
    (rounds count : Nat) → Session → Outcome
  | 0, _, s => s.finish none
  | rounds + 1, count, s =>
    match s.turn statement consumer count with
    | .ends o => o
    | .goes items count s => (itemsWithin statement consumer rounds count s).behind items

/-- Reads a program from the next token on, each statement by `statement`. -/
def program (statement : Read Item) (consumer : Consumer) (s : Session) : Outcome :=
  match s.perform Read.advance with
  | (.ok _, s) => s.itemsWithin statement consumer (s.cursor.ahead.length + 1) 0
  | (.error failure, s) => s.fail failure

end Session

/-- The number of expressions that may be inside each other, where nothing else
    is said. -/
def standardNesting : Int := 100

/-- The number of frames that the stack has room for, where nothing else is said. -/
def standardStack : Nat := 1000

end Soul
