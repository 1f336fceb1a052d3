import Soul.Command.Arguments
import Soul.Command.Output
import Soul.Outline

/-!
# The command

The command reads a file and writes each of its items, or the outline of the
program, or a listing of the tokens. Errors go to the error output as they are
found, and a count of them at the end.
-/

namespace Soul.Command

/-- How the command is called. -/
def usageLine : String := "Usage: soulc [OPTIONS] INPUT_FILE"

/-- The answer to a request for help. -/
def helpLines : List String :=
  [usageLine,
   "",
   "  Parse a Soulite source file.",
   "",
   "  INPUT_FILE is the source file (.soul) to parse.",
   "",
   "  Examples:",
   "      soulc main.soul            # Print each parsed unit",
   "      soulc --ast main.soul      # Print the AST tree",
   "      soulc --tokens main.soul   # Print the tokens",
   "",
   "Options:",
   "  --ast                       Print the AST as an indented tree",
   "  --tokens                    Print the token stream and exit (not with --ast)",
   "  --skip-comments             Drop comments in the lexer",
   "  --max-errors INTEGER RANGE  Stop parsing after this many errors (ignored",
   "                              with --tokens)  [default: 100; x>=1]",
   "  -v, --verbose               Verbose output",
   "  --version                   Show the version and exit.",
   "  --help                      Show this message and exit."]

/-- The answer to a request for the version. -/
def versionLine : String := "soulc, version 1.0.0"

/-- Tells what is wrong with the arguments. -/
def refuse (e : UsageError) : Output :=
  let o := if e.showsUsage then
      ((Output.empty.echoError usageLine).echoError "Try 'soulc --help' for help.").echoError ""
    else Output.empty
  (o.echoError ("Error: " ++ e.message)).finish 2

/-- The word for a truth value. -/
def truthWord (b : Bool) : String := if b then "True" else "False"

/-- The options in one line. -/
def optionsText (o : Options) : String :=
  "FrontendOptions(skip_comments=" ++ truthWord o.skipComments ++ ", max_errors=" ++
    toString o.limit ++ ", strict=" ++ truthWord o.strict ++ ")"

/-- Writes a listing of tokens up to the first fault. -/
def listTokens (verbose : Bool) : (fetches : List (Except Fault Token)) → (found : Nat) →
    Output → Output
  | [], found, o => o.finish (if found = 0 then 0 else 1)
  | .error f :: _, _, o => o.fail verbose (.other f.message)
  | .ok token :: rest, found, o =>
    let o := match token.diagnostic? with
      | some d => o.log verbose (.line .error .diagnostics d.text)
      | none => o
    let found := if token.diagnostic?.isSome then found + 1 else found
    if token.isEnd then listTokens verbose rest found o
    else listTokens verbose rest found (o.echo token.record.listing)

/-- Tells how much has been read and ends. -/
def concludeProgram (settings : Settings) (parsed : Parsed) (o : Output) : Output :=
  let program := parsed.program
  let o := if settings.verbose then
      o.echoError ("Parsed " ++ toString program.items.length ++ " units from " ++
        toString parsed.tokenCount ++ " tokens")
    else o
  let count := parsed.diagnostics.length
  if count = 0 then o
  else (o.echoError (Diagnostics.counted count "error" ++ " in " ++ parsed.file)).finish 1

/-- Writes a program and ends. The stack has to have room for the outline; for the
    texts of the items it has had room when they were read. -/
def showProgram (stack : Nat) (settings : Settings) (parsed : Parsed) (o : Output) : Output :=
  let program := parsed.program
  if settings.ast then
    if stack < program.outlineFrames then
      o.fail settings.verbose (.ofAbort (.fault .stackExhausted))
    else concludeProgram settings parsed (o.echo program.outlineText)
  else
    concludeProgram settings parsed (program.items.foldl (fun o item => o.echo item.text) o)

/-- Carries out what the settings ask for with a bounded stack. -/
def perform (stack : Nat) (look : String → File.Lookup) (settings : Settings) : Output :=
  let name := File.normalize settings.path
  let verbose := settings.verbose
  if settings.tokens then
    match look name with
    | .file bytes =>
      listTokens verbose ((File.scanner name bytes).fetches settings.skipComments) 0 .empty
    | .missing => Output.empty.fail verbose (.ofAbort (.missing name))
    | .tooLong => Output.empty.fail verbose (.ofAbort (.tooLong name))
    | .directory => Output.empty.fail verbose (.ofAbort (.directory name))
  else
    let options : Options := ⟨settings.skipComments, settings.limit, false⟩
    let run := FrontEnd.runFile stack options .all look name
    let o := Output.empty.log verbose
      (.line .debug .command ("Front-end options: " ++ optionsText options))
    let o := o.logAll verbose run.journal.events
    match run.result with
    | .ok parsed => showProgram stack settings parsed o
    | .error abort => o.fail verbose (.ofAbort abort)

/-- Runs the command with its arguments and a bounded stack. -/
def run (stack : Nat) (look : String → File.Lookup) (args : List String) : Output :=
  match Arguments.sort args with
  | .error e => refuse e
  | .ok arguments => match arguments.request? with
    | some .version => Output.empty.echo versionLine
    | some _ => Output.empty.echo ("\n".intercalate helpLines)
    | none => match arguments.settings look Diagnostics.standardLimit with
      | .error e => refuse e
      | .ok settings => perform stack look settings

/-- The file that the arguments name, as given. -/
def path? (args : List String) : Option String :=
  match Arguments.sort args with
  | .error _ => none
  | .ok arguments => arguments.positional.head?

end Soul.Command
