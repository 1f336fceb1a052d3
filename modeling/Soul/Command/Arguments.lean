import Soul.File.Store
import Soul.Number.Reading
import Soul.Text.Quoted
import Soul.Text.Similarity

/-!
# The arguments of the command line

The command takes options and one file, in any order. An argument that starts
with a dash and is longer than that is an option; two dashes end the options. A
long option is written out, with its value behind an equals sign or in the next
argument; a short one is a single letter, and several may follow one dash.

First all arguments are sorted (`Arguments.sort`). Then requests for help or for
the version are granted, in the order given. Then the values are checked: the
number of errors, the file, and that nothing is left over. Last, the two modes
exclude each other. The first trouble is the one that is told.
-/

namespace Soul.Command

/-- An option without a value. -/
inductive Flag where
  | ast
  | tokens
  | skipComments
  | verbose
  | version
  | help
  deriving DecidableEq, Inhabited

/-- What is wrong with the arguments. -/
inductive UsageError where
  | noSuchOption (name : String) (similar : List String)
  /-- The option has to have a value. -/
  | missingValue (name : String)
  /-- The option cannot have a value. -/
  | surplusValue (name : String)
  /-- The limit is no integer. -/
  | limitNotInteger (text : String)
  /-- The limit is less than one. -/
  | limitTooSmall (n : Int)
  /-- No file is given. -/
  | noFile
  /-- The file does not exist. -/
  | missingFile (path : String)
  /-- The file is a directory. -/
  | directory (path : String)
  | surplusArguments (args : List String)
  /-- Both modes are asked for. -/
  | conflict
  deriving DecidableEq, Inhabited

namespace UsageError

/-- What is wrong, in words. -/
def message : UsageError → String
  | noSuchOption name similar =>
    "No such option: " ++ name ++ match similar with
      | [] => ""
      | [text] => " Did you mean " ++ text ++ "?"
      | texts => " (Possible options: " ++ ", ".intercalate texts ++ ")"
  | missingValue name => "Option '" ++ name ++ "' requires an argument."
  | surplusValue name => "Option '" ++ name ++ "' does not take a value."
  | limitNotInteger text =>
    "Invalid value for '--max-errors': " ++ Text.quoted text ++ " is not a valid integer range."
  | limitTooSmall n =>
    "Invalid value for '--max-errors': " ++ toString n ++ " is not in the range x>=1."
  | noFile => "Missing argument 'INPUT_FILE'."
  | missingFile path =>
    "Invalid value for 'INPUT_FILE': File " ++ Text.quoted path ++ " does not exist."
  | directory path =>
    "Invalid value for 'INPUT_FILE': File " ++ Text.quoted path ++ " is a directory."
  | surplusArguments args =>
    "Got unexpected extra argument" ++ (if args.length = 1 then "" else "s") ++ " (" ++
      " ".intercalate args ++ ")"
  | conflict => "--ast and --tokens cannot be used together"

/-- The message comes with a reminder of the usage. A missing or surplus value
    is told without it. -/
def showsUsage : UsageError → Bool
  | missingValue _ | surplusValue _ => false
  | _ => true

end UsageError

/-- The long options that have no value. -/
def longFlags : List (String × Flag) :=
  [("--ast", .ast), ("--tokens", .tokens), ("--skip-comments", .skipComments),
   ("--verbose", .verbose), ("--version", .version), ("--help", .help)]

/-- The long option that has a value: the number of errors at which to stop. -/
def limitOption : String := "--max-errors"

/-- All long options. -/
def longOptions : List String := limitOption :: longFlags.map (·.1)

/-- The arguments, sorted. -/
structure Arguments where
  /-- The options without a value, in the order given. -/
  flags : List Flag
  /-- The last value given for the number of errors. -/
  limit : Option String
  /-- All other arguments, in the order given. -/
  positional : List String
  /-- The value of an option is to come next. -/
  awaitsValue : Bool
  /-- No more options are to come. -/
  ended : Bool
  deriving DecidableEq, Inhabited

namespace Arguments

/-- No arguments. -/
def empty : Arguments := ⟨[], none, [], false, false⟩

/-- One more option without a value. -/
def addFlag (a : Arguments) (flag : Flag) : Arguments := { a with flags := a.flags ++ [flag] }

/-- A letter behind a single dash. -/
def addLetter (a : Arguments) (c : Char) : Except UsageError Arguments :=
  if c = 'v' then .ok (a.addFlag .verbose)
  else .error (.noSuchOption ("-" ++ String.singleton c) [])

/-- An argument that starts with a dash. -/
def addOption (a : Arguments) (arg : String) : Except UsageError Arguments :=
  let chars := arg.toList
  let name := String.ofList (chars.takeWhile (· != '='))
  let value := match chars.dropWhile (· != '=') with
    | [] => none
    | _ :: value => some (String.ofList value)
  if name = limitOption then
    match value with
    | some value => .ok { a with limit := some value }
    | none => .ok { a with awaitsValue := true }
  else match longFlags.lookup name, value with
    | some flag, none => .ok (a.addFlag flag)
    | some _, some _ => .error (.surplusValue name)
    | none, _ =>
      if "--".toList.isPrefixOf chars then
        .error (.noSuchOption name (Text.similar name longOptions))
      else (chars.drop 1).foldlM addLetter a

/-- One more argument. -/
def add (a : Arguments) (arg : String) : Except UsageError Arguments :=
  if a.awaitsValue then .ok { a with limit := some arg, awaitsValue := false }
  else if a.ended then .ok { a with positional := a.positional ++ [arg] }
  else if arg = "--" then .ok { a with ended := true }
  else match arg.toList with
    | '-' :: _ :: _ => a.addOption arg
    | _ => .ok { a with positional := a.positional ++ [arg] }

/-- Sorts the arguments. -/
def sort (args : List String) : Except UsageError Arguments := do
  let a ← args.foldlM add empty
  if a.awaitsValue then .error (.missingValue limitOption) else return a

/-- The first request for help or for the version. -/
def request? (a : Arguments) : Option Flag :=
  a.flags.find? fun flag => flag = .help || flag = .version

end Arguments

/-- What the command is to do. -/
structure Settings where
  ast : Bool
  tokens : Bool
  skipComments : Bool
  verbose : Bool
  /-- The number of errors at which to stop. -/
  limit : Int
  /-- The file, as given. -/
  path : String
  deriving DecidableEq, Inhabited

/-- The number of errors at which to stop. -/
def limitOf (text : Option String) (standard : Int) : Except UsageError Int :=
  match text with
  | none => .ok standard
  | some text => match Reading.int? text with
    | none => .error (.limitNotInteger text)
    | some n => if n < 1 then .error (.limitTooSmall n) else .ok n

/-- The file, which has to be there, and the arguments left over. -/
def fileOf (look : String → File.Lookup) :
    (positional : List String) → Except UsageError (String × List String)
  | [] => .error .noFile
  | path :: others => match look path with
    | .missing | .tooLong => .error (.missingFile path)
    | .directory => .error (.directory path)
    | .file _ => .ok (path, others)

/-- Checks the arguments. -/
def Arguments.settings (a : Arguments) (look : String → File.Lookup) (standardLimit : Int) :
    Except UsageError Settings := do
  let limit ← limitOf a.limit standardLimit
  let (path, others) ← fileOf look a.positional
  let has := fun flag => a.flags.contains flag
  if !others.isEmpty then .error (.surplusArguments others)
  else if has .ast && has .tokens then .error .conflict
  else return ⟨has .ast, has .tokens, has .skipComments, has .verbose, limit, path⟩

end Soul.Command
