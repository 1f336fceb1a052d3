import Soul.Diagnostic

/-!
# Problems

Not everything that goes wrong is a diagnostic of a source. A run may fail for
all errors of a source at once, the front end may fail in words of its own, and
there is trouble that it has no part in: a file that cannot be read, a value
that cannot be used. Each of these is a problem, which has a name and a text.
-/

namespace Soul

/-- The sorts of trouble that the front end has no part in. -/
inductive Outside where
  /-- An argument of the command is wrong. -/
  | badParameter
  /-- There is no such file. -/
  | missingFile
  /-- The file may not be read. -/
  | forbiddenFile
  /-- A value cannot be used. -/
  | badValue
  /-- Anything else. -/
  | failure
  deriving DecidableEq, Inhabited

namespace Outside

/-- All sorts of trouble. -/
def all : List Outside := [badParameter, missingFile, forbiddenFile, badValue, failure]

/-- The name that listings give to a sort of trouble. -/
def name : Outside → String
  | badParameter => "BadParameter"
  | missingFile => "FileNotFoundError"
  | forbiddenFile => "PermissionError"
  | badValue => "ValueError"
  | failure => "RuntimeError"

/-- The sort of trouble of a name. -/
def ofName? (name : String) : Option Outside := all.find? (·.name == name)

end Outside

/-- What goes wrong. -/
inductive Problem where
  | diagnostic (d : Diagnostic)
  /-- The rejection of a source: the report, and the errors as lines. -/
  | rejection (report : String) (errors : List String)
  /-- A failure of the front end, in words of its own. -/
  | general (text : String)
  /-- Trouble that the front end has no part in. -/
  | outside (sort : Outside) (text : String)
  deriving DecidableEq, Inhabited

namespace Problem

/-- The name that listings give to the kind of a problem. -/
def name : Problem → String
  | diagnostic d => d.cause.name
  | rejection .. => "SouliteCompilationError"
  | general _ => "SouliteError"
  | outside sort _ => sort.name

/-- What goes wrong, in words. -/
def text : Problem → String
  | diagnostic d => d.text
  | rejection report _ => report
  | general text => text
  | outside _ text => text

/-- The problem in a listing. Of a lexical diagnostic only the message is
    listed. -/
def listed : Problem → String
  | diagnostic d =>
    if d.cause.family = .lexical then Text.quoted d.cause.message
    else d.cause.name ++ "(" ++ Text.quoted d.text ++ ")"
  | p => p.name ++ "(" ++ Text.quoted p.text ++ ")"

end Problem

end Soul
