import Soul.Feed

/-!
# Lexing

A lexer cuts a feed into tokens while it reads it, and looks no further than it
has to. There is always one character that it has read and not yet passed, the
pending one, or none at the end. It decides what the next token is, and each
character of the token is passed by reading the one behind it. The place of the
feed before a reading is the place of the character that is then pending.

In the beginning nothing has been read, and a blank is pending that is none of
the source. It is passed over with the blanks before the first token.
-/

namespace Soul

/-- A feed that is read one character ahead. -/
structure Lexer where
  feed : Feed
  /-- The character read last, none at the end. -/
  pending : Option Char
  /-- The place of the feed before that reading. -/
  position : Position
  /-- No token has been lexed on this line. -/
  lineStart : Bool

namespace Lexer

/-- A lexer that has not read anything. -/
def start (feed : Feed) : Lexer := ⟨feed, some ' ', .start, true⟩

/-- Passes the pending character and reads the next one. -/
def advance (l : Lexer) : Lexer :=
  let (given, feed) := l.feed.read
  { l with feed := feed, pending := given.toList.head?, position := l.feed.position }

/-- The characters that have not been passed. -/
def left (l : Lexer) : List Char := l.pending.toList ++ l.feed.scanner.rest

/-- To pass a character leaves less. -/
theorem length_left_advance_lt {l : Lexer} {c : Char} (h : l.pending = some c) :
    l.advance.left.length < l.left.length := by
  have rest := congrArg List.length l.feed.read_scanner_rest
  have next : l.feed.read.1.toList.head?.toList.length ≤ l.feed.read.1.toList.length := by
    cases l.feed.read.1.toList with
    | nil => exact Nat.le_refl _
    | cons => exact Nat.succ_le_succ (Nat.zero_le _)
  simp only [List.length_append] at rest
  simp only [left, advance, h, List.length_append, Option.toList_some, List.length_singleton]
  omega

/-- Passes characters for as long as they are in the class `p`, and gives them. -/
def passWhile (p : Char → Bool) (l : Lexer) : List Char × Lexer :=
  match _h : l.pending with
  | none => ([], l)
  | some c =>
    if p c then
      let (chars, l') := l.advance.passWhile p
      (c :: chars, l')
    else ([], l)
termination_by l.left.length
decreasing_by exact length_left_advance_lt ‹_›

/-- Goes down the tree of symbols as far as the characters lead, and gives the
    symbol found there. -/
def walk (t : SymbolTree) (l : Lexer) : Lexeme × Lexer :=
  match _h : l.pending with
  | none => (t.lexeme, l)
  | some c =>
    match t.branches.lookup c with
    | some next => l.advance.walk next
    | none => (t.lexeme, l)
termination_by l.left.length
decreasing_by exact length_left_advance_lt ‹_›

/-- Passes over blanks, and notes whether a new line begins. -/
def skipBlanks (l : Lexer) : Lexer :=
  let (blanks, l') := l.passWhile Text.isBlank
  { l' with lineStart := l.lineStart || blanks.contains '\n' }

/-- Lexes a comment, the semicolon of which has been passed. -/
def comment (l : Lexer) : Except Fault Lexeme × Lexer :=
  let (body, l) := l.passWhile Cut.isCommentChar
  (.ok (.comment (String.ofList body)), l)

/-- Lexes a word, the first letter of which is pending. -/
def word (l : Lexer) : Except Fault Lexeme × Lexer :=
  let (chars, l) := l.passWhile Cut.isWordChar
  (.ok (Cut.word chars), l)

/-- Lexes a number, the characters `before` of which have been passed. -/
def number (before : List Char) (l : Lexer) : Except Fault Lexeme × Lexer :=
  let (chars, l) := l.passWhile Cut.isNumberChar
  (Cut.number (before ++ chars), l)

/-- Lexes a string, the opening quote of which has been passed. -/
def string (l : Lexer) : Except Fault Lexeme × Lexer :=
  let (body, l) := l.passWhile Cut.isStringChar
  if l.pending = some '"' then (.ok (.string (String.ofList body)), l.advance)
  else (.ok (.invalid .unterminatedString), l)

/-- Lexes an operator or mark, the first character of which has been passed. -/
def symbol (first : Char) (l : Lexer) : Except Fault Lexeme × Lexer :=
  match SymbolTree.starts.lookup first with
  | some t =>
    let (lexeme, l) := l.walk t
    (.ok lexeme, l)
  | none => (.ok (.invalid (.invalidCharacter (String.singleton first))), l)

/-- Lexes what begins with a point, which has been passed: a number if a digit is
    pending. -/
def point (l : Lexer) : Except Fault Lexeme × Lexer :=
  if (l.pending.map Char.isDigit).getD false then l.number ['.'] else l.symbol '.'

/-- Lexes what begins with the pending character `first`, which is no blank. -/
def lexeme (first : Char) (l : Lexer) : Except Fault Lexeme × Lexer :=
  if first = ';' then l.advance.comment
  else if first.isAlpha then l.word
  else if first.isDigit then l.number []
  else if first = '"' then l.advance.string
  else if first = '.' then l.advance.point
  else l.advance.symbol first

/-- A token at the place of the lexer. -/
def token (l : Lexer) (lexeme : Lexeme) : Token := ⟨lexeme, l.feed.file, l.position, l.lineStart⟩

/-- Lexes one token. -/
def lex (l : Lexer) : Except Fault Token × Lexer :=
  let l := l.skipBlanks
  match l.pending with
  | none => (.ok (l.token .endOfInput), { l with lineStart := false })
  | some first =>
    match l.lexeme first with
    | (.error fault, l') => (.error fault, l')
    | (.ok lexeme, l') => (.ok (l.token lexeme), { l' with lineStart := false })

/-- Lexes one token, passing over comments if `skip` says so, at most one for each
    of `rounds`. -/
def nextWithin (skip : Bool) : (rounds : List Char) → Lexer → Except Fault Token × Lexer
  | [], l => l.lex
  | _ :: rounds, l =>
    match l.lex with
    | (.ok token, l') =>
      if skip && token.isComment then nextWithin skip rounds l' else (.ok token, l')
    | failed => failed

/-- Lexes one token, passing over comments if `skip` says so. -/
def next (skip : Bool) (l : Lexer) : Except Fault Token × Lexer := l.nextWithin skip l.left

/-- The tokens and faults of a source, at most `rounds` of them. -/
def fetchesWithin (skip : Bool) : (rounds : Nat) → Lexer → List (Except Fault Token)
  | 0, _ => []
  | rounds + 1, l =>
    let (fetch, l') := l.next skip
    if Scanner.isLast fetch then [fetch] else fetch :: fetchesWithin skip rounds l'

end Lexer

/-- The tokens and faults of a feed, in order. The last one is the end of the input. -/
def Feed.fetches (skip : Bool) (f : Feed) : List (Except Fault Token) :=
  (Lexer.start f).fetchesWithin skip (f.scanner.rest.length + 1)

end Soul
