/-!
# Binary operators

There are twenty-three binary operators, in ten tiers. An operator of a higher
tier binds its operands tighter; operators of one tier group to the left. The
tiers are the multiples of ten from zero to ninety. Within its tier an operator
has a rank, and tier and rank together are its ordinal.
-/

namespace Soul

/-- A binary operator. -/
inductive Operator where
  | assign
  | range
  | and
  | or
  | bitAnd
  | bitOr
  | lt
  | gt
  | le
  | ge
  | eq
  | ne
  | shl
  | shr
  | shlx
  | shrx
  | plus
  | minus
  | star
  | slash
  | percent
  | power
  | dot
  deriving DecidableEq, Inhabited

namespace Operator

/-- All operators, by ordinal. -/
def all : List Operator :=
  [assign, range, and, or, bitAnd, bitOr, lt, gt, le, ge, eq, ne, shl, shr, shlx, shrx, plus,
   minus, star, slash, percent, power, dot]

/-- The operator as a source text writes it, character by character. -/
def chars : Operator → List Char
  | assign => ['=']
  | range => ['.', '.']
  | and => ['&', '&']
  | or => ['|', '|']
  | bitAnd => ['&']
  | bitOr => ['|']
  | lt => ['<']
  | gt => ['>']
  | le => ['<', '=']
  | ge => ['>', '=']
  | eq => ['=', '=']
  | ne => ['!', '=']
  | shl => ['<', '<']
  | shr => ['>', '>']
  | shlx => ['<', '|']
  | shrx => ['|', '>']
  | plus => ['+']
  | minus => ['-']
  | star => ['*']
  | slash => ['/']
  | percent => ['%']
  | power => ['*', '*']
  | dot => ['.']

/-- The operator as a source text writes it. -/
def spelling (op : Operator) : String := String.ofList op.chars

/-- The name of the operator in listings. -/
def name : Operator → String
  | assign => "ASSIGN"
  | range => "RANGE"
  | and => "AND"
  | or => "OR"
  | bitAnd => "BIT_AND"
  | bitOr => "BIT_OR"
  | lt => "LT"
  | gt => "GT"
  | le => "LE"
  | ge => "GE"
  | eq => "EQ"
  | ne => "NE"
  | shl => "SHL"
  | shr => "SHR"
  | shlx => "SHLX"
  | shrx => "SHRX"
  | plus => "PLUS"
  | minus => "MINUS"
  | star => "STAR"
  | slash => "SLASH"
  | percent => "PERCENT"
  | power => "EXP"
  | dot => "DOT"

/-- How tightly the operator binds. -/
def tier : Operator → Nat
  | assign => 0
  | range => 10
  | and | or => 20
  | bitAnd | bitOr => 30
  | lt | gt | le | ge | eq | ne => 40
  | shl | shr | shlx | shrx => 50
  | plus | minus => 60
  | star | slash | percent => 70
  | power => 80
  | dot => 90

/-- The place of the operator in its tier. -/
def rank : Operator → Nat
  | or | bitOr | gt | shr | minus | slash => 1
  | le | shlx | percent => 2
  | ge | shrx => 3
  | eq => 4
  | ne => 5
  | _ => 0

/-- The number of the operator. -/
def ordinal (op : Operator) : Nat := op.tier + op.rank

/-- The operator that a source text writes in this way. -/
def ofSpelling? (text : String) : Option Operator := all.find? (·.chars == text.toList)

theorem mem_all (op : Operator) : op ∈ all := by cases op <;> decide

end Operator

end Soul
