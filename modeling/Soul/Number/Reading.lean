import Soul.Text.Blank
import Soul.Text.Digit
import Soul.Number.Double

/-!
# Numbers read from text

The numbers of a source text are plain runs of ASCII digits, with at most one
point (`Decimal.ofDigits`). Where a number comes from elsewhere, from an
argument or as the payload of a literal, more forms are read: blanks around
it, a sign, an underscore between any two digits, the digits of every script
and, for a double, an exponent and the words for infinity and not-a-number.

An integer of more than `maxDigits` digits is refused.
-/

namespace Soul

/-- The most digits an integer may be written with. -/
def maxDigits : Nat := 4300

/-- The value of a run of ASCII digits. -/
def natOfDigits (digits : List Char) : Nat :=
  digits.foldl (fun n c => 10 * n + (c.toNat - '0'.toNat)) 0

/-- The decimal number written by the digits `whole`, a point and the digits
    `fraction`. -/
def Decimal.ofDigits (whole fraction : List Char) : Decimal :=
  ⟨natOfDigits (whole ++ fraction), -fraction.length⟩

namespace Reading

/-- A blank that may stand around a number: among the ASCII characters only
    the blank proper and the five controls from tab to carriage return. -/
def isMargin (c : Char) : Bool := Text.isBlank c && !(28 ≤ c.toNat && c.toNat ≤ 31)

/-- The text without the blanks around it, its digits as those of ASCII. -/
def plain (text : String) : List Char :=
  let inner := (text.toList.dropWhile isMargin).reverse.dropWhile isMargin |>.reverse
  inner.map fun c => ((Text.digit? c).map Nat.digitChar).getD c

/-- The text without its underscores, each of which must stand between two
    digits; `afterDigit` says whether a digit stands before the text. -/
def withoutUnderscores (afterDigit : Bool) : List Char → Option (List Char)
  | [] => some []
  | ['_'] => none
  | '_' :: c :: rest =>
    if afterDigit && c.isDigit then (withoutUnderscores true rest).map (c :: ·) else none
  | c :: rest => (withoutUnderscores c.isDigit rest).map (c :: ·)

/-- The sign in front of a number, true for minus, and what follows it. -/
def signed : List Char → Bool × List Char
  | '-' :: rest => (true, rest)
  | '+' :: rest => (false, rest)
  | rest => (false, rest)

/-- The integer that a text shows. -/
def int? (text : String) : Option Int := do
  let (negative, digits) := signed (← withoutUnderscores false (plain text))
  if digits.isEmpty || !digits.all Char.isDigit || digits.length > maxDigits then none
  else some (if negative then -natOfDigits digits else natOfDigits digits)

/-- The exponent at the end of a number: nothing, or `e` and an integer. -/
def exponent? : List Char → Option Int
  | [] => some 0
  | c :: rest =>
    let (negative, digits) := signed rest
    if c.toLower != 'e' || digits.isEmpty || !digits.all Char.isDigit then none
    else some (if negative then -natOfDigits digits else natOfDigits digits)

/-- The double that a text without a sign shows. -/
def unsigned? (negative : Bool) (text : List Char) : Option Double :=
  let word := String.ofList (text.map Char.toLower)
  if word == "inf" || word == "infinity" then some (.infinity negative)
  else if word == "nan" then some .nan
  else
    let whole := text.takeWhile Char.isDigit
    let rest := text.dropWhile Char.isDigit
    let (fraction, rest) := match rest with
      | '.' :: rest => (rest.takeWhile Char.isDigit, rest.dropWhile Char.isDigit)
      | rest => ([], rest)
    if whole.isEmpty && fraction.isEmpty then none
    else (exponent? rest).map fun exponent =>
      let d := Decimal.ofDigits whole fraction
      Decimal.toDouble ⟨d.coefficient, d.exponent + exponent⟩ negative

/-- The double that a text shows. -/
def double? (text : String) : Option Double := do
  let (negative, rest) := signed (← withoutUnderscores false (plain text))
  unsigned? negative rest

end Reading

end Soul
