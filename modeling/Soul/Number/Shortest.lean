import Soul.Number.Double

/-!
# The text of a double

A finite double is written with the fewest significant digits that read back
as the same double. Among the decimal numbers with that many digits it is the
nearest to the double, and of two equally near ones the one with an even last
digit. For every number of digits only the two neighbours of the double on the
grid of that precision can be such a number.

The digits are laid out positionally, with at least one digit after the point,
when the exponent of the leading digit is at least `-4` and less than `16`;
otherwise one digit stands before the point and the exponent follows, with a
sign and at least two digits.
-/

namespace Soul.Double

/-- The exponent of the leading decimal digit of the ratio `n / d`. -/
def leadingExponent (n d : Nat) : Int :=
  let guess : Int := (digitCount n : Int) - digitCount d
  let fits := if 0 ≤ guess then decide (d * Nat.pow 10 guess.toNat ≤ n)
    else decide (d ≤ n * Nat.pow 10 (-guess).toNat)
  if fits then guess else guess - 1

/-- The neighbour of the ratio `n / d` on the grid of multiples of
    `10 ^ exponent` that reads back as `x`, if there is one; the nearer one if
    both do, and the even one at a tie. -/
def nearestReading (x : Double) (n d : Nat) (exponent : Int) : Option Decimal :=
  let numerator := n * Nat.pow 10 (-exponent).toNat
  let denominator := d * Nat.pow 10 exponent.toNat
  let below : Decimal := ⟨numerator / denominator, exponent⟩
  let above : Decimal := ⟨numerator / denominator + 1, exponent⟩
  let twice := 2 * (numerator % denominator)
  let belowNearer := twice < denominator ∨
    (twice = denominator ∧ below.coefficient % 2 = 0)
  match below.toDouble false == x, above.toDouble false == x with
  | true, true => some (if belowNearer then below else above)
  | true, false => some below
  | false, true => some above
  | false, false => none

/-- The exact decimal form of `significand * 2 ^ scale / 2 ^ 1074`. -/
def exactDecimal (significand scale : Nat) : Decimal :=
  ⟨significand * Nat.pow 2 scale * Nat.pow 5 1074, -1074⟩

/-- The decimal number with the fewest digits that reads back as the positive
    double `significand * 2 ^ scale / 2 ^ 1074`. Seventeen digits suffice for
    every double; the exact form needs no bound. -/
def shortest (significand scale : Nat) : Decimal :=
  let n := significand * Nat.pow 2 scale
  let d := Nat.pow 2 1074
  let lead := leadingExponent n d
  ((List.range 17).findSome? fun more : Nat =>
      nearestReading (finite false significand scale) n d (lead - more)).getD
    (exactDecimal significand scale)

/-! ## Layout -/

/-- How the digits of a number are laid out. -/
structure Layout where
  /-- The least exponent of a leading digit that is written positionally. -/
  least : Int
  /-- The exponents from here on are written out. -/
  beyond : Int
  /-- The least number of digits of an exponent. -/
  width : Nat

/-- Doubles are written positionally from `0.0001` up to `10 ^ 16`, and their
    exponents with two digits at least. -/
def layout : Layout := ⟨-4, 16, 2⟩

/-- Zeros in front of `digits`, up to `width` characters. -/
def padded (width : Nat) (digits : List Char) : List Char :=
  List.replicate (width - digits.length) '0' ++ digits

/-- The digits `0.d₁d₂…` times `10 ^ point`, positionally. -/
def positional (digits : List Char) (point : Int) : List Char :=
  if point ≤ 0 then '0' :: '.' :: List.replicate (-point).toNat '0' ++ digits
  else if digits.length ≤ point.toNat then
    digits ++ List.replicate (point.toNat - digits.length) '0' ++ ['.', '0']
  else digits.take point.toNat ++ '.' :: digits.drop point.toNat

/-- The digits `d₁.d₂…` times `10 ^ exponent`, with the exponent written out. -/
def scientific (width : Nat) (digits : List Char) (exponent : Int) : List Char :=
  let fraction := digits.drop 1
  digits.take 1 ++ (if fraction.isEmpty then [] else '.' :: fraction) ++
    'e' :: (if exponent < 0 then '-' else '+') ::
      padded width (Nat.toDigits 10 exponent.natAbs)

/-- A positive decimal number in the given layout. -/
def Layout.write (l : Layout) (d : Decimal) : List Char :=
  let all := Nat.toDigits 10 d.coefficient
  let digits := (all.reverse.dropWhile (· == '0')).reverse
  let point := d.exponent + all.length
  if l.least < point ∧ point ≤ l.beyond then positional digits point
  else scientific l.width digits (point - 1)

/-- The sign in front of a negative number. -/
def sign (negative : Bool) : List Char := if negative then ['-'] else []

/-- The text of a double, as characters. -/
def chars : Double → List Char
  | finite negative 0 _ => sign negative ++ ['0', '.', '0']
  | finite negative significand scale =>
    sign negative ++ layout.write (shortest significand scale)
  | infinity negative => sign negative ++ ['i', 'n', 'f']
  | nan => ['n', 'a', 'n']

/-- The text of a double. -/
def text (x : Double) : String := String.ofList x.chars

end Soul.Double
