/-!
# Double-precision numbers

A double is a finite number, an infinity or not a number. A finite double is a
significand below `2 ^ 53` times a power of two, counted in units of
`2 ^ -1074`, the least positive double: its magnitude is
`significand * 2 ^ scale / 2 ^ 1074`. Each value has one such form, in which
the significand is at least `2 ^ 52` unless the scale is `0`; the scale is at
most `2045`. The two zeros differ in their sign.

A ratio becomes a double by rounding to the nearest one, a tie to the even
significand (`Double.ofRatio`); a decimal number `coefficient * 10 ^ exponent`
is such a ratio (`Decimal.toDouble`). A magnitude that rounds to `2 ^ 1024` or
more becomes an infinity.
-/

namespace Soul

/-- The decimal number `coefficient * 10 ^ exponent`. -/
structure Decimal where
  /-- The digits, read as a natural number. -/
  coefficient : Nat
  /-- The power of ten that the last digit counts. -/
  exponent : Int
  deriving DecidableEq

/-- A double-precision number. -/
inductive Double where
  /-- The number `± significand * 2 ^ scale / 2 ^ 1074`. -/
  | finite (negative : Bool) (significand scale : Nat)
  /-- The infinity of a sign. -/
  | infinity (negative : Bool)
  /-- Not a number. -/
  | nan
  deriving DecidableEq, Inhabited

/-- The number of decimal digits of `n`, at least one. -/
def digitCount (n : Nat) : Nat := (Nat.toDigits 10 n).length

namespace Double

/-- The quotient of `n` by `d`, rounded to the nearest natural number, a tie to
    the even one. -/
def roundedQuotient (n d : Nat) : Nat :=
  let q := n / d
  let r := n % d
  if 2 * r < d ∨ (2 * r = d ∧ q % 2 = 0) then q else q + 1

/-- The double nearest to the magnitude `n / d`, with the given sign. -/
def ofRatio (negative : Bool) (n d : Nat) : Double :=
  let units := n * Nat.pow 2 1074
  let scale := Nat.log2 (units / d) - 52
  let rounded := roundedQuotient units (d * Nat.pow 2 scale)
  let carried := rounded == Nat.pow 2 53
  let significand := if carried then Nat.pow 2 52 else rounded
  let scale := if carried then scale + 1 else scale
  if scale ≤ 2045 then finite negative significand scale else infinity negative

/-- The double nearest to an integer, unless the integer is too large for a
    finite one. -/
def ofInt? (n : Int) : Option Double :=
  match ofRatio (n < 0) n.natAbs 1 with
  | finite negative significand scale => some (finite negative significand scale)
  | _ => none

/-- The two doubles are the same number: the zeros are, and not-a-number is
    the same as nothing. -/
def equal : Double → Double → Bool
  | nan, _ => false
  | finite _ 0 _, finite _ 0 _ => true
  | x, y => x == y

/-- The double is exactly the integer `n`. -/
def equalInt : Double → Int → Bool
  | finite negative significand scale, n =>
    (if negative then -1 else 1) * (significand * Nat.pow 2 scale : Nat) ==
      n * Nat.pow 2 1074
  | _, _ => false

end Double

/-- The double nearest to a decimal number. Exponents far beyond the range of
    doubles are settled by the place of the leading digit. -/
def Decimal.toDouble (d : Decimal) (negative : Bool) : Double :=
  let leading := d.exponent + digitCount d.coefficient
  if d.coefficient = 0 ∨ leading < -400 then .finite negative 0 0
  else if 400 < leading then .infinity negative
  else if 0 ≤ d.exponent then
    .ofRatio negative (d.coefficient * Nat.pow 10 d.exponent.toNat) 1
  else
    .ofRatio negative d.coefficient (Nat.pow 10 (-d.exponent).toNat)

end Soul
