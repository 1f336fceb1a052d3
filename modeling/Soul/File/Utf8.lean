import Soul.Fault

/-!
# Texts from bytes

A file holds a text in UTF-8. Each character is a first byte and up to three
further ones, and the first byte tells what the others may be. Bytes that do
not follow this are a fault. What may still be a character, were the file to go
on, is met when the reading gets to the end, after all that stands before it;
any other malformation is met before the first character, and then there is no
text at all. The first two bytes of a surrogate count as what may still be a
character if the file ends with them, though no third byte makes them one.

The place of the fault is counted from the start of the file if it is met
before the first character, and from its own first byte if it is met at the
end.
-/

namespace Soul.Utf8

/-- The further bytes that a first byte asks for, as ranges; none if no character
    starts with it. -/
def further? (first : UInt8) : Option (List (UInt8 × UInt8)) :=
  if first < 0x80 then some []
  else if first < 0xC2 then none
  else if first < 0xE0 then some [(0x80, 0xBF)]
  else if first = 0xE0 then some [(0xA0, 0xBF), (0x80, 0xBF)]
  else if first = 0xED then some [(0x80, 0x9F), (0x80, 0xBF)]
  else if first < 0xF0 then some [(0x80, 0xBF), (0x80, 0xBF)]
  else if first = 0xF0 then some [(0x90, 0xBF), (0x80, 0xBF), (0x80, 0xBF)]
  else if first < 0xF4 then some [(0x80, 0xBF), (0x80, 0xBF), (0x80, 0xBF)]
  else if first = 0xF4 then some [(0x80, 0x8F), (0x80, 0xBF), (0x80, 0xBF)]
  else none

/-- The bytes at the start of `bytes` that lie in the ranges, one after the
    other. -/
def fitting : (ranges : List (UInt8 × UInt8)) → (bytes : List UInt8) → List UInt8
  | (low, high) :: ranges, b :: bytes =>
    if low ≤ b && b ≤ high then b :: fitting ranges bytes else []
  | _, _ => []

/-- The character of a first byte and the further ones. -/
def character (first : UInt8) (others : List UInt8) : Char :=
  let head := match others.length with
    | 0 => first.toNat
    | 1 => first.toNat % 32
    | 2 => first.toNat % 16
    | _ => first.toNat % 8
  Char.ofNat (others.foldl (fun n b => 64 * n + b.toNat % 64) head)

/-- The first two bytes of a surrogate, and nothing after them. -/
def isHalfSurrogate (first : UInt8) (bytes : List UInt8) : Bool :=
  first == 0xED && match bytes with
    | [second] => 0xA0 ≤ second && second ≤ 0xBF
    | _ => false

/-- A malformation, and when a reader meets it. -/
inductive Flaw where
  /-- Met before the first character. -/
  | early (f : Fault)
  /-- Met at the end, after all characters before it. -/
  | late (f : Fault)
  deriving DecidableEq

/-- The characters before the first malformation, and that malformation. -/
structure Reach where
  chars : List Char
  flaw : Option Flaw

/-- The text before the fault that a reader meets, and that fault. -/
structure Decoding where
  chars : List Char
  fault : Option Fault

/-- Decodes bytes, the first of which is at `place`, at most `rounds` characters
    of them. -/
def decodeWithin : (rounds place : Nat) → List UInt8 → Reach
  | 0, _, _ | _, _, [] => ⟨[], none⟩
  | rounds + 1, place, first :: bytes =>
    match further? first with
    | none => ⟨[], some (.early (.undecodable first [] place .start))⟩
    | some ranges =>
      let others := fitting ranges bytes
      if others.length = ranges.length then
        let d := decodeWithin rounds (place + 1 + others.length) (bytes.drop others.length)
        { d with chars := character first others :: d.chars }
      else if others.length = bytes.length then
        ⟨[], some (.late (.undecodable first others 0 .truncated))⟩
      else if isHalfSurrogate first bytes then
        ⟨[], some (.late (.undecodable first others 0 .continuation))⟩
      else ⟨[], some (.early (.undecodable first others place .continuation))⟩

/-- Decodes the bytes of a file. -/
def decode (bytes : List UInt8) : Decoding :=
  let reach := decodeWithin bytes.length 0 bytes
  match reach.flaw with
  | none => ⟨reach.chars, none⟩
  | some (.late f) => ⟨reach.chars, some f⟩
  | some (.early f) => ⟨[], some f⟩

end Soul.Utf8
