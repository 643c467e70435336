import Fleet.Decimal.Shortest

/-! How a double is written: with a point among its digits, or, when it is very large or very small, with
    an exponent. -/

namespace Fleet.Decimal

/-- What a format decides about the text of a double. -/
structure Notation where
  /-- The least place of the point, counted from the first digit, at which the digits are written out. -/
  least : Int
  /-- The greatest such place. -/
  greatest : Int

namespace Notation

/-- The digits with the point at `place`; there is at least one digit on each side of it. -/
def positional (digits : List Char) (place : Int) : List Char :=
  if place ≤ 0 then
    '0' :: '.' :: List.replicate (-place).toNat '0' ++ digits
  else if digits.length ≤ place.toNat then
    digits ++ List.replicate (place.toNat - digits.length) '0' ++ ['.', '0']
  else
    digits.take place.toNat ++ '.' :: digits.drop place.toNat

/-- One digit, the others behind a point, and the exponent with its sign. -/
def exponential (digits : List Char) (place : Int) : List Char :=
  let exponent := place - 1
  let fraction := digits.drop 1
  digits.take 1 ++ (if fraction.isEmpty then [] else '.' :: fraction) ++
    ['e', if exponent < 0 then '-' else '+'] ++ Nat.toDigits 10 exponent.natAbs

/-- The text of a finite double: its sign, then the fewest digits that name its size. -/
def write (style : Notation) (x : Float) : List Char :=
  let bits := x.toBits
  let sign := if bits.toNat < 0x8000000000000000 then [] else ['-']
  let size := bits.toNat % 0x8000000000000000
  if size = 0 then sign ++ ['0', '.', '0']
  else
    let decimal := (Binary.ofBits bits).shortest
    let digits := Nat.toDigits 10 decimal.coefficient
    let place := digits.length + decimal.exponent
    sign ++
      if style.least ≤ place ∧ place ≤ style.greatest then positional digits place
      else exponential digits place

end Notation

end Fleet.Decimal
