import Fleet.Json.Value

/-! Numbers of JSON text: their spelling and their value.

    A numeral without fraction and exponent that fits a 64-bit word is that whole number. Every other one is
    a double, found in one multiplication or division: its digits are collected in an unsigned word for as
    long as they fit, the place of the point is kept as a power of ten, and the word, rounded to a double, is
    scaled by that power. -/

namespace Fleet.Json

/-- A numeral as it is spelled. The fraction is empty when there is no point. -/
structure Numeral where
  negative : Bool
  whole : List Char
  fraction : List Char
  exponent : Option (Bool × List Char)
  deriving DecidableEq

namespace Numeral

/-- The digits at the front, of which there must be one at least, and what follows them. -/
def digits? (cs : List Char) : Option (List Char × List Char) :=
  match cs.takeWhile Char.isDigit with
  | [] => none
  | digits => some (digits, cs.dropWhile Char.isDigit)

/-- The digits before the point: a zero stands alone. -/
def scanWhole : List Char → Option (List Char × List Char)
  | '0' :: rest => some (['0'], rest)
  | cs => digits? cs

/-- The digits behind the point, if there is one. -/
def scanFraction : List Char → Option (List Char × List Char)
  | '.' :: rest => digits? rest
  | cs => some ([], cs)

/-- The digits of an exponent behind its sign. -/
def scanSigned : List Char → Option ((Bool × List Char) × List Char)
  | '+' :: rest => (digits? rest).map fun (digits, rest) => ((false, digits), rest)
  | '-' :: rest => (digits? rest).map fun (digits, rest) => ((true, digits), rest)
  | cs => (digits? cs).map fun (digits, rest) => ((false, digits), rest)

/-- The exponent, if there is one. -/
def scanExponent (cs : List Char) : Option (Option (Bool × List Char) × List Char) :=
  match cs with
  | 'e' :: rest | 'E' :: rest => (scanSigned rest).map fun (exponent, rest) => (some exponent, rest)
  | cs => some (none, cs)

def scanSign : List Char → Bool × List Char
  | '-' :: rest => (true, rest)
  | cs => (false, cs)

def scan (cs : List Char) : Option (Numeral × List Char) := do
  let (negative, cs) := scanSign cs
  let (whole, cs) ← scanWhole cs
  let (fraction, cs) ← scanFraction cs
  let (exponent, cs) ← scanExponent cs
  return (⟨negative, whole, fraction, exponent⟩, cs)

/-- Appends digits to `n` while the result fits an unsigned word; gives the result and how many digits were
    left over. -/
def collect (n : Nat) : List Char → Nat × Nat
  | [] => (n, 0)
  | c :: cs =>
    let next := 10 * n + (c.toNat - '0'.toNat)
    if next < 0x10000000000000000 then collect next cs else (n, cs.length + 1)

/-- The double nearest to `10 ^ k`. -/
def tenTo (k : Nat) : Float := Float.ofScientific 1 false k

/-- The size of `n * 10 ^ k`, found with a single rounding after that of `n` for `k` from -308 to 308. A
    larger power overflows unless `n` is zero; a smaller one is divided out in two steps, beyond which nothing
    is left. -/
def scaled (n : Nat) (k : Int) : Float :=
  let x := n.toUInt64.toFloat
  if 308 < k then if n = 0 then x else x / 0.0
  else if 0 ≤ k then x * tenTo k.toNat
  else if -308 ≤ k then x / tenTo (-k).toNat
  else if -616 ≤ k then x / tenTo 308 / tenTo (-k - 308).toNat
  else 0.0

/-- The exponent as a number; none is zero. -/
def power : Option (Bool × List Char) → Int
  | none => 0
  | some (false, digits) => Nat.ofDigitChars 10 digits 0
  | some (true, digits) => -(Nat.ofDigitChars 10 digits 0 : Int)

def signed (negative : Bool) (x : Float) : Float := if negative then -x else x

/-- The value of a numeral; none when its double is infinite. Minus zero is a double, for it has no whole
    number. -/
def value? (numeral : Numeral) : Option Number :=
  let (n, excess) := collect 0 numeral.whole
  if excess = 0 ∧ numeral.fraction = [] ∧ numeral.exponent = none ∧
      (numeral.negative = true → 0 < n ∧ n ≤ 0x8000000000000000) then
    Number.whole? (if numeral.negative then -n else n)
  else
    let (n, dropped) := collect n numeral.fraction
    let places : Int := numeral.fraction.length - dropped
    Number.double? (signed numeral.negative (scaled n (excess - places + power numeral.exponent)))

end Numeral

end Fleet.Json
