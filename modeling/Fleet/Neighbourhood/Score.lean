import Fleet.Fault
import Fleet.Quantity

/-! Scores of pairs of locations. Scores are doubles; the lower one is the better one. -/

namespace Fleet

namespace Score

/-- The score of a pair that never counts. -/
def never : Float := Float.ofBits 0x7FF0000000000000

/-- The score of two clients that exclude each other: the least finite double. -/
def exclusive : Float := Float.ofBits 0xFFEFFFFFFFFFFFFF

/-- The lower of two scores, the first one when neither is lower. -/
def lower (x y : Float) : Float := if y < x then y else x

/-- The lower of two scores; when one of them is no number, the other one. -/
def minimum (x y : Float) : Float := if x.isNaN then y else lower x y

/-- Zero in place of what is below it, and in place of what is no number. -/
def atLeastZero (x : Float) : Float := if 0.0 ≤ x then x else 0.0

/-- The double nearest to a quantity, of two equally near ones the even one. -/
def ofQuantity (n : Int) : Float :=
  if n < 0 then -(UInt64.ofNat n.natAbs).toFloat else (UInt64.ofNat n.natAbs).toFloat

/-- The place of a double among all doubles, minus zero before zero. -/
def rank (x : Float) : Nat :=
  let bits := x.toBits.toNat
  if bits < 0x8000000000000000 then 0x8000000000000000 + bits else 0x10000000000000000 - 1 - bits

end Score

/-- A table with a score for each pair of locations. -/
structure Scores where
  rows : Array (Array Float)
  deriving DecidableEq

namespace Scores

/-- The score in row `i` and column `j`, which must be there. -/
def entry (s : Scores) (i j : Nat) : Except Fault Float :=
  match s.rows[i]? with
  | some row =>
    match row[j]? with
    | some x => .ok x
    | none => .error .outOfRange
  | none => .error .outOfRange

/-- Row `i`, which must be there. -/
def row (s : Scores) (i : Nat) : Except Fault (Array Float) :=
  match s.rows[i]? with
  | some row => .ok row
  | none => .error .outOfRange

/-- The table of `n` rows and columns with the scores that `f` gives. -/
def tabulate (n : Nat) (f : Nat → Nat → Except Fault Float) : Except Fault Scores := do
  let rows ← (List.range n).mapM fun i => do
    let row ← (List.range n).mapM (f i)
    return row.toArray
  return ⟨rows.toArray⟩

/-- Writes the score in row `i` and column `j`, which must be there. -/
def write (s : Scores) (i j : Nat) (x : Float) : Except Fault Scores :=
  match s.entry i j with
  | .ok _ => .ok ⟨s.rows.modify i fun row => row.setIfInBounds j x⟩
  | .error fault => .error fault

end Scores

end Fleet
