import Fleet.Fault

/-! Distances, durations, loads and costs: whole numbers of 64 bits with a sign.

    They are computed exactly. A result out of range ends the computation, except where the rule says that it
    stays at the limit. -/

namespace Fleet.Quantity

def least : Int := -0x8000000000000000

def greatest : Int := 0x7FFFFFFFFFFFFFFF

/-- `n`, which must be a quantity. -/
def checked (n : Int) : Except Fault Int :=
  if least ≤ n ∧ n ≤ greatest then .ok n else .error .overflow

/-- The quantity nearest to `n`. -/
def clamped (n : Int) : Int :=
  if n < least then least else if greatest < n then greatest else n

/-- The sum of some quantities, each partial sum checked. -/
def sum : Int → List Int → Except Fault Int
  | total, [] => .ok total
  | total, n :: ns => do
    let total ← checked (total + n)
    sum total ns

/-- A count, which must fit an unsigned word. -/
def checkedCount (n : Nat) : Except Fault Nat :=
  if n < 0x10000000000000000 then .ok n else .error .overflow

/-- `n - m`, which must be a count. -/
def less (n m : Nat) : Except Fault Nat :=
  if m ≤ n then .ok (n - m) else .error .overflow

end Fleet.Quantity
