import Fleet.Move

/-! Moves by their written names. -/

namespace Fleet

/-- A move as it is asked for; there may be no such move. -/
inductive MoveRequest where
  | exchange (n m : UInt64)
  | swapTails
  deriving DecidableEq

namespace MoveRequest

def make : MoveRequest → Except Breach Move
  | .exchange n m => Move.ofSizes n m
  | .swapTails => .ok .swapTails

/-- The moves that are meant; without a request, the default ones. -/
def makeAll : Option (List MoveRequest) → Except Breach (List Move)
  | none => .ok Move.defaults
  | some requests => requests.mapM make

/-- The word that a text of digits says. -/
def word? (text : String) : Option UInt64 := do
  let n ← text.toNat?
  if n < UInt64.size then return .ofNat n else none

/-- Reads `swap_tails`, or `exchange_` with the two sizes. -/
def ofText? (text : String) : Option MoveRequest :=
  match text.splitOn "_" with
  | ["swap", "tails"] => some .swapTails
  | ["exchange", n, m] => do
    return .exchange (← word? n) (← word? m)
  | _ => none

end MoveRequest

end Fleet
