import Fleet.Dispatch.Placing

/-! Bringing the stores of two routes back in line with their visits.

    Moves change where nodes stand and leave the books alone; afterwards each node that one of the two routes
    owns and the other visits changes its owner. -/

namespace Fleet.Dispatch

open DispatchM

/-- Moves several nodes with their handles from the store of one route into that of another. -/
def handOverAll (source target : RouteId) : List NodeId → DispatchM Unit
  | [] => pure ()
  | node :: nodes => do
    handOver node source target
    handOverAll source target nodes

/-- Hands over the nodes between the stores of two routes; routes that nothing keeps alive afterwards go. -/
def exchangeOwned (a b : RouteId) (toB toA : List NodeId) : DispatchM Nat := do
  handOverAll a b toB
  handOverAll b a toA
  if 0 < toB.length + toA.length then do
    retire a
    retire b
    return toB.length + toA.length
  else return 0

/-- Lets each of two routes own the nodes that it visits and the other owns; gives how many there were. Nodes
    that neither visits stay where they are. -/
def reconcile (a b : RouteId) : DispatchM Nat := do
  let visitedByA ← ofResult ((← get).scan a)
  if a = b then return 0
  else do
    let visitedByB ← ofResult ((← get).scan b)
    match (← get).stores.find? a, (← get).stores.find? b with
    | some storeA, some storeB =>
      exchangeOwned a b (storeA.nodes.filter (· ∈ visitedByB)) (storeB.nodes.filter (· ∈ visitedByA))
    | _, _ => refuse (.unreconcilable a b)

end Fleet.Dispatch
