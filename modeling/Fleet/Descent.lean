import Fleet.Dispatch.Reconcile
import Fleet.Move
import Fleet.Neighbourhood.Nearest

/-! The local search: clients are visited in an order that changes with every pass, and the first move that
    lowers the cost is made at once, until a pass finds none.

    After each move the two routes are reconciled before anything else happens. How the order of a pass is
    found is left open: any function that gives the clients in some order will do. -/

namespace Fleet

structure Descent where
  neighbours : Array (List Nat)
  moves : List Move
  penalties : Penalties
  maxPasses : Nat

namespace Descent

structure Report where
  passes : Nat
  moves : Nat
  initialCost : Int
  finalCost : Int
  deriving DecidableEq

/-- A search with the default moves. -/
def ofParameters (p : Problem) (neighbourhood : NeighbourhoodParameters) (search : SearchParameters) :
    Except Fault Descent := do
  neighbourhood.validate.mapError Fault.refused
  search.validate.mapError Fault.refused
  let neighbours ← Neighbourhood.lists p neighbourhood
  return ⟨neighbours, Move.defaults, search.penalties, search.maxPasses.toNat⟩

/-- The costs of all routes with the names of the routes. -/
def costs (p : Problem) (penalties : Penalties) (l : Layout) : Except Fault (List (RouteId × Int)) :=
  l.routeList.mapM fun (id, r) => do
    let cost ← penalties.cost p r.vehicleType.toNat r.totals
    return (id, cost)

def totalCost (p : Problem) (penalties : Penalties) (l : Layout) : Except Fault Int := do
  let costs ← costs p penalties l
  Quantity.sum 0 (costs.map (·.2))

/-! ### Which node visits a location -/

/-- The node that visits each location, if there is one. -/
abbrev Visitors := Array (Option NodeId)

/-- Enters nodes at their locations. -/
def enter (l : Layout) : Visitors → List NodeId → Except Fault Visitors
  | visitors, [] => .ok visitors
  | visitors, node :: nodes =>
    match l.node? node with
    | none => enter l visitors nodes
    | some n =>
      if n.location.toNat < visitors.size then
        enter l (visitors.setIfInBounds n.location.toNat (some node)) nodes
      else .error .outOfRange

/-- Enters the clients of a route, if it is still there. -/
def enterRoute (l : Layout) (visitors : Visitors) (route : RouteId) : Except Fault Visitors :=
  match l.route? route with
  | some r => enter l visitors r.clients
  | none => .ok visitors

def clients (l : Layout) : List NodeId := l.routeList.flatMap fun (_, r) => r.clients

/-! ### Improving a single client -/

def visitorsOf (visitors : Visitors) (locations : List Nat) : Except Fault (List NodeId) := do
  let found ← locations.mapM fun location =>
    match visitors[location]? with
    | some visitor => .ok visitor
    | none => .error .outOfRange
  return found.filterMap id

/-- The nodes to try moves with: those that visit the neighbours of a location, and the start depots of empty
    routes. -/
def partners (descent : Descent) (l : Layout) (visitors : Visitors) (location : Nat) :
    Except Fault (List NodeId) := do
  match descent.neighbours[location]? with
  | none => .error .outOfRange
  | some neighbours => do
    let near ← visitorsOf visitors neighbours
    let empty := (l.routeList.filter fun (_, r) => r.clients.isEmpty).map fun (_, r) => r.start
    return near ++ empty

/-- The first of some moves that lowers the cost. -/
def firstImproving (p : Problem) (penalties : Penalties) (l : Layout) (u : NodeId) :
    List (NodeId × Move) → Except Fault (Option (NodeId × Move))
  | [] => .ok none
  | (v, move) :: trials => do
    let change ← move.costChange p penalties l u v
    if change < 0 then return some (v, move) else firstImproving p penalties l u trials

/-- The first move of a client that lowers the cost; none if the client stands in no route any more. -/
def find? (p : Problem) (descent : Descent) (l : Layout) (visitors : Visitors) (u : NodeId) :
    Except Fault (Option (NodeId × Move)) :=
  match l.node? u with
  | none => .ok none
  | some n =>
    match n.route with
    | none => .ok none
    | some _ => do
      let partners ← descent.partners l visitors n.location.toNat
      firstImproving p descent.penalties l u (partners.flatMap fun v => descent.moves.map fun move => (v, move))

open DispatchM

/-- Makes a move, reconciles its two routes and enters their clients again. -/
def make (p : Problem) (visitors : Visitors) (u v : NodeId) (move : Move) : DispatchM Visitors := do
  let (routeU, routeV) ← onLayout (move.perform p u v)
  let _ ← Dispatch.reconcile routeU routeV
  let visitors ← ofResult (enterRoute (← get).layout visitors routeU)
  ofResult (enterRoute (← get).layout visitors routeV)

/-! ### Passes -/

/-- Goes through clients, making for each at most one move; gives how many moves were made. -/
def improveAll (p : Problem) (descent : Descent) : List NodeId → Visitors → Nat → DispatchM Nat
  | [], _, made => return made
  | u :: us, visitors, made => do
    match ← ofResult (descent.find? p (← get).layout visitors u) with
    | none => improveAll p descent us visitors made
    | some (v, move) => do
      let visitors ← make p visitors u v move
      improveAll p descent us visitors (made + 1)

/-- Goes once through all clients in an order that `shuffle` gives. -/
def pass {σ : Type} (p : Problem) (descent : Descent) (shuffle : List NodeId → σ → List NodeId × σ) (s : σ) :
    DispatchM (Nat × σ) := do
  let l := (← get).layout
  let clients := clients l
  let visitors ← ofResult (enter l (.replicate p.numLocations none) clients)
  let (order, s) := shuffle clients s
  let made ← improveAll p descent order visitors 0
  return (made, s)

/-- Makes passes until one changes nothing, at most `remaining` of them; gives how many passes and moves there
    were. -/
def passes {σ : Type} (p : Problem) (descent : Descent) (shuffle : List NodeId → σ → List NodeId × σ) :
    Nat → Nat × Nat → σ → DispatchM ((Nat × Nat) × σ)
  | 0, counts, s => return (counts, s)
  | remaining + 1, (passed, moved), s => do
    let (made, s) ← pass p descent shuffle s
    if made = 0 then return ((passed + 1, moved), s)
    else passes p descent shuffle remaining (passed + 1, moved + made) s

def run {σ : Type} (p : Problem) (descent : Descent) (shuffle : List NodeId → σ → List NodeId × σ) (s : σ) :
    DispatchM (Report × σ) := do
  let initialCost ← ofResult (totalCost p descent.penalties (← get).layout)
  let ((passed, moved), s) ← passes p descent shuffle descent.maxPasses (0, 0) s
  let finalCost ← ofResult (totalCost p descent.penalties (← get).layout)
  return (⟨passed, moved, initialCost, finalCost⟩, s)

end Descent

end Fleet
