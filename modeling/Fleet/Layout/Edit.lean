import Fleet.Layout.Basic

/-! Changes of a single route.

    Every change puts the nodes from the place of the change on into their new positions; the totals stay as
    they are until they are computed again. -/

namespace Fleet.Layout

/-- The route of a name, which must not have been released. -/
def route (id : RouteId) : LayoutM Route := do
  match (← get).route? id with
  | some r => return r
  | none => throw (.refused (.routeReleased id))

/-- A node that a route visits, which must not have been released. -/
def visited (id : NodeId) : LayoutM Node := do
  match (← get).node? id with
  | some node => return node
  | none => throw (.broken (.releasedVisit id))

def setNode (id : NodeId) (node : Node) : LayoutM Unit :=
  modify fun l => { l with nodes := l.nodes.set id.key node }

def setRoute (id : RouteId) (r : Route) : LayoutM Unit :=
  modify fun l => { l with routes := l.routes.set id.key r }

/-- The key of a new value and the pool with it, which must not be full. -/
def takeSlot {α : Type} (pool : Pool α) (value : α) : LayoutM (Key × Pool α) :=
  match pool.insert? fun _ => value with
  | some entered => return entered
  | none => throw (.broken (.full pool.slots.size))

/-- A new node that stands in no route. -/
def addNode (location : UInt64) : LayoutM NodeId := do
  let entered ← takeSlot (← get).nodes { location }
  modify fun l => { l with nodes := entered.2 }
  return ⟨entered.1⟩

/-- Gives the nodes consecutive positions in a route, the first of them `position`. -/
def seat (id : RouteId) : Nat → List NodeId → LayoutM Unit
  | _, [] => pure ()
  | position, node :: nodes => do
    let n ← visited node
    setNode node { n with route := some id, position }
    seat id (position + 1) nodes

/-- Takes the position of a node away. -/
def unseat (node : NodeId) : LayoutM Unit := do
  let n ← visited node
  setNode node { n with route := none, position := 0 }

def unseatAll : List NodeId → LayoutM Unit
  | [] => pure ()
  | node :: nodes => do
    unseat node
    unseatAll nodes

/-- Gives the nodes of a route their positions, from `position` on. -/
def seatFrom (id : RouteId) (position : Nat) : LayoutM Unit := do
  let r ← route id
  seat id position (r.visits.drop position)

/-- A new route without clients, from one depot to another. -/
def addRoute (idx : Nat) (vehicleType : UInt64) (start finish : NodeId) : LayoutM RouteId := do
  let entered ← takeSlot (← get).routes { idx, vehicleType, start, clients := [], finish }
  modify fun l => { l with routes := entered.2 }
  seatFrom ⟨entered.1⟩ 0
  return ⟨entered.1⟩

/-- Puts a node before the end depot. -/
def append (id : RouteId) (node : NodeId) : LayoutM Unit := do
  let r ← route id
  setRoute id { r with clients := r.clients ++ [node] }
  seatFrom id (r.clients.length + 1)

/-- True for a node that stands in no route and has not been released. -/
def isLoose (l : Layout) (node : NodeId) : Bool :=
  match l.node? node with
  | some n => n.route.isNone
  | none => false

/-- Puts a node, which must stand in no route, at a position between the depots. -/
def insertAt (id : RouteId) (position : Nat) (node : NodeId) : LayoutM Unit := do
  let r ← route id
  if position = 0 ∨ r.clients.length + 1 < position then
    throw (.refused (.insertPosition position r.clients.length))
  else if (← get).isLoose node then do
    setRoute id { r with clients := r.clients.insertIdx (position - 1) node }
    seatFrom id position
  else throw .outOfRange

/-- Takes the client at a position out of a route and gives it. -/
def removeAt (id : RouteId) (position : Nat) : LayoutM NodeId := do
  let r ← route id
  match r.client? position with
  | none => throw (.refused (.removePosition position r.clients.length))
  | some node => do
    setRoute id { r with clients := r.clients.eraseIdx (position - 1) }
    unseat node
    seatFrom id position
    return node

/-- Takes out the client at a position `count` times, each time the next one. -/
def removeMany (id : RouteId) (position : Nat) : Nat → LayoutM Unit
  | 0 => pure ()
  | count + 1 => do
    let _ ← removeAt id position
    removeMany id position count

/-- Puts several nodes one after the other, the first of them at a position. -/
def insertMany (id : RouteId) : Nat → List NodeId → LayoutM Unit
  | _, [] => pure ()
  | position, node :: nodes => do
    insertAt id position node
    insertMany id (position + 1) nodes

/-- Puts several nodes before the end depot, one after the other. -/
def appendMany (id : RouteId) : List NodeId → LayoutM Unit
  | [] => pure ()
  | node :: nodes => do
    append id node
    appendMany id nodes

def clear (id : RouteId) : LayoutM Unit := do
  let r ← route id
  setRoute id { r with clients := [] }
  unseatAll r.clients
  seatFrom id 1

/-- Computes the totals of a route again. -/
def refresh (p : Problem) (id : RouteId) : LayoutM Unit := do
  seatFrom id 0
  let r ← route id
  let totals ← LayoutM.ofResult (Totals.ofTour p r.vehicleType.toNat ((← get).locations r))
  setRoute id { r with totals }

end Fleet.Layout
