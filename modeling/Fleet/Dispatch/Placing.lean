import Fleet.Dispatch.Lifetime

/-! Moving single nodes: into a route, out of it, from one route to another.

    Everything that can be refused is refused before anything is changed. Then the node leaves its old place,
    enters its new one, and the books follow. -/

namespace Fleet.Dispatch

open DispatchM

/-- Where in a route a node is to go. -/
inductive Spot where
  | position (position : Nat)
  /-- Before the end depot. -/
  | last

/-- The position that is meant, of which `highest` is the highest; the route has so many clients now. -/
def Spot.resolve (spot : Spot) (highest clients : Nat) : Except Fault Nat :=
  match spot with
  | .last => .ok highest
  | .position i =>
    if i = 0 ∨ highest < i then .error (.refused (.insertPosition i clients)) else .ok i

def ownerRoute : Owner → Option RouteId
  | .route route => some route
  | .standalone => none

/-- The highest position for a node in a route with so many clients: a node that the route owns already gives
    up a position itself. -/
def highestPosition (route : RouteId) (clients : Nat) (owner : Owner) : Nat :=
  if owner = .route route then clients else clients + 1

/-- Takes a node out of the visits of the route that owns it. The totals of the route are computed again unless
    the node comes back to it. -/
def leave (p : Problem) (old target : RouteId) (node : NodeId) : DispatchM Unit := do
  let _ ← ofResult ((← get).route old)
  match (← get).layout.node? node with
  | none => breach (.notInVisits node old)
  | some n =>
    if n.route = some old then
      onLayout do
        let _ ← Layout.removeAt old n.position
        if old = target then pure () else Layout.refresh p old
    else breach (.notInVisits node old)

/-- Puts a node that stands in no route into the visits of one. -/
def arrive (p : Problem) (target : RouteId) (position : Nat) (node : NodeId) : DispatchM Unit :=
  onLayout do
    Layout.insertAt target position node
    Layout.refresh p target

/-- Moves a node with its handles from the store of one route into that of another. -/
def handOver (node : NodeId) (source target : RouteId) : DispatchM Unit := do
  storeOut source node
  storeIn target node
  assign node target
  recount node (some source) (some target)

/-- Moves a node with its handles from the host into the store of a route. -/
def takeIn (node : NodeId) (target : RouteId) : DispatchM Unit := do
  hostOut node
  storeIn target node
  assign node target
  recount node none (some target)

/-- Puts a client into a route, taking it out of its previous route if it had one. -/
def put (p : Problem) (route : RouteId) (spot : Spot) (node : NodeId) : DispatchM Unit := do
  let r ← ofResult ((← get).route route)
  requireNode node
  match (← get).owner? node with
  | none => refuse (.depot node)
  | some owner => do
    let highest := highestPosition route r.clients.length owner
    let position ← ofResult (spot.resolve highest r.clients.length)
    match ownerRoute owner with
    | none => do
      arrive p route position node
      takeIn node route
    | some old => do
      leave p old route node
      arrive p route position node
      if old = route then pure ()
      else do
        handOver node old route
        retire old

def insert (p : Problem) (route : RouteId) (position : Nat) (node : NodeId) : DispatchM Unit :=
  put p route (.position position) node

def append (p : Problem) (route : RouteId) (node : NodeId) : DispatchM Unit :=
  put p route .last node

/-- Takes the client at a position out of a route; it becomes the host's, with a handle to it. -/
def remove (p : Problem) (route : RouteId) (position : Nat) : DispatchM NodeId := do
  let node ← onLayout do
    let node ← Layout.removeAt route position
    Layout.refresh p route
    return node
  let owner ← strike node
  if owner = .route route then do
    storeOut route node
    enter node
    hostIn node
    recount node (some route) none
    let node ← shareNode node
    retire route
    return node
  else breach (.removedButRegistered node route owner)

/-- A new node for a client at the end of a route, with a handle to it. -/
def addRouteNode (p : Problem) (route : RouteId) (location : UInt64) : DispatchM NodeId := do
  let _ ← ofResult ((← get).route route)
  let node ← addNode p location
  tryCatch (append p route node) fun
    | .refused why => do
      releaseNode node
      refuse why
    | fault => throw fault
  return node

/-! ### Plans -/

/-- Adds the visits of a tour to a route; no handles to the nodes are kept. -/
def addVisits (p : Problem) (route : RouteId) : List UInt64 → DispatchM Unit
  | [] => pure ()
  | location :: locations => do
    let node ← addRouteNode p route location
    releaseNode node
    addVisits p route locations

/-- Makes a route for each tour, in order, with a handle to it. -/
def addTours (p : Problem) : List (Tour × Nat) → DispatchM (List RouteId)
  | [] => return []
  | (tour, idx) :: tours => do
    let route ← addRoute p tour.vehicleType idx
    addVisits p route tour.visits
    let routes ← addTours p tours
    return route :: routes

def load (p : Problem) (plan : Plan) : DispatchM (List RouteId) := do
  match plan.check p with
  | .error flaw => refuse (.plan flaw)
  | .ok () => addTours p plan.routes.zipIdx

end Fleet.Dispatch
