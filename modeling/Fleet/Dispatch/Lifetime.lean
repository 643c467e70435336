import Fleet.Dispatch.Books

/-! Making routes and nodes, and the handles that keep them. -/

namespace Fleet.Dispatch

open DispatchM

/-! ### Routes -/

/-- A new route for a vehicle, with a handle to it. -/
def addRoute (p : Problem) (vehicleType : UInt64) (idx : Nat) : DispatchM RouteId := do
  match p.vehicleTypes[vehicleType.toNat]? with
  | none => refuse (.unknownVehicleType vehicleType.toNat)
  | some vehicle => do
    let id ← onLayout do
      let start ← Layout.addNode vehicle.startDepot
      let finish ← Layout.addNode vehicle.endDepot
      let id ← Layout.addRoute idx vehicleType start finish
      Layout.refresh p id
      return id
    setStore id { routeHandles := 1 }
    return id

def shareRoute (route : RouteId) : DispatchM RouteId := do
  let s ← store route
  setStore route { s with routeHandles := s.routeHandles + 1 }
  return route

def releaseRoute (route : RouteId) : DispatchM Unit := do
  let s ← store route
  let routeHandles ← ofResult (Quantity.less s.routeHandles 1)
  setStore route { s with routeHandles }
  retire route

/-! ### Nodes -/

/-- Refuses a node that has been released. -/
def requireNode (node : NodeId) : DispatchM Unit := do
  match (← get).layout.node? node with
  | some _ => pure ()
  | none => refuse (.nodeReleased node)

/-- A new node for a client, owned by the host, with a handle to it. -/
def addNode (p : Problem) (location : UInt64) : DispatchM NodeId := do
  if p.isClient location.toNat then do
    let node ← onLayout (Layout.addNode location)
    enter node
    hostIn node
    modify fun d => { d with handles := d.handles.insert node 1 }
    return node
  else refuse (.notClient location.toNat)

def shareNode (node : NodeId) : DispatchM NodeId := do
  modify fun d => { d with handles := d.handles.insert node (d.handleCount node + 1) }
  match (← get).holder? node with
  | some route => do
    countOne route
    return node
  | none => return node

/-- A handle to the node at a position of a route, depots included. -/
def nodeAt (route : RouteId) (position : Nat) : DispatchM NodeId := do
  let r ← ofResult ((← get).route route)
  match r.visits[position]? with
  | none => refuse (.visitPosition position r.clients.length)
  | some node => shareNode node

/-- Takes one handle to a node off the books and gives how many are left. -/
def dropHandle (node : NodeId) : DispatchM Nat := do
  match (← get).handles.find? node with
  | none => breach (.unknownHandle node)
  | some count => do
    let count ← ofResult (Quantity.less count 1)
    if count = 0 then modify fun d => { d with handles := d.handles.erase node }
    else modify fun d => { d with handles := d.handles.insert node count }
    return count

def destroyStandalone (node : NodeId) : DispatchM Unit := do
  hostOut node
  let owner ← strike node
  if owner = .standalone then destroyNode node else breach (.hostRegistered node owner)

/-- Gives up a handle to a node. A node that no route holds goes with its last handle. -/
def releaseNode (node : NodeId) : DispatchM Unit := do
  let left ← dropHandle node
  match (← get).holder? node with
  | some route => do
    uncountOne route
    retire route
  | none => if left = 0 then destroyStandalone node else pure ()

end Fleet.Dispatch
