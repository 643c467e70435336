import Fleet.Dispatch.Basic

/-! Single entries in the books. -/

namespace Fleet.Dispatch

open DispatchM

/-! ### Owners -/

def enter (node : NodeId) : DispatchM Unit := do
  match (← get).ownership.enter node with
  | .ok ownership => modify fun d => { d with ownership }
  | .error what => breach what

def assign (node : NodeId) (route : RouteId) : DispatchM Unit := do
  match (← get).ownership.assign node route with
  | .ok ownership => modify fun d => { d with ownership }
  | .error what => breach what

/-- Strikes out a node and tells who owned it. -/
def strike (node : NodeId) : DispatchM Owner := do
  match (← get).ownership.strike node with
  | .ok (owner, ownership) => do
    modify fun d => { d with ownership }
    return owner
  | .error what => breach what

/-! ### The host -/

def hostIn (node : NodeId) : DispatchM Unit :=
  modify fun d => { d with host := d.host.insert node () }

/-- Takes a node from among those of the host, where it must be. -/
def hostOut (node : NodeId) : DispatchM Unit := do
  if (← get).host.contains node then
    modify fun d => { d with host := d.host.erase node }
  else breach (.missingFromHost node)

/-! ### Stores -/

/-- The store of a route, which must be there. -/
def store (route : RouteId) : DispatchM Store := do
  match (← get).stores.find? route with
  | some s => return s
  | none => breach (.storeReleased route)

def setStore (route : RouteId) (s : Store) : DispatchM Unit :=
  modify fun d => { d with stores := d.stores.insert route s }

/-- Takes an element out of a list; the last one takes its place. -/
def swapErase {α : Type} [DecidableEq α] (a : α) (as : List α) : List α :=
  match as.getLast? with
  | none => []
  | some last => (as.set (as.idxOf a) last).dropLast

/-- Takes a node out of a store, in which it must be. -/
def storeOut (route : RouteId) (node : NodeId) : DispatchM Unit := do
  let s ← store route
  if node ∈ s.nodes then setStore route { s with nodes := swapErase node s.nodes }
  else breach (.notInStore node route)

def storeIn (route : RouteId) (node : NodeId) : DispatchM Unit := do
  let s ← store route
  setStore route { s with nodes := s.nodes ++ [node] }

/-! ### Handles to the nodes that a route holds -/

def countOne (route : RouteId) : DispatchM Unit := do
  let s ← store route
  setStore route { s with nodeHandles := s.nodeHandles + 1 }

def uncountOne (route : RouteId) : DispatchM Unit := do
  let s ← store route
  let nodeHandles ← ofResult (Quantity.less s.nodeHandles 1)
  setStore route { s with nodeHandles }

/-- Counts all handles to a node less. -/
def uncountAll (node : NodeId) (count : Nat) : Option RouteId → DispatchM Unit
  | none => pure ()
  | some route => do
    let s ← store route
    if s.nodeHandles < count then breach (.tooFewHandles route node)
    else setStore route { s with nodeHandles := s.nodeHandles - count }

def countAll (count : Nat) : Option RouteId → DispatchM Unit
  | none => pure ()
  | some route => do
    let s ← store route
    setStore route { s with nodeHandles := s.nodeHandles + count }

/-- Lets the handles to a node, which has just changed its owner, count for another route. -/
def recount (node : NodeId) (source target : Option RouteId) : DispatchM Unit := do
  let count := (← get).handleCount node
  if count = 0 ∨ source = target then pure ()
  else do
    uncountAll node count source
    countAll count target

/-! ### Destroying nodes and routes -/

def destroyNode (node : NodeId) : DispatchM Unit :=
  modify fun d => { d with layout := { d.layout with nodes := d.layout.nodes.erase node.key } }

/-- Destroys a route, but not its nodes. -/
def destroyRoute (route : RouteId) : DispatchM Unit :=
  modify fun d => { d with layout := { d.layout with routes := d.layout.routes.erase route.key } }

/-- Destroys nodes, all of which must be entered as a route's. -/
def destroyOwned (route : RouteId) : List NodeId → DispatchM Unit
  | [] => pure ()
  | node :: nodes => do
    let owner ← strike node
    if owner = .route route then do
      destroyNode node
      destroyOwned route nodes
    else breach (.registeredElsewhere node route owner)

/-- Destroys a route with all its nodes: first its visits are cleared, while every node is still there, then
    its depots go, and then the nodes that it owns. -/
def dissolve (route : RouteId) : DispatchM Unit := do
  let s ← store route
  modify fun d => { d with stores := d.stores.erase route }
  match (← get).layout.route? route with
  | none => breach (.routeMissing route)
  | some r => do
    onLayout (Layout.clear route)
    destroyRoute route
    destroyNode r.start
    destroyNode r.finish
    destroyOwned route s.nodes

/-- Destroys a route if nothing keeps it alive any more. -/
def retire (route : RouteId) : DispatchM Unit := do
  match (← get).stores.find? route with
  | some s => if s.isIdle then dissolve route else pure ()
  | none => pure ()

end Fleet.Dispatch
