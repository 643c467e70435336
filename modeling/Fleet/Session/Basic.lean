import Fleet.Dispatch.Reconcile

/-! A host at work: the handles it has been given, numbered in the order in which it got them.

    The host remembers a handle after it has given it up, but then only as the name of what it led to. -/

namespace Fleet

/-- The handles of a host, and the dispatch they belong to. -/
structure Session where
  dispatch : Dispatch
  /-- The route of each handle, and whether the host still has the handle. -/
  routeHandles : Array (RouteId × Bool)
  /-- The node of each handle, and whether the host still has the handle. -/
  nodeHandles : Array (NodeId × Bool)

/-- Why a command has no result. -/
inductive Session.Trouble where
  | fault (fault : Fault)
  | noHandle
  | noVisit
  | noRoute
  /-- No handle ever had this number. -/
  | unknownNumber

/-- A node as the host speaks of it. -/
inductive NodeRef where
  | handle (number : Nat)
  /-- The node that is now at a position of the route of a handle, depots included. -/
  | visit (route position : Nat)

/-- What a host does. -/
abbrev SessionM := EStateM Session.Trouble Session

namespace Session

def empty : Session := ⟨.empty, #[], #[]⟩

/-- What a computation on the dispatch does. -/
def onDispatch {α : Type} (m : DispatchM α) : SessionM α := fun s =>
  match m s.dispatch with
  | .ok a dispatch => .ok a { s with dispatch }
  | .error fault dispatch => .error (.fault fault) { s with dispatch }

/-- The result of a computation that changes nothing. -/
def ofResult {α : Type} : Except Fault α → SessionM α
  | .ok a => pure a
  | .error fault => throw (.fault fault)

/-! ### Naming things -/

/-- The route of a handle, given up or not. -/
def routeOf (number : Nat) : SessionM RouteId := do
  match (← get).routeHandles[number]? with
  | some (id, _) => return id
  | none => throw .unknownNumber

/-- The route of a handle that the host has. -/
def liveRoute (number : Nat) : SessionM RouteId := do
  match (← get).routeHandles[number]? with
  | some (id, true) => return id
  | some (_, false) => throw .noHandle
  | none => throw .unknownNumber

/-- The node of a handle that the host has. -/
def liveNode (number : Nat) : SessionM NodeId := do
  match (← get).nodeHandles[number]? with
  | some (id, true) => return id
  | some (_, false) => throw .noHandle
  | none => throw .unknownNumber

def nodeOf : NodeRef → SessionM NodeId
  | .handle number => do
    match (← get).nodeHandles[number]? with
    | some (id, _) => return id
    | none => throw .unknownNumber
  | .visit route position => do
    let id ← routeOf route
    let r ← ofResult ((← get).dispatch.route id)
    match r.visits[position]? with
    | some node => return node
    | none => throw .noVisit

/-! ### Getting and giving up handles -/

/-- Numbers a new handle to a route. -/
def keepRoute (id : RouteId) : SessionM Nat :=
  modifyGet fun s => (s.routeHandles.size, { s with routeHandles := s.routeHandles.push (id, true) })

/-- Numbers a new handle to a node. -/
def keepNode (id : NodeId) : SessionM Nat :=
  modifyGet fun s => (s.nodeHandles.size, { s with nodeHandles := s.nodeHandles.push (id, true) })

def giveUpRoute (number : Nat) : SessionM Unit :=
  modify fun s => { s with routeHandles := s.routeHandles.modify number fun (id, _) => (id, false) }

def giveUpNode (number : Nat) : SessionM Unit :=
  modify fun s => { s with nodeHandles := s.nodeHandles.modify number fun (id, _) => (id, false) }

end Session

end Fleet
