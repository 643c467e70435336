import Fleet.Dispatch.Ownership
import Fleet.Layout.Edit
import Fleet.Plan

/-! The dispatcher's books around a layout: who owns each node, and what keeps a route alive.

    Every node but the depots is owned either by the host, outside of any route, or by one route, in whose
    store it is. The host works with handles. A handle to a route keeps the route alive, and so does a handle
    to a node that the route holds: a node it owns, or one of its depots. -/

namespace Fleet

/-- The store of a route: the nodes it owns, and how many handles keep the route alive. -/
structure Store where
  nodes : List NodeId := []
  routeHandles : Nat := 0
  /-- Handles to nodes that the route holds. -/
  nodeHandles : Nat := 0
  deriving DecidableEq

/-- True when nothing keeps the route alive. -/
def Store.isIdle (s : Store) : Bool := s.routeHandles = 0 && s.nodeHandles = 0

/-- A layout with its books. -/
structure Dispatch where
  layout : Layout
  ownership : Ownership
  stores : Table RouteId Store
  /-- The nodes that the host owns. -/
  host : Table NodeId Unit
  /-- How many handles there are to each node that has one. -/
  handles : Table NodeId Nat

namespace Dispatch

def empty : Dispatch := ⟨.empty, .empty, ∅, ∅, ∅⟩

def owner? (d : Dispatch) (node : NodeId) : Option Owner := d.ownership.owner? node

/-- The route that handles to a node keep alive: the owner of a client, the route of a depot. -/
def holder? (d : Dispatch) (node : NodeId) : Option RouteId :=
  match d.owner? node with
  | some (.route route) => some route
  | some .standalone => none
  | none => (d.layout.node? node).bind Node.route

def handleCount (d : Dispatch) (node : NodeId) : Nat := (d.handles.find? node).getD 0

/-- A route, which must not have been released. -/
def route (d : Dispatch) (id : RouteId) : Except Fault Route :=
  match d.layout.route? id with
  | some r => .ok r
  | none => .error (.refused (.routeReleased id))

/-- The nodes that a route owns, in the order in which its store keeps them. -/
def owned (d : Dispatch) (id : RouteId) : Except Fault (List NodeId) :=
  match d.stores.find? id with
  | some s => .ok s.nodes
  | none => .error (.refused (.routeReleased id))

/-- The clients that a route visits, in order. -/
def scan (d : Dispatch) (id : RouteId) : Except Fault (List NodeId) := do
  let r ← d.route id
  return r.clients

/-- True when a route owns the clients it visits and no others. -/
def isReconciled (d : Dispatch) (id : RouteId) : Except Fault Bool := do
  let scanned ← d.scan id
  let owned ← d.owned id
  return owned.length = scanned.eraseDups.length && owned.all (· ∈ scanned)

def numRoutes (d : Dispatch) : Nat := d.stores.size

/-- The tour of a route as a plan has it. -/
def tour (d : Dispatch) (id : RouteId) : Except Fault Tour := do
  let r ← d.route id
  match r.clients.mapM fun node => (d.layout.node? node).map Node.location with
  | some visits => return { vehicleType := r.vehicleType, visits }
  | none => throw (.refused (.releasedVisits id))

/-- The tours of some routes as a plan. -/
def plan (d : Dispatch) (routes : List RouteId) : Except Fault Plan := do
  let tours ← routes.mapM d.tour
  return ⟨tours⟩

/-! ### The books agree -/

/-- The routes in whose stores a node is. -/
def routesOwning (d : Dispatch) (node : NodeId) : List RouteId :=
  (d.stores.entries.filter fun (_, s) => node ∈ s.nodes).map (·.1)

/-- Every node of a store is in no other store nor twice in this one, is not the host's, and is entered as
    owned by the route. -/
def storesAgree (d : Dispatch) : Bool :=
  (d.stores.entries.flatMap fun (_, s) => s.nodes).Nodup &&
  d.stores.entries.all fun (route, s) => s.nodes.all fun node =>
    !d.host.contains node && d.owner? node = some (.route route)

/-- Every node of the host is entered as the host's. -/
def hostAgrees (d : Dispatch) : Bool :=
  d.host.keys.all fun node => d.owner? node = some .standalone

/-- Every node that is entered has not been released and is where it is said to be. -/
def ownersAgree (d : Dispatch) : Bool :=
  d.ownership.owners.entries.all fun (node, owner) =>
    (d.layout.node? node).isSome &&
    match owner with
    | .standalone => d.host.contains node
    | .route route => route ∈ d.routesOwning node

/-- Every handle is one to a node that has not been released. -/
def handlesAgree (d : Dispatch) : Bool :=
  d.handles.entries.all fun (node, count) => 0 < count && (d.layout.node? node).isSome

/-- The number of handles to nodes that a route holds, counted node by node. -/
def countHandles (d : Dispatch) (route : RouteId) : Nat :=
  ((d.handles.entries.filter fun (node, _) => d.holder? node = some route).map (·.2)).foldr (· + ·) 0

/-- Every store counts the handles to the nodes its route holds, and something keeps the route alive. -/
def countsAgree (d : Dispatch) : Bool :=
  d.stores.entries.all fun (route, s) => s.nodeHandles = d.countHandles route && !s.isIdle

/-- True when all books agree with each other and with the layout. -/
def isConsistent (d : Dispatch) : Bool :=
  d.storesAgree && d.hostAgrees && d.ownersAgree && d.handlesAgree && d.countsAgree

end Dispatch

/-- Computations that change a layout with its books. What was changed before a fault stays changed. -/
abbrev DispatchM := EStateM Fault Dispatch

namespace DispatchM

/-- The result of a computation that changes nothing. -/
def ofResult {α : Type} : Except Fault α → DispatchM α
  | .ok a => pure a
  | .error fault => throw fault

def refuse {α : Type} (why : Refusal) : DispatchM α := throw (.refused why)

def breach {α : Type} (what : Breach) : DispatchM α := throw (.broken what)

/-- What a computation on the layout does, with the books left as they are. -/
def onLayout {α : Type} (m : LayoutM α) : DispatchM α := fun d =>
  match m d.layout with
  | .ok a layout => .ok a { d with layout }
  | .error fault layout => .error fault { d with layout }

end DispatchM

end Fleet
