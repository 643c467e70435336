import Fleet.Identity
import Fleet.Pool.Basic
import Fleet.Totals

/-! Where everything stands: the nodes, and for each route the sequence of its nodes.

    A layout knows nothing of who owns a node. -/

namespace Fleet

/-- One visit to a location. A node that stands in a route knows the route and its position there; the start
    depot has position 0. -/
structure Node where
  location : UInt64
  route : Option RouteId := none
  position : Nat := 0
  deriving DecidableEq

/-- The itinerary of one vehicle: clients between two depots that never change. -/
structure Route where
  idx : Nat
  vehicleType : UInt64
  start : NodeId
  clients : List NodeId
  finish : NodeId
  /-- The totals of the tour when it was last computed. -/
  totals : Totals := {}
  deriving DecidableEq

/-- All nodes of a route in order, depots included. -/
def Route.visits (r : Route) : List NodeId := r.start :: r.clients ++ [r.finish]

/-- The client at a position of a route. -/
def Route.client? (r : Route) (position : Nat) : Option NodeId :=
  if position = 0 then none else r.clients[position - 1]?

structure Layout where
  nodes : Pool Node
  routes : Pool Route

namespace Layout

def empty : Layout := ⟨∅, ∅⟩

def node? (l : Layout) (id : NodeId) : Option Node := l.nodes.get? id.key

def route? (l : Layout) (id : RouteId) : Option Route := l.routes.get? id.key

/-- Two different routes at once. -/
def routePair? (l : Layout) (a b : RouteId) : Option (Route × Route) := l.routes.pair? a.key b.key

/-- All routes with their names, in the order of their slots. -/
def routeList (l : Layout) : List (RouteId × Route) := l.routes.entries.map fun (key, r) => (⟨key⟩, r)

/-- All nodes with their names, in the order of their slots. -/
def nodeList (l : Layout) : List (NodeId × Node) := l.nodes.entries.map fun (key, n) => (⟨key⟩, n)

/-- The locations a route visits; a released node among its visits is passed over. -/
def locations (l : Layout) (r : Route) : List Nat :=
  r.visits.filterMap fun id => (l.node? id).map (·.location.toNat)

end Layout

/-- Computations that change a layout. What was changed before a fault stays changed. -/
abbrev LayoutM := EStateM Fault Layout

/-- The result of a computation that changes nothing. -/
def LayoutM.ofResult {α : Type} : Except Fault α → LayoutM α
  | .ok a => pure a
  | .error fault => throw fault

end Fleet
