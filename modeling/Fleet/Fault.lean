import Fleet.Identity
import Fleet.Json.Printer

/-! Everything that can go wrong, by cause, and the wording of each cause.

    A refusal is an answer: the caller asked for something that cannot be, and nothing has changed. A breach
    is a broken promise between the parts of the library. Overflow of a 64-bit quantity and an index without
    an element have no wording of their own. -/

namespace Fleet

/-- What is wrong with the data of a problem. Counts and places are those of the data. -/
inductive Problem.Flaw where
  | noDepot
  | noProfile
  | matrixCounts (distances durations : Nat)
  | notSquare
  | matrixShape (rows locations : Nat)
  | negativeEntry
  | depotWindow (depot : Nat)
  | clientWindow (client : Nat)
  | clientAmounts (client : Nat)
  | notMember (client group : Nat)
  | unknownGroup (client group : Nat)
  | noVehicleType
  | vehicleDepot (vehicleType : Nat)
  | vehicleProfile (vehicleType profile : Nat)
  | vehicleAmounts (vehicleType : Nat)
  | vehicleWindow (vehicleType : Nat)
  | emptyGroup (group : Nat)
  | groupLocation (group location : Nat)
  | groupStranger (group location : Nat)
  deriving DecidableEq

def Problem.Flaw.message : Problem.Flaw → String
  | .noDepot => "Expected at least one depot"
  | .noProfile => "Expected at least one routing profile"
  | .matrixCounts distances durations =>
    s!"Number of distance matrices ({distances}) does not match number of duration matrices ({durations})"
  | .notSquare => "Matrices must be square"
  | .matrixShape rows locations =>
    s!"Matrix shape ({rows}, {rows}) does not match number of locations ({locations})"
  | .negativeEntry => "Matrices must not contain negative entries"
  | .depotWindow depot => s!"Depot {depot}: tw_early must not exceed tw_late"
  | .clientWindow client => s!"Client {client}: tw_early must not exceed tw_late"
  | .clientAmounts client => s!"Client {client}: service duration, prize and delivery must be non-negative"
  | .notMember client group => s!"Client {client} is not a member of group {group}"
  | .unknownGroup client group => s!"Client {client}: unknown group {group}"
  | .noVehicleType => "Expected at least one vehicle type"
  | .vehicleDepot vehicleType => s!"Vehicle type {vehicleType}: depot index out of range"
  | .vehicleProfile vehicleType profile => s!"Vehicle type {vehicleType}: unknown profile {profile}"
  | .vehicleAmounts vehicleType => s!"Vehicle type {vehicleType}: costs and capacity must be non-negative"
  | .vehicleWindow vehicleType => s!"Vehicle type {vehicleType}: tw_early must not exceed tw_late"
  | .emptyGroup group => s!"Group {group} is empty"
  | .groupLocation group location => s!"Group {group}: location {location} is not a client"
  | .groupStranger group location =>
    s!"Group {group}: client at location {location} does not reference this group"

inductive Plan.Flaw where
  | unknownVehicleType (route vehicleType : Nat)
  | unavailable (vehicleType available : Nat)
  | notClient (route location : Nat)
  | visitedTwice (location : Nat)
  deriving DecidableEq

def Plan.Flaw.message : Plan.Flaw → String
  | .unknownVehicleType route vehicleType => s!"Route {route}: unknown vehicle type {vehicleType}"
  | .unavailable vehicleType available =>
    s!"Number of routes using vehicle type {vehicleType} exceeds its availability ({available})"
  | .notClient route location => s!"Route {route}: location {location} is not a client"
  | .visitedTwice location => s!"The same client ({location}) cannot be visited more than once"

inductive Parameters.Flaw where
  | unknown (name : String)
  | negativeWeight
  | noNeighbours
  | negativePenalty
  deriving DecidableEq

def Parameters.Flaw.message : Parameters.Flaw → String
  | .unknown name => s!"Unknown parameter '{name}'"
  | .negativeWeight => "Proximity weights must be non-negative"
  | .noNeighbours => "num_neighbours must be positive"
  | .negativePenalty => "Penalties must be non-negative"

/-- Why something asked for was not done. -/
inductive Refusal where
  /-- A text that is not JSON, or not JSON of the shape that was asked for. -/
  | malformed
  /-- Parameters given as something other than an object. -/
  | notObject (given : Json.Value)
  | unreadable (path reason : String)
  | unwritable (reason : String)
  | problem (flaw : Problem.Flaw)
  | plan (flaw : Plan.Flaw)
  | parameters (flaw : Parameters.Flaw)
  | routeReleased (route : RouteId)
  | nodeReleased (node : NodeId)
  | unknownVehicleType (vehicleType : Nat)
  | notClient (location : Nat)
  | depot (node : NodeId)
  | insertPosition (position clients : Nat)
  | removePosition (position clients : Nat)
  | visitPosition (position clients : Nat)
  | unreconcilable (a b : RouteId)
  | inapplicable (move : String) (u v : NodeId)
  | releasedVisits (route : RouteId)

/-- The wording of a refusal. Where in a malformed text the mistake is, it does not say. -/
def Refusal.message : Refusal → String
  | .malformed => "<parse>"
  | .notObject given => s!"Expected a json object, got {given.render}"
  | .unreadable path reason => s!"Failed to read file {path}: {reason}"
  | .unwritable reason => reason
  | .problem flaw => flaw.message
  | .plan flaw => flaw.message
  | .parameters flaw => flaw.message
  | .routeReleased route => s!"Route {route.text} has been released"
  | .nodeReleased node => s!"Node {node.text} has been released"
  | .unknownVehicleType vehicleType => s!"Unknown vehicle type {vehicleType}"
  | .notClient location => s!"Location {location} is not a client"
  | .depot node => s!"Node {node.text} is a depot and cannot be moved"
  | .insertPosition position clients =>
    s!"Insert position {position} out of range for route with {clients} clients"
  | .removePosition position clients =>
    s!"Remove position {position} out of range for route with {clients} clients"
  | .visitPosition position clients => s!"Index {position} out of range for route with {clients} clients"
  | .unreconcilable a b => s!"Cannot reconcile released routes {a.text}, {b.text}"
  | .inapplicable move u v => s!"{move} does not apply to nodes {u.text} and {v.text}"
  | .releasedVisits route => s!"Route {route.text} refers to released nodes"

/-- A broken promise: the books and the visits no longer belong together, a move was asked for that is none, or
    there is no slot left for something new. -/
inductive Breach where
  | alreadyRegistered (node : NodeId) (owner : Owner)
  | notRegistered (node : NodeId)
  | alreadyInRoute (node : NodeId) (route : RouteId)
  | releasedVisit (node : NodeId)
  | storeReleased (route : RouteId)
  | tooFewHandles (route : RouteId) (node : NodeId)
  | routeMissing (route : RouteId)
  | registeredElsewhere (node : NodeId) (route : RouteId) (owner : Owner)
  | unknownHandle (node : NodeId)
  | missingFromHost (node : NodeId)
  | hostRegistered (node : NodeId) (owner : Owner)
  | notInVisits (node : NodeId) (route : RouteId)
  | removedButRegistered (node : NodeId) (route : RouteId) (owner : Owner)
  | notInStore (node : NodeId) (route : RouteId)
  | exchangeSizes
  | full (slot : Nat)
  deriving DecidableEq

def Breach.message : Breach → String
  | .alreadyRegistered node owner => s!"Node {node.text} is already registered ({owner.text})"
  | .notRegistered node => s!"Node {node.text} is not registered"
  | .alreadyInRoute node route => s!"Node {node.text} is already owned by route {route.text}"
  | .releasedVisit node => s!"Route refers to released node {node.text}"
  | .storeReleased route => s!"Store of {route.text} has been released"
  | .tooFewHandles route node => s!"{route.text} holds fewer handles than {node.text} has"
  | .routeMissing route => s!"Route {route.text} missing from engine"
  | .registeredElsewhere node route owner =>
    s!"Node {node.text} in store of {route.text} is registered to {owner.text}"
  | .unknownHandle node => s!"Releasing unknown node handle {node.text}"
  | .missingFromHost node => s!"Standalone node {node.text} missing from host set"
  | .hostRegistered node owner => s!"Host-held node {node.text} is registered to {owner.text}"
  | .notInVisits node route =>
    s!"Node {node.text} is owned by {route.text} but not in its visits; reconcile was skipped"
  | .removedButRegistered node route owner =>
    s!"Node {node.text} removed from {route.text} but registered to {owner.text}; reconcile was skipped"
  | .notInStore node route => s!"Node {node.text} is not in the store of {route.text}"
  | .exchangeSizes => "Exchange needs N > 0 and N >= M"
  | .full slot => s!"Slab is full: slot {slot} does not fit a u32 index"

/-- Why a computation ended without a result. -/
inductive Fault where
  | refused (why : Refusal)
  /-- A result that does not fit 64 bits. -/
  | overflow
  | broken (what : Breach)
  /-- A place without an element. -/
  | outOfRange

end Fleet
