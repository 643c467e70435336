import Fleet.Fault
import Fleet.Problem.Draft
import Fleet.Problem.Matrix
import Fleet.Quantity

/-! Problems: depots, clients, vehicles and the ways between them, checked once so that whoever holds a
    problem need not check again.

    A problem has a depot, a vehicle type and a profile; its matrices cover all locations and have no negative
    entry; its windows are open; its amounts are not negative; and a client names a group exactly if the group
    lists the client. -/

namespace Fleet

namespace Problem

/-- The parts of a problem with square matrices. -/
structure Parts where
  depots : Array Depot
  clients : Array Client
  vehicleTypes : Array VehicleType
  distances : Array Matrix
  durations : Array Matrix
  groups : Array Group
  deriving DecidableEq

namespace Parts

def numLocations (c : Parts) : Nat := c.depots.size + c.clients.size

def matrixFlaw? (c : Parts) (m : Matrix) : Option Flaw :=
  if m.size ≠ c.numLocations then some (.matrixShape m.size c.numLocations)
  else if m.hasNegative then some .negativeEntry
  else none

def depotFlaw? (depot : Depot × Nat) : Option Flaw :=
  if depot.1.window.isInverted then some (.depotWindow depot.2) else none

def membershipFlaw? (c : Parts) (client : Client × Nat) : Option Flaw :=
  match client.1.group with
  | none => none
  | some g =>
    match c.groups[g.toNat]? with
    | none => some (.unknownGroup client.2 g.toNat)
    | some group =>
      if group.clients.any fun l => l.toNat = c.depots.size + client.2 then none
      else some (.notMember client.2 g.toNat)

def clientFlaw? (c : Parts) (client : Client × Nat) : Option Flaw :=
  if client.1.window.isInverted then some (.clientWindow client.2)
  else if client.1.serviceDuration < 0 || client.1.prize < 0 || client.1.delivery < 0 then
    some (.clientAmounts client.2)
  else c.membershipFlaw? client

def vehicleFlaw? (c : Parts) (vehicle : VehicleType × Nat) : Option Flaw :=
  if c.depots.size ≤ vehicle.1.startDepot.toNat || c.depots.size ≤ vehicle.1.endDepot.toNat then
    some (.vehicleDepot vehicle.2)
  else if c.distances.size ≤ vehicle.1.profile.toNat then
    some (.vehicleProfile vehicle.2 vehicle.1.profile.toNat)
  else if vehicle.1.unitDistanceCost < 0 || vehicle.1.unitDurationCost < 0 || vehicle.1.capacity < 0 then
    some (.vehicleAmounts vehicle.2)
  else if vehicle.1.window.isInverted then some (.vehicleWindow vehicle.2)
  else none

def memberFlaw? (c : Parts) (group : Nat) (location : UInt64) : Option Flaw :=
  if location.toNat < c.depots.size then some (.groupLocation group location.toNat)
  else
    match c.clients[location.toNat - c.depots.size]? with
    | none => some (.groupLocation group location.toNat)
    | some client =>
      if client.group.map UInt64.toNat = some group then none
      else some (.groupStranger group location.toNat)

def groupFlaw? (c : Parts) (group : Group × Nat) : Option Flaw :=
  if group.1.clients.isEmpty then some (.emptyGroup group.2)
  else group.1.clients.findSome? (c.memberFlaw? group.2)

def countFlaw? (c : Parts) : Option Flaw :=
  if c.depots.isEmpty then some .noDepot
  else if c.distances.isEmpty then some .noProfile
  else if c.distances.size ≠ c.durations.size then some (.matrixCounts c.distances.size c.durations.size)
  else none

def fleetFlaw? (c : Parts) : Option Flaw :=
  if c.vehicleTypes.isEmpty then some .noVehicleType
  else c.vehicleTypes.toList.zipIdx.findSome? c.vehicleFlaw?

/-- The first flaw: of the counts, the matrices, the depots, the clients, the vehicle types, the groups. -/
def flaw? (c : Parts) : Option Flaw :=
  c.countFlaw?
    |>.or ((c.distances.toList ++ c.durations.toList).findSome? c.matrixFlaw?)
    |>.or (c.depots.toList.zipIdx.findSome? depotFlaw?)
    |>.or (c.clients.toList.zipIdx.findSome? c.clientFlaw?)
    |>.or c.fleetFlaw?
    |>.or (c.groups.toList.zipIdx.findSome? c.groupFlaw?)

end Parts

end Problem

structure Problem extends Problem.Parts where
  flawless : toParts.flaw? = none
  deriving DecidableEq

namespace Problem

/-- The square matrices of some rows, in order; none as soon as one is no square. -/
def Draft.matrices? (matrices : List (List (List Int64))) : Option (Array Matrix) :=
  (matrices.mapM Matrix.ofRows?).map List.toArray

/-- The problem that a draft describes, or its first flaw. -/
def Draft.accept (draft : Draft) : Except Flaw Problem :=
  match matrices? draft.distances, matrices? draft.durations with
  | some distances, some durations =>
    let parts : Parts :=
      ⟨draft.depots.toArray, draft.clients.toArray, draft.vehicleTypes.toArray, distances, durations,
        draft.groups.toArray⟩
    match h : parts.flaw? with
    | none => .ok ⟨parts, h⟩
    | some flaw => .error flaw
  | _, _ => .error .notSquare

def draft (p : Problem) : Draft where
  depots := p.depots.toList
  clients := p.clients.toList
  vehicleTypes := p.vehicleTypes.toList
  distances := p.distances.toList.map Matrix.toRows
  durations := p.durations.toList.map Matrix.toRows
  groups := p.groups.toList

def numDepots (p : Problem) : Nat := p.depots.size

def numClients (p : Problem) : Nat := p.clients.size

def numProfiles (p : Problem) : Nat := p.distances.size

def numVehicles (p : Problem) : Except Fault Nat :=
  p.vehicleTypes.foldlM (fun total v => Quantity.checkedCount (total + v.numAvailable.toNat)) 0

def isDepot (p : Problem) (location : Nat) : Bool := location < p.numDepots

def isClient (p : Problem) (location : Nat) : Bool := !p.isDepot location && location < p.numLocations

theorem lt_of_isClient {p : Problem} {location : Nat} (h : p.isClient location = true) : location < p.numLocations :=
  of_decide_eq_true (Bool.and_eq_true_iff.mp h).2

def client? (p : Problem) (location : Nat) : Option Client :=
  if location < p.numDepots then none else p.clients[location - p.numDepots]?

def window? (p : Problem) (location : Nat) : Option Window :=
  match p.client? location with
  | some client => some client.window
  | none => p.depots[location]?.map Depot.window

/-- The window of the client or depot at a location, which must be one. -/
def window (p : Problem) (location : Nat) : Except Fault Window :=
  match p.window? location with
  | some window => .ok window
  | none => .error .outOfRange

/-- How long a visit takes; at a depot it takes no time. -/
def serviceDuration (p : Problem) (location : Nat) : Int :=
  match p.client? location with
  | some client => client.serviceDuration.toInt
  | none => 0

def prize (p : Problem) (location : Nat) : Int :=
  match p.client? location with
  | some client => client.prize.toInt
  | none => 0

/-- How much a visit unloads. -/
def delivery (p : Problem) (location : Nat) : Int :=
  match p.client? location with
  | some client => client.delivery.toInt
  | none => 0

/-- A vehicle type, which must be one of the problem. -/
def vehicleType (p : Problem) (index : Nat) : Except Fault VehicleType :=
  match p.vehicleTypes[index]? with
  | some vehicleType => .ok vehicleType
  | none => .error .outOfRange

/-- The distances of a profile, which must be one of the problem. -/
def distanceMatrix (p : Problem) (profile : Nat) : Except Fault Matrix :=
  match p.distances[profile]? with
  | some matrix => .ok matrix
  | none => .error .outOfRange

/-- The durations of a profile, which must be one of the problem. -/
def durationMatrix (p : Problem) (profile : Nat) : Except Fault Matrix :=
  match p.durations[profile]? with
  | some matrix => .ok matrix
  | none => .error .outOfRange

end Problem

/-- The entry in row `i` and column `j`, which must be there. -/
def Matrix.entry (m : Matrix) (i j : Nat) : Except Fault Int :=
  match m.entry? i j with
  | some x => .ok x
  | none => .error .outOfRange

end Fleet
