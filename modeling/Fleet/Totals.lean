import Fleet.Parameters
import Fleet.Stretch

/-! What the tour of a vehicle comes to, and what that costs. -/

namespace Fleet

structure Totals where
  distance : Int := 0
  duration : Int := 0
  timeWarp : Int := 0
  load : Int := 0
  /-- The load above the capacity of the vehicle. -/
  excessLoad : Int := 0
  deriving DecidableEq

namespace Totals

open Quantity

/-- The visit of a depot by a vehicle: both must be open. -/
def depotVisit (p : Problem) (vehicle : VehicleType) (location : Nat) : Except Fault Stretch := do
  let window ← p.window location
  return .visit location 0 (max window.early.toInt vehicle.window.early.toInt)
    (min window.late.toInt vehicle.window.late.toInt)

/-- What has come together up to some visit of a tour. -/
structure Along where
  distance : Int
  load : Int
  stretch : Stretch

/-- Goes on to the other visits of a tour, the last of which is a depot. -/
def follow (p : Problem) (vehicle : VehicleType) (distances durations : Matrix) :
    Along → List Nat → Except Fault Along
  | along, [] => .ok along
  | along, location :: locations => do
    let next ← if locations.isEmpty then depotVisit p vehicle location else Stretch.atLocation p location
    let way ← distances.entry along.stretch.last location
    let distance ← checked (along.distance + way)
    let load ← checked (along.load + p.delivery location)
    let stretch ← along.stretch.join durations next
    follow p vehicle distances durations ⟨distance, load, stretch⟩ locations

/-- The totals of a tour along the given locations, the first and the last of which are depots. -/
def ofTour (p : Problem) (vehicleType : Nat) (locations : List Nat) : Except Fault Totals :=
  match locations with
  | first :: second :: rest => do
    let vehicle ← p.vehicleType vehicleType
    let distances ← p.distanceMatrix vehicle.profile.toNat
    let durations ← p.durationMatrix vehicle.profile.toNat
    let start ← depotVisit p vehicle first
    let along ← follow p vehicle distances durations ⟨0, 0, start⟩ (second :: rest)
    let excess ← checked (along.load - vehicle.capacity.toInt)
    return ⟨along.distance, along.stretch.duration, along.stretch.timeWarp, along.load, max excess 0⟩
  | _ => .error .outOfRange

end Totals

/-- What a unit of excess load and a unit of time warp cost. -/
structure Penalties where
  load : Int
  timeWarp : Int
  deriving DecidableEq

namespace Penalties

open Quantity

/-- The cost of a tour with the given totals. -/
def cost (penalties : Penalties) (p : Problem) (vehicleType : Nat) (totals : Totals) : Except Fault Int := do
  let vehicle ← p.vehicleType vehicleType
  let distance ← checked (vehicle.unitDistanceCost.toInt * totals.distance)
  let duration ← checked (vehicle.unitDurationCost.toInt * totals.duration)
  let cost ← checked (distance + duration)
  let excess ← checked (penalties.load * totals.excessLoad)
  let cost ← checked (cost + excess)
  let warp ← checked (penalties.timeWarp * totals.timeWarp)
  checked (cost + warp)

/-- The cost of a tour along the given locations. -/
def costOfTour (penalties : Penalties) (p : Problem) (vehicleType : Nat) (locations : List Nat) :
    Except Fault Int := do
  let totals ← Totals.ofTour p vehicleType locations
  penalties.cost p vehicleType totals

end Penalties

def SearchParameters.penalties (params : SearchParameters) : Penalties :=
  ⟨params.loadPenalty.toInt, params.warpPenalty.toInt⟩

end Fleet
