import Fleet.Neighbourhood.Score
import Fleet.Parameters
import Fleet.Problem.Basic

/-! How near two clients are to each other.

    The way from one to the other costs what the cheapest vehicle takes for it, less the prize at its end, plus
    the waiting and the time warp that it brings even when everything else goes best. Two clients of a group
    that admits only one of them are as near as can be; depots, and a client itself, are never near. -/

namespace Fleet

namespace Neighbourhood

open Score

/-- What a vehicle charges for a way, and the profile it takes the way from. -/
structure Rates where
  distance : Int64
  duration : Int64
  profile : UInt64
  deriving DecidableEq

def rates (p : Problem) : List Rates :=
  (p.vehicleTypes.toList.map fun v => ⟨v.unitDistanceCost, v.unitDurationCost, v.profile⟩).eraseDups

/-- What vehicles of some rates charge for the way from `i` to `j`. -/
def charge (rates : Rates) (distances durations : Matrix) (i j : Nat) : Except Fault Float := do
  let distance ← distances.entry i j
  let duration ← durations.entry i j
  return ofQuantity rates.distance.toInt * ofQuantity distance + ofQuantity rates.duration.toInt * ofQuantity duration

/-- Lowers each score to what vehicles of some rates charge. -/
def lowerBy (p : Problem) (scores : Scores) (rates : Rates) : Except Fault Scores := do
  let distances ← p.distanceMatrix rates.profile.toNat
  let durations ← p.durationMatrix rates.profile.toNat
  Scores.tabulate p.numLocations fun i j => do
    return lower (← scores.entry i j) (← charge rates distances durations i j)

/-- What the cheapest vehicle charges for each way. -/
def charges (p : Problem) : Except Fault Scores := do
  let start ← Scores.tabulate p.numLocations fun _ _ => .ok never
  (rates p).foldlM (lowerBy p) start

def firstDurations (p : Problem) : Except Fault Scores := do
  let durations ← p.durationMatrix 0
  Scores.tabulate p.numLocations fun i j => do
    return ofQuantity (← durations.entry i j)

/-- Lowers each duration to that of a profile. -/
def shorten (p : Problem) (shortest : Scores) (profile : Nat) : Except Fault Scores := do
  let durations ← p.durationMatrix profile
  Scores.tabulate p.numLocations fun i j => do
    return minimum (← shortest.entry i j) (ofQuantity (← durations.entry i j))

def shortestDurations (p : Problem) : Except Fault Scores := do
  let first ← firstDurations p
  (List.range' 1 (p.numProfiles - 1)).foldlM (shorten p) first

/-- The least waiting on the way from `i` to `j`, which takes `duration`: the vehicle leaves `i` as late as it
    may. -/
def leastWait (p : Problem) (duration : Float) (i j : Nat) : Except Fault Float := do
  let start ← p.window i
  let target ← p.window j
  return atLeastZero
    (ofQuantity target.early.toInt - duration - ofQuantity (p.serviceDuration i) - ofQuantity start.late.toInt)

/-- The least time warp on the way from `i` to `j`: the vehicle leaves `i` as early as it may. -/
def leastWarp (p : Problem) (duration : Float) (i j : Nat) : Except Fault Float := do
  let start ← p.window i
  let target ← p.window j
  return atLeastZero
    (ofQuantity start.early.toInt + ofQuantity (p.serviceDuration i) + duration - ofQuantity target.late.toInt)

/-- Adds to the charge for each way its waiting and time warp, less the prize. -/
def addTimes (p : Problem) (params : NeighbourhoodParameters) (shortest charges : Scores) :
    Except Fault Scores :=
  Scores.tabulate p.numLocations fun i j => do
    let duration ← shortest.entry i j
    let wait ← leastWait p duration i j
    let warp ← leastWarp p duration i j
    return (← charges.entry i j) +
      (params.waitWeight * wait + params.warpWeight * warp - ofQuantity (p.prize j))

/-- Gives both directions of each pair the lower of their two scores. -/
def symmetrize (p : Problem) (scores : Scores) : Except Fault Scores :=
  Scores.tabulate p.numLocations fun i j => do
    let forth ← scores.entry (min i j) (max i j)
    let back ← scores.entry (max i j) (min i j)
    return minimum forth back

/-- Marks all pairs of clients of a group. -/
def markGroup (scores : Scores) (group : Group) : Except Fault Scores :=
  group.clients.foldlM (fun scores i =>
    group.clients.foldlM (fun scores j => scores.write i.toNat j.toNat exclusive) scores) scores

/-- Marks the pairs of clients of every group that admits only one of its clients. -/
def markGroups (p : Problem) (scores : Scores) : Except Fault Scores :=
  (p.groups.toList.filter Group.mutuallyExclusive).foldlM markGroup scores

/-- Takes out every location itself, and the depots. -/
def dropSelfAndDepots (p : Problem) (scores : Scores) : Except Fault Scores :=
  Scores.tabulate p.numLocations fun i j =>
    if i = j ∨ p.isDepot i ∨ p.isDepot j then .ok never else scores.entry i j

def scores (p : Problem) (params : NeighbourhoodParameters) : Except Fault Scores := do
  let charges ← charges p
  let shortest ← shortestDurations p
  let scores ← addTimes p params shortest charges
  let scores ← if params.symmetricProximity then symmetrize p scores else pure scores
  let scores ← markGroups p scores
  dropSelfAndDepots p scores

end Neighbourhood

end Fleet
