/-! The parts of a problem as someone writes them down, before they are checked against each other.

    Locations are numbered with all depots first, then all clients. -/

namespace Fleet

/-- A time window, both ends included. A window without a due time never closes. -/
structure Window where
  early : Int64 := 0
  late : Int64 := Int64.maxValue
  deriving DecidableEq

/-- True when the window closes before it opens. -/
def Window.isInverted (w : Window) : Bool := w.late < w.early

structure Depot where
  x : Int64
  y : Int64
  window : Window := {}
  deriving DecidableEq

/-- A place to be visited. A client may be one of a group. -/
structure Client where
  x : Int64
  y : Int64
  delivery : Int64 := 0
  serviceDuration : Int64 := 0
  window : Window := {}
  prize : Int64 := 0
  required : Bool := true
  group : Option UInt64 := none
  deriving DecidableEq

structure VehicleType where
  numAvailable : UInt64 := 1
  capacity : Int64 := 0
  startDepot : UInt64 := 0
  endDepot : UInt64 := 0
  unitDistanceCost : Int64 := 1
  unitDurationCost : Int64 := 0
  profile : UInt64 := 0
  window : Window := {}
  deriving DecidableEq

/-- A set of clients, given by their locations. -/
structure Group where
  clients : List UInt64
  required : Bool := true
  mutuallyExclusive : Bool := true
  deriving DecidableEq

/-- The parts of a problem. There is one matrix of distances and one of durations for each profile. -/
structure Problem.Draft where
  depots : List Depot
  clients : List Client
  vehicleTypes : List VehicleType
  distances : List (List (List Int64))
  durations : List (List (List Int64))
  groups : List Group := []
  deriving DecidableEq

end Fleet
