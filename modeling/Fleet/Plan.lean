import Fleet.Fault
import Fleet.Json.Printer
import Fleet.Json.Reader
import Fleet.Json.Record
import Fleet.Problem.Basic

/-! Plans: which vehicle visits which clients in which order. -/

namespace Fleet

open Json

/-- The tour of one vehicle: the locations of its clients in order, without its depots. -/
structure Tour where
  vehicleType : UInt64 := 0
  visits : List UInt64
  deriving DecidableEq

structure Plan where
  routes : List Tour
  deriving DecidableEq

def Tour.fieldNames : List String := ["vehicle_type", "visits"]

def Tour.ofForm? (form : Form) : Option Tour := do
  let fields ← form.fields? fieldNames
  return {
    vehicleType := ← fields.withDefault? "vehicle_type" 0 Form.uint64?
    visits := ← fields.required? "visits" (Form.list? Form.uint64?) }

def Tour.toValue (tour : Tour) : Value :=
  .object [
    ("vehicle_type", .ofUInt64 tour.vehicleType),
    ("visits", .array (tour.visits.map Value.ofUInt64))]

namespace Plan

def fieldNames : List String := ["routes"]

def ofForm? (form : Form) : Option Plan := do
  let fields ← form.fields? fieldNames
  return { routes := ← fields.required? "routes" (Form.list? Tour.ofForm?) }

def toValue (plan : Plan) : Value :=
  .object [("routes", .array (plan.routes.map Tour.toValue))]

def ofForm (form : Form) : Except Refusal Plan :=
  match ofForm? form with
  | some plan => .ok plan
  | none => .error .malformed

def ofValue (value : Value) : Except Refusal Plan := ofForm value.toForm

def parse (text : String) : Except Refusal Plan :=
  match Form.parse? text with
  | some form => ofForm form
  | none => .error .malformed

def render (plan : Plan) : String := plan.toValue.canonical

/-! ### Checking a plan against its problem -/

/-- What the check has seen: how many tours each vehicle type has, and which locations are visited. The tables are as
    long as the problem says, so nothing is read or written that is not there. -/
structure Tally (p : Problem) where
  used : Vector Nat p.vehicleTypes.size
  visited : Vector Bool p.numLocations

def Tally.start (p : Problem) : Tally p where
  used := .replicate _ 0
  visited := .replicate _ false

/-- Counts a tour of a vehicle type, of which there must be enough. -/
def Tally.use (p : Problem) (route : Nat) (vehicleType : Nat) (tally : Tally p) : Except Flaw (Tally p) :=
  if h : vehicleType < p.vehicleTypes.size then
    let available := p.vehicleTypes[vehicleType].numAvailable.toNat
    let count := tally.used[vehicleType] + 1
    if available < count then .error (.unavailable vehicleType available)
    else .ok { tally with used := tally.used.set vehicleType count }
  else .error (.unknownVehicleType route vehicleType)

/-- Marks the location of a client, which must not be marked yet. -/
def Tally.visit (p : Problem) (route : Nat) (tally : Tally p) (location : Nat) : Except Flaw (Tally p) :=
  if h : p.isClient location = true then
    have := Problem.lt_of_isClient h
    if tally.visited[location] then .error (.visitedTwice location)
    else .ok { tally with visited := tally.visited.set location true }
  else .error (.notClient route location)

/-- Counts a tour and marks its visits in order. -/
def Tally.tour (p : Problem) (tally : Tally p) (tour : Tour × Nat) : Except Flaw (Tally p) := do
  let tally ← tally.use p tour.2 tour.1.vehicleType.toNat
  tour.1.visits.foldlM (fun tally location => tally.visit p tour.2 location.toNat) tally

/-- Accepts a plan whose tours have a known vehicle type of which there are enough, and visit clients only and
    none of them twice; otherwise gives the first flaw met, tour by tour. -/
def check (plan : Plan) (p : Problem) : Except Flaw Unit := do
  let _ ← plan.routes.zipIdx.foldlM (Tally.tour p) (Tally.start p)
  return ()

end Plan

end Fleet
