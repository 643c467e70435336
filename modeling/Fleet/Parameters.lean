import Fleet.Fault
import Fleet.Json.Reader
import Fleet.Json.Record

/-! Parameters of the neighbourhoods and of the search: defaults, and overrides for them. -/

namespace Fleet

open Json

structure NeighbourhoodParameters where
  /-- The weight of the waiting that going from one client to another forces on the vehicle. -/
  waitWeight : Float := 0.2
  /-- The weight of the lateness it brings. -/
  warpWeight : Float := 1.0
  /-- How many neighbours a client keeps. -/
  numNeighbours : UInt64 := 60
  /-- Whether both directions of a pair of clients count as the nearer of the two. -/
  symmetricProximity : Bool := true
  /-- Whether a client becomes a neighbour of its neighbours. -/
  symmetricNeighbours : Bool := false
  deriving DecidableEq

structure SearchParameters where
  /-- Where the sequence of shuffles starts. -/
  seed : UInt64 := 0
  /-- The cost of each unit of load above the capacity. -/
  loadPenalty : Int64 := 20
  /-- The cost of each unit of lateness. -/
  warpPenalty : Int64 := 20
  /-- The search ends after this many passes at the latest. -/
  maxPasses : UInt64 := 100
  deriving DecidableEq

/-- Overrides: an object of parameters by name. -/
abbrev Overrides := List (String × Value)

namespace Overrides

def parse (text : String) : Except Refusal Overrides :=
  match Value.parse? text with
  | some (.object entries) => .ok entries
  | some value => .error (.notObject value)
  | none => .error .malformed

/-- Refuses the first name that is none of `names`. -/
def checkNames (names : List String) (overrides : Overrides) : Except Refusal Unit :=
  match overrides.find? fun entry => entry.1 ∉ names with
  | some (name, _) => .error (.parameters (.unknown name))
  | none => .ok ()

def fields (overrides : Overrides) : Fields := overrides.map fun (name, value) => (name, value.toForm)

end Overrides

/-- What was read, or the refusal of a text of another shape. -/
def orMalformed {α : Type} (read : Option α) : Except Refusal α :=
  match read with
  | some a => .ok a
  | none => .error .malformed

namespace NeighbourhoodParameters

def fieldNames : List String :=
  ["weight_wait_time", "weight_time_warp", "num_neighbours", "symmetric_proximity", "symmetric_neighbours"]

/-- Reads parameters all of which are given. -/
def ofForm? (form : Form) : Option NeighbourhoodParameters := do
  let fields ← form.fields? fieldNames
  return {
    waitWeight := ← fields.required? "weight_wait_time" Form.double?
    warpWeight := ← fields.required? "weight_time_warp" Form.double?
    numNeighbours := ← fields.required? "num_neighbours" Form.uint64?
    symmetricProximity := ← fields.required? "symmetric_proximity" Form.bool?
    symmetricNeighbours := ← fields.required? "symmetric_neighbours" Form.bool? }

/-- The defaults with some overrides. -/
def override? (overrides : Overrides) : Option NeighbourhoodParameters := do
  let base : NeighbourhoodParameters := {}
  let fields := overrides.fields
  return {
    waitWeight := ← fields.withDefault? "weight_wait_time" base.waitWeight Form.double?
    warpWeight := ← fields.withDefault? "weight_time_warp" base.warpWeight Form.double?
    numNeighbours := ← fields.withDefault? "num_neighbours" base.numNeighbours Form.uint64?
    symmetricProximity := ← fields.withDefault? "symmetric_proximity" base.symmetricProximity Form.bool?
    symmetricNeighbours := ← fields.withDefault? "symmetric_neighbours" base.symmetricNeighbours Form.bool? }

/-- Refuses weights below zero, and lists without neighbours. -/
def validate (params : NeighbourhoodParameters) : Except Refusal Unit :=
  if ¬ 0.0 ≤ params.waitWeight ∨ ¬ 0.0 ≤ params.warpWeight then
    .error (.parameters .negativeWeight)
  else if params.numNeighbours = 0 then .error (.parameters .noNeighbours)
  else .ok ()

/-- The defaults with some overrides: first their names are checked, then their kinds, then their values. -/
def ofOverrides (overrides : Overrides) : Except Refusal NeighbourhoodParameters := do
  overrides.checkNames fieldNames
  let params ← orMalformed (override? overrides)
  params.validate
  return params

end NeighbourhoodParameters

namespace SearchParameters

def fieldNames : List String := ["seed", "load_penalty", "tw_penalty", "max_passes"]

def ofForm? (form : Form) : Option SearchParameters := do
  let fields ← form.fields? fieldNames
  return {
    seed := ← fields.required? "seed" Form.uint64?
    loadPenalty := ← fields.required? "load_penalty" Form.int64?
    warpPenalty := ← fields.required? "tw_penalty" Form.int64?
    maxPasses := ← fields.required? "max_passes" Form.uint64? }

def override? (overrides : Overrides) : Option SearchParameters := do
  let base : SearchParameters := {}
  let fields := overrides.fields
  return {
    seed := ← fields.withDefault? "seed" base.seed Form.uint64?
    loadPenalty := ← fields.withDefault? "load_penalty" base.loadPenalty Form.int64?
    warpPenalty := ← fields.withDefault? "tw_penalty" base.warpPenalty Form.int64?
    maxPasses := ← fields.withDefault? "max_passes" base.maxPasses Form.uint64? }

/-- Refuses penalties below zero. -/
def validate (params : SearchParameters) : Except Refusal Unit :=
  if params.loadPenalty < 0 ∨ params.warpPenalty < 0 then .error (.parameters .negativePenalty) else .ok ()

def ofOverrides (overrides : Overrides) : Except Refusal SearchParameters := do
  overrides.checkNames fieldNames
  let params ← orMalformed (override? overrides)
  params.validate
  return params

end SearchParameters

end Fleet
