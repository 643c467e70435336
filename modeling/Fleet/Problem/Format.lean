import Fleet.Json.Printer
import Fleet.Json.Reader
import Fleet.Json.Record
import Fleet.Problem.Basic

/-! Problems as JSON.

    A record may leave out the fields that have a default; when it is written, every field is. A text is
    refused for the flaws of its problem before it is for what stands behind the problem. -/

namespace Fleet

open Json

def Depot.fieldNames : List String := ["x", "y", "tw_early", "tw_late"]

def Depot.ofForm? (form : Form) : Option Depot := do
  let fields ← form.fields? fieldNames
  return {
    x := ← fields.required? "x" Form.int64?
    y := ← fields.required? "y" Form.int64?
    window := {
      early := ← fields.withDefault? "tw_early" 0 Form.int64?
      late := ← fields.withDefault? "tw_late" Int64.maxValue Form.int64? } }

def Depot.toValue (depot : Depot) : Value :=
  .object [
    ("x", .ofInt64 depot.x),
    ("y", .ofInt64 depot.y),
    ("tw_early", .ofInt64 depot.window.early),
    ("tw_late", .ofInt64 depot.window.late)]

def Client.fieldNames : List String :=
  ["x", "y", "delivery", "service_duration", "tw_early", "tw_late", "prize", "required", "group"]

def Client.ofForm? (form : Form) : Option Client := do
  let fields ← form.fields? fieldNames
  return {
    x := ← fields.required? "x" Form.int64?
    y := ← fields.required? "y" Form.int64?
    delivery := ← fields.withDefault? "delivery" 0 Form.int64?
    serviceDuration := ← fields.withDefault? "service_duration" 0 Form.int64?
    window := {
      early := ← fields.withDefault? "tw_early" 0 Form.int64?
      late := ← fields.withDefault? "tw_late" Int64.maxValue Form.int64? }
    prize := ← fields.withDefault? "prize" 0 Form.int64?
    required := ← fields.withDefault? "required" true Form.bool?
    group := ← fields.withDefault? "group" none (Form.maybe? Form.uint64?) }

def Client.toValue (client : Client) : Value :=
  .object [
    ("x", .ofInt64 client.x),
    ("y", .ofInt64 client.y),
    ("delivery", .ofInt64 client.delivery),
    ("service_duration", .ofInt64 client.serviceDuration),
    ("tw_early", .ofInt64 client.window.early),
    ("tw_late", .ofInt64 client.window.late),
    ("prize", .ofInt64 client.prize),
    ("required", .bool client.required),
    ("group", match client.group with
      | none => .null
      | some group => .ofUInt64 group)]

def VehicleType.fieldNames : List String :=
  ["num_available", "capacity", "start_depot", "end_depot", "unit_distance_cost", "unit_duration_cost", "profile",
    "tw_early", "tw_late"]

def VehicleType.ofForm? (form : Form) : Option VehicleType := do
  let fields ← form.fields? fieldNames
  return {
    numAvailable := ← fields.withDefault? "num_available" 1 Form.uint64?
    capacity := ← fields.withDefault? "capacity" 0 Form.int64?
    startDepot := ← fields.withDefault? "start_depot" 0 Form.uint64?
    endDepot := ← fields.withDefault? "end_depot" 0 Form.uint64?
    unitDistanceCost := ← fields.withDefault? "unit_distance_cost" 1 Form.int64?
    unitDurationCost := ← fields.withDefault? "unit_duration_cost" 0 Form.int64?
    profile := ← fields.withDefault? "profile" 0 Form.uint64?
    window := {
      early := ← fields.withDefault? "tw_early" 0 Form.int64?
      late := ← fields.withDefault? "tw_late" Int64.maxValue Form.int64? } }

def VehicleType.toValue (vehicleType : VehicleType) : Value :=
  .object [
    ("num_available", .ofUInt64 vehicleType.numAvailable),
    ("capacity", .ofInt64 vehicleType.capacity),
    ("start_depot", .ofUInt64 vehicleType.startDepot),
    ("end_depot", .ofUInt64 vehicleType.endDepot),
    ("unit_distance_cost", .ofInt64 vehicleType.unitDistanceCost),
    ("unit_duration_cost", .ofInt64 vehicleType.unitDurationCost),
    ("profile", .ofUInt64 vehicleType.profile),
    ("tw_early", .ofInt64 vehicleType.window.early),
    ("tw_late", .ofInt64 vehicleType.window.late)]

def Group.fieldNames : List String := ["clients", "required", "mutually_exclusive"]

def Group.ofForm? (form : Form) : Option Group := do
  let fields ← form.fields? fieldNames
  return {
    clients := ← fields.required? "clients" (Form.list? Form.uint64?)
    required := ← fields.withDefault? "required" true Form.bool?
    mutuallyExclusive := ← fields.withDefault? "mutually_exclusive" true Form.bool? }

def Group.toValue (group : Group) : Value :=
  .object [
    ("clients", .array (group.clients.map Value.ofUInt64)),
    ("required", .bool group.required),
    ("mutually_exclusive", .bool group.mutuallyExclusive)]

namespace Problem

/-- Reads the rows of the matrices of all profiles. -/
def rowsOfForm? : Form → Option (List (List (List Int64))) :=
  Form.list? (Form.list? (Form.list? Form.int64?))

/-- Writes the rows of the matrices of all profiles. -/
def rowsToValue (matrices : List (List (List Int64))) : Value :=
  .array (matrices.map fun rows => .array (rows.map fun row => .array (row.map Value.ofInt64)))

def Draft.fieldNames : List String :=
  ["depots", "clients", "vehicle_types", "distance_matrices", "duration_matrices", "groups"]

def Draft.ofForm? (form : Form) : Option Draft := do
  let fields ← form.fields? fieldNames
  return {
    depots := ← fields.required? "depots" (Form.list? Depot.ofForm?)
    clients := ← fields.required? "clients" (Form.list? Client.ofForm?)
    vehicleTypes := ← fields.required? "vehicle_types" (Form.list? VehicleType.ofForm?)
    distances := ← fields.required? "distance_matrices" rowsOfForm?
    durations := ← fields.required? "duration_matrices" rowsOfForm?
    groups := ← fields.withDefault? "groups" [] (Form.list? Group.ofForm?) }

def Draft.toValue (draft : Draft) : Value :=
  .object [
    ("depots", .array (draft.depots.map Depot.toValue)),
    ("clients", .array (draft.clients.map Client.toValue)),
    ("vehicle_types", .array (draft.vehicleTypes.map VehicleType.toValue)),
    ("distance_matrices", rowsToValue draft.distances),
    ("duration_matrices", rowsToValue draft.durations),
    ("groups", .array (draft.groups.map Group.toValue))]

def toValue (p : Problem) : Value := p.draft.toValue

def ofForm (form : Form) : Except Refusal Problem :=
  match Draft.ofForm? form with
  | none => .error .malformed
  | some draft => draft.accept.mapError Refusal.problem

def ofValue (value : Value) : Except Refusal Problem := ofForm value.toForm

def parse (text : String) : Except Refusal Problem :=
  match Form.first? text.toList with
  | none => .error .malformed
  | some (form, rest) => do
    let problem ← ofForm form
    if skipBlanks rest = [] then return problem else throw .malformed

def render (p : Problem) : String := p.toValue.canonical

end Problem

end Fleet
