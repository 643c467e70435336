import Fleet.Json.Form

/-! Records read from JSON: each field by its name, or all of them as an array in their own order.

    Fields of other names are passed over without a look at what they hold. -/

namespace Fleet.Json

/-- The fields of a record that were given. -/
abbrev Fields := List (String × Form)

namespace Fields

/-- A field that must be given. -/
def required? {α : Type} (fields : Fields) (name : String) (read : Form → Option α) : Option α :=
  match fields.lookup name with
  | some form => read form
  | none => none

/-- A field that stands for `absent` when it is not given. -/
def withDefault? {α : Type} (fields : Fields) (name : String) (absent : α) (read : Form → Option α) :
    Option α :=
  match fields.lookup name with
  | some form => read form
  | none => some absent

/-- The entries with one of the names, none of which may occur twice. -/
def ofEntries? (names : List String) : List (Option String × Form) → Option Fields
  | [] => some []
  | (none, _) :: _ => none
  | (some key, form) :: entries => do
    let fields ← ofEntries? names entries
    if key ∉ names then return fields
    else if (fields.lookup key).isSome then none
    else return (key, form) :: fields

end Fields

namespace Form

/-- The fields of a record whose field names are `names`. -/
def fields? (names : List String) : Form → Option Fields
  | .object entries => Fields.ofEntries? names entries
  | .array items => if items.length ≤ names.length then some (names.zip items) else none
  | _ => none

def int64? : Form → Option Int64
  | .number (some (.whole n _)) => if n < 0x8000000000000000 then some (Int64.ofInt n) else none
  | _ => none

def uint64? : Form → Option UInt64
  | .number (some (.whole n _)) => if 0 ≤ n then some (UInt64.ofNat n.toNat) else none
  | _ => none

/-- The double nearest to a whole number. -/
def nearest (n : Int) : Float :=
  if 0 ≤ n then (UInt64.ofNat n.toNat).toFloat else (Int64.ofInt n).toFloat

def double? : Form → Option Float
  | .number (some (.double x _)) => some x
  | .number (some (.whole n _)) => some (nearest n)
  | _ => none

def bool? : Form → Option Bool
  | .bool b => some b
  | _ => none

/-- Something, or `null` for nothing. -/
def maybe? {α : Type} (read : Form → Option α) : Form → Option (Option α)
  | .null => some none
  | form => (read form).map some

def list? {α : Type} (read : Form → Option α) : Form → Option (List α)
  | .array items => items.mapM read
  | _ => none

end Form

end Fleet.Json
