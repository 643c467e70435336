import Fleet.Json.Value

/-! JSON as it stands in a text, before anything is asked of its parts.

    A form keeps what the grammar lets pass and data cannot hold: numbers too large for a double, strings
    whose surrogates do not pair, repeated keys, nesting of any depth. A reader that does not look at a part
    does not trip over it. -/

namespace Fleet.Json

/-- A JSON text's structure. A number or a string is missing when it is spelled correctly but has no value. -/
inductive Form where
  | null
  | bool (b : Bool)
  | number (n : Option Number)
  | string (s : Option String)
  | array (items : List Form)
  | object (entries : List (Option String × Form))

namespace Form

/-- Data may nest arrays and objects this deep. -/
def maxDepth : Nat := 127

mutual

/-- The data of a form, with at most `depth` arrays and objects around each other. Of a repeated key the
    last value counts, in the place of the first. -/
def toValue? (depth : Nat) : Form → Option Value
  | .null => some .null
  | .bool b => some (.bool b)
  | .number n => n.map .number
  | .string s => s.map .string
  | .array items =>
    match depth with
    | 0 => none
    | depth + 1 => (itemsToValues? depth items).map .array
  | .object entries =>
    match depth with
    | 0 => none
    | depth + 1 => (entriesToValues? depth entries []).map .object

def itemsToValues? (depth : Nat) : List Form → Option (List Value)
  | [] => some []
  | item :: items => do
    let value ← item.toValue? depth
    let values ← itemsToValues? depth items
    return value :: values

/-- The data of every entry, added to the entries already there. -/
def entriesToValues? (depth : Nat) : List (Option String × Form) → List (String × Value) →
    Option (List (String × Value))
  | [], done => some done
  | (key, form) :: entries, done => do
    let key ← key
    let value ← form.toValue? depth
    entriesToValues? depth entries (Value.put key value done)

end

end Form

namespace Value

mutual

def toForm : Value → Form
  | .null => .null
  | .bool b => .bool b
  | .number n => .number (some n)
  | .string s => .string (some s)
  | .array items => .array (itemsToForms items)
  | .object entries => .object (entriesToForms entries)

def itemsToForms : List Value → List Form
  | [] => []
  | item :: items => item.toForm :: itemsToForms items

def entriesToForms : List (String × Value) → List (Option String × Form)
  | [] => []
  | (key, value) :: entries => (some key, value.toForm) :: entriesToForms entries

end

end Value

end Fleet.Json
