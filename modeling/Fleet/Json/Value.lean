/-! JSON data: a number is a whole number of 64 bits or a finite double, and an object keeps its keys in
    the order in which they were given. -/

namespace Fleet.Json

/-- A number of JSON data: a whole number that fits a signed or an unsigned 64-bit word, or a double.
    The two kinds never mix: the double 1.0 is not the whole number 1. -/
inductive Number where
  | whole (n : Int) (fits : -0x8000000000000000 ≤ n ∧ n < 0x10000000000000000)
  | double (x : Float) (finite : x.isFinite = true)
  deriving DecidableEq

/-- The whole number `n`, if it fits. -/
def Number.whole? (n : Int) : Option Number :=
  if fits : -0x8000000000000000 ≤ n ∧ n < 0x10000000000000000 then some (.whole n fits) else none

/-- The double `x`, if it is finite. -/
def Number.double? (x : Float) : Option Number :=
  if finite : x.isFinite = true then some (.double x finite) else none

inductive Value where
  | null
  | bool (b : Bool)
  | number (n : Number)
  | string (s : String)
  | array (items : List Value)
  | object (entries : List (String × Value))

namespace Value

def ofInt64 (n : Int64) : Value :=
  .number (.whole n.toInt ⟨n.le_toInt, by have := n.toInt_lt; omega⟩)

def ofUInt64 (n : UInt64) : Value :=
  .number (.whole n.toNat ⟨by omega, by have := n.toNat_lt; omega⟩)

/-- Binds `key` to `value`: a key that is there keeps its place, a new one goes to the end. -/
def put (key : String) (value : Value) : List (String × Value) → List (String × Value)
  | [] => [(key, value)]
  | (k, v) :: entries => if k = key then (k, value) :: entries else (k, v) :: put key value entries

mutual

/-- How many arrays and objects are nested in each other at the deepest place. -/
def depth : Value → Nat
  | .array items => depthOfItems items + 1
  | .object entries => depthOfEntries entries + 1
  | _ => 0

def depthOfItems : List Value → Nat
  | [] => 0
  | item :: items => max item.depth (depthOfItems items)

def depthOfEntries : List (String × Value) → Nat
  | [] => 0
  | (_, value) :: entries => max value.depth (depthOfEntries entries)

end

/-- The order of entries by their keys, code point by code point. -/
def keyLE (a b : String × Value) : Bool := a.1 ≤ b.1

mutual

/-- The same data with the keys of every object in ascending order, at every depth. -/
def sorted : Value → Value
  | .array items => .array (sortedItems items)
  | .object entries => .object ((sortedEntries entries).mergeSort keyLE)
  | value => value

def sortedItems : List Value → List Value
  | [] => []
  | item :: items => item.sorted :: sortedItems items

/-- Every entry with the keys inside its value in order; the entries themselves stay in place. -/
def sortedEntries : List (String × Value) → List (String × Value)
  | [] => []
  | (key, value) :: entries => (key, value.sorted) :: sortedEntries entries

end

end Value

end Fleet.Json
