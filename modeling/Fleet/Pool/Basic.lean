import Fleet.Pool.Key

/-! A store of values in numbered slots that are used again.

    A value is reached by the key of its slot. When a value is taken out its slot's generation goes up, so
    that a key of an earlier value never reaches a later one. Vacated slots are used again, the one vacated
    last first, before a new slot is made. A pool whose slots are all taken is full once the place of a new slot
    would not fit a key any more. -/

namespace Fleet

/-- A slot with its present generation. -/
structure Slot (α : Type) where
  generation : UInt32
  value : Option α

structure Pool (α : Type) where
  slots : Array (Slot α)
  /-- The vacated slots, the one vacated last first. -/
  free : List Nat
  size : Nat

namespace Pool

variable {α : Type}

def empty : Pool α := ⟨#[], [], 0⟩

instance : EmptyCollection (Pool α) := ⟨empty⟩

/-- The value that `key` reaches. -/
def get? (s : Pool α) (key : Key) : Option α :=
  match s.slots[key.index]? with
  | some slot => if slot.generation = key.generation then slot.value else none
  | none => none

def contains (s : Pool α) (key : Key) : Bool := (s.get? key).isSome

/-- The key that the next value will get. -/
def nextKey (s : Pool α) : Key :=
  match s.free with
  | [] => ⟨s.slots.size, 0⟩
  | index :: _ => ⟨index, (s.slots[index]?.map (·.generation)).getD 0⟩

/-- The places that a key can name: those that fit 32 bits. -/
def capacity : Nat := 0x100000000

/-- True when all slots are taken and there may be no more of them. -/
def isFull (s : Pool α) : Bool := s.free.isEmpty && capacity ≤ s.slots.size

/-- Puts in the value that `make` builds for its key, into a pool that is not full. -/
def insert (s : Pool α) (make : Key → α) : Key × Pool α :=
  let key := s.nextKey
  match s.free with
  | [] => (key, { s with slots := s.slots.push ⟨0, some (make key)⟩, size := s.size + 1 })
  | index :: free =>
    (key, ⟨s.slots.setIfInBounds index ⟨key.generation, some (make key)⟩, free, s.size + 1⟩)

/-- Puts in the value that `make` builds for its key; none if the pool is full. -/
def insert? (s : Pool α) (make : Key → α) : Option (Key × Pool α) :=
  if s.isFull then none else some (s.insert make)

/-- Takes out the value that `key` reaches, and gives it. -/
def remove (s : Pool α) (key : Key) : Option α × Pool α :=
  match s.get? key with
  | none => (none, s)
  | some value =>
    (some value,
      ⟨s.slots.setIfInBounds key.index ⟨key.generation + 1, none⟩, key.index :: s.free, s.size - 1⟩)

def erase (s : Pool α) (key : Key) : Pool α := (s.remove key).2

/-- Puts `value` in place of the value that `key` reaches; nothing happens if there is none. -/
def set (s : Pool α) (key : Key) (value : α) : Pool α :=
  if s.contains key then { s with slots := s.slots.setIfInBounds key.index ⟨key.generation, some value⟩ } else s

/-- Changes the value that `key` reaches, if there is one. -/
def modify (s : Pool α) (key : Key) (f : α → α) : Pool α :=
  match s.get? key with
  | some value => { s with slots := s.slots.setIfInBounds key.index ⟨key.generation, some (f value)⟩ }
  | none => s

/-- The values at two places, the first of which is before the second. The slots are split in front of the second place,
    which is then the first one of the right part. -/
def valuesAt? (s : Pool α) (lo hi : Nat) : Option (α × α) := do
  let left := s.slots.extract 0 hi
  let right := s.slots.extract hi s.slots.size
  let first ← left[lo]?.bind Slot.value
  let second ← right[0]?.bind Slot.value
  return (first, second)

/-- Writes values at two such places. -/
def writeAt (s : Pool α) (lo hi : Nat) (first second : α) : Pool α :=
  let left := s.slots.extract 0 hi
  let right := s.slots.extract hi s.slots.size
  { s with
    slots := (left.modify lo fun slot => { slot with value := some first }) ++
      right.modify 0 fun slot => { slot with value := some second } }

/-- The values of two keys of different slots. Whichever slot is the first one, the value of `a` is given first. -/
def pair? (s : Pool α) (a b : Key) : Option (α × α) :=
  if a.index = b.index ∨ ¬s.contains a ∨ ¬s.contains b then none
  else if a.index < b.index then s.valuesAt? a.index b.index
  else (s.valuesAt? b.index a.index).map Prod.swap

/-- Replaces the values of two keys of different slots at once; nothing happens unless both reach one. -/
def setPair (s : Pool α) (a b : Key) (values : α × α) : Pool α :=
  match s.pair? a b with
  | none => s
  | some _ =>
    if a.index < b.index then s.writeAt a.index b.index values.1 values.2
    else s.writeAt b.index a.index values.2 values.1

/-- Every key that reaches a value, with that value, by ascending place, from `index` on. -/
def entriesFrom (index : Nat) : List (Slot α) → List (Key × α)
  | [] => []
  | slot :: slots =>
    match slot.value with
    | some value => (⟨index, slot.generation⟩, value) :: entriesFrom (index + 1) slots
    | none => entriesFrom (index + 1) slots

/-- Every key that reaches a value, with that value, by ascending place. -/
def entries (s : Pool α) : List (Key × α) := entriesFrom 0 s.slots.toList

end Pool

end Fleet
