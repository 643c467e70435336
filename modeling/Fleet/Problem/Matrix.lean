/-! Square matrices of distances or durations between locations. -/

namespace Fleet

/-- A square matrix, row by row. -/
structure Matrix where
  rows : Array (Array Int64)
  square : ∀ row ∈ rows, row.size = rows.size
  deriving DecidableEq

namespace Matrix

/-- The number of rows, and of columns. -/
def size (m : Matrix) : Nat := m.rows.size

/-- The matrix of the given rows; none unless they form a square. -/
def ofRows? (rows : List (List Int64)) : Option Matrix :=
  if h : ∀ row ∈ rows, row.length = rows.length then
    some ⟨(rows.map List.toArray).toArray, by
      intro row hrow
      obtain ⟨r, hr, rfl⟩ := List.mem_map.mp (Array.mem_def.mp hrow)
      simpa using h r hr⟩
  else none

def toRows (m : Matrix) : List (List Int64) := m.rows.toList.map Array.toList

/-- The entry in row `i` and column `j`. -/
def entry? (m : Matrix) (i j : Nat) : Option Int :=
  match m.rows[i]? with
  | some row => row[j]?.map Int64.toInt
  | none => none

def hasNegative (m : Matrix) : Bool := m.rows.any fun row => row.any fun x => x < 0

end Matrix

end Fleet
