import Fleet.Neighbourhood.Proximity

/-! The neighbours of each client: the clients nearest to it, of two equally near ones the one with the lower
    number first. -/

namespace Fleet

namespace Neighbourhood

/-- A client with the rank of its score. -/
structure Candidate where
  rank : Nat
  location : Nat
  deriving DecidableEq

def Candidate.before (a b : Candidate) : Bool :=
  a.rank < b.rank || (a.rank = b.rank && a.location < b.location)

/-- Puts a candidate into its place among others. -/
def place (a : Candidate) : List Candidate → List Candidate
  | [] => [a]
  | b :: best => if a.before b then a :: b :: best else b :: place a best

/-- The `k` nearest candidates, nearest first. Never more than `k` are kept while going through them. -/
def nearest (k : Nat) (candidates : List Candidate) : List Candidate :=
  candidates.foldl (fun best a => (place a best).take k) []

def candidates (p : Problem) (row : Array Float) (i : Nat) : Except Fault (List Candidate) :=
  ((List.range' p.numDepots p.numClients).filter (· ≠ i)).mapM fun j =>
    match row[j]? with
    | some score => .ok ⟨Score.rank score, j⟩
    | none => .error .outOfRange

def listLength (p : Problem) (params : NeighbourhoodParameters) : Nat :=
  min params.numNeighbours.toNat (p.numClients - 1)

/-- The neighbours of location `i`; a depot has none. -/
def listOf (p : Problem) (k : Nat) (scores : Scores) (i : Nat) : Except Fault (List Nat) := do
  if p.isDepot i then return []
  let row ← scores.row i
  let candidates ← candidates p row i
  return (nearest k candidates).map Candidate.location

/-- Adds `j` to an ascending list unless it is in it. -/
def includeAscending (j : Nat) : List Nat → List Nat
  | [] => [j]
  | l :: list => if j < l then j :: l :: list else if j = l then l :: list else l :: includeAscending j list

/-- Makes each of two locations a neighbour of the other. -/
def link (i : Nat) (lists : Array (List Nat)) (j : Nat) : Array (List Nat) :=
  (lists.modify i (includeAscending j)).modify j (includeAscending i)

/-- Makes every location a neighbour of its neighbours; the lists come out in ascending order. -/
def symmetricLists (lists : Array (List Nat)) : Array (List Nat) :=
  lists.toList.zipIdx.foldl (fun linked (list, i) => list.foldl (link i) linked)
    (.replicate lists.size [])

def lists (p : Problem) (params : NeighbourhoodParameters) : Except Fault (Array (List Nat)) := do
  let scores ← scores p params
  let lists ← (List.range p.numLocations).mapM (listOf p (listLength p params) scores)
  return if params.symmetricNeighbours then symmetricLists lists.toArray else lists.toArray

end Neighbourhood

end Fleet
