import Fleet.Fault
import Fleet.Pool.Table

/-! Who owns each node. A node is entered when it is made and struck out when it is destroyed. -/

namespace Fleet

/-- The owner of every node that has one. -/
structure Ownership where
  owners : Table NodeId Owner

namespace Ownership

def empty : Ownership := ⟨∅⟩

def owner? (o : Ownership) (node : NodeId) : Option Owner := o.owners.find? node

def size (o : Ownership) : Nat := o.owners.size

/-- Enters a node without an owner as the host's. -/
def enter (o : Ownership) (node : NodeId) : Except Breach Ownership :=
  match o.owner? node with
  | none => .ok ⟨o.owners.insert node .standalone⟩
  | some owner => .error (.alreadyRegistered node owner)

/-- Hands a node over to a route that does not own it yet. -/
def assign (o : Ownership) (node : NodeId) (route : RouteId) : Except Breach Ownership :=
  match o.owner? node with
  | none => .error (.notRegistered node)
  | some owner =>
    if owner = .route route then .error (.alreadyInRoute node route)
    else .ok ⟨o.owners.insert node (.route route)⟩

/-- Strikes out a node and tells who owned it. -/
def strike (o : Ownership) (node : NodeId) : Except Breach (Owner × Ownership) :=
  match o.owner? node with
  | none => .error (.notRegistered node)
  | some owner => .ok (owner, ⟨o.owners.erase node⟩)

end Ownership

end Fleet
