import Fleet.Pool.Key

/-! The names of nodes and routes. -/

namespace Fleet

/-- The name of a node. When the slot of a released node is used again, the new node has another name. -/
structure NodeId where
  key : Key
  deriving DecidableEq

structure RouteId where
  key : Key
  deriving DecidableEq

instance : Keyed NodeId where
  key := NodeId.key
  eq_of_key_eq {a b} h := by cases a; cases b; exact congrArg NodeId.mk h

instance : Keyed RouteId where
  key := RouteId.key
  eq_of_key_eq {a b} h := by cases a; cases b; exact congrArg RouteId.mk h

/-- A key behind the letter of its kind: the slot and, after a `v`, the generation. -/
def Key.text (kind : String) (key : Key) : String :=
  kind ++ key.index.repr ++ "v" ++ key.generation.toNat.repr

def NodeId.text (id : NodeId) : String := id.key.text "N"

def RouteId.text (id : RouteId) : String := id.key.text "R"

/-- Who owns a node: the host, outside of any route, or the store of a route. -/
inductive Owner where
  | standalone
  | route (id : RouteId)
  deriving DecidableEq

def Owner.text : Owner → String
  | .standalone => "Standalone"
  | .route id => "Route(" ++ id.text ++ ")"

end Fleet
