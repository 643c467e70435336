import Fleet.Layout.Edit

/-! Moves between two routes.

    An exchange swaps some consecutive clients of one route with some, or none, of another; swapping tails lets
    each route go on as the other one did. A move is asked for by two nodes that stand in different routes. How
    it changes the cost can be computed without making it.

    The sizes of an exchange are words, and so is the place where the clients to exchange end. It may be out of
    range when the sizes are far larger than any route. -/

namespace Fleet

/-- A move between two routes. -/
inductive Move where
  /-- Exchanges `n` clients, the first of them `u`, with `m` clients, the first of them `v`. With no clients on
      the other side, the `n` clients go behind `v`. -/
  | exchange (n m : UInt64) (pos : 0 < n) (le : m ≤ n)
  /-- Lets the route of `u` go on with what follows `v`, and that of `v` with what follows `u`. -/
  | swapTails
  deriving DecidableEq

namespace Move

/-- The exchange of `n` clients with `m`. -/
def ofSizes (n m : UInt64) : Except Breach Move :=
  if h : 0 < n ∧ m ≤ n then .ok (.exchange n m h.1 h.2) else .error .exchangeSizes

def name : Move → String
  | .exchange 1 0 _ _ => "relocate"
  | .exchange 1 1 _ _ => "swap"
  | .exchange _ _ _ _ => "exchange"
  | .swapTails => "swap_tails"

/-- The moves that a search makes unless told otherwise, in the order in which it tries them. -/
def defaults : List Move :=
  [.exchange 1 0 (by decide) (by decide), .exchange 2 0 (by decide) (by decide),
    .exchange 1 1 (by decide) (by decide), .exchange 2 1 (by decide) (by decide),
    .exchange 2 2 (by decide) (by decide), .swapTails]

/-! ### Where a move applies -/

structure Site where
  route : RouteId
  position : Nat
  deriving DecidableEq

/-- The place of a node that stands in a route. -/
def site? (l : Layout) (node : NodeId) : Option Site := do
  let n ← l.node? node
  let route ← n.route
  return ⟨route, n.position⟩

/-- The last of `count` positions, the first of which is `first`. -/
def lastPosition (first count : Nat) : Except Fault Nat := do
  let stop ← Quantity.checkedCount (first + count)
  Quantity.less stop 1

/-- Whether a move fits two routes with so many clients, at positions `i` and `j`. -/
def fits (move : Move) (i clientsU j clientsV : Nat) : Except Fault Bool :=
  match move with
  | .exchange n m _ _ =>
    if i = 0 then return false
    else do
      let lastU ← lastPosition i n.toNat
      if clientsU < lastU then return false
      else if m.toNat = 0 then return j ≤ clientsV
      else if j = 0 then return false
      else do
        let lastV ← lastPosition j m.toNat
        return lastV ≤ clientsV
  | .swapTails => return i ≤ clientsU && j ≤ clientsV && !(i = clientsU && j = clientsV)

/-- The places of two nodes in different routes, and these routes. -/
def places? (l : Layout) (u v : NodeId) : Option ((Site × Route) × (Site × Route)) := do
  let siteU ← site? l u
  let siteV ← site? l v
  if siteU.route = siteV.route then none
  else do
    let routeU ← l.route? siteU.route
    let routeV ← l.route? siteV.route
    return ((siteU, routeU), (siteV, routeV))

/-- The places of two nodes, if the move applies to them. -/
def sites? (move : Move) (l : Layout) (u v : NodeId) : Except Fault (Option (Site × Site)) :=
  match places? l u v with
  | none => .ok none
  | some ((siteU, routeU), (siteV, routeV)) => do
    let fits ← move.fits siteU.position routeU.clients.length siteV.position routeV.clients.length
    return if fits then some (siteU, siteV) else none

/-! ### How a move changes the cost -/

/-- The part of a list from `start` up to `stop`, which must lie in it. -/
def slice {α : Type} (start stop : Nat) (as : List α) : Except Fault (List α) :=
  if start ≤ stop ∧ stop ≤ as.length then .ok ((as.drop start).take (stop - start)) else .error .outOfRange

/-- Where the clients of `u` go in the route of `v`. -/
def target (m j : Nat) : Nat := if m = 0 then j + 1 else j

/-- The locations of both routes after the move. -/
def newTours (move : Move) (us vs : List Nat) (i j : Nat) : Except Fault (List Nat × List Nat) :=
  match move with
  | .exchange n m _ _ => do
    let headU ← slice 0 i us
    let fromV ← slice j (j + m.toNat) vs
    let tailU ← slice (i + n.toNat) us.length us
    let headV ← slice 0 (target m.toNat j) vs
    let fromU ← slice i (i + n.toNat) us
    let tailV ← slice (target m.toNat j + m.toNat) vs.length vs
    return (headU ++ fromV ++ tailU, headV ++ fromU ++ tailV)
  | .swapTails => do
    let endU ← Quantity.less us.length 1
    let endV ← Quantity.less vs.length 1
    let headU ← slice 0 (i + 1) us
    let restV ← slice (j + 1) endV vs
    let lastU ← slice endU us.length us
    let headV ← slice 0 (j + 1) vs
    let restU ← slice (i + 1) endU us
    let lastV ← slice endV vs.length vs
    return (headU ++ restV ++ lastU, headV ++ restU ++ lastV)

/-- By how much a move changes the cost of its two routes; nothing if it does not apply. -/
def costChange (p : Problem) (penalties : Penalties) (l : Layout) (move : Move) (u v : NodeId) :
    Except Fault Int := do
  match ← move.sites? l u v with
  | none => return 0
  | some (siteU, siteV) =>
    match l.route? siteU.route, l.route? siteV.route with
    | some routeU, some routeV => do
      let (newU, newV) ← move.newTours (l.locations routeU) (l.locations routeV) siteU.position siteV.position
      let oldCostU ← penalties.cost p routeU.vehicleType.toNat routeU.totals
      let oldCostV ← penalties.cost p routeV.vehicleType.toNat routeV.totals
      let old ← Quantity.checked (oldCostU + oldCostV)
      let newCostU ← penalties.costOfTour p routeU.vehicleType.toNat newU
      let newCostV ← penalties.costOfTour p routeV.vehicleType.toNat newV
      let new ← Quantity.checked (newCostU + newCostV)
      Quantity.checked (new - old)
    | _, _ => return 0

/-! ### Making a move -/

/-- Changes the visits of two routes by a move. -/
def rearrange (move : Move) (siteU siteV : Site) (routeU routeV : Route) : LayoutM Unit :=
  match move with
  | .exchange n m _ _ => do
    let fromU := (routeU.visits.drop siteU.position).take n.toNat
    let fromV := (routeV.visits.drop siteV.position).take m.toNat
    Layout.removeMany siteU.route siteU.position n.toNat
    Layout.removeMany siteV.route siteV.position m.toNat
    Layout.insertMany siteV.route (target m.toNat siteV.position) fromU
    Layout.insertMany siteU.route siteU.position fromV
  | .swapTails => do
    let tailU := routeU.clients.drop siteU.position
    let tailV := routeV.clients.drop siteV.position
    Layout.removeMany siteU.route (siteU.position + 1) tailU.length
    Layout.removeMany siteV.route (siteV.position + 1) tailV.length
    Layout.appendMany siteU.route tailV
    Layout.appendMany siteV.route tailU

/-- Makes a move and computes the totals of both routes again; gives the routes of `u` and `v`. -/
def perform (p : Problem) (move : Move) (u v : NodeId) : LayoutM (RouteId × RouteId) := do
  let l ← get
  match ← LayoutM.ofResult (move.sites? l u v) with
  | none => throw (.refused (.inapplicable move.name u v))
  | some (siteU, siteV) =>
    match l.routePair? siteU.route siteV.route with
    | none => throw (.refused (.inapplicable move.name u v))
    | some (routeU, routeV) => do
      move.rearrange siteU siteV routeU routeV
      Layout.refresh p siteU.route
      Layout.refresh p siteV.route
      return (siteU.route, siteV.route)

end Move

end Fleet
