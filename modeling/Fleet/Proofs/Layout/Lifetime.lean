import Fleet.Proofs.Layout.Sited

/-! Nodes and routes that come and go.

    A new node stands in no route, and only a node that stands in none can go. A route comes and goes together
    with its two depots: in between, the seats of the depots and the visits of the route do not agree. Something new
    comes unless there is no slot left for it. -/

namespace Fleet
namespace Layout

variable {p : Problem} {l l' l'' : Layout} {id : RouteId} {r r' : Route} {m x : NodeId} {n : Node}
  {location : UInt64} {stale : List RouteId}

/-! ### Taking slots -/

/-- What keeps something new out of a layout: a quantity overflows as `cause` says, or all slots are taken. -/
inductive Stops (cause : Layout → Prop) (fault : Fault) (l : Layout) : Prop
  | overflow (h : fault = .overflow) (hcause : cause l)
  | nodes (h : l.nodes.FullAt fault)
  | routes (h : l.routes.FullAt fault)

theorem FullAt.isLimit {α : Type} {pool : Pool α} {fault : Fault} (h : pool.FullAt fault) : fault.IsLimit := by
  obtain ⟨-, rfl⟩ := h
  exact .full

theorem takeSlot_cases {α : Type} (pool : Pool α) (value : α) (l : Layout) :
    (pool.isFull = false ∧ takeSlot pool value l = .ok (pool.insert fun _ => value) l) ∨
      ∃ fault, pool.FullAt fault ∧ takeSlot pool value l = .error fault l := by
  unfold takeSlot
  cases hfull : pool.isFull with
  | false =>
    rw [Pool.insert?_of_not_full hfull]
    exact .inl ⟨rfl, rfl⟩
  | true =>
    rw [Pool.insert?_eq_none_iff.mpr hfull]
    exact .inr ⟨_, ⟨hfull, rfl⟩, rfl⟩

/-! ### A new node -/

/-- `l'` is `l` with a new node at a location. -/
structure Gains (l : Layout) (m : NodeId) (location : UInt64) (l' : Layout) : Prop where
  fresh : l.node? m = none
  nodes : l'.nodes.WellFormed
  routes : l'.routes = l.routes
  node : ∀ x, l'.node? x = if x = m then some { location } else l.node? x

theorem addNode_gains (h : l.nodes.WellFormed) (location : UInt64) :
    FaresUnless (fun fault l' => l'.nodes.FullAt fault) (fun m l' => Gains l m location l') (addNode location l) := by
  unfold addNode
  rw [get_bind_run]
  rcases takeSlot_cases l.nodes { location } l with ⟨hroom, hrun⟩ | ⟨fault, hfull, hrun⟩
  · rw [bind_ok hrun, Pool.insert_fst]
    refine .ok ⟨h.get?_nextKey, h.insert hroom _, rfl, fun x => ?_⟩
    show ((l.nodes.insert _).2).get? x.key = _
    rw [h.get?_insert]
    exact if_congr eq_iff_key_eq.symm rfl rfl
  · rw [bind_error hrun]
    exact .fault hfull

theorem Seated.unvisited_of_none (h : Seated l) (hm : l.node? m = none) : Unvisited l m := by
  intro id r hr hmem
  obtain ⟨n, hn, -⟩ := h.live hr hmem
  rw [hm] at hn
  cases hn

namespace Gains

theorem route? (h : Gains l m location l') (id : RouteId) : l'.route? id = l.route? id := by
  unfold Layout.route?
  rw [h.routes]

theorem node_of_ne (h : Gains l m location l') (hx : x ≠ m) : l'.node? x = l.node? x := by
  rw [h.node, if_neg hx]

theorem node_self (h : Gains l m location l') : l'.node? m = some { location } := by
  rw [h.node, if_pos rfl]

theorem unvisited (h : Gains l m location l') (hl : Seated l) : Unvisited l' m := by
  intro id r hr
  rw [h.route?] at hr
  exact hl.unvisited_of_none h.fresh id r hr

theorem seated (h : Gains l m location l') (hl : Seated l) : Seated l' where
  nodes := h.nodes
  routes := h.routes ▸ hl.routes
  seat {id r i x} hr hi := by
    have hx : x ≠ m := fun heq => h.unvisited hl id r hr (heq ▸ List.mem_of_getElem? hi)
    rw [h.route?] at hr
    rw [h.node_of_ne hx]
    exact hl.seat hr hi
  visit {x n id} hn hid := by
    rw [h.route?]
    rw [h.node] at hn
    split at hn
    · cases hn
      cases hid
    · exact hl.visit hn hid
  loose {x n} hn hnone := by
    rw [h.node] at hn
    split at hn
    · cases hn
      rfl
    · exact hl.loose hn hnone

theorem sameDepots (h : Gains l m location l') : SameDepots l l' := fun id x => by
  unfold DepotOf
  rw [h.route?]

/-- A new node leaves the locations of a route that does not visit it. -/
theorem locations (h : Gains l m location l') (hm : m ∉ r.visits) : l'.locations r = l.locations r :=
  locations_congr fun x hx => by rw [h.node_of_ne fun heq => hm (heq ▸ hx)]

theorem runsFor (h : Gains l m location l') (hm : m ∉ r.visits) {v : VehicleType} (hr : RunsFor l r v) :
    RunsFor l' r v := by
  unfold RunsFor
  rw [h.node_of_ne fun heq => hm (by simp [heq]), h.node_of_ne fun heq => hm (by simp [heq])]
  exact hr

theorem sited (h : Gains l m location l') (hl : Seated l) (hs : Sited p l)
    (hclient : p.isClient location.toNat = true) : Sited p l' where
  client {x n} hn hx := by
    rw [h.node] at hn
    split at hn
    · cases hn
      exact hclient
    · exact hs.client hn fun hd => hx (h.sameDepots.isDepot.mpr hd)
  vehicle {id r} hr := by
    have hm := h.unvisited hl id r hr
    rw [h.route?] at hr
    obtain ⟨v, hv, hruns⟩ := hs.vehicle hr
    exact ⟨v, hv, h.runsFor hm hruns⟩

theorem current (h : Gains l m location l') (hl : Seated l) (hc : CurrentBut p stale l) : CurrentBut p stale l' := by
  intro id r hr hid
  rw [h.locations (h.unvisited hl id r hr)]
  rw [h.route?] at hr
  exact hc id r hr hid

end Gains

/-! ### A node that goes -/

def withoutNode (l : Layout) (m : NodeId) : Layout := { l with nodes := l.nodes.erase m.key }

theorem node?_withoutNode : (l.withoutNode m).node? x = if x = m then none else l.node? x := by
  show (l.nodes.erase m.key).get? x.key = _
  rw [Pool.get?_erase]
  exact if_congr eq_iff_key_eq.symm rfl rfl

theorem node?_withoutNode_of_ne (hx : x ≠ m) : (l.withoutNode m).node? x = l.node? x := by
  rw [node?_withoutNode, if_neg hx]

theorem locations_withoutNode (hm : m ∉ r.visits) : (l.withoutNode m).locations r = l.locations r :=
  locations_congr fun x hx => by
    have hx : x ≠ m := fun heq => hm (heq ▸ hx)
    rw [node?_withoutNode_of_ne hx]

theorem sameDepots_withoutNode (l : Layout) (m : NodeId) : SameDepots l (l.withoutNode m) := fun _ _ => Iff.rfl

theorem Seated.withoutNode (h : Seated l) (hm : Unvisited l m) : Seated (l.withoutNode m) where
  nodes := h.nodes.erase m.key
  routes := h.routes
  seat {id r i x} hr hi := by
    have hx : x ≠ m := fun heq => hm id r hr (heq ▸ List.mem_of_getElem? hi)
    rw [node?_withoutNode_of_ne hx]
    exact h.seat hr hi
  visit {x n id} hn hid := by
    rw [node?_withoutNode] at hn
    split at hn
    · cases hn
    · exact h.visit hn hid
  loose {x n} hn hnone := by
    rw [node?_withoutNode] at hn
    split at hn
    · cases hn
    · exact h.loose hn hnone

theorem Sited.withoutNode (h : Sited p l) (hm : Unvisited l m) : Sited p (l.withoutNode m) where
  client {x n} hn hx := by
    rw [node?_withoutNode] at hn
    split at hn
    · cases hn
    · exact h.client hn hx
  vehicle {id r} hr := by
    have hm := hm id r hr
    obtain ⟨v, hv, hruns⟩ := h.vehicle hr
    refine ⟨v, hv, ?_⟩
    unfold RunsFor
    rw [node?_withoutNode_of_ne fun heq => hm (by simp [← heq]), node?_withoutNode_of_ne fun heq => hm (by simp [← heq])]
    exact hruns

theorem CurrentBut.withoutNode (h : CurrentBut p stale l) (hm : Unvisited l m) :
    CurrentBut p stale (l.withoutNode m) := by
  intro id r hr hid
  rw [locations_withoutNode (hm id r hr)]
  exact h id r hr hid

/-! ### A new route -/

/-- `l'` is `l` with a new route between two new depots at the locations `a` and `b`. -/
structure Opens (l : Layout) (id : RouteId) (r : Route) (a b : UInt64) (l' : Layout) : Prop where
  seated : Seated l'
  fresh : l.route? id = none
  clients : r.clients = []
  start : l.node? r.start = none
  finish : l.node? r.finish = none
  route : ∀ x, l'.route? x = if x = id then some r else l.route? x
  location : ∀ x, (l'.node? x).map (·.location) =
    if x = r.start then some a else if x = r.finish then some b else (l.node? x).map (·.location)

/-- A route put in between two nodes that stand nowhere: its visits take their seats. -/
theorem seated_of_newRoute (h : Seated l) (hfresh : l.route? id = none)
    (hroute : ∀ x, l'.route? x = if x = id then some r else l.route? x) (hroutes : l'.routes.WellFormed)
    (hnodes : l'.nodes.WellFormed) (hnodup : r.visits.Nodup) (hlive : ∀ m ∈ r.visits, (l.node? m).isSome)
    (hun : ∀ m ∈ r.visits, Unvisited l m)
    (hnode : ∀ m, l'.node? m = (l.node? m).map (seatIn id 0 (r.visits.drop 0) m)) : Seated l' where
  nodes := hnodes
  routes := hroutes
  seat {x s i m} hs hi := by
    rw [hroute] at hs
    rw [hnode]
    split at hs
    · rename_i hx
      cases hs
      obtain ⟨n, hn⟩ := Option.isSome_iff_exists.mp (hlive m (List.mem_of_getElem? hi))
      rw [hn, Option.map_some, seatIn_drop hnodup hi, if_pos (Nat.zero_le i)]
      exact ⟨_, rfl, by rw [hx]; rfl, rfl⟩
    · have hm : m ∉ r.visits.drop 0 := fun hm => hun m (List.mem_of_mem_drop hm) x s hs (List.mem_of_getElem? hi)
      obtain ⟨n, hn, h1, h2⟩ := h.seat hs hi
      exact ⟨n, by rw [hn, Option.map_some, seatIn, if_neg hm], h1, h2⟩
  visit {m n' y} hn' hy := by
    rw [hnode] at hn'
    obtain ⟨n, hn, rfl⟩ := Option.map_eq_some_iff.mp hn'
    by_cases hm : m ∈ r.visits
    · obtain ⟨i, hi⟩ := List.mem_iff_getElem?.mp hm
      rw [seatIn_drop hnodup hi, if_pos (Nat.zero_le i)] at hy ⊢
      cases hy
      exact ⟨r, by rw [hroute, if_pos rfl], hi⟩
    · rw [seatIn, if_neg (by rwa [List.drop_zero])] at hy ⊢
      obtain ⟨s, hs, hvisit⟩ := h.visit hn hy
      have hyid : y ≠ id := fun heq => by
        rw [heq, hfresh] at hs
        cases hs
      exact ⟨s, by rw [hroute, if_neg hyid, hs], hvisit⟩
  loose {m n'} hn' hnone := by
    rw [hnode] at hn'
    obtain ⟨n, hn, rfl⟩ := Option.map_eq_some_iff.mp hn'
    by_cases hm : m ∈ r.visits
    · obtain ⟨i, hi⟩ := List.mem_iff_getElem?.mp hm
      rw [seatIn_drop hnodup hi, if_pos (Nat.zero_le i)] at hnone
      cases hnone
    · rw [seatIn, if_neg (by rwa [List.drop_zero])] at hnone ⊢
      exact h.loose hn hnone

/-- A route without clients visits its two ends only. -/
theorem isSome_of_ends (hclients : r.clients = []) (hstart : (l.node? r.start).isSome)
    (hfinish : (l.node? r.finish).isSome) : ∀ m ∈ r.visits, (l.node? m).isSome := by
  intro m hm
  rw [Route.mem_visits, hclients] at hm
  rcases hm with rfl | hm | rfl
  · exact hstart
  · cases hm
  · exact hfinish

theorem locations_of_ends {a b : UInt64} (hclients : r.clients = []) (hstart : (l.node? r.start).map (·.location) = some a)
    (hfinish : (l.node? r.finish).map (·.location) = some b) : l.locations r = [a.toNat, b.toNat] := by
  obtain ⟨s, hs, rfl⟩ := Option.map_eq_some_iff.mp hstart
  obtain ⟨f, hf, rfl⟩ := Option.map_eq_some_iff.mp hfinish
  simp [locations, Route.visits, hclients, hs, hf]

/-- A new route seats its two depots, whatever else is in the layout. -/
theorem addRoute_alters (idx : Nat) (vehicleType : UInt64) {start finish : NodeId} (h : l.routes.WellFormed)
    (hstart : (l.node? start).isSome) (hfinish : (l.node? finish).isSome) (hne : start ≠ finish)
    (hr : r = { idx, vehicleType, start, clients := [], finish }) :
    FaresUnless (fun fault l' => l'.routes.FullAt fault) (fun id l' => l.route? id = none ∧ l'.routes.WellFormed ∧
        (∀ x, l'.route? x = if x = id then some r else l.route? x) ∧
        Alters (seatIn id 0 (r.visits.drop 0)) { l with routes := (l.routes.insert fun _ => r).2 } l')
      (addRoute idx vehicleType start finish l) := by
  let id : RouteId := ⟨l.routes.nextKey⟩
  let l₁ : Layout := { l with routes := (l.routes.insert fun _ => r).2 }
  have hroute : ∀ x, l₁.route? x = if x = id then some r else l.route? x := fun x => by
    show (l.routes.insert _).2.get? x.key = _
    rw [h.get?_insert]
    exact if_congr routeId_eq_iff.symm rfl rfl
  have hlive : ∀ m ∈ r.visits, (l₁.node? m).isSome := by
    subst hr
    exact isSome_of_ends rfl hstart hfinish
  have hnodup : r.visits.Nodup := by simp [Route.visits, hr, hne]
  obtain ⟨l', hrun, h'⟩ := seatFrom_run (k := 0) (show l₁.route? id = some r by rw [hroute, if_pos rfl]) hlive hnodup
  unfold addRoute
  rw [get_bind_run, ← hr]
  rcases takeSlot_cases l.routes r l with ⟨hroom, htake⟩ | ⟨fault, hfull, htake⟩
  · rw [bind_ok htake, modify_bind_run, Pool.insert_fst, bind_ok hrun]
    exact .ok ⟨h.get?_nextKey, h'.routes ▸ h.insert hroom _, fun x => (h'.route? x).trans (hroute x), h'⟩
  · rw [bind_error htake]
    exact .fault hfull

theorem Gains.ne {a b : UInt64} {start finish : NodeId} {l₁ l₂ : Layout} (h₁ : Gains l start a l₁)
    (h₂ : Gains l₁ finish b l₂) : start ≠ finish := fun heq => by
  have hfresh := h₂.fresh
  rw [← heq, h₁.node_self] at hfresh
  cases hfresh

theorem Gains.isSome_both {a b : UInt64} {start finish : NodeId} {l₁ l₂ : Layout} (h₁ : Gains l start a l₁)
    (h₂ : Gains l₁ finish b l₂) : (l₂.node? start).isSome ∧ (l₂.node? finish).isSome := by
  rw [h₂.node_of_ne (h₁.ne h₂), h₁.node_self, h₂.node_self]
  exact ⟨rfl, rfl⟩

/-- Where the nodes of a layout are once two new ones have come. -/
theorem Gains.location_both {a b : UInt64} {start finish : NodeId} {l₁ l₂ : Layout} (h₁ : Gains l start a l₁)
    (h₂ : Gains l₁ finish b l₂) (x : NodeId) : (l₂.node? x).map (·.location) =
      if x = start then some a else if x = finish then some b else (l.node? x).map (·.location) := by
  rw [h₂.node, h₁.node]
  by_cases hs : x = start
  · rw [if_pos hs, if_neg (fun hf => h₁.ne h₂ (hs.symm.trans hf)), if_pos hs]
    rfl
  · rw [if_neg hs, if_neg hs]
    split <;> rfl

/-- Seats do not move nodes. -/
theorem Alters.location_seatIn {position : Nat} {ms : List NodeId} (h : Alters (seatIn id position ms) l l') (x : NodeId) :
    (l'.node? x).map (·.location) = (l.node? x).map (·.location) := by
  rw [h.node, Option.map_map]
  refine congrArg (Option.map · (l.node? x)) (funext fun n => ?_)
  show (seatIn id position ms x n).location = n.location
  unfold seatIn
  split <;> rfl

theorem addRoute_opens (idx : Nat) (vehicleType : UInt64) {a b : UInt64} {start finish : NodeId} {l₁ l₂ : Layout}
    (h : Seated l) (h₁ : Gains l start a l₁) (h₂ : Gains l₁ finish b l₂) :
    FaresUnless (fun fault l' => l'.routes.FullAt fault)
      (fun id l' => Opens l id { idx, vehicleType, start, clients := [], finish } a b l')
      (addRoute idx vehicleType start finish l₂) := by
  have hl₁ := h₁.seated h
  have hl₂ := h₂.seated hl₁
  have hne := h₁.ne h₂
  obtain ⟨hstart, hfinish⟩ := h₁.isSome_both h₂
  refine (addRoute_alters idx vehicleType hl₂.routes hstart hfinish hne rfl).mono (fun _ _ hfull => hfull)
    fun id l' hopened => ?_
  obtain ⟨hfresh, hroutes, hroute, h'⟩ := hopened
  let r : Route := { idx, vehicleType, start, clients := [], finish }
  have hun : ∀ m ∈ r.visits, Unvisited l₂ m := fun m hm => by
    have hends : m = start ∨ m = finish := by simpa [r] using hm
    rcases hends with rfl | rfl
    · exact fun y s hs => h₁.unvisited h y s (h₂.route? y ▸ hs)
    · exact h₂.unvisited hl₁
  exact {
    seated := seated_of_newRoute hl₂ hfresh hroute hroutes (hl₂.nodes.of_outline h'.slots)
      (by simp [Route.visits, hne]) (isSome_of_ends rfl hstart hfinish) hun h'.node
    fresh := by rw [← h₁.route?, ← h₂.route?, hfresh]
    clients := rfl
    start := h₁.fresh
    finish := by rw [← h₁.node_of_ne hne.symm, h₂.fresh]
    route := fun x => by rw [hroute, h₂.route?, h₁.route?]
    location := fun x => (h'.location_seatIn x).trans (h₁.location_both h₂ x) }

namespace Opens
variable {a b : UInt64}

theorem route_self (h : Opens l id r a b l') : l'.route? id = some r := by
  rw [h.route, if_pos rfl]

theorem route_of_ne {y : RouteId} (h : Opens l id r a b l') (hy : y ≠ id) : l'.route? y = l.route? y := by
  rw [h.route, if_neg hy]

theorem start_ne_finish (h : Opens l id r a b l') : r.start ≠ r.finish :=
  h.seated.start_ne_finish h.route_self

theorem isSome (h : Opens l id r a b l') : (l'.node? x).isSome ↔ (l.node? x).isSome ∨ x = r.start ∨ x = r.finish := by
  rw [← Option.isSome_map (f := (·.location)), h.location]
  split
  · simp_all
  · split
    · simp_all
    · simp_all

/-- Putting the totals of the new route right leaves it the new route. -/
theorem totals (h : Opens l id r a b l') {totals : Totals} (h' : Reroutes l' id { r with totals } l'') :
    Opens l id { r with totals } a b l'' where
  seated := h'.seated
  fresh := h.fresh
  clients := h.clients
  start := h.start
  finish := h.finish
  route x := by
    rw [h'.route, h.route]
    split <;> rfl
  location x := by rw [h'.location, h.location]

/-- The depots are those there were and the two new ones. -/
theorem isDepot (h : Opens l id r a b l') : IsDepot l' x ↔ IsDepot l x ∨ x = r.start ∨ x = r.finish := by
  constructor
  · rintro ⟨y, s, hs, hx⟩
    rw [h.route] at hs
    split at hs
    · cases hs
      exact Or.inr hx
    · exact Or.inl ⟨y, s, hs, hx⟩
  · rintro (⟨y, s, hs, hx⟩ | hx)
    · have hy : y ≠ id := fun heq => by
        rw [heq, h.fresh] at hs
        cases hs
      exact ⟨y, s, by rw [h.route_of_ne hy, hs], hx⟩
    · exact ⟨id, r, h.route_self, hx⟩

theorem ne_depot (h : Opens l id r a b l') (hl : Seated l) {y : RouteId} {s : Route} (hs : l.route? y = some s)
    (hx : x ∈ s.visits) : x ≠ r.start ∧ x ≠ r.finish :=
  ⟨fun heq => hl.unvisited_of_none h.start y s hs (heq ▸ hx),
    fun heq => hl.unvisited_of_none h.finish y s hs (heq ▸ hx)⟩

theorem sited (h : Opens l id r a b l') (hl : Seated l) (hs : Sited p l) {v : VehicleType}
    (hv : p.vehicleTypes[r.vehicleType.toNat]? = some v) (ha : a = v.startDepot) (hb : b = v.endDepot) :
    Sited p l' where
  client {x n} hn hx := by
    rw [h.isDepot, not_or, not_or] at hx
    have hlocation := h.location x
    rw [hn, if_neg hx.2.1, if_neg hx.2.2] at hlocation
    obtain ⟨n', hn', heq⟩ := Option.map_eq_some_iff.mp hlocation.symm
    have heq : n'.location = n.location := heq
    rw [← heq]
    exact hs.client hn' hx.1
  vehicle {y s} hs' := by
    rw [h.route] at hs'
    split at hs'
    · cases hs'
      refine ⟨v, hv, ?_, ?_⟩
      · rw [h.location, if_pos rfl, ha]
      · rw [h.location, if_neg h.start_ne_finish.symm, if_pos rfl, hb]
    · obtain ⟨v', hv', hstart, hfinish⟩ := hs.vehicle hs'
      obtain ⟨h1, h2⟩ := h.ne_depot hl hs' (show s.start ∈ s.visits by simp)
      obtain ⟨h3, h4⟩ := h.ne_depot hl hs' (show s.finish ∈ s.visits by simp)
      refine ⟨v', hv', ?_, ?_⟩
      · rw [h.location, if_neg h1, if_neg h2, hstart]
      · rw [h.location, if_neg h3, if_neg h4, hfinish]

theorem current (h : Opens l id r a b l') (hl : Seated l) (hc : Current p l)
    (ht : Totals.ofTour p r.vehicleType.toNat (l'.locations r) = .ok r.totals) : Current p l' := by
  intro y s hs _
  rw [h.route] at hs
  split at hs
  · cases hs
    exact ht
  · have hlocations : l'.locations s = l.locations s := locations_congr fun x hx => by
      obtain ⟨h1, h2⟩ := h.ne_depot hl hs hx
      rw [h.location, if_neg h1, if_neg h2]
    rw [hlocations]
    exact hc.totals hs

end Opens

theorem openRoute_fares {idx : Nat} {vehicleType : UInt64} {v : VehicleType} (h : Seated l) (hs : Sited p l)
    (hc : Current p l) (hv : p.vehicleTypes[vehicleType.toNat]? = some v) :
    FaresUnless (Stops fun _ => True) (fun id l' => Sited p l' ∧ Current p l' ∧
        ∃ r, r.idx = idx ∧ r.vehicleType = vehicleType ∧ Opens l id r v.startDepot v.endDepot l')
      ((do
        let start ← addNode v.startDepot
        let finish ← addNode v.endDepot
        let id ← addRoute idx vehicleType start finish
        refresh p id
        return id) l) := by
  refine ((addNode_gains h.nodes _).mono (fun _ _ => .nodes) fun _ _ h₁ => h₁).bind fun start l₁ h₁ => ?_
  refine ((addNode_gains h₁.nodes _).mono (fun _ _ => .nodes) fun _ _ h₂ => h₂).bind fun finish l₂ h₂ => ?_
  refine ((addRoute_opens idx vehicleType h h₁ h₂).mono (fun _ _ => .routes) fun _ _ h₃ => h₃).bind fun id l₃ h₃ => ?_
  have hs₃ := h₃.sited h hs hv rfl rfl
  have hrefresh := refresh_fares h₃.seated h₃.route_self (hs₃.ofTour_computes h₃.seated h₃.route_self)
  refine ((FaresUnless.of_fares hrefresh).mono (fun _ _ hover => .overflow hover.1 hover.2) fun _ _ h₄ => h₄).bind
    fun _ l₄ h₄ => ?_
  obtain ⟨totals, htotals, h₄⟩ := h₄
  have hopen := h₃.totals h₄
  refine .ok ⟨hopen.sited h hs hv rfl rfl, hopen.current h hc ?_, _, rfl, rfl, hopen⟩
  exact (congrArg _ (h₄.locations _)).trans htotals

/-! ### A route that goes -/

def withoutRoute (l : Layout) (id : RouteId) (r : Route) : Layout :=
  (({ l with routes := l.routes.erase id.key } : Layout).withoutNode r.start).withoutNode r.finish

theorem route?_withoutRoute {y : RouteId} : (l.withoutRoute id r).route? y = if y = id then none else l.route? y := by
  show (l.routes.erase id.key).get? y.key = _
  rw [Pool.get?_erase]
  exact if_congr routeId_eq_iff.symm rfl rfl

theorem node?_withoutRoute :
    (l.withoutRoute id r).node? x = if x = r.start ∨ x = r.finish then none else l.node? x := by
  unfold withoutRoute
  rw [node?_withoutNode, node?_withoutNode]
  by_cases hf : x = r.finish
  · rw [if_pos hf, if_pos (Or.inr hf)]
  · rw [if_neg hf]
    by_cases hs : x = r.start
    · rw [if_pos hs, if_pos (Or.inl hs)]
    · rw [if_neg hs, if_neg (by simp [hs, hf])]
      rfl

theorem node?_withoutRoute_of_ne (hs : x ≠ r.start) (hf : x ≠ r.finish) :
    (l.withoutRoute id r).node? x = l.node? x := by
  rw [node?_withoutRoute, if_neg (by simp [hs, hf])]

section WithoutRoute
variable (h : Seated l) (hr : l.route? id = some r)

include h hr in
/-- Other routes do not visit the depots of the route that goes. -/
theorem ne_depot_of_other {y : RouteId} {s : Route} (hy : y ≠ id) (hs : l.route? y = some s) (hx : x ∈ s.visits) :
    x ≠ r.start ∧ x ≠ r.finish :=
  ⟨fun heq => hy (h.route_unique hr hs (Route.mem_visits.mpr (Or.inl heq)) hx),
    fun heq => hy (h.route_unique hr hs (Route.mem_visits.mpr (Or.inr (Or.inr heq))) hx)⟩

include h hr in
theorem Seated.withoutRoute (hempty : r.clients = []) : Seated (l.withoutRoute id r) where
  nodes := (h.nodes.erase _).erase _
  routes := h.routes.erase _
  seat {y s i x} hs hi := by
    rw [route?_withoutRoute] at hs
    split at hs
    · cases hs
    · rename_i hy
      obtain ⟨h1, h2⟩ := ne_depot_of_other h hr hy hs (List.mem_of_getElem? hi)
      rw [node?_withoutRoute_of_ne h1 h2]
      exact h.seat hs hi
  visit {x n y} hn hy := by
    rw [node?_withoutRoute] at hn
    split at hn
    · cases hn
    · rename_i hx
      obtain ⟨s, hs, hvisit⟩ := h.visit hn hy
      have hyid : y ≠ id := fun heq => by
        rw [heq, hr] at hs
        cases hs
        have hmem := Route.mem_visits.mp (List.mem_of_getElem? hvisit)
        rw [hempty] at hmem
        simp_all
      exact ⟨s, by rw [route?_withoutRoute, if_neg hyid, hs], hvisit⟩
  loose {x n} hn hnone := by
    rw [node?_withoutRoute] at hn
    split at hn
    · cases hn
    · exact h.loose hn hnone

include h hr in
theorem isDepot_withoutRoute : IsDepot (l.withoutRoute id r) x ↔ IsDepot l x ∧ x ≠ r.start ∧ x ≠ r.finish := by
  constructor
  · rintro ⟨y, s, hs, hx⟩
    rw [route?_withoutRoute] at hs
    split at hs
    · cases hs
    · rename_i hy
      refine ⟨⟨y, s, hs, hx⟩, ne_depot_of_other h hr hy hs ?_⟩
      rcases hx with rfl | rfl <;> simp
  · rintro ⟨⟨y, s, hs, hx⟩, hstart, hfinish⟩
    have hy : y ≠ id := fun heq => by
      rw [heq, hr] at hs
      cases hs
      exact hx.elim hstart hfinish
    exact ⟨y, s, by rw [route?_withoutRoute, if_neg hy, hs], hx⟩

include h hr in
theorem Sited.withoutRoute (hl : Sited p l) : Sited p (l.withoutRoute id r) where
  client {x n} hn hx := by
    rw [node?_withoutRoute] at hn
    split at hn
    · cases hn
    · rename_i hne
      rw [not_or] at hne
      exact hl.client hn fun hd => hx ((isDepot_withoutRoute h hr).mpr ⟨hd, hne⟩)
  vehicle {y s} hs := by
    rw [route?_withoutRoute] at hs
    split at hs
    · cases hs
    · rename_i hy
      obtain ⟨v, hv, hstart, hfinish⟩ := hl.vehicle hs
      obtain ⟨h1, h2⟩ := ne_depot_of_other h hr hy hs (show s.start ∈ s.visits by simp)
      obtain ⟨h3, h4⟩ := ne_depot_of_other h hr hy hs (show s.finish ∈ s.visits by simp)
      refine ⟨v, hv, ?_, ?_⟩
      · rw [node?_withoutRoute_of_ne h1 h2, hstart]
      · rw [node?_withoutRoute_of_ne h3 h4, hfinish]

include h hr in
theorem CurrentBut.withoutRoute (hc : CurrentBut p (id :: stale) l) : CurrentBut p stale (l.withoutRoute id r) := by
  intro y s hs hy
  rw [route?_withoutRoute] at hs
  split at hs
  · cases hs
  · rename_i hyid
    have hlocations : (l.withoutRoute id r).locations s = l.locations s := locations_congr fun x hx => by
      obtain ⟨h1, h2⟩ := ne_depot_of_other h hr hyid hs hx
      rw [node?_withoutRoute_of_ne h1 h2]
    rw [hlocations]
    exact hc y s hs (by simp [hyid, hy])

end WithoutRoute

end Layout
end Fleet
