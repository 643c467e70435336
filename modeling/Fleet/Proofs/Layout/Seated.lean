import Fleet.Layout.Edit
import Fleet.Proofs.Outcome
import Fleet.Proofs.Pool

/-! Visits and seats agree.

    A layout says twice where a node stands: the route lists it among its visits, and the node knows its
    route and its position there. In a seated layout both say the same of every node. Since a node knows one
    position only, no node stands twice in a route or in two routes.

    A change of routes that keeps the nodes at their locations (`Reseats`) can be followed by another one; what
    such a change does to a single route is said by `Reroutes`. -/

namespace Fleet

variable {l l' l'' : Layout} {id x : RouteId} {r r' : Route} {m : NodeId} {n : Node}

/-! ### Visits -/

theorem Route.visits_eq (r : Route) : r.visits = r.start :: (r.clients ++ [r.finish]) := rfl

@[simp] theorem Route.length_visits (r : Route) : r.visits.length = r.clients.length + 2 := by
  simp [Route.visits]

@[simp] theorem Route.mem_visits {r : Route} : m ∈ r.visits ↔ m = r.start ∨ m ∈ r.clients ∨ m = r.finish := by
  simp [Route.visits]

/-- The clients are visited one after the other, from position 1 on. -/
theorem Route.visits_succ {r : Route} {i : Nat} (h : i < r.clients.length) : r.visits[i + 1]? = r.clients[i]? := by
  rw [Route.visits_eq, List.getElem?_cons_succ, List.getElem?_append_left h]

theorem Route.mem_visits_of_client (hm : m ∈ r.clients) : m ∈ r.visits := mem_visits.mpr (Or.inr (Or.inl hm))

theorem Route.client?_eq_some_iff {i : Nat} : r.client? i = some m ↔ ∃ j, i = j + 1 ∧ r.clients[j]? = some m := by
  unfold Route.client?
  cases i with
  | zero => simp
  | succ j => simp

namespace Layout

/-! ### Names -/

theorem eq_iff_key_eq {a b : NodeId} : a = b ↔ a.key = b.key := by
  cases a
  cases b
  simp

theorem routeId_eq_iff {a b : RouteId} : a = b ↔ a.key = b.key := by
  cases a
  cases b
  simp

/-! ### Seated layouts -/

/-- Visits and seats agree. -/
structure Seated (l : Layout) : Prop where
  nodes : l.nodes.WellFormed
  routes : l.routes.WellFormed
  seat : ∀ {id r i m}, l.route? id = some r → r.visits[i]? = some m →
    ∃ n, l.node? m = some n ∧ n.route = some id ∧ n.position = i
  visit : ∀ {m n id}, l.node? m = some n → n.route = some id →
    ∃ r, l.route? id = some r ∧ r.visits[n.position]? = some m
  loose : ∀ {m n}, l.node? m = some n → n.route = none → n.position = 0

/-- No route visits the node. -/
def Unvisited (l : Layout) (m : NodeId) : Prop := ∀ id r, l.route? id = some r → m ∉ r.visits

namespace Seated

theorem live (h : Seated l) (hr : l.route? id = some r) (hm : m ∈ r.visits) :
    ∃ n, l.node? m = some n ∧ n.route = some id := by
  obtain ⟨i, hi⟩ := List.mem_iff_getElem?.mp hm
  obtain ⟨n, hn, hroute, -⟩ := h.seat hr hi
  exact ⟨n, hn, hroute⟩

theorem nodup_visits (h : Seated l) (hr : l.route? id = some r) : r.visits.Nodup := by
  rw [List.nodup_iff_getElem?_ne_getElem?]
  intro i j hij hj heq
  have hm := List.getElem?_eq_getElem hj
  obtain ⟨n, hn, -, hi'⟩ := h.seat hr (heq.trans hm)
  obtain ⟨n', hn', -, hj'⟩ := h.seat hr hm
  rw [hn] at hn'
  cases hn'
  omega

/-- A route visits no more nodes than there are slots. -/
theorem length_visits_le (h : Seated l) (hr : l.route? id = some r) : r.visits.length ≤ 2 ^ 32 := by
  have hnode : ∀ m ∈ r.visits, ∃ n, l.nodes.get? m.key = some n := fun m hm => by
    obtain ⟨n, hn, -⟩ := h.live hr hm
    exact ⟨n, hn⟩
  have hnodup : (r.visits.map (·.key.index)).Nodup := by
    refine List.Nodup.map_on (fun x hx y hy hindex => ?_) (h.nodup_visits hr)
    obtain ⟨n, hn⟩ := hnode x hx
    obtain ⟨n', hn'⟩ := hnode y hy
    exact eq_iff_key_eq.mpr (Pool.eq_of_index_eq hn hn' hindex)
  have hslots : r.visits.map (·.key.index) ⊆ List.range l.nodes.slots.size := by
    intro i hi
    obtain ⟨x, hx, rfl⟩ := List.mem_map.mp hi
    obtain ⟨n, hn⟩ := hnode x hx
    exact List.mem_range.mpr (Pool.index_lt_of_get? hn)
  have hlength := (hnodup.subperm hslots).length_le
  rw [List.length_map, List.length_range] at hlength
  exact hlength.trans h.nodes.size_slots_le

/-- No node stands in two routes. -/
theorem route_unique (h : Seated l) (hr : l.route? id = some r) (hr' : l.route? x = some r') (hm : m ∈ r.visits)
    (hm' : m ∈ r'.visits) : x = id := by
  obtain ⟨n, hn, hid⟩ := h.live hr hm
  obtain ⟨n', hn', hx⟩ := h.live hr' hm'
  rw [hn] at hn'
  cases hn'
  rw [hid] at hx
  exact (Option.some.inj hx).symm

theorem client_unique (h : Seated l) (hr : l.route? id = some r) (hr' : l.route? x = some r') (hm : m ∈ r.clients)
    (hm' : m ∈ r'.clients) : x = id :=
  h.route_unique hr hr' (Route.mem_visits_of_client hm) (Route.mem_visits_of_client hm')

theorem mem_of_route (h : Seated l) (hn : l.node? m = some n) (hid : n.route = some id) :
    ∃ r, l.route? id = some r ∧ m ∈ r.visits := by
  obtain ⟨r, hr, hvisit⟩ := h.visit hn hid
  exact ⟨r, hr, List.mem_of_getElem? hvisit⟩

theorem unvisited_iff (h : Seated l) (hn : l.node? m = some n) : Unvisited l m ↔ n.route = none := by
  constructor
  · intro hm
    cases hroute : n.route with
    | none => rfl
    | some id =>
      obtain ⟨r, hr, hvisit⟩ := h.mem_of_route hn hroute
      exact absurd hvisit (hm id r hr)
  · intro hroute id r hr hm
    obtain ⟨n', hn', hid⟩ := h.live hr hm
    rw [hn] at hn'
    cases hn'
    rw [hroute] at hid
    cases hid

theorem nodup_clients (h : Seated l) (hr : l.route? id = some r) : r.clients.Nodup := by
  have := h.nodup_visits hr
  rw [Route.visits_eq, List.nodup_cons] at this
  exact (List.nodup_append.mp this.2).1

theorem start_not_mem (h : Seated l) (hr : l.route? id = some r) : r.start ∉ r.clients := by
  have := h.nodup_visits hr
  rw [Route.visits_eq, List.nodup_cons] at this
  exact fun hm => this.1 (List.mem_append_left _ hm)

theorem finish_not_mem (h : Seated l) (hr : l.route? id = some r) : r.finish ∉ r.clients := by
  have := h.nodup_visits hr
  rw [Route.visits_eq, List.nodup_cons, List.nodup_append] at this
  exact fun hm => this.2.2.2 _ hm _ (List.mem_singleton_self _) rfl

theorem start_ne_finish (h : Seated l) (hr : l.route? id = some r) : r.start ≠ r.finish := by
  have := h.nodup_visits hr
  rw [Route.visits_eq, List.nodup_cons] at this
  exact fun heq => this.1 (heq ▸ List.mem_append_right _ (List.mem_singleton_self _))

end Seated

/-! ### Telling layouts apart -/

/-- The node stands at a position of a route. -/
def StandsAt (l : Layout) (m : NodeId) (id : RouteId) (i : Nat) : Prop :=
  ∃ r, l.route? id = some r ∧ r.visits[i]? = some m

theorem Seated.standsAt_iff (h : Seated l) {i : Nat} (hn : l.node? m = some n) :
    StandsAt l m id i ↔ n.route = some id ∧ n.position = i := by
  constructor
  · rintro ⟨r, hr, hi⟩
    obtain ⟨n', hn', hroute, hposition⟩ := h.seat hr hi
    rw [hn] at hn'
    cases hn'
    exact ⟨hroute, hposition⟩
  · rintro ⟨hroute, rfl⟩
    exact h.visit hn hroute

/-- A node stands at one place only. -/
theorem Seated.standsAt_unique (h : Seated l) {i j : Nat} (hi : StandsAt l m id i) (hj : StandsAt l m x j) :
    id = x ∧ i = j := by
  obtain ⟨r, hr, hm⟩ := hi
  obtain ⟨n, hn, hroute, hposition⟩ := h.seat hr hm
  obtain ⟨hroute', hposition'⟩ := (h.standsAt_iff hn).mp hj
  exact ⟨Option.some.inj (hroute.symm.trans hroute'), hposition.symm.trans hposition'⟩

/-- In seated layouts a node is told by its location and by where the visits say that it stands. -/
theorem Seated.node?_eq (h : Seated l) (h' : Seated l')
    (hlocation : (l'.node? m).map (·.location) = (l.node? m).map (·.location))
    (hstands : ∀ id i, StandsAt l' m id i ↔ StandsAt l m id i) : l'.node? m = l.node? m := by
  cases hn : l.node? m with
  | none =>
    rw [hn] at hlocation
    exact Option.map_eq_none_iff.mp hlocation
  | some n =>
    rw [hn] at hlocation
    obtain ⟨n', hn', hloc⟩ := Option.map_eq_some_iff.mp hlocation
    have hseat : ∀ id i, (n'.route = some id ∧ n'.position = i) ↔ (n.route = some id ∧ n.position = i) := fun id i => by
      rw [← h'.standsAt_iff hn', ← h.standsAt_iff hn, hstands]
    have hroute : n'.route = n.route := Option.ext fun id =>
      ⟨fun hid => ((hseat id _).mp ⟨hid, rfl⟩).1, fun hid => ((hseat id _).mpr ⟨hid, rfl⟩).1⟩
    have hposition : n'.position = n.position := by
      cases hid : n.route with
      | none => rw [h.loose hn hid, h'.loose hn' (hroute.trans hid)]
      | some id => exact ((hseat id _).mpr ⟨hid, rfl⟩).2
    obtain ⟨location, route, position⟩ := n'
    rw [hn']
    cases n
    simp_all

theorem seated_empty : Seated empty where
  nodes := Pool.wellFormed_empty
  routes := Pool.wellFormed_empty
  seat hr := by simp [route?, empty] at hr
  visit hn := by simp [node?, empty] at hn
  loose hn := by simp [node?, empty] at hn

/-! ### Changes that keep the nodes -/

/-- A route visits the same locations as long as nodes stay where they are. -/
theorem locations_congr (h : ∀ m ∈ r.visits, (l'.node? m).map (·.location) = (l.node? m).map (·.location)) :
    l'.locations r = l.locations r := by
  unfold Layout.locations
  refine List.filterMap_congr fun m hm => ?_
  have := congrArg (Option.map UInt64.toNat) (h m hm)
  simpa [Option.map_map, Function.comp_def] using this

/-- `l'` is seated and has the nodes of `l` at their locations, and both have the same slots. -/
structure Reseats (l l' : Layout) : Prop where
  seated : Seated l'
  nodeSlots : l'.nodes.outline = l.nodes.outline
  routeSlots : l'.routes.outline = l.routes.outline
  location : ∀ m, (l'.node? m).map (·.location) = (l.node? m).map (·.location)

namespace Reseats

theorem refl (h : Seated l) : Reseats l l := ⟨h, rfl, rfl, fun _ => rfl⟩

theorem trans (h : Reseats l l') (h' : Reseats l' l'') : Reseats l l'' :=
  ⟨h'.seated, h'.nodeSlots.trans h.nodeSlots, h'.routeSlots.trans h.routeSlots,
    fun m => (h'.location m).trans (h.location m)⟩

theorem isSome (h : Reseats l l') (m : NodeId) : (l'.node? m).isSome = (l.node? m).isSome := by
  rw [← Option.isSome_map (f := (·.location)), h.location, Option.isSome_map]

theorem live (h : Reseats l l') (hm : (l.node? m).isSome) (x : NodeId) :
    (l'.node? x).isSome = if x = m then true else (l.node? x).isSome := by
  rw [h.isSome]
  split
  · rename_i hx
    rw [hx, hm]
  · rfl

theorem locations (h : Reseats l l') (r : Route) : l'.locations r = l.locations r :=
  locations_congr fun m _ => h.location m

end Reseats

/-- Where the nodes have their locations and all routes are the same, everything is. -/
theorem Reseats.eq_of_route? (h : Reseats l l') (hl : Seated l) (hroute : ∀ x, l'.route? x = l.route? x) : l' = l := by
  have hnodes : l'.nodes = l.nodes := Pool.eq_of_get? h.nodeSlots fun k =>
    hl.node?_eq (m := ⟨k⟩) h.seated (h.location ⟨k⟩) fun id i => by unfold StandsAt; rw [hroute]
  have hroutes : l'.routes = l.routes := Pool.eq_of_get? h.routeSlots fun k => hroute ⟨k⟩
  obtain ⟨nodes, routes⟩ := l'
  cases l
  simp_all

/-- `l'` has the nodes of `l`, and its routes, except that the route `id` is now `r`. -/
structure Reroutes (l : Layout) (id : RouteId) (r : Route) (l' : Layout) : Prop extends Reseats l l' where
  route : ∀ x, l'.route? x = if x = id then some r else l.route? x

theorem Reroutes.route_self (h : Reroutes l id r l') : l'.route? id = some r := by
  rw [h.route, if_pos rfl]

theorem Reroutes.route_of_ne (h : Reroutes l id r l') (hx : x ≠ id) : l'.route? x = l.route? x := by
  rw [h.route, if_neg hx]

theorem Reroutes.refl (h : Seated l) (hr : l.route? id = some r) : Reroutes l id r l where
  toReseats := .refl h
  route x := by
    split
    · rename_i hx
      rw [hx, hr]
    · rfl

/-- A node that the changed route does not visit and no other route visited is unvisited. -/
theorem Reroutes.unvisited (h : Reroutes l id r l') (hm : m ∉ r.visits)
    (hother : ∀ y s, y ≠ id → l.route? y = some s → m ∉ s.visits) : Unvisited l' m := by
  intro y s hs
  rw [h.route] at hs
  split at hs
  · cases hs
    exact hm
  · rename_i hy
    exact hother y s hy hs

/-- A node that has left the changed route is unvisited. -/
theorem Reroutes.unvisited_of_left (h : Reroutes l id r' l') (hl : Seated l) (hr : l.route? id = some r)
    (hm : m ∈ r.visits) (hm' : m ∉ r'.visits) : Unvisited l' m :=
  h.unvisited hm' fun _ _ hy hs hmem => hy (hl.route_unique hr hs hm hmem)

theorem Reroutes.trans (h : Reroutes l id r l') (h' : Reroutes l' id r' l'') : Reroutes l id r' l'' where
  toReseats := h.toReseats.trans h'.toReseats
  route x := by
    rw [h'.route, h.route]
    split <;> rfl

/-! ### Changes of nodes -/

/-- `l'` is `l` with each node `m` changed by `g m`. -/
structure Alters (g : NodeId → Node → Node) (l l' : Layout) : Prop where
  routes : l'.routes = l.routes
  slots : l'.nodes.outline = l.nodes.outline
  node : ∀ m, l'.node? m = (l.node? m).map (g m)

theorem Alters.of_id {g : NodeId → Node → Node} (hg : ∀ m n, g m n = n) : Alters g l l where
  routes := rfl
  slots := rfl
  node m := by
    rw [show g m = id from funext (hg m), Option.map_id]
    rfl

theorem Alters.trans {g g' : NodeId → Node → Node} (h : Alters g l l') (h' : Alters g' l' l'') :
    Alters (fun m n => g' m (g m n)) l l'' where
  routes := h'.routes.trans h.routes
  slots := h'.slots.trans h.slots
  node m := by
    rw [h'.node, h.node, Option.map_map]
    rfl

theorem Alters.congr {g g' : NodeId → Node → Node} (h : Alters g l l') (hg : ∀ m n, g m n = g' m n) :
    Alters g' l l' := by
  have : g = g' := funext fun m => funext fun n => hg m n
  exact this ▸ h

theorem Alters.route? {g : NodeId → Node → Node} (h : Alters g l l') (x : RouteId) : l'.route? x = l.route? x := by
  unfold Layout.route?
  rw [h.routes]

theorem Alters.isSome {g : NodeId → Node → Node} (h : Alters g l l') (m : NodeId) :
    (l'.node? m).isSome = (l.node? m).isSome := by
  rw [h.node, Option.isSome_map]

def unseated (n : Node) : Node := { n with route := none, position := 0 }

def seatedAt (id : RouteId) (position : Nat) (n : Node) : Node := { n with route := some id, position }

/-- Takes the seats of some nodes away. -/
def unseatIn (ms : List NodeId) (m : NodeId) (n : Node) : Node := if m ∈ ms then unseated n else n

/-- Seats some nodes one after the other. -/
def seatIn (id : RouteId) (position : Nat) (ms : List NodeId) (m : NodeId) (n : Node) : Node :=
  if m ∈ ms then seatedAt id (position + ms.idxOf m) n else n

/-- A change of one route together with the seats of the nodes that it visited or visits now. The visits of the
    route may gain only nodes that stood nowhere. -/
theorem reroutes_of_alters {g : NodeId → Node → Node} (h : Seated l) (hr : l.route? id = some r)
    (hg : Alters g { l with routes := l.routes.set id.key r' } l')
    (hlocation : ∀ m n, (g m n).location = n.location) (hlive : ∀ m ∈ r'.visits, (l.node? m).isSome)
    (hnew : ∀ m ∈ r'.visits, m ∈ r.visits ∨ Unvisited l m)
    (hseat : ∀ i m n, r'.visits[i]? = some m → l.node? m = some n →
      (g m n).route = some id ∧ (g m n).position = i)
    (hout : ∀ m n, m ∈ r.visits → m ∉ r'.visits → (g m n).route = none ∧ (g m n).position = 0)
    (hkeep : ∀ m n, m ∉ r.visits → m ∉ r'.visits → g m n = n) :
    Reroutes l id r' l' := by
  have hroute : ∀ x, l'.route? x = if x = id then some r' else l.route? x := fun x => by
    rw [hg.route?]
    show (l.routes.set id.key r').get? x.key = _
    rw [Pool.get?_set_of_get? (show l.routes.get? id.key = some r from hr), if_congr routeId_eq_iff rfl rfl]
    rfl
  have hnode : ∀ m, l'.node? m = (l.node? m).map (g m) := hg.node
  have hslots : l'.routes.outline = l.routes.outline := by
    rw [hg.routes]
    exact Pool.outline_set _ _ _
  -- A node of another route stands neither in the old nor in the new visits of this one.
  have other : ∀ {y s m}, l.route? y = some s → m ∈ s.visits → y ≠ id → m ∉ r.visits ∧ m ∉ r'.visits :=
    fun {y s m} hs hm hy => by
      have hold : m ∉ r.visits := fun hm' => hy (h.route_unique hr hs hm' hm)
      exact ⟨hold, fun hm' => (hnew m hm').elim hold fun hun => hun y s hs hm⟩
  refine ⟨⟨⟨h.nodes.of_outline hg.slots, h.routes.of_outline hslots, ?_, ?_, ?_⟩, hg.slots, hslots, ?_⟩, hroute⟩
  · intro y s i m hs hi
    rw [hroute] at hs
    rw [hnode]
    split at hs
    · rename_i hy
      cases hs
      obtain ⟨n, hn⟩ := Option.isSome_iff_exists.mp (hlive m (List.mem_of_getElem? hi))
      obtain ⟨h1, h2⟩ := hseat i m n hi hn
      exact ⟨g m n, by rw [hn]; rfl, by rw [hy, h1], h2⟩
    · rename_i hy
      obtain ⟨n, hn, h1, h2⟩ := h.seat hs hi
      obtain ⟨ho, ho'⟩ := other hs (List.mem_of_getElem? hi) hy
      exact ⟨n, by rw [hn, Option.map_some, hkeep m n ho ho'], h1, h2⟩
  · intro m n' y hn' hy
    rw [hnode] at hn'
    obtain ⟨n, hn, rfl⟩ := Option.map_eq_some_iff.mp hn'
    by_cases hm' : m ∈ r'.visits
    · obtain ⟨i, hi⟩ := List.mem_iff_getElem?.mp hm'
      obtain ⟨h1, h2⟩ := hseat i m n hi hn
      rw [h1] at hy
      cases hy
      exact ⟨r', by rw [hroute, if_pos rfl], by rw [h2, hi]⟩
    · by_cases hm : m ∈ r.visits
      · rw [(hout m n hm hm').1] at hy
        cases hy
      · rw [hkeep m n hm hm'] at hy ⊢
        obtain ⟨s, hs, hvisit⟩ := h.visit hn hy
        have hyid : y ≠ id := fun heq => by
          rw [heq, hr] at hs
          cases hs
          exact hm (List.mem_of_getElem? hvisit)
        exact ⟨s, by rw [hroute, if_neg hyid, hs], hvisit⟩
  · intro m n' hn' hnone
    rw [hnode] at hn'
    obtain ⟨n, hn, rfl⟩ := Option.map_eq_some_iff.mp hn'
    by_cases hm' : m ∈ r'.visits
    · obtain ⟨i, hi⟩ := List.mem_iff_getElem?.mp hm'
      rw [(hseat i m n hi hn).1] at hnone
      cases hnone
    · by_cases hm : m ∈ r.visits
      · exact (hout m n hm hm').2
      · rw [hkeep m n hm hm'] at hnone ⊢
        exact h.loose hn hnone
  · intro m
    rw [hnode, Option.map_map]
    exact congrArg (Option.map · (l.node? m)) (funext fun n => hlocation m n)

end Layout
end Fleet
