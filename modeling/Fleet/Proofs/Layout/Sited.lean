import Fleet.Proofs.Layout.Edit
import Fleet.Proofs.Totals

/-! Layouts of a problem.

    In a sited layout each route is one of a vehicle of the problem and runs between the depots of that
    vehicle, and all nodes but the depots of routes are at locations of clients. It is current when the totals
    kept with each route are those of its tour. A change of one route keeps a layout sited; only the totals of
    that route have to be computed again. -/

namespace Fleet
namespace Layout

variable {p : Problem} {l l' : Layout} {id : RouteId} {r r' : Route} {m : NodeId} {n : Node}

/-! ### Locations -/

def locationOf (l : Layout) (m : NodeId) : Nat := ((l.node? m).map (·.location.toNat)).getD 0

theorem locationOf_eq (hn : l.node? m = some n) : l.locationOf m = n.location.toNat := by
  unfold locationOf
  rw [hn]
  rfl

/-- The location of each node of a route whose visits are there. -/
theorem locations_eq (hlive : ∀ m ∈ r.visits, (l.node? m).isSome) : l.locations r = r.visits.map l.locationOf := by
  unfold locations
  rw [← List.filterMap_eq_map]
  refine List.filterMap_congr fun m hm => ?_
  obtain ⟨n, hn⟩ := Option.isSome_iff_exists.mp (hlive m hm)
  rw [Function.comp_apply, locationOf_eq hn, hn]
  rfl

theorem Seated.isSome_of_visit (h : Seated l) (hr : l.route? id = some r) (hm : m ∈ r.visits) :
    (l.node? m).isSome := by
  obtain ⟨n, hn, -⟩ := h.live hr hm
  exact Option.isSome_iff_exists.mpr ⟨n, hn⟩

theorem Seated.locations_eq (h : Seated l) (hr : l.route? id = some r) :
    l.locations r = r.visits.map l.locationOf :=
  Layout.locations_eq fun _ hm => h.isSome_of_visit hr hm

theorem Reseats.locationOf (h : Reseats l l') (m : NodeId) : l'.locationOf m = l.locationOf m := by
  have := congrArg (Option.map UInt64.toNat) (h.location m)
  simp only [Option.map_map] at this
  unfold Layout.locationOf
  exact congrArg (Option.getD · 0) this

/-! ### Sited layouts -/

/-- The node is a depot of the route. -/
def DepotOf (l : Layout) (id : RouteId) (m : NodeId) : Prop := ∃ r, l.route? id = some r ∧ (m = r.start ∨ m = r.finish)

/-- The node is a depot of a route. -/
def IsDepot (l : Layout) (m : NodeId) : Prop := ∃ id, DepotOf l id m

/-- The depots of a route are those of its vehicle. -/
def RunsFor (l : Layout) (r : Route) (v : VehicleType) : Prop :=
  (l.node? r.start).map (·.location) = some v.startDepot ∧ (l.node? r.finish).map (·.location) = some v.endDepot

/-- Routes are those of vehicles of the problem, and all other nodes are at locations of clients. -/
structure Sited (p : Problem) (l : Layout) : Prop where
  client : ∀ {m n}, l.node? m = some n → ¬IsDepot l m → p.isClient n.location.toNat = true
  vehicle : ∀ {id r}, l.route? id = some r →
    ∃ v, p.vehicleTypes[r.vehicleType.toNat]? = some v ∧ RunsFor l r v

/-- The totals kept with each route are those of its tour, except perhaps for some routes. -/
def CurrentBut (p : Problem) (stale : List RouteId) (l : Layout) : Prop :=
  ∀ id r, l.route? id = some r → id ∉ stale → Totals.ofTour p r.vehicleType.toNat (l.locations r) = .ok r.totals

/-- The totals kept with each route are those of its tour. -/
def Current (p : Problem) (l : Layout) : Prop := CurrentBut p [] l

theorem sited_empty : Sited p empty where
  client hn := by simp [node?, empty] at hn
  vehicle hr := by simp [route?, empty] at hr

theorem current_empty : Current p empty := fun id r hr => by simp [route?, empty] at hr

theorem Current.totals (h : Current p l) (hr : l.route? id = some r) :
    Totals.ofTour p r.vehicleType.toNat (l.locations r) = .ok r.totals :=
  h id r hr List.not_mem_nil

namespace Sited

/-- All nodes are at locations of the problem. -/
theorem location (h : Sited p l) (hn : l.node? m = some n) : n.location.toNat < p.numLocations := by
  by_cases hm : IsDepot l m
  · obtain ⟨id, r, hr, hdepot⟩ := hm
    obtain ⟨v, hv, hstart, hfinish⟩ := h.vehicle hr
    obtain ⟨hs, hf, -⟩ := Problem.vehicleFlaw?_none hv
    rcases hdepot with rfl | rfl
    · rw [hn, Option.map_some, Option.some.injEq] at hstart
      rw [hstart]
      exact Problem.lt_of_depot hs
    · rw [hn, Option.map_some, Option.some.injEq] at hfinish
      rw [hfinish]
      exact Problem.lt_of_depot hf
  · exact Problem.lt_of_isClient (h.client hn hm)

theorem vehicleType_lt (h : Sited p l) (hr : l.route? id = some r) : r.vehicleType.toNat < p.vehicleTypes.size := by
  obtain ⟨v, hv, -⟩ := h.vehicle hr
  exact (Array.getElem?_eq_some_iff.mp hv).1

theorem locations_lt (h : Sited p l) : ∀ x ∈ l.locations r, x < p.numLocations := by
  intro x hx
  obtain ⟨m, -, hm⟩ := List.mem_filterMap.mp hx
  obtain ⟨n, hn, rfl⟩ := Option.map_eq_some_iff.mp hm
  exact h.location hn

/-- Only an overflow keeps a route from its totals. -/
theorem ofTour_computes (h : Sited p l) (hl : Seated l) (hr : l.route? id = some r) :
    Computes (fun _ => True) (Totals.ofTour p r.vehicleType.toNat (l.locations r)) := by
  refine Totals.ofTour_computes (h.vehicleType_lt hr) ?_ h.locations_lt
  rw [hl.locations_eq hr, List.length_map, Route.length_visits]
  omega

end Sited

theorem exists_depotOf_iff : (∃ m, DepotOf l id m) ↔ (l.route? id).isSome := by
  rw [Option.isSome_iff_exists]
  exact ⟨fun ⟨_, r, hr, _⟩ => ⟨r, hr⟩, fun ⟨r, hr⟩ => ⟨r.start, r, hr, Or.inl rfl⟩⟩

/-- The same routes run between the same depots. -/
def SameDepots (l l' : Layout) : Prop := ∀ id m, DepotOf l' id m ↔ DepotOf l id m

namespace SameDepots

theorem refl (l : Layout) : SameDepots l l := fun _ _ => Iff.rfl

theorem isSome (h : SameDepots l l') (id : RouteId) : (l'.route? id).isSome = (l.route? id).isSome := by
  rw [Bool.eq_iff_iff, ← exists_depotOf_iff, ← exists_depotOf_iff]
  exact exists_congr (h id)

theorem isDepot (h : SameDepots l l') : IsDepot l' m ↔ IsDepot l m := exists_congr fun id => h id m

end SameDepots

/-! ### Changes of one route -/

/-- The route is the same apart from its clients and its totals. -/
structure SameRun (r r' : Route) : Prop where
  idx : r'.idx = r.idx
  vehicleType : r'.vehicleType = r.vehicleType
  start : r'.start = r.start
  finish : r'.finish = r.finish

theorem SameRun.refl (r : Route) : SameRun r r := ⟨rfl, rfl, rfl, rfl⟩

theorem SameRun.of_clients (r : Route) (clients : List NodeId) : SameRun r { r with clients } := ⟨rfl, rfl, rfl, rfl⟩

theorem SameRun.trans {r'' : Route} (h : SameRun r r') (h' : SameRun r' r'') : SameRun r r'' :=
  ⟨h'.idx.trans h.idx, h'.vehicleType.trans h.vehicleType, h'.start.trans h.start, h'.finish.trans h.finish⟩

/-- A client that a route does not visit any more is none of its visits. -/
theorem Seated.not_mem_visits (h : Seated l) (hr : l.route? id = some r) (hs : SameRun r r') (hm : m ∈ r.clients)
    (hm' : m ∉ r'.clients) : m ∉ r'.visits := by
  rw [Route.mem_visits, hs.start, hs.finish]
  rintro (heq | hmem | heq)
  · exact h.start_not_mem hr (heq ▸ hm)
  · exact hm' hmem
  · exact h.finish_not_mem hr (heq ▸ hm)

/-- A client that has been taken out of its route stands nowhere and is still there. -/
theorem Reroutes.free_of_erased {i : Nat} {totals : Totals}
    (h : Reroutes l id { r with clients := r.clients.eraseIdx i, totals } l') (hl : Seated l)
    (hr : l.route? id = some r) (hm : r.clients[i]? = some m) : Unvisited l' m ∧ (l'.node? m).isSome := by
  have hmem : m ∈ r.clients := List.mem_of_getElem? hm
  have hout : m ∉ r.clients.eraseIdx i := fun hout => ((hl.mem_eraseIdx hr hm).mp hout).1 rfl
  refine ⟨h.unvisited_of_left hl hr (Route.mem_visits_of_client hmem) ?_, ?_⟩
  · exact hl.not_mem_visits hr ⟨rfl, rfl, rfl, rfl⟩ hmem hout
  · exact (h.isSome m).trans (hl.isSome_of_client hr hmem)

/-- `l'` has the nodes of `l`, and its routes, which may differ in their clients and their totals. -/
structure KeepsRuns (l l' : Layout) : Prop extends Reseats l l' where
  onward : ∀ {id r}, l.route? id = some r → ∃ r', l'.route? id = some r' ∧ SameRun r r'
  back : ∀ {id r'}, l'.route? id = some r' → ∃ r, l.route? id = some r ∧ SameRun r r'

namespace KeepsRuns

theorem refl (h : Seated l) : KeepsRuns l l where
  toReseats := .refl h
  onward {_ r} hr := ⟨r, hr, .refl r⟩
  back {_ r} hr := ⟨r, hr, .refl r⟩

theorem trans {l'' : Layout} (h : KeepsRuns l l') (h' : KeepsRuns l' l'') : KeepsRuns l l'' where
  toReseats := h.toReseats.trans h'.toReseats
  onward hr := by
    obtain ⟨r', hr', hs⟩ := h.onward hr
    obtain ⟨r'', hr'', hs'⟩ := h'.onward hr'
    exact ⟨r'', hr'', hs.trans hs'⟩
  back hr := by
    obtain ⟨r', hr', hs'⟩ := h'.back hr
    obtain ⟨r'', hr'', hs⟩ := h.back hr'
    exact ⟨r'', hr'', hs.trans hs'⟩

theorem sameDepots (h : KeepsRuns l l') : SameDepots l l' := by
  intro id m
  constructor
  · rintro ⟨s, hx, hm⟩
    obtain ⟨r, hr, hs⟩ := h.back hx
    rw [hs.start, hs.finish] at hm
    exact ⟨r, hr, hm⟩
  · rintro ⟨s, hx, hm⟩
    obtain ⟨r, hr, hs⟩ := h.onward hx
    rw [← hs.start, ← hs.finish] at hm
    exact ⟨r, hr, hm⟩

theorem sited (h : KeepsRuns l l') (hl : Sited p l) : Sited p l' where
  client {m n'} hn' hm := by
    obtain ⟨n, hn, hloc⟩ : ∃ n, l.node? m = some n ∧ n.location = n'.location := by
      have := h.location m
      rw [hn', Option.map_some] at this
      exact Option.map_eq_some_iff.mp this.symm
    rw [← hloc]
    exact hl.client hn fun hd => hm (h.sameDepots.isDepot.mpr hd)
  vehicle {x s} hx := by
    obtain ⟨r, hr, hs⟩ := h.back hx
    obtain ⟨v, hv, hstart, hfinish⟩ := hl.vehicle hr
    refine ⟨v, by rw [hs.vehicleType, hv], ?_, ?_⟩
    · rw [h.location, hs.start, hstart]
    · rw [h.location, hs.finish, hfinish]

end KeepsRuns

theorem Reroutes.keepsRuns (h : Reroutes l id r' l') (hr : l.route? id = some r) (hs : SameRun r r') :
    KeepsRuns l l' where
  toReseats := h.toReseats
  onward {x s} hx := by
    by_cases heq : x = id
    · rw [heq, hr] at hx
      cases hx
      exact ⟨r', by rw [heq, h.route_self], hs⟩
    · exact ⟨s, by rw [h.route_of_ne heq, hx], .refl s⟩
  back {x s} hx := by
    rw [h.route] at hx
    split at hx
    · rename_i heq
      cases hx
      exact ⟨r, heq ▸ hr, hs⟩
    · exact ⟨s, hx, .refl s⟩

/-- The totals of a changed route may be stale, those of the others are not. -/
theorem Reroutes.currentBut {stale : List RouteId} (h : Reroutes l id r' l') (hc : CurrentBut p stale l) :
    CurrentBut p (id :: stale) l' := by
  intro x s hs hx
  rw [List.mem_cons, not_or] at hx
  rw [h.route_of_ne hx.1] at hs
  rw [h.locations]
  exact hc x s hs hx.2

/-- When the totals of the changed route are those of its tour, they are stale no longer. -/
theorem Reroutes.refreshed {stale : List RouteId} (h : Reroutes l id r' l') (hc : CurrentBut p (id :: stale) l)
    (ht : Totals.ofTour p r'.vehicleType.toNat (l.locations r') = .ok r'.totals) : CurrentBut p stale l' := by
  intro x s hs hx
  rw [h.locations]
  by_cases heq : x = id
  · rw [heq, h.route_self] at hs
    cases hs
    exact ht
  · rw [h.route_of_ne heq] at hs
    exact hc x s hs (by simp [heq, hx])

theorem CurrentBut.mono {stale stale' : List RouteId} (h : CurrentBut p stale l) (hs : stale ⊆ stale') :
    CurrentBut p stale' l := fun id r hr hid => h id r hr fun hmem => hid (hs hmem)

theorem refresh_current {stale : List RouteId} (h : Seated l) (hs : Sited p l) (hc : CurrentBut p (id :: stale) l)
    (hr : l.route? id = some r) :
    Fares (fun _ l' => ∃ totals, Reroutes l id { r with totals } l' ∧ CurrentBut p stale l') (refresh p id l) :=
  (refresh_fares h hr (hs.ofTour_computes h hr)).mono fun _ _ ⟨totals, htotals, h'⟩ =>
    ⟨totals, h', h'.refreshed hc htotals⟩

end Layout
end Fleet
