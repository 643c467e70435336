import Fleet.Proofs.Acceptance
import Fleet.Proofs.Neighbourhood
import Fleet.Proofs.Dispatch.Itineraries

/-! Whoever holds a problem finds everything that it names.

    The checks are made once, when a draft is accepted. After that the neighbours of all clients can be found with any
    parameters, and tours along locations of the problem have their totals and their cost, unless a quantity overflows.
    The same goes for a new route, in whatever order the routes and nodes around it may be: it only needs pools that
    give out keys (`Sound`) and are not full. -/

namespace Fleet

variable {p : Problem}

/-! ### A new route among any others -/

namespace Layout

variable {l l' : Layout} {id : RouteId} {r : Route}

/-- Both pools are well formed; nothing is said of what is in them. -/
structure Sound (l : Layout) : Prop where
  nodes : l.nodes.WellFormed
  routes : l.routes.WellFormed

theorem Seated.sound (h : Seated l) : Sound l := ⟨h.nodes, h.routes⟩

theorem Sound.alters {g : NodeId → Node → Node} (h : Sound l) (hg : Alters g l l') : Sound l' :=
  ⟨h.nodes.of_outline hg.slots, hg.routes ▸ h.routes⟩

/-- A route whose visits are there and different from each other has its totals computed. -/
theorem refresh_sound (h : Sound l) (hr : l.route? id = some r) (hlive : ∀ m ∈ r.visits, (l.node? m).isSome)
    (hnodup : r.visits.Nodup)
    (ht : Computes (fun _ => True) (Totals.ofTour p r.vehicleType.toNat (l.locations r))) :
    Fares (fun _ l' => Sound l' ∧ ∃ totals, l'.route? id = some { r with totals }) (refresh p id l) := by
  obtain ⟨l₁, hrun₁, h₁⟩ := seatFrom_run (k := 0) hr hlive hnodup
  have hr₁ : l₁.route? id = some r := (h₁.route? id).trans hr
  have hsound := h.alters h₁
  unfold refresh
  rw [bind_ok hrun₁, bind_ok (route_run hr₁), get_bind_run, locations_congr fun m _ => h₁.location_seatIn m]
  generalize Totals.ofTour p r.vehicleType.toNat (l.locations r) = tour at ht
  cases ht with
  | @ok totals _ =>
    refine .ok ⟨⟨hsound.nodes, hsound.routes.of_outline (Pool.outline_set _ _ _)⟩, totals, ?_⟩
    exact route?_setRoute hr₁
  | overflow => exact .overflow

theorem openRoute_sound {idx : Nat} {vehicleType : UInt64} {v : VehicleType} (h : Sound l)
    (hv : p.vehicleTypes[vehicleType.toNat]? = some v) :
    FaresUnless (Stops fun _ => True)
      (fun id l' => Sound l' ∧ ∃ r, l'.route? id = some r ∧ r.vehicleType = vehicleType ∧ r.clients = [])
      ((do
        let start ← addNode v.startDepot
        let finish ← addNode v.endDepot
        let id ← addRoute idx vehicleType start finish
        refresh p id
        return id) l) := by
  refine ((addNode_gains h.nodes _).mono (fun _ _ => .nodes) fun _ _ h₁ => h₁).bind fun start l₁ h₁ => ?_
  refine ((addNode_gains h₁.nodes _).mono (fun _ _ => .nodes) fun _ _ h₂ => h₂).bind fun finish l₂ h₂ => ?_
  have hne := h₁.ne h₂
  have hsound₂ : Sound l₂ := ⟨h₂.nodes, h₂.routes ▸ h₁.routes ▸ h.routes⟩
  obtain ⟨hstart, hfinish⟩ := h₁.isSome_both h₂
  refine ((addRoute_alters idx vehicleType hsound₂.routes hstart hfinish hne rfl).mono (fun _ _ => .routes)
    fun _ _ hopened => hopened).bind fun id l₃ hopened => ?_
  obtain ⟨-, hroutes₃, hroute₃, h₃⟩ := hopened
  have hsound₃ : Sound l₃ := ⟨hsound₂.nodes.of_outline h₃.slots, hroutes₃⟩
  let r : Route := { idx, vehicleType, start, clients := [], finish }
  have hr₃ : l₃.route? id = some r := by rw [hroute₃, if_pos rfl]
  have hlocation : ∀ x, (l₃.node? x).map (·.location) = _ := fun x =>
    (h₃.location_seatIn x).trans (h₁.location_both h₂ x)
  have hlive : ∀ m ∈ r.visits, (l₃.node? m).isSome :=
    isSome_of_ends rfl ((h₃.isSome start).trans hstart) ((h₃.isSome finish).trans hfinish)
  -- The tour goes from the one depot of the vehicle to the other.
  have hlocations : l₃.locations r = [v.startDepot.toNat, v.endDepot.toNat] := by
    refine locations_of_ends rfl ?_ ?_
    · rw [hlocation, if_pos rfl]
    · rw [hlocation, if_neg hne.symm, if_pos rfl]
  have ht : Computes (fun _ => True) (Totals.ofTour p vehicleType.toNat (l₃.locations r)) := by
    obtain ⟨hs, hf, -⟩ := Problem.vehicleFlaw?_none hv
    rw [hlocations]
    refine Totals.ofTour_computes (Array.getElem?_eq_some_iff.mp hv).1 le_rfl fun x hx => ?_
    rcases List.mem_pair.mp hx with rfl | rfl
    · exact Problem.lt_of_depot hs
    · exact Problem.lt_of_depot hf
  have hrefresh := refresh_sound hsound₃ hr₃ hlive (by simp [Route.visits, r, hne]) ht
  refine ((FaresUnless.of_fares hrefresh).mono (fun _ _ hover => .overflow hover.1 hover.2) fun _ _ h₄ => h₄).bind
    fun _ l₄ h₄ => ?_
  obtain ⟨hsound₄, totals, hr₄⟩ := h₄
  exact .ok ⟨hsound₄, _, hr₄, rfl, rfl⟩

end Layout

namespace Dispatch

open Layout DispatchM

/-- A route for a vehicle of the problem can be opened in every state in which a slot is left. -/
theorem addRoute_sound {d : Dispatch} {vehicleType : UInt64} (h : Sound d.layout)
    (hvehicle : vehicleType.toNat < p.vehicleTypes.size) (idx : Nat) :
    FaresUnless (Stops fun _ => True) (fun id d' => Sound d'.layout ∧
      ∃ r, d'.layout.route? id = some r ∧ r.vehicleType = vehicleType ∧ r.clients = [])
      (addRoute p vehicleType idx d) := by
  have hv := Array.getElem?_eq_getElem hvehicle
  unfold addRoute
  simp only [hv]
  refine (FaresUnless.onLayout (openRoute_sound h hv)).bind fun id d₁ hopen => ?_
  obtain ⟨l', rfl, hsound, hroute⟩ := hopen
  rw [bind_ok setStore_run]
  exact .ok ⟨hsound, hroute⟩

/-- So is every state of a clean run, whatever is changed by hand afterwards. -/
theorem Reachable.sound {h : Handles} {d : Dispatch} {l : Layout} (hr : Reachable p h d) (hedited : Edited p d.layout l) :
    Sound l :=
  (hedited.keepsRuns hr.coherent.seated hr.coherent.sited).seated.sound

end Dispatch

namespace Problem

/-- Everything that is computed with a problem and things that it names has a result, unless a quantity overflows or no
    slot is left. -/
structure Ready (p : Problem) : Prop where
  scores : ∀ params, Succeeds (Scores.Square p.numLocations) (Neighbourhood.scores p params)
  neighbours : ∀ params, Succeeds (Neighbourhood.Within p.numLocations) (Neighbourhood.lists p params)
  visit : ∀ location, location < p.numLocations →
    Succeeds (fun s => s.first = location ∧ s.last = location) (Stretch.atLocation p location)
  join : ∀ profile, profile < p.numProfiles → ∃ durations, p.durationMatrix profile = .ok durations ∧
    ∀ s t, s.last < p.numLocations → t.first < p.numLocations →
      Computes (fun j => j.first = s.first ∧ j.last = t.last) (Stretch.join durations s t)
  totals : ∀ vehicleType locations, vehicleType < p.vehicleTypes.size → 2 ≤ locations.length →
    (∀ x ∈ locations, x < p.numLocations) → Computes (fun _ => True) (Totals.ofTour p vehicleType locations)
  cost : ∀ (penalties : Penalties) vehicleType locations, vehicleType < p.vehicleTypes.size → 2 ≤ locations.length →
    (∀ x ∈ locations, x < p.numLocations) → Computes (fun _ => True) (penalties.costOfTour p vehicleType locations)
  /-- In every state, one in which the books have fallen behind included. -/
  route : ∀ (vehicleType : UInt64) idx (d : Dispatch), vehicleType.toNat < p.vehicleTypes.size → d.layout.Sound →
    FaresUnless (Dispatch.Stops fun _ => True) (fun id d' => d'.layout.Sound ∧
      ∃ r, d'.layout.route? id = some r ∧ r.vehicleType = vehicleType ∧ r.clients = [])
      (Dispatch.addRoute p vehicleType idx d)
  sound : ∀ h d l, Dispatch.Reachable p h d → d.layout.Edited p l → l.Sound

theorem ready (p : Problem) : Ready p where
  scores := Neighbourhood.scores_succeed p
  neighbours := Neighbourhood.lists_succeed p
  visit _ := Stretch.atLocation_succeeds
  join profile hprofile := by
    obtain ⟨durations, hdurations, hsize⟩ := durationMatrix_run hprofile
    exact ⟨durations, hdurations, fun s t hs ht => Stretch.join_computes (hsize ▸ hs) (hsize ▸ ht)⟩
  totals _ _ hvehicle hlength hlocations := Totals.ofTour_computes hvehicle hlength hlocations
  cost _ _ _ hvehicle hlength hlocations := Penalties.costOfTour_computes hvehicle hlength hlocations
  route _ idx _ hvehicle hsound := Dispatch.addRoute_sound hsound hvehicle idx
  sound _ _ _ hr hedited := hr.sound hedited

/-- A draft that is accepted becomes a problem with all its entries in their places. Its groups list exactly the clients
    that name them, and every look-up that is made later finds something. -/
theorem lookups_of_accept {draft : Draft} (h : draft.accept = .ok p) : p.draft = draft ∧
    (∀ group location, p.Lists group location ↔ p.Names group location) ∧
    (∀ group group' location, p.Lists group location → p.Lists group' location → group = group') ∧
    draft.distances.length = p.numProfiles ∧ draft.durations.length = p.numProfiles ∧
    Matches p.numLocations draft.distances p.distanceMatrix ∧ Matches p.numLocations draft.durations p.durationMatrix ∧
    Ready p := by
  obtain rfl := Draft.accept_eq_ok_iff.mp h
  exact ⟨rfl, fun _ _ => lists_iff_names, fun _ _ _ hl hl' => hl.unique hl', p.length_distances, p.length_durations,
    p.matches_distances, p.matches_durations, p.ready⟩

namespace Sample

/-- Two clients of one group, which lists the first of them twice. -/
def draft : Draft where
  depots := [{ x := 0, y := 0 }]
  clients := [{ x := 10, y := 0, group := some 0, required := false }, { x := 12, y := 0, group := some 0 }]
  vehicleTypes := [{ capacity := 8 }]
  distances := [[[0, 10, 12], [11, 0, 3], [13, 4, 0]]]
  durations := [[[0, 1, 2], [3, 0, 4], [5, 6, 0]]]
  groups := [{ clients := [1, 2, 1] }]

def problem : Problem where
  depots := draft.depots.toArray
  clients := draft.clients.toArray
  vehicleTypes := draft.vehicleTypes.toArray
  distances := #[⟨#[#[0, 10, 12], #[11, 0, 3], #[13, 4, 0]], by decide⟩]
  durations := #[⟨#[#[0, 1, 2], #[3, 0, 4], #[5, 6, 0]], by decide⟩]
  groups := draft.groups.toArray
  flawless := by decide +kernel

end Sample

theorem lookups_in_sample : Sample.draft.accept = .ok Sample.problem ∧ Sample.problem.Names 0 2 ∧
    ∃ m, Sample.problem.distanceMatrix 0 = .ok m ∧ m.entry 2 0 = .ok 13 := by
  have haccept : Sample.draft.accept = .ok Sample.problem := Draft.accept_eq_ok_iff.mpr (by decide +kernel)
  obtain ⟨-, hgroups, -, -, -, hdistances, -⟩ := lookups_of_accept haccept
  have hlists : Sample.problem.Lists 0 2 := ⟨{ clients := [1, 2, 1] }, rfl, 2, by decide, rfl⟩
  obtain ⟨rows, row, x, m, hrows, hrow, hx, hm, hentry⟩ := hdistances 0 2 0 (by decide) (by decide) (by decide)
  obtain rfl : [[0, 10, 12], [11, 0, 3], [13, 4, 0]] = rows := Option.some.inj hrows
  obtain rfl : [13, 4, 0] = row := Option.some.inj hrow
  obtain rfl : 13 = x := Option.some.inj hx
  exact ⟨haccept, (hgroups 0 2).mp hlists, m, hm, hentry⟩

end Problem

end Fleet
