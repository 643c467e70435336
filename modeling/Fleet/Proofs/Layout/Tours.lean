import Fleet.Dispatch.Basic
import Fleet.Proofs.Layout.Lifetime

/-! The tours of a layout, as a plan has them. -/

namespace Fleet
namespace Layout

variable {l l' : Layout} {id x : RouteId} {r r' : Route} {m : NodeId} {location a b : UInt64}

/-- The location of a node as plans write it. -/
def place (l : Layout) (m : NodeId) : UInt64 := ((l.node? m).map (·.location)).getD 0

def tour? (l : Layout) (id : RouteId) : Option Tour :=
  (l.route? id).map fun r => { vehicleType := r.vehicleType, visits := r.clients.map l.place }

theorem locationOf_eq_place (l : Layout) (m : NodeId) : l.locationOf m = (l.place m).toNat := by
  unfold locationOf place
  cases l.node? m <;> rfl

theorem tour?_of_route (hr : l.route? id = some r) :
    l.tour? id = some { vehicleType := r.vehicleType, visits := r.clients.map l.place } := by
  unfold tour?
  rw [hr]
  rfl

theorem Reseats.place (h : Reseats l l') (m : NodeId) : l'.place m = l.place m :=
  congrArg (Option.getD · 0) (h.location m)

/-- Changing one route changes its tour and no other. -/
theorem Reroutes.tour? (h : Reroutes l id r l') (x : RouteId) : l'.tour? x =
    if x = id then some { vehicleType := r.vehicleType, visits := r.clients.map l.place } else l.tour? x := by
  unfold Layout.tour?
  have hplace : l'.place = l.place := funext h.place
  rw [h.route, hplace]
  split <;> rfl

/-- A new node changes no tour. -/
theorem Gains.tour? (h : Gains l m location l') (hl : Seated l) (x : RouteId) : l'.tour? x = l.tour? x := by
  unfold Layout.tour?
  rw [h.route?]
  cases hx : l.route? x with
  | none => rfl
  | some s =>
    have hvisits : s.clients.map l'.place = s.clients.map l.place := List.map_congr_left fun y hy => by
      have hne : y ≠ m := by
        rintro rfl
        obtain ⟨n, hn⟩ := Option.isSome_iff_exists.mp (hl.isSome_of_client hx hy)
        rw [h.fresh] at hn
        cases hn
      unfold Layout.place
      rw [h.node_of_ne hne]
    rw [Option.map_some, Option.map_some, hvisits]

theorem Gains.place_self (h : Gains l m location l') : l'.place m = location := by
  unfold Layout.place
  rw [h.node_self]
  rfl

/-- A new route has an empty tour, and the others keep theirs. -/
theorem Opens.tour? (h : Opens l id r a b l') (hl : Seated l) (x : RouteId) : l'.tour? x =
    if x = id then some { vehicleType := r.vehicleType, visits := [] } else l.tour? x := by
  unfold Layout.tour?
  rw [h.route]
  split
  · rw [Option.map_some, h.clients]
    rfl
  · cases hx : l.route? x with
    | none => rfl
    | some s =>
      have hvisits : s.clients.map l'.place = s.clients.map l.place := List.map_congr_left fun y hy => by
        obtain ⟨h1, h2⟩ := h.ne_depot hl hx (Route.mem_visits_of_client hy)
        have hlocation := h.location y
        rw [if_neg h1, if_neg h2] at hlocation
        exact congrArg (Option.getD · 0) hlocation
      rw [Option.map_some, Option.map_some, hvisits]

theorem mapM_eq_some {α β : Type} {f : α → Option β} {g : α → β} {as : List α} (h : ∀ a ∈ as, f a = some (g a)) :
    as.mapM f = some (as.map g) := by
  induction as with
  | nil => rfl
  | cons a as ih =>
    rw [List.mapM_cons, h a List.mem_cons_self, ih fun a' ha' => h a' (List.mem_cons_of_mem _ ha')]
    rfl

theorem tour_run {d : Dispatch} {t : Tour} (hl : Seated d.layout) (ht : d.layout.tour? id = some t) :
    d.tour id = .ok t := by
  unfold Layout.tour? at ht
  obtain ⟨r, hr, rfl⟩ := Option.map_eq_some_iff.mp ht
  have hvisits : (r.clients.mapM fun m => (d.layout.node? m).map Node.location) = some (r.clients.map d.layout.place) := by
    refine mapM_eq_some fun m hm => ?_
    obtain ⟨n, hn⟩ := Option.isSome_iff_exists.mp (hl.isSome_of_client hr hm)
    unfold place
    rw [hn]
    rfl
  unfold Dispatch.tour Dispatch.route
  rw [hr]
  simp only [ok_bind, hvisits]
  rfl

/-! ### Several tours -/

variable {ids : List RouteId} {tours : List Tour}

/-- The routes have the tours, one by one. -/
def HasTours (l : Layout) (ids : List RouteId) (tours : List Tour) : Prop :=
  List.Forall₂ (fun id t => l.tour? id = some t) ids tours

theorem HasTours.isSome (h : HasTours l ids tours) (hid : id ∈ ids) : (l.route? id).isSome := by
  induction h with
  | nil => cases hid
  | cons ht _ ih =>
    rcases List.mem_cons.mp hid with rfl | hid
    · obtain ⟨r, hr, -⟩ := Option.map_eq_some_iff.mp ht
      exact Option.isSome_iff_exists.mpr ⟨r, hr⟩
    · exact ih hid

theorem HasTours.eq {tours' : List Tour} (h : HasTours l ids tours) : HasTours l ids tours' → tours = tours' := by
  induction h generalizing tours' with
  | nil =>
    rintro ⟨⟩
    rfl
  | cons ht _ ih =>
    rintro (_ | ⟨ht', hrest⟩)
    rw [Option.some.inj (ht.symm.trans ht'), ih hrest]

/-- The clients of a route, if it is there. -/
def clientsOf (l : Layout) (id : RouteId) : List NodeId := ((l.route? id).map (·.clients)).getD []

theorem clientsOf_eq (hr : l.route? id = some r) : l.clientsOf id = r.clients := by
  unfold clientsOf
  rw [hr]
  rfl

theorem mem_clientsOf : m ∈ l.clientsOf id ↔ ∃ r, l.route? id = some r ∧ m ∈ r.clients := by
  unfold clientsOf
  cases l.route? id with
  | none => simp
  | some r => simp

/-- No client is visited twice. -/
theorem Seated.nodup_clientsOf (h : Seated l) (hids : ids.Nodup) : (ids.flatMap l.clientsOf).Nodup := by
  refine List.nodup_flatMap.mpr ⟨fun id _ => ?_, hids.imp fun {a b} hab m hm hm' => hab ?_⟩
  · cases hr : l.route? id with
    | none =>
      unfold clientsOf
      rw [hr]
      exact List.nodup_nil
    | some r =>
      rw [clientsOf_eq hr]
      exact h.nodup_clients hr
  · obtain ⟨ra, hra, hma⟩ := mem_clientsOf.mp hm
    obtain ⟨rb, hrb, hmb⟩ := mem_clientsOf.mp hm'
    exact h.client_unique hrb hra hmb hma

/-- The visits of tours are the places of the clients of their routes. -/
theorem HasTours.visits (h : HasTours l ids tours) :
    tours.flatMap (·.visits) = (ids.flatMap l.clientsOf).map l.place := by
  induction h with
  | nil => rfl
  | cons ht _ ih =>
    obtain ⟨r, hr, rfl⟩ := Option.map_eq_some_iff.mp ht
    rw [List.flatMap_cons, List.flatMap_cons, List.map_append, ih, clientsOf_eq hr]

theorem HasTours.plan_run {d : Dispatch} (h : HasTours d.layout ids tours) (hl : Seated d.layout) :
    d.plan ids = .ok ⟨tours⟩ := by
  have hmap : ids.mapM d.tour = .ok tours := by
    induction h with
    | nil => rfl
    | cons ht _ ih => rw [List.mapM_cons, tour_run hl ht, ok_bind, ih, ok_bind]; rfl
  unfold Dispatch.plan
  rw [hmap]
  rfl

end Layout
end Fleet
