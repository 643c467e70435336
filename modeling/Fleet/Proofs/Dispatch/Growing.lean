import Fleet.Proofs.Dispatch.Loading
import Fleet.Proofs.Frame.Dispatch

/-! Making nodes in routes, and loading plans, only take slots.

    A new node comes to the end of a route from the host, which destroys no route; and while its route has a handle,
    giving up the handle to the node destroys nothing either. -/

namespace Fleet
namespace Dispatch

open Layout DispatchM

variable {p : Problem} {h : Handles} {d d' : Dispatch} {id : RouteId} {m : NodeId} {r : Route} {location : UInt64}
  {t : Tour}

/-- A node of the host comes to the end of a route. -/
theorem append_ends (hd : Entered d) (hr : d.layout.route? id = some r) (ho : d.owner? m = some .standalone) :
    Ends (fun _ d' => SameSlots d d') (Strained p) (append p id m d) := by
  have hlast : Spot.last.resolve (highestPosition id r.clients.length .standalone) r.clients.length =
      .ok (r.clients.length + 1) := rfl
  unfold append
  rw [put_of_resolve hr hd ho hlast]
  exact ((arrive_keeps p id _ m).bind fun _ => takeIn_keeps m id) d

theorem addRouteNode_ends (hd : Coherent p h d) (id : RouteId) (location : UInt64) :
    Ends (fun _ d' => Grows d d') (Strained p) (addRouteNode p id location d) := by
  unfold addRouteNode
  rw [get_bind_run]
  cases hr : d.layout.route? id with
  | none =>
    rw [route_eq_refused hr]
    exact .fault (by simp)
  | some r =>
    rw [route_eq_ok hr, ofResult_ok_bind]
    by_cases hclient : p.isClient location.toNat = true
    · refine ((addNode_keeps p location d).and (addNode_fares hd hclient)).bind fun m d₁ hadded => ?_
      obtain ⟨⟨hd₁, howner, hg⟩, hgrows⟩ := hadded
      have ho₁ : d₁.owner? m = some .standalone := (howner m).trans (if_pos rfl)
      have hr₁ : d₁.layout.route? id = some r := (hg.route? id).trans hr
      have happend := (append_ends (p := p) hd₁.entered hr₁ ho₁).fares (append_fares hd₁ hr₁ ho₁)
      refine Ends.bind ((happend.tryCatch fun _ _ hover => ?_).ends fun _ hover => hover.2) fun _ d' hjoined => .ok ?_
      · rw [hover.1]
      · exact IsTrans.trans _ _ _ (r := Grows) hgrows hjoined.2.grows
    · unfold addNode
      rw [if_neg hclient]
      exact .fault (by simp)

/-- Nodes of which only the route's own handle is left to keep them come to a route. -/
theorem addVisits_ends (hid : id ∈ h.routes) {locations : List UInt64}
    (hclients : ∀ location ∈ locations, p.isClient location.toNat = true) :
    ∀ {d}, Coherent p h d → Ends (fun _ d' => Grows d d') (Strained p) (addVisits p id locations d) := by
  induction locations with
  | nil => exact fun {d} _ => .ok (refl d)
  | cons location locations ih =>
    intro d hd
    obtain ⟨s, hs, -⟩ := hd.store_of_held hid
    obtain ⟨r, hr⟩ := hd.entered.route_of_store hs
    have hadd := addRouteNode_fares hd (tour?_of_route hr) (hclients location List.mem_cons_self)
    unfold addVisits
    refine ((addRouteNode_ends hd id location).and hadd).bind fun m d₁ hadded => ?_
    obtain ⟨⟨hd₁, -, hholder, -⟩, hgrows⟩ := hadded
    obtain ⟨d₂, hrun₂, hd₂, hdropped⟩ := releaseNode_coherent hd₁ (m := m) List.mem_cons_self
    rw [Handles.withoutNode_withNode] at hd₂
    have hgrows₂ : Grows d d₂ := by
      unfold Grows
      rw [(hdropped id hholder hid).layout]
      exact hgrows
    rw [bind_ok hrun₂]
    refine (ih (fun x hx => hclients x (List.mem_cons_of_mem _ hx)) hd₂).mono (fun _ d' h' => ?_) fun _ h' => h'
    exact IsTrans.trans _ _ _ hgrows₂ h'

theorem addTours_ends {tours : List Tour} (hpossible : ∀ t ∈ tours, t.Possible p) :
    ∀ {i : Nat} {h : Handles} {d : Dispatch}, Coherent p h d →
      Ends (fun _ d' => Grows d d') (Strained p) (addTours p (tours.zipIdx i) d) := by
  induction tours with
  | nil => exact fun {_ _ d} _ => .ok (refl d)
  | cons t tours ih =>
    intro i h d hd
    obtain ⟨⟨v, hv⟩, hclients⟩ := hpossible t List.mem_cons_self
    rw [List.zipIdx_cons]
    unfold addTours
    refine ((addRoute_keeps p t.vehicleType i d).and (addRoute_fares hd hv i)).bind fun id d₁ hopened => ?_
    obtain ⟨⟨hd₁, l₁, r, heq, -, hvehicle, ho⟩, h₁⟩ := hopened
    have htour₁ : d₁.layout.tour? id = some ⟨t.vehicleType, []⟩ := by
      rw [heq]
      exact (ho.tour? hd.seated id).trans (by rw [if_pos rfl, hvehicle])
    refine ((addVisits_ends List.mem_cons_self hclients hd₁).and
      (addVisits_fares List.mem_cons_self hclients hd₁ htour₁)).bind fun _ d₂ hvisited => ?_
    obtain ⟨⟨hd₂, -⟩, h₂⟩ := hvisited
    refine (ih (fun t' ht' => hpossible t' (List.mem_cons_of_mem _ ht')) hd₂).bind fun ids d' h' => .ok ?_
    exact IsTrans.trans _ _ _ (IsTrans.trans _ _ _ h₁ h₂) h'

theorem load_ends (hd : Coherent p h d) (plan : Plan) :
    Ends (fun _ d' => Grows d d') (Strained p) (load p plan d) := by
  cases hplan : plan.check p with
  | error flaw =>
    rw [load_refused hplan]
    exact .fault (by simp)
  | ok _ =>
    unfold load
    rw [hplan]
    exact addTours_ends (Plan.check_eq_ok_iff.mp hplan).possible hd

/-- A plan that is accepted is loaded, unless the totals of a route overflow or a slot is missing. -/
theorem load_adds (hd : Coherent p h d) {plan : Plan} (hplan : plan.check p = .ok ()) :
    FaresUnless (Stops (Layout.Strained p)) (fun ids d' => Adds p h ids plan.routes 0 d d') (load p plan d) := by
  refine ((load_ends hd plan).faresUnless (load_fares hd hplan)).mono (fun fault t hlimit => ?_) fun _ _ hadds => hadds.1
  obtain ⟨⟨hover, -⟩ | hfull | hfull, hcause⟩ := hlimit
  · exact .overflow hover (hcause hover)
  · exact .nodes hfull
  · exact .routes hfull

end Dispatch
end Fleet
