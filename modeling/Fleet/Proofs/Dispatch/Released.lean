import Fleet.Proofs.Dispatch.Faults

/-! Refusals leave no trace, and the names of what has been released reach nothing.

    A name is a key of a slot. While the slot has not been vacated so often that its generations come round, whatever
    is in it now has another name, and every request that is given the old one is refused. -/

namespace Fleet
namespace Dispatch

open Layout DispatchM

variable {p : Problem} {h h' h₁ h₂ : Handles} {d d' d₁ d₂ : Dispatch} {id : RouteId} {m : NodeId}

/-! ### Refusals -/

/-- The request is refused, and nothing changes. -/
def Refuses {α : Type} (m : DispatchM α) (d : Dispatch) : Prop := ∃ why, m d = .error (.refused why) d

theorem Refuses.bind {α β : Type} {m : DispatchM α} {f : α → DispatchM β} (hm : Refuses m d) : Refuses (m >>= f) d := by
  obtain ⟨why, hm⟩ := hm
  exact ⟨why, bind_error hm⟩

theorem perform_refuses (hl : Seated d.layout) {move : Move} {u v : NodeId}
    (hplaced : ∀ a ra i b rb j, ¬Move.PlacedAt d.layout u v a ra i b rb j) :
    Refuses (onLayout (move.perform p u v)) d := by
  have hnone : move.sites? d.layout u v = .ok none := Move.sites?_of_not_placed hl hplaced
  exact ⟨.inapplicable move.name u v, onLayout_error (Move.perform_of_none hnone)⟩

theorem perform_traceless (hd : Coherent p h d) {move : Move} {u v : NodeId} {fault : Fault}
    (hrun : onLayout (move.perform p u v) d = .error fault d') (hfault : fault ≠ .overflow) : d' = d := by
  obtain ⟨hperform, hbooks⟩ := onLayout_eq_error hrun
  rw [Move.perform_eq_error hd.seated hd.sited hperform hfault] at hbooks
  exact hbooks

/-! ### Names that reach nothing -/

/-- Whatever is asked of a route is refused. -/
structure IgnoresRoute (p : Problem) (d : Dispatch) (id : RouteId) : Prop where
  route : d.route id = .error (.refused (.routeReleased id))
  owned : d.owned id = .error (.refused (.routeReleased id))
  scan : d.scan id = .error (.refused (.routeReleased id))
  isReconciled : d.isReconciled id = .error (.refused (.routeReleased id))
  append : ∀ node, Refuses (Dispatch.append p id node) d
  insert : ∀ position node, Refuses (Dispatch.insert p id position node) d
  remove : ∀ position, Refuses (Dispatch.remove p id position) d
  nodeAt : ∀ position, Refuses (Dispatch.nodeAt id position) d
  reconcile : ∀ other, Refuses (Dispatch.reconcile id other) d ∧ Refuses (Dispatch.reconcile other id) d

/-- Whatever is asked of a node is refused, and neither does it have an owner nor does anything hold it. -/
structure IgnoresNode (p : Problem) (d : Dispatch) (m : NodeId) : Prop where
  owner : d.owner? m = none
  holder : d.holder? m = none
  append : ∀ route, Refuses (Dispatch.append p route m) d
  insert : ∀ route position, Refuses (Dispatch.insert p route position m) d
  perform : ∀ (move : Move) other,
    Refuses (onLayout (move.perform p m other)) d ∧ Refuses (onLayout (move.perform p other m)) d

theorem put_refuses_route (hr : d.layout.route? id = none) (spot : Spot) (node : NodeId) :
    Refuses (put p id spot node) d := by
  refine ⟨.routeReleased id, ?_⟩
  unfold put
  rw [get_bind_run, route_eq_refused hr]
  rfl

theorem put_refuses_node (hm : d.layout.node? m = none) (route : RouteId) (spot : Spot) :
    Refuses (put p route spot m) d := by
  cases hr : d.layout.route? route with
  | none => exact put_refuses_route hr spot m
  | some r =>
    refine ⟨.nodeReleased m, ?_⟩
    unfold put
    rw [get_bind_run, route_eq_ok hr, ofResult_ok_bind, bind_error (requireNode_refused hm)]

theorem reconcile_refuses (hr : d.layout.route? id = none) (other : RouteId) :
    Refuses (reconcile id other) d ∧ Refuses (reconcile other id) d := by
  have hfirst : ∀ b, Refuses (reconcile id b) d := by
    intro b
    refine ⟨.routeReleased id, ?_⟩
    unfold reconcile
    rw [get_bind_run, scan_eq_refused hr]
    rfl
  refine ⟨hfirst other, ?_⟩
  by_cases heq : other = id
  · rw [heq]
    exact hfirst id
  · cases hother : d.layout.route? other with
    | none =>
      refine ⟨.routeReleased other, ?_⟩
      unfold reconcile
      rw [get_bind_run, scan_eq_refused hother]
      rfl
    | some r =>
      refine ⟨.routeReleased id, ?_⟩
      unfold reconcile
      rw [get_bind_run, scan_eq_ok hother, ofResult_ok_bind, if_neg heq, get_bind_run, scan_eq_refused hr]
      rfl

theorem ignoresRoute (hd : Entered d) (hr : d.layout.route? id = none) : IgnoresRoute p d id where
  route := route_eq_refused hr
  owned := by
    have hstore : d.stores.find? id = none := by
      rw [← Option.not_isSome_iff_eq_none, hd.store, hr]
      simp
    unfold owned
    rw [hstore]
  scan := scan_eq_refused hr
  isReconciled := by
    unfold isReconciled
    rw [scan_eq_refused hr]
    rfl
  append node := put_refuses_route hr .last node
  insert position node := put_refuses_route hr (.position position) node
  remove position := by
    have hclient : ∀ r, d.layout.route? id = some r → r.client? position = none := by
      intro r hr'
      rw [hr] at hr'
      cases hr'
    obtain ⟨why, hrefused⟩ := removeAt_refused hclient
    exact Refuses.bind ⟨why, onLayout_error (bind_error hrefused)⟩
  nodeAt position := by
    refine ⟨.routeReleased id, ?_⟩
    unfold nodeAt
    rw [get_bind_run, route_eq_refused hr]
    rfl
  reconcile := reconcile_refuses hr

theorem ignoresNode (hd : Coherent p h d) (hm : d.layout.node? m = none) : IgnoresNode p d m := by
  have hdead : ∀ {a : RouteId} {r : Route} {i : Nat}, d.layout.route? a = some r → r.visits[i]? = some m → False := by
    intro a r i hr hi
    have halive := hd.seated.isSome_of_visit hr (List.mem_of_getElem? hi)
    rw [hm] at halive
    cases halive
  have howner : d.owner? m = none := by
    refine Option.eq_none_iff_forall_ne_some.mpr fun o ho => ?_
    obtain ⟨n, hn⟩ := hd.entered.live_of_owner ho
    rw [hm] at hn
    cases hn
  refine ⟨howner, ?_, fun route => put_refuses_node hm route .last, fun route position =>
    put_refuses_node hm route (.position position), fun move other => ⟨?_, ?_⟩⟩
  · unfold holder?
    rw [howner, hm]
    rfl
  · exact perform_refuses hd.seated fun _ _ _ _ _ _ hplaced => hdead hplaced.left hplaced.visitU
  · exact perform_refuses hd.seated fun _ _ _ _ _ _ hplaced => hdead hplaced.right hplaced.visitV

/-! ### How often slots are vacated along runs -/

/-- How often each slot of the nodes and each one of the routes has been vacated. -/
structure Vacancies where
  nodes : Nat → Nat
  routes : Nat → Nat

namespace Vacancies

def zero : Vacancies := ⟨fun _ => 0, fun _ => 0⟩

/-- What is vacated from one layout to the next is counted as well. -/
def count (c : Vacancies) (l l' : Layout) : Vacancies :=
  ⟨fun i => c.nodes i + Pool.vacations l.nodes l'.nodes i, fun i => c.routes i + Pool.vacations l.routes l'.routes i⟩

end Vacancies

/-- A clean run leads from one state to another one, and vacates slots on the way as often as is counted. -/
inductive Leads (p : Problem) (h : Handles) (d : Dispatch) : Handles → Dispatch → Vacancies → Prop
  | here : Leads p h d h d .zero
  | done {h₁ h₂ : Handles} {d₁ d₂ : Dispatch} {c : Vacancies} (request : Request) (run : Leads p h d h₁ d₁ c)
      (permitted : request.Permitted p h₁) (hrun : request.carryOut p h₁ d₁ = .ok h₂ d₂) :
      Leads p h d h₂ d₂ (c.count d₁.layout d₂.layout)
  | failed {h₁ : Handles} {d₁ d₂ : Dispatch} {c : Vacancies} {fault : Fault} (request : Request)
      (run : Leads p h d h₁ d₁ c) (permitted : request.Permitted p h₁)
      (hrun : request.carryOut p h₁ d₁ = .error fault d₂) (hfault : ¬fault.IsLimit) :
      Leads p h d h₁ d₂ (c.count d₁.layout d₂.layout)

theorem Leads.reachable {c : Vacancies} (hleads : Leads p h d h' d' c) (hr : Reachable p h d) : Reachable p h' d' := by
  induction hleads with
  | here => exact hr
  | done request _ permitted hrun ih => exact .done request ih permitted hrun
  | failed request _ permitted hrun hfault ih => exact .failed request ih permitted hrun hfault

/-- No request both takes and vacates slots, so none is vacated twice by it. -/
theorem Steps.pools (hsteps : Steps d d') (hl : Seated d.layout) :
    (Pool.Sheds d.layout.nodes d'.layout.nodes ∨ Pool.Fills d.layout.nodes d'.layout.nodes) ∧
      (Pool.Sheds d.layout.routes d'.layout.routes ∨ Pool.Fills d.layout.routes d'.layout.routes) := by
  rcases hsteps with hsheds | hgrows
  · exact ⟨Or.inl hsheds.nodes, Or.inl hsheds.routes⟩
  · exact ⟨Or.inr (Layout.Grows.nodes hgrows hl.nodes).2, Or.inr (Layout.Grows.routes hgrows hl.routes).2⟩

theorem steps_of_ok (hd : Coherent p h d) {request : Request} (hpermitted : request.Permitted p h)
    (hrun : request.carryOut p h d = .ok h' d') : Steps d d' := by
  have hends := carryOut_ends hd hpermitted
  rw [hrun] at hends
  cases hends with
  | ok hsteps => exact hsteps

/-- Slots age along a run by as many vacations as are counted. -/
theorem Leads.aged {c : Vacancies} (hleads : Leads p h d h' d' c) (hr : Reachable p h d) {i n : Nat} {g : UInt32} :
    (d.layout.nodes.Aged i g n → d'.layout.nodes.Aged i g (n + c.nodes i)) ∧
      (d.layout.routes.Aged i g n → d'.layout.routes.Aged i g (n + c.routes i)) := by
  induction hleads with
  | here => exact ⟨id, id⟩
  | done request hleads permitted hrun ih =>
    have hd := (hleads.reachable hr).coherent
    obtain ⟨hnodes, hroutes⟩ := (steps_of_ok hd permitted hrun).pools hd.seated
    exact ⟨fun haged => Nat.add_assoc n _ _ ▸ (ih.1 haged).step hnodes,
      fun haged => Nat.add_assoc n _ _ ▸ (ih.2 haged).step hroutes⟩
  | failed request hleads permitted hrun hfault ih =>
    have hd := (hleads.reachable hr).coherent
    rw [carryOut_traceless hd permitted hrun hfault]
    exact ⟨fun haged => Nat.add_assoc n _ _ ▸ (ih.1 haged).step (Or.inl (.refl _)),
      fun haged => Nat.add_assoc n _ _ ▸ (ih.2 haged).step (Or.inl (.refl _))⟩

/-! ### What has been released -/

theorem route_stays_released {c₁ c₂ : Vacancies} (hr : Reachable p h d) (hfirst : Leads p h d h₁ d₁ c₁)
    (hthen : Leads p h₁ d₁ h₂ d₂ c₂) (halive : (d.layout.route? id).isSome) (hdead : d₁.layout.route? id = none)
    (hcount : c₁.routes id.key.index + c₂.routes id.key.index < 2 ^ 32) : d₂.layout.route? id = none := by
  have h₁ := (hfirst.aged hr).2 (Pool.Aged.start halive)
  have h₂ := (hthen.aged (hfirst.reachable hr)).2 h₁
  exact h₁.stays_none hdead h₂ (by omega)

theorem node_stays_released {c₁ c₂ : Vacancies} (hr : Reachable p h d) (hfirst : Leads p h d h₁ d₁ c₁)
    (hthen : Leads p h₁ d₁ h₂ d₂ c₂) (halive : (d.layout.node? m).isSome) (hdead : d₁.layout.node? m = none)
    (hcount : c₁.nodes m.key.index + c₂.nodes m.key.index < 2 ^ 32) : d₂.layout.node? m = none := by
  have h₁ := (hfirst.aged hr).1 (Pool.Aged.start halive)
  have h₂ := (hthen.aged (hfirst.reachable hr)).1 h₁
  exact h₁.stays_none hdead h₂ (by omega)

/-- Whatever fails in a clean run leaves the state as it was, unless a limit of the machine is met. What was there in one state and was gone in a later one is
    ignored from then on, until its slot has been vacated `2 ^ 32` times. -/
theorem released_of_leads {c₁ c₂ : Vacancies} (hr : Reachable p h d) (hfirst : Leads p h d h₁ d₁ c₁)
    (hthen : Leads p h₁ d₁ h₂ d₂ c₂) :
    (∀ (request : Request) fault d', request.Permitted p h₂ → request.carryOut p h₂ d₂ = .error fault d' →
      ¬fault.IsLimit → d' = d₂) ∧
    (∀ (move : Move) u v fault d', onLayout (move.perform p u v) d₂ = .error fault d' → fault ≠ .overflow → d' = d₂) ∧
    (∀ id : RouteId, (d.layout.route? id).isSome → d₁.layout.route? id = none →
      c₁.routes id.key.index + c₂.routes id.key.index < 2 ^ 32 → IgnoresRoute p d₂ id) ∧
    ∀ m : NodeId, (d.layout.node? m).isSome → d₁.layout.node? m = none →
      c₁.nodes m.key.index + c₂.nodes m.key.index < 2 ^ 32 → IgnoresNode p d₂ m := by
  have hd := (hthen.reachable (hfirst.reachable hr)).coherent
  refine ⟨fun request fault d' hpermitted hrun hfault => carryOut_traceless hd hpermitted hrun hfault,
    fun move u v fault d' hrun hfault => perform_traceless hd hrun hfault, fun id halive hdead hcount => ?_,
    fun m halive hdead hcount => ?_⟩
  · exact ignoresRoute hd.entered (route_stays_released hr hfirst hthen halive hdead hcount)
  · exact ignoresNode hd (node_stays_released hr hfirst hthen halive hdead hcount)

namespace Sample

/-- The first route has gone with its client and its depots. -/
def freed : Dispatch := after (releaseNode ⟨⟨2, 0⟩⟩ lent)

/-- A new route has taken the slots. -/
def reused : Dispatch := after (addRoute problem 0 7 freed)

def vacancies : Vacancies := (Vacancies.zero.count dispatch.layout lent.layout).count lent.layout freed.layout

theorem leads_freed : Leads problem handles dispatch { routes := [⟨⟨1, 0⟩⟩] } freed vacancies := by
  have hnode : releaseNode ⟨⟨2, 0⟩⟩ lent = .ok () freed := eq_ok (by decide +kernel)
  have hlent : Leads problem handles dispatch (handles.withoutRoute ⟨⟨0, 0⟩⟩) lent
      (Vacancies.zero.count dispatch.layout lent.layout) :=
    .done (.releaseRoute ⟨⟨0, 0⟩⟩) .here List.mem_cons_self (bind_ok releaseRoute_run)
  exact .done (.releaseNode ⟨⟨2, 0⟩⟩) hlent List.mem_cons_self (bind_ok hnode)

theorem leads_reused : Leads problem { routes := [⟨⟨1, 0⟩⟩] } freed { routes := [⟨⟨0, 1⟩⟩, ⟨⟨1, 0⟩⟩] } reused
    (Vacancies.zero.count freed.layout reused.layout) := by
  have hroute : addRoute problem 0 7 freed = .ok ⟨⟨0, 1⟩⟩ reused := eq_ok (by decide +kernel)
  exact .done (.addRoute 0 7) .here trivial (bind_ok hroute)

end Sample

theorem released_in_sample :
    (Reachable Sample.problem Sample.handles Sample.dispatch ∧
      Leads Sample.problem Sample.handles Sample.dispatch { routes := [⟨⟨1, 0⟩⟩] } Sample.freed Sample.vacancies ∧
      Leads Sample.problem { routes := [⟨⟨1, 0⟩⟩] } Sample.freed { routes := [⟨⟨0, 1⟩⟩, ⟨⟨1, 0⟩⟩] } Sample.reused
        (Vacancies.zero.count Sample.freed.layout Sample.reused.layout)) ∧
    IgnoresRoute Sample.problem Sample.reused ⟨⟨0, 0⟩⟩ ∧ IgnoresNode Sample.problem Sample.reused ⟨⟨2, 0⟩⟩ := by
  obtain ⟨-, -, hroutes, hnodes⟩ := released_of_leads Sample.reachable Sample.leads_freed Sample.leads_reused
  refine ⟨⟨Sample.reachable, Sample.leads_freed, Sample.leads_reused⟩, ?_, ?_⟩
  · exact hroutes ⟨⟨0, 0⟩⟩ (by decide +kernel) (by decide +kernel) (by decide +kernel)
  · exact hnodes ⟨⟨2, 0⟩⟩ (by decide +kernel) (by decide +kernel) (by decide +kernel)

end Dispatch
end Fleet
