import Fleet.Proofs.Dispatch.Deferred
import Fleet.Proofs.Dispatch.Itineraries

/-! What reconciling two routes does, whatever has been changed by hand before.

    After a clean run, moves are made and nodes put into routes and taken out of them, and the books hear nothing of it.
    A node that one of two routes owns may then stand in the other one, in a third route or nowhere, and a route may
    visit nodes of a third route or of the host. Reconciling the two concerns only what one of them owns and the other
    visits (`Astray`); all that belongs to such a node goes with it, and nothing else changes. -/

namespace Fleet
namespace Dispatch

open Layout DispatchM

variable {p : Problem} {h : Handles} {d d' : Dispatch} {l : Layout} {a b id : RouteId} {m : NodeId} {ra rb : Route}
  {toB toA : List NodeId}

/-- The first route owns the node, but the second one visits it. -/
def Astray (d : Dispatch) (owner visitor : RouteId) (m : NodeId) : Prop :=
  d.owner? m = some (.route owner) ∧ ∃ r, d.layout.route? visitor = some r ∧ m ∈ r.visits

/-- The node is in the store of the route. -/
def InStore (d : Dispatch) (id : RouteId) (m : NodeId) : Prop := ∃ s, d.stores.find? id = some s ∧ m ∈ s.nodes

/-- `moved` has been handed over between the two routes, for a host with the handles `h`. -/
structure HandsOver (h : Handles) (a b : RouteId) (moved : List NodeId) (d d' : Dispatch) : Prop where
  layout : d'.layout = d.layout
  toVisitor : ∀ m, Astray d a b m → d'.owner? m = some (.route b)
  fromVisitor : ∀ m, Astray d b a m → d'.owner? m = some (.route a)
  others : ∀ m, ¬Astray d a b m → ¬Astray d b a m → d'.owner? m = d.owner? m ∧
    d'.host.contains m = d.host.contains m ∧ ∀ id, InStore d' id m ↔ InStore d id m
  nodup : moved.Nodup
  mem_moved : ∀ m, m ∈ moved ↔ d'.owner? m ≠ d.owner? m
  handles : ∀ m, d'.handleCount m = d.handleCount m
  /-- Every store has what its route owns, and counts the handles to the route and to what it holds now. -/
  stores : ∀ id, (d.layout.route? id).isSome → ∃ s, d'.stores.find? id = some s ∧ s.nodes.Nodup ∧
    (∀ m, m ∈ s.nodes ↔ d'.owner? m = some (.route id)) ∧ s.routeHandles = h.routes.count id ∧
    s.nodeHandles = h.nodes.countP fun m => d'.holder? m = some id
  consistent : d'.isConsistent = true
  /-- There is nothing left to hand over. -/
  again : reconcile a b d' = .ok 0 d' ∧ reconcile b a d' = .ok 0 d'

/-! ### Owners and visits -/

/-- Depots have no owner, so what a route visits and another one owns are clients. -/
theorem Entered.astray_iff (hd : Entered d) {r : Route} (hr : d.layout.route? b = some r) :
    Astray d a b m ↔ d.owner? m = some (.route a) ∧ m ∈ r.clients := by
  refine and_congr_right fun ho => ?_
  have hdepot : m ≠ r.start ∧ m ≠ r.finish := by
    constructor
    · exact fun heq => hd.not_isDepot ho ⟨b, r, hr, .inl heq⟩
    · exact fun heq => hd.not_isDepot ho ⟨b, r, hr, .inr heq⟩
  constructor
  · rintro ⟨s, hs, hm⟩
    rw [hr] at hs
    cases hs
    rcases Route.mem_visits.mp hm with heq | hm | heq
    · exact absurd heq hdepot.1
    · exact hm
    · exact absurd heq hdepot.2
  · exact fun hm => ⟨r, hr, Route.mem_visits_of_client hm⟩

theorem Entered.inStore_iff (hd : Entered d) : InStore d id m ↔ d.owner? m = some (.route id) := by
  constructor
  · rintro ⟨s, hs, hm⟩
    exact (hd.owned hs).mp hm
  · intro ho
    obtain ⟨s, hs⟩ := Option.isSome_iff_exists.mp (hd.owner ho)
    exact ⟨s, hs, (hd.owned hs).mpr ho⟩

theorem Entered.contains_host_congr (hd : Entered d) (hd' : Entered d') (ho : d'.owner? m = d.owner? m) :
    d'.host.contains m = d.host.contains m := by
  rw [Bool.eq_iff_iff, hd'.host, hd.host, ho]

/-! ### One reconciliation -/

/-- Reconciling again does nothing: neither route owns what the other one visits. -/
theorem reconcile_of_straight (hd : Booked h [] d) (hl : Seated d.layout) (hab : a ≠ b) (ha : d.layout.route? a = some ra)
    (hb : d.layout.route? b = some rb) (hstraight : Straight a b d) : reconcile a b d = .ok 0 d := by
  obtain ⟨toB, toA, d', he, hrun⟩ := exchange_run hd hl hab ha hb
  have hB : toB = [] := List.eq_nil_iff_forall_not_mem.mpr fun m hm => by
    obtain ⟨ho, hclient⟩ := (he.mem_toB m).mp hm
    exact hstraight.2 rb m hb hclient ho
  have hA : toA = [] := List.eq_nil_iff_forall_not_mem.mpr fun m hm => by
    obtain ⟨ho, hclient⟩ := (he.mem_toA m).mp hm
    exact hstraight.1 ra m ha hclient ho
  rw [hrun, he.unchanged hB hA, hB, hA]
  rfl

section Pair

variable (he : Exchanged h a b ra rb toB toA d d') (hd : Booked h [] d) (hd' : Booked h [] d') (hl : Seated d.layout)
  (hab : a ≠ b) (ha : d.layout.route? a = some ra) (hb : d.layout.route? b = some rb)

include he hab in
/-- A node has been handed over if and only if its owner is another one now. -/
theorem Exchanged.mem_moved : m ∈ toB ++ toA ↔ d'.owner? m ≠ d.owner? m := by
  rw [List.mem_append, he.mem_toB, he.mem_toA, he.owner]
  split
  · rename_i hA
    refine iff_of_true (.inr hA) ?_
    rw [hA.1]
    simpa using hab
  · rename_i hA
    split
    · rename_i hB
      refine iff_of_true (.inl hB) ?_
      rw [hB.1]
      simpa using hab.symm
    · rename_i hB
      exact iff_of_false (not_or.mpr ⟨hB, hA⟩) fun hne => hne rfl

include he hd hd' hl hab ha hb in
theorem Exchanged.handsOver : HandsOver h a b (toB ++ toA) d d' where
  layout := he.layout
  toVisitor m hm := by
    have hB := (hd.entered.astray_iff hb).mp hm
    rw [he.owner, if_neg, if_pos hB]
    rintro ⟨ho, -⟩
    rw [hB.1] at ho
    exact hab (by simpa using ho)
  fromVisitor m hm := by
    rw [he.owner, if_pos ((hd.entered.astray_iff ha).mp hm)]
  others m hB hA := by
    have ho : d'.owner? m = d.owner? m := by
      rw [he.owner, if_neg fun h => hA ((hd.entered.astray_iff ha).mpr h),
        if_neg fun h => hB ((hd.entered.astray_iff hb).mpr h)]
    refine ⟨ho, hd.entered.contains_host_congr hd'.entered ho, fun id => ?_⟩
    rw [hd'.entered.inStore_iff, hd.entered.inStore_iff, ho]
  nodup := he.nodup_toB.append he.nodup_toA (he.disjoint hab)
  mem_moved _ := he.mem_moved hab
  handles m := by rw [hd'.held.nodes, hd.held.nodes]
  stores id hid := by
    rw [← he.layout] at hid
    obtain ⟨s, hs⟩ := Option.isSome_iff_exists.mp ((hd'.entered.store id).trans hid)
    refine ⟨s, hs, hd'.entered.nodup hs, fun m => hd'.entered.owned hs, ?_, hd'.nodeHandles_eq hs⟩
    rw [← routeHandles_of_store hs, hd'.held.routes]
  consistent := hd'.isConsistent
  again := by
    have hstraight := he.straight hl hab ha hb
    have hl' : Seated d'.layout := he.layout ▸ hl
    rw [← he.layout] at ha hb
    exact ⟨reconcile_of_straight hd' hl' hab ha hb hstraight,
      reconcile_of_straight hd' hl' hab.symm hb ha hstraight.symm⟩

end Pair

/-- After a clean run and any changes of routes by hand, two routes that the host has handles to are reconciled: exactly
    the nodes that one of them owns and the other visits are handed over, and it is told how many these are. -/
theorem reconcile_hands_over (hr : Reachable p h d) (hedited : Edited p d.layout l) (hab : a ≠ b) (ha : a ∈ h.routes)
    (hb : b ∈ h.routes) : ∃ moved d', reconcile a b { d with layout := l } = .ok moved.length d' ∧
      HandsOver h a b moved { d with layout := l } d' := by
  have hd := hr.coherent
  have hkeeps := hedited.keepsRuns hd.seated hd.sited
  have hbooked : Booked h [] { d with layout := l } := hd.booked.onLayout hd.seated hkeeps
  have hlive : ∀ {id}, id ∈ h.routes → ∃ r, l.route? id = some r := fun {id} hid => by
    obtain ⟨s, hs, -⟩ := hd.store_of_held hid
    exact hbooked.entered.route_of_store hs
  obtain ⟨ra, hra⟩ := hlive ha
  obtain ⟨rb, hrb⟩ := hlive hb
  obtain ⟨toB, toA, d', he, hd', hrun⟩ := exchange_firm hbooked hkeeps.seated hab hra hrb ⟨ha, hb⟩
  rw [← List.length_append] at hrun
  exact ⟨toB ++ toA, d', hrun, he.handsOver hbooked hd' hkeeps.seated hab hra hrb⟩

namespace Sample

/-- The client of the second route joins the first one, whose own client is then put into the second route. -/
def joined : Dispatch := after (onLayout (Edit.carryOut problem (.move .swapTails ⟨⟨2, 0⟩⟩ ⟨⟨3, 0⟩⟩)) dispatch)

def takenOut : Dispatch := after (onLayout (Edit.carryOut problem (.remove ⟨⟨0, 0⟩⟩ 1)) joined)

def crossed : Dispatch := after (onLayout (Edit.carryOut problem (.insert ⟨⟨1, 0⟩⟩ 1 ⟨⟨2, 0⟩⟩)) takenOut)

theorem edited_crossed : Edited problem dispatch.layout crossed.layout := by
  have hjoined : onLayout (Edit.carryOut problem (.move .swapTails ⟨⟨2, 0⟩⟩ ⟨⟨3, 0⟩⟩)) dispatch =
      .ok [⟨⟨0, 0⟩⟩, ⟨⟨1, 0⟩⟩] joined := eq_ok (by decide +kernel)
  have htaken : onLayout (Edit.carryOut problem (.remove ⟨⟨0, 0⟩⟩ 1)) joined = .ok [] takenOut :=
    eq_ok (by decide +kernel)
  have hcrossed : onLayout (Edit.carryOut problem (.insert ⟨⟨1, 0⟩⟩ 1 ⟨⟨2, 0⟩⟩)) takenOut = .ok [] crossed :=
    eq_ok (by decide +kernel)
  have hloose : (takenOut.layout.route? ⟨⟨1, 0⟩⟩).isSome ∧ takenOut.layout.isLoose ⟨⟨2, 0⟩⟩ = true := by decide +kernel
  have h₁ : Edited problem dispatch.layout joined.layout :=
    .done (.move .swapTails ⟨⟨2, 0⟩⟩ ⟨⟨3, 0⟩⟩) .start trivial (onLayout_eq_ok hjoined).1
  have h₂ : Edited problem dispatch.layout takenOut.layout :=
    .done (.remove ⟨⟨0, 0⟩⟩ 1) h₁ (by decide +kernel : (joined.layout.route? ⟨⟨0, 0⟩⟩).isSome) (onLayout_eq_ok htaken).1
  exact .done (.insert ⟨⟨1, 0⟩⟩ 1 ⟨⟨2, 0⟩⟩) h₂ hloose (onLayout_eq_ok hcrossed).1

/-- The books as they were, with the routes as they are then. -/
def unsettled : Dispatch := { dispatch with layout := crossed.layout }

theorem astray : Astray unsettled ⟨⟨0, 0⟩⟩ ⟨⟨1, 0⟩⟩ ⟨⟨2, 0⟩⟩ ∧ Astray unsettled ⟨⟨1, 0⟩⟩ ⟨⟨0, 0⟩⟩ ⟨⟨5, 0⟩⟩ := by
  have hleft : (unsettled.layout.route? ⟨⟨0, 0⟩⟩).map (·.visits) = some [⟨⟨0, 0⟩⟩, ⟨⟨5, 0⟩⟩, ⟨⟨1, 0⟩⟩] := by
    decide +kernel
  have hright : (unsettled.layout.route? ⟨⟨1, 0⟩⟩).map (·.visits) = some [⟨⟨3, 0⟩⟩, ⟨⟨2, 0⟩⟩, ⟨⟨4, 0⟩⟩] := by
    decide +kernel
  have howner : unsettled.owner? ⟨⟨2, 0⟩⟩ = some (.route ⟨⟨0, 0⟩⟩) ∧
      unsettled.owner? ⟨⟨5, 0⟩⟩ = some (.route ⟨⟨1, 0⟩⟩) := by
    decide +kernel
  obtain ⟨ra, hra, hvisitsA⟩ := Option.map_eq_some_iff.mp hleft
  obtain ⟨rb, hrb, hvisitsB⟩ := Option.map_eq_some_iff.mp hright
  exact ⟨⟨howner.1, rb, hrb, hvisitsB ▸ by decide⟩, howner.2, ra, hra, hvisitsA ▸ by decide⟩

end Sample

theorem hands_over_in_sample :
    (Reachable Sample.problem Sample.handles Sample.dispatch ∧
      Edited Sample.problem Sample.dispatch.layout Sample.crossed.layout ∧
      (⟨⟨0, 0⟩⟩ : RouteId) ≠ ⟨⟨1, 0⟩⟩ ∧ ⟨⟨0, 0⟩⟩ ∈ Sample.handles.routes ∧ ⟨⟨1, 0⟩⟩ ∈ Sample.handles.routes) ∧
    ∃ (moved : List NodeId) (d' : Dispatch),
      reconcile ⟨⟨0, 0⟩⟩ ⟨⟨1, 0⟩⟩ Sample.unsettled = .ok moved.length d' ∧ ⟨⟨2, 0⟩⟩ ∈ moved ∧
      d'.owner? ⟨⟨5, 0⟩⟩ = some (.route ⟨⟨0, 0⟩⟩) ∧ d'.isConsistent = true := by
  have hab : (⟨⟨0, 0⟩⟩ : RouteId) ≠ ⟨⟨1, 0⟩⟩ := by decide
  have ha : ⟨⟨0, 0⟩⟩ ∈ Sample.handles.routes := by decide
  have hb : ⟨⟨1, 0⟩⟩ ∈ Sample.handles.routes := by decide
  obtain ⟨moved, d', hrun, hover⟩ : ∃ (moved : List NodeId) (d' : Dispatch),
      reconcile ⟨⟨0, 0⟩⟩ ⟨⟨1, 0⟩⟩ Sample.unsettled = .ok moved.length d' ∧
      HandsOver Sample.handles ⟨⟨0, 0⟩⟩ ⟨⟨1, 0⟩⟩ moved Sample.unsettled d' :=
    reconcile_hands_over Sample.reachable Sample.edited_crossed hab ha hb
  obtain ⟨hto, hfrom⟩ := Sample.astray
  refine ⟨⟨Sample.reachable, Sample.edited_crossed, hab, ha, hb⟩, moved, d', hrun, ?_, hover.fromVisitor _ hfrom,
    hover.consistent⟩
  rw [hover.mem_moved, hover.toVisitor _ hto, hto.1]
  decide

end Dispatch
end Fleet
