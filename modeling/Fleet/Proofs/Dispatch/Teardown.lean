import Fleet.Proofs.Dispatch.Handles

/-! A route that nothing keeps alive goes, with its depots and with all nodes that it owns.

    Nothing else is lost: no handle is to any of these nodes, since the route would count it. -/

namespace Fleet
namespace Dispatch

open Layout

variable {p : Problem} {handles : Handles} {idle : List RouteId} {d d' : Dispatch} {id : RouteId} {m x : NodeId}
  {s : Store} {r : Route} {nodes : List NodeId}

/-! ### The nodes of a route -/

/-- `d'` is `d` without some nodes, none of which stands in a route. -/
structure Discards (d : Dispatch) (nodes : List NodeId) (d' : Dispatch) : Prop where
  seated : Seated d'.layout
  sited : ∀ p, Sited p d.layout → Sited p d'.layout
  current : ∀ p, Current p d.layout → Current p d'.layout
  routes : d'.layout.routes = d.layout.routes
  node : ∀ x, d'.layout.node? x = if x ∈ nodes then none else d.layout.node? x
  owner : ∀ x, d'.owner? x = if x ∈ nodes then none else d.owner? x
  stores : d'.stores = d.stores
  host : d'.host = d.host
  handles : d'.handles = d.handles

theorem destroyOwned_run (hl : Seated d.layout) (ho : ∀ m ∈ nodes, d.owner? m = some (.route id)) (hnodup : nodes.Nodup)
    (hun : ∀ m ∈ nodes, Unvisited d.layout m) :
    ∃ d', destroyOwned id nodes d = .ok () d' ∧ Discards d nodes d' := by
  induction nodes generalizing d with
  | nil => exact ⟨d, rfl, hl, fun _ h => h, fun _ h => h, rfl, fun x => by simp, fun x => by simp, rfl, rfl, rfl⟩
  | cons m nodes ih =>
    obtain ⟨hm, hnodup⟩ := List.nodup_cons.mp hnodup
    have hmun := hun m List.mem_cons_self
    let d₁ : Dispatch := ({ d with layout := d.layout.withoutNode m } : Dispatch).withoutOwner m
    have howner₁ : ∀ x, d₁.owner? x = if x = m then none else d.owner? x := fun x => owner?_withoutOwner
    obtain ⟨d', hrun, hd'⟩ := ih (d := d₁) (hl.withoutNode hmun)
      (fun x hx => by
        have hne : x ≠ m := fun heq => hm (heq ▸ hx)
        rw [howner₁, if_neg hne]
        exact ho x (List.mem_cons_of_mem _ hx))
      hnodup (fun x hx => hun x (List.mem_cons_of_mem _ hx))
    refine ⟨d', ?_, hd'.seated, fun p h => hd'.sited p (h.withoutNode hmun),
      fun p h => hd'.current p (CurrentBut.withoutNode h hmun), hd'.routes, fun x => ?_, fun x => ?_, hd'.stores,
      hd'.host, hd'.handles⟩
    · unfold destroyOwned
      rw [bind_ok (strike_run (ho m List.mem_cons_self)), if_pos rfl]
      exact hrun
    · rw [hd'.node]
      show (if x ∈ nodes then none else (d.layout.withoutNode m).node? x) = _
      rw [node?_withoutNode]
      by_cases hx : x = m <;> by_cases hxs : x ∈ nodes <;> simp [hx, hxs]
    · rw [hd'.owner, howner₁]
      by_cases hx : x = m <;> by_cases hxs : x ∈ nodes <;> simp [hx, hxs]

/-! ### The route itself -/

/-- `d'` is `d` without a route, which owned the nodes of its store `s`. -/
structure Dissolves (d : Dispatch) (id : RouteId) (r : Route) (s : Store) (d' : Dispatch) : Prop where
  seated : Seated d'.layout
  sited : ∀ p, Sited p d.layout → Sited p d'.layout
  current : ∀ p, Current p d.layout → Current p d'.layout
  route : ∀ x, d'.layout.route? x = if x = id then none else d.layout.route? x
  node : ∀ x, (d'.layout.node? x).isSome =
    if x ∈ s.nodes ∨ x = r.start ∨ x = r.finish then false else (d.layout.node? x).isSome
  owner : ∀ x, d'.owner? x = if x ∈ s.nodes then none else d.owner? x
  stores : d'.stores = d.stores.erase id
  host : d'.host = d.host
  handles : d'.handles = d.handles

theorem dissolve_run (h : Entered d) (hl : Seated d.layout) (hrec : Reconciled d) (hs : d.stores.find? id = some s)
    (hr : d.layout.route? id = some r) : ∃ d', dissolve id d = .ok () d' ∧ Dissolves d id r s d' := by
  obtain ⟨l₁, hrun₁, h₁⟩ := clear_run hl hr
  let l₂ := l₁.withoutRoute id { r with clients := [] }
  have hl₂ : Seated l₂ := h₁.seated.withoutRoute h₁.route_self rfl
  let d₂ : Dispatch := { d with layout := l₂, stores := d.stores.erase id }
  have hun : ∀ m ∈ s.nodes, Unvisited l₂ m := fun m hm y t ht hmem => by
    rw [route?_withoutRoute] at ht
    split at ht
    · cases ht
    · rename_i hy
      rw [h₁.route_of_ne hy] at ht
      have hclient : m ∈ r.clients := (hrec hr).mpr ((h.owned hs).mp hm)
      exact hy (hl.route_unique hr ht (Route.mem_visits_of_client hclient) hmem)
  obtain ⟨d', hrun, hd'⟩ := destroyOwned_run (d := d₂) hl₂ (fun m hm => (h.owned hs).mp hm) (h.nodup hs) hun
  refine ⟨d', ?_, hd'.seated, fun p hp => ?_, fun p hp => ?_, fun x => ?_, fun x => ?_, hd'.owner, hd'.stores,
    hd'.host, hd'.handles⟩
  · unfold dissolve
    rw [bind_ok (store_run hs), modify_bind_run, get_bind_run]
    simp only [hr]
    rw [bind_ok (onLayout_ok (d := { d with stores := d.stores.erase id }) hrun₁)]
    exact hrun
  · exact hd'.sited p (Sited.withoutRoute h₁.seated h₁.route_self ((h₁.keepsRuns hr (.of_clients r [])).sited hp))
  · exact hd'.current p (CurrentBut.withoutRoute h₁.seated h₁.route_self (h₁.currentBut hp))
  · rw [Layout.route?, hd'.routes]
    refine route?_withoutRoute.trans ?_
    split
    · rfl
    · rename_i hx
      exact h₁.route_of_ne hx
  · rw [hd'.node]
    by_cases hxs : x ∈ s.nodes
    · rw [if_pos hxs, if_pos (Or.inl hxs)]
      rfl
    · rw [if_neg hxs]
      refine (congrArg Option.isSome node?_withoutRoute).trans ?_
      by_cases hx : x = r.start ∨ x = r.finish
      · rw [if_pos hx, if_pos (Or.inr hx)]
        rfl
      · rw [if_neg hx, if_neg (not_or.mpr ⟨hxs, hx⟩)]
        exact h₁.isSome x

namespace Dissolves

theorem find? (h : Dissolves d id r s d') (y : RouteId) :
    d'.stores.find? y = if y = id then none else d.stores.find? y := by
  rw [h.stores, Table.find?_erase]

theorem handleCount (h : Dissolves d id r s d') (x : NodeId) : d'.handleCount x = d.handleCount x :=
  congrFun (handleCount_congr h.handles) x

theorem depotOf (h : Dissolves d id r s d') {y : RouteId} : DepotOf d'.layout y x ↔ y ≠ id ∧ DepotOf d.layout y x := by
  unfold DepotOf
  rw [h.route]
  by_cases hy : y = id <;> simp [hy]

section
variable (h : Entered d) (hl : Seated d.layout) (hs : d.stores.find? id = some s) (hr : d.layout.route? id = some r)
  (hd : Dissolves d id r s d')

include h hs hd in
theorem owner_iff {y : RouteId} : d'.owner? x = some (.route y) ↔ y ≠ id ∧ d.owner? x = some (.route y) := by
  rw [hd.owner]
  by_cases hx : x ∈ s.nodes
  · have hown := (h.owned hs).mp hx
    rw [if_pos hx, hown]
    simp [eq_comm]
  · rw [if_neg hx]
    refine ⟨fun ho => ⟨fun heq => hx ((h.owned hs).mpr (heq ▸ ho)), ho⟩, And.right⟩

include hl hr hd in
theorem isDepot : IsDepot d'.layout x ↔ IsDepot d.layout x ∧ x ≠ r.start ∧ x ≠ r.finish := by
  constructor
  · rintro ⟨y, hy⟩
    obtain ⟨hne, t, ht, hx⟩ := hd.depotOf.mp hy
    refine ⟨⟨y, t, ht, hx⟩, ne_depot_of_other hl hr hne ht ?_⟩
    rcases hx with rfl | rfl <;> simp
  · rintro ⟨⟨y, t, ht, hx⟩, hstart, hfinish⟩
    have hne : y ≠ id := fun heq => by
      rw [heq, hr] at ht
      cases ht
      exact hx.elim hstart hfinish
    exact ⟨y, hd.depotOf.mpr ⟨hne, t, ht, hx⟩⟩

include h hl hs hr hd in
theorem entered : Entered d' where
  store y := by
    rw [hd.find?, hd.route]
    split
    · rfl
    · exact h.store y
  nodup {y t} ht := by
    rw [hd.find?] at ht
    split at ht
    · cases ht
    · exact h.nodup ht
  owned {y t x} ht := by
    rw [hd.find?] at ht
    split at ht
    · cases ht
    · rename_i hy
      rw [owner_iff h hs hd, h.owned ht, and_iff_right hy]
  owner {y x} hx := by
    obtain ⟨hy, hx⟩ := (owner_iff h hs hd).mp hx
    rw [hd.find?, if_neg hy]
    exact h.owner hx
  host x := by
    rw [hd.host, h.host, hd.owner]
    split
    · rename_i hx
      rw [(h.owned hs).mp hx]
      simp
    · rfl
  live x := by
    rw [hd.node, hd.owner, isDepot hl hr hd]
    by_cases hx : x ∈ s.nodes
    · have hdepot : ¬IsDepot d.layout x := h.not_isDepot ((h.owned hs).mp hx)
      simp [hx, hdepot]
    · by_cases hdepot : x = r.start ∨ x = r.finish
      · have hnone : d.owner? x = none := h.depot ⟨id, r, hr, hdepot⟩
        rcases hdepot with rfl | rfl <;> simp [hx, hnone]
      · rw [if_neg (not_or.mpr ⟨hx, hdepot⟩), if_neg hx, h.live]
        rw [not_or] at hdepot
        simp [hdepot]
  depot {x} hx := by
    rw [hd.owner]
    split
    · rfl
    · exact h.depot ((isDepot hl hr hd).mp hx).1

include h hl hs hr in
/-- The nodes that go with a route are those that it holds. -/
theorem held_iff : (x ∈ s.nodes ∨ x = r.start ∨ x = r.finish) ↔ d.holder? x = some id := by
  rw [h.holder?_eq_some_iff hl, h.owned hs]
  exact or_congr Iff.rfl ⟨fun hx => ⟨r, hr, hx⟩, fun ⟨r', hr', hx⟩ => by
    rw [hr] at hr'
    cases hr'
    exact hx⟩

include h hl hs hr hd in
theorem isSome_node : (d'.layout.node? x).isSome ↔ (d.layout.node? x).isSome ∧ d.holder? x ≠ some id := by
  rw [hd.node, Ne, ← held_iff h hl hs hr]
  split
  · rename_i hx
    simp [hx]
  · rename_i hx
    simp [hx]

include h hl hs hr hd in
/-- Nodes that another route holds, or none, keep their holders. -/
theorem holder?_of_ne (hx : d.holder? x ≠ some id) : d'.holder? x = d.holder? x := by
  rw [Ne, ← held_iff h hl hs hr, not_or] at hx
  refine h.holder?_congr hl (hd.entered h hl hs hr) hd.seated ?_ fun y => hd.depotOf.trans (and_iff_right_of_imp ?_)
  · rw [hd.owner, if_neg hx.1]
  · rintro ⟨r', hr', hdepot⟩ rfl
    rw [hr] at hr'
    cases hr'
    exact hx.2 hdepot

end

section
variable (h : CoherentBut p handles (id :: idle) [] d) (hs : d.stores.find? id = some s)
  (hr : d.layout.route? id = some r) (hidle : s.isIdle = true)

include h hs hidle in
/-- No node that an idle route holds has a handle. -/
theorem unheld (hx : d.holder? x = some id) : d.handleCount x = 0 := by
  simp only [Store.isIdle, Bool.and_eq_true, decide_eq_true_eq] at hidle
  have := h.counted.handleCount_le hs hx
  omega

include h hs hidle in
/-- A node that has a handle is not held by an idle route. -/
theorem free (hx : d.handleCount x ≠ 0) : d.holder? x ≠ some id := fun hheld => hx (unheld h hs hidle hheld)

include h hs hr hidle in
theorem counted (hd : Dissolves d id r s d') : Counted d' where
  handle {x k} hk := by
    rw [hd.handles] at hk
    obtain ⟨hpos, hlive⟩ := h.counted.handle hk
    have hfree := free h hs hidle (show d.handleCount x ≠ 0 by rw [handleCount_of_find? hk]; omega)
    exact ⟨hpos, (isSome_node h.entered h.seated hs hr hd).mpr ⟨hlive, hfree⟩⟩
  counted {y t} ht := by
    rw [hd.find?] at ht
    split at ht
    · cases ht
    · rw [countHandles_congr hd.handleCount fun x hx =>
        holder?_of_ne h.entered h.seated hs hr hd (free h hs hidle hx)]
      exact h.counted.counted ht

include h hs hidle in
theorem held (hd : Dissolves d id r s d') : Held handles d' where
  routes y := by
    rw [← h.held.routes]
    unfold routeHandles
    rw [hd.find?]
    split
    · rename_i hy
      simp only [Store.isIdle, Bool.and_eq_true, decide_eq_true_eq] at hidle
      rw [hy, hs]
      exact hidle.1.symm
    · rfl
  nodes x := by rw [hd.handleCount, h.held.nodes]

include h hs hr hidle in
/-- What is left when an idle route has gone is in order. -/
theorem coherent (hd : Dissolves d id r s d') : CoherentBut p handles idle [] d' where
  seated := hd.seated
  sited := hd.sited p h.sited
  current := hd.current p h.current
  entered := hd.entered h.entered h.seated hs hr
  reconciled {y t x} ht := by
    rw [hd.route] at ht
    split at ht
    · cases ht
    · rename_i hy
      rw [hd.owner_iff h.entered hs, and_iff_right hy]
      exact h.reconciled ht
  counted := counted h hs hr hidle hd
  kept {x} hx _ := by
    rw [hd.handleCount]
    rw [hd.owner] at hx
    split at hx
    · cases hx
    · exact h.kept hx List.not_mem_nil
  held := held h hs hidle hd
  busy {y t} ht hy := by
    rw [hd.find?] at ht
    split at ht
    · cases ht
    · rename_i hne
      exact h.busy ht (by simp [hne, hy])

end

end Dissolves

/-- Routes may have gone; those that are left are as they were. -/
def Prunes (d d' : Dispatch) : Prop := ∀ id r, d'.layout.route? id = some r → d.layout.route? id = some r

theorem Dissolves.prunes (h : Dissolves d id r s d') : Prunes d d' := by
  intro x t ht
  rw [h.route] at ht
  split at ht
  · cases ht
  · exact ht

/-- A route is left as it is, or it goes since nothing keeps it alive. -/
inductive Retires (d : Dispatch) (id : RouteId) : Dispatch → Prop
  | stays : Retires d id d
  | goes {s : Store} {r : Route} {d' : Dispatch} (hs : d.stores.find? id = some s) (hr : d.layout.route? id = some r)
      (hidle : s.isIdle = true) (h : Dissolves d id r s d') : Retires d id d'

theorem Retires.prunes (h : Retires d id d') : Prunes d d' := by
  cases h with
  | stays => exact fun _ _ ht => ht
  | goes hs hr hidle h => exact h.prunes

theorem routeHandles_of_isIdle (hs : d.stores.find? id = some s) (hidle : s.isIdle = true) : d.routeHandles id = 0 := by
  simp only [Store.isIdle, Bool.and_eq_true, decide_eq_true_eq] at hidle
  rw [routeHandles_of_store hs, hidle.1]

/-- A route that has a handle stays. -/
theorem Retires.eq_of_held (h : Retires d id d') (hpos : 0 < d.routeHandles id) : d' = d := by
  cases h with
  | stays => rfl
  | goes hs _ hidle => exact absurd (routeHandles_of_isIdle hs hidle) (Nat.pos_iff_ne_zero.mp hpos)

/-- Destroying a route that nothing keeps alive leaves everything in order, and does not happen to others. -/
theorem retire_run (h : CoherentBut p handles (id :: idle) [] d) :
    ∃ d', retire id d = .ok () d' ∧ CoherentBut p handles idle [] d' ∧ Retires d id d' := by
  unfold retire
  rw [get_bind_run]
  cases hs : d.stores.find? id with
  | none =>
    refine ⟨d, rfl, ⟨h.seated, h.sited, h.current, h.entered, h.reconciled, h.counted, h.kept, h.held, ?_⟩, .stays⟩
    intro y t ht hy
    refine h.busy ht fun hmem => ?_
    rcases List.mem_cons.mp hmem with rfl | hmem
    · rw [hs] at ht
      cases ht
    · exact hy hmem
  | some s =>
    obtain ⟨r, hr⟩ := h.entered.route_of_store hs
    simp only
    by_cases hidle : s.isIdle = true
    · obtain ⟨d', hrun, hd'⟩ := dissolve_run h.entered h.seated h.reconciled hs hr
      exact ⟨d', by rw [if_pos hidle, hrun], hd'.coherent h hs hr hidle, .goes hs hr hidle hd'⟩
    · refine ⟨d, by rw [if_neg hidle]; rfl, ⟨h.seated, h.sited, h.current, h.entered, h.reconciled, h.counted, h.kept,
        h.held, ?_⟩, .stays⟩
      intro y t ht hy
      by_cases hyid : y = id
      · rw [hyid, hs] at ht
        cases ht
        simpa using hidle
      · exact h.busy ht (by simp [hyid, hy])

end Dispatch
end Fleet
