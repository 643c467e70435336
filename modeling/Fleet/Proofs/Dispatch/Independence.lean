import Fleet.Proofs.Dispatch.Runs

/-! Moves of different routes do not concern each other.

    A move writes two routes, and the reconciliation after it writes who owns what these visit and what their stores have
    and count. Neither reads or writes anything of another route (`Trades`), so what a move does is the same before and
    after a move of two other routes, and both can be made in either order. -/

namespace Fleet

open Layout

/-! ### Layouts -/

namespace Move

variable {p : Problem} {penalties : Penalties} {l l' : Layout} {move : Move} {u v : NodeId} {a b : RouteId}
  {ra rb : Route} {i j : Nat}

theorem AppliesAt.congr (hm : AppliesAt move l u v a ra i b rb j) (ha : l'.route? a = l.route? a)
    (hb : l'.route? b = l.route? b) : AppliesAt move l' u v a ra i b rb j :=
  { hm with left := ha.trans hm.left, right := hb.trans hm.right }

/-- What a move is predicted to bring depends on its two routes and on where the nodes are. -/
theorem AppliesAt.costChange_congr (hm : AppliesAt move l u v a ra i b rb j) (hl : Seated l) (h : Reseats l l')
    (ha : l'.route? a = l.route? a) (hb : l'.route? b = l.route? b) :
    move.costChange p penalties l' u v = move.costChange p penalties l u v := by
  unfold costChange
  rw [sites?_of_appliesAt hl hm, sites?_of_appliesAt h.seated (hm.congr ha hb)]
  simp only [ok_bind, ha, hb, hm.left, hm.right, h.locations]

end Move

theorem Layout.Reseats.symm {l l' : Layout} (h : Reseats l l') (hl : Seated l) : Reseats l' l :=
  ⟨hl, h.nodeSlots.symm, h.routeSlots.symm, fun m => (h.location m).symm⟩

namespace Dispatch

open DispatchM Move

variable {p : Problem} {h : Handles} {d d' d₁ d₂ d₁₂ d₂₁ : Dispatch} {move move' : Move} {u v x y m : NodeId}
  {a b c e id : RouteId} {ra rb rc re : Route} {i j : Nat} {s : Store} {l l' : Layout}

/-- The same layout and the same books. -/
theorem eq_of_find? (hlayout : d'.layout = d.layout) (howner : ∀ m, d'.owner? m = d.owner? m)
    (hstores : ∀ id, d'.stores.find? id = d.stores.find? id) (hhost : d'.host = d.host)
    (hhandles : d'.handles = d.handles) : d' = d := by
  have howners : d'.ownership = d.ownership := congrArg Ownership.mk (Table.eq_of_find? howner)
  obtain ⟨l, o, t, host, handles⟩ := d
  obtain ⟨l', o', t', host', handles'⟩ := d'
  cases hlayout
  cases howners
  cases hhost
  cases hhandles
  have hstores : t' = t := Table.eq_of_find? hstores
  rw [hstores]

/-! ### What a reconciled move writes -/

/-- The routes `a` and `b` have become `ra` and `rb`, and what either of them owned and the other one visits now has been
    handed over. -/
structure Trades (a b : RouteId) (ra rb : Route) (d d' : Dispatch) : Prop where
  reroutes : ReroutesBoth d.layout a ra b rb d'.layout
  owner : ∀ m, d'.owner? m = if d.owner? m = some (.route b) ∧ m ∈ ra.clients then some (.route a)
    else if d.owner? m = some (.route a) ∧ m ∈ rb.clients then some (.route b) else d.owner? m
  stores : ∃ sa sb, d.stores.find? a = some sa ∧ d.stores.find? b = some sb ∧ ∀ id, d'.stores.find? id =
    (d.stores.find? id).map (traded a b (sa.nodes.filter (· ∈ rb.clients)) (sb.nodes.filter (· ∈ ra.clients))
      d.handleCount id)
  host : d'.host = d.host
  handles : d'.handles = d.handles

namespace Trades

/-! What is not of the two routes is not written, … -/

theorem owner_of_ne (h : Trades a b ra rb d d') (ha : d.owner? m ≠ some (.route a)) (hb : d.owner? m ≠ some (.route b)) :
    d'.owner? m = d.owner? m := by
  rw [h.owner, if_neg fun h => hb h.1, if_neg fun h => ha h.1]

/-- No other route comes to own a node. -/
theorem owner_ne (h : Trades a b ra rb d d') (ha : id ≠ a) (hb : id ≠ b) (ho : d.owner? m ≠ some (.route id)) :
    d'.owner? m ≠ some (.route id) := by
  rw [h.owner]
  split_ifs
  · simpa using ha.symm
  · simpa using hb.symm
  · exact ho

theorem store_of_ne (h : Trades a b ra rb d d') (ha : id ≠ a) (hb : id ≠ b) : d'.stores.find? id = d.stores.find? id := by
  obtain ⟨sa, sb, -, -, hstores⟩ := h.stores
  rw [hstores, Option.map_congr fun s _ => traded_of_ne ha hb, Option.map_id']

/-! … nor is it read. -/

theorem owner_congr (h : Trades a b ra rb d d₁) (h' : Trades a b ra rb d₂ d₂₁) (ho : d₂.owner? m = d.owner? m) :
    d₂₁.owner? m = d₁.owner? m := by
  rw [h'.owner, h.owner, ho]

theorem store_congr (h : Trades a b ra rb d d₁) (h' : Trades a b ra rb d₂ d₂₁)
    (ha : d₂.stores.find? a = d.stores.find? a) (hb : d₂.stores.find? b = d.stores.find? b)
    (hhandles : d₂.handles = d.handles) (hid : d₂.stores.find? id = d.stores.find? id) :
    d₂₁.stores.find? id = d₁.stores.find? id := by
  obtain ⟨sa, sb, hsa, hsb, hstores⟩ := h.stores
  obtain ⟨sa', sb', hsa', hsb', hstores'⟩ := h'.stores
  rw [ha, hsa] at hsa'
  rw [hb, hsb] at hsb'
  cases hsa'
  cases hsb'
  rw [hstores, hstores', hid, handleCount_congr hhandles]

end Trades

/-! ### Two pairs of routes -/

theorem apart_of_nodup (h : [a, b, c, e].Nodup) : (a ≠ c ∧ a ≠ e) ∧ b ≠ c ∧ b ≠ e := by
  simp only [List.nodup_cons, List.mem_cons, not_or] at h
  obtain ⟨⟨-, hac, hae, -⟩, ⟨hbc, hbe, -⟩, -⟩ := h
  exact ⟨⟨hac, hae⟩, hbc, hbe⟩

theorem nodup_swap (h : [a, b, c, e].Nodup) : [c, e, a, b].Nodup :=
  have hperm : ([a, b] ++ [c, e]).Perm ([c, e] ++ [a, b]) := List.perm_append_comm
  hperm.nodup_iff.mp h

section Apart

variable (h₁ : Trades a b ra rb d d₁) (h₁₂ : Trades c e rc re d₁ d₁₂) (h₂ : Trades c e rc re d d₂)
  (h₂₁ : Trades a b ra rb d₂ d₂₁) (hroutes : [a, b, c, e].Nodup)

include h₁ h₁₂ h₂ h₂₁ hroutes

/-- What `c` and `e` do not own comes to the same owner in both orders. -/
theorem Trades.owner_comm_of_ne (hc : d.owner? m ≠ some (.route c)) (he : d.owner? m ≠ some (.route e)) :
    d₂₁.owner? m = d₁₂.owner? m := by
  obtain ⟨⟨hac, hae⟩, hbc, hbe⟩ := apart_of_nodup hroutes
  rw [h₁.owner_congr h₂₁ (h₂.owner_of_ne hc he),
    h₁₂.owner_of_ne (h₁.owner_ne (Ne.symm hac) (Ne.symm hbc) hc) (h₁.owner_ne (Ne.symm hae) (Ne.symm hbe) he)]

/-- In both orders every route but `c` and `e` becomes the same, with the same store. -/
theorem Trades.route_comm_of_ne (hc : id ≠ c) (he : id ≠ e) :
    d₂₁.layout.route? id = d₁₂.layout.route? id ∧ d₂₁.stores.find? id = d₁₂.stores.find? id := by
  obtain ⟨⟨hac, hae⟩, hbc, hbe⟩ := apart_of_nodup hroutes
  constructor
  · rw [h₁₂.reroutes.route_of_ne hc he, h₂₁.reroutes.route, h₁.reroutes.route, h₂.reroutes.route_of_ne hc he]
  · rw [h₁₂.store_of_ne hc he]
    exact h₁.store_congr h₂₁ (h₂.store_of_ne hac hae) (h₂.store_of_ne hbc hbe) h₂.handles (h₂.store_of_ne hc he)

/-- In both orders all is the same in the end. -/
theorem Trades.comm (hl : Seated d.layout) : d₂₁ = d₁₂ := by
  have hroutes' := nodup_swap hroutes
  have hapart : ∀ id, (id ≠ c ∧ id ≠ e) ∨ (id ≠ a ∧ id ≠ b) := by
    obtain ⟨⟨hac, hae⟩, hbc, hbe⟩ := apart_of_nodup hroutes
    grind
  have hroute : ∀ id, d₂₁.layout.route? id = d₁₂.layout.route? id ∧ d₂₁.stores.find? id = d₁₂.stores.find? id := by
    intro id
    rcases hapart id with ⟨hc, he⟩ | ⟨ha, hb⟩
    · exact route_comm_of_ne h₁ h₁₂ h₂ h₂₁ hroutes hc he
    · exact (route_comm_of_ne h₂ h₂₁ h₁ h₁₂ hroutes' ha hb).imp Eq.symm Eq.symm
  have hreseats : Reseats d₁₂.layout d₂₁.layout :=
    ((h₁.reroutes.toReseats.trans h₁₂.reroutes.toReseats).symm hl).trans
      (h₂.reroutes.toReseats.trans h₂₁.reroutes.toReseats)
  refine eq_of_find? (hreseats.eq_of_route? h₁₂.reroutes.seated fun id => (hroute id).1) (fun m => ?_)
    (fun id => (hroute id).2) ?_ ?_
  · have hother : (d.owner? m ≠ some (.route c) ∧ d.owner? m ≠ some (.route e)) ∨
        (d.owner? m ≠ some (.route a) ∧ d.owner? m ≠ some (.route b)) := by
      rcases d.owner? m with _ | (_ | id)
      · simp
      · simp
      · simpa using hapart id
    rcases hother with ⟨hc, he⟩ | ⟨ha, hb⟩
    · exact owner_comm_of_ne h₁ h₁₂ h₂ h₂₁ hroutes hc he
    · exact (owner_comm_of_ne h₂ h₂₁ h₁ h₁₂ hroutes' ha hb).symm
  · rw [h₂₁.host, h₂.host, h₁₂.host, h₁.host]
  · rw [h₂₁.handles, h₂.handles, h₁₂.handles, h₁.handles]

end Apart

/-! ### Two moves -/

/-- A move has been made, and its routes `a` and `b` have been reconciled. -/
def Completes (p : Problem) (move : Move) (u v : NodeId) (a b : RouteId) (d d' : Dispatch) : Prop :=
  ∃ l n, move.perform p u v d.layout = .ok (a, b) l ∧ reconcile a b { d with layout := l } = .ok n d'

/-- A move that applies to two routes with handles is made and completed, unless the totals of the new tours overflow. -/
theorem Coherent.completes {totalsU totalsV : Totals} (hd : Coherent p h d) (hm : AppliesAt move d.layout u v a ra i b rb j)
    (ha : a ∈ h.routes) (hb : b ∈ h.routes)
    (hU : Totals.ofTour p ra.vehicleType.toNat (d.layout.locations (move.newRoutes ra rb i j).1) = .ok totalsU)
    (hV : Totals.ofTour p rb.vehicleType.toNat (d.layout.locations (move.newRoutes ra rb i j).2) = .ok totalsV) :
    ∃ d', Completes p move u v a b d d' ∧ Coherent p h d' ∧
      Trades a b { (move.newRoutes ra rb i j).1 with totals := totalsU }
        { (move.newRoutes ra rb i j).2 with totals := totalsV } d d' := by
  obtain ⟨l, hmade, hr⟩ := perform_run hd.seated hm hU hV
  have hperm := move.perm_newClients ra.clients rb.clients i j
  have hkeeps := (hr.reshuffles hm.ne hm.left hm.right ⟨rfl, rfl, rfl, rfl⟩ ⟨rfl, rfl, rfl, rfl⟩ hperm).toKeepsRuns
  have ha' := hr.route_left
  have hb' := hr.route_right hm.ne
  obtain ⟨toB, toA, d', he, hd', hrun⟩ :=
    exchange_firm (hd.booked.onLayout hd.seated hkeeps) hr.seated hm.ne ha' hb' ⟨ha, hb⟩
  have hlayout : d'.layout = l := he.layout
  have hreconciled : Reconciled d' :=
    (Reconciled.but_onLayout hd.reconciled hm.ne hr hm.left hm.right hperm).reconciled hm.ne hr.seated ha' hb' he.layout
      he.owner
  refine ⟨d', ⟨l, _, hmade, hrun⟩, ?_, ?_⟩
  · exact hd'.coherent (hlayout ▸ hr.seated) (hlayout ▸ hkeeps.sited hd.sited) (hlayout ▸ hr.current hd.current hU hV)
      hreconciled
  · obtain ⟨sa, hsa⟩ := hd.entered.store_of_route hm.left
    obtain ⟨sb, hsb⟩ := hd.entered.store_of_route hm.right
    refine ⟨hlayout ▸ hr, he.owner, ⟨sa, sb, hsa, hsb, ?_⟩, he.host, he.handles⟩
    rw [← he.eq_toB sa hsa, ← he.eq_toA sb hsb]
    exact he.stores

/-- A move that applies to two routes does so after other routes have traded, with the same prediction. -/
theorem Trades.completes {totalsU totalsV : Totals} (ht : Trades c e rc re d d₁) (hl : Seated d.layout)
    (hd₁ : Coherent p h d₁) (hm : AppliesAt move d.layout u v a ra i b rb j) (ha : a ∈ h.routes) (hb : b ∈ h.routes)
    (hU : Totals.ofTour p ra.vehicleType.toNat (d.layout.locations (move.newRoutes ra rb i j).1) = .ok totalsU)
    (hV : Totals.ofTour p rb.vehicleType.toNat (d.layout.locations (move.newRoutes ra rb i j).2) = .ok totalsV)
    (hroutes : [c, e, a, b].Nodup) :
    (∀ penalties, move.costChange p penalties d₁.layout u v = move.costChange p penalties d.layout u v) ∧
    ∃ d', Completes p move u v a b d₁ d' ∧ Trades a b { (move.newRoutes ra rb i j).1 with totals := totalsU }
      { (move.newRoutes ra rb i j).2 with totals := totalsV } d₁ d' := by
  obtain ⟨⟨hca, hcb⟩, hea, heb⟩ := apart_of_nodup hroutes
  have hra := ht.reroutes.route_of_ne (Ne.symm hca) (Ne.symm hea)
  have hrb := ht.reroutes.route_of_ne (Ne.symm hcb) (Ne.symm heb)
  rw [← ht.reroutes.locations] at hU hV
  obtain ⟨d', hcompletes, -, htrades⟩ := hd₁.completes (hm.congr hra hrb) ha hb hU hV
  exact ⟨fun penalties => hm.costChange_congr hl ht.reroutes.toReseats hra hrb, d', hcompletes, htrades⟩

/-- Two moves of four different routes, all of which have handles, can be made in either order, each with its two routes
    reconciled at once. Neither changes what the other one is predicted to bring, and in the end all is the same. -/
theorem moves_commute (hr : Reachable p h d) (hroutes : [a, b, c, e].Nodup) (hheld : ∀ id ∈ [a, b, c, e], id ∈ h.routes)
    (hrun : move.perform p u v d.layout = .ok (a, b) l) (hrun' : move'.perform p x y d.layout = .ok (c, e) l') :
    ∃ d₁ d₂ d', Completes p move u v a b d d₁ ∧ Completes p move' x y c e d d₂ ∧
      (∀ penalties, move'.costChange p penalties d₁.layout x y = move'.costChange p penalties d.layout x y) ∧
      (∀ penalties, move.costChange p penalties d₂.layout u v = move.costChange p penalties d.layout u v) ∧
      Completes p move' x y c e d₁ d' ∧ Completes p move u v a b d₂ d' := by
  have hd := hr.coherent
  obtain ⟨a, ra, i, b, rb, j, totalsA, totalsB, hm, heq, hA, hB, -⟩ := perform_eq_ok hd.seated hd.sited hrun
  cases heq
  obtain ⟨c, rc, k, e, re, n, totalsC, totalsE, hm', heq, hC, hE, -⟩ := perform_eq_ok hd.seated hd.sited hrun'
  cases heq
  simp only [List.forall_mem_cons] at hheld
  obtain ⟨ha, hb, hc, he, -⟩ := hheld
  obtain ⟨d₁, hfirst, hd₁, h₁⟩ := hd.completes hm ha hb hA hB
  obtain ⟨d₂, hsecond, hd₂, h₂⟩ := hd.completes hm' hc he hC hE
  obtain ⟨hcost, d₁₂, hthen, h₁₂⟩ := h₁.completes hd.seated hd₁ hm' hc he hC hE hroutes
  obtain ⟨hcost', d₂₁, hthen', h₂₁⟩ := h₂.completes hd.seated hd₂ hm ha hb hA hB (nodup_swap hroutes)
  have hsame : d₂₁ = d₁₂ := Trades.comm h₁ h₁₂ h₂ h₂₁ hroutes hd.seated
  exact ⟨d₁, d₂, d₁₂, hfirst, hsecond, hcost, hcost', hthen, hsame ▸ hthen'⟩

namespace Sample

/-- The routes of the plan once more, beside those that are there. -/
def doubled : Dispatch := after (load problem plan dispatch)

def doubledHandles : Handles := handles.withRoutes [⟨⟨2, 0⟩⟩, ⟨⟨3, 0⟩⟩]

theorem reachable_doubled : Reachable problem doubledHandles doubled := by
  have hload : load problem plan dispatch = .ok [⟨⟨2, 0⟩⟩, ⟨⟨3, 0⟩⟩] doubled := eq_ok (by decide +kernel)
  exact .done (.load plan) reachable trivial (bind_ok hload)

end Sample

/-- The client of the second route goes behind that of the first one, and the last two routes swap their tails. -/
theorem moves_commute_in_sample :
    (Reachable Sample.problem Sample.doubledHandles Sample.doubled ∧
      ([⟨⟨1, 0⟩⟩, ⟨⟨0, 0⟩⟩, ⟨⟨2, 0⟩⟩, ⟨⟨3, 0⟩⟩] : List RouteId).Nodup ∧
      ∀ id ∈ ([⟨⟨1, 0⟩⟩, ⟨⟨0, 0⟩⟩, ⟨⟨2, 0⟩⟩, ⟨⟨3, 0⟩⟩] : List RouteId), id ∈ Sample.doubledHandles.routes) ∧
    ∃ d₁ d₂ d',
      Completes Sample.problem (.exchange 1 0 (by decide) (by decide)) ⟨⟨5, 0⟩⟩ ⟨⟨2, 0⟩⟩ ⟨⟨1, 0⟩⟩ ⟨⟨0, 0⟩⟩ Sample.doubled d₁ ∧
      Completes Sample.problem .swapTails ⟨⟨8, 0⟩⟩ ⟨⟨9, 0⟩⟩ ⟨⟨2, 0⟩⟩ ⟨⟨3, 0⟩⟩ Sample.doubled d₂ ∧
      (∀ penalties, Move.costChange Sample.problem penalties d₁.layout .swapTails ⟨⟨8, 0⟩⟩ ⟨⟨9, 0⟩⟩ =
        Move.costChange Sample.problem penalties Sample.doubled.layout .swapTails ⟨⟨8, 0⟩⟩ ⟨⟨9, 0⟩⟩) ∧
      Completes Sample.problem .swapTails ⟨⟨8, 0⟩⟩ ⟨⟨9, 0⟩⟩ ⟨⟨2, 0⟩⟩ ⟨⟨3, 0⟩⟩ d₁ d' ∧
      Completes Sample.problem (.exchange 1 0 (by decide) (by decide)) ⟨⟨5, 0⟩⟩ ⟨⟨2, 0⟩⟩ ⟨⟨1, 0⟩⟩ ⟨⟨0, 0⟩⟩ d₂ d' := by
  have hmade : ∀ move u v routes, Sample.result? (onLayout (Move.perform Sample.problem move u v) Sample.doubled) =
      some routes → ∃ l, move.perform Sample.problem u v Sample.doubled.layout = .ok routes l :=
    fun _ _ _ _ hrun => ⟨_, (onLayout_eq_ok (Sample.eq_ok hrun)).1⟩
  obtain ⟨l, hrun⟩ := hmade (.exchange 1 0 (by decide) (by decide)) ⟨⟨5, 0⟩⟩ ⟨⟨2, 0⟩⟩ (⟨⟨1, 0⟩⟩, ⟨⟨0, 0⟩⟩)
    (by decide +kernel)
  obtain ⟨l', hrun'⟩ := hmade .swapTails ⟨⟨8, 0⟩⟩ ⟨⟨9, 0⟩⟩ (⟨⟨2, 0⟩⟩, ⟨⟨3, 0⟩⟩) (by decide +kernel)
  have hroutes : ([⟨⟨1, 0⟩⟩, ⟨⟨0, 0⟩⟩, ⟨⟨2, 0⟩⟩, ⟨⟨3, 0⟩⟩] : List RouteId).Nodup := by decide
  have hheld : ∀ id ∈ ([⟨⟨1, 0⟩⟩, ⟨⟨0, 0⟩⟩, ⟨⟨2, 0⟩⟩, ⟨⟨3, 0⟩⟩] : List RouteId), id ∈ Sample.doubledHandles.routes := by
    decide
  obtain ⟨d₁, d₂, d', hfirst, hsecond, hcost, -, hthen, hthen'⟩ :=
    moves_commute Sample.reachable_doubled hroutes hheld hrun hrun'
  exact ⟨⟨Sample.reachable_doubled, hroutes, hheld⟩, d₁, d₂, d', hfirst, hsecond, hcost, hthen, hthen'⟩

end Dispatch
end Fleet
