import Fleet.Descent
import Fleet.Proofs.Dispatch.Moving
import Fleet.Proofs.Worth

/-! What the routes of a layout cost together.

    A move changes the costs of its two routes by what was predicted, and no other cost. -/

namespace Fleet
namespace Layout

variable {p : Problem} {penalties : Penalties} {l l' : Layout} {id a b : RouteId} {r ra rb : Route} {f f' : RouteId → Int}

/-! ### The routes of a layout -/

def routeIds (l : Layout) : List RouteId := l.routeList.map (·.1)

theorem mem_routeList : (id, r) ∈ l.routeList ↔ l.route? id = some r := by
  unfold routeList route?
  rw [List.mem_map]
  constructor
  · rintro ⟨⟨key, s⟩, hmem, heq⟩
    cases heq
    exact Pool.mem_entries.mp hmem
  · intro hr
    exact ⟨(id.key, r), Pool.mem_entries.mpr hr, rfl⟩

theorem mem_routeIds : id ∈ l.routeIds ↔ (l.route? id).isSome := by
  unfold routeIds
  rw [List.mem_map, Option.isSome_iff_exists]
  constructor
  · rintro ⟨⟨x, r⟩, hmem, rfl⟩
    exact ⟨r, mem_routeList.mp hmem⟩
  · rintro ⟨r, hr⟩
    exact ⟨(id, r), mem_routeList.mpr hr, rfl⟩

theorem nodup_routeIds (l : Layout) : l.routeIds.Nodup := by
  have h := Pool.nodup_entries l.routes
  unfold routeIds routeList
  rw [List.map_map]
  rw [show (Prod.fst ∘ fun e : Key × Route => ((⟨e.1⟩ : RouteId), e.2)) = RouteId.mk ∘ Prod.fst from rfl, ← List.map_map]
  exact h.map fun x y heq => by cases heq; rfl

theorem KeepsRuns.perm_routeIds (h : KeepsRuns l l') : l'.routeIds.Perm l.routeIds := by
  rw [List.perm_ext_iff_of_nodup (nodup_routeIds l') (nodup_routeIds l)]
  intro id
  rw [mem_routeIds, mem_routeIds, h.sameDepots.isSome]

/-! ### Costs -/

/-- Each route costs what `f` says. -/
def Priced (p : Problem) (penalties : Penalties) (l : Layout) (f : RouteId → Int) : Prop :=
  ∀ {id r}, l.route? id = some r → penalties.cost p r.vehicleType.toNat r.totals = .ok (f id)

/-- The sum of what `f` says for each route. -/
def sumOf (l : Layout) (f : RouteId → Int) : Int := (l.routeIds.map f).sum

/-- There is only one cost of a route. -/
theorem Priced.sumOf_eq (h : Priced p penalties l f) (h' : Priced p penalties l f') : l.sumOf f' = l.sumOf f := by
  refine congrArg List.sum (List.map_congr_left fun id hid => ?_)
  obtain ⟨r, hr⟩ := Option.isSome_iff_exists.mp (mem_routeIds.mp hid)
  exact Except.ok.inj ((h' hr).symm.trans (h hr))

/-- The cost of a route is that of its tour. -/
theorem Priced.costOfTour (h : Priced p penalties l f) (hc : Current p l) (hr : l.route? id = some r) :
    penalties.costOfTour p r.vehicleType.toNat (l.locations r) = .ok (f id) := by
  unfold Penalties.costOfTour
  rw [hc.totals hr]
  exact h hr

/-- No route costs less than nothing. -/
theorem Priced.nonneg (h : Priced p penalties l f) (hp : penalties.Nonneg) (hc : Current p l)
    (hr : l.route? id = some r) : 0 ≤ f id :=
  Penalties.cost_nonneg hp (Totals.ofTour_nonneg (hc.totals hr)) (h hr)

theorem Priced.sumOf_nonneg (h : Priced p penalties l f) (hp : penalties.Nonneg) (hc : Current p l) : 0 ≤ l.sumOf f := by
  refine List.sum_nonneg fun c hc' => ?_
  obtain ⟨id, hid, rfl⟩ := List.mem_map.mp hc'
  obtain ⟨r, hr⟩ := Option.isSome_iff_exists.mp (mem_routeIds.mp hid)
  exact h.nonneg hp hc hr

/-- Fewer routes do not cost more. -/
theorem Priced.sumOf_le (h : Priced p penalties l f) (hp : penalties.Nonneg) (hc : Current p l)
    (hsub : ∀ id r, l'.route? id = some r → l.route? id = some r) : l'.sumOf f ≤ l.sumOf f := by
  have hsum : ∀ l : Layout, l.sumOf f = ∑ x ∈ l.routeIds.toFinset, f x := fun l =>
    (List.sum_toFinset f (nodup_routeIds l)).symm
  rw [hsum, hsum]
  refine Finset.sum_le_sum_of_subset_of_nonneg (fun id hid => ?_) fun id hid _ => ?_
  · rw [List.mem_toFinset, mem_routeIds, Option.isSome_iff_exists] at hid ⊢
    obtain ⟨r, hr⟩ := hid
    exact ⟨r, hsub id r hr⟩
  · rw [List.mem_toFinset, mem_routeIds, Option.isSome_iff_exists] at hid
    obtain ⟨r, hr⟩ := hid
    exact h.nonneg hp hc hr

/-- Only the costs of two routes change. -/
theorem sumOf_change (hk : KeepsRuns l l') (hab : a ≠ b) (ha : l.route? a = some ra) (hb : l.route? b = some rb)
    (hf : ∀ x, x ≠ a → x ≠ b → f' x = f x) : l'.sumOf f' = l.sumOf f + (f' a + f' b - (f a + f b)) := by
  have hperm : l'.sumOf f' = l.sumOf f' := (hk.perm_routeIds.map f').sum_eq
  have hsum : ∀ g : RouteId → Int, l.sumOf g = ∑ x ∈ l.routeIds.toFinset, g x := fun g =>
    (List.sum_toFinset g (nodup_routeIds l)).symm
  have hmem : ∀ {x r}, l.route? x = some r → x ∈ l.routeIds.toFinset := fun hx =>
    List.mem_toFinset.mpr (mem_routeIds.mpr (Option.isSome_iff_exists.mpr ⟨_, hx⟩))
  have hpair : ∑ x ∈ l.routeIds.toFinset, (f' x - f x) = (f' a - f a) + (f' b - f b) :=
    Finset.sum_eq_add a b hab (fun x _ hx => by rw [hf x hx.1 hx.2, sub_self]) (fun hx => absurd (hmem ha) hx)
      fun hx => absurd (hmem hb) hx
  rw [Finset.sum_sub_distrib] at hpair
  rw [hperm, hsum, hsum]
  omega

end Layout

/-- The cost of the layout changes by what was predicted. -/
theorem Dispatch.Moved.priced {p : Problem} {penalties : Penalties} {h : Handles} {move : Move} {d d' : Dispatch}
    {u v : NodeId} {a b : RouteId} {ra rb : Route} {i j : Nat} {f : RouteId → Int} {delta : Int}
    (hd : Dispatch.Moved p h move d a ra i b rb j d') (hl : Layout.Seated d.layout)
    (hm : move.AppliesAt d.layout u v a ra i b rb j) (hdelta : move.costChange p penalties d.layout u v = .ok delta)
    (hf : d.layout.Priced p penalties f) :
    ∃ f', d'.layout.Priced p penalties f' ∧ d'.layout.sumOf f' = d.layout.sumOf f + delta := by
  obtain ⟨totalsU, totalsV, oldU, oldV, newU, newV, hU, hV, holdU, holdV, hnewU, hnewV, rfl⟩ :=
    Move.costChange_eq_ok hl hm hdelta
  obtain ⟨totalsU', totalsV', hU', hV', hr⟩ := hd.reroutes
  rw [hU] at hU'
  rw [hV] at hV'
  cases hU'
  cases hV'
  let f' : RouteId → Int := fun x => if x = a then newU else if x = b then newV else f x
  have hb : f' b = newV := by simp [f', hm.ne.symm]
  refine ⟨f', fun {id r} hid => ?_, ?_⟩
  · rw [hr.route] at hid
    by_cases hida : id = a
    · rw [if_pos hida] at hid
      cases hid
      rw [hida, show f' a = newU from if_pos rfl]
      exact hnewU
    · rw [if_neg hida] at hid
      by_cases hidb : id = b
      · rw [if_pos hidb] at hid
        cases hid
        rw [hidb, hb]
        exact hnewV
      · rw [if_neg hidb] at hid
        rw [show f' id = f id by simp [f', hida, hidb]]
        exact hf hid
  · rw [Layout.sumOf_change hd.reshuffles.toKeepsRuns hm.ne hm.left hm.right
      (fun x hxa hxb => show f' x = f x by simp [f', hxa, hxb]), hb, show f' a = newU from if_pos rfl,
      Except.ok.inj ((hf hm.left).symm.trans holdU), Except.ok.inj ((hf hm.right).symm.trans holdV)]

namespace Descent

open Layout

variable {p : Problem} {penalties : Penalties} {l : Layout}

theorem sum_eq_ok {total c : Int} {ns : List Int} (h : Quantity.sum total ns = .ok c) : c = total + ns.sum := by
  induction ns generalizing total with
  | nil =>
    cases h
    simp
  | cons n ns ih =>
    obtain ⟨t, ht, h⟩ := bind_eq_ok h
    rw [ih h, checked_eq_ok ht, List.sum_cons]
    omega

theorem sum_computes (total : Int) (ns : List Int) : Computes (fun _ => True) (Quantity.sum total ns) := by
  induction ns generalizing total with
  | nil => exact .ok trivial
  | cons n ns ih => exact (Computes.checked _).bind fun t _ => ih t

/-- Only an overflow keeps a layout from its cost. -/
theorem totalCost_computes (hs : Sited p l) : Computes (fun _ => True) (totalCost p penalties l) := by
  have hcost : ∀ e ∈ l.routeList, Computes (fun _ => True) (do
      let cost ← penalties.cost p e.2.vehicleType.toNat e.2.totals
      return (e.1, cost)) := fun e he =>
    (Penalties.cost_computes (hs.vehicleType_lt (mem_routeList.mp he)) _).bind fun _ _ => .ok trivial
  exact (Computes.mapM hcost).bind fun _ _ => sum_computes _ _

/-- What a route costs, if that can be computed. -/
def routeCost (p : Problem) (penalties : Penalties) (l : Layout) (id : RouteId) : Int :=
  ((l.route? id).bind fun r => (penalties.cost p r.vehicleType.toNat r.totals).toOption).getD 0

theorem routeCost_eq {id : RouteId} {r : Route} {c : Int} (hr : l.route? id = some r)
    (hc : penalties.cost p r.vehicleType.toNat r.totals = .ok c) : routeCost p penalties l id = c := by
  unfold routeCost
  rw [hr, Option.bind_some, hc]
  rfl

/-- The cost of a layout is the sum of the costs of its routes. -/
theorem totalCost_eq_ok {c : Int} (h : totalCost p penalties l = .ok c) :
    ∃ f, Priced p penalties l f ∧ c = l.sumOf f := by
  obtain ⟨costs, hcosts, h⟩ := bind_eq_ok h
  have hall := mapM_eq_ok hcosts
  have hroute : ∀ {e : RouteId × Route} {c : RouteId × Int}, e ∈ l.routeList → (do
      let cost ← penalties.cost p e.2.vehicleType.toNat e.2.totals
      return (e.1, cost)) = .ok c → penalties.cost p e.2.vehicleType.toNat e.2.totals = .ok c.2 ∧
        routeCost p penalties l e.1 = c.2 := fun he hc => by
    obtain ⟨cost, hcost, hc⟩ := bind_eq_ok hc
    cases hc
    exact ⟨hcost, routeCost_eq (mem_routeList.mp he) hcost⟩
  refine ⟨routeCost p penalties l, fun {id r} hr => ?_, ?_⟩
  · obtain ⟨c, hc⟩ : ∃ c, penalties.cost p r.vehicleType.toNat r.totals = .ok c := by
      obtain ⟨index, hindex, heq⟩ := List.mem_iff_getElem.mp (mem_routeList.mpr hr)
      have hc := hall.get hindex (hall.length_eq ▸ hindex)
      rw [List.get_eq_getElem, heq] at hc
      exact ⟨_, (hroute (mem_routeList.mpr hr) hc).1⟩
    rw [hc, routeCost_eq hr hc]
  · rw [sum_eq_ok h, zero_add]
    unfold sumOf routeIds
    rw [List.map_map]
    refine congrArg List.sum (List.ext_getElem (by simp [hall.length_eq]) fun index hindex hindex' => ?_)
    rw [List.length_map] at hindex hindex'
    rw [List.getElem_map, List.getElem_map]
    exact (hroute (List.getElem_mem hindex') (hall.get hindex' hindex)).2.symm

end Descent
end Fleet
