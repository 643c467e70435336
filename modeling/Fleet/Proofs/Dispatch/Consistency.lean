import Fleet.Proofs.Dispatch.Runs

/-! The books agree with each other, with the layout and with the handles of the host, all along clean runs.

    What the check of the books looks at one by one follows from what coherence says of them. -/

namespace Fleet
namespace Dispatch

open Layout

variable {p : Problem} {h : Handles} {d : Dispatch} {id : RouteId} {m : NodeId} {r : Route} {s : Store}

/-! ### The check of the books -/

theorem Entered.storesAgree (hd : Entered d) : d.storesAgree = true := by
  have hstore : ∀ {e : RouteId × Store}, e ∈ d.stores.entries → d.stores.find? e.1 = some e.2 := Table.mem_entries.mp
  simp only [Dispatch.storesAgree, Bool.and_eq_true, List.all_eq_true, decide_eq_true_eq, Bool.not_eq_true']
  refine ⟨List.nodup_flatMap.mpr ⟨fun e he => hd.nodup (hstore he), ?_⟩, fun e he m hm => ?_⟩
  · -- Two stores have different routes, and a node has one owner only.
    refine (List.pairwise_map.mp (Table.nodup_keys d.stores)).imp_of_mem fun {e e'} he he' hne m hm hm' => hne ?_
    have h := ((hd.owned (hstore he)).mp hm).symm.trans ((hd.owned (hstore he')).mp hm')
    cases e
    cases e'
    simpa using h
  · have ho := (hd.owned (hstore he)).mp hm
    refine ⟨Bool.eq_false_iff.mpr fun hhost => ?_, ho⟩
    rw [hd.host, ho] at hhost
    cases hhost

theorem Entered.hostAgrees (hd : Entered d) : d.hostAgrees = true := by
  simp only [Dispatch.hostAgrees, List.all_eq_true, decide_eq_true_eq]
  intro m hm
  exact (hd.host m).mp (Table.contains_iff.mpr (Table.mem_keys.mp hm))

theorem Entered.ownersAgree (hd : Entered d) : d.ownersAgree = true := by
  simp only [Dispatch.ownersAgree, List.all_eq_true, Bool.and_eq_true]
  rintro ⟨m, o⟩ he
  have ho : d.owner? m = some o := (Table.find?_eq_some_iff (t := d.ownership.owners)).mpr he
  obtain ⟨n, hn⟩ := hd.live_of_owner ho
  refine ⟨by rw [hn]; rfl, ?_⟩
  cases o with
  | standalone =>
    show d.host.contains m = true
    exact (hd.host m).mpr ho
  | route id =>
    obtain ⟨s, hs⟩ := Option.isSome_iff_exists.mp (hd.owner ho)
    show decide (id ∈ d.routesOwning m) = true
    rw [decide_eq_true_eq]
    refine List.mem_map.mpr ⟨(id, s), List.mem_filter.mpr ⟨Table.mem_entries.mpr hs, ?_⟩, rfl⟩
    simpa using (hd.owned hs).mpr ho

theorem Counted.handlesAgree (hd : Counted d) : d.handlesAgree = true := by
  simp only [Dispatch.handlesAgree, List.all_eq_true, Bool.and_eq_true, decide_eq_true_eq]
  intro e he
  exact hd.handle (Table.mem_entries.mp he)

theorem Booked.countsAgree (hd : Booked h [] d) : d.countsAgree = true := by
  simp only [Dispatch.countsAgree, List.all_eq_true, Bool.and_eq_true, decide_eq_true_eq, Bool.not_eq_true']
  intro e he
  have hs : d.stores.find? e.1 = some e.2 := Table.mem_entries.mp he
  exact ⟨hd.counted.counted hs, hd.busy hs List.not_mem_nil⟩

/-- The books agree whatever the routes visit. -/
theorem Booked.isConsistent (hd : Booked h [] d) : d.isConsistent = true := by
  simp only [Dispatch.isConsistent, hd.entered.storesAgree, hd.entered.hostAgrees, hd.entered.ownersAgree,
    hd.counted.handlesAgree, hd.countsAgree, Bool.and_true]

theorem Coherent.isConsistent (hd : Coherent p h d) : d.isConsistent = true := hd.booked.isConsistent

/-! ### Routes and their stores -/

theorem eraseDups_of_nodup {ms : List NodeId} (h : ms.Nodup) : ms.eraseDups = ms := by
  induction ms with
  | nil => rfl
  | cons m ms ih =>
    rw [List.nodup_cons] at h
    rw [List.eraseDups_cons, List.filter_eq_self.mpr fun x hx => ?_, ih h.2]
    simpa using fun heq : x = m => h.1 (heq ▸ hx)

theorem Coherent.mem_store_iff (hd : Coherent p h d) (hr : d.layout.route? id = some r)
    (hs : d.stores.find? id = some s) : m ∈ s.nodes ↔ m ∈ r.clients := by
  rw [hd.entered.owned hs, hd.reconciled hr]

theorem Coherent.isReconciled (hd : Coherent p h d) (hr : d.layout.route? id = some r) :
    d.isReconciled id = .ok true := by
  obtain ⟨s, hs⟩ := hd.entered.store_of_route hr
  have hnodup := hd.seated.nodup_clients hr
  have hperm : s.nodes.Perm r.clients :=
    (List.perm_ext_iff_of_nodup (hd.entered.nodup hs) hnodup).mpr fun m => hd.mem_store_iff hr hs
  have howned : d.owned id = .ok s.nodes := by
    unfold owned
    rw [hs]
  unfold Dispatch.isReconciled
  rw [scan_eq_ok hr, ok_bind, howned, ok_bind, eraseDups_of_nodup hnodup, hperm.length_eq]
  refine congrArg Except.ok ?_
  simpa using fun m hm => (hd.mem_store_iff hr hs).mp hm

/-- A route holds exactly the nodes that it visits, depots included. -/
theorem Coherent.holder?_iff (hd : Coherent p h d) (hr : d.layout.route? id = some r) :
    d.holder? m = some id ↔ m ∈ r.visits := by
  have hdepot : DepotOf d.layout id m ↔ m = r.start ∨ m = r.finish :=
    ⟨fun ⟨r', hr', hm⟩ => by rw [hr] at hr'; cases hr'; exact hm, fun hm => ⟨r, hr, hm⟩⟩
  rw [hd.entered.holder?_eq_some_iff hd.seated, ← hd.reconciled hr, hdepot, Route.mem_visits]
  tauto

theorem countP_eq_sum (f : NodeId → Bool) (ms : List NodeId) :
    ms.countP f = ∑ m ∈ ms.toFinset, if f m then ms.count m else 0 := by
  rw [List.countP_eq_length_filter, ← List.sum_toFinset_count_eq_length, List.toFinset_filter, Finset.sum_filter]
  refine Finset.sum_congr rfl fun m _ => ?_
  split
  · rename_i hm
    rw [List.count_filter hm]
  · rfl

/-- A route counts the handles that the host has to the nodes it holds. -/
theorem Booked.nodeHandles_eq (hd : Booked h [] d) (hs : d.stores.find? id = some s) :
    s.nodeHandles = h.nodes.countP fun m => d.holder? m = some id := by
  have hheld : ∀ m, d.handleCount m ≠ 0 → m ∈ h.nodes.toFinset := fun m hm => by
    rw [hd.held.nodes] at hm
    exact List.mem_toFinset.mpr (List.count_pos_iff.mp (Nat.pos_of_ne_zero hm))
  rw [hd.counted.counted hs, countHandles_eq_sum _ hheld, countP_eq_sum]
  refine Finset.sum_congr rfl fun m _ => ?_
  rw [hd.held.nodes]
  exact if_congr decide_eq_true_iff.symm rfl rfl

/-- Those are its visits when everything is in order. -/
theorem Coherent.nodeHandles_eq (hd : Coherent p h d) (hr : d.layout.route? id = some r)
    (hs : d.stores.find? id = some s) : s.nodeHandles = h.nodes.countP (· ∈ r.visits) := by
  rw [hd.booked.nodeHandles_eq hs]
  exact List.countP_congr fun m _ => by simp only [decide_eq_true_eq, hd.holder?_iff hr]

/-- In every state of a clean run all books agree, and the store of each route has exactly its clients, each of them
    once, and counts the handles to the route and to its visits. -/
theorem books_agree_of_reachable (hr : Reachable p h d) :
    d.isConsistent = true ∧ ∀ id r, d.layout.route? id = some r → ∃ s, d.stores.find? id = some s ∧ s.nodes.Nodup ∧
      (∀ m, m ∈ s.nodes ↔ m ∈ r.clients) ∧ s.routeHandles = h.routes.count id ∧
      s.nodeHandles = h.nodes.countP (· ∈ r.visits) ∧ d.isReconciled id = .ok true := by
  have hd := hr.coherent
  refine ⟨hd.isConsistent, fun id r hroute => ?_⟩
  obtain ⟨s, hs⟩ := hd.entered.store_of_route hroute
  refine ⟨s, hs, hd.entered.nodup hs, fun m => hd.mem_store_iff hroute hs, ?_, hd.nodeHandles_eq hroute hs,
    hd.isReconciled hroute⟩
  rw [← routeHandles_of_store hs, hd.held.routes]

theorem books_agree_in_sample : Reachable Sample.problem Sample.handles Sample.dispatch ∧
    Sample.dispatch.isConsistent = true ∧ Sample.dispatch.isReconciled ⟨⟨0, 0⟩⟩ = .ok true := by
  obtain ⟨hconsistent, hroutes⟩ := books_agree_of_reachable Sample.reachable
  obtain ⟨r, hr⟩ : ∃ r, Sample.dispatch.layout.route? ⟨⟨0, 0⟩⟩ = some r :=
    Option.isSome_iff_exists.mp (by decide +kernel)
  obtain ⟨s, -, -, -, -, -, hreconciled⟩ := hroutes _ r hr
  exact ⟨Sample.reachable, hconsistent, hreconciled⟩

end Dispatch
end Fleet
