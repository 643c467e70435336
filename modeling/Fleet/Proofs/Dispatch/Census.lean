import Fleet.Proofs.Dispatch.Consistency

/-! Nothing goes while something keeps it, and nothing stays that nothing keeps.

    A route is there as long as there is a handle to it or to a node that it holds, a node of the host as long as
    there is a handle to the node itself. So when the host has given up its last handle, nothing is left. -/

namespace Fleet
namespace Dispatch

open Layout

variable {p : Problem} {h : Handles} {d : Dispatch} {id : RouteId} {m : NodeId} {r : Route} {s : Store}

/-! ### What keeps what -/

theorem Coherent.isSome_route (hd : Coherent p h d) (hid : id ∈ h.routes) : (d.layout.route? id).isSome := by
  obtain ⟨s, hs, -⟩ := hd.store_of_held hid
  exact Option.isSome_iff_exists.mpr (hd.entered.route_of_store hs)

theorem Coherent.isSome_node (hd : Coherent p h d) (hm : m ∈ h.nodes) : (d.layout.node? m).isSome :=
  hd.counted.live (hd.pos_of_held hm)

/-- A route is there exactly if the host has a handle to it or to a node that it holds. -/
theorem Coherent.isSome_route_iff (hd : Coherent p h d) :
    (d.layout.route? id).isSome ↔ id ∈ h.routes ∨ ∃ m ∈ h.nodes, d.holder? m = some id := by
  constructor
  · intro hroute
    obtain ⟨r, hr⟩ := Option.isSome_iff_exists.mp hroute
    obtain ⟨s, hs⟩ := hd.entered.store_of_route hr
    have hbusy := hd.busy hs List.not_mem_nil
    rw [Store.isIdle, Bool.and_eq_false_iff, decide_eq_false_iff_not, decide_eq_false_iff_not] at hbusy
    rcases hbusy with hroutes | hnodes
    · refine Or.inl (List.count_pos_iff.mp ?_)
      rw [← hd.held.routes, routeHandles_of_store hs]
      exact Nat.pos_of_ne_zero hroutes
    · refine Or.inr ?_
      rw [hd.counted.counted hs] at hnodes
      obtain ⟨m, hholder, hm⟩ := countHandles_pos_iff.mp (Nat.pos_of_ne_zero hnodes)
      rw [hd.held.nodes] at hm
      exact ⟨m, List.count_pos_iff.mp hm, hholder⟩
  · rintro (hid | ⟨m, -, hholder⟩)
    · exact hd.isSome_route hid
    · obtain ⟨s, hs⟩ := hd.entered.store_of_holder hd.seated hholder
      exact Option.isSome_iff_exists.mpr (hd.entered.route_of_store hs)

/-- A route holds the nodes in its store and its two depots. -/
theorem Coherent.holder?_iff_store (hd : Coherent p h d) : d.holder? m = some id ↔
    (∃ s, d.stores.find? id = some s ∧ m ∈ s.nodes) ∨ DepotOf d.layout id m := by
  rw [hd.entered.holder?_eq_some_iff hd.seated]
  refine or_congr ⟨fun ho => ?_, fun ⟨s, hs, hm⟩ => (hd.entered.owned hs).mp hm⟩ Iff.rfl
  obtain ⟨s, hs⟩ := Option.isSome_iff_exists.mp (hd.entered.owner ho)
  exact ⟨s, hs, (hd.entered.owned hs).mpr ho⟩

/-- A node that is no depot is there exactly if a route owns it, or if it is the host's and has a handle. -/
theorem Coherent.isSome_node_iff (hd : Coherent p h d) (hm : ¬IsDepot d.layout m) :
    (d.layout.node? m).isSome ↔ (∃ id, (d.layout.route? id).isSome ∧ d.owner? m = some (.route id)) ∨
      (d.owner? m = some .standalone ∧ m ∈ h.nodes) := by
  rw [hd.entered.live, or_iff_left hm]
  constructor
  · intro ho
    obtain ⟨o, ho⟩ := Option.isSome_iff_exists.mp ho
    cases o with
    | standalone =>
      have hpos := hd.kept ho List.not_mem_nil
      rw [hd.held.nodes] at hpos
      exact Or.inr ⟨ho, List.count_pos_iff.mp hpos⟩
    | route id =>
      obtain ⟨s, hs⟩ := Option.isSome_iff_exists.mp (hd.entered.owner ho)
      exact Or.inl ⟨id, Option.isSome_iff_exists.mpr (hd.entered.route_of_store hs), ho⟩
  · rintro (⟨id, -, ho⟩ | ⟨ho, -⟩) <;> rw [ho] <;> rfl

/-! ### How many there are -/

def nodeIds (l : Layout) : List NodeId := l.nodeList.map (·.1)

theorem mem_nodeIds {l : Layout} : m ∈ nodeIds l ↔ (l.node? m).isSome := by
  unfold nodeIds nodeList node?
  rw [List.map_map, List.mem_map, Option.isSome_iff_exists]
  constructor
  · rintro ⟨⟨key, n⟩, hmem, rfl⟩
    exact ⟨n, Pool.mem_entries.mp hmem⟩
  · rintro ⟨n, hn⟩
    exact ⟨(m.key, n), Pool.mem_entries.mpr hn, rfl⟩

theorem nodup_nodeIds (l : Layout) : (nodeIds l).Nodup := by
  unfold nodeIds nodeList
  rw [List.map_map]
  rw [show (Prod.fst ∘ fun e : Key × Node => ((⟨e.1⟩ : NodeId), e.2)) = NodeId.mk ∘ Prod.fst from rfl, ← List.map_map]
  exact (Pool.nodup_entries l.nodes).map fun x y heq => by cases heq; rfl

def depots (l : Layout) (id : RouteId) : List NodeId :=
  match l.route? id with
  | some r => [r.start, r.finish]
  | none => []

theorem mem_depots {l : Layout} : m ∈ depots l id ↔ DepotOf l id m := by
  unfold depots DepotOf
  cases l.route? id with
  | none => simp
  | some r => simp

theorem nodup_allDepots {l : Layout} (hl : Seated l) : (l.routeIds.flatMap (depots l)).Nodup := by
  refine List.nodup_flatMap.mpr ⟨fun id hid => ?_, ?_⟩
  · obtain ⟨r, hr⟩ := Option.isSome_iff_exists.mp (mem_routeIds.mp hid)
    unfold depots
    rw [hr]
    simpa using hl.start_ne_finish hr
  · refine (nodup_routeIds l).imp fun {a b} hab m hm hm' => hab ?_
    obtain ⟨ra, hra, hma⟩ := mem_depots.mp hm
    obtain ⟨rb, hrb, hmb⟩ := mem_depots.mp hm'
    exact hl.route_unique (m := m) hrb hra (by rcases hmb with rfl | rfl <;> simp) (by rcases hma with rfl | rfl <;> simp)

theorem length_allDepots (l : Layout) : (l.routeIds.flatMap (depots l)).length = 2 * l.routeIds.length := by
  rw [List.length_flatMap]
  have htwo : ∀ n ∈ l.routeIds.map fun id => (depots l id).length, n = 2 := fun n hn => by
    obtain ⟨id, hid, rfl⟩ := List.mem_map.mp hn
    obtain ⟨r, hr⟩ := Option.isSome_iff_exists.mp (mem_routeIds.mp hid)
    unfold depots
    rw [hr]
    rfl
  rw [List.sum_eq_card_nsmul _ 2 htwo, List.length_map, smul_eq_mul, Nat.mul_comm]

theorem Entered.numRoutes_eq (hd : Entered d) : d.numRoutes = d.layout.routeIds.length := by
  have hperm : d.stores.keys.Perm d.layout.routeIds := by
    rw [List.perm_ext_iff_of_nodup (Table.nodup_keys _) (nodup_routeIds _)]
    intro id
    rw [Table.mem_keys, mem_routeIds, ← hd.store, Option.isSome_iff_exists]
  rw [← hperm.length_eq, Table.keys, List.length_map]
  rfl

/-- Every node has an owner or is one of the two depots of a route. -/
theorem Coherent.size_nodes (hd : Coherent p h d) : d.layout.nodes.size = d.ownership.size + 2 * d.numRoutes := by
  have hperm : (nodeIds d.layout).Perm (d.ownership.owners.keys ++ d.layout.routeIds.flatMap (depots d.layout)) := by
    refine (List.perm_ext_iff_of_nodup (nodup_nodeIds _) ?_).mpr fun m => ?_
    · refine (Table.nodup_keys _).append (nodup_allDepots hd.seated) fun m hm hm' => ?_
      obtain ⟨o, ho⟩ := Table.mem_keys.mp hm
      obtain ⟨id, -, hdepot⟩ := List.mem_flatMap.mp hm'
      exact hd.entered.not_isDepot ho ⟨id, mem_depots.mp hdepot⟩
    · rw [mem_nodeIds, hd.entered.live, List.mem_append, Table.mem_keys, ← Option.isSome_iff_exists, List.mem_flatMap]
      refine or_congr Iff.rfl (exists_congr fun id => ?_)
      rw [mem_depots, iff_and_self]
      exact fun ⟨r, hr, _⟩ => mem_routeIds.mpr (Option.isSome_iff_exists.mpr ⟨r, hr⟩)
  have hsize : d.layout.nodes.size = (nodeIds d.layout).length := by
    unfold nodeIds nodeList
    rw [List.length_map, List.length_map, hd.seated.nodes.size_eq]
  rw [hsize, hperm.length_eq, List.length_append, length_allDepots, hd.entered.numRoutes_eq, Table.keys, List.length_map]
  rfl

/-- Without a handle nothing is left. -/
theorem Coherent.nothing_left (hd : Coherent p {} d) :
    d.numRoutes = 0 ∧ d.layout.nodes.size = 0 ∧ d.ownership.size = 0 := by
  have hroute : ∀ id, ¬(d.layout.route? id).isSome := fun id hid => by
    rcases hd.isSome_route_iff.mp hid with hid | ⟨m, hm, -⟩
    · cases hid
    · cases hm
  have hnone : d.layout.routeIds = [] := List.eq_nil_iff_forall_not_mem.mpr fun id hid => hroute id (mem_routeIds.mp hid)
  have hroutes : d.numRoutes = 0 := by rw [hd.entered.numRoutes_eq, hnone, List.length_nil]
  have howners : d.ownership.size = 0 := by
    have hnil : d.ownership.owners.entries = [] := List.eq_nil_iff_forall_not_mem.mpr fun e he => by
      have ho : d.owner? e.1 = some e.2 := (Table.find?_eq_some_iff (t := d.ownership.owners)).mpr he
      have hdepot := hd.entered.not_isDepot ho
      obtain ⟨n, hn⟩ := hd.entered.live_of_owner ho
      rcases (hd.isSome_node_iff hdepot).mp (Option.isSome_iff_exists.mpr ⟨n, hn⟩) with ⟨id, hid, -⟩ | ⟨-, hm⟩
      · exact hroute id hid
      · cases hm
    unfold Ownership.size Table.size
    rw [hnil, List.length_nil]
  refine ⟨hroutes, ?_, howners⟩
  rw [hd.size_nodes, howners, hroutes]

/-- In every state of a clean run exactly that is there which a handle keeps, and once the host has given up all
    handles nothing is. -/
theorem lifetimes_of_reachable (hr : Reachable p h d) :
    (∀ id, (d.layout.route? id).isSome ↔ id ∈ h.routes ∨
      ∃ m ∈ h.nodes, (∃ s, d.stores.find? id = some s ∧ m ∈ s.nodes) ∨ DepotOf d.layout id m) ∧
    (∀ m, ¬IsDepot d.layout m → ((d.layout.node? m).isSome ↔
      (∃ id, (d.layout.route? id).isSome ∧ d.owner? m = some (.route id)) ∨
        (d.owner? m = some .standalone ∧ m ∈ h.nodes))) ∧
    (∀ m ∈ h.nodes, (d.layout.node? m).isSome) ∧
    d.layout.nodes.size = d.ownership.size + 2 * d.numRoutes ∧
    (h.routes = [] ∧ h.nodes = [] → d.numRoutes = 0 ∧ d.layout.nodes.size = 0 ∧ d.ownership.size = 0) := by
  have hd := hr.coherent
  refine ⟨fun id => ?_, fun m hm => hd.isSome_node_iff hm, fun m hm => hd.isSome_node hm, hd.size_nodes, ?_⟩
  · rw [hd.isSome_route_iff]
    refine or_congr Iff.rfl (exists_congr fun m => and_congr_right fun _ => hd.holder?_iff_store)
  · rintro ⟨hroutes, hnodes⟩
    have hnone : h = {} := by
      cases h
      cases hroutes
      cases hnodes
      rfl
    exact (hnone ▸ hd).nothing_left

theorem lifetimes_in_sample : Reachable Sample.problem Sample.handles Sample.dispatch ∧
    Sample.dispatch.layout.nodes.size = Sample.dispatch.ownership.size + 2 * Sample.dispatch.numRoutes :=
  ⟨Sample.reachable, (lifetimes_of_reachable Sample.reachable).2.2.2.1⟩

end Dispatch
end Fleet
