import Fleet.Dispatch.Reconcile
import Fleet.Proofs.Layout.Lifetime
import Fleet.Proofs.Table

/-! Coherent dispatches.

    Who owns a node is said three times: by the register of owners, by the stores of the routes and by the nodes
    of the host. In a coherent dispatch all of them agree with each other (`Entered`) and, between two
    operations, with the visits of the layout (`Reconciled`). The number of handles to the nodes that a route
    holds is kept with its store (`Counted`), a node of the host has a handle (`Kept`), and so has everything
    else that is there, directly or through a route (`CoherentBut`). -/

namespace Fleet

/-- The handles that have been given out and not been given up, each as often as it has been given out. -/
structure Handles where
  routes : List RouteId := []
  nodes : List NodeId := []

namespace Handles

def withRoute (h : Handles) (id : RouteId) : Handles := { h with routes := id :: h.routes }

def withRoutes (h : Handles) (ids : List RouteId) : Handles := { h with routes := ids ++ h.routes }

def withoutRoute (h : Handles) (id : RouteId) : Handles := { h with routes := h.routes.erase id }

def withNode (h : Handles) (m : NodeId) : Handles := { h with nodes := m :: h.nodes }

def withoutNode (h : Handles) (m : NodeId) : Handles := { h with nodes := h.nodes.erase m }

theorem withoutRoute_withRoutes (h : Handles) (id : RouteId) (ids : List RouteId) :
    (h.withRoutes (id :: ids)).withoutRoute id = h.withRoutes ids := by
  unfold withRoutes withoutRoute
  rw [List.cons_append, List.erase_cons_head]

theorem count_cons {α : Type} [DecidableEq α] (a x : α) (as : List α) :
    (a :: as).count x = if x = a then as.count a + 1 else as.count x := by
  rw [List.count_cons]
  by_cases hx : x = a
  · simp [hx]
  · simp [hx, Ne.symm hx]

theorem count_erase {α : Type} [DecidableEq α] (a x : α) (as : List α) :
    (as.erase a).count x = if x = a then as.count a - 1 else as.count x := by
  rw [List.count_erase]
  by_cases hx : x = a
  · simp [hx]
  · simp [hx, Ne.symm hx]

end Handles

namespace Dispatch

open Layout

variable {d d' : Dispatch} {id : RouteId} {m x : NodeId} {s : Store} {r : Route}

/-! ### Owners -/

/-- All entries of who owns a node agree, and every node has an owner or is a depot. -/
structure Entered (d : Dispatch) : Prop where
  store : ∀ id, (d.stores.find? id).isSome = (d.layout.route? id).isSome
  nodup : ∀ {id s}, d.stores.find? id = some s → s.nodes.Nodup
  owned : ∀ {id s m}, d.stores.find? id = some s → (m ∈ s.nodes ↔ d.owner? m = some (.route id))
  owner : ∀ {id m}, d.owner? m = some (.route id) → (d.stores.find? id).isSome
  host : ∀ m, d.host.contains m = true ↔ d.owner? m = some .standalone
  live : ∀ m, (d.layout.node? m).isSome ↔ (d.owner? m).isSome ∨ IsDepot d.layout m
  depot : ∀ {m}, IsDepot d.layout m → d.owner? m = none

/-- Every route owns the clients that it visits, and no other route or the host does. -/
def Reconciled (d : Dispatch) : Prop :=
  ∀ {id r m}, d.layout.route? id = some r → (m ∈ r.clients ↔ d.owner? m = some (.route id))

namespace Entered

theorem route_of_store (h : Entered d) (hs : d.stores.find? id = some s) : ∃ r, d.layout.route? id = some r := by
  rw [← Option.isSome_iff_exists, ← h.store, hs]
  rfl

theorem store_of_route (h : Entered d) (hr : d.layout.route? id = some r) : ∃ s, d.stores.find? id = some s := by
  rw [← Option.isSome_iff_exists, h.store, hr]
  rfl

theorem live_of_owner {o : Owner} (h : Entered d) (ho : d.owner? m = some o) : ∃ n, d.layout.node? m = some n := by
  rw [← Option.isSome_iff_exists, h.live, ho]
  exact Or.inl rfl

theorem not_isDepot {o : Owner} (h : Entered d) (ho : d.owner? m = some o) : ¬IsDepot d.layout m := fun hm => by
  rw [h.depot hm] at ho
  cases ho

/-- The route that holds a node owns it, or the node is one of its depots. -/
theorem holder?_eq_some_iff (h : Entered d) (hl : Seated d.layout) :
    d.holder? m = some id ↔ d.owner? m = some (.route id) ∨ DepotOf d.layout id m := by
  unfold holder?
  cases ho : d.owner? m with
  | some o =>
    have hdepot : ¬DepotOf d.layout id m := fun hm => h.not_isDepot ho ⟨id, hm⟩
    cases o <;> simp [hdepot]
  | none =>
    simp only [reduceCtorEq, false_or]
    constructor
    · intro hroute
      obtain ⟨n, hn, hid⟩ := Option.bind_eq_some_iff.mp hroute
      obtain ⟨r, hr, hm⟩ := hl.mem_of_route hn hid
      -- A live node without an owner is a depot, and it stands in the route of which it is one.
      have hlive := (h.live m).mp (by rw [hn]; rfl)
      rw [ho] at hlive
      obtain ⟨y, s, hs, hdepot⟩ := hlive.resolve_left (by simp)
      have hy : y = id := hl.route_unique hr hs hm (by rcases hdepot with rfl | rfl <;> simp)
      exact ⟨s, hy ▸ hs, hdepot⟩
    · rintro ⟨r, hr, hm⟩
      obtain ⟨n, hn, hid⟩ := hl.live hr (show m ∈ r.visits by rcases hm with rfl | rfl <;> simp)
      rw [hn, Option.bind_some, hid]

/-- Who holds a node depends on its owner and on the routes of which it is a depot. -/
theorem holder?_congr (h : Entered d) (hl : Seated d.layout) (h' : Entered d') (hl' : Seated d'.layout)
    (ho : d'.owner? m = d.owner? m) (hdepots : ∀ id, DepotOf d'.layout id m ↔ DepotOf d.layout id m) :
    d'.holder? m = d.holder? m :=
  Option.ext fun id => by
    rw [h'.holder?_eq_some_iff hl', h.holder?_eq_some_iff hl, ho, hdepots]

end Entered

/-! ### Handles -/

def routeHandles (d : Dispatch) (id : RouteId) : Nat := ((d.stores.find? id).map (·.routeHandles)).getD 0

/-- Every handle is to a node that is there, and every store counts those to the nodes that its route holds. -/
structure Counted (d : Dispatch) : Prop where
  handle : ∀ {m k}, d.handles.find? m = some k → 0 < k ∧ (d.layout.node? m).isSome
  counted : ∀ {id s}, d.stores.find? id = some s → s.nodeHandles = d.countHandles id

/-- Every node of the host has a handle, except perhaps for some nodes. -/
def KeptBut (loose : List NodeId) (d : Dispatch) : Prop :=
  ∀ {m}, d.owner? m = some .standalone → m ∉ loose → 0 < d.handleCount m

/-- The handles that there are according to the books are those of `h`. -/
structure Held (h : Handles) (d : Dispatch) : Prop where
  routes : ∀ id, d.routeHandles id = h.routes.count id
  nodes : ∀ m, d.handleCount m = h.nodes.count m

theorem routeHandles_of_store (hs : d.stores.find? id = some s) : d.routeHandles id = s.routeHandles := by
  unfold routeHandles
  rw [hs]
  rfl

theorem handleCount_congr (h : d'.handles = d.handles) : d'.handleCount = d.handleCount := by
  unfold handleCount
  rw [h]

theorem handleCount_of_find? {k : Nat} (hk : d.handles.find? m = some k) : d.handleCount m = k := by
  unfold handleCount
  rw [hk]
  rfl

theorem find?_handles_of_pos (h : 0 < d.handleCount m) : d.handles.find? m = some (d.handleCount m) := by
  unfold handleCount at h ⊢
  cases hk : d.handles.find? m with
  | none =>
    rw [hk] at h
    cases h
  | some k => rfl

theorem Counted.live (h : Counted d) (hm : 0 < d.handleCount m) : (d.layout.node? m).isSome :=
  (h.handle (find?_handles_of_pos hm)).2

theorem mem_keys_of_handleCount (hm : d.handleCount m ≠ 0) : m ∈ d.handles.keys.toFinset := by
  rw [List.mem_toFinset, Table.mem_keys]
  exact ⟨_, find?_handles_of_pos (Nat.pos_of_ne_zero hm)⟩

theorem foldr_filter_eq_sum (f : NodeId × Nat → Bool) (entries : List (NodeId × Nat)) :
    ((entries.filter f).map (·.2)).foldr (· + ·) 0 = (entries.map fun e => if f e then e.2 else 0).sum := by
  induction entries with
  | nil => rfl
  | cons e entries ih =>
    rw [List.filter_cons, List.map_cons, List.sum_cons]
    split
    · rw [List.map_cons, List.foldr_cons, ih]
    · rw [ih, Nat.zero_add]

/-- The handles that a route counts, as a sum over any nodes among which are all those with a handle. -/
theorem countHandles_eq_sum (S : Finset NodeId) (hS : ∀ m, d.handleCount m ≠ 0 → m ∈ S) :
    d.countHandles id = ∑ m ∈ S, if d.holder? m = some id then d.handleCount m else 0 := by
  let f : NodeId → Nat := fun m => if d.holder? m = some id then d.handleCount m else 0
  have hkeys : d.countHandles id = ∑ m ∈ d.handles.keys.toFinset, f m := by
    rw [List.sum_toFinset f (Table.nodup_keys _), Table.keys, List.map_map]
    unfold countHandles
    rw [foldr_filter_eq_sum]
    refine congrArg List.sum (List.map_congr_left fun e he => ?_)
    rw [Function.comp_apply]
    show _ = if _ then _ else _
    rw [handleCount_of_find? (Table.mem_entries.mp he)]
    simp only [decide_eq_true_eq]
  -- Both sums go over all nodes with a handle, and the others add nothing.
  have hzero : ∀ m, d.handleCount m = 0 → f m = 0 := fun m hm => by
    show (if _ then _ else _) = 0
    rw [hm, ite_self]
  have hunion : ∀ T : Finset NodeId, (∀ m, d.handleCount m ≠ 0 → m ∈ T) → T ⊆ S ∪ d.handles.keys.toFinset →
      ∑ m ∈ T, f m = ∑ m ∈ S ∪ d.handles.keys.toFinset, f m := fun T hT hsub =>
    Finset.sum_subset hsub fun m _ hm => hzero m (by_contra fun hne => hm (hT m hne))
  rw [hkeys, hunion _ (fun _ => mem_keys_of_handleCount) Finset.subset_union_right,
    ← hunion _ hS Finset.subset_union_left]

/-- What a route counts changes only with the handles to a single node and with who holds that node. -/
theorem countHandles_change (m : NodeId) (hcount : ∀ x, x ≠ m → d'.handleCount x = d.handleCount x)
    (hholder : ∀ x, x ≠ m → d.handleCount x ≠ 0 → d'.holder? x = d.holder? x) (id : RouteId) :
    d'.countHandles id + (if d.holder? m = some id then d.handleCount m else 0) =
      d.countHandles id + (if d'.holder? m = some id then d'.handleCount m else 0) := by
  let S : Finset NodeId := {m} ∪ (d.handles.keys.toFinset ∪ d'.handles.keys.toFinset)
  have hm : m ∈ S := Finset.mem_union_left _ (Finset.mem_singleton_self m)
  rw [countHandles_eq_sum (d := d) S fun x hx =>
      Finset.mem_union_right _ (Finset.mem_union_left _ (mem_keys_of_handleCount hx)),
    countHandles_eq_sum (d := d') S fun x hx =>
      Finset.mem_union_right _ (Finset.mem_union_right _ (mem_keys_of_handleCount hx)),
    ← Finset.add_sum_erase S _ hm, ← Finset.add_sum_erase S _ hm]
  have hrest : ∑ x ∈ S.erase m, (if d'.holder? x = some id then d'.handleCount x else 0) =
      ∑ x ∈ S.erase m, (if d.holder? x = some id then d.handleCount x else 0) := by
    refine Finset.sum_congr rfl fun x hx => ?_
    have hne := Finset.ne_of_mem_erase hx
    rw [hcount x hne]
    by_cases hx0 : d.handleCount x = 0
    · rw [hx0, ite_self, ite_self]
    · rw [hholder x hne hx0]
  rw [hrest]
  omega

/-- Equal handles, and equal holders of the nodes that have one, count the same. -/
theorem countHandles_congr (hcount : ∀ x, d'.handleCount x = d.handleCount x)
    (hholder : ∀ x, d.handleCount x ≠ 0 → d'.holder? x = d.holder? x) (id : RouteId) :
    d'.countHandles id = d.countHandles id := by
  rw [countHandles_eq_sum (d := d) _ fun _ => mem_keys_of_handleCount,
    countHandles_eq_sum (d := d') _ fun x hx => mem_keys_of_handleCount (hcount x ▸ hx)]
  refine Finset.sum_congr rfl fun x _ => ?_
  rw [hcount]
  by_cases hx0 : d.handleCount x = 0
  · rw [hx0, ite_self, ite_self]
  · rw [hholder x hx0]

/-- A route counts a handle exactly if it holds a node that has one. -/
theorem countHandles_pos_iff : 0 < d.countHandles id ↔ ∃ m, d.holder? m = some id ∧ 0 < d.handleCount m := by
  rw [countHandles_eq_sum _ fun _ => mem_keys_of_handleCount, Finset.sum_pos_iff]
  constructor
  · rintro ⟨m, -, hm⟩
    split at hm
    · exact ⟨m, ‹_›, hm⟩
    · cases hm
  · rintro ⟨m, hholder, hm⟩
    exact ⟨m, mem_keys_of_handleCount (Nat.ne_of_gt hm), by rwa [if_pos hholder]⟩

/-- A route counts at least the handles to each node that it holds. -/
theorem Counted.handleCount_le (h : Counted d) (hs : d.stores.find? id = some s) (hm : d.holder? m = some id) :
    d.handleCount m ≤ s.nodeHandles := by
  rw [h.counted hs, countHandles_eq_sum ({m} ∪ d.handles.keys.toFinset) fun _ hx =>
    Finset.mem_union_right _ (mem_keys_of_handleCount hx)]
  refine le_trans (Eq.le ?_) (Finset.single_le_sum (fun _ _ => Nat.zero_le _)
    (Finset.mem_union_left _ (Finset.mem_singleton_self m)))
  rw [if_pos hm]

/-- A route that holds a node has a store. -/
theorem Entered.store_of_holder (h : Entered d) (hl : Seated d.layout) (hm : d.holder? m = some id) :
    ∃ s, d.stores.find? id = some s := by
  rcases (h.holder?_eq_some_iff hl).mp hm with ho | ⟨r, hr, -⟩
  · exact Option.isSome_iff_exists.mp (h.owner ho)
  · exact h.store_of_route hr

/-! ### Coherent dispatches -/

/-- Everything is in order, for the handles `h`, except that some routes and some nodes of the host may have
    nothing that keeps them. -/
structure CoherentBut (p : Problem) (h : Handles) (idle : List RouteId) (loose : List NodeId) (d : Dispatch) :
    Prop where
  seated : Seated d.layout
  sited : Sited p d.layout
  current : Current p d.layout
  entered : Entered d
  reconciled : Reconciled d
  counted : Counted d
  kept : KeptBut loose d
  held : Held h d
  busy : ∀ {id s}, d.stores.find? id = some s → id ∉ idle → s.isIdle = false

/-- Everything is in order, for the handles `h`. -/
def Coherent (p : Problem) (h : Handles) (d : Dispatch) : Prop := CoherentBut p h [] [] d

namespace CoherentBut
variable {p : Problem} {h : Handles} {idle idle' : List RouteId} {loose loose' : List NodeId}

theorem mono (hd : CoherentBut p h idle loose d) (hidle : idle ⊆ idle') (hloose : loose ⊆ loose') :
    CoherentBut p h idle' loose' d :=
  { hd with
    kept := fun hm hne => hd.kept hm fun hmem => hne (hloose hmem)
    busy := fun hs hne => hd.busy hs fun hmem => hne (hidle hmem) }

/-- A route to which there is a handle has a store. -/
theorem store_of_held (hd : CoherentBut p h idle loose d) (hid : id ∈ h.routes) :
    ∃ s, d.stores.find? id = some s ∧ 0 < s.routeHandles := by
  have hpos : 0 < d.routeHandles id := by
    rw [hd.held.routes]
    exact List.count_pos_iff.mpr hid
  cases hs : d.stores.find? id with
  | none =>
    unfold Dispatch.routeHandles at hpos
    rw [hs] at hpos
    cases hpos
  | some s => exact ⟨s, rfl, routeHandles_of_store hs ▸ hpos⟩

/-- A node to which there is a handle is there. -/
theorem pos_of_held (hd : CoherentBut p h idle loose d) (hm : m ∈ h.nodes) : 0 < d.handleCount m := by
  rw [hd.held.nodes]
  exact List.count_pos_iff.mpr hm

/-- The order in which handles are listed does not matter. -/
theorem perm {h' : Handles} (hd : CoherentBut p h idle loose d) (hroutes : h.routes.Perm h'.routes)
    (hnodes : h.nodes.Perm h'.nodes) : CoherentBut p h' idle loose d :=
  { hd with
    held := {
      routes := fun id => (hd.held.routes id).trans (hroutes.count_eq id)
      nodes := fun m => (hd.held.nodes m).trans (hnodes.count_eq m) } }

end CoherentBut

end Dispatch
end Fleet
