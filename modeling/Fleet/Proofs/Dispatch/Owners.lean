import Fleet.Dispatch.Placing
import Fleet.Proofs.Dispatch.Books

/-! A node changes its owner.

    Every operation that moves a node from one owner to another, makes it or destroys it, ends with the books
    changed in the same way (`Reassigns`); what that keeps is proved once for all of them. -/

namespace Fleet
namespace Dispatch

open Layout

variable {d d' : Dispatch} {id a b : RouteId} {m x : NodeId} {s s' : Store} {o : Option Owner} {idle : List RouteId}

/-- The route that an owner is, if there is an owner at all. -/
def ownerRoute? (o : Option Owner) : Option RouteId := o.bind ownerRoute

theorem ownerRoute?_eq_some_iff : ownerRoute? o = some id ↔ o = some (.route id) := by
  unfold ownerRoute?
  rcases o with _ | (_ | _) <;> simp [ownerRoute]

/-- The nodes of a store with `m` in it exactly if its route `id` is the owner `o`. -/
structure Restocks (id : RouteId) (m : NodeId) (o : Option Owner) (s s' : Store) : Prop where
  routeHandles : s'.routeHandles = s.routeHandles
  nodup : s'.nodes.Nodup
  nodes : ∀ x, x ∈ s'.nodes ↔ if x = m then o = some (.route id) else x ∈ s.nodes

namespace Restocks

theorem leave (hm : m ∈ s.nodes) (hnodup : s.nodes.Nodup) (ho : o ≠ some (.route id)) :
    Restocks id m o s { s with nodes := swapErase m s.nodes } where
  routeHandles := rfl
  nodup := nodup_swapErase hm hnodup
  nodes x := by
    rw [mem_swapErase hm hnodup]
    split <;> simp_all

theorem arrive (hm : m ∉ s.nodes) (hnodup : s.nodes.Nodup) :
    Restocks id m (some (.route id)) s { s with nodes := s.nodes ++ [m] } where
  routeHandles := rfl
  nodup := by
    rw [List.nodup_append]
    exact ⟨hnodup, List.nodup_singleton m, fun x hx y hy heq => hm (List.mem_singleton.mp hy ▸ heq ▸ hx)⟩
  nodes x := by
    rw [List.mem_append, List.mem_singleton]
    split <;> simp_all

theorem stay (hm : m ∉ s.nodes) (hnodup : s.nodes.Nodup) (ho : o ≠ some (.route id)) : Restocks id m o s s where
  routeHandles := rfl
  nodup := hnodup
  nodes x := by split <;> simp_all

end Restocks

/-- The books of `d'` are those of `d` with `o` as the owner of `m`. -/
structure Reassigns (d : Dispatch) (m : NodeId) (o : Option Owner) (d' : Dispatch) : Prop where
  owner : ∀ x, d'.owner? x = if x = m then o else d.owner? x
  host : ∀ x, d'.host.contains x = true ↔ if x = m then o = some .standalone else d.host.contains x = true
  handles : d'.handles = d.handles
  gone : ∀ {id}, d.stores.find? id = none → d'.stores.find? id = none
  store : ∀ {id s}, d.stores.find? id = some s → ∃ s', d'.stores.find? id = some s' ∧ Restocks id m o s s' ∧
    s'.nodeHandles + (if ownerRoute? (d.owner? m) = some id then d.handleCount m else 0) =
      s.nodeHandles + (if ownerRoute? o = some id then d.handleCount m else 0)

theorem Entered.holder?_of_not_isDepot (h : Entered d) (hl : Seated d.layout) (hm : ¬IsDepot d.layout m) :
    d.holder? m = ownerRoute? (d.owner? m) :=
  Option.ext fun id => by
    rw [h.holder?_eq_some_iff hl, ownerRoute?_eq_some_iff, or_iff_left fun hx => hm ⟨id, hx⟩]

namespace Reassigns

theorem owner_self (h : Reassigns d m o d') : d'.owner? m = o := by
  rw [h.owner, if_pos rfl]

theorem owner_of_ne (h : Reassigns d m o d') (hx : x ≠ m) : d'.owner? x = d.owner? x := by
  rw [h.owner, if_neg hx]

theorem handleCount (h : Reassigns d m o d') (x : NodeId) : d'.handleCount x = d.handleCount x :=
  congrFun (handleCount_congr h.handles) x

/-- Every route owns what it visits if no route visits other nodes than before, except that `m` follows its owner. -/
theorem reconciled (h : Reassigns d m o d') (hd : Reconciled d)
    (hvisits : ∀ {id r}, d'.layout.route? id = some r → (m ∈ r.clients ↔ o = some (.route id)) ∧
      ∃ r₀, d.layout.route? id = some r₀ ∧ ∀ x, x ≠ m → (x ∈ r.clients ↔ x ∈ r₀.clients)) : Reconciled d' := by
  intro id r x hr
  obtain ⟨hm, r₀, hr₀, hothers⟩ := hvisits hr
  rw [h.owner]
  split
  · rename_i hx
    rw [hx, hm]
  · rename_i hx
    rw [hothers x hx]
    exact hd hr₀

theorem isSome_store (h : Reassigns d m o d') (id : RouteId) :
    (d'.stores.find? id).isSome = (d.stores.find? id).isSome := by
  cases hs : d.stores.find? id with
  | none => rw [h.gone hs]
  | some s =>
    obtain ⟨s', hs', -⟩ := h.store hs
    rw [hs']
    rfl

theorem store_back (h : Reassigns d m o d') (hs' : d'.stores.find? id = some s') :
    ∃ s, d.stores.find? id = some s ∧ Restocks id m o s s' ∧
      s'.nodeHandles + (if ownerRoute? (d.owner? m) = some id then d.handleCount m else 0) =
        s.nodeHandles + (if ownerRoute? o = some id then d.handleCount m else 0) := by
  cases hs : d.stores.find? id with
  | none =>
    rw [h.gone hs] at hs'
    cases hs'
  | some s =>
    obtain ⟨s'', hs'', hrestocks⟩ := h.store hs
    rw [hs'] at hs''
    cases hs''
    exact ⟨s, rfl, hrestocks⟩

theorem routeHandles (h : Reassigns d m o d') (id : RouteId) : d'.routeHandles id = d.routeHandles id := by
  cases hs : d.stores.find? id with
  | none =>
    unfold Dispatch.routeHandles
    rw [hs, h.gone hs]
  | some s =>
    obtain ⟨s', hs', hrestocks, -⟩ := h.store hs
    rw [routeHandles_of_store hs, routeHandles_of_store hs', hrestocks.routeHandles]

theorem held {handles : Handles} (h : Reassigns d m o d') (hd : Held handles d) : Held handles d' where
  routes id := by rw [h.routeHandles, hd.routes]
  nodes x := by rw [h.handleCount, hd.nodes]

theorem kept (h : Reassigns d m o d') (hd : KeptBut [] d) : KeptBut [m] d' := by
  intro x hx hne
  rw [List.mem_singleton] at hne
  rw [h.owner_of_ne hne] at hx
  rw [h.handleCount]
  exact hd hx List.not_mem_nil

/-- A node that does not go to the host needs no handle of its own. -/
theorem kept_of_ne (h : Reassigns d m o d') (ho : o ≠ some .standalone) (hd : KeptBut [m] d) : KeptBut [] d' := by
  intro x hx _
  have hne : x ≠ m := by
    rintro rfl
    exact ho (h.owner_self ▸ hx)
  rw [h.owner_of_ne hne] at hx
  rw [h.handleCount]
  exact hd hx (by simpa using hne)

/-- Only the route that the node leaves may have nothing left that keeps it alive. -/
theorem busy (h : Reassigns d m o d') (hd : ∀ {id s}, d.stores.find? id = some s → id ∉ idle → s.isIdle = false)
    (hsource : ∀ id, d.owner? m = some (.route id) → id ∈ idle) (hs' : d'.stores.find? id = some s') (hid : id ∉ idle) :
    s'.isIdle = false := by
  obtain ⟨s, hs, hrestocks, hcount⟩ := h.store_back hs'
  have hbusy := hd hs hid
  rw [if_neg (fun heq => hid (hsource id (ownerRoute?_eq_some_iff.mp heq)))] at hcount
  unfold Store.isIdle at hbusy ⊢
  rw [hrestocks.routeHandles]
  simp only [Bool.and_eq_false_iff, decide_eq_false_iff_not] at hbusy ⊢
  omega

section
variable (h : Reassigns d m o d') (hd : Entered d) (hm : ¬IsDepot d.layout m) (hdepots : SameDepots d.layout d'.layout)
  (hlive : ∀ x, (d'.layout.node? x).isSome = if x = m then o.isSome else (d.layout.node? x).isSome)
  (htarget : ∀ id, o = some (.route id) → (d.stores.find? id).isSome)

include h hd hm hdepots hlive htarget in
theorem entered : Entered d' where
  store id := by rw [h.isSome_store, hd.store, hdepots.isSome]
  nodup hs' := by
    obtain ⟨s, -, hrestocks, -⟩ := h.store_back hs'
    exact hrestocks.nodup
  owned {id s' x} hs' := by
    obtain ⟨s, hs, hrestocks, -⟩ := h.store_back hs'
    rw [hrestocks.nodes, h.owner]
    split
    · rfl
    · exact hd.owned hs
  owner {id x} hx := by
    rw [h.isSome_store]
    rw [h.owner] at hx
    split at hx
    · exact htarget id hx
    · exact hd.owner hx
  host x := by
    rw [h.host, h.owner]
    split
    · rfl
    · exact hd.host x
  live x := by
    rw [hlive, h.owner, hdepots.isDepot]
    split
    · rename_i hx
      rw [hx]
      simp [hm]
    · exact hd.live x
  depot {x} hx := by
    rw [hdepots.isDepot] at hx
    have hne : x ≠ m := fun heq => hm (heq ▸ hx)
    rw [h.owner_of_ne hne]
    exact hd.depot hx

include h hd hm hdepots hlive htarget in
/-- The counts of the stores stay right: the handles to the node count for its new owner. -/
theorem counted (hl : Seated d.layout) (hl' : Seated d'.layout) (hc : Counted d)
    (hgone : o = none → d.handleCount m = 0) : Counted d' where
  handle {x k} hk := by
    rw [h.handles] at hk
    obtain ⟨hpos, hx⟩ := hc.handle hk
    refine ⟨hpos, ?_⟩
    rw [hlive]
    split
    · rename_i heq
      cases ho : o with
      | none =>
        have := hgone ho
        rw [← heq, handleCount_of_find? hk] at this
        omega
      | some o => rfl
    · exact hx
  counted {id s'} hs' := by
    obtain ⟨s, hs, -, hcount⟩ := h.store_back hs'
    have hd' := h.entered hd hm hdepots hlive htarget
    have hholder : ∀ x, x ≠ m → d.handleCount x ≠ 0 → d'.holder? x = d.holder? x := fun x hx _ =>
      hd.holder?_congr hl hd' hl' (h.owner_of_ne hx) fun y => hdepots y x
    have hchange := countHandles_change m (fun x _ => h.handleCount x) hholder id
    have hm' : ¬IsDepot d'.layout m := fun hx => hm (hdepots.isDepot.mp hx)
    rw [hd.holder?_of_not_isDepot hl hm, hd'.holder?_of_not_isDepot hl' hm', h.owner_self, h.handleCount] at hchange
    rw [hc.counted hs] at hcount
    omega

include h hm hdepots hlive htarget in
/-- Everything is in order again when the layout is, and the visits agree with the new owner. -/
theorem coherent {p : Problem} {handles : Handles} {loose loose' : List NodeId}
    (hd : CoherentBut p handles idle loose d) (hl' : Seated d'.layout) (hs' : Sited p d'.layout)
    (hc' : Current p d'.layout) (hrec : Reconciled d') (hgone : o = none → d.handleCount m = 0)
    (hkept : KeptBut loose' d') (hsource : ∀ id, d.owner? m = some (.route id) → id ∈ idle) :
    CoherentBut p handles idle loose' d' where
  seated := hl'
  sited := hs'
  current := hc'
  entered := h.entered hd.entered hm hdepots hlive htarget
  reconciled := hrec
  counted := h.counted hd.entered hm hdepots hlive htarget hd.seated hl' hd.counted hgone
  kept := hkept
  held := h.held hd.held
  busy hs' hid := h.busy hd.busy hsource hs' hid

end

end Reassigns

/-! ### From one owner to another -/

/-- The books of `d'` are those of `d` with `o` as the owner of `m`, but the handles to `m` count as before. -/
structure Rehouses (d : Dispatch) (m : NodeId) (o : Option Owner) (d' : Dispatch) : Prop where
  owner : ∀ x, d'.owner? x = if x = m then o else d.owner? x
  host : ∀ x, d'.host.contains x = true ↔ if x = m then o = some .standalone else d.host.contains x = true
  handles : d'.handles = d.handles
  layout : d'.layout = d.layout
  gone : ∀ {id}, d.stores.find? id = none → d'.stores.find? id = none
  store : ∀ {id s}, d.stores.find? id = some s →
    ∃ s', d'.stores.find? id = some s' ∧ Restocks id m o s s' ∧ s'.nodeHandles = s.nodeHandles

/-- Once the handles to the node are counted for its new owner, all books agree again. -/
theorem Rehouses.recount {d₁ : Dispatch} (h : Entered d) (hl : Seated d.layout) (hc : Counted d)
    (hr : Rehouses d m o d₁) (htarget : ∀ id, o = some (.route id) → (d.stores.find? id).isSome) :
    ∃ d', recount m (ownerRoute? (d.owner? m)) (ownerRoute? o) d₁ = .ok () d' ∧ d'.layout = d.layout ∧
      Reassigns d m o d' ∧ d'.host = d₁.host ∧ ∀ id, d'.stores.find? id = (d₁.stores.find? id).map fun s => { s with
        nodeHandles := s.nodeHandles - (if ownerRoute? (d.owner? m) = some id then d.handleCount m else 0) +
          (if ownerRoute? o = some id then d.handleCount m else 0) } := by
  have hcount : d₁.handleCount m = d.handleCount m := congrFun (handleCount_congr hr.handles) m
  have hsource : ∀ id, ownerRoute? (d.owner? m) = some id →
      ∃ s, d₁.stores.find? id = some s ∧ d₁.handleCount m ≤ s.nodeHandles := fun id hid => by
    have hm := ownerRoute?_eq_some_iff.mp hid
    obtain ⟨s, hs⟩ := Option.isSome_iff_exists.mp (h.owner hm)
    obtain ⟨s', hs', -, hsame⟩ := hr.store hs
    refine ⟨s', hs', ?_⟩
    rw [hsame, hcount]
    exact hc.handleCount_le hs ((h.holder?_eq_some_iff hl).mpr (Or.inl hm))
  have htarget' : ∀ id, ownerRoute? o = some id → (d₁.stores.find? id).isSome := fun id hid => by
    obtain ⟨s, hs⟩ := Option.isSome_iff_exists.mp (htarget id (ownerRoute?_eq_some_iff.mp hid))
    obtain ⟨s', hs', -⟩ := hr.store hs
    rw [hs']
    rfl
  obtain ⟨t, hrun, ht⟩ := recount_run hsource htarget'
  refine ⟨{ d₁ with stores := t }, hrun, hr.layout,
    ⟨hr.owner, hr.host, hr.handles, fun {id} hid => ?_, fun {id s} hs => ?_⟩, rfl, fun id => hcount ▸ ht id⟩
  · show t.find? id = none
    rw [ht, hr.gone hid]
    rfl
  · obtain ⟨s', hs', hrestocks, hsame⟩ := hr.store hs
    have hs'' := ht id
    rw [hs', Option.map_some] at hs''
    refine ⟨_, hs'', ⟨hrestocks.routeHandles, hrestocks.nodup, hrestocks.nodes⟩, ?_⟩
    simp only [hsame, hcount]
    split
    · rename_i hid
      have := hc.handleCount_le hs ((h.holder?_eq_some_iff hl).mpr (Or.inl (ownerRoute?_eq_some_iff.mp hid)))
      omega
    · omega

section
variable (h : Entered d) (hl : Seated d.layout) (hc : Counted d)

theorem Entered.not_mem_store (h : Entered d) (hs : d.stores.find? id = some s) (hm : d.owner? m ≠ some (.route id)) :
    m ∉ s.nodes := fun hmem => hm ((h.owned hs).mp hmem)

/-- The store of the route `id` after a node has gone from `a` to `b`, with the handles to it. -/
def restocked (a b : RouteId) (count : NodeId → Nat) (id : RouteId) (s : Store) (m : NodeId) : Store :=
  if id = a then { s with nodes := swapErase m s.nodes, nodeHandles := s.nodeHandles - count m }
  else if id = b then { s with nodes := s.nodes ++ [m], nodeHandles := s.nodeHandles + count m }
  else s

theorem restocked_of_ne {count : NodeId → Nat} (ha : id ≠ a) (hb : id ≠ b) : restocked a b count id s m = s := by
  unfold restocked
  rw [if_neg ha, if_neg hb]

include h in
/-- From the store of one route to that of another. -/
theorem rehouses_handOver {sa sb : Store} (hsa : d.stores.find? a = some sa) (hsb : d.stores.find? b = some sb)
    (hm : d.owner? m = some (.route a)) (hab : a ≠ b) :
    Rehouses d m (some (.route b))
      (((d.withStore a { sa with nodes := swapErase m sa.nodes }).withStore b { sb with nodes := sb.nodes ++ [m] }).withOwner m
        (.route b)) := by
  have hma : m ∈ sa.nodes := (h.owned hsa).mpr hm
  have hmb : m ∉ sb.nodes := h.not_mem_store hsb (by simp [hm, hab])
  refine ⟨fun x => owner?_withOwner, fun x => ?_, rfl, rfl, fun {id} hid => ?_, fun {id s} hs => ?_⟩
  · show d.host.contains x = true ↔ _
    rw [h.host]
    split
    · rename_i hx
      simp [hx, hm]
    · rfl
  · show ((d.withStore a _).withStore b _).stores.find? id = none
    have hida : id ≠ a := fun heq => by simp [heq, hsa] at hid
    have hidb : id ≠ b := fun heq => by simp [heq, hsb] at hid
    rw [find?_withStore, if_neg hidb, find?_withStore, if_neg hida, hid]
  · show ∃ s', ((d.withStore a _).withStore b _).stores.find? id = some s' ∧ _
    by_cases hidb : id = b
    · rw [hidb, hsb] at hs
      cases hs
      refine ⟨{ sb with nodes := sb.nodes ++ [m] }, by rw [find?_withStore, if_pos hidb], ?_, rfl⟩
      rw [hidb]
      exact .arrive hmb (h.nodup hsb)
    · by_cases hida : id = a
      · rw [hida, hsa] at hs
        cases hs
        refine ⟨{ sa with nodes := swapErase m sa.nodes }, ?_, ?_, rfl⟩
        · rw [find?_withStore, if_neg hidb, find?_withStore, if_pos hida]
        · exact .leave hma (h.nodup hsa) (by simp [Ne.symm hidb])
      · refine ⟨s, by rw [find?_withStore, if_neg hidb, find?_withStore, if_neg hida, hs], ?_, rfl⟩
        exact .stay (h.not_mem_store hs (by simp [hm, Ne.symm hida])) (h.nodup hs) (by simp [Ne.symm hidb])

include h hl hc in
theorem handOver_run (hm : d.owner? m = some (.route a)) (hab : a ≠ b) (hb : (d.stores.find? b).isSome) :
    ∃ d', handOver m a b d = .ok () d' ∧ d'.layout = d.layout ∧ Reassigns d m (some (.route b)) d' ∧ d'.host = d.host ∧
      ∀ id, d'.stores.find? id = (d.stores.find? id).map (restocked a b d.handleCount id · m) := by
  obtain ⟨sa, hsa⟩ := Option.isSome_iff_exists.mp (h.owner hm)
  obtain ⟨sb, hsb⟩ := Option.isSome_iff_exists.mp hb
  have hma : m ∈ sa.nodes := (h.owned hsa).mpr hm
  let d₁ := d.withStore a { sa with nodes := swapErase m sa.nodes }
  have hsb₁ : d₁.stores.find? b = some sb := by rw [find?_withStore, if_neg hab.symm, hsb]
  let d₂ := d₁.withStore b { sb with nodes := sb.nodes ++ [m] }
  obtain ⟨d', hrun, hlayout, hd', hhost, hstores⟩ :=
    (rehouses_handOver h hsa hsb hm hab).recount h hl hc fun id hid => by
      cases hid
      exact hb
  refine ⟨d', ?_, hlayout, hd', hhost, fun id => ?_⟩
  · unfold handOver
    rw [bind_ok (storeOut_run hsa hma), bind_ok (storeIn_run hsb₁),
      bind_ok (assign_run (d := d₂) hm fun heq => hab (by cases heq; rfl))]
    rw [hm] at hrun
    exact hrun
  · have hsource : ownerRoute? (d.owner? m) = some id ↔ id = a := by
      rw [ownerRoute?_eq_some_iff, hm, Option.some.injEq, Owner.route.injEq, eq_comm]
    have htarget : ownerRoute? (some (.route b)) = some id ↔ id = b := by
      rw [ownerRoute?_eq_some_iff, Option.some.injEq, Owner.route.injEq, eq_comm]
    have hstores₂ : (d₂.withOwner m (.route b)).stores.find? id = if id = b then some { sb with nodes := sb.nodes ++ [m] }
        else if id = a then some { sa with nodes := swapErase m sa.nodes } else d.stores.find? id := by
      refine find?_withStore.trans ?_
      rw [find?_withStore]
    rw [hstores, hstores₂]
    simp only [hsource, htarget]
    unfold restocked
    by_cases hida : id = a
    · simp [hida, hab, hsa]
    · by_cases hidb : id = b
      · simp [hidb, hab.symm, hsb]
      · simp [hida, hidb]

include h in
/-- From the host to the store of a route. -/
theorem rehouses_takeIn (hs : d.stores.find? b = some s) (hm : d.owner? m = some .standalone) :
    Rehouses d m (some (.route b))
      ((({ d with host := d.host.erase m } : Dispatch).withStore b { s with nodes := s.nodes ++ [m] }).withOwner m (.route b)) := by
  have hmb : m ∉ s.nodes := h.not_mem_store hs (by simp [hm])
  refine ⟨fun x => owner?_withOwner, fun x => ?_, rfl, rfl, fun {id} hid => ?_, fun {id t} ht => ?_⟩
  · show (d.host.erase m).contains x = true ↔ _
    rw [contains_host_erase]
    split <;> simp
  · show (d.withStore b _).stores.find? id = none
    have hidb : id ≠ b := fun heq => by simp [heq, hs] at hid
    rw [find?_withStore, if_neg hidb, hid]
  · show ∃ s', (d.withStore b _).stores.find? id = some s' ∧ _
    by_cases hidb : id = b
    · rw [hidb, hs] at ht
      cases ht
      refine ⟨{ s with nodes := s.nodes ++ [m] }, by rw [find?_withStore, if_pos hidb], ?_, rfl⟩
      rw [hidb]
      exact .arrive hmb (h.nodup hs)
    · refine ⟨t, by rw [find?_withStore, if_neg hidb, ht], ?_, rfl⟩
      exact .stay (h.not_mem_store ht (by simp [hm])) (h.nodup ht) (by simp [Ne.symm hidb])

include h hl hc in
theorem takeIn_run (hm : d.owner? m = some .standalone) (hb : (d.stores.find? b).isSome) :
    ∃ d', takeIn m b d = .ok () d' ∧ d'.layout = d.layout ∧ Reassigns d m (some (.route b)) d' := by
  obtain ⟨s, hs⟩ := Option.isSome_iff_exists.mp hb
  let d₁ : Dispatch := { d with host := d.host.erase m }
  let d₂ := d₁.withStore b { s with nodes := s.nodes ++ [m] }
  obtain ⟨d', hrun, hlayout, hd', -⟩ := (rehouses_takeIn h hs hm).recount h hl hc fun id hid => by
    cases hid
    exact hb
  refine ⟨d', ?_, hlayout, hd'⟩
  unfold takeIn
  rw [bind_ok (hostOut_run ((h.host m).mpr hm)), bind_ok (storeIn_run (d := d₁) hs),
    bind_ok (assign_run (d := d₂) hm (by simp))]
  rw [hm] at hrun
  exact hrun

include h in
/-- From the store of a route to the host: the entries that `remove` makes, but for the count. -/
theorem rehouses_letGo (hs : d.stores.find? a = some s) (hm : d.owner? m = some (.route a)) :
    Rehouses d m (some .standalone)
      { ((d.withoutOwner m).withStore a { s with nodes := swapErase m s.nodes }).withOwner m .standalone with
        host := d.host.insert m () } := by
  have hms : m ∈ s.nodes := (h.owned hs).mpr hm
  refine ⟨fun x => ?_, fun x => ?_, rfl, rfl, fun {id} hid => ?_, fun {id t} ht => ?_⟩
  · show (((d.withoutOwner m).withStore a _).withOwner m .standalone).owner? x = _
    rw [owner?_withOwner]
    split
    · rfl
    · rename_i hx
      exact owner?_withoutOwner.trans (if_neg hx)
  · show (d.host.insert m ()).contains x = true ↔ _
    rw [contains_host_insert]
    split <;> simp
  · show (d.withStore a _).stores.find? id = none
    have hida : id ≠ a := fun heq => by simp [heq, hs] at hid
    rw [find?_withStore, if_neg hida, hid]
  · show ∃ s', (d.withStore a _).stores.find? id = some s' ∧ _
    by_cases hida : id = a
    · rw [hida, hs] at ht
      cases ht
      refine ⟨{ s with nodes := swapErase m s.nodes }, ?_, ?_, rfl⟩
      · rw [find?_withStore, if_pos hida]
      · exact .leave hms (h.nodup hs) (by simp)
    · refine ⟨t, by rw [find?_withStore, if_neg hida, ht], ?_, rfl⟩
      exact .stay (h.not_mem_store ht (by simp [hm, Ne.symm hida])) (h.nodup ht) (by simp)

end

/-- A node without an owner becomes the host's. -/
theorem reassigns_hostIn (h : Entered d) (hm : d.owner? m = none) :
    Reassigns d m (some .standalone) { d.withOwner m .standalone with host := d.host.insert m () } := by
  refine ⟨fun x => owner?_withOwner, fun x => ?_, rfl, fun hid => hid, fun {id s} hs => ⟨s, hs, ?_, ?_⟩⟩
  · show (d.host.insert m ()).contains x = true ↔ _
    rw [contains_host_insert]
    split <;> simp
  · exact .stay (h.not_mem_store hs (by simp [hm])) (h.nodup hs) (by simp)
  · simp [hm, ownerRoute?, ownerRoute]

/-- A node of the host is struck out. -/
theorem reassigns_hostOut (h : Entered d) (hm : d.owner? m = some .standalone) :
    Reassigns d m none (({ d with host := d.host.erase m } : Dispatch).withoutOwner m) := by
  refine ⟨fun x => owner?_withoutOwner, fun x => ?_, rfl, fun hid => hid, fun {id s} hs => ⟨s, hs, ?_, ?_⟩⟩
  · show (d.host.erase m).contains x = true ↔ _
    rw [contains_host_erase]
    split <;> simp
  · exact .stay (h.not_mem_store hs (by simp [hm])) (h.nodup hs) (by simp)
  · simp [hm, ownerRoute?, ownerRoute]

end Dispatch
end Fleet
