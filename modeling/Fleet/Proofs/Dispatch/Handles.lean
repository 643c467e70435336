import Fleet.Proofs.Dispatch.Owners

/-! The handles to a node become more or fewer, and the route that holds the node counts along. -/

namespace Fleet
namespace Dispatch

open Layout

variable {d d' : Dispatch} {id : RouteId} {m x : NodeId} {s s' : Store} {count : Nat} {idle : List RouteId}

/-- The books of `d'` are those of `d` with so many handles to `m`. -/
structure Rehandles (d : Dispatch) (m : NodeId) (count : Nat) (d' : Dispatch) : Prop where
  layout : d'.layout = d.layout
  ownership : d'.ownership = d.ownership
  host : d'.host = d.host
  handle : ∀ x, d'.handles.find? x =
    if x = m then (if count = 0 then none else some count) else d.handles.find? x
  gone : ∀ {id}, d.stores.find? id = none → d'.stores.find? id = none
  store : ∀ {id s}, d.stores.find? id = some s → ∃ s', d'.stores.find? id = some s' ∧ s'.nodes = s.nodes ∧
    s'.routeHandles = s.routeHandles ∧ s'.nodeHandles + (if d.holder? m = some id then d.handleCount m else 0) =
      s.nodeHandles + (if d.holder? m = some id then count else 0)

namespace Rehandles

theorem owner? (h : Rehandles d m count d') (x : NodeId) : d'.owner? x = d.owner? x := by
  unfold Dispatch.owner?
  rw [h.ownership]

theorem holder? (h : Rehandles d m count d') (x : NodeId) : d'.holder? x = d.holder? x := by
  unfold Dispatch.holder?
  rw [h.owner?, h.layout]

theorem handleCount (h : Rehandles d m count d') (x : NodeId) :
    d'.handleCount x = if x = m then count else d.handleCount x := by
  unfold Dispatch.handleCount
  rw [h.handle]
  split
  · split
    · rename_i hzero
      rw [hzero]
      rfl
    · rfl
  · rfl

theorem store_back (h : Rehandles d m count d') (hs' : d'.stores.find? id = some s') :
    ∃ s, d.stores.find? id = some s ∧ s'.nodes = s.nodes ∧ s'.routeHandles = s.routeHandles ∧
      s'.nodeHandles + (if d.holder? m = some id then d.handleCount m else 0) =
        s.nodeHandles + (if d.holder? m = some id then count else 0) := by
  cases hs : d.stores.find? id with
  | none =>
    rw [h.gone hs] at hs'
    cases hs'
  | some s =>
    obtain ⟨s'', hs'', hsame⟩ := h.store hs
    rw [hs'] at hs''
    cases hs''
    exact ⟨s, rfl, hsame⟩

theorem isSome_store (h : Rehandles d m count d') (id : RouteId) :
    (d'.stores.find? id).isSome = (d.stores.find? id).isSome := by
  cases hs : d.stores.find? id with
  | none => rw [h.gone hs]
  | some s =>
    obtain ⟨s', hs', -⟩ := h.store hs
    rw [hs']
    rfl

theorem routeHandles (h : Rehandles d m count d') (id : RouteId) : d'.routeHandles id = d.routeHandles id := by
  cases hs : d.stores.find? id with
  | none =>
    unfold Dispatch.routeHandles
    rw [hs, h.gone hs]
  | some s =>
    obtain ⟨s', hs', -, hroute, -⟩ := h.store hs
    rw [routeHandles_of_store hs, routeHandles_of_store hs', hroute]

theorem entered (h : Rehandles d m count d') (hd : Entered d) : Entered d' where
  store id := by rw [h.isSome_store, h.layout, hd.store]
  nodup hs' := by
    obtain ⟨s, hs, hnodes, -⟩ := h.store_back hs'
    rw [hnodes]
    exact hd.nodup hs
  owned hs' := by
    obtain ⟨s, hs, hnodes, -⟩ := h.store_back hs'
    rw [hnodes, h.owner?]
    exact hd.owned hs
  owner hx := by
    rw [h.isSome_store]
    rw [h.owner?] at hx
    exact hd.owner hx
  host x := by
    rw [h.host, h.owner?]
    exact hd.host x
  live x := by
    rw [h.layout, h.owner?]
    exact hd.live x
  depot hx := by
    rw [h.owner?]
    rw [h.layout] at hx
    exact hd.depot hx

theorem counted (h : Rehandles d m count d') (hd : Counted d) (hm : (d.layout.node? m).isSome) : Counted d' where
  handle {x k} hk := by
    rw [h.handle] at hk
    rw [h.layout]
    split at hk
    · rename_i hx
      split at hk
      · cases hk
      · rename_i hzero
        cases hk
        exact ⟨Nat.pos_of_ne_zero hzero, hx ▸ hm⟩
    · exact hd.handle hk
  counted {id s'} hs' := by
    obtain ⟨s, hs, -, -, hcount⟩ := h.store_back hs'
    have hothers : ∀ x, x ≠ m → d'.handleCount x = d.handleCount x := fun x hx => by rw [h.handleCount, if_neg hx]
    have hchange := countHandles_change m hothers (fun x _ _ => h.holder? x) id
    rw [h.holder?, h.handleCount, if_pos rfl] at hchange
    rw [hd.counted hs] at hcount
    omega

theorem reconciled (h : Rehandles d m count d') (hd : Reconciled d) : Reconciled d' := by
  intro id r x hr
  rw [h.layout] at hr
  rw [h.owner?]
  exact hd hr

theorem kept (h : Rehandles d m count d') (hd : KeptBut [m] d) (hm : 0 < count ∨ d.owner? m ≠ some .standalone) :
    KeptBut [] d' := by
  intro x hx _
  rw [h.owner?] at hx
  rw [h.handleCount]
  split
  · rename_i heq
    exact hm.resolve_right fun hne => hne (heq ▸ hx)
  · rename_i hne
    exact hd hx (by simpa using hne)

/-- Only the route that holds the node may have nothing left that keeps it alive. -/
theorem busy (h : Rehandles d m count d') (hd : ∀ {id s}, d.stores.find? id = some s → id ∉ idle → s.isIdle = false)
    (hholder : ∀ id, d.holder? m = some id → id ∈ idle ∨ d.handleCount m ≤ count)
    (hs' : d'.stores.find? id = some s') (hid : id ∉ idle) : s'.isIdle = false := by
  obtain ⟨s, hs, -, hroute, hcount⟩ := h.store_back hs'
  have hbusy := hd hs hid
  unfold Store.isIdle at hbusy ⊢
  rw [hroute]
  simp only [Bool.and_eq_false_iff, decide_eq_false_iff_not] at hbusy ⊢
  by_cases hheld : d.holder? m = some id
  · have hle := (hholder id hheld).resolve_left hid
    rw [if_pos hheld, if_pos hheld] at hcount
    omega
  · rw [if_neg hheld, if_neg hheld] at hcount
    omega

theorem held {handles handles' : Handles} (h : Rehandles d m count d') (hd : Held handles d)
    (hroutes : handles'.routes = handles.routes)
    (hnodes : ∀ x, handles'.nodes.count x = if x = m then count else handles.nodes.count x) : Held handles' d' where
  routes id := by rw [h.routeHandles, hd.routes, hroutes]
  nodes x := by rw [h.handleCount, hd.nodes, hnodes]

/-- Everything is in order again, for the new handles. -/
theorem coherent {p : Problem} {handles handles' : Handles} {loose loose' : List NodeId} (h : Rehandles d m count d')
    (hd : CoherentBut p handles idle loose d) (hm : (d.layout.node? m).isSome)
    (hroutes : handles'.routes = handles.routes)
    (hnodes : ∀ x, handles'.nodes.count x = if x = m then count else handles.nodes.count x)
    (hkept : KeptBut loose' d') (hholder : ∀ id, d.holder? m = some id → id ∈ idle ∨ d.handleCount m ≤ count) :
    CoherentBut p handles' idle loose' d' where
  seated := h.layout ▸ hd.seated
  sited := h.layout ▸ hd.sited
  current := h.layout ▸ hd.current
  entered := h.entered hd.entered
  reconciled := h.reconciled hd.reconciled
  counted := h.counted hd.counted hm
  kept := hkept
  held := h.held hd.held hroutes hnodes
  busy hs' hid := h.busy hd.busy hholder hs' hid

end Rehandles

/-! ### One handle more, one handle less -/

theorem shareNode_run (h : Entered d) (hl : Seated d.layout) :
    ∃ d', shareNode m d = .ok m d' ∧ Rehandles d m (d.handleCount m + 1) d' := by
  let d₁ : Dispatch := { d with handles := d.handles.insert m (d.handleCount m + 1) }
  have hhandle : ∀ x, d₁.handles.find? x =
      if x = m then (if d.handleCount m + 1 = 0 then none else some (d.handleCount m + 1)) else d.handles.find? x :=
    fun x => Table.find?_insert _ _ _ _
  have hholder : ({ d with handles := d.handles.insert m (d.handleCount m + 1) } : Dispatch).holder? m = d.holder? m := rfl
  unfold shareNode
  rw [modify_bind_run, get_bind_run, hholder]
  cases hm : d.holder? m with
  | none => exact ⟨d₁, rfl, rfl, rfl, rfl, hhandle, fun hid => hid, fun {id s} hs => ⟨s, hs, rfl, rfl, by simp [hm]⟩⟩
  | some id =>
    obtain ⟨s, hs⟩ := h.store_of_holder hl hm
    refine ⟨d₁.withStore id { s with nodeHandles := s.nodeHandles + 1 }, ?_, rfl, rfl, rfl, hhandle, ?_, ?_⟩
    · simp only
      rw [bind_ok (countOne_run (d := d₁) hs)]
      rfl
    · intro y hy
      have hyid : y ≠ id := fun heq => by simp [heq, hs] at hy
      rw [find?_withStore, if_neg hyid]
      exact hy
    · intro y t ht
      by_cases hy : y = id
      · rw [hy, hs] at ht
        cases ht
        refine ⟨{ s with nodeHandles := s.nodeHandles + 1 }, by rw [find?_withStore, if_pos hy], rfl, rfl, ?_⟩
        rw [hy, if_pos hm, if_pos hm]
        show s.nodeHandles + 1 + d.handleCount m = _
        omega
      · refine ⟨t, by rw [find?_withStore, if_neg hy]; exact ht, rfl, rfl, ?_⟩
        rw [if_neg (by simpa [hm] using Ne.symm hy), if_neg (by simpa [hm] using Ne.symm hy)]

/-- Giving up a handle takes it off the books; after that the route that holds the node, or the node itself, may
    have to go. -/
theorem releaseNode_run (h : Entered d) (hl : Seated d.layout) (hc : Counted d) (hpos : 0 < d.handleCount m) :
    ∃ d₁, Rehandles d m (d.handleCount m - 1) d₁ ∧ releaseNode m d = ((d.holder? m).elim
      (if d.handleCount m - 1 = 0 then destroyStandalone m else pure ()) retire) d₁ := by
  let handles := if d.handleCount m - 1 = 0 then d.handles.erase m else d.handles.insert m (d.handleCount m - 1)
  let d₁ : Dispatch := { d with handles }
  have hdrop : dropHandle m d = .ok (d.handleCount m - 1) d₁ := by
    unfold dropHandle
    rw [get_bind_run, find?_handles_of_pos hpos]
    have hless : Quantity.less (d.handleCount m) 1 = .ok (d.handleCount m - 1) := less_run hpos
    simp only [hless, ofResult_ok_bind, d₁, handles]
    split <;> rfl
  have hhandle : ∀ x, d₁.handles.find? x =
      if x = m then (if d.handleCount m - 1 = 0 then none else some (d.handleCount m - 1)) else d.handles.find? x :=
    fun x => by
      show handles.find? x = _
      simp only [handles]
      split
      · exact Table.find?_erase _ _ _
      · exact Table.find?_insert _ _ _ _
  unfold releaseNode
  rw [bind_ok hdrop, get_bind_run, show d₁.holder? m = d.holder? m from rfl]
  cases hm : d.holder? m with
  | none =>
    refine ⟨d₁, ⟨rfl, rfl, rfl, hhandle, fun hid => hid, fun {id s} hs => ⟨s, hs, rfl, rfl, by simp [hm]⟩⟩, rfl⟩
  | some id =>
    obtain ⟨s, hs⟩ := h.store_of_holder hl hm
    have hle := hc.handleCount_le hs hm
    have hrun := uncountOne_run (d := d₁) hs (by omega)
    refine ⟨d₁.withStore id { s with nodeHandles := s.nodeHandles - 1 }, ⟨rfl, rfl, rfl, hhandle, ?_, ?_⟩, ?_⟩
    · intro y hy
      have hyid : y ≠ id := fun heq => by simp [heq, hs] at hy
      rw [find?_withStore, if_neg hyid]
      exact hy
    · intro y t ht
      by_cases hy : y = id
      · rw [hy, hs] at ht
        cases ht
        refine ⟨{ s with nodeHandles := s.nodeHandles - 1 }, by rw [find?_withStore, if_pos hy], rfl, rfl, ?_⟩
        rw [hy, if_pos hm, if_pos hm]
        show s.nodeHandles - 1 + d.handleCount m = _
        omega
      · refine ⟨t, by rw [find?_withStore, if_neg hy]; exact ht, rfl, rfl, ?_⟩
        rw [if_neg (by simpa [hm] using Ne.symm hy), if_neg (by simpa [hm] using Ne.symm hy)]
    · simp only [Option.elim_some]
      rw [bind_ok hrun]

end Dispatch
end Fleet
