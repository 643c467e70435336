import Fleet.Proofs.Dispatch.Coherent

/-! What the entries in the books do, one by one. -/

namespace Fleet
namespace Dispatch

variable {α : Type} {d d' : Dispatch} {id : RouteId} {m x : NodeId} {s : Store} {o : Owner}

/-! ### Owners -/

def withOwner (d : Dispatch) (m : NodeId) (o : Owner) : Dispatch :=
  { d with ownership := ⟨d.ownership.owners.insert m o⟩ }

def withoutOwner (d : Dispatch) (m : NodeId) : Dispatch := { d with ownership := ⟨d.ownership.owners.erase m⟩ }

@[simp] theorem owner?_withOwner : (d.withOwner m o).owner? x = if x = m then some o else d.owner? x :=
  Table.find?_insert _ _ _ _

@[simp] theorem owner?_withoutOwner : (d.withoutOwner m).owner? x = if x = m then none else d.owner? x :=
  Table.find?_erase _ _ _

theorem enter_run (ho : d.owner? m = none) : enter m d = .ok () (d.withOwner m .standalone) := by
  have ho : d.ownership.owner? m = none := ho
  unfold enter Ownership.enter
  rw [get_bind_run, ho]
  rfl

theorem assign_run (ho : d.owner? m = some o) (hne : o ≠ .route id) :
    assign m id d = .ok () (d.withOwner m (.route id)) := by
  have ho : d.ownership.owner? m = some o := ho
  unfold assign Ownership.assign
  rw [get_bind_run, ho]
  simp only [if_neg hne]
  rfl

theorem strike_run (ho : d.owner? m = some o) : strike m d = .ok o (d.withoutOwner m) := by
  have ho : d.ownership.owner? m = some o := ho
  unfold strike Ownership.strike
  rw [get_bind_run, ho]
  rfl

/-! ### The host -/

theorem hostIn_run : hostIn m d = .ok () { d with host := d.host.insert m () } := rfl

theorem hostOut_run (hm : d.host.contains m = true) : hostOut m d = .ok () { d with host := d.host.erase m } := by
  unfold hostOut
  rw [get_bind_run, if_pos hm]
  rfl

theorem contains_host_insert : (d.host.insert m ()).contains x = if x = m then true else d.host.contains x := by
  unfold Table.contains
  rw [Table.find?_insert]
  split <;> rfl

theorem contains_host_erase : (d.host.erase m).contains x = if x = m then false else d.host.contains x := by
  unfold Table.contains
  rw [Table.find?_erase]
  split <;> rfl

/-! ### Stores -/

def withStore (d : Dispatch) (id : RouteId) (s : Store) : Dispatch := { d with stores := d.stores.insert id s }

@[simp] theorem find?_withStore {y : RouteId} :
    (d.withStore id s).stores.find? y = if y = id then some s else d.stores.find? y :=
  Table.find?_insert _ _ _ _

theorem store_run (hs : d.stores.find? id = some s) : store id d = .ok s d := by
  unfold store
  rw [get_bind_run, hs]
  rfl

theorem setStore_run : setStore id s d = .ok () (d.withStore id s) := rfl

theorem storeOut_run (hs : d.stores.find? id = some s) (hm : m ∈ s.nodes) :
    storeOut id m d = .ok () (d.withStore id { s with nodes := swapErase m s.nodes }) := by
  unfold storeOut
  rw [bind_ok (store_run hs), if_pos hm]
  rfl

theorem storeIn_run (hs : d.stores.find? id = some s) :
    storeIn id m d = .ok () (d.withStore id { s with nodes := s.nodes ++ [m] }) := by
  unfold storeIn
  rw [bind_ok (store_run hs)]
  rfl

theorem perm_set_idxOf [DecidableEq α] {a b : α} {as : List α} (h : a ∈ as) :
    (as.set (as.idxOf a) b).Perm (b :: as.erase a) := by
  induction as with
  | nil => cases h
  | cons c as ih =>
    by_cases hc : c = a
    · rw [hc, List.idxOf_cons_self, List.set_cons_zero, List.erase_cons_head]
    · have ha : a ∈ as := (List.mem_cons.mp h).resolve_left fun heq => hc heq.symm
      rw [List.idxOf_cons_ne _ hc, List.set_cons_succ, List.erase_cons_tail (by simpa using hc)]
      exact ((ih ha).cons c).trans (.swap b c _)

/-- Only the order of the other elements changes. -/
theorem perm_swapErase [DecidableEq α] {a : α} {as : List α} (h : a ∈ as) : (swapErase a as).Perm (as.erase a) := by
  obtain rfl | ⟨front, last, rfl⟩ := List.eq_nil_or_concat as
  · cases h
  · unfold swapErase
    rw [List.concat_eq_append, List.getLast?_append, List.getLast?_singleton, Option.some_or]
    simp only
    by_cases ha : a ∈ front
    · rw [List.idxOf_append_of_mem ha, List.set_append_left _ _ (List.idxOf_lt_length_of_mem ha), List.dropLast_concat,
        List.erase_append_left _ ha]
      exact (perm_set_idxOf ha).trans (List.perm_append_singleton _ _).symm
    · obtain rfl : a = last := by simpa [ha] using h
      rw [List.idxOf_append_of_notMem ha, List.idxOf_cons_self, List.set_append_right _ _ (by simp)]
      simp [List.erase_append_right _ ha]

theorem mem_swapErase {a b : NodeId} {as : List NodeId} (h : a ∈ as) (hnodup : as.Nodup) :
    b ∈ swapErase a as ↔ b ≠ a ∧ b ∈ as := by
  rw [(perm_swapErase h).mem_iff, hnodup.mem_erase_iff]

theorem nodup_swapErase {a : NodeId} {as : List NodeId} (h : a ∈ as) (hnodup : as.Nodup) : (swapErase a as).Nodup :=
  (perm_swapErase h).nodup_iff.mpr (hnodup.erase a)

/-! ### Handles to the nodes that a route holds -/

theorem countOne_run (hs : d.stores.find? id = some s) :
    countOne id d = .ok () (d.withStore id { s with nodeHandles := s.nodeHandles + 1 }) := by
  unfold countOne
  rw [bind_ok (store_run hs)]
  rfl

theorem less_run {n k : Nat} (h : k ≤ n) : Quantity.less n k = .ok (n - k) := by
  unfold Quantity.less
  rw [if_pos h]

theorem uncountOne_run (hs : d.stores.find? id = some s) (hpos : 0 < s.nodeHandles) :
    uncountOne id d = .ok () (d.withStore id { s with nodeHandles := s.nodeHandles - 1 }) := by
  unfold uncountOne
  rw [bind_ok (store_run hs), less_run hpos]
  rfl

theorem uncountAll_run {count : Nat} {source : Option RouteId}
    (hsource : ∀ id, source = some id → ∃ s, d.stores.find? id = some s ∧ count ≤ s.nodeHandles) :
    ∃ stores, uncountAll m count source d = .ok () { d with stores } ∧ ∀ id, stores.find? id =
      (d.stores.find? id).map fun s => { s with nodeHandles := s.nodeHandles - if source = some id then count else 0 } := by
  cases source with
  | none => exact ⟨d.stores, rfl, fun id => by simp⟩
  | some id =>
    obtain ⟨s, hs, hle⟩ := hsource id rfl
    refine ⟨(d.withStore id { s with nodeHandles := s.nodeHandles - count }).stores, ?_, fun y => ?_⟩
    · simp only [uncountAll]
      rw [bind_ok (store_run hs), if_neg (by omega)]
      rfl
    · rw [find?_withStore]
      split
      · rename_i hy
        simp [hy, hs]
      · rename_i hy
        simp [Ne.symm hy]

theorem countAll_run (count : Nat) {target : Option RouteId}
    (htarget : ∀ id, target = some id → (d.stores.find? id).isSome) :
    ∃ stores, countAll count target d = .ok () { d with stores } ∧ ∀ id, stores.find? id =
      (d.stores.find? id).map fun s => { s with nodeHandles := s.nodeHandles + if target = some id then count else 0 } := by
  cases target with
  | none => exact ⟨d.stores, rfl, fun id => by simp⟩
  | some id =>
    obtain ⟨s, hs⟩ := Option.isSome_iff_exists.mp (htarget id rfl)
    refine ⟨(d.withStore id { s with nodeHandles := s.nodeHandles + count }).stores, ?_, fun y => ?_⟩
    · simp only [countAll]
      rw [bind_ok (store_run hs)]
      rfl
    · rw [find?_withStore]
      split
      · rename_i hy
        simp [hy, hs]
      · rename_i hy
        simp [Ne.symm hy]

/-- The handles to a node count for the one route no longer and for the other one from now on. -/
theorem recount_run {source target : Option RouteId}
    (hsource : ∀ id, source = some id → ∃ s, d.stores.find? id = some s ∧ d.handleCount m ≤ s.nodeHandles)
    (htarget : ∀ id, target = some id → (d.stores.find? id).isSome) :
    ∃ stores, recount m source target d = .ok () { d with stores } ∧ ∀ id, stores.find? id =
      (d.stores.find? id).map fun s => { s with
        nodeHandles := s.nodeHandles - (if source = some id then d.handleCount m else 0) +
          (if target = some id then d.handleCount m else 0) } := by
  unfold recount
  rw [get_bind_run]
  split
  · rename_i hsame
    refine ⟨d.stores, rfl, fun id => ?_⟩
    cases hs : d.stores.find? id with
    | none => rfl
    | some s =>
      have hcount : s.nodeHandles - (if source = some id then d.handleCount m else 0) +
          (if target = some id then d.handleCount m else 0) = s.nodeHandles := by
        rcases hsame with hzero | rfl
        · simp [hzero]
        · split
          · rename_i hid
            obtain ⟨s', hs', hle⟩ := hsource id hid
            rw [hs] at hs'
            cases hs'
            omega
          · rfl
      rw [Option.map_some, hcount]
  · obtain ⟨t, hrun, ht⟩ := uncountAll_run (m := m) hsource
    have htarget' : ∀ id, target = some id → (t.find? id).isSome := fun id hid => by
      rw [ht, Option.isSome_map]
      exact htarget id hid
    obtain ⟨t', hrun', ht'⟩ := countAll_run (d := { d with stores := t }) (d.handleCount m) htarget'
    refine ⟨t', ?_, fun id => ?_⟩
    · rw [bind_ok hrun, hrun']
    · rw [ht', ht, Option.map_map]
      rfl

end Dispatch
end Fleet
