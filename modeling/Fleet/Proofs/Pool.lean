import Fleet.Fault
import Fleet.Pool.Basic
import Mathlib

/-! A pool as a map from keys to values.

    What a pool is apart from its values, its outline, tells which slots are taken and what the next key
    will be. A pool is well formed when its free list names each empty slot once, its size counts the
    others, and every slot has a place that a key can name; this is a matter of the outline alone. In a
    well-formed pool a new key reaches nothing yet, and putting in, taking out and replacing change what one key
    reaches and nothing else. -/

namespace Fleet
namespace Pool

variable {α : Type} {s t : Pool α} {key k : Key} {v : α}

/-! ### Slots -/

/-- What a slot is apart from its value: its generation, and whether it is taken. -/
def slotOutline (slot : Slot α) : UInt32 × Bool := (slot.generation, slot.value.isSome)

/-- What a pool is apart from its values. -/
def outline (s : Pool α) : List (UInt32 × Bool) × List Nat × Nat :=
  (s.slots.toList.map slotOutline, s.free, s.size)

/-- The free list names each empty slot once, the size is the number of the others, and there are no more slots than
    keys can name. -/
structure WellFormed (s : Pool α) : Prop where
  nodup : s.free.Nodup
  free : ∀ i, i ∈ s.free ↔ ∃ g, (s.slots.toList.map slotOutline)[i]? = some (g, false)
  size : s.size = (s.slots.toList.map slotOutline).countP (·.2)
  bound : (s.slots.toList.map slotOutline).length ≤ capacity

theorem WellFormed.of_outline (h : s.WellFormed) (ht : t.outline = s.outline) : t.WellFormed := by
  simp only [outline, Prod.mk.injEq] at ht
  obtain ⟨hslots, hfree, hsize⟩ := ht
  refine ⟨hfree ▸ h.nodup, fun i => ?_, ?_, hslots ▸ h.bound⟩
  · rw [hfree, hslots]
    exact h.free i
  · rw [hsize, hslots]
    exact h.size

theorem WellFormed.size_slots_le (h : s.WellFormed) : s.slots.size ≤ 2 ^ 32 := by
  have hbound := h.bound
  rwa [List.length_map, Array.length_toList] at hbound

theorem wellFormed_empty : (∅ : Pool α).WellFormed where
  nodup := List.nodup_nil
  free i := by simp [EmptyCollection.emptyCollection, empty]
  size := rfl
  bound := Nat.zero_le _

/-- The free list names exactly the empty slots. -/
theorem WellFormed.mem_free_iff (h : s.WellFormed) {i : Nat} : i ∈ s.free ↔ ∃ g, s.slots[i]? = some ⟨g, none⟩ := by
  rw [h.free]
  refine exists_congr fun g => ?_
  rw [List.getElem?_map, Array.getElem?_toList, Option.map_eq_some_iff]
  constructor
  · rintro ⟨⟨g', value⟩, hslot, heq⟩
    simp only [slotOutline, Prod.mk.injEq, Option.isSome_eq_false_iff, Option.isNone_iff_eq_none] at heq
    obtain ⟨rfl, rfl⟩ := heq
    exact hslot
  · intro hslot
    exact ⟨_, hslot, rfl⟩

theorem WellFormed.slot_of_free (h : s.WellFormed) {i : Nat} (hi : i ∈ s.free) :
    ∃ g, s.slots[i]? = some ⟨g, none⟩ :=
  h.mem_free_iff.mp hi

/-! ### What a key reaches -/

theorem get?_eq_some_iff : s.get? key = some v ↔ s.slots[key.index]? = some ⟨key.generation, some v⟩ := by
  unfold get?
  cases hslot : s.slots[key.index]? with
  | none => simp
  | some slot =>
    obtain ⟨g, value⟩ := slot
    by_cases hg : g = key.generation
    · simp [hg]
    · simp [hg]

theorem get?_eq_none_of_slot {g : UInt32} (h : s.slots[key.index]? = some ⟨g, none⟩) : s.get? key = none := by
  unfold get?
  simp [h]

theorem get?_eq_none_of_ne {g : UInt32} {value : Option α} (h : s.slots[key.index]? = some ⟨g, value⟩)
    (hg : g ≠ key.generation) : s.get? key = none := by
  unfold get?
  simp [h, hg]

theorem get?_eq_none_of_size (h : s.slots.size ≤ key.index) : s.get? key = none := by
  unfold get?
  rw [Array.getElem?_eq_none h]

/-- A key reaches the same in two pools that agree on its slot. -/
theorem get?_congr (h : t.slots[key.index]? = s.slots[key.index]?) : t.get? key = s.get? key := by
  unfold get?
  rw [h]

theorem contains_iff : s.contains key = true ↔ ∃ v, s.get? key = some v := Option.isSome_iff_exists

@[simp] theorem get?_empty : (∅ : Pool α).get? key = none :=
  get?_eq_none_of_size (Nat.zero_le _)

/-- Two keys that reach something and share a slot are the same. -/
theorem eq_of_index_eq {w : α} (hkey : s.get? key = some v) (hk : s.get? k = some w)
    (h : key.index = k.index) : key = k := by
  rw [get?_eq_some_iff] at hkey hk
  rw [h, hk] at hkey
  obtain ⟨i, g⟩ := key
  obtain ⟨j, g'⟩ := k
  simp_all

/-- A change of one slot changes nothing for the keys of other slots. -/
theorem get?_setIfInBounds_of_ne {slot : Slot α} {i : Nat} (h : i ≠ key.index) (hs : t.slots = s.slots.setIfInBounds i slot) :
    t.get? key = s.get? key :=
  get?_congr (by rw [hs, Array.getElem?_setIfInBounds_ne h])

theorem getElem?_set_slot {slot : Slot α} {i : Nat} (hi : i < s.slots.size) :
    (s.slots.setIfInBounds i slot)[i]? = some slot := by
  rw [Array.getElem?_setIfInBounds_self_of_lt hi]

theorem index_lt_of_get? (h : s.get? key = some v) : key.index < s.slots.size := by
  rw [get?_eq_some_iff] at h
  exact (Array.getElem?_eq_some_iff.mp h).1

/-! ### Putting in -/

theorem nextKey_of_nil (h : s.free = []) : s.nextKey = ⟨s.slots.size, 0⟩ := by
  unfold nextKey
  rw [h]

theorem nextKey_of_cons {i : Nat} {is : List Nat} {g : UInt32} {value : Option α} (h : s.free = i :: is)
    (hslot : s.slots[i]? = some ⟨g, value⟩) : s.nextKey = ⟨i, g⟩ := by
  unfold nextKey
  rw [h]
  simp [hslot]

theorem insert_of_nil {make : Key → α} (h : s.free = []) :
    s.insert make = (s.nextKey,
      ⟨s.slots.push ⟨0, some (make s.nextKey)⟩, [], s.size + 1⟩) := by
  unfold insert
  simp only [h]

theorem insert_of_cons {make : Key → α} {i : Nat} {is : List Nat} (h : s.free = i :: is) :
    s.insert make = (s.nextKey,
      ⟨s.slots.setIfInBounds i ⟨s.nextKey.generation, some (make s.nextKey)⟩, is, s.size + 1⟩) := by
  unfold insert
  simp only [h]

theorem insert_fst (s : Pool α) (make : Key → α) : (s.insert make).1 = s.nextKey := by
  unfold insert
  split <;> rfl

/-- The next key reaches nothing yet. -/
theorem WellFormed.get?_nextKey (h : s.WellFormed) : s.get? s.nextKey = none := by
  cases hfree : s.free with
  | nil =>
    rw [nextKey_of_nil hfree]
    exact get?_eq_none_of_size (Nat.le_refl _)
  | cons i is =>
    obtain ⟨g, hslot⟩ := h.slot_of_free (i := i) (hfree ▸ List.mem_cons_self)
    rw [nextKey_of_cons hfree hslot]
    exact get?_eq_none_of_slot hslot

/-- After putting in a value its key reaches it, and the other keys reach what they reached. -/
theorem WellFormed.get?_insert (h : s.WellFormed) (make : Key → α) (k : Key) :
    (s.insert make).2.get? k = if k = s.nextKey then some (make s.nextKey) else s.get? k := by
  cases hfree : s.free with
  | nil =>
    rw [insert_of_nil hfree, nextKey_of_nil hfree]
    by_cases hk : k.index = s.slots.size
    · by_cases hg : k.generation = 0
      · have : k = ⟨s.slots.size, 0⟩ := by cases k; simp_all
        rw [if_pos this, get?_eq_some_iff, this]
        simp
      · have : k ≠ ⟨s.slots.size, 0⟩ := fun h' => hg (by rw [h'])
        rw [if_neg this, get?_eq_none_of_size (s := s) (by omega)]
        have hslot : (s.slots.push ⟨0, some (make ⟨s.slots.size, 0⟩)⟩)[k.index]? = some ⟨0, some (make ⟨s.slots.size, 0⟩)⟩ := by
          rw [hk]
          simp
        exact get?_eq_none_of_ne hslot fun h' => hg h'.symm
    · have : k ≠ ⟨s.slots.size, 0⟩ := fun h' => hk (by rw [h'])
      rw [if_neg this]
      refine get?_congr ?_
      show (s.slots.push _)[k.index]? = _
      rw [Array.getElem?_push, if_neg hk]
  | cons i is =>
    obtain ⟨g, hslot⟩ := h.slot_of_free (i := i) (hfree ▸ List.mem_cons_self)
    have hi : i < s.slots.size := (Array.getElem?_eq_some_iff.mp hslot).1
    rw [insert_of_cons hfree, nextKey_of_cons hfree hslot]
    by_cases hk : k.index = i
    · by_cases hg : k.generation = g
      · have : k = ⟨i, g⟩ := by cases k; simp_all
        rw [if_pos this, get?_eq_some_iff, this]
        exact getElem?_set_slot hi
      · have : k ≠ ⟨i, g⟩ := fun h' => hg (by rw [h'])
        rw [if_neg this, get?_eq_none_of_slot (s := s) (hk ▸ hslot)]
        have hslot' : (s.slots.setIfInBounds i ⟨g, some (make ⟨i, g⟩)⟩)[k.index]? = some ⟨g, some (make ⟨i, g⟩)⟩ := by
          rw [hk]
          exact getElem?_set_slot hi
        exact get?_eq_none_of_ne hslot' fun h' => hg h'.symm
    · have : k ≠ ⟨i, g⟩ := fun h' => hk (by rw [h'])
      rw [if_neg this]
      exact get?_setIfInBounds_of_ne (fun h' => hk h'.symm) rfl

/-- What a key reaches stays when a value is put in. -/
theorem WellFormed.get?_insert_of_some (h : s.WellFormed) (hk : s.get? k = some v) (make : Key → α) :
    (s.insert make).2.get? k = some v := by
  have hne : k ≠ s.nextKey := by
    rintro rfl
    rw [h.get?_nextKey] at hk
    cases hk
  rw [h.get?_insert, if_neg hne, hk]

theorem slotOutline_set {slots : Array (Slot α)} {i : Nat} {slot : Slot α} :
    (slots.setIfInBounds i slot).toList.map slotOutline = (slots.toList.map slotOutline).set i (slotOutline slot) := by
  rw [Array.toList_setIfInBounds, List.map_set]

/-- Taking an empty slot makes one more taken slot. -/
theorem countP_set_true {l : List (UInt32 × Bool)} {i : Nat} {g g' : UInt32} (h : l[i]? = some (g, false)) :
    (l.set i (g', true)).countP (·.2) = l.countP (·.2) + 1 := by
  obtain ⟨hi, hget⟩ := List.getElem?_eq_some_iff.mp h
  rw [List.countP_set hi, hget]
  simp

theorem countP_set_false {l : List (UInt32 × Bool)} {i : Nat} {g g' : UInt32} (h : l[i]? = some (g, true)) :
    (l.set i (g', false)).countP (·.2) = l.countP (·.2) - 1 := by
  obtain ⟨hi, hget⟩ := List.getElem?_eq_some_iff.mp h
  rw [List.countP_set hi, hget]
  simp

theorem isFull_eq_true_iff : s.isFull = true ↔ s.free = [] ∧ 2 ^ 32 ≤ s.slots.size := by
  rw [isFull, Bool.and_eq_true, List.isEmpty_iff, decide_eq_true_iff]
  rfl

theorem insert?_eq_some_iff {make : Key → α} {entered : Key × Pool α} :
    s.insert? make = some entered ↔ s.isFull = false ∧ s.insert make = entered := by
  unfold insert?
  cases s.isFull <;> simp

theorem insert?_eq_none_iff {make : Key → α} : s.insert? make = none ↔ s.isFull = true := by
  unfold insert?
  cases s.isFull <;> simp

/-- The pool is full, and the fault names the place that another slot would have. -/
def FullAt (s : Pool α) (fault : Fault) : Prop := s.isFull = true ∧ fault = .broken (.full s.slots.size)

theorem insert?_of_not_full (h : s.isFull = false) (make : Key → α) : s.insert? make = some (s.insert make) :=
  insert?_eq_some_iff.mpr ⟨h, rfl⟩

theorem WellFormed.insert (h : s.WellFormed) (hroom : s.isFull = false) (make : Key → α) :
    (s.insert make).2.WellFormed := by
  cases hfree : s.free with
  | nil =>
    have hsize : ¬2 ^ 32 ≤ s.slots.size := fun hle =>
      Bool.eq_false_iff.mp hroom (isFull_eq_true_iff.mpr ⟨hfree, hle⟩)
    rw [insert_of_nil hfree]
    refine ⟨List.nodup_nil, fun i => ?_, ?_, ?_⟩
    · have hold := h.free i
      rw [hfree] at hold
      simp only [Array.toList_push, List.map_append, List.map_cons, List.map_nil, List.getElem?_append]
      split
      · exact hold
      · rw [List.getElem?_singleton]
        split <;> simp [slotOutline]
    · simp [h.size, slotOutline]
    · simp only [Array.toList_push, List.length_map, List.length_append, Array.length_toList, List.length_singleton]
      exact Nat.not_le.mp hsize
  | cons i is =>
    have hnodup := h.nodup
    rw [hfree, List.nodup_cons] at hnodup
    obtain ⟨g, hi⟩ := (h.free i).mp (hfree ▸ List.mem_cons_self)
    rw [insert_of_cons hfree]
    refine ⟨hnodup.2, fun j => ?_, ?_, ?_⟩
    · have hold := h.free j
      rw [hfree, List.mem_cons] at hold
      simp only [slotOutline_set]
      by_cases hj : j = i
      · subst hj
        rw [List.getElem?_set_self (List.getElem?_eq_some_iff.mp hi).1]
        simp [slotOutline, hnodup.1]
      · rw [List.getElem?_set_ne (fun h' => hj h'.symm), ← hold]
        simp [hj]
    · simp only [slotOutline_set, h.size]
      exact (countP_set_true hi).symm
    · rw [slotOutline_set, List.length_set]
      exact h.bound

/-! ### Taking out -/

theorem erase_of_get? (h : s.get? key = some v) :
    s.erase key = ⟨s.slots.setIfInBounds key.index ⟨key.generation + 1, none⟩, key.index :: s.free, s.size - 1⟩ := by
  unfold erase remove
  rw [h]

theorem erase_of_none (h : s.get? key = none) : s.erase key = s := by
  unfold erase remove
  rw [h]

/-- After taking out what a key reaches, it reaches nothing, and the other keys reach what they reached. -/
theorem get?_erase (s : Pool α) (key k : Key) : (s.erase key).get? k = if k = key then none else s.get? k := by
  cases hget : s.get? key with
  | none =>
    rw [erase_of_none hget]
    split
    · rename_i hk
      rw [hk, hget]
    · rfl
  | some v =>
    rw [erase_of_get? hget]
    have hi := index_lt_of_get? hget
    by_cases hk : k.index = key.index
    · have hnone : (⟨s.slots.setIfInBounds key.index ⟨key.generation + 1, none⟩, key.index :: s.free, s.size - 1⟩ :
          Pool α).get? k = none := get?_eq_none_of_slot (by rw [hk]; exact getElem?_set_slot hi)
      rw [hnone]
      split
      · rfl
      · rename_i hne
        cases hgetk : s.get? k with
        | none => rfl
        | some w => exact absurd (eq_of_index_eq hgetk hget hk) hne
    · rw [if_neg (fun h' => hk (by rw [h']))]
      exact get?_setIfInBounds_of_ne (fun h' => hk h'.symm) rfl

theorem WellFormed.erase (h : s.WellFormed) (key : Key) : (s.erase key).WellFormed := by
  cases hget : s.get? key with
  | none => rwa [erase_of_none hget]
  | some v =>
    have hslot := get?_eq_some_iff.mp hget
    have hi : (s.slots.toList.map slotOutline)[key.index]? = some (key.generation, true) := by
      rw [List.getElem?_map, Array.getElem?_toList, hslot]
      rfl
    have hmem : key.index ∉ s.free := fun hmem => by
      obtain ⟨g, hg⟩ := (h.free key.index).mp hmem
      rw [hi] at hg
      simp at hg
    rw [erase_of_get? hget]
    refine ⟨List.nodup_cons.mpr ⟨hmem, h.nodup⟩, fun j => ?_, ?_, ?_⟩
    · simp only [slotOutline_set, List.mem_cons]
      by_cases hj : j = key.index
      · rw [hj, List.getElem?_set_self (List.getElem?_eq_some_iff.mp hi).1]
        simp [slotOutline]
      · rw [List.getElem?_set_ne (fun h' => hj h'.symm), ← h.free j]
        simp [hj]
    · simp only [slotOutline_set, h.size]
      exact (countP_set_false hi).symm
    · rw [slotOutline_set, List.length_set]
      exact h.bound

/-! ### Replacing -/

theorem set_of_get? (h : s.get? key = some v) (w : α) :
    s.set key w = { s with slots := s.slots.setIfInBounds key.index ⟨key.generation, some w⟩ } := by
  unfold set
  rw [if_pos (contains_iff.mpr ⟨v, h⟩)]

theorem get?_set_of_get? (h : s.get? key = some v) (w : α) (k : Key) :
    (s.set key w).get? k = if k = key then some w else s.get? k := by
  rw [set_of_get? h]
  have hi := index_lt_of_get? h
  by_cases hk : k = key
  · rw [if_pos hk, get?_eq_some_iff, hk]
    exact getElem?_set_slot hi
  · rw [if_neg hk]
    by_cases hindex : k.index = key.index
    · have hg : key.generation ≠ k.generation := fun hg => hk (by cases k; cases key; simp_all)
      rw [get?_eq_none_of_ne (s := s) (by rw [hindex]; exact get?_eq_some_iff.mp h) hg]
      have hslot : (s.slots.setIfInBounds key.index ⟨key.generation, some w⟩)[k.index]? = some ⟨key.generation, some w⟩ := by
        rw [hindex]
        exact getElem?_set_slot hi
      exact get?_eq_none_of_ne hslot hg
    · exact get?_setIfInBounds_of_ne (fun h' => hindex h'.symm) rfl

theorem outline_set (s : Pool α) (key : Key) (w : α) : (s.set key w).outline = s.outline := by
  cases hget : s.get? key with
  | none =>
    unfold set
    rw [if_neg (by rw [contains_iff]; simp [hget])]
  | some v =>
    rw [set_of_get? hget]
    have hi : (s.slots.toList.map slotOutline)[key.index]? = some (key.generation, true) := by
      rw [List.getElem?_map, Array.getElem?_toList, get?_eq_some_iff.mp hget]
      rfl
    obtain ⟨hlt, hget'⟩ := List.getElem?_eq_some_iff.mp hi
    simp only [outline, slotOutline_set, Prod.mk.injEq, and_true]
    show (s.slots.toList.map slotOutline).set key.index (key.generation, true) = _
    rw [← hget', List.set_getElem_self]

theorem get?_modify (s : Pool α) (key : Key) (f : α → α) (k : Key) :
    (s.modify key f).get? k = if k = key then (s.get? key).map f else s.get? k := by
  cases hget : s.get? key with
  | none =>
    have hsame : s.modify key f = s := by
      unfold modify
      rw [hget]
    rw [hsame]
    split
    · rename_i hk
      rw [hk, hget]
      rfl
    · rfl
  | some v =>
    have hset : s.modify key f = s.set key (f v) := by
      unfold modify
      rw [hget, set_of_get? hget]
    rw [hset, get?_set_of_get? hget]
    rfl

theorem set_eq_modify (s : Pool α) (key : Key) (w : α) : s.set key w = s.modify key fun _ => w := by
  unfold set modify contains
  cases s.get? key <;> rfl

/-! ### Two at once -/

theorem valuesAt?_eq {lo hi : Nat} (h : lo < hi) :
    s.valuesAt? lo hi = (s.slots[lo]?.bind Slot.value).bind fun x => (s.slots[hi]?.bind Slot.value).map (x, ·) := by
  have hleft : (s.slots.extract 0 hi)[lo]? = s.slots[lo]? := by
    rw [Array.getElem?_extract, Nat.sub_zero, Nat.zero_add]
    split
    · rfl
    · exact (Array.getElem?_eq_none (by omega)).symm
  have hright : (s.slots.extract hi s.slots.size)[0]? = s.slots[hi]? := by
    rw [Array.getElem?_extract, Nat.add_zero, Nat.min_self]
    split
    · rfl
    · exact (Array.getElem?_eq_none (by omega)).symm
  unfold valuesAt?
  simp only [hleft, hright, Option.map_eq_bind]
  rfl

theorem value_of_get? (h : s.get? key = some v) : s.slots[key.index]?.bind Slot.value = some v := by
  rw [get?_eq_some_iff.mp h]
  rfl

/-- The values of two keys at once are what each key reaches by itself, in either order of their slots. -/
theorem pair?_eq (s : Pool α) (a b : Key) : s.pair? a b =
    if a.index = b.index then none else (s.get? a).bind fun x => (s.get? b).map (x, ·) := by
  unfold pair? contains
  by_cases hindex : a.index = b.index
  · rw [if_pos (.inl hindex), if_pos hindex]
  · rw [if_neg hindex]
    cases ha : s.get? a with
    | none => simp
    | some x =>
      cases hb : s.get? b with
      | none => simp
      | some y =>
        rw [if_neg (by simp [hindex])]
        rcases Nat.lt_or_gt_of_ne hindex with hlt | hlt
        · rw [if_pos hlt, valuesAt?_eq hlt, value_of_get? ha, value_of_get? hb]
        · rw [if_neg (Nat.lt_asymm hlt), valuesAt?_eq hlt, value_of_get? ha, value_of_get? hb]
          rfl

/-- Two keys reach values at once exactly if each of them reaches one and they are not the same key. -/
theorem pair?_eq_some_iff {a b : Key} {x y : α} :
    s.pair? a b = some (x, y) ↔ a ≠ b ∧ s.get? a = some x ∧ s.get? b = some y := by
  rw [pair?_eq]
  constructor
  · intro h
    split at h
    · cases h
    · rename_i hindex
      obtain ⟨x', ha, h⟩ := Option.bind_eq_some_iff.mp h
      obtain ⟨y', hb, heq⟩ := Option.map_eq_some_iff.mp h
      cases heq
      exact ⟨fun heq => hindex (congrArg Key.index heq), ha, hb⟩
  · rintro ⟨hne, ha, hb⟩
    rw [if_neg fun hindex => hne (eq_of_index_eq ha hb hindex), ha, hb]
    rfl

theorem writeAt_eq {lo hi : Nat} {g g' : UInt32} {x y v w : α} (hlt : lo < hi) (hlo : s.slots[lo]? = some ⟨g, some x⟩)
    (hhi : s.slots[hi]? = some ⟨g', some y⟩) :
    s.writeAt lo hi v w =
      { s with slots := (s.slots.setIfInBounds lo ⟨g, some v⟩).setIfInBounds hi ⟨g', some w⟩ } := by
  have hbound : hi < s.slots.size := (Array.getElem?_eq_some_iff.mp hhi).1
  have hslots : (s.writeAt lo hi v w).slots =
      (s.slots.setIfInBounds lo ⟨g, some v⟩).setIfInBounds hi ⟨g', some w⟩ := by
    refine Array.ext_getElem? fun i => ?_
    have hsize : (s.slots.extract 0 hi).size = hi := by
      rw [Array.size_extract]
      omega
    simp only [writeAt, Array.getElem?_append, Array.size_modify, hsize, Array.getElem?_modify,
      Array.getElem?_extract, Array.getElem?_setIfInBounds, Array.size_setIfInBounds]
    grind
  unfold writeAt at hslots ⊢
  rw [← hslots]

theorem setPair_of_pair? {a b : Key} {xy : α × α} (h : s.pair? a b = some xy) (values : α × α) :
    s.setPair a b values = (s.set a values.1).set b values.2 := by
  obtain ⟨hne, ha, hb⟩ := pair?_eq_some_iff.mp h
  have hindex : a.index ≠ b.index := fun hindex => hne (eq_of_index_eq ha hb hindex)
  have hb' : (s.set a values.1).get? b = some xy.2 := by rw [get?_set_of_get? ha, if_neg hne.symm, hb]
  have hslota := get?_eq_some_iff.mp ha
  have hslotb := get?_eq_some_iff.mp hb
  rw [set_of_get? hb', set_of_get? ha]
  unfold setPair
  rw [h]
  rcases Nat.lt_or_gt_of_ne hindex with hlt | hlt
  · simp only [if_pos hlt, writeAt_eq hlt hslota hslotb]
  · simp only [if_neg (Nat.lt_asymm hlt), writeAt_eq hlt hslotb hslota]
    rw [Array.setIfInBounds_comm _ _ hindex.symm]

theorem get?_setPair {a b : Key} {xy : α × α} (h : s.pair? a b = some xy) (values : α × α) (k : Key) :
    (s.setPair a b values).get? k =
      if k = a then some values.1 else if k = b then some values.2 else s.get? k := by
  obtain ⟨hne, ha, hb⟩ := pair?_eq_some_iff.mp h
  have hb' : (s.set a values.1).get? b = some xy.2 := by rw [get?_set_of_get? ha, if_neg hne.symm, hb]
  rw [setPair_of_pair? h, get?_set_of_get? hb', get?_set_of_get? ha]
  by_cases hk : k = a
  · rw [if_pos hk, if_pos hk, if_neg (hk ▸ hne)]
  · rw [if_neg hk, if_neg hk]

theorem setPair_of_none {a b : Key} (h : s.pair? a b = none) (values : α × α) : s.setPair a b values = s := by
  unfold setPair
  rw [h]

theorem outline_setPair (s : Pool α) (a b : Key) (values : α × α) : (s.setPair a b values).outline = s.outline := by
  cases h : s.pair? a b with
  | none => rw [setPair_of_none h]
  | some xy => rw [setPair_of_pair? h, outline_set, outline_set]

theorem set_self (h : s.get? key = some v) : s.set key v = s := by
  rw [set_of_get? h]
  obtain ⟨hi, hget⟩ := Array.getElem?_eq_some_iff.mp (get?_eq_some_iff.mp h)
  have : s.slots.setIfInBounds key.index ⟨key.generation, some v⟩ = s.slots := by
    rw [← hget, Array.setIfInBounds_def, dif_pos hi, Array.set_getElem_self]
  rw [this]

/-! ### Listing -/

theorem mem_entriesFrom {i : Nat} {slots : List (Slot α)} {e : Key × α} :
    e ∈ entriesFrom i slots ↔ i ≤ e.1.index ∧ slots[e.1.index - i]? = some ⟨e.1.generation, some e.2⟩ := by
  obtain ⟨⟨j, g⟩, v⟩ := e
  induction slots generalizing i with
  | nil => simp [entriesFrom]
  | cons slot slots ih =>
    obtain ⟨g', value⟩ := slot
    have hrest : (⟨⟨j, g⟩, v⟩ : Key × α) ∈ entriesFrom (i + 1) slots ↔
        i < j ∧ (⟨g', value⟩ :: slots)[j - i]? = some ⟨g, some v⟩ := by
      rw [ih]
      constructor
      · rintro ⟨hle, h⟩
        have : j - i = (j - (i + 1)) + 1 := by simp only at hle; omega
        exact ⟨hle, by rw [this]; exact h⟩
      · rintro ⟨hlt, h⟩
        have : j - i = (j - (i + 1)) + 1 := by omega
        rw [this] at h
        exact ⟨hlt, h⟩
    cases value with
    | none =>
      simp only [entriesFrom, hrest]
      constructor
      · rintro ⟨hlt, h⟩
        exact ⟨by omega, h⟩
      · rintro ⟨hle, h⟩
        rcases Nat.lt_or_ge i j with hlt | hge
        · exact ⟨hlt, h⟩
        · have : j - i = 0 := Nat.sub_eq_zero_of_le hge
          simp [this] at h
    | some w =>
      simp only [entriesFrom, List.mem_cons, hrest, Prod.mk.injEq, Key.mk.injEq]
      constructor
      · rintro (⟨⟨rfl, rfl⟩, rfl⟩ | ⟨hlt, h⟩)
        · simp
        · exact ⟨by omega, h⟩
      · rintro ⟨hle, h⟩
        rcases Nat.lt_or_ge i j with hlt | hge
        · exact Or.inr ⟨hlt, h⟩
        · have hj : j = i := Nat.le_antisymm hge hle
          subst hj
          simp at h
          exact Or.inl ⟨⟨rfl, h.1.symm⟩, h.2.symm⟩

/-- The entries are what the keys reach. -/
theorem mem_entries {s : Pool α} {e : Key × α} : e ∈ s.entries ↔ s.get? e.1 = some e.2 := by
  rw [get?_eq_some_iff, entries, mem_entriesFrom]
  simp

theorem ascending_entriesFrom (i : Nat) (slots : List (Slot α)) :
    ((entriesFrom i slots).map (·.1.index)).Pairwise (· < ·) := by
  induction slots generalizing i with
  | nil => exact .nil
  | cons slot slots ih =>
    unfold entriesFrom
    split
    · refine List.pairwise_cons.mpr ⟨fun j hj => ?_, ih (i + 1)⟩
      obtain ⟨e, he, rfl⟩ := List.mem_map.mp hj
      exact (mem_entriesFrom.mp he).1
    · exact ih (i + 1)

/-- The entries come by ascending place. -/
theorem ascending_entries (s : Pool α) : (s.entries.map (·.1.index)).Pairwise (· < ·) :=
  ascending_entriesFrom 0 s.slots.toList

theorem nodup_entries (s : Pool α) : (s.entries.map (·.1)).Nodup := by
  refine List.Nodup.of_map Key.index ?_
  rw [List.map_map]
  exact s.ascending_entries.imp Nat.ne_of_lt

theorem length_entriesFrom (i : Nat) (slots : List (Slot α)) :
    (entriesFrom i slots).length = (slots.map slotOutline).countP (·.2) := by
  induction slots generalizing i with
  | nil => rfl
  | cons slot slots ih =>
    obtain ⟨g, value⟩ := slot
    cases value <;> simp [entriesFrom, slotOutline, ih]

theorem WellFormed.size_eq (h : s.WellFormed) : s.size = s.entries.length := by
  rw [h.size, entries, length_entriesFrom]

/-! ### Telling pools apart -/

/-- A pool is told by its outline and by what its keys reach. -/
theorem eq_of_get? (ho : t.outline = s.outline) (hget : ∀ k, t.get? k = s.get? k) : t = s := by
  simp only [outline, Prod.mk.injEq] at ho
  obtain ⟨hslots, hfree, hsize⟩ := ho
  have hslot : ∀ i : Nat, t.slots[i]? = s.slots[i]? := fun i => by
    have hi := congrArg (·[i]?) hslots
    simp only [List.getElem?_map, Array.getElem?_toList] at hi
    cases ht : t.slots[i]? with
    | none =>
      rw [ht] at hi
      exact (Option.map_eq_none_iff.mp hi.symm).symm
    | some a =>
      obtain ⟨g, value⟩ := a
      rw [ht] at hi
      obtain ⟨⟨g', value'⟩, hs, heq⟩ := Option.map_eq_some_iff.mp hi.symm
      simp only [slotOutline, Prod.mk.injEq] at heq
      obtain ⟨rfl, hsome⟩ := heq
      have hk := hget ⟨i, g'⟩
      cases value with
      | none => rw [hs, Option.isSome_eq_false_iff.mp hsome |> Option.isNone_iff_eq_none.mp]
      | some v =>
        have hget' : t.get? ⟨i, g'⟩ = some v := get?_eq_some_iff.mpr ht
        rw [hget'] at hk
        exact (get?_eq_some_iff.mp hk.symm).symm
  obtain ⟨slots, free, size⟩ := t
  obtain ⟨slots', free', size'⟩ := s
  obtain rfl : free = free' := hfree
  obtain rfl : size = size' := hsize
  obtain rfl : slots = slots' := Array.ext_getElem? hslot
  rfl

end Pool
end Fleet
