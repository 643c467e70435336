import Fleet.Proofs.Pool

/-! Slots over time.

    A key reaches a value when its slot is taken and has its generation. A slot that is vacated goes on to the next
    generation, and one that is taken again keeps the one it has: so a key that has stopped to reach a value never
    reaches one again, unless its slot is vacated so often that the generations come round. -/

namespace Fleet
namespace Pool

variable {α : Type} {s t u : Pool α} {key : Key} {i : Nat}

/-- The generation of a slot, and whether it is taken. -/
def slot? (s : Pool α) (i : Nat) : Option (UInt32 × Bool) := s.slots[i]?.map slotOutline

theorem slot?_eq_of_outline (h : t.outline = s.outline) (i : Nat) : t.slot? i = s.slot? i := by
  have hslots : t.slots.toList.map slotOutline = s.slots.toList.map slotOutline := congrArg Prod.fst h
  have hi := congrArg (·[i]?) hslots
  simpa [slot?] using hi

theorem slot?_of_get? {v : α} (h : s.get? key = some v) : s.slot? key.index = some (key.generation, true) := by
  unfold slot?
  rw [get?_eq_some_iff.mp h]
  rfl

theorem get?_isSome_iff : (s.get? key).isSome ↔ s.slot? key.index = some (key.generation, true) := by
  constructor
  · intro h
    obtain ⟨v, hv⟩ := Option.isSome_iff_exists.mp h
    exact slot?_of_get? hv
  · intro h
    unfold slot? at h
    obtain ⟨⟨g, value⟩, hslot, heq⟩ := Option.map_eq_some_iff.mp h
    obtain ⟨rfl, hvalue⟩ := Prod.mk.inj heq
    obtain ⟨v, rfl⟩ := Option.isSome_iff_exists.mp hvalue
    rw [get?_eq_some_iff.mpr hslot]
    rfl

theorem slot?_setIfInBounds {slot : Slot α} {j : Nat} (hj : j < s.slots.size)
    (ht : t.slots = s.slots.setIfInBounds j slot) :
    t.slot? i = if i = j then some (slotOutline slot) else s.slot? i := by
  unfold slot?
  rw [ht]
  by_cases hi : i = j
  · rw [if_pos hi, hi, getElem?_set_slot hj]
    rfl
  · rw [if_neg hi, Array.getElem?_setIfInBounds_ne (Ne.symm hi)]

/-- The next key is that of a new slot, or it has the generation of an empty one. -/
theorem WellFormed.slot?_nextKey (h : s.WellFormed) :
    s.slot? s.nextKey.index = none ∨ s.slot? s.nextKey.index = some (s.nextKey.generation, false) := by
  unfold slot?
  cases hfree : s.free with
  | nil =>
    rw [nextKey_of_nil hfree]
    exact .inl (by simp)
  | cons i is =>
    obtain ⟨g, hslot⟩ := h.slot_of_free (i := i) (hfree ▸ List.mem_cons_self)
    rw [nextKey_of_cons hfree hslot]
    exact .inr (by simp [hslot, slotOutline])

/-! ### Vacating slots -/

/-- Some slots are vacated, and nothing else happens. -/
def Sheds (s t : Pool α) : Prop :=
  ∀ i, t.slot? i = s.slot? i ∨ ∃ g, s.slot? i = some (g, true) ∧ t.slot? i = some (g + 1, false)

namespace Sheds

theorem of_outline (h : t.outline = s.outline) : Sheds s t := fun i => Or.inl (slot?_eq_of_outline h i)

theorem refl (s : Pool α) : Sheds s s := .of_outline rfl

/-- What has been vacated stays so. -/
theorem trans (h : Sheds s t) (h' : Sheds t u) : Sheds s u := by
  intro i
  rcases h i with heq | ⟨g, hs, ht⟩
  · rw [← heq]
    exact h' i
  · rcases h' i with heq' | ⟨g', ht', -⟩
    · exact Or.inr ⟨g, hs, heq'.trans ht⟩
    · rw [ht] at ht'
      simp at ht'

theorem erase (s : Pool α) (key : Key) : Sheds s (s.erase key) := by
  intro i
  cases hget : s.get? key with
  | none =>
    rw [erase_of_none hget]
    exact Or.inl rfl
  | some v =>
    have hslot := slot?_of_get? hget
    rw [erase_of_get? hget, slot?_setIfInBounds (index_lt_of_get? hget) rfl]
    by_cases hi : i = key.index
    · rw [if_pos hi, hi]
      exact Or.inr ⟨key.generation, hslot, rfl⟩
    · rw [if_neg hi]
      exact Or.inl rfl

end Sheds

/-! ### Taking slots -/

/-- Some empty slots are taken in the generation they have, and there may be new slots. -/
def Fills (s t : Pool α) : Prop :=
  ∀ i, t.slot? i = s.slot? i ∨ ∃ g, (s.slot? i = none ∨ s.slot? i = some (g, false)) ∧ t.slot? i = some (g, true)

namespace Fills

theorem of_outline (h : t.outline = s.outline) : Fills s t := fun i => Or.inl (slot?_eq_of_outline h i)

theorem refl (s : Pool α) : Fills s s := .of_outline rfl

/-- What has been taken stays so. -/
theorem trans (h : Fills s t) (h' : Fills t u) : Fills s u := by
  intro i
  rcases h i with heq | ⟨g, hs, ht⟩
  · rw [← heq]
    exact h' i
  · rcases h' i with heq' | ⟨g', ht' | ht', -⟩
    · exact Or.inr ⟨g, hs, heq'.trans ht⟩
    · rw [ht] at ht'
      cases ht'
    · rw [ht] at ht'
      simp at ht'

theorem insert (h : s.WellFormed) (make : Key → α) : Fills s (s.insert make).2 := by
  intro i
  cases hfree : s.free with
  | nil =>
    rw [insert_of_nil hfree]
    by_cases hi : i = s.slots.size
    · refine Or.inr ⟨0, Or.inl ?_, ?_⟩
      · simp [slot?, hi]
      · simp [slot?, hi, slotOutline]
    · refine Or.inl ?_
      simp [slot?, Array.getElem?_push, hi]
  | cons j js =>
    obtain ⟨g, hslot⟩ := h.slot_of_free (i := j) (hfree ▸ List.mem_cons_self)
    have hj : j < s.slots.size := (Array.getElem?_eq_some_iff.mp hslot).1
    rw [insert_of_cons hfree, nextKey_of_cons hfree hslot, slot?_setIfInBounds hj rfl]
    by_cases hi : i = j
    · rw [if_pos hi, hi]
      exact Or.inr ⟨g, Or.inr (by simp [slot?, hslot, slotOutline]), rfl⟩
    · rw [if_neg hi]
      exact Or.inl rfl

end Fills

/-! ### How often a slot is vacated -/

def taken (s : Pool α) (i : Nat) : Bool := (s.slot? i).any (·.2)

/-- How often a slot is vacated in one step, in which slots are either vacated or taken. -/
def vacations (s t : Pool α) (i : Nat) : Nat := if s.taken i && !t.taken i then 1 else 0

theorem vacations_of_slot?_eq (h : t.slot? i = s.slot? i) : vacations s t i = 0 := by
  simp [vacations, taken, h]

theorem vacations_of_fills (h : Fills s t) (i : Nat) : vacations s t i = 0 := by
  rcases h i with heq | ⟨g, -, ht⟩
  · exact vacations_of_slot?_eq heq
  · simp [vacations, taken, ht]

/-- Taking a value out vacates its slot and no other one. -/
theorem vacations_erase_le (s : Pool α) (key : Key) (i : Nat) :
    vacations s (s.erase key) i ≤ if (s.get? key).isSome ∧ key.index = i then 1 else 0 := by
  cases hget : s.get? key with
  | none =>
    rw [erase_of_none hget, vacations_of_slot?_eq rfl]
    exact Nat.zero_le _
  | some v =>
    by_cases hi : key.index = i
    · rw [if_pos ⟨rfl, hi⟩]
      unfold vacations
      split <;> simp
    · refine Nat.le_trans (Nat.le_of_eq (vacations_of_slot?_eq ?_)) (Nat.zero_le _)
      rw [erase_of_get? hget, slot?_setIfInBounds (index_lt_of_get? hget) rfl, if_neg (Ne.symm hi)]

/-- The slot is as it is when it has been vacated `n` times since it was taken in generation `g`. -/
def Aged (s : Pool α) (i : Nat) (g : UInt32) (n : Nat) : Prop :=
  ∃ b, s.slot? i = some (g + UInt32.ofNat n, b) ∧ (n = 0 → b = true)

namespace Aged

variable {g : UInt32} {n : Nat}

theorem start (h : (s.get? key).isSome) : s.Aged key.index key.generation 0 :=
  ⟨true, by rw [get?_isSome_iff.mp h]; simp, fun _ => rfl⟩

theorem step (h : s.Aged i g n) (hstep : Sheds s t ∨ Fills s t) : t.Aged i g (n + vacations s t i) := by
  obtain ⟨b, hs, hb⟩ := h
  have hsame : t.slot? i = s.slot? i → t.Aged i g (n + vacations s t i) := by
    intro heq
    rw [vacations_of_slot?_eq heq]
    exact ⟨b, heq.trans hs, hb⟩
  rcases hstep with hstep | hstep
  · rcases hstep i with heq | ⟨g', hs', ht⟩
    · exact hsame heq
    · have hone : vacations s t i = 1 := by simp [vacations, taken, hs', ht]
      rw [hs] at hs'
      obtain ⟨rfl, rfl⟩ := Prod.mk.inj (Option.some.inj hs')
      rw [hone]
      refine ⟨false, ?_, fun h0 => by omega⟩
      rw [ht, UInt32.ofNat_add, UInt32.add_assoc]
      rfl
  · rcases hstep i with heq | ⟨g', hs', ht⟩
    · exact hsame heq
    · rcases hs' with hs' | hs'
      · rw [hs] at hs'
        cases hs'
      · have hzero : vacations s t i = 0 := by simp [vacations, taken, hs']
        rw [hs] at hs'
        obtain ⟨rfl, rfl⟩ := Prod.mk.inj (Option.some.inj hs')
        rw [hzero]
        exact ⟨true, ht, fun _ => rfl⟩

/-- While a slot has not been vacated its key reaches something. -/
theorem pos_of_none (h : s.Aged key.index key.generation n) (hnone : s.get? key = none) : 0 < n := by
  by_contra hn
  obtain rfl : n = 0 := by omega
  obtain ⟨b, hs, hb⟩ := h
  obtain rfl := hb rfl
  have halive : (s.get? key).isSome := get?_isSome_iff.mpr (by rw [hs]; simp)
  rw [hnone] at halive
  cases halive

/-- The generations have not come round, so the slot has another one now. -/
theorem slot?_ne (h : s.Aged key.index key.generation n) (hpos : 0 < n) (hlt : n < 2 ^ 32) (b : Bool) :
    s.slot? key.index ≠ some (key.generation, b) := by
  intro hslot
  obtain ⟨b', hs, -⟩ := h
  rw [hs] at hslot
  have hg : key.generation + UInt32.ofNat n = key.generation := congrArg Prod.fst (Option.some.inj hslot)
  have hzero : UInt32.ofNat n = 0 := by simpa using hg
  have hn := congrArg UInt32.toNat hzero
  rw [UInt32.toNat_ofNat_of_lt' (by simpa using hlt)] at hn
  simp at hn
  omega

/-- The key is one of an earlier value. -/
theorem get?_eq_none (h : s.Aged key.index key.generation n) (hpos : 0 < n) (hlt : n < 2 ^ 32) :
    s.get? key = none := by
  by_contra hsome
  exact h.slot?_ne hpos hlt true (get?_isSome_iff.mp (Option.isSome_iff_ne_none.mpr hsome))

/-- A key that has stopped to reach a value reaches none later on, while the generations have not come round. -/
theorem stays_none {k : Nat} (h : s.Aged key.index key.generation n) (hnone : s.get? key = none)
    (h' : t.Aged key.index key.generation (n + k)) (hlt : n + k < 2 ^ 32) : t.get? key = none :=
  h'.get?_eq_none (Nat.add_pos_left (h.pos_of_none hnone) k) hlt

end Aged

end Pool
end Fleet
