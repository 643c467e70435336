import Fleet.Problem.Basic
import Fleet.Proofs.Outcome

/-! What a flawless problem provides: every look-up of a location, a vehicle type or a profile that it names
    finds something. -/

namespace Fleet
namespace Problem

variable {p : Problem} {m : Matrix} {location index i j : Nat}

/-! ### The checks one by one -/

theorem flaw?_none (p : Problem) :
    p.countFlaw? = none ∧ (p.distances.toList ++ p.durations.toList).findSome? p.matrixFlaw? = none ∧
      p.depots.toList.zipIdx.findSome? Parts.depotFlaw? = none ∧
      p.clients.toList.zipIdx.findSome? p.clientFlaw? = none ∧ p.fleetFlaw? = none ∧
      p.groups.toList.zipIdx.findSome? p.groupFlaw? = none := by
  have h := p.flawless
  simp only [Parts.flaw?, Option.or_eq_none_iff] at h
  obtain ⟨⟨⟨⟨⟨h1, h2⟩, h3⟩, h4⟩, h5⟩, h6⟩ := h
  exact ⟨h1, h2, h3, h4, h5, h6⟩

theorem profiles_pos (p : Problem) : 0 < p.distances.size := by
  have h := p.flaw?_none.1
  unfold Parts.countFlaw? at h
  split at h
  · cases h
  · split at h
    · cases h
    · rename_i hne
      rw [Array.isEmpty_iff_size_eq_zero] at hne
      omega

theorem size_durations (p : Problem) : p.durations.size = p.distances.size := by
  have h := p.flaw?_none.1
  unfold Parts.countFlaw? at h
  repeat (split at h; · cases h)
  rename_i hsize
  exact (not_not.mp hsize).symm

theorem matrixFlaw?_none (h : m ∈ p.distances.toList ++ p.durations.toList) :
    m.size = p.numLocations ∧ m.hasNegative = false := by
  have hm := List.findSome?_eq_none_iff.mp p.flaw?_none.2.1 m h
  unfold Parts.matrixFlaw? at hm
  split at hm
  · cases hm
  · rename_i hsize
    split at hm
    · cases hm
    · rename_i hneg
      exact ⟨not_not.mp hsize, by simpa using hneg⟩

/-- A check that finds no flaw in a list finds none in any of its elements. -/
theorem flaw?_getElem? {α : Type} {xs : Array α} {check : α × Nat → Option Flaw} {x : α}
    (h : xs.toList.zipIdx.findSome? check = none) (hx : xs[index]? = some x) : check (x, index) = none := by
  refine List.findSome?_eq_none_iff.mp h _ ?_
  rw [List.mk_mem_zipIdx_iff_getElem?, Array.getElem?_toList, hx]

theorem vehicleFlaw?_none {v : VehicleType} (h : p.vehicleTypes[index]? = some v) :
    v.startDepot.toNat < p.numDepots ∧ v.endDepot.toNat < p.numDepots ∧ v.profile.toNat < p.distances.size ∧
      0 ≤ v.unitDistanceCost ∧ 0 ≤ v.unitDurationCost ∧ 0 ≤ v.capacity := by
  have hfleet := p.flaw?_none.2.2.2.2.1
  unfold Parts.fleetFlaw? at hfleet
  split at hfleet
  · cases hfleet
  have hv := flaw?_getElem? hfleet h
  unfold Parts.vehicleFlaw? at hv
  split at hv
  · cases hv
  · rename_i hdepots
    split at hv
    · cases hv
    · rename_i hprofile
      split at hv
      · cases hv
      · rename_i hamounts
        simp only [Bool.or_eq_true, decide_eq_true_eq, not_or, Nat.not_le, Int64.not_lt] at hdepots hamounts
        exact ⟨hdepots.1, hdepots.2, Nat.not_le.mp hprofile, hamounts.1.1, hamounts.1.2, hamounts.2⟩

theorem clientFlaw?_none {c : Client} (h : p.clients[index]? = some c) :
    0 ≤ c.serviceDuration ∧ 0 ≤ c.delivery ∧ p.membershipFlaw? (c, index) = none := by
  have hc := flaw?_getElem? p.flaw?_none.2.2.2.1 h
  unfold Parts.clientFlaw? at hc
  split at hc
  · cases hc
  · split at hc
    · cases hc
    · rename_i hamounts
      simp only [Bool.or_eq_true, decide_eq_true_eq, not_or, Int64.not_lt] at hamounts
      exact ⟨hamounts.1.1, hamounts.2, hc⟩

theorem client?_eq_some_iff {c : Client} :
    p.client? location = some c ↔ p.numDepots ≤ location ∧ p.clients[location - p.numDepots]? = some c := by
  unfold client?
  split
  · rename_i hdepot
    simp [Nat.not_le.mpr hdepot]
  · rename_i hdepot
    simp [Nat.not_lt.mp hdepot]

theorem range_of_client {c : Client} (h : p.client? location = some c) :
    p.numDepots ≤ location ∧ location < p.numLocations := by
  obtain ⟨hdepot, hclient⟩ := client?_eq_some_iff.mp h
  refine ⟨hdepot, ?_⟩
  have hlt := (Array.getElem?_eq_some_iff.mp hclient).1
  show location < p.numDepots + p.clients.size
  omega

/-- What a group lists are clients that name it. -/
theorem client_of_member {g : Group} (h : p.groups[index]? = some g) {l : UInt64} (hl : l ∈ g.clients) :
    ∃ c, p.client? l.toNat = some c ∧ c.group.map UInt64.toNat = some index := by
  have hg := flaw?_getElem? p.flaw?_none.2.2.2.2.2 h
  unfold Parts.groupFlaw? at hg
  split at hg
  · cases hg
  · have hflaw := List.findSome?_eq_none_iff.mp hg l hl
    unfold Parts.memberFlaw? at hflaw
    split at hflaw
    · cases hflaw
    · rename_i hdepot
      split at hflaw
      · cases hflaw
      · rename_i c hclient
        refine ⟨c, client?_eq_some_iff.mpr ⟨Nat.not_lt.mp hdepot, hclient⟩, ?_⟩
        by_contra hstranger
        rw [if_neg hstranger] at hflaw
        cases hflaw

/-- A client that names a group is listed by it. -/
theorem member_of_client {c : Client} {g : UInt64} (h : p.client? location = some c) (hg : c.group = some g) :
    ∃ group, p.groups[g.toNat]? = some group ∧ ∃ l ∈ group.clients, l.toNat = location := by
  obtain ⟨hdepot, hclient⟩ := client?_eq_some_iff.mp h
  have hflaw := (clientFlaw?_none hclient).2.2
  unfold Parts.membershipFlaw? at hflaw
  simp only [hg] at hflaw
  split at hflaw
  · cases hflaw
  · rename_i group hgroup
    split at hflaw
    · rename_i hany
      obtain ⟨l, hl, heq⟩ := List.any_eq_true.mp hany
      refine ⟨group, hgroup, l, hl, (of_decide_eq_true heq).trans ?_⟩
      show p.numDepots + (location - p.numDepots) = location
      omega
    · cases hflaw

theorem range_of_member {g : Group} (h : g ∈ p.groups.toList) {l : UInt64} (hl : l ∈ g.clients) :
    p.numDepots ≤ l.toNat ∧ l.toNat < p.numLocations := by
  obtain ⟨k, hk⟩ := List.mem_iff_getElem?.mp h
  rw [Array.getElem?_toList] at hk
  obtain ⟨c, hc, -⟩ := client_of_member hk hl
  exact range_of_client hc

/-! ### Look-ups -/

theorem vehicleType_run {v : VehicleType} (h : p.vehicleTypes[index]? = some v) : p.vehicleType index = .ok v := by
  unfold vehicleType
  rw [h]

theorem distanceMatrix_run (h : index < p.distances.size) :
    ∃ m, p.distanceMatrix index = .ok m ∧ m.size = p.numLocations := by
  refine ⟨p.distances[index], ?_, (matrixFlaw?_none (List.mem_append_left _ ?_)).1⟩
  · unfold distanceMatrix
    rw [Array.getElem?_eq_getElem h]
  · exact Array.getElem_mem_toList h

theorem durationMatrix_run (h : index < p.distances.size) :
    ∃ m, p.durationMatrix index = .ok m ∧ m.size = p.numLocations := by
  have h' : index < p.durations.size := p.size_durations ▸ h
  refine ⟨p.durations[index], ?_, (matrixFlaw?_none (List.mem_append_right _ ?_)).1⟩
  · unfold durationMatrix
    rw [Array.getElem?_eq_getElem h']
  · exact Array.getElem_mem_toList h'

theorem entry_run (hi : i < m.size) (hj : j < m.size) : ∃ x, m.entry i j = .ok x := by
  have hrow : m.rows[i]? = some m.rows[i] := Array.getElem?_eq_getElem hi
  have hsize : m.rows[i].size = m.size := m.square _ (Array.getElem_mem hi)
  have hentry : m.rows[i][j]? = some m.rows[i][j] := Array.getElem?_eq_getElem (hsize ▸ hj)
  refine ⟨m.rows[i][j].toInt, ?_⟩
  unfold Matrix.entry Matrix.entry?
  rw [hrow]
  simp only
  rw [hentry]
  rfl

theorem window_run (h : location < p.numLocations) : ∃ w, p.window location = .ok w := by
  have h : location < p.depots.size + p.clients.size := h
  unfold window window? client?
  by_cases hdepot : location < p.numDepots
  · have hdepot' : location < p.depots.size := hdepot
    exact ⟨p.depots[location].window, by simp [hdepot, hdepot']⟩
  · have hclient : location - p.numDepots < p.clients.size := by
      unfold numDepots at hdepot ⊢
      omega
    exact ⟨p.clients[location - p.numDepots].window, by simp [hdepot, hclient]⟩

theorem isClient_iff : p.isClient location = true ↔ p.numDepots ≤ location ∧ location < p.numLocations := by
  unfold isClient isDepot
  simp

theorem lt_of_depot (h : location < p.numDepots) : location < p.numLocations :=
  Nat.lt_of_lt_of_le h (Nat.le_add_right _ _)

end Problem
end Fleet
