import Fleet.Proofs.Stretch.Clock
import Fleet.Proofs.Totals

/-! No totals of a tour are below zero, and while the penalties are not, no cost is.

    The amounts of a flawless problem are not below zero. Waiting and time warp are what is above zero of something,
    so the depots may even be closed all the time. -/

namespace Fleet

open Quantity

variable {p : Problem}

namespace Problem

theorem serviceDuration_nonneg (p : Problem) (location : Nat) : 0 ≤ p.serviceDuration location := by
  unfold serviceDuration
  cases hc : p.client? location with
  | none => exact le_rfl
  | some c =>
    unfold client? at hc
    split at hc
    · cases hc
    · exact Int64.le_iff_toInt_le.mp (clientFlaw?_none hc).1

theorem distanceMatrix_nonneg {profile : Nat} {m : Matrix} (h : p.distanceMatrix profile = .ok m) :
    m.hasNegative = false := by
  unfold distanceMatrix at h
  split at h
  · rename_i matrix hmatrix
    cases h
    exact (matrixFlaw?_none (List.mem_append_left _ (Array.mem_toList_iff.mpr (Array.mem_of_getElem? hmatrix)))).2
  · cases h

theorem durationMatrix_nonneg {profile : Nat} {m : Matrix} (h : p.durationMatrix profile = .ok m) :
    m.hasNegative = false := by
  unfold durationMatrix at h
  split at h
  · rename_i matrix hmatrix
    cases h
    exact (matrixFlaw?_none (List.mem_append_right _ (Array.mem_toList_iff.mpr (Array.mem_of_getElem? hmatrix)))).2
  · cases h

end Problem

theorem Matrix.entry_nonneg {m : Matrix} {i j : Nat} {x : Int} (hm : m.hasNegative = false) (h : m.entry i j = .ok x) :
    0 ≤ x := by
  have hway := m.way_nonneg hm i j
  unfold entry at h
  unfold way at hway
  cases hx : m.entry? i j with
  | none =>
    rw [hx] at h
    cases h
  | some y =>
    rw [hx] at h hway
    cases h
    exact hway

namespace Stretch

/-- Neither the duration nor the time warp is below zero. -/
structure Nonneg (s : Stretch) : Prop where
  duration : 0 ≤ s.duration
  timeWarp : 0 ≤ s.timeWarp

variable {durations : Matrix} {s t j : Stretch} {location : Nat}

theorem Nonneg.join (hm : durations.hasNegative = false) (hs : Nonneg s) (ht : Nonneg t)
    (h : join durations s t = .ok j) : Nonneg j := by
  unfold Stretch.join at h
  obtain ⟨travel, htravel, h⟩ := bind_eq_ok h
  obtain ⟨_, _, h⟩ := bind_eq_ok h
  obtain ⟨arrival, _, h⟩ := bind_eq_ok h
  obtain ⟨d₁, hd₁, h⟩ := bind_eq_ok h
  obtain ⟨d₂, hd₂, h⟩ := bind_eq_ok h
  obtain ⟨d₃, hd₃, h⟩ := bind_eq_ok h
  obtain ⟨w₁, hw₁, h⟩ := bind_eq_ok h
  obtain ⟨w₂, hw₂, h⟩ := bind_eq_ok h
  obtain ⟨early, _, h⟩ := bind_eq_ok h
  cases h
  have hwait : 0 ≤ s.wait t arrival := le_max_right _ _
  have hwarp : 0 ≤ s.warp t arrival := le_max_right _ _
  have hpos := durations.entry_nonneg hm htravel
  rw [checked_eq_ok hd₃, checked_eq_ok hd₂, checked_eq_ok hd₁, checked_eq_ok hw₂, checked_eq_ok hw₁]
  exact ⟨add_nonneg (add_nonneg (add_nonneg hs.duration ht.duration) hpos) hwait,
    add_nonneg (add_nonneg hs.timeWarp ht.timeWarp) hwarp⟩

theorem atLocation_nonneg (h : atLocation p location = .ok s) : Nonneg s := by
  obtain ⟨window, -, h⟩ := bind_eq_ok h
  cases h
  exact ⟨p.serviceDuration_nonneg location, le_rfl⟩

end Stretch

namespace Totals

/-- None of the totals that cost something is below zero. -/
structure Nonneg (t : Totals) : Prop where
  distance : 0 ≤ t.distance
  duration : 0 ≤ t.duration
  timeWarp : 0 ≤ t.timeWarp
  excessLoad : 0 ≤ t.excessLoad

variable {vehicle : VehicleType} {vehicleType location : Nat} {locations : List Nat} {distances durations : Matrix}

theorem depotVisit_nonneg {s : Stretch} (h : depotVisit p vehicle location = .ok s) : s.Nonneg := by
  obtain ⟨window, -, h⟩ := bind_eq_ok h
  cases h
  exact ⟨le_rfl, le_rfl⟩

theorem follow_nonneg {along along' : Along} (hdist : distances.hasNegative = false)
    (hdur : durations.hasNegative = false) (hdistance : 0 ≤ along.distance) (hstretch : along.stretch.Nonneg)
    (h : follow p vehicle distances durations along locations = .ok along') :
    0 ≤ along'.distance ∧ along'.stretch.Nonneg := by
  induction locations generalizing along with
  | nil =>
    cases h
    exact ⟨hdistance, hstretch⟩
  | cons location locations ih =>
    have onwards : ∀ next : Stretch, next.Nonneg → (do
        let way ← distances.entry along.stretch.last location
        let distance ← checked (along.distance + way)
        let load ← checked (along.load + p.delivery location)
        let stretch ← along.stretch.join durations next
        follow p vehicle distances durations ⟨distance, load, stretch⟩ locations) = .ok along' →
          0 ≤ along'.distance ∧ along'.stretch.Nonneg := by
      intro next hnext h
      obtain ⟨way, hway, h⟩ := bind_eq_ok h
      obtain ⟨distance, hd, h⟩ := bind_eq_ok h
      obtain ⟨load, -, h⟩ := bind_eq_ok h
      obtain ⟨stretch, hjoin, h⟩ := bind_eq_ok h
      refine ih ?_ (hstretch.join hdur hnext hjoin) h
      rw [checked_eq_ok hd]
      exact add_nonneg hdistance (distances.entry_nonneg hdist hway)
    unfold follow at h
    simp only at h
    split at h
    · obtain ⟨next, hnext, h⟩ := bind_eq_ok h
      exact onwards next (depotVisit_nonneg hnext) h
    · obtain ⟨next, hnext, h⟩ := bind_eq_ok h
      exact onwards next (Stretch.atLocation_nonneg hnext) h

theorem ofTour_nonneg {t : Totals} (h : ofTour p vehicleType locations = .ok t) : Nonneg t := by
  unfold ofTour at h
  split at h
  · obtain ⟨vehicle, -, h⟩ := bind_eq_ok h
    obtain ⟨distances, hdist, h⟩ := bind_eq_ok h
    obtain ⟨durations, hdur, h⟩ := bind_eq_ok h
    obtain ⟨start, hstart, h⟩ := bind_eq_ok h
    obtain ⟨along, halong, h⟩ := bind_eq_ok h
    obtain ⟨excess, -, h⟩ := bind_eq_ok h
    cases h
    obtain ⟨hdistance, hstretch⟩ := follow_nonneg (Problem.distanceMatrix_nonneg hdist)
      (Problem.durationMatrix_nonneg hdur) le_rfl (depotVisit_nonneg hstart) halong
    exact ⟨hdistance, hstretch.duration, hstretch.timeWarp, le_max_right _ _⟩
  · cases h

end Totals

namespace Penalties

/-- No penalty is below zero. -/
structure Nonneg (penalties : Penalties) : Prop where
  load : 0 ≤ penalties.load
  timeWarp : 0 ≤ penalties.timeWarp

theorem nonneg_of_validate {params : SearchParameters} (h : params.validate = .ok ()) : params.penalties.Nonneg := by
  unfold SearchParameters.validate at h
  split at h
  · cases h
  · rename_i hpenalties
    rw [not_or, Int64.not_lt, Int64.not_lt] at hpenalties
    exact ⟨Int64.le_iff_toInt_le.mp hpenalties.1, Int64.le_iff_toInt_le.mp hpenalties.2⟩

theorem cost_nonneg {penalties : Penalties} {vehicleType : Nat} {t : Totals} {c : Int} (hp : penalties.Nonneg)
    (ht : t.Nonneg) (h : penalties.cost p vehicleType t = .ok c) : 0 ≤ c := by
  unfold cost at h
  obtain ⟨vehicle, hvehicle, h⟩ := bind_eq_ok h
  obtain ⟨distance, hdistance, h⟩ := bind_eq_ok h
  obtain ⟨duration, hduration, h⟩ := bind_eq_ok h
  obtain ⟨c₁, hc₁, h⟩ := bind_eq_ok h
  obtain ⟨excess, hexcess, h⟩ := bind_eq_ok h
  obtain ⟨c₂, hc₂, h⟩ := bind_eq_ok h
  obtain ⟨warp, hwarp, h⟩ := bind_eq_ok h
  obtain ⟨-, -, -, hdistanceCost, hdurationCost, -⟩ : _ ∧ _ ∧ _ ∧ 0 ≤ vehicle.unitDistanceCost ∧
      0 ≤ vehicle.unitDurationCost ∧ 0 ≤ vehicle.capacity := by
    unfold Problem.vehicleType at hvehicle
    split at hvehicle
    · rename_i v hv
      cases hvehicle
      exact Problem.vehicleFlaw?_none hv
    · cases hvehicle
  rw [checked_eq_ok h, checked_eq_ok hc₂, checked_eq_ok hc₁, checked_eq_ok hdistance, checked_eq_ok hduration,
    checked_eq_ok hexcess, checked_eq_ok hwarp]
  have hd := mul_nonneg (Int64.le_iff_toInt_le.mp hdistanceCost) ht.distance
  have ht' := mul_nonneg (Int64.le_iff_toInt_le.mp hdurationCost) ht.duration
  have hl := mul_nonneg hp.load ht.excessLoad
  have hw := mul_nonneg hp.timeWarp ht.timeWarp
  exact add_nonneg (add_nonneg (add_nonneg hd ht') hl) hw

end Penalties
end Fleet
