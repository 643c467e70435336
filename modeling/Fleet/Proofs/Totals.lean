import Fleet.Totals
import Fleet.Proofs.Problem

/-! The totals of a tour along locations of the problem, and their cost, can be computed unless a quantity
    overflows. -/

namespace Fleet

open Quantity

variable {p : Problem}

namespace Stretch

theorem atLocation_succeeds {location : Nat} (h : location < p.numLocations) :
    Succeeds (fun s => s.first = location ∧ s.last = location) (atLocation p location) := by
  obtain ⟨w, hw⟩ := Problem.window_run h
  unfold atLocation
  rw [hw]
  exact ⟨_, rfl, rfl, rfl⟩

theorem join_computes {durations : Matrix} {s t : Stretch} (hs : s.last < durations.size)
    (ht : t.first < durations.size) :
    Computes (fun j => j.first = s.first ∧ j.last = t.last) (join durations s t) := by
  obtain ⟨travel, htravel⟩ := Problem.entry_run hs ht
  unfold join
  rw [htravel]
  refine (Computes.checked _).bind fun _ _ => ?_
  refine (Computes.checked _).bind fun arrival _ => ?_
  refine (Computes.checked _).bind fun _ _ => ?_
  refine (Computes.checked _).bind fun _ _ => ?_
  refine (Computes.checked _).bind fun _ _ => ?_
  refine (Computes.checked _).bind fun _ _ => ?_
  refine (Computes.checked _).bind fun _ _ => ?_
  refine (Computes.checked _).bind fun _ _ => ?_
  exact .ok ⟨rfl, rfl⟩

end Stretch

namespace Totals

theorem depotVisit_computes {vehicle : VehicleType} {location : Nat} (h : location < p.numLocations) :
    Computes (fun s => s.first = location ∧ s.last = location) (depotVisit p vehicle location) := by
  obtain ⟨w, hw⟩ := Problem.window_run h
  unfold depotVisit
  rw [hw]
  exact .ok ⟨rfl, rfl⟩

theorem follow_computes {vehicle : VehicleType} {distances durations : Matrix} {along : Along}
    {locations : List Nat} (hdist : distances.size = p.numLocations) (hdur : durations.size = p.numLocations)
    (hlast : along.stretch.last < p.numLocations) (hlocations : ∀ x ∈ locations, x < p.numLocations) :
    Computes (fun _ => True) (follow p vehicle distances durations along locations) := by
  induction locations generalizing along with
  | nil => exact .ok trivial
  | cons location locations ih =>
    have hlocation := hlocations location List.mem_cons_self
    have onwards : ∀ next : Stretch, next.first = location ∧ next.last = location →
        Computes (fun _ => True) (do
          let way ← distances.entry along.stretch.last location
          let distance ← checked (along.distance + way)
          let load ← checked (along.load + p.delivery location)
          let stretch ← along.stretch.join durations next
          follow p vehicle distances durations ⟨distance, load, stretch⟩ locations) := by
      rintro next ⟨hfirst, hnextLast⟩
      obtain ⟨way, hway⟩ := Problem.entry_run (hdist ▸ hlast) (hdist ▸ hlocation)
      rw [hway]
      refine (Computes.checked _).bind fun _ _ => ?_
      refine (Computes.checked _).bind fun _ _ => ?_
      refine (Stretch.join_computes (hdur ▸ hlast) (hfirst ▸ hdur ▸ hlocation)).bind fun stretch hstretch => ?_
      refine ih ?_ fun x hx => hlocations x (List.mem_cons_of_mem _ hx)
      show stretch.last < p.numLocations
      rw [hstretch.2, hnextLast]
      exact hlocation
    unfold follow
    split
    · exact (depotVisit_computes hlocation).bind onwards
    · exact (Stretch.atLocation_succeeds hlocation).computes.bind onwards

/-- Only an overflow keeps a tour along locations of the problem from its totals. -/
theorem ofTour_computes {vehicleType : Nat} {locations : List Nat} (hvehicle : vehicleType < p.vehicleTypes.size)
    (hlength : 2 ≤ locations.length) (hlocations : ∀ x ∈ locations, x < p.numLocations) :
    Computes (fun _ => True) (ofTour p vehicleType locations) := by
  have hv := Array.getElem?_eq_getElem hvehicle
  obtain ⟨-, -, hprofile, -⟩ := Problem.vehicleFlaw?_none hv
  obtain ⟨distances, hdist, hdistSize⟩ := Problem.distanceMatrix_run hprofile
  obtain ⟨durations, hdur, hdurSize⟩ := Problem.durationMatrix_run hprofile
  match locations, hlength, hlocations with
  | first :: second :: rest, _, hlocations =>
    unfold ofTour
    simp only [Problem.vehicleType_run hv, hdist, hdur, ok_bind]
    refine (depotVisit_computes (hlocations first List.mem_cons_self)).bind fun start hstart => ?_
    refine (follow_computes hdistSize hdurSize ?_ fun x hx => hlocations x (List.mem_cons_of_mem _ hx)).bind
      fun along _ => ?_
    · show start.last < p.numLocations
      rw [hstart.2]
      exact hlocations first List.mem_cons_self
    · refine (Computes.checked _).bind fun _ _ => ?_
      exact .ok trivial

end Totals

namespace Penalties

variable {penalties : Penalties} {vehicleType : Nat}

theorem cost_computes (hvehicle : vehicleType < p.vehicleTypes.size) (totals : Totals) :
    Computes (fun _ => True) (penalties.cost p vehicleType totals) := by
  unfold cost
  rw [Problem.vehicleType_run (Array.getElem?_eq_getElem hvehicle)]
  refine (Computes.checked _).bind fun _ _ => ?_
  refine (Computes.checked _).bind fun _ _ => ?_
  refine (Computes.checked _).bind fun _ _ => ?_
  refine (Computes.checked _).bind fun _ _ => ?_
  refine (Computes.checked _).bind fun _ _ => ?_
  refine (Computes.checked _).bind fun _ _ => ?_
  exact (Computes.checked _).mono fun _ _ => trivial

theorem costOfTour_computes {locations : List Nat} (hvehicle : vehicleType < p.vehicleTypes.size)
    (hlength : 2 ≤ locations.length) (hlocations : ∀ x ∈ locations, x < p.numLocations) :
    Computes (fun _ => True) (penalties.costOfTour p vehicleType locations) :=
  (Totals.ofTour_computes hvehicle hlength hlocations).bind fun totals _ => cost_computes hvehicle totals

end Penalties

end Fleet
