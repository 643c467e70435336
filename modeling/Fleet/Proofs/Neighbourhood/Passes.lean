import Fleet.Neighbourhood.Proximity
import Fleet.Proofs.Neighbourhood.Tables
import Fleet.Proofs.Worth

/-! What the passes over a table of scores leave in its entries.

    The vehicles' rates are gone through to lower the charges (`lowers_lowerBy`), the profiles to lower the durations
    (`lowers_shorten`), and the groups to mark pairs of clients (`marks_markGroups`). -/

namespace Fleet

/-- The group lists the client at a location. -/
def Group.Has (group : Group) (location : Nat) : Prop := ∃ l ∈ group.clients, l.toNat = location

instance (group : Group) (location : Nat) : Decidable (group.Has location) :=
  inferInstanceAs (Decidable (∃ l ∈ group.clients, l.toNat = location))

/-- A group that admits only one of its clients lists both. -/
def Problem.Excludes (p : Problem) (i j : Nat) : Prop :=
  ∃ group ∈ p.groups, group.mutuallyExclusive = true ∧ group.Has i ∧ group.Has j

namespace Neighbourhood

open Scores Score Double

variable {p : Problem} {params : NeighbourhoodParameters} {s : Scores} {i j k n : Nat} {x : Float}
  {post : Nat → Nat → Float → Prop}

/-! ### Groups -/

theorem marks_markGroup {group : Group} (hclient : ∀ l ∈ group.clients, l.toNat < n) :
    Marks n (fun i j => group.Has i ∧ group.Has j) (markGroup · group) := by
  have hrow : ∀ l ∈ group.clients, Marks n (fun i j => ∃ l' ∈ group.clients, i = l.toNat ∧ j = l'.toNat)
      (group.clients.foldlM (fun s j => s.write l.toNat j.toNat exclusive) ·) := fun l hl =>
    marks_foldlM fun l' hl' => marks_write (hclient l hl) (hclient l' hl')
  refine (marks_foldlM hrow).congr fun i j => ⟨?_, ?_⟩
  · rintro ⟨l, hl, l', hl', rfl, rfl⟩
    exact ⟨⟨l, hl, rfl⟩, l', hl', rfl⟩
  · rintro ⟨⟨l, hl, rfl⟩, l', hl', rfl⟩
    exact ⟨l, hl, l', hl', rfl, rfl⟩

theorem marks_markGroups (p : Problem) : Marks p.numLocations p.Excludes (markGroups p) := by
  have hgroup : ∀ group ∈ p.groups.toList.filter Group.mutuallyExclusive,
      Marks p.numLocations (fun i j => group.Has i ∧ group.Has j) (markGroup · group) := fun group hgroup =>
    marks_markGroup fun _ hl => (Problem.range_of_member (List.mem_of_mem_filter hgroup) hl).2
  refine (marks_foldlM hgroup).congr fun i j => ?_
  simp only [List.mem_filter, Array.mem_toList_iff, and_assoc, Problem.Excludes]

/-! ### Charges and durations -/

/-- What vehicles of some rates charge for the way from `i` to `j`. -/
def Charges (p : Problem) (rates : Rates) (i j : Nat) (x : Float) : Prop :=
  ∃ distances durations distance duration, p.distanceMatrix rates.profile.toNat = .ok distances ∧
    p.durationMatrix rates.profile.toNat = .ok durations ∧ distances.entry i j = .ok distance ∧
    durations.entry i j = .ok duration ∧
    x = ofQuantity rates.distance.toInt * ofQuantity distance + ofQuantity rates.duration.toInt * ofQuantity duration

/-- How long the way from `i` to `j` takes with a profile. -/
def Takes (p : Problem) (profile i j : Nat) (x : Float) : Prop :=
  ∃ durations duration, p.durationMatrix profile = .ok durations ∧ durations.entry i j = .ok duration ∧
    x = ofQuantity duration

/-- The rates of a vehicle type. -/
def ratesOf (v : VehicleType) : Rates := ⟨v.unitDistanceCost, v.unitDurationCost, v.profile⟩

theorem mem_rates {r : Rates} : r ∈ rates p ↔ ∃ v ∈ p.vehicleTypes, ratesOf v = r := by
  unfold rates
  rw [List.mem_eraseDups, List.mem_map]
  simp only [Array.mem_toList_iff, ratesOf]

theorem rates_nonneg {r : Rates} (h : r ∈ rates p) :
    0 ≤ r.distance.toInt ∧ 0 ≤ r.duration.toInt ∧ r.profile.toNat < p.distances.size := by
  obtain ⟨v, hv, rfl⟩ := mem_rates.mp h
  obtain ⟨index, hindex⟩ := Array.mem_iff_getElem?.mp hv
  obtain ⟨-, -, hprofile, hdistance, hduration, -⟩ := Problem.vehicleFlaw?_none hindex
  exact ⟨Int64.le_iff_toInt_le.mp hdistance, Int64.le_iff_toInt_le.mp hduration, hprofile⟩

theorem Charges.signed {r : Rates} (hr : r ∈ rates p) (h : Charges p r i j x) : Signed .positive (reading x) := by
  obtain ⟨distances, durations, distance, duration, hdistances, hdurations, hdistance, hduration, rfl⟩ := h
  obtain ⟨hunit, hunit', -⟩ := rates_nonneg hr
  have hproduct : ∀ {a b : Int}, 0 ≤ a → 0 ≤ b → Signed .positive (reading (ofQuantity a * ofQuantity b)) :=
    fun ha hb => signed_reading_mul (signed_ofQuantity ha) (signed_ofQuantity hb)
      (isFinite_of_small (small_ofQuantity _)) (isFinite_of_small (small_ofQuantity _))
  exact signed_reading_add
    (hproduct hunit (distances.entry_nonneg (Problem.distanceMatrix_nonneg hdistances) hdistance))
    (hproduct hunit' (durations.entry_nonneg (Problem.durationMatrix_nonneg hdurations) hduration))

theorem Takes.signed {profile : Nat} (h : Takes p profile i j x) : Signed .positive (reading x) := by
  obtain ⟨durations, duration, hdurations, hduration, rfl⟩ := h
  exact signed_ofQuantity (durations.entry_nonneg (Problem.durationMatrix_nonneg hdurations) hduration)

theorem Takes.small {profile : Nat} (h : Takes p profile i j x) : Small 12 (reading x) := by
  obtain ⟨durations, duration, -, -, rfl⟩ := h
  exact small_ofQuantity _

theorem Charges.unique {r : Rates} {y : Float} (h : Charges p r i j x) (h' : Charges p r i j y) : x = y := by
  obtain ⟨distances, durations, distance, duration, hdistances, hdurations, hdistance, hduration, rfl⟩ := h
  obtain ⟨_, _, _, _, hdistances', hdurations', hdistance', hduration', rfl⟩ := h'
  obtain rfl := Except.ok.inj (hdistances.symm.trans hdistances')
  obtain rfl := Except.ok.inj (hdurations.symm.trans hdurations')
  obtain rfl := Except.ok.inj (hdistance.symm.trans hdistance')
  obtain rfl := Except.ok.inj (hduration.symm.trans hduration')
  rfl

theorem exists_charges {r : Rates} (hr : r ∈ rates p) (hi : i < p.numLocations) (hj : j < p.numLocations) :
    ∃ x, Charges p r i j x := by
  obtain ⟨distances, hdistances, hsize⟩ := Problem.distanceMatrix_run (rates_nonneg hr).2.2
  obtain ⟨durations, hdurations, hsize'⟩ := Problem.durationMatrix_run (rates_nonneg hr).2.2
  obtain ⟨distance, hdistance⟩ := Problem.entry_run (hsize ▸ hi) (hsize ▸ hj)
  obtain ⟨duration, hduration⟩ := Problem.entry_run (hsize' ▸ hi) (hsize' ▸ hj)
  exact ⟨_, distances, durations, distance, duration, hdistances, hdurations, hdistance, hduration, rfl⟩

theorem lowers_lowerBy {r : Rates} (hr : r ∈ rates p) :
    Lowers p.numLocations (fun i j => {x | Charges p r i j x}) (lowerBy p · r) := by
  obtain ⟨distances, hdistances, -⟩ := Problem.distanceMatrix_run (rates_nonneg hr).2.2
  obtain ⟨durations, hdurations, -⟩ := Problem.durationMatrix_run (rates_nonneg hr).2.2
  have hrun : (lowerBy p · r) = fun s => tabulate p.numLocations fun i j => do
      return lower (← s.entry i j) (← charge r distances durations i j) := by
    funext s
    unfold lowerBy
    rw [hdistances, hdurations]
    rfl
  rw [hrun]
  refine lowers_tabulate fun i j hi hj => ?_
  obtain ⟨y, hy⟩ := exists_charges hr hi hj
  refine ⟨y, Set.eq_singleton_iff_unique_mem.mpr ⟨hy, fun x hx => hx.unique hy⟩, plain_of_signed (hy.signed hr),
    fun s x hx _ => ?_⟩
  obtain ⟨_, _, distance, duration, hdistances', hdurations', hdistance, hduration, rfl⟩ := hy
  obtain rfl := Except.ok.inj (hdistances.symm.trans hdistances')
  obtain rfl := Except.ok.inj (hdurations.symm.trans hdurations')
  rw [hx, ok_bind]
  unfold charge
  rw [hdistance, hduration]
  rfl

theorem exists_rates (p : Problem) : ∃ r, r ∈ rates p := by
  have hfleet := p.flaw?_none.2.2.2.2.1
  unfold Problem.Parts.fleetFlaw? at hfleet
  split at hfleet
  · cases hfleet
  · rename_i hne
    obtain ⟨v, hv⟩ := Array.exists_mem_of_ne_empty p.vehicleTypes fun h => hne (by rw [h]; rfl)
    exact ⟨ratesOf v, mem_rates.mpr ⟨v, hv, rfl⟩⟩

/-- The cheapest vehicle charges what is left at each way. -/
theorem charges_each (p : Problem) :
    Succeeds (Each p.numLocations fun i j => IsLeast {x | ∃ r ∈ rates p, Charges p r i j x}) (charges p) := by
  have hplain : ∀ r ∈ rates p, ∀ i j, ∀ x ∈ {x | Charges p r i j x}, Plain (reading x) := fun r hr i j x hx =>
    plain_of_signed (hx.signed hr)
  have hstart : Succeeds (Each p.numLocations fun _ _ => IsLeast {never})
      (tabulate p.numLocations fun _ _ => .ok never) :=
    tabulate_each fun _ _ _ _ => ⟨never, rfl, isLeast_singleton plain_never⟩
  refine hstart.bind fun start hstart => ?_
  have hlowered := lowers_foldlM hplain (fun r hr => lowers_lowerBy hr) _ start
    (by rintro _ _ _ rfl; exact plain_never) hstart
  refine hlowered.imp fun s hs => ⟨hs.1, hs.2.mono fun i j x hi hj hx => ?_⟩
  rw [Set.singleton_union] at hx
  obtain ⟨r, hr⟩ := exists_rates p
  obtain ⟨y, hy⟩ := exists_charges hr hi hj
  exact isLeast_of_insert_never (fun x ⟨r, hr, hx⟩ => hplain r hr i j x hx) ⟨y, r, hr, hy⟩ hx

theorem Takes.unique {profile : Nat} {y : Float} (h : Takes p profile i j x) (h' : Takes p profile i j y) : x = y := by
  obtain ⟨durations, duration, hdurations, hduration, rfl⟩ := h
  obtain ⟨_, _, hdurations', hduration', rfl⟩ := h'
  obtain rfl := Except.ok.inj (hdurations.symm.trans hdurations')
  obtain rfl := Except.ok.inj (hduration.symm.trans hduration')
  rfl

theorem Takes.profile_lt {profile : Nat} (h : Takes p profile i j x) : profile < p.numProfiles := by
  obtain ⟨durations, _, hdurations, -⟩ := h
  unfold Problem.durationMatrix at hdurations
  split at hdurations
  · rename_i hprofile
    exact (Array.getElem?_eq_some_iff.mp hprofile).1.trans_eq p.size_durations
  · cases hdurations

theorem lowers_shorten {profile : Nat} (hprofile : profile < p.numProfiles) :
    Lowers p.numLocations (fun i j => {x | Takes p profile i j x}) (shorten p · profile) := by
  obtain ⟨durations, hdurations, hsize⟩ := Problem.durationMatrix_run hprofile
  have hrun : (shorten p · profile) = fun s => tabulate p.numLocations fun i j => do
      return minimum (← s.entry i j) (ofQuantity (← durations.entry i j)) := by
    funext s
    unfold shorten
    rw [hdurations]
    rfl
  rw [hrun]
  refine lowers_tabulate fun i j hi hj => ?_
  obtain ⟨duration, hduration⟩ := Problem.entry_run (hsize ▸ hi) (hsize ▸ hj)
  have htakes : Takes p profile i j (ofQuantity duration) := ⟨durations, duration, hdurations, hduration, rfl⟩
  refine ⟨ofQuantity duration, Set.eq_singleton_iff_unique_mem.mpr ⟨htakes, fun x hx => hx.unique htakes⟩,
    plain_of_signed htakes.signed, fun s x hx hplain => ?_⟩
  rw [← minimum_eq_lower hplain, hx, hduration]
  rfl

theorem firstDurations_each (p : Problem) :
    Succeeds (Each p.numLocations fun i j => IsLeast {x | Takes p 0 i j x}) (firstDurations p) := by
  obtain ⟨durations, hdurations, hsize⟩ := Problem.durationMatrix_run p.profiles_pos
  unfold firstDurations
  rw [hdurations]
  refine tabulate_each fun i j hi hj => ?_
  obtain ⟨duration, hduration⟩ := Problem.entry_run (hsize ▸ hi) (hsize ▸ hj)
  have htakes : Takes p 0 i j (ofQuantity duration) := ⟨durations, duration, hdurations, hduration, rfl⟩
  have hset : {x | Takes p 0 i j x} = {ofQuantity duration} :=
    Set.eq_singleton_iff_unique_mem.mpr ⟨htakes, fun x hx => hx.unique htakes⟩
  rw [hduration, hset]
  exact ⟨_, rfl, isLeast_singleton (plain_of_signed htakes.signed)⟩

/-- The profile that is the fastest between two locations determines how long the way takes. -/
theorem shortestDurations_each (p : Problem) :
    Succeeds (Each p.numLocations fun i j => IsLeast {x | ∃ profile, Takes p profile i j x}) (shortestDurations p) := by
  have hprofile : ∀ profile ∈ List.range' 1 (p.numProfiles - 1), 1 ≤ profile ∧ profile < p.numProfiles :=
    fun profile hprofile => by
      rw [List.mem_range'_1] at hprofile
      omega
  refine (firstDurations_each p).bind fun first hfirst => ?_
  have hrest : Lowers p.numLocations
      (fun i j => {x | ∃ profile ∈ List.range' 1 (p.numProfiles - 1), x ∈ {x | Takes p profile i j x}})
      ((List.range' 1 (p.numProfiles - 1)).foldlM (shorten p) ·) :=
    lowers_foldlM (fun _ _ _ _ _ h => plain_of_signed h.signed) fun profile h => lowers_shorten (hprofile profile h).2
  refine (hrest _ first (fun _ _ _ h => plain_of_signed h.signed) hfirst).imp fun s hs =>
    ⟨hs.1, hs.2.mono fun i j x _ _ hx => ?_⟩
  have hset : {x | Takes p 0 i j x} ∪
      {x | ∃ profile ∈ List.range' 1 (p.numProfiles - 1), x ∈ {x | Takes p profile i j x}} =
        {x | ∃ profile, Takes p profile i j x} := by
    ext x
    constructor
    · rintro (h | ⟨profile, -, h⟩)
      · exact ⟨0, h⟩
      · exact ⟨profile, h⟩
    · rintro ⟨profile, h⟩
      rcases Nat.eq_zero_or_pos profile with rfl | hpos
      · exact Or.inl h
      · refine Or.inr ⟨profile, ?_, h⟩
        have hlt := h.profile_lt
        rw [List.mem_range'_1]
        omega
  rwa [hset] at hx

end Neighbourhood

end Fleet
