import Fleet.Proofs.Schedule

/-! Where no window ever closes, nobody waits and nobody is put back.

    A window without a due time closes at the greatest quantity. That is a number like any other: the time that has passed
    is taken from it, and the rest is compared with again. What holds along a tour is that the latest start is never
    further below the greatest quantity than the duration so far (`Unhurried`). So a later visit opens in time for
    whoever starts as late as that, whenever it opens, and only a sum that is no quantity keeps a tour from its totals. -/

namespace Fleet

open Quantity

variable {α β : Type}

/-! ### Computations that only have to fit -/

/-- A result as `post` says if everything fits, and an overflow otherwise. -/
inductive Fitting (fits : Prop) (post : α → Prop) : Except Fault α → Prop
  | ok {a : α} (h : fits) (h' : post a) : Fitting fits post (.ok a)
  | overflow (h : ¬fits) : Fitting fits post (.error .overflow)

namespace Fitting

variable {fits fits' : Prop} {post : α → Prop} {post' : β → Prop} {r : Except Fault α} {f : α → Except Fault β}

theorem mono {post' : α → Prop} (h : Fitting fits post r) (hfits : fits' ↔ fits) (imp : ∀ a, post a → post' a) :
    Fitting fits' post' r := by
  cases h with
  | ok h h' => exact .ok (hfits.mpr h) (imp _ h')
  | overflow h => exact .overflow fun h' => h (hfits.mp h')

theorem bind (h : Fitting fits post r) (hfits : fits' → fits) (next : ∀ a, fits → post a → Fitting fits' post' (f a)) :
    Fitting fits' post' (r >>= f) := by
  cases h with
  | ok h h' => exact next _ h h'
  | overflow h => exact .overflow fun h' => h (hfits h')

theorem checked (n : Int) : Fitting (least ≤ n ∧ n ≤ greatest) (fun m => m = n) (checked n) := by
  unfold Quantity.checked
  split
  · exact .ok ‹_› rfl
  · exact .overflow ‹_›

theorem eq_ite [Decidable fits] {a : α} (h : Fitting fits (fun b => b = a) r) :
    r = if fits then .ok a else .error .overflow := by
  cases h with
  | ok h h' => rw [if_pos h, h']
  | overflow h => rw [if_neg h]

/-- A sum that is checked fits if all that is still to come fits. -/
theorem checked_bind {n : Int} {f : Int → Except Fault β} (hfits : fits' → least ≤ n ∧ n ≤ greatest)
    (next : least ≤ n ∧ n ≤ greatest → Fitting fits' post' (f n)) : Fitting fits' post' (Quantity.checked n >>= f) :=
  (checked n).bind hfits fun _ hn hm => hm ▸ next hn

end Fitting

namespace Stretch

variable {m : Matrix} {s : Stretch} {v : Visit}

/-- A stretch without time warp that may start so late that only its duration is left before the greatest quantity. -/
structure Unhurried (s : Stretch) : Prop where
  duration : 0 ≤ s.duration ∧ s.duration ≤ greatest
  timeWarp : s.timeWarp = 0
  early : least ≤ s.early ∧ s.early ≤ greatest
  late : greatest - s.duration ≤ s.late ∧ s.late ≤ greatest

/-- A visit whose window does not close; it may open at any time. -/
structure Visit.Unending (m : Matrix) (v : Visit) : Prop where
  location : v.location < m.size
  service : 0 ≤ v.service ∧ v.service ≤ greatest
  early : least ≤ v.early ∧ v.early ≤ greatest
  late : v.late = greatest

theorem Visit.Unending.unhurried (hv : v.Unending m) : v.stretch.Unhurried where
  duration := hv.service
  timeWarp := rfl
  early := hv.early
  late := by
    have hlate : v.stretch.late = greatest := hv.late
    have hservice : v.stretch.duration = v.service := rfl
    rw [hlate, hservice]
    exact ⟨sub_le_self _ hv.service.1, le_rfl⟩

theorem clamped_le {n k : Int} (hk : least ≤ k) (h : n ≤ k) : clamped n ≤ k := by
  unfold clamped
  split
  · exact hk
  · split <;> omega

theorem clamped_within (n : Int) : least ≤ clamped n ∧ clamped n ≤ greatest := by
  have hlimits : least ≤ greatest := by decide
  unfold clamped
  split
  · exact ⟨le_rfl, hlimits⟩
  · split <;> omega

/-- Whoever starts as late as may be does not come before the window opens, even if it opens at the limit. -/
theorem Unhurried.wait_eq_zero {arrival : Int} (hs : s.Unhurried) (hv : v.Unending m) (harrival : s.duration ≤ arrival) :
    s.wait v.stretch arrival = 0 := by
  have hopens : clamped (v.early - arrival) ≤ s.late := by
    refine clamped_le ?_ ?_
    · have := hs.late.1
      have := hs.duration.2
      unfold least
      omega
    · have := hs.late.1
      have := hv.early.2
      omega
  have hwaits : clamped (clamped (v.early - arrival) - s.late) ≤ 0 := clamped_le (by decide) (by omega)
  exact max_eq_right hwaits

theorem Visit.Unending.warp_eq_zero (hv : v.Unending m) (s : Stretch) (arrival : Int) : s.warp v.stretch arrival = 0 := by
  have hcloses : v.stretch.late = greatest := hv.late
  have hcomes := (clamped_within (s.early + arrival)).2
  have hlate : clamped (clamped (s.early + arrival) - v.stretch.late) ≤ 0 := clamped_le (by decide) (by omega)
  exact max_eq_right hlate

/-- A visit more adds the way to it and its service, and nothing else. -/
theorem Unhurried.join_fitting (hs : s.Unhurried) (hv : v.Unending m) (hlast : s.last < m.size)
    (htravel : 0 ≤ m.way s.last v.location) :
    Fitting (s.duration + (m.way s.last v.location + v.service) ≤ greatest)
      (fun t => t.Unhurried ∧ t.last = v.location ∧ t.duration = s.duration + (m.way s.last v.location + v.service))
      (s.join m v.stretch) := by
  have hentry : m.entry s.last v.stretch.first = .ok (m.way s.last v.location) := Matrix.entry_eq_ok hlast hv.location
  have hservice : v.stretch.duration = v.service := rfl
  have hwarps : v.stretch.timeWarp = 0 := rfl
  have hleast : least ≤ 0 := by decide
  have hpos := hs.duration.1
  have hserves := hv.service.1
  unfold join
  rw [hentry, ok_bind, hs.timeWarp, hservice, hwarps]
  refine .checked_bind (fun _ => by have := hs.duration.2; omega) fun _ => ?_
  refine .checked_bind (fun _ => by omega) fun harrival => ?_
  have hwait : s.wait v.stretch (s.duration - 0 + m.way s.last v.location) = 0 := hs.wait_eq_zero hv (by omega)
  have hwarp := hv.warp_eq_zero s (s.duration - 0 + m.way s.last v.location)
  simp only [hwait, hwarp]
  refine .checked_bind (fun _ => by omega) fun _ => ?_
  refine .checked_bind (fun _ => by omega) fun _ => ?_
  refine .checked_bind (fun _ => by omega) fun hduration => ?_
  refine .checked_bind (fun _ => by decide) fun _ => ?_
  refine .checked_bind (fun _ => by decide) fun _ => ?_
  have hopens := clamped_within (v.stretch.early - (s.duration - 0 + m.way s.last v.location))
  refine .checked_bind (fun _ => by have := hs.early; omega) fun hearly => ?_
  -- Neither limit shows: what has passed is between zero and the greatest quantity.
  have hleft : clamped (v.stretch.late - (s.duration - 0 + m.way s.last v.location)) =
      greatest - (s.duration - 0 + m.way s.last v.location) := by
    have hcloses : v.stretch.late = greatest := hv.late
    rw [hcloses]
    exact clamped_of_within (by omega)
  have hlate : clamped (min (greatest - (s.duration - 0 + m.way s.last v.location)) s.late + 0) =
      min (greatest - (s.duration - 0 + m.way s.last v.location)) s.late := by
    have := hs.late
    have := hs.duration.2
    rw [add_zero]
    exact clamped_of_within (by omega)
  rw [hleft, hlate]
  have hspan : s.duration + v.service + m.way s.last v.location + 0 =
      s.duration + (m.way s.last v.location + v.service) := by omega
  rw [hspan] at hduration ⊢
  refine .ok hduration.2 ⟨⟨⟨by dsimp only; omega, hduration.2⟩, rfl, hearly, ?_⟩, rfl, rfl⟩
  have := hs.late
  dsimp only
  omega

end Stretch

/-! ### The windows of a problem -/

namespace Problem

variable {p : Problem} {location : Nat}

/-- No depot, no client and no vehicle has a due time. -/
structure NeverCloses (p : Problem) : Prop where
  depots : ∀ d ∈ p.depots, d.window.late = Int64.maxValue
  clients : ∀ c ∈ p.clients, c.window.late = Int64.maxValue
  vehicleTypes : ∀ v ∈ p.vehicleTypes, v.window.late = Int64.maxValue

theorem NeverCloses.closing_eq (h : p.NeverCloses) (hlocation : location < p.numLocations) :
    p.closing location = greatest := by
  obtain ⟨w, -, hw?, -, hclosing⟩ := window_eq_ok hlocation
  have hlate : w.late = Int64.maxValue := by
    rcases window?_cases hw? with ⟨c, hc, rfl⟩ | ⟨d, hd, rfl⟩
    · exact h.clients c hc
    · exact h.depots d hd
  rw [hclosing, hlate]
  rfl

theorem opening_within (p : Problem) (location : Nat) : least ≤ p.opening location ∧ p.opening location ≤ greatest := by
  unfold opening
  cases p.window? location with
  | none => exact by decide
  | some w => exact ⟨Int64.le_toInt w.early, Int64.toInt_le w.early⟩

theorem serviceDuration_le (p : Problem) (location : Nat) : p.serviceDuration location ≤ greatest := by
  unfold serviceDuration
  cases p.client? location with
  | none => exact by decide
  | some c => exact Int64.toInt_le c.serviceDuration

end Problem

/-! ### Following a tour -/

namespace Totals

open Stretch

variable {p : Problem} {vehicle : VehicleType} {vehicleType location first last : Nat} {clients inner : List Nat}
  {distances durations : Matrix} {along along' along'' : Along} {v : Visit} {vs : List Visit}

theorem clientVisit_unending (hnever : p.NeverCloses) (hdur : durations.size = p.numLocations)
    (h : location < p.numLocations) : (clientVisit p location).Unending durations where
  location := hdur ▸ h
  service := ⟨p.serviceDuration_nonneg location, p.serviceDuration_le location⟩
  early := p.opening_within location
  late := hnever.closing_eq h

theorem depotStop_unending (hnever : p.NeverCloses) (hv : vehicle ∈ p.vehicleTypes)
    (hdur : durations.size = p.numLocations) (h : location < p.numLocations) :
    (depotStop p vehicle location).Unending durations where
  location := hdur ▸ h
  service := ⟨le_rfl, (by decide : (0 : Int) ≤ greatest)⟩
  early := by
    have hopens := p.opening_within location
    have hleaves := And.intro (Int64.le_toInt vehicle.window.early) (Int64.toInt_le vehicle.window.early)
    exact ⟨le_max_of_le_left hopens.1, max_le hopens.2 hleaves.2⟩
  late := by
    have hreturns : vehicle.window.late.toInt = greatest := by
      rw [hnever.vehicleTypes vehicle hv]
      rfl
    show min (p.closing location) vehicle.window.late.toInt = greatest
    rw [hnever.closing_eq h, hreturns, min_self]

/-- What has come together fits, and nobody has waited or has been put back. -/
structure Along.Unhurried (durations : Matrix) (along : Along) : Prop where
  distance : 0 ≤ along.distance ∧ along.distance ≤ greatest
  load : 0 ≤ along.load ∧ along.load ≤ greatest
  last : along.stretch.last < durations.size
  stretch : along.stretch.Unhurried

/-- How long the ways from a location along some visits take, and the services there. -/
def spent (durations : Matrix) (location : Nat) (vs : List Visit) : Int :=
  lengthFrom durations location (vs.map Visit.location) + (vs.map Visit.service).sum

theorem spent_cons (location : Nat) (v : Visit) (vs : List Visit) :
    spent durations location (v :: vs) = durations.way location v.location + v.service + spent durations v.location vs := by
  simp only [spent, List.map_cons, List.sum_cons, lengthFrom]
  omega

/-- Everything that is added up since `along` is added up in `along'`: the ways along the visits, what is unloaded there,
    and the services. Nobody has waited or has been put back. -/
structure Along.Reaches (p : Problem) (distances durations : Matrix) (vs : List Visit) (along along' : Along) : Prop where
  distance : along'.distance = along.distance + lengthFrom distances along.stretch.last (vs.map Visit.location)
  load : along'.load = along.load + delivered p (vs.map Visit.location)
  duration : along'.stretch.duration = along.stretch.duration + spent durations along.stretch.last vs
  timeWarp : along'.stretch.timeWarp = 0

/-- What comes together along the visits fits. -/
def Along.HasRoom (p : Problem) (distances durations : Matrix) (vs : List Visit) (along : Along) : Prop :=
  along.Fits p distances (vs.map Visit.location) ∧
    along.stretch.duration + spent durations along.stretch.last vs ≤ greatest

/-- One visit has been made since `along`. -/
structure Along.Adds (p : Problem) (distances durations : Matrix) (v : Visit) (along along' : Along) : Prop where
  distance : along'.distance = along.distance + distances.way along.stretch.last v.location
  load : along'.load = along.load + p.delivery v.location
  duration : along'.stretch.duration =
    along.stretch.duration + (durations.way along.stretch.last v.location + v.service)
  last : along'.stretch.last = v.location

theorem Along.Adds.hasRoom (h : along.Adds p distances durations v along') :
    along.HasRoom p distances durations (v :: vs) ↔ along'.HasRoom p distances durations vs := by
  unfold Along.HasRoom Along.Fits
  rw [h.distance, h.load, h.duration, h.last, spent_cons]
  simp only [List.map_cons, lengthFrom, delivered, List.sum_cons]
  omega

theorem Along.Adds.reaches (h : along.Adds p distances durations v along')
    (h' : along'.Reaches p distances durations vs along'') : along.Reaches p distances durations (v :: vs) along'' := by
  obtain ⟨hdistance, hload, hduration, hwarp⟩ := h'
  rw [h.distance, h.last] at hdistance
  rw [h.load] at hload
  rw [h.duration, h.last] at hduration
  refine ⟨?_, ?_, ?_, hwarp⟩
  · rw [hdistance, List.map_cons, lengthFrom, add_assoc]
  · rw [hload, add_assoc]
    simp only [delivered, List.map_cons, List.sum_cons]
  · rw [hduration, spent_cons, add_assoc]

theorem Along.Unhurried.reaches_nil (ha : along.Unhurried durations) :
    along.Reaches p distances durations [] along := by
  constructor <;> simp [lengthFrom, delivered, spent, ha.stretch.timeWarp]

theorem Along.Unhurried.hasRoom_nil (ha : along.Unhurried durations) : along.HasRoom p distances durations [] := by
  simpa [HasRoom, Fits, lengthFrom, delivered, spent] using ⟨⟨ha.distance.2, ha.load.2⟩, ha.stretch.duration.2⟩

section Following

variable (hdist : distances.hasNegative = false) (hdur : durations.hasNegative = false)
  (hsize : distances.size = durations.size)

include hdur in
theorem spent_nonneg (location : Nat) (hvs : ∀ v ∈ vs, v.Unending durations) : 0 ≤ spent durations location vs := by
  refine add_nonneg (lengthFrom_nonneg hdur _ _) (List.sum_nonneg fun x hx => ?_)
  obtain ⟨v, hv, rfl⟩ := List.mem_map.mp hx
  exact (hvs v hv).service.1

include hdist hdur hsize

theorem Along.Unhurried.goOn_fitting (ha : along.Unhurried durations) (hvs : ∀ w ∈ v :: vs, w.Unending durations)
    (locations : List Nat)
    (next : ∀ along' : Along, along'.Unhurried durations → along.Adds p distances durations v along' →
      Fitting (along'.HasRoom p distances durations vs) (along'.Reaches p distances durations vs)
        (follow p vehicle distances durations along' locations)) :
    Fitting (along.HasRoom p distances durations (v :: vs)) (along.Reaches p distances durations (v :: vs))
      (along.goOn p vehicle distances durations v locations) := by
  have hv := hvs v List.mem_cons_self
  have hway := distances.way_nonneg hdist along.stretch.last v.location
  have hdelivery := p.delivery_nonneg v.location
  have htravel := durations.way_nonneg hdur along.stretch.last v.location
  have hleast : least ≤ 0 := by decide
  have hpos := ha.distance.1
  have hpos' := ha.load.1
  -- What is still to come is not below zero, so what has come together at this visit fits if all of it does.
  have hnow : along.HasRoom p distances durations (v :: vs) →
      along.distance + distances.way along.stretch.last v.location ≤ greatest ∧
        along.load + p.delivery v.location ≤ greatest ∧
        along.stretch.duration + (durations.way along.stretch.last v.location + v.service) ≤ greatest := by
    rintro ⟨⟨hdistance, hload⟩, hduration⟩
    have hlength := lengthFrom_nonneg hdist v.location (vs.map Visit.location)
    have hrest := delivered_nonneg p (vs.map Visit.location)
    have hspent := spent_nonneg hdur v.location fun w hw => hvs w (List.mem_cons_of_mem v hw)
    rw [spent_cons] at hduration
    simp only [List.map_cons, lengthFrom, delivered, List.sum_cons] at hdistance hload hrest
    omega
  unfold Along.goOn
  rw [Matrix.entry_eq_ok (hsize ▸ ha.last) (hsize ▸ hv.location), ok_bind]
  refine .checked_bind (fun h => ⟨by omega, (hnow h).1⟩) fun hdistance => ?_
  refine .checked_bind (fun h => ⟨by omega, (hnow h).2.1⟩) fun hload => ?_
  refine (ha.stretch.join_fitting hv ha.last htravel).bind (fun h => (hnow h).2.2) fun t _ ht => ?_
  obtain ⟨hunhurried, hlast, hduration⟩ := ht
  let along' : Along := ⟨along.distance + distances.way along.stretch.last v.location,
    along.load + p.delivery v.location, t⟩
  have hadds : along.Adds p distances durations v along' := ⟨rfl, rfl, hduration, hlast⟩
  have hgoes : along'.Unhurried durations :=
    ⟨⟨add_nonneg hpos hway, hdistance.2⟩, ⟨add_nonneg hpos' hdelivery, hload.2⟩, hlast ▸ hv.location, hunhurried⟩
  exact (next along' hgoes hadds).mono hadds.hasRoom fun along'' => hadds.reaches

/-- Along locations without a due time only what is added up has to fit. -/
theorem follow_fitting (hdistSize : distances.size = p.numLocations) (hnever : p.NeverCloses)
    (hvehicle : vehicle ∈ p.vehicleTypes) (hclients : ∀ x ∈ clients, x < p.numLocations) (hlast : last < p.numLocations)
    (ha : along.Unhurried durations) :
    Fitting (along.HasRoom p distances durations (visitsTo p vehicle clients last))
      (along.Reaches p distances durations (visitsTo p vehicle clients last))
      (follow p vehicle distances durations along (clients ++ [last])) := by
  have hdurSize : durations.size = p.numLocations := hsize.symm.trans hdistSize
  have hstop := depotStop_unending hnever hvehicle hdurSize hlast
  induction clients generalizing along with
  | nil =>
    rw [List.nil_append, follow_depot hlast]
    refine ha.goOn_fitting hdist hdur hsize (List.forall_mem_singleton.mpr hstop) [] fun along' hunhurried _ => ?_
    exact .ok hunhurried.hasRoom_nil hunhurried.reaches_nil
  | cons location clients ih =>
    have hlocation := hclients location List.mem_cons_self
    have hrest : ∀ x ∈ clients, x < p.numLocations := fun x hx => hclients x (List.mem_cons_of_mem _ hx)
    have hvisits : ∀ w ∈ visitsTo p vehicle (location :: clients) last, w.Unending durations := by
      intro w hw
      rcases List.mem_append.mp hw with hw | hw
      · obtain ⟨x, hx, rfl⟩ := List.mem_map.mp hw
        exact clientVisit_unending hnever hdurSize (hclients x hx)
      · exact List.mem_singleton.mp hw ▸ hstop
    rw [List.cons_append, follow_client hlocation]
    exact ha.goOn_fitting hdist hdur hsize hvisits _ fun along' hunhurried _ => ih hrest hunhurried

end Following

/-! ### The totals of a tour -/

/-- How long the services at some locations take. -/
def served (p : Problem) (locations : List Nat) : Int := (locations.map p.serviceDuration).sum

theorem spent_visitsTo (location : Nat) : spent durations location (visitsTo p vehicle clients last) =
    lengthFrom durations location (clients ++ [last]) + served p clients := by
  simp [spent, visitsTo, served, Function.comp_def, clientVisit, depotStop]

theorem locations_visitsTo : (visitsTo p vehicle clients last).map Visit.location = clients ++ [last] := by
  simp [visitsTo, Function.comp_def, clientVisit, depotStop]

/-- What a tour comes to for someone who neither waits nor is put back: the ways, the services between the two ends, and
    what is unloaded. -/
def undelayed (p : Problem) (vehicle : VehicleType) (distances durations : Matrix) (first : Nat) (inner : List Nat)
    (last : Nat) : Totals where
  distance := lengthFrom distances first (inner ++ [last])
  duration := lengthFrom durations first (inner ++ [last]) + served p inner
  timeWarp := 0
  load := delivered p (inner ++ [last])
  excessLoad := max (delivered p (inner ++ [last]) - vehicle.capacity.toInt) 0

/-- The distance, the duration and the load are quantities. -/
def Fits (totals : Totals) : Prop :=
  totals.distance ≤ greatest ∧ totals.duration ≤ greatest ∧ totals.load ≤ greatest

instance (totals : Totals) : Decidable totals.Fits := inferInstanceAs (Decidable (_ ∧ _))

/-- The stop at the first location, where nothing has come together yet. -/
def setOut (p : Problem) (vehicle : VehicleType) (first : Nat) : Along := ⟨0, 0, (depotStop p vehicle first).stretch⟩

@[simp] theorem setOut_distance : (setOut p vehicle first).distance = 0 := rfl

@[simp] theorem setOut_load : (setOut p vehicle first).load = 0 := rfl

@[simp] theorem setOut_duration : (setOut p vehicle first).stretch.duration = 0 := rfl

@[simp] theorem setOut_last : (setOut p vehicle first).stretch.last = first := rfl

theorem setOut_hasRoom : (setOut p vehicle first).HasRoom p distances durations (visitsTo p vehicle inner last) ↔
    (undelayed p vehicle distances durations first inner last).Fits := by
  unfold Along.HasRoom Along.Fits Fits undelayed
  simp only [spent_visitsTo, locations_visitsTo, setOut_distance, setOut_load, setOut_duration, setOut_last, zero_add]
  exact ⟨fun ⟨⟨hdistance, hload⟩, hduration⟩ => ⟨hdistance, hduration, hload⟩,
    fun ⟨hdistance, hduration, hload⟩ => ⟨⟨hdistance, hload⟩, hduration⟩⟩

/-- What has come together at the last location are the totals. -/
theorem Along.Reaches.totals_eq
    (h : (setOut p vehicle first).Reaches p distances durations (visitsTo p vehicle inner last) along) :
    (⟨along.distance, along.stretch.duration, along.stretch.timeWarp, along.load,
      max (along.load - vehicle.capacity.toInt) 0⟩ : Totals) = undelayed p vehicle distances durations first inner last := by
  obtain ⟨hdistance, hload, hduration, hwarp⟩ := h
  rw [hdistance, hload, hduration, hwarp]
  simp only [undelayed, spent_visitsTo, locations_visitsTo, setOut_distance, setOut_load, setOut_duration, setOut_last,
    zero_add]

/-- Where there are no due times, a tour along any locations comes to its ways, its services and its loads, without time
    warp or waiting, whenever the windows open; and it has no totals only if one of these sums is no quantity. -/
theorem ofTour_of_neverCloses (hnever : p.NeverCloses) (hv : p.vehicleTypes[vehicleType]? = some vehicle)
    (hlocations : ∀ x ∈ first :: (inner ++ [last]), x < p.numLocations) :
    ∃ distances durations, p.distances[vehicle.profile.toNat]? = some distances ∧
      p.durations[vehicle.profile.toNat]? = some durations ∧
      ofTour p vehicleType (first :: (inner ++ [last])) =
        if (undelayed p vehicle distances durations first inner last).Fits then
          .ok (undelayed p vehicle distances durations first inner last)
        else .error .overflow := by
  obtain ⟨-, -, hprofile, -, -, hcapacity⟩ := Problem.vehicleFlaw?_none hv
  obtain ⟨distances, hdistances⟩ : ∃ m, p.distances[vehicle.profile.toNat]? = some m :=
    ⟨_, Array.getElem?_eq_getElem hprofile⟩
  obtain ⟨durations, hdurations⟩ : ∃ m, p.durations[vehicle.profile.toNat]? = some m :=
    ⟨_, Array.getElem?_eq_getElem (p.size_durations ▸ hprofile)⟩
  obtain ⟨hdistSize, hdist⟩ := Problem.matrixFlaw?_none
    (List.mem_append_left _ (Array.mem_toList_iff.mpr (Array.mem_of_getElem? hdistances)))
  obtain ⟨hdurSize, hdur⟩ := Problem.matrixFlaw?_none
    (List.mem_append_right _ (Array.mem_toList_iff.mpr (Array.mem_of_getElem? hdurations)))
  have hvehicle := Array.mem_of_getElem? hv
  have hfirst := hlocations first List.mem_cons_self
  have hinner : ∀ x ∈ inner, x < p.numLocations := fun x hx =>
    hlocations x (List.mem_cons_of_mem _ (List.mem_append_left _ hx))
  have hlast := hlocations last (List.mem_cons_of_mem _ (List.mem_append_right _ (List.mem_singleton_self last)))
  have hstart := depotStop_unending hnever hvehicle hdurSize hfirst
  have hzero : (0 : Int) ≤ 0 ∧ (0 : Int) ≤ greatest := by decide
  have hunhurried : (setOut p vehicle first).Unhurried durations := ⟨hzero, hzero, hstart.location, hstart.unhurried⟩
  have hfollow := follow_fitting hdist hdur (hdistSize.trans hdurSize.symm) hdistSize hnever hvehicle hinner hlast hunhurried
  refine ⟨distances, durations, hdistances, hdurations, Fitting.eq_ite ?_⟩
  rw [ofTour_eq hv hdistances hdurations hfirst inner last]
  refine hfollow.bind setOut_hasRoom.mpr fun along hroom hreaches => ?_
  have hload : 0 ≤ along.load ∧ along.load ≤ greatest := by
    rw [hreaches.load, setOut_load, zero_add]
    exact ⟨delivered_nonneg p _, by simpa using hroom.1.2⟩
  rw [checked_excess hcapacity hload, ok_bind]
  exact .ok (setOut_hasRoom.mp hroom) hreaches.totals_eq

namespace Sample

/-- A vehicle that may leave before the time zero. -/
def early : VehicleType := { startDepot := 0, endDepot := 1, capacity := 1, window := { early := -5 } }

/-- The client opens when it closes, at the limit. -/
def endless : Problem where
  depots := #[{ x := 0, y := 0, window := { early := -7 } }, { x := 10, y := 0, window := { early := 40 } }]
  clients := #[{ x := 5, y := 0, delivery := 4, serviceDuration := 3, window := { early := Int64.maxValue } }]
  vehicleTypes := #[early]
  distances := #[ways]
  durations := #[ways]
  groups := #[]
  flawless := by decide +kernel

end Sample

theorem ofTour_endless_in_sample :
    (Sample.endless.NeverCloses ∧ Sample.endless.vehicleTypes[0]? = some Sample.early ∧
      ∀ x ∈ 0 :: ([2] ++ [1]), x < Sample.endless.numLocations) ∧
    ofTour Sample.endless 0 (0 :: ([2] ++ [1])) = .ok ⟨10, 13, 0, 4, 3⟩ := by
  have hnever : Sample.endless.NeverCloses := ⟨by decide +kernel, by decide +kernel, by decide +kernel⟩
  have hv : Sample.endless.vehicleTypes[0]? = some Sample.early := rfl
  have hlocations : ∀ x ∈ 0 :: ([2] ++ [1]), x < Sample.endless.numLocations := by decide +kernel
  have hmatrices : Sample.endless.distances[Sample.early.profile.toNat]? = some Sample.ways ∧
      Sample.endless.durations[Sample.early.profile.toNat]? = some Sample.ways := ⟨rfl, rfl⟩
  obtain ⟨distances, durations, hdistances, hdurations, hrun⟩ := ofTour_of_neverCloses hnever hv hlocations
  cases hmatrices.1.symm.trans hdistances
  cases hmatrices.2.symm.trans hdurations
  refine ⟨⟨hnever, hv, hlocations⟩, hrun.trans ?_⟩
  rw [if_pos (by decide +kernel)]
  rfl

end Totals

end Fleet
