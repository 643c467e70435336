import Fleet.Proofs.Worth

/-! A tour without time warp can keep to its windows, and one with time warp cannot.

    A schedule says when each service starts: in the window of the visit, and not before the vehicle can be there. A
    vehicle that is never put back follows one.

    The windows of the depots need care. Each of them is what the window of the depot and that of the vehicle have in
    common, and nothing makes sure that this is anything. A stretch that begins with a window that closes before it opens
    may well have no time warp. -/

namespace Fleet

open Quantity

namespace Stretch

variable {m : Matrix} {v : Visit} {vs : List Visit} {c : Clock} {s : Stretch} {t : Int} {ts : List Int}

/-! ### Schedules and the clock -/

/-- Times at which the services of the visits may start. -/
inductive Schedule (m : Matrix) : List Visit → List Int → Prop
  | last {v : Visit} {t : Int} (opened : v.early ≤ t) (closes : t ≤ v.late) : Schedule m [v] [t]
  | step {v w : Visit} {vs : List Visit} {t u : Int} {ts : List Int} (opened : v.early ≤ t) (closes : t ≤ v.late)
      (arrives : t + v.service + m.way v.location w.location ≤ u) (rest : Schedule m (w :: vs) (u :: ts)) :
      Schedule m (v :: w :: vs) (t :: u :: ts)

theorem Schedule.window (h : Schedule m vs ts) (hv : v ∈ vs) : v.early ≤ v.late := by
  induction h with
  | last opened closes =>
    cases List.mem_singleton.mp hv
    exact opened.trans closes
  | step opened closes _ _ ih =>
    rcases List.mem_cons.mp hv with rfl | hv
    · exact opened.trans closes
    · exact ih hv

theorem Schedule.exists_head (h : Schedule m vs ts) : ∃ t us, ts = t :: us := by
  cases h with
  | last => exact ⟨_, _, rfl⟩
  | step => exact ⟨_, _, rfl⟩

theorem Clock.serve_of_le (h : c.time ≤ v.late) :
    (c.serve v).time = max c.time v.early + v.service ∧ (c.serve v).warp = c.warp := by
  unfold serve keepTo
  split
  · refine ⟨?_, rfl⟩
    simp only [pass_time]
    omega
  · rw [if_neg (not_lt.mpr h)]
    refine ⟨?_, rfl⟩
    rw [pass_time]
    omega

/-- A vehicle that is no later than the schedule at the first visit is no later at any other. -/
theorem Schedule.simulate_warp : ∀ {vs : List Visit} {t : Int} {ts : List Int} {c : Clock},
    Schedule m vs (t :: ts) → c.time ≤ t → (simulate m vs c).warp = c.warp
  | _, _, _, _, .last _ closes, hc => (Clock.serve_of_le (hc.trans closes)).2
  | _, _, _, _, .step opened closes arrives rest, hc => by
    obtain ⟨htime, hwarp⟩ := Clock.serve_of_le (hc.trans closes)
    refine (rest.simulate_warp ?_).trans hwarp
    rw [Clock.pass_time, htime]
    omega

theorem warp_le_simulate (hvs : ∀ v ∈ vs, v.early ≤ v.late) : c.warp ≤ (simulate m vs c).warp := by
  fun_induction simulate m vs c with
  | case1 => exact le_rfl
  | case2 v c =>
    rw [Clock.serve_warp (hvs v List.mem_cons_self)]
    omega
  | case3 v w vs c ih =>
    have hrest := ih fun x hx => hvs x (List.mem_cons_of_mem v hx)
    rw [Clock.pass_warp, Clock.serve_warp (hvs v List.mem_cons_self)] at hrest
    omega

/-- A vehicle that is never put back keeps to the windows: each service starts when it is there and the window is open. -/
theorem schedule_of_simulate (hvs : ∀ x ∈ v :: vs, x.early ≤ x.late) (h : (simulate m (v :: vs) c).warp = c.warp) :
    ∃ ts, Schedule m (v :: vs) (max c.time v.early :: ts) := by
  induction vs generalizing v c with
  | nil =>
    have hv := hvs v List.mem_cons_self
    have hwarp : (c.serve v).warp = c.warp := h
    rw [Clock.serve_warp hv] at hwarp
    exact ⟨[], .last (le_max_right _ _) (by omega)⟩
  | cons w vs ih =>
    have hv := hvs v List.mem_cons_self
    have hrest : ∀ x ∈ w :: vs, x.early ≤ x.late := fun x hx => hvs x (List.mem_cons_of_mem v hx)
    have hwarp : (simulate m (w :: vs) ((c.serve v).pass (m.way v.location w.location))).warp = c.warp := h
    -- No later visit gives time warp back, so the first one has none.
    have hfirst : (c.serve v).warp = c.warp := by
      refine le_antisymm ?_ ?_
      · exact hwarp ▸ warp_le_simulate (c := (c.serve v).pass (m.way v.location w.location)) hrest
      · rw [Clock.serve_warp hv]
        omega
    have hlate : c.time ≤ v.late := by
      rw [Clock.serve_warp hv] at hfirst
      omega
    obtain ⟨ts, hts⟩ := ih hrest (hwarp.trans hfirst.symm)
    rw [Clock.pass_time, (Clock.serve_of_le hlate).1] at hts
    exact ⟨_, .step (le_max_right _ _) (max_le hlate hv) (le_max_left _ _) hts⟩

/-- There is a schedule exactly if the stretch of the visits has no time warp of its own. -/
theorem Describes.schedule_iff (h : Describes m vs s) (hvs : ∀ v ∈ vs, v.early ≤ v.late) (hs : 0 ≤ s.timeWarp) :
    (∃ ts, Schedule m vs ts) ↔ s.timeWarp = 0 := by
  constructor
  · rintro ⟨ts, hts⟩
    obtain ⟨t, us, rfl⟩ := hts.exists_head
    have hwarp := h.warp (.startingAt t)
    rw [hts.simulate_warp le_rfl] at hwarp
    omega
  · intro hzero
    obtain ⟨v, vs, rfl⟩ := List.exists_cons_of_ne_nil h.ne_nil
    have hwarp := h.warp (.startingAt s.late)
    have hlate : (Clock.startingAt s.late).time = s.late := rfl
    obtain ⟨ts, hts⟩ := schedule_of_simulate hvs (c := .startingAt s.late) (hwarp.trans (by omega))
    exact ⟨_, hts⟩

theorem amount_le_append {ws : List Visit} (hm : m.hasNegative = false) (hvs : vs ≠ []) (hws : ∀ v ∈ ws, v.Regular m) :
    amount m vs ≤ amount m (vs ++ ws) := by
  by_cases h : ws = []
  · rw [h, List.append_nil]
  · have hway := m.way_nonneg hm (vs.getLast hvs).location (ws.head h).location
    have hrest := amount_nonneg hm hws
    rw [amount_append hvs h]
    omega

end Stretch

/-! ### The windows of a problem -/

namespace Problem

variable {p : Problem} {location : Nat} {w : Window}

/-- When the window of a location opens, and zero if there is no such location. -/
def opening (p : Problem) (location : Nat) : Int := ((p.window? location).map fun w => w.early.toInt).getD 0

/-- When the window of a location closes, and zero if there is no such location. -/
def closing (p : Problem) (location : Nat) : Int := ((p.window? location).map fun w => w.late.toInt).getD 0

/-- No window opens before the time zero. -/
structure OpensFromZero (p : Problem) : Prop where
  depots : ∀ d ∈ p.depots, 0 ≤ d.window.early.toInt
  clients : ∀ c ∈ p.clients, 0 ≤ c.window.early.toInt
  vehicleTypes : ∀ v ∈ p.vehicleTypes, 0 ≤ v.window.early.toInt

theorem window?_cases (h : p.window? location = some w) :
    (∃ c ∈ p.clients, c.window = w) ∨ ∃ d ∈ p.depots, d.window = w := by
  unfold window? at h
  split at h
  · rename_i c hc
    cases h
    unfold client? at hc
    split at hc
    · cases hc
    · exact .inl ⟨c, Array.mem_of_getElem? hc, rfl⟩
  · obtain ⟨d, hd, rfl⟩ := Option.map_eq_some_iff.mp h
    exact .inr ⟨d, Array.mem_of_getElem? hd, rfl⟩

theorem not_isInverted (h : p.window? location = some w) : w.isInverted = false := by
  rcases window?_cases h with ⟨c, hc, rfl⟩ | ⟨d, hd, rfl⟩
  · obtain ⟨k, hk⟩ := Array.mem_iff_getElem?.mp hc
    have hflaw := flaw?_getElem? p.flaw?_none.2.2.2.1 hk
    unfold Parts.clientFlaw? at hflaw
    split at hflaw
    · cases hflaw
    · rename_i hwindow
      exact Bool.not_eq_true _ ▸ hwindow
  · obtain ⟨k, hk⟩ := Array.mem_iff_getElem?.mp hd
    have hflaw := flaw?_getElem? p.flaw?_none.2.2.1 hk
    unfold Parts.depotFlaw? at hflaw
    split at hflaw
    · cases hflaw
    · rename_i hwindow
      exact Bool.not_eq_true _ ▸ hwindow

theorem window_eq_ok (h : location < p.numLocations) :
    ∃ w, p.window location = .ok w ∧ p.window? location = some w ∧ p.opening location = w.early.toInt ∧
      p.closing location = w.late.toInt := by
  obtain ⟨w, hw⟩ := window_run h
  have hw? : p.window? location = some w := by
    unfold window at hw
    split at hw
    · rename_i w' hw'
      cases hw
      exact hw'
    · cases hw
  refine ⟨w, hw, hw?, ?_, ?_⟩
  · rw [opening, hw?]
    rfl
  · rw [closing, hw?]
    rfl

theorem opening_le_closing (h : location < p.numLocations) : p.opening location ≤ p.closing location := by
  obtain ⟨w, -, hw?, hopening, hclosing⟩ := window_eq_ok h
  have hnot : ¬w.late < w.early := of_decide_eq_false (not_isInverted hw?)
  rw [hopening, hclosing]
  exact Int64.le_iff_toInt_le.mp (Int64.not_lt.mp hnot)

theorem closing_le (p : Problem) (location : Nat) : p.closing location ≤ greatest := by
  unfold closing greatest
  cases p.window? location with
  | none => decide
  | some w => exact Int64.toInt_le w.late

theorem OpensFromZero.opening_nonneg (h : p.OpensFromZero) (location : Nat) : 0 ≤ p.opening location := by
  unfold opening
  cases hw : p.window? location with
  | none => exact le_rfl
  | some w =>
    rcases window?_cases hw with ⟨c, hc, rfl⟩ | ⟨d, hd, rfl⟩
    · exact h.clients c hc
    · exact h.depots d hd

theorem delivery_nonneg (p : Problem) (location : Nat) : 0 ≤ p.delivery location := by
  unfold delivery
  cases hc : p.client? location with
  | none => exact le_rfl
  | some c =>
    unfold client? at hc
    split at hc
    · cases hc
    · exact Int64.le_iff_toInt_le.mp (clientFlaw?_none hc).2.1

theorem delivery_depot (h : location < p.numDepots) : p.delivery location = 0 := by
  have hnone : p.client? location = none := by
    unfold client?
    rw [if_pos h]
  rw [delivery, hnone]

end Problem

/-! ### The visits of a tour -/

namespace Totals

open Stretch

variable {p : Problem} {vehicle : VehicleType} {vehicleType location last : Nat} {clients : List Nat}
  {distances durations : Matrix} {along : Along} {vs : List Visit}

def clientVisit (p : Problem) (location : Nat) : Visit :=
  ⟨location, p.serviceDuration location, p.opening location, p.closing location⟩

/-- The stop of a vehicle at a depot, while both are open. -/
def depotStop (p : Problem) (vehicle : VehicleType) (location : Nat) : Visit :=
  ⟨location, 0, max (p.opening location) vehicle.window.early.toInt, min (p.closing location) vehicle.window.late.toInt⟩

/-- What a vehicle does on its way to some clients and on to a depot. -/
def visitsTo (p : Problem) (vehicle : VehicleType) (clients : List Nat) (depot : Nat) : List Visit :=
  clients.map (clientVisit p) ++ [depotStop p vehicle depot]

/-- The distance from a location along some others. -/
def lengthFrom (distances : Matrix) : Nat → List Nat → Int
  | _, [] => 0
  | location, next :: locations => distances.way location next + lengthFrom distances next locations

def delivered (p : Problem) (locations : List Nat) : Int := (locations.map p.delivery).sum

theorem lengthFrom_nonneg (hdist : distances.hasNegative = false) (location : Nat) (locations : List Nat) :
    0 ≤ lengthFrom distances location locations := by
  induction locations generalizing location with
  | nil => exact le_rfl
  | cons next locations ih => exact add_nonneg (distances.way_nonneg hdist _ _) (ih next)

theorem delivered_nonneg (p : Problem) (locations : List Nat) : 0 ≤ delivered p locations := by
  refine List.sum_nonneg fun x hx => ?_
  obtain ⟨location, -, rfl⟩ := List.mem_map.mp hx
  exact p.delivery_nonneg location

theorem atLocation_eq_ok (h : location < p.numLocations) :
    Stretch.atLocation p location = .ok (clientVisit p location).stretch := by
  obtain ⟨w, hw, -, hopening, hclosing⟩ := Problem.window_eq_ok h
  unfold Stretch.atLocation clientVisit
  rw [hw, hopening, hclosing]
  rfl

theorem depotVisit_eq_ok (h : location < p.numLocations) :
    depotVisit p vehicle location = .ok (depotStop p vehicle location).stretch := by
  obtain ⟨w, hw, -, hopening, hclosing⟩ := Problem.window_eq_ok h
  unfold depotVisit depotStop
  rw [hw, hopening, hclosing]
  rfl

theorem clientVisit_regular (hopens : p.OpensFromZero) (hdur : durations.size = p.numLocations)
    (h : location < p.numLocations) : (clientVisit p location).Regular durations where
  location := hdur ▸ h
  service := p.serviceDuration_nonneg location
  early := hopens.opening_nonneg location
  window := Problem.opening_le_closing h
  late := p.closing_le location

theorem depotStop_regular (hopens : p.OpensFromZero) (hdur : durations.size = p.numLocations)
    (h : location < p.numLocations)
    (hmeets : (depotStop p vehicle location).early ≤ (depotStop p vehicle location).late) :
    (depotStop p vehicle location).Regular durations where
  location := hdur ▸ h
  service := le_rfl
  early := le_max_of_le_left (hopens.opening_nonneg location)
  window := hmeets
  late := min_le_of_left_le (p.closing_le location)

theorem visitsTo_regular (hopens : p.OpensFromZero) (hdur : durations.size = p.numLocations)
    (hclients : ∀ x ∈ clients, x < p.numLocations) (hstop : (depotStop p vehicle last).Regular durations) :
    ∀ v ∈ visitsTo p vehicle clients last, v.Regular durations := by
  intro v hv
  rcases List.mem_append.mp hv with hv | hv
  · obtain ⟨x, hx, rfl⟩ := List.mem_map.mp hv
    exact clientVisit_regular hopens hdur (hclients x hx)
  · cases List.mem_singleton.mp hv
    exact hstop

/-! ### Following a tour -/

/-- What has come together fits, and its stretch is that of the visits so far. -/
structure Along.Follows (durations : Matrix) (vs : List Visit) (along : Along) : Prop where
  distance : 0 ≤ along.distance ∧ along.distance ≤ greatest
  load : 0 ≤ along.load ∧ along.load ≤ greatest
  last : along.stretch.last < durations.size
  moderate : Moderate (amount durations vs) along.stretch
  describes : Describes durations vs along.stretch

/-- The way to one visit more, and the visit. -/
def Along.visiting (p : Problem) (distances durations : Matrix) (v : Visit) (along : Along) : Along where
  distance := along.distance + distances.way along.stretch.last v.location
  load := along.load + p.delivery v.location
  stretch := exactJoin (durations.way along.stretch.last v.location) along.stretch v.stretch

/-- The distance and the load fit when some more locations have been visited. -/
def Along.Fits (p : Problem) (distances : Matrix) (along : Along) (locations : List Nat) : Prop :=
  along.distance + lengthFrom distances along.stretch.last locations ≤ greatest ∧
    along.load + delivered p locations ≤ greatest

def Along.goOn (p : Problem) (vehicle : VehicleType) (distances durations : Matrix) (along : Along) (v : Visit)
    (locations : List Nat) : Except Fault Along := do
  let way ← distances.entry along.stretch.last v.location
  let distance ← checked (along.distance + way)
  let load ← checked (along.load + p.delivery v.location)
  let stretch ← along.stretch.join durations v.stretch
  follow p vehicle distances durations ⟨distance, load, stretch⟩ locations

theorem follow_client (h : location < p.numLocations) (along : Along) (locations : List Nat) :
    follow p vehicle distances durations along (location :: (locations ++ [last])) =
      along.goOn p vehicle distances durations (clientVisit p location) (locations ++ [last]) := by
  have hnext : (locations ++ [last]).isEmpty = false := by simp
  rw [follow, hnext, if_neg Bool.false_ne_true, atLocation_eq_ok h]
  rfl

theorem follow_depot (h : last < p.numLocations) (along : Along) :
    follow p vehicle distances durations along [last] =
      along.goOn p vehicle distances durations (depotStop p vehicle last) [] := by
  rw [follow, List.isEmpty_nil, if_pos rfl, depotVisit_eq_ok h]
  rfl

section Visiting

variable {v : Visit} (hdist : distances.hasNegative = false) (hdur : durations.hasNegative = false)
  (hsize : distances.size = durations.size) (ha : along.Follows durations vs) (hv : v.Regular durations)
  (hamount : amount durations (vs ++ [v]) ≤ 2 ^ 62)

include hdist hdur hsize ha hv hamount

theorem Along.Follows.goOn_run (locations : List Nat)
    (hdistance : (along.visiting p distances durations v).distance ≤ greatest)
    (hload : (along.visiting p distances durations v).load ≤ greatest) :
    along.goOn p vehicle distances durations v locations =
        follow p vehicle distances durations (along.visiting p distances durations v) locations ∧
      (along.visiting p distances durations v).Follows durations (vs ++ [v]) := by
  have hway := distances.way_nonneg hdist along.stretch.last v.location
  have htravel := durations.way_nonneg hdur along.stretch.last v.location
  have hdelivery := p.delivery_nonneg v.location
  have hpos := ha.distance.1
  have hpos' := ha.load.1
  have hsum := amount_append (m := durations) ha.describes.ne_nil (List.cons_ne_nil v [])
  rw [← ha.describes.last_eq ha.describes.ne_nil, List.head_cons] at hsum
  have hjoin : along.stretch.join durations v.stretch =
      .ok (exactJoin (durations.way along.stretch.last v.location) along.stretch v.stretch) :=
    join_run ha.moderate (Visit.moderate hv) htravel (hsum ▸ hamount) ha.last hv.location
  simp only [visiting] at hdistance hload
  constructor
  · unfold goOn
    rw [Matrix.entry_eq_ok (hsize ▸ ha.last) (hsize ▸ hv.location), ok_bind,
      checked_run ⟨le_trans (by decide) (add_nonneg hpos hway), hdistance⟩, ok_bind,
      checked_run ⟨le_trans (by decide) (add_nonneg hpos' hdelivery), hload⟩, ok_bind, hjoin]
    rfl
  · exact {
      distance := ⟨add_nonneg hpos hway, hdistance⟩
      load := ⟨add_nonneg hpos' hdelivery, hload⟩
      last := hv.location
      moderate := hsum ▸ ha.moderate.exactJoin (Visit.moderate hv) htravel
      describes := ha.describes.join (Visit.describes hv) ha.moderate.window }

omit hdur hv hamount in
theorem Along.Follows.goOn_overflows (hv : v.location < durations.size) (locations : List Nat)
    (h : ¬((along.visiting p distances durations v).distance ≤ greatest ∧
      (along.visiting p distances durations v).load ≤ greatest)) :
    along.goOn p vehicle distances durations v locations = .error .overflow := by
  have hway := distances.way_nonneg hdist along.stretch.last v.location
  have hpos := ha.distance.1
  simp only [visiting] at h
  unfold goOn
  rw [Matrix.entry_eq_ok (hsize ▸ ha.last) (hsize ▸ hv), ok_bind]
  by_cases hdistance : along.distance + distances.way along.stretch.last v.location ≤ greatest
  · have hload : ¬along.load + p.delivery v.location ≤ greatest := fun hload => h ⟨hdistance, hload⟩
    rw [checked_run ⟨le_trans (by decide) (add_nonneg hpos hway), hdistance⟩, ok_bind, checked,
      if_neg fun hle => hload hle.2]
    rfl
  · rw [checked, if_neg fun hle => hdistance hle.2]
    rfl

end Visiting

theorem Along.visiting_fits {v : Visit} {locations : List Nat} :
    (along.visiting p distances durations v).Fits p distances locations ↔
      along.Fits p distances (v.location :: locations) := by
  have hlast : (along.visiting p distances durations v).stretch.last = v.location := rfl
  unfold Fits
  rw [hlast, lengthFrom, delivered, delivered, List.map_cons, List.sum_cons]
  simp only [visiting, add_assoc]

theorem Along.Fits.now {locations : List Nat} (hdist : distances.hasNegative = false)
    (h : along.Fits p distances locations) : along.distance ≤ greatest ∧ along.load ≤ greatest :=
  ⟨le_trans (le_add_of_nonneg_right (lengthFrom_nonneg hdist _ _)) h.1,
    le_trans (le_add_of_nonneg_right (delivered_nonneg p _)) h.2⟩

theorem Along.Follows.fits (ha : along.Follows durations vs) : along.Fits p distances [] := by
  refine ⟨?_, ?_⟩
  · rw [lengthFrom, add_zero]
    exact ha.distance.2
  · rw [delivered, List.map_nil, List.sum_nil, add_zero]
    exact ha.load.2

/-- The outcome of `result`: there is one exactly if everything fits, and its stretch is that of the visits. -/
def Outcome (durations : Matrix) (vs : List Visit) (fits : Prop) (result : Except Fault Along) : Prop :=
  (fits → ∃ along, result = .ok along ∧ along.Follows durations vs) ∧ (¬fits → result = .error .overflow)

theorem Along.Follows.goOn_outcome {v : Visit} {ws : List Visit} {locations : List Nat}
    (ha : along.Follows durations vs) (hdist : distances.hasNegative = false) (hdur : durations.hasNegative = false)
    (hsize : distances.size = durations.size) (hv : v.Regular durations) (hat : v.location = location)
    (hamount : amount durations (vs ++ [v]) ≤ 2 ^ 62)
    (hnext : (along.visiting p distances durations v).Follows durations (vs ++ [v]) →
      Outcome durations ws ((along.visiting p distances durations v).Fits p distances locations)
        (follow p vehicle distances durations (along.visiting p distances durations v) locations)) :
    Outcome durations ws (along.Fits p distances (location :: locations))
      (along.goOn p vehicle distances durations v locations) := by
  have hfits : (along.visiting p distances durations v).Fits p distances locations ↔
      along.Fits p distances (v.location :: locations) := Along.visiting_fits
  rw [← hat, ← hfits]
  by_cases hnow : (along.visiting p distances durations v).distance ≤ greatest ∧
      (along.visiting p distances durations v).load ≤ greatest
  · obtain ⟨hrun, hvisiting⟩ : along.goOn p vehicle distances durations v locations =
          follow p vehicle distances durations (along.visiting p distances durations v) locations ∧
        (along.visiting p distances durations v).Follows durations (vs ++ [v]) :=
      ha.goOn_run hdist hdur hsize hv hamount locations hnow.1 hnow.2
    rw [hrun]
    exact hnext hvisiting
  · exact ⟨fun h => absurd (h.now hdist) hnow, fun _ => ha.goOn_overflows hdist hsize hv.location locations hnow⟩

/-- Only the distance and the load can overflow. If they do not, the stretch of all visits is found. -/
theorem follow_run (hdist : distances.hasNegative = false) (hdur : durations.hasNegative = false)
    (hdistSize : distances.size = p.numLocations) (hdurSize : durations.size = p.numLocations)
    (hopens : p.OpensFromZero) (hclients : ∀ x ∈ clients, x < p.numLocations) (hlast : last < p.numLocations)
    (hmeets : (depotStop p vehicle last).early ≤ (depotStop p vehicle last).late)
    (ha : along.Follows durations vs) (hamount : amount durations (vs ++ visitsTo p vehicle clients last) ≤ 2 ^ 62) :
    Outcome durations (vs ++ visitsTo p vehicle clients last) (along.Fits p distances (clients ++ [last]))
      (follow p vehicle distances durations along (clients ++ [last])) := by
  have hsize : distances.size = durations.size := hdistSize.trans hdurSize.symm
  have hstop := depotStop_regular hopens hdurSize hlast hmeets
  induction clients generalizing vs along with
  | nil =>
    have hone : visitsTo p vehicle [] last = [depotStop p vehicle last] := rfl
    rw [hone] at hamount ⊢
    rw [List.nil_append, follow_depot hlast]
    refine ha.goOn_outcome hdist hdur hsize hstop rfl hamount fun hvisiting => ?_
    exact ⟨fun _ => ⟨_, rfl, hvisiting⟩, fun hnot => absurd hvisiting.fits hnot⟩
  | cons location clients ih =>
    have hlocation := hclients location List.mem_cons_self
    have hrest : ∀ x ∈ clients, x < p.numLocations := fun x hx => hclients x (List.mem_cons_of_mem _ hx)
    have hclient := clientVisit_regular hopens hdurSize hlocation
    have hcons : vs ++ visitsTo p vehicle (location :: clients) last =
        (vs ++ [clientVisit p location]) ++ visitsTo p vehicle clients last := List.append_cons _ _ _
    have hnext : amount durations (vs ++ [clientVisit p location]) ≤ 2 ^ 62 :=
      le_trans (amount_le_append hdur (by simp) (visitsTo_regular hopens hdurSize hrest hstop)) (hcons ▸ hamount)
    rw [List.cons_append, follow_client hlocation, hcons]
    exact ha.goOn_outcome hdist hdur hsize hclient rfl hnext fun hvisiting => ih hrest hvisiting (hcons ▸ hamount)

/-! ### The time warp of a tour -/

/-- The locations of a tour along some clients, between the depots of the vehicle. -/
def tourOf (vehicle : VehicleType) (clients : List Nat) : List Nat :=
  vehicle.startDepot.toNat :: (clients ++ [vehicle.endDepot.toNat])

def visitsOf (p : Problem) (vehicle : VehicleType) (clients : List Nat) : List Visit :=
  depotStop p vehicle vehicle.startDepot.toNat :: visitsTo p vehicle clients vehicle.endDepot.toNat

/-- At some time both the vehicle and its first depot are open, and at some time both the vehicle and its last depot. -/
structure DepotsMeet (p : Problem) (vehicle : VehicleType) : Prop where
  start : (depotStop p vehicle vehicle.startDepot.toNat).early ≤ (depotStop p vehicle vehicle.startDepot.toNat).late
  finish : (depotStop p vehicle vehicle.endDepot.toNat).early ≤ (depotStop p vehicle vehicle.endDepot.toNat).late

/-- The whole distance and the whole load are quantities. -/
structure TourFits (p : Problem) (vehicle : VehicleType) (distances : Matrix) (clients : List Nat) : Prop where
  distance : lengthFrom distances vehicle.startDepot.toNat (clients ++ [vehicle.endDepot.toNat]) ≤ greatest
  load : delivered p clients ≤ greatest

theorem delivered_append_depot (h : last < p.numDepots) : delivered p (clients ++ [last]) = delivered p clients := by
  unfold delivered
  rw [List.map_append, List.sum_append, List.map_singleton, Problem.delivery_depot h, List.sum_singleton, add_zero]

theorem visitsOf_window (hclients : ∀ x ∈ clients, p.isClient x = true) (hmeets : DepotsMeet p vehicle) :
    ∀ v ∈ visitsOf p vehicle clients, v.early ≤ v.late := by
  intro v hv
  rcases List.mem_cons.mp hv with rfl | hv
  · exact hmeets.start
  rcases List.mem_append.mp hv with hv | hv
  · obtain ⟨x, hx, rfl⟩ := List.mem_map.mp hv
    exact Problem.opening_le_closing (Problem.lt_of_isClient (hclients x hx))
  · cases List.mem_singleton.mp hv
    exact hmeets.finish

/-- A tour starts with the stop at its first location, and is followed from there. -/
theorem ofTour_eq {first : Nat} (hv : p.vehicleTypes[vehicleType]? = some vehicle)
    (hdistances : p.distances[vehicle.profile.toNat]? = some distances)
    (hdurations : p.durations[vehicle.profile.toNat]? = some durations) (hfirst : first < p.numLocations)
    (clients : List Nat) (last : Nat) :
    ofTour p vehicleType (first :: (clients ++ [last])) = (do
      let along ← follow p vehicle distances durations ⟨0, 0, (depotStop p vehicle first).stretch⟩ (clients ++ [last])
      let excess ← checked (along.load - vehicle.capacity.toInt)
      return ⟨along.distance, along.stretch.duration, along.stretch.timeWarp, along.load, max excess 0⟩) := by
  obtain ⟨second, rest, hcons⟩ := List.exists_cons_of_ne_nil
    (List.append_ne_nil_of_right_ne_nil clients (List.cons_ne_nil last []))
  have hdistances' : p.distanceMatrix vehicle.profile.toNat = .ok distances := by
    rw [Problem.distanceMatrix, hdistances]
  have hdurations' : p.durationMatrix vehicle.profile.toNat = .ok durations := by
    rw [Problem.durationMatrix, hdurations]
  rw [hcons, ofTour, Problem.vehicleType_run hv, ok_bind, hdistances', ok_bind, hdurations', ok_bind,
    depotVisit_eq_ok hfirst, ok_bind]

/-- What is loaded above the capacity is a quantity if the load is one. -/
theorem checked_excess {load : Int} {capacity : Int64} (hcapacity : 0 ≤ capacity)
    (hload : 0 ≤ load ∧ load ≤ greatest) : checked (load - capacity.toInt) = .ok (load - capacity.toInt) := by
  have hcapacity' := Int64.le_iff_toInt_le.mp hcapacity
  have hupper := Int64.toInt_lt capacity
  refine checked_run ⟨?_, ?_⟩
  · unfold least
    omega
  · exact le_trans (sub_le_self _ hcapacity') hload.2

section Tour

variable (hv : p.vehicleTypes[vehicleType]? = some vehicle)
  (hdistances : p.distances[vehicle.profile.toNat]? = some distances)
  (hdurations : p.durations[vehicle.profile.toNat]? = some durations) (hopens : p.OpensFromZero)
  (hclients : ∀ x ∈ clients, p.isClient x = true)
  (hamount : amount durations (visitsOf p vehicle clients) ≤ 2 ^ 62)

include hv hdistances hdurations hopens hclients hamount

theorem ofTour_outcome (hmeets : DepotsMeet p vehicle) :
    (TourFits p vehicle distances clients → ∃ t s, ofTour p vehicleType (tourOf vehicle clients) = .ok t ∧
      Describes durations (visitsOf p vehicle clients) s ∧ 0 ≤ s.timeWarp ∧ t.timeWarp = s.timeWarp) ∧
    (¬TourFits p vehicle distances clients → ofTour p vehicleType (tourOf vehicle clients) = .error .overflow) := by
  obtain ⟨hstart, hend, -, -, -, hcapacity⟩ := Problem.vehicleFlaw?_none hv
  obtain ⟨hdistSize, hdist⟩ := Problem.matrixFlaw?_none
    (List.mem_append_left _ (Array.mem_toList_iff.mpr (Array.mem_of_getElem? hdistances)))
  obtain ⟨hdurSize, hdur⟩ := Problem.matrixFlaw?_none
    (List.mem_append_right _ (Array.mem_toList_iff.mpr (Array.mem_of_getElem? hdurations)))
  have hstop := depotStop_regular hopens hdurSize (Problem.lt_of_depot hstart) hmeets.start
  have hfollows : Along.Follows durations [depotStop p vehicle vehicle.startDepot.toNat]
      ⟨0, 0, (depotStop p vehicle vehicle.startDepot.toNat).stretch⟩ := {
    distance := ⟨le_rfl, (by decide : (0 : Int) ≤ greatest)⟩
    load := ⟨le_rfl, (by decide : (0 : Int) ≤ greatest)⟩
    last := hstop.location
    moderate := Visit.moderate hstop
    describes := Visit.describes hstop }
  have hfits : Along.Fits p distances ⟨0, 0, (depotStop p vehicle vehicle.startDepot.toNat).stretch⟩
      (clients ++ [vehicle.endDepot.toNat]) ↔ TourFits p vehicle distances clients := by
    unfold Along.Fits
    rw [delivered_append_depot hend, zero_add, zero_add]
    exact ⟨fun h => ⟨h.1, h.2⟩, fun h => ⟨h.distance, h.load⟩⟩
  obtain ⟨hdone, hover⟩ := follow_run hdist hdur hdistSize hdurSize hopens
    (fun x hx => Problem.lt_of_isClient (hclients x hx)) (Problem.lt_of_depot hend) hmeets.finish hfollows hamount
  have hrun : ofTour p vehicleType (tourOf vehicle clients) = _ :=
    ofTour_eq hv hdistances hdurations (Problem.lt_of_depot hstart) clients vehicle.endDepot.toNat
  rw [hfits] at hdone hover
  constructor
  · intro h
    obtain ⟨along, halong, hall⟩ := hdone h
    rw [hrun, halong, ok_bind, checked_excess hcapacity hall.load]
    exact ⟨_, _, rfl, hall.describes, hall.moderate.timeWarp, rfl⟩
  · intro h
    rw [hrun, hover h]
    rfl

/-- Whenever a tour has totals, a schedule that keeps to all windows exists exactly if there is no time warp and the
    vehicle can be at its depots when they are open. -/
theorem schedule_iff_timeWarp :
    (DepotsMeet p vehicle →
      ((∃ t, ofTour p vehicleType (tourOf vehicle clients) = .ok t) ↔ TourFits p vehicle distances clients)) ∧
    ∀ t, ofTour p vehicleType (tourOf vehicle clients) = .ok t →
      ((∃ ts, Schedule durations (visitsOf p vehicle clients) ts) ↔ DepotsMeet p vehicle ∧ t.timeWarp = 0) := by
  constructor
  · intro hmeets
    obtain ⟨hdone, hover⟩ := ofTour_outcome hv hdistances hdurations hopens hclients hamount hmeets
    constructor
    · rintro ⟨t, ht⟩
      by_contra hnot
      rw [hover hnot] at ht
      cases ht
    · intro hfits
      obtain ⟨t, -, ht, -⟩ := hdone hfits
      exact ⟨t, ht⟩
  · intro t ht
    by_cases hmeets : DepotsMeet p vehicle
    · obtain ⟨hdone, hover⟩ := ofTour_outcome hv hdistances hdurations hopens hclients hamount hmeets
      have hfits : TourFits p vehicle distances clients := by
        by_contra hnot
        rw [hover hnot] at ht
        cases ht
      obtain ⟨t', s, ht', hdescribes, hwarp, hsame⟩ := hdone hfits
      cases ht'.symm.trans ht
      rw [hsame, hdescribes.schedule_iff (visitsOf_window hclients hmeets) hwarp]
      exact ⟨fun h => ⟨hmeets, h⟩, And.right⟩
    · refine ⟨fun ⟨ts, hts⟩ => absurd ?_ hmeets, fun h => absurd h.1 hmeets⟩
      exact ⟨hts.window List.mem_cons_self, hts.window (List.mem_cons_of_mem _ (by simp [visitsTo]))⟩

end Tour

namespace Sample

def ways : Matrix := ⟨#[#[0, 10, 5], #[10, 0, 5], #[5, 5, 0]], by decide⟩

def late : VehicleType := { startDepot := 0, endDepot := 1, window := ⟨10, 20⟩ }

def free : VehicleType := { startDepot := 0, endDepot := 1 }

/-- The first depot closes before the first vehicle may leave it. -/
def problem : Problem where
  depots := #[{ x := 0, y := 0, window := ⟨0, 5⟩ }, { x := 10, y := 0 }]
  clients := #[{ x := 5, y := 0 }]
  vehicleTypes := #[late, free]
  distances := #[ways]
  durations := #[ways]
  groups := #[]
  flawless := by decide +kernel

theorem opensFromZero : problem.OpensFromZero where
  depots := by decide +kernel
  clients := by decide +kernel
  vehicleTypes := by decide +kernel

theorem isClient : ∀ x ∈ [2], problem.isClient x = true := by decide +kernel

end Sample

/-- No time warp does not mean that there is a schedule: the vehicle is to leave a depot that is closed by then, and
    gets to the client and to the other depot in time. -/
theorem no_timeWarp_without_schedule :
    (Sample.problem.vehicleTypes[0]? = some Sample.late ∧
      Sample.problem.durations[Sample.late.profile.toNat]? = some Sample.ways ∧ Sample.problem.OpensFromZero ∧
      (∀ x ∈ [2], Sample.problem.isClient x = true) ∧
      amount Sample.ways (visitsOf Sample.problem Sample.late [2]) ≤ 2 ^ 61) ∧
    ofTour Sample.problem 0 (tourOf Sample.late [2]) = .ok ⟨10, 10, 0, 0, 0⟩ ∧
    ¬∃ ts, Schedule Sample.ways (visitsOf Sample.problem Sample.late [2]) ts := by
  refine ⟨⟨rfl, rfl, Sample.opensFromZero, Sample.isClient, by decide +kernel⟩, rfl, ?_⟩
  rintro ⟨ts, hts⟩
  exact absurd (hts.window List.mem_cons_self) (by decide +kernel)

theorem schedule_iff_timeWarp_in_sample :
    (Sample.problem.vehicleTypes[1]? = some Sample.free ∧
      Sample.problem.distances[Sample.free.profile.toNat]? = some Sample.ways ∧
      Sample.problem.durations[Sample.free.profile.toNat]? = some Sample.ways ∧ Sample.problem.OpensFromZero ∧
      (∀ x ∈ [2], Sample.problem.isClient x = true) ∧
      amount Sample.ways (visitsOf Sample.problem Sample.free [2]) ≤ 2 ^ 62) ∧
    ∃ ts, Schedule Sample.ways (visitsOf Sample.problem Sample.free [2]) ts := by
  have hv : Sample.problem.vehicleTypes[1]? = some Sample.free := rfl
  have hdist : Sample.problem.distances[Sample.free.profile.toNat]? = some Sample.ways := rfl
  have hdur : Sample.problem.durations[Sample.free.profile.toNat]? = some Sample.ways := rfl
  have hamount : amount Sample.ways (visitsOf Sample.problem Sample.free [2]) ≤ 2 ^ 62 := by decide +kernel
  obtain ⟨-, htours⟩ := schedule_iff_timeWarp hv hdist hdur Sample.opensFromZero Sample.isClient hamount
  have hrun : ofTour Sample.problem 1 (tourOf Sample.free [2]) = .ok ⟨10, 10, 0, 0, 0⟩ := rfl
  have hmeets : DepotsMeet Sample.problem Sample.free := ⟨by decide +kernel, by decide +kernel⟩
  exact ⟨⟨hv, hdist, hdur, Sample.opensFromZero, Sample.isClient, hamount⟩, (htours _ hrun).mpr ⟨hmeets, rfl⟩⟩

end Totals

end Fleet
