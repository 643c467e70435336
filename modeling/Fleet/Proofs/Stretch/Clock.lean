import Fleet.Stretch
import Fleet.Proofs.Problem

/-! A stretch says what its visits do to the clock of a vehicle.

    The clock is simulated visit by visit: waiting for a window to open, going back to the due time of one that
    has closed, service, travel. However the stretches of single visits are joined, the result gives the time
    that passes and the time warp for every start (`Describes`), and only one stretch does that. -/

namespace Fleet

open Quantity

/-! ### Non-negative matrices -/

namespace Matrix

variable {m : Matrix} {i j : Nat}

/-- The entry in row `i` and column `j`; nothing if there is none. -/
def way (m : Matrix) (i j : Nat) : Int := (m.entry? i j).getD 0

theorem entry_eq_ok (hi : i < m.size) (hj : j < m.size) : m.entry i j = .ok (m.way i j) := by
  obtain ⟨x, hx⟩ := Problem.entry_run hi hj
  unfold entry at hx ⊢
  unfold way
  cases h : m.entry? i j with
  | none =>
    rw [h] at hx
    cases hx
  | some y => rfl

theorem way_nonneg (hm : m.hasNegative = false) (i j : Nat) : 0 ≤ m.way i j := by
  unfold way entry?
  cases hrow : m.rows[i]? with
  | none => exact le_rfl
  | some row =>
    cases hx : row[j]? with
    | none => simp [hx]
    | some x =>
      have hneg := Array.any_eq_false'.mp hm row (Array.mem_of_getElem? hrow)
      rw [Bool.not_eq_true] at hneg
      have hlt : ¬x < 0 := by simpa using Array.any_eq_false'.mp hneg x (Array.mem_of_getElem? hx)
      simpa [hx] using Int64.le_iff_toInt_le.mp (Int64.not_lt.mp hlt)

end Matrix

/-! ### Quantities within their limits -/

namespace Quantity

variable {n k : Int}

theorem checked_run (h : least ≤ n ∧ n ≤ greatest) : checked n = .ok n := by
  unfold checked
  rw [if_pos h]

theorem clamped_of_within (h : least ≤ n ∧ n ≤ greatest) : clamped n = n := by
  unfold clamped
  rw [if_neg (by omega), if_neg (by omega)]

/-- Staying at the lower limit does not show where only what is above zero counts. -/
theorem max_clamped (h : n ≤ greatest) : max (clamped n) 0 = max n 0 := by
  unfold clamped least at *
  split
  · omega
  · rw [if_neg (by omega)]

/-- Staying at the upper limit does not show beside something that is below it. -/
theorem min_clamped (h : least ≤ n) (hk : k ≤ greatest) : min (clamped n) k = min n k := by
  unfold clamped
  rw [if_neg (by omega)]
  split
  · omega
  · rfl

end Quantity

namespace Stretch

variable {m : Matrix} {s s' t : Stretch} {b b' : Int}

/-! ### Joining within the limits -/

/-- The stretch takes up at most the time `b`, and is far from the limits of quantities apart from its latest start. -/
structure Moderate (b : Int) (s : Stretch) : Prop where
  duration : 0 ≤ s.duration
  timeWarp : 0 ≤ s.timeWarp
  early : 0 ≤ s.early
  window : s.early ≤ s.late
  late : s.late ≤ greatest
  warped : s.timeWarp ≤ s.early + s.duration
  bound : s.early + s.duration ≤ b

/-- The join of two stretches with exact arithmetic. -/
def exactJoin (travel : Int) (s t : Stretch) : Stretch :=
  let arrival := s.duration - s.timeWarp + travel
  let wait := max (t.early - arrival - s.late) 0
  let warp := max (s.early + arrival - t.late) 0
  ⟨s.duration + t.duration + travel + wait, s.timeWarp + t.timeWarp + warp,
    max (t.early - arrival) s.early - wait, min (t.late - arrival) s.late + warp, s.first, t.last⟩

theorem Moderate.exactJoin {travel : Int} (hs : Moderate b s) (ht : Moderate b' t) (htravel : 0 ≤ travel) :
    Moderate (b + travel + b') (exactJoin travel s t) := by
  obtain ⟨h1, h2, h3, h4, h5, h6, h7⟩ := hs
  obtain ⟨k1, k2, k3, k4, k5, k6, k7⟩ := ht
  constructor <;> simp only [Stretch.exactJoin] <;> omega

/-- Neither the checks nor the limits show while the stretches are moderate. -/
theorem join_run (hs : Moderate b s) (ht : Moderate b' t) (htravel : 0 ≤ m.way s.last t.first)
    (hbound : b + m.way s.last t.first + b' ≤ 2 ^ 62) (hlast : s.last < m.size) (hfirst : t.first < m.size) :
    join m s t = .ok (exactJoin (m.way s.last t.first) s t) := by
  have hj := hs.exactJoin ht htravel
  obtain ⟨h1, h2, h3, h4, h5, h6, h7⟩ := hs
  obtain ⟨k1, k2, k3, k4, k5, k6, k7⟩ := ht
  obtain ⟨j1, j2, j3, j4, j5, j6, j7⟩ := hj
  revert htravel hbound j1 j2 j3 j4 j5 j6 j7
  generalize htravel : m.way s.last t.first = travel
  intro hpos hbound j1 j2 j3 j4 j5 j6 j7
  unfold greatest at h5 k5
  have hinner : clamped (t.early - (s.duration - s.timeWarp + travel)) = t.early - (s.duration - s.timeWarp + travel) :=
    clamped_of_within (by unfold least greatest; omega)
  have hupper : clamped (s.early + (s.duration - s.timeWarp + travel)) = s.early + (s.duration - s.timeWarp + travel) :=
    clamped_of_within (by unfold least greatest; omega)
  have hwait : s.wait t (s.duration - s.timeWarp + travel) =
      max (t.early - (s.duration - s.timeWarp + travel) - s.late) 0 := by
    unfold wait
    rw [hinner, max_clamped (by unfold greatest; omega)]
  have hwarp : s.warp t (s.duration - s.timeWarp + travel) =
      max (s.early + (s.duration - s.timeWarp + travel) - t.late) 0 := by
    unfold warp
    rw [hupper, max_clamped (by unfold greatest; omega)]
  -- A negative arrival leads from a window that never closes beyond the upper limit, but not below `s.late`.
  have hlate : min (clamped (t.late - (s.duration - s.timeWarp + travel))) s.late =
      min (t.late - (s.duration - s.timeWarp + travel)) s.late :=
    min_clamped (by unfold least; omega) (by unfold greatest; omega)
  simp only [exactJoin] at j1 j2 j3 j4 j5 j6 j7
  unfold join
  rw [Matrix.entry_eq_ok hlast hfirst, htravel]
  have hchecked : ∀ {n : Int}, -2 ^ 62 ≤ n → n ≤ 2 ^ 62 → checked n = .ok n := by
    intro n h h'
    exact checked_run (by unfold least greatest; omega)
  simp only [ok_bind]
  rw [hchecked (by omega) (by omega), ok_bind, hchecked (by omega) (by omega), ok_bind, hwait, hwarp, hinner, hlate,
    hchecked (by omega) (by omega), ok_bind, hchecked (by omega) (by omega), ok_bind, hchecked (by omega) (by omega),
    ok_bind, hchecked (by omega) (by omega), ok_bind, hchecked (by omega) (by omega), ok_bind,
    hchecked (by omega) (by omega), ok_bind, clamped_of_within (by unfold least; omega)]
  rfl

/-! ### The clock of a vehicle -/

/-- One visit: where it is, how long it is served, and the window in which its service may start. -/
structure Visit where
  location : Nat
  service : Int
  early : Int
  late : Int
  deriving DecidableEq

namespace Visit

def stretch (v : Visit) : Stretch := Stretch.visit v.location v.service v.early v.late

structure Regular (m : Matrix) (v : Visit) : Prop where
  location : v.location < m.size
  service : 0 ≤ v.service
  early : 0 ≤ v.early
  window : v.early ≤ v.late
  late : v.late ≤ greatest

end Visit

/-- The time it is for a vehicle, the time that has passed for it, and how far it has been put back. -/
structure Clock where
  time : Int
  elapsed : Int
  warp : Int
  deriving DecidableEq

namespace Clock

def startingAt (t : Int) : Clock := ⟨t, 0, 0⟩

def pass (span : Int) (c : Clock) : Clock := ⟨c.time + span, c.elapsed + span, c.warp⟩

/-- Waits for the window to open, or goes back to when it closes. -/
def keepTo (early late : Int) (c : Clock) : Clock :=
  if c.time < early then c.pass (early - c.time)
  else if late < c.time then ⟨late, c.elapsed, c.warp + (c.time - late)⟩
  else c

def serve (v : Visit) (c : Clock) : Clock := (c.keepTo v.early v.late).pass v.service

/-- When the vehicle would have started if neither waiting nor being put back had moved its clock. -/
def origin (c : Clock) : Int := c.time - c.elapsed + c.warp

variable {c : Clock} {v : Visit} {span : Int}

@[simp] theorem pass_time : (c.pass span).time = c.time + span := rfl

@[simp] theorem pass_elapsed : (c.pass span).elapsed = c.elapsed + span := rfl

@[simp] theorem pass_warp : (c.pass span).warp = c.warp := rfl

@[simp] theorem origin_pass : (c.pass span).origin = c.origin := by
  simp only [origin, pass_time, pass_elapsed, pass_warp]
  omega

@[simp] theorem origin_serve : (c.serve v).origin = c.origin := by
  unfold serve keepTo
  rw [origin_pass]
  split
  · exact origin_pass
  · split
    · simp only [origin]
      omega
    · rfl

theorem serve_elapsed : (c.serve v).elapsed = c.elapsed + (v.service + max (v.early - c.time) 0) := by
  unfold serve keepTo
  split
  · simp only [pass_elapsed]
    omega
  · split <;> simp only [pass_elapsed] <;> omega

theorem serve_warp (h : v.early ≤ v.late) : (c.serve v).warp = c.warp + max (c.time - v.late) 0 := by
  unfold serve keepTo
  split
  · simp only [pass_warp]
    omega
  · split <;> simp only [pass_warp] <;> omega

end Clock

/-- The clock after the given visits and the travel between them. -/
def simulate (m : Matrix) : List Visit → Clock → Clock
  | [], c => c
  | [v], c => c.serve v
  | v :: w :: vs, c => simulate m (w :: vs) ((c.serve v).pass (m.way v.location w.location))

/-- The services, the travel between the visits, and all the openings of their windows. -/
def amount (m : Matrix) : List Visit → Int
  | [] => 0
  | [v] => v.early + v.service
  | v :: w :: vs => v.early + v.service + m.way v.location w.location + amount m (w :: vs)

variable {vs ws : List Visit}

@[simp] theorem origin_simulate (vs : List Visit) (c : Clock) : (simulate m vs c).origin = c.origin := by
  fun_induction simulate m vs c with
  | case1 => rfl
  | case2 => exact Clock.origin_serve
  | case3 v w vs c ih => rw [ih, Clock.origin_pass, Clock.origin_serve]

theorem simulate_append (hvs : vs ≠ []) (hws : ws ≠ []) (c : Clock) :
    simulate m (vs ++ ws) c =
      simulate m ws ((simulate m vs c).pass (m.way (vs.getLast hvs).location (ws.head hws).location)) := by
  fun_induction simulate m vs c with
  | case1 => exact absurd rfl hvs
  | case2 v c =>
    cases ws with
    | nil => exact absurd rfl hws
    | cons w ws => rfl
  | case3 v w vs c ih => exact ih (List.cons_ne_nil w vs)

theorem amount_append (hvs : vs ≠ []) (hws : ws ≠ []) :
    amount m (vs ++ ws) = amount m vs + m.way (vs.getLast hvs).location (ws.head hws).location + amount m ws := by
  fun_induction amount m vs with
  | case1 => exact absurd rfl hvs
  | case2 v =>
    cases ws with
    | nil => exact absurd rfl hws
    | cons w ws => rfl
  | case3 v w vs ih =>
    have := ih (List.cons_ne_nil w vs)
    simp only [List.cons_append, amount, List.getLast_cons_cons] at this ⊢
    omega

theorem amount_nonneg (hm : m.hasNegative = false) (hvs : ∀ v ∈ vs, v.Regular m) : 0 ≤ amount m vs := by
  fun_induction amount m vs with
  | case1 => exact le_rfl
  | case2 v =>
    have hv := hvs v List.mem_cons_self
    exact add_nonneg hv.early hv.service
  | case3 v w vs ih =>
    have hv := hvs v List.mem_cons_self
    have hrest := ih fun x hx => hvs x (List.mem_cons_of_mem v hx)
    exact add_nonneg (add_nonneg (add_nonneg hv.early hv.service) (m.way_nonneg hm _ _)) hrest

/-! ### What a stretch says of its visits -/

/-- The stretch tells where the visits begin and end, and the time that passes and the time warp for every start. -/
structure Describes (m : Matrix) (vs : List Visit) (s : Stretch) : Prop where
  first : vs.head?.map Visit.location = some s.first
  last : vs.getLast?.map Visit.location = some s.last
  elapsed : ∀ c, (simulate m vs c).elapsed = c.elapsed + (s.duration + max (s.early - c.time) 0)
  warp : ∀ c, (simulate m vs c).warp = c.warp + (s.timeWarp + max (c.time - s.late) 0)

theorem Describes.time (h : Describes m vs s) (c : Clock) :
    (simulate m vs c).time =
      c.time + (s.duration + max (s.early - c.time) 0) - (s.timeWarp + max (c.time - s.late) 0) := by
  have horigin := origin_simulate (m := m) vs c
  rw [Clock.origin, Clock.origin, h.elapsed, h.warp] at horigin
  omega

theorem Describes.ne_nil (h : Describes m vs s) : vs ≠ [] := by
  rintro rfl
  cases h.first

theorem Describes.first_eq (h : Describes m vs s) (hvs : vs ≠ []) : s.first = (vs.head hvs).location := by
  have := h.first
  rw [List.head?_eq_some_head hvs] at this
  exact (Option.some.inj this).symm

theorem Describes.last_eq (h : Describes m vs s) (hvs : vs ≠ []) : s.last = (vs.getLast hvs).location := by
  have := h.last
  rw [List.getLast?_eq_some_getLast hvs] at this
  exact (Option.some.inj this).symm

theorem Visit.describes {v : Visit} (hv : v.Regular m) : Describes m [v] v.stretch where
  first := rfl
  last := rfl
  elapsed _ := Clock.serve_elapsed
  warp c := by
    have := Clock.serve_warp (c := c) hv.window
    simp only [simulate, Visit.stretch, Stretch.visit]
    omega

theorem Visit.moderate {v : Visit} (hv : v.Regular m) : Moderate (amount m [v]) v.stretch where
  duration := hv.service
  timeWarp := le_rfl
  early := hv.early
  window := hv.window
  late := hv.late
  warped := add_nonneg hv.early hv.service
  bound := le_rfl

/-- The simulation of the second visits starts when that of the first ones and the travel are over. -/
theorem Describes.join (hs : Describes m vs s) (ht : Describes m ws t) (hwindow : s.early ≤ s.late) :
    Describes m (vs ++ ws) (exactJoin (m.way s.last t.first) s t) := by
  have hvs := hs.ne_nil
  have hws := ht.ne_nil
  have happend := simulate_append (m := m) hvs hws
  rw [← hs.last_eq hvs, ← ht.first_eq hws] at happend
  constructor
  · rw [List.head?_append_of_ne_nil _ hvs]
    exact hs.first
  · rw [List.getLast?_append_of_ne_nil _ hws]
    exact ht.last
  · intro c
    rw [happend, ht.elapsed, Clock.pass_elapsed, Clock.pass_time, hs.elapsed, hs.time]
    simp only [exactJoin]
    omega
  · intro c
    rw [happend, ht.warp, Clock.pass_warp, Clock.pass_time, hs.warp, hs.time]
    simp only [exactJoin]
    omega

/-- Starting at the later of the two openings gives the durations, at the earlier of them the openings; likewise for the
    closings. -/
theorem Describes.unique (hs : Describes m vs s) (hs' : Describes m vs s') : s = s' := by
  have helapsed : ∀ x, s.duration + max (s.early - x) 0 = s'.duration + max (s'.early - x) 0 := fun x => by
    have := (hs.elapsed (.startingAt x)).symm.trans (hs'.elapsed (.startingAt x))
    simpa [Clock.startingAt] using this
  have hwarp : ∀ x, s.timeWarp + max (x - s.late) 0 = s'.timeWarp + max (x - s'.late) 0 := fun x => by
    have := (hs.warp (.startingAt x)).symm.trans (hs'.warp (.startingAt x))
    simpa [Clock.startingAt] using this
  have hduration : s.duration = s'.duration := by
    have := helapsed (max s.early s'.early)
    omega
  have hearly : s.early = s'.early := by
    have := helapsed (min s.early s'.early)
    omega
  have htimeWarp : s.timeWarp = s'.timeWarp := by
    have := hwarp (min s.late s'.late)
    omega
  have hlate : s.late = s'.late := by
    have := hwarp (max s.late s'.late)
    omega
  have hfirst : s.first = s'.first := Option.some.inj (hs.first.symm.trans hs'.first)
  have hlast : s.last = s'.last := Option.some.inj (hs.last.symm.trans hs'.last)
  cases s
  cases s'
  simp_all

/-! ### Every way of joining -/

/-- A way of joining the stretches of single visits, two neighbours at a time. -/
inductive Bracketing where
  | single (v : Visit)
  | joined (left right : Bracketing)

namespace Bracketing

def visits : Bracketing → List Visit
  | single v => [v]
  | joined left right => left.visits ++ right.visits

def stretch (m : Matrix) : Bracketing → Except Fault Stretch
  | single v => .ok v.stretch
  | joined left right => do
    let s ← left.stretch m
    let t ← right.stretch m
    Stretch.join m s t

/-- Visit by visit, as the totals of a tour are computed. -/
def leftwards (v : Visit) (vs : List Visit) : Bracketing := vs.foldl (fun b w => b.joined (single w)) (single v)

theorem visits_leftwards (v : Visit) (vs : List Visit) : (leftwards v vs).visits = v :: vs := by
  have hfold : ∀ (vs : List Visit) (b : Bracketing),
      (vs.foldl (fun b w => b.joined (single w)) b).visits = b.visits ++ vs := by
    intro vs
    induction vs with
    | nil => intro b; exact (List.append_nil _).symm
    | cons w vs ih => intro b; rw [List.foldl_cons, ih]; simp [visits]
  exact hfold vs (single v)

theorem visits_ne_nil (b : Bracketing) : b.visits ≠ [] := by
  induction b with
  | single v => exact List.cons_ne_nil v []
  | joined left right hleft _ => exact fun h => hleft (List.append_eq_nil_iff.mp h).1

theorem stretch_run (hm : m.hasNegative = false) (b : Bracketing) (hvisits : ∀ v ∈ b.visits, v.Regular m)
    (hamount : amount m b.visits ≤ 2 ^ 61) :
    ∃ s, b.stretch m = .ok s ∧ Moderate (amount m b.visits) s ∧ Describes m b.visits s := by
  induction b with
  | single v =>
    have hv := hvisits v List.mem_cons_self
    exact ⟨v.stretch, rfl, Visit.moderate hv, Visit.describes hv⟩
  | joined left right hleft hright =>
    -- The amounts of the two sides and the travel between them add up, so neither side exceeds the bound of the whole.
    have hl : ∀ v ∈ left.visits, v.Regular m := fun v hv => hvisits v (List.mem_append_left _ hv)
    have hr : ∀ v ∈ right.visits, v.Regular m := fun v hv => hvisits v (List.mem_append_right _ hv)
    have hsum := amount_append (m := m) left.visits_ne_nil right.visits_ne_nil
    simp only [visits] at hamount hsum ⊢
    have hlpos := amount_nonneg hm hl
    have hrpos := amount_nonneg hm hr
    have hway := m.way_nonneg hm (left.visits.getLast left.visits_ne_nil).location
      (right.visits.head right.visits_ne_nil).location
    obtain ⟨s, hs, hsm, hsd⟩ := hleft hl (by omega)
    obtain ⟨t, ht, htm, htd⟩ := hright hr (by omega)
    rw [← hsd.last_eq, ← htd.first_eq] at hsum hway
    have hlast : s.last < m.size := hsd.last_eq left.visits_ne_nil ▸ (hl _ (List.getLast_mem _)).location
    have hfirst : t.first < m.size := htd.first_eq right.visits_ne_nil ▸ (hr _ (List.head_mem _)).location
    refine ⟨exactJoin (m.way s.last t.first) s t, ?_, hsum ▸ hsm.exactJoin htm hway, hsd.join htd hsm.window⟩
    simp only [stretch, hs, ht, ok_bind]
    exact join_run hsm htm hway (by omega) hlast hfirst

end Bracketing

/-- However the stretches of single visits are joined, the result is the one stretch that tells the outcome of the
    simulation for every start. -/
theorem joins_simulate (hm : m.hasNegative = false) (hne : vs ≠ []) (hvisits : ∀ v ∈ vs, v.Regular m)
    (hamount : amount m vs ≤ 2 ^ 61) :
    ∃ s : Stretch,
      (∀ b : Bracketing, b.visits = vs → b.stretch m = .ok s) ∧
      (0 ≤ s.early ∧ s.early ≤ s.late) ∧
      (s.first = (vs.head hne).location ∧ s.last = (vs.getLast hne).location) ∧
      (∀ t, (simulate m vs (.startingAt t)).elapsed = s.duration + max (s.early - t) 0 ∧
        (simulate m vs (.startingAt t)).warp = s.timeWarp + max (t - s.late) 0) ∧
      ∀ a b c : Bracketing, a.visits ++ b.visits ++ c.visits = vs →
        ∃ x y z, a.stretch m = .ok x ∧ b.stretch m = .ok y ∧ c.stretch m = .ok z ∧
          (do join m (← join m x y) z) = .ok s ∧ (do join m x (← join m y z)) = .ok s := by
  obtain ⟨v, vs, rfl⟩ := List.exists_cons_of_ne_nil hne
  have hrun : ∀ b : Bracketing, b.visits = v :: vs →
      ∃ s, b.stretch m = .ok s ∧ Moderate (amount m (v :: vs)) s ∧ Describes m (v :: vs) s := by
    intro b hb
    rw [← hb] at hvisits hamount ⊢
    exact b.stretch_run hm hvisits hamount
  obtain ⟨s, -, hmod, hdesc⟩ := hrun _ (Bracketing.visits_leftwards v vs)
  have hsame : ∀ b : Bracketing, b.visits = v :: vs → b.stretch m = .ok s := by
    intro b hb
    obtain ⟨s', hs', -, hdesc'⟩ := hrun b hb
    rw [hs', hdesc'.unique hdesc]
  refine ⟨s, hsame, ⟨hmod.early, hmod.window⟩, ⟨hdesc.first_eq hne, hdesc.last_eq hne⟩, fun t => ?_, ?_⟩
  · have helapsed := hdesc.elapsed (.startingAt t)
    have hwarp := hdesc.warp (.startingAt t)
    simp only [Clock.startingAt, zero_add] at helapsed hwarp ⊢
    exact ⟨helapsed, hwarp⟩
  · intro a b c habc
    have hleft := hsame ((a.joined b).joined c) habc
    have hright := hsame (a.joined (b.joined c)) ((List.append_assoc _ _ _).symm.trans habc)
    simp only [Bracketing.stretch] at hleft hright
    obtain ⟨x, hx, hright⟩ := bind_eq_ok hright
    obtain ⟨yz, hyz, hright⟩ := bind_eq_ok hright
    obtain ⟨y, hy, hyz⟩ := bind_eq_ok hyz
    obtain ⟨z, hz, hyz⟩ := bind_eq_ok hyz
    rw [hx, hy] at hleft
    simp only [ok_bind, hz] at hleft
    refine ⟨x, y, z, hx, hy, hz, hleft, ?_⟩
    rw [hyz]
    exact hright

namespace Sample

def travel : Matrix := ⟨#[#[0, 3, 4], #[2, 0, 5], #[1, 6, 0]], by decide⟩

/-- The second visit makes its vehicle wait, the third one puts it back, and the last one never closes. -/
def visits : List Visit := [⟨0, 1, 2, 10⟩, ⟨1, 2, 20, 30⟩, ⟨2, 3, 1, 12⟩, ⟨0, 7, 0, greatest⟩]

end Sample

theorem joins_simulate_in_sample :
    (Sample.travel.hasNegative = false ∧ Sample.visits ≠ [] ∧
      (∀ v ∈ Sample.visits, v.Regular Sample.travel) ∧ amount Sample.travel Sample.visits ≤ 2 ^ 61) ∧
    ∀ b : Bracketing, b.visits = Sample.visits → b.stretch Sample.travel = .ok ⟨28, 15, 10, 10, 0, 0⟩ := by
  have hm : Sample.travel.hasNegative = false := by decide +kernel
  have hne : Sample.visits ≠ [] := List.cons_ne_nil _ _
  have hvisits : ∀ v ∈ Sample.visits, v.Regular Sample.travel := by
    intro v hv
    simp only [Sample.visits, List.mem_cons, List.not_mem_nil, or_false] at hv
    rcases hv with rfl | rfl | rfl | rfl <;> constructor <;> decide
  have hamount : amount Sample.travel Sample.visits ≤ 2 ^ 61 := by decide +kernel
  obtain ⟨s, hall, -⟩ := joins_simulate hm hne hvisits hamount
  have hs : (Bracketing.leftwards ⟨0, 1, 2, 10⟩ Sample.visits.tail).stretch Sample.travel =
      .ok ⟨28, 15, 10, 10, 0, 0⟩ := rfl
  have hs' := (hall _ (Bracketing.visits_leftwards ⟨0, 1, 2, 10⟩ Sample.visits.tail)).symm.trans hs
  exact ⟨⟨hm, hne, hvisits, hamount⟩, fun b hb => (hall b hb).trans hs'⟩

end Stretch
end Fleet
