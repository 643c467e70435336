import Fleet.Proofs.Neighbourhood.Nearest
import Fleet.Proofs.Neighbourhood.Passes

/-! Each score depends on its two locations alone.

    The passes over the table follow one another, and only the last of those that matter for a pair shows in its score
    (`PairScore`). That score never falls far, so minus zero and what is no number do not come up, and of several scores
    there is always one that is the lowest. Hence the table does not depend on anything that the scores of its pairs do
    not depend on. -/

namespace Fleet

namespace Neighbourhood

open Scores Score Double

variable {p q : Problem} {params : NeighbourhoodParameters} {s : Scores} {i j k n : Nat} {x y : Float}

/-! ### The score of a way -/

/-- The score of the way from `i` to `j`: what the cheapest vehicle charges for it, and its waiting and its time warp if
    it takes as long as in the fastest profile, less the prize. -/
def WayScore (p : Problem) (params : NeighbourhoodParameters) (i j : Nat) (x : Float) : Prop :=
  ∃ charge duration start target, IsLeast {c | ∃ v ∈ p.vehicleTypes, Charges p (ratesOf v) i j c} charge ∧
    IsLeast {d | ∃ profile, Takes p profile i j d} duration ∧ p.window i = .ok start ∧ p.window j = .ok target ∧
    x = charge +
      (params.waitWeight * atLeastZero (ofQuantity target.early.toInt - duration - ofQuantity (p.serviceDuration i) -
          ofQuantity start.late.toInt) +
        params.warpWeight * atLeastZero (ofQuantity start.early.toInt + ofQuantity (p.serviceDuration i) + duration -
          ofQuantity target.late.toInt) -
        ofQuantity (p.prize j))

/-- Neither weight is below zero, and both are finite. -/
structure Weighted (params : NeighbourhoodParameters) : Prop where
  wait : Nonneg (reading params.waitWeight) ∧ (reading params.waitWeight).isFinite
  warp : Nonneg (reading params.warpWeight) ∧ (reading params.warpWeight).isFinite

theorem weighted_of_validate (hvalid : params.validate = .ok ()) (hwait : params.waitWeight.isFinite = true)
    (hwarp : params.warpWeight.isFinite = true) : Weighted params := by
  unfold NeighbourhoodParameters.validate at hvalid
  split at hvalid
  · cases hvalid
  · rename_i hweights
    rw [not_or, not_not, not_not] at hweights
    exact ⟨⟨nonneg_of_le hweights.1, hwait⟩, nonneg_of_le hweights.2, hwarp⟩

theorem plain_charges : ∀ c ∈ {c | ∃ v ∈ p.vehicleTypes, Charges p (ratesOf v) i j c}, Plain (reading c) :=
  fun _ ⟨v, hv, hc⟩ => plain_of_signed (hc.signed (mem_rates.mpr ⟨v, hv, rfl⟩))

theorem plain_durations : ∀ d ∈ {d | ∃ profile, Takes p profile i j d}, Plain (reading d) :=
  fun _ ⟨_, hd⟩ => plain_of_signed hd.signed

theorem WayScore.unique (h : WayScore p params i j x) (h' : WayScore p params i j y) : x = y := by
  obtain ⟨charge, duration, start, target, hcharge, hduration, hstart, htarget, rfl⟩ := h
  obtain ⟨_, _, _, _, hcharge', hduration', hstart', htarget', rfl⟩ := h'
  obtain rfl := isLeast_unique plain_charges hcharge hcharge'
  obtain rfl := isLeast_unique plain_durations hduration hduration'
  obtain rfl := Except.ok.inj (hstart.symm.trans hstart')
  obtain rfl := Except.ok.inj (htarget.symm.trans htarget')
  rfl

theorem small_wait {a b c d : Float} (ha : Small 12 (reading a)) (hb : Small 12 (reading b)) (hc : Small 12 (reading c))
    (hd : Small 12 (reading d)) : Small 18 (reading (a - b - c - d)) := by
  have hab : Small 14 (reading (a - b)) := small_sub ha hb (by norm_num)
  have habc : Small 16 (reading (a - b - c)) := small_sub hab (hc.mono (by norm_num)) (by norm_num)
  exact small_sub habc (hd.mono (by norm_num)) (by norm_num)

theorem small_warp {a b c d : Float} (ha : Small 12 (reading a)) (hb : Small 12 (reading b)) (hc : Small 12 (reading c))
    (hd : Small 12 (reading d)) : Small 18 (reading (a + b + c - d)) := by
  have hab : Small 14 (reading (a + b)) := small_add ha hb (by norm_num)
  have habc : Small 16 (reading (a + b + c)) := small_add hab (hc.mono (by norm_num)) (by norm_num)
  exact small_sub habc (hd.mono (by norm_num)) (by norm_num)

/-- No score of a way falls far, and none is minus zero. -/
theorem WayScore.bounded (hw : Weighted params) (h : WayScore p params i j x) :
    SmallOn .negative 18 (reading x) ∧ Plain (reading x) := by
  obtain ⟨charge, duration, start, target, ⟨⟨v, hv, hcharge⟩, -⟩, ⟨⟨_, hduration⟩, -⟩, -, -, rfl⟩ := h
  have hcharge := hcharge.signed (mem_rates.mpr ⟨v, hv, rfl⟩)
  obtain ⟨hwait, hwaitSmall⟩ := nonneg_atLeastZero (small_wait (small_ofQuantity target.early.toInt) hduration.small
    (small_ofQuantity (p.serviceDuration i)) (small_ofQuantity start.late.toInt))
  obtain ⟨hwarp, hwarpSmall⟩ := nonneg_atLeastZero (small_warp (small_ofQuantity start.early.toInt)
    (small_ofQuantity (p.serviceDuration i)) hduration.small (small_ofQuantity target.late.toInt))
  -- The weighted times may become infinite, but they have no minus, so only the prize takes anything off.
  have hweighted := nonneg_mul hw.wait.1 hwait hw.wait.2 (isFinite_of_small hwaitSmall)
  have hweighted' := nonneg_mul hw.warp.1 hwarp hw.warp.2 (isFinite_of_small hwarpSmall)
  have htimes := smallOn_add (hweighted.smallOn 12) (hweighted'.smallOn 12) (by norm_num)
  have hprize : Small 14 (reading (ofQuantity (p.prize j))) := (small_ofQuantity (p.prize j)).mono (by norm_num)
  have hrest := smallOn_sub htimes hprize (by norm_num)
  have hscore := smallOn_add (Nonneg.smallOn (Or.inr hcharge) 16) hrest (by norm_num)
  exact ⟨hscore, hscore.1, reading_add_ne hcharge _⟩

theorem addTimes_each {shortest charges : Scores}
    (hshortest : shortest.Each p.numLocations fun i j => IsLeast {d | ∃ profile, Takes p profile i j d})
    (hcharges : charges.Each p.numLocations fun i j => IsLeast {c | ∃ r ∈ rates p, Charges p r i j c}) :
    Succeeds (Each p.numLocations (WayScore p params)) (addTimes p params shortest charges) := by
  refine tabulate_each fun i j hi hj => ?_
  obtain ⟨duration, hduration, hdurationLeast⟩ := hshortest.entry hi hj
  obtain ⟨charge, hcharge, hchargeLeast⟩ := hcharges.entry hi hj
  obtain ⟨start, hstart⟩ := Problem.window_run hi
  obtain ⟨target, htarget⟩ := Problem.window_run hj
  refine ⟨_, ?_, charge, duration, start, target, ?_, hdurationLeast, hstart, htarget, rfl⟩
  · unfold leastWait leastWarp
    rw [hduration, hcharge, hstart, htarget]
    rfl
  · simpa only [mem_rates, exists_exists_and_eq_and] using hchargeLeast

theorem symmetrize_each (hw : Weighted params) (hs : s.Each p.numLocations (WayScore p params)) :
    Succeeds (Each p.numLocations fun i j => IsLeast {y | WayScore p params i j y ∨ WayScore p params j i y})
      (symmetrize p s) := by
  -- From the lower number to the higher one and back, whichever of them is `i`.
  have hpair : ∀ i j x y, WayScore p params i j x → WayScore p params j i y →
      {z | WayScore p params i j z ∨ WayScore p params j i z} = {x, y} := fun i j x y hx hy => by
    ext z
    constructor
    · rintro (hz | hz)
      · exact Or.inl (hz.unique hx)
      · exact Or.inr (hz.unique hy)
    · rintro (rfl | rfl)
      · exact Or.inl hx
      · exact Or.inr hy
  refine tabulate_each fun i j hi hj => ?_
  obtain ⟨forth, hforth, hforthScore⟩ := hs.entry (min_lt_of_left_lt hi) (max_lt hi hj)
  obtain ⟨back, hback, hbackScore⟩ := hs.entry (max_lt hi hj) (min_lt_of_left_lt hi)
  have hplain := (hforthScore.bounded hw).2
  refine ⟨minimum forth back, by rw [hforth, hback]; rfl, ?_⟩
  have hleast := isLeast_minimum (by rintro _ rfl; exact hplain) (hbackScore.bounded hw).2 (isLeast_singleton hplain)
  rcases le_total i j with hij | hij
  · rw [min_eq_left hij, max_eq_right hij] at hforthScore hbackScore
    rwa [hpair i j forth back hforthScore hbackScore, Set.pair_comm]
  · rw [min_eq_right hij, max_eq_left hij] at hforthScore hbackScore
    rwa [hpair i j back forth hbackScore hforthScore]

/-! ### The table -/

/-- The pair never counts. -/
def Dropped (p : Problem) (i j : Nat) : Prop := i = j ∨ p.isDepot i = true ∨ p.isDepot j = true

theorem Dropped.symm (h : Dropped p i j) : Dropped p j i := h.imp Eq.symm Or.symm

theorem not_dropped (hi : p.isClient i = true) (hj : p.isClient j = true) (hne : j ≠ i) : ¬ Dropped p i j := by
  rintro (rfl | hdepot | hdepot)
  · exact hne rfl
  · exact not_isClient hdepot hi
  · exact not_isClient hdepot hj

theorem excludes_symm (h : p.Excludes i j) : p.Excludes j i := by
  obtain ⟨group, hgroup, hexclusive, hi, hj⟩ := h
  exact ⟨group, hgroup, hexclusive, hj, hi⟩

/-- The score of the pair `i`, `j`. -/
inductive PairScore (p : Problem) (params : NeighbourhoodParameters) (i j : Nat) : Float → Prop
  | never : Dropped p i j → PairScore p params i j Score.never
  | exclusive : ¬ Dropped p i j → p.Excludes i j → PairScore p params i j Score.exclusive
  | oneWay {x : Float} : ¬ Dropped p i j → ¬ p.Excludes i j → params.symmetricProximity = false →
      WayScore p params i j x → PairScore p params i j x
  | bothWays {x : Float} : ¬ Dropped p i j → ¬ p.Excludes i j → params.symmetricProximity = true →
      IsLeast {y | WayScore p params i j y ∨ WayScore p params j i y} x → PairScore p params i j x

theorem scores_each (p : Problem) (hw : Weighted params) :
    Succeeds (Each p.numLocations (PairScore p params)) (scores p params) := by
  refine (charges_each p).bind fun charges hcharges => ?_
  refine (shortestDurations_each p).bind fun shortest hshortest => ?_
  refine (addTimes_each hshortest hcharges).bind fun s hs => ?_
  -- Whatever the scores are, the groups are marked, and what never counts is taken out.
  have hrest : ∀ {post : Nat → Nat → Float → Prop} {s : Scores}, s.Each p.numLocations post →
      (∀ i j x, ¬ Dropped p i j → ¬ p.Excludes i j → post i j x → PairScore p params i j x) →
      Succeeds (Each p.numLocations (PairScore p params)) (markGroups p s >>= dropSelfAndDepots p) := by
    intro post s hs hpost
    refine (marks_markGroups p _ post s hs.over).bind fun s hs => tabulate_each fun i j hi hj => ?_
    split
    · rename_i hdrop
      exact ⟨never, rfl, .never hdrop⟩
    · rename_i hkeep
      obtain ⟨x, hx, ⟨hmarked, rfl⟩ | ⟨hfree, hx'⟩⟩ := hs.entry hi hj
      · exact ⟨_, hx, .exclusive hkeep (hmarked.resolve_left not_false)⟩
      · exact ⟨x, hx, hpost i j x hkeep (fun h => hfree (Or.inr h)) hx'⟩
  cases hsymmetric : params.symmetricProximity with
  | false =>
    rw [if_neg Bool.false_ne_true]
    exact hrest hs fun i j x hkeep hfree hx => .oneWay hkeep hfree hsymmetric hx
  | true =>
    rw [if_pos rfl]
    exact (symmetrize_each hw hs).bind fun s hs =>
      hrest hs fun i j x hkeep hfree hx => .bothWays hkeep hfree hsymmetric hx

theorem PairScore.unique (hw : Weighted params) (h : PairScore p params i j x) (h' : PairScore p params i j y) :
    x = y := by
  cases h with
  | never hdrop =>
    cases h' with
    | never => rfl
    | exclusive hkeep | oneWay hkeep | bothWays hkeep => exact absurd hdrop hkeep
  | exclusive hkeep hmarked =>
    cases h' with
    | never hdrop => exact absurd hdrop hkeep
    | exclusive => rfl
    | oneWay _ hfree | bothWays _ hfree => exact absurd hmarked hfree
  | oneWay hkeep hfree hsymmetric hx =>
    cases h' with
    | never hdrop => exact absurd hdrop hkeep
    | exclusive _ hmarked => exact absurd hmarked hfree
    | oneWay _ _ _ hy => exact hx.unique hy
    | bothWays _ _ hsymmetric' => exact absurd (hsymmetric.symm.trans hsymmetric') Bool.false_ne_true
  | bothWays hkeep hfree hsymmetric hx =>
    cases h' with
    | never hdrop => exact absurd hdrop hkeep
    | exclusive _ hmarked => exact absurd hmarked hfree
    | oneWay _ _ hsymmetric' => exact absurd (hsymmetric'.symm.trans hsymmetric) Bool.false_ne_true
    | bothWays _ _ _ hy =>
      exact isLeast_unique (fun _ h => h.elim (fun h => (h.bounded hw).2) fun h => (h.bounded hw).2) hx hy

theorem PairScore.symm (hsymmetric : params.symmetricProximity = true) (h : PairScore p params i j x) :
    PairScore p params j i x := by
  cases h with
  | never hdrop => exact .never hdrop.symm
  | exclusive hkeep hmarked => exact .exclusive (mt Dropped.symm hkeep) (excludes_symm hmarked)
  | oneWay _ _ hsymmetric' => exact absurd (hsymmetric'.symm.trans hsymmetric) Bool.false_ne_true
  | bothWays hkeep hfree hsymmetric hx =>
    refine .bothWays (mt Dropped.symm hkeep) (mt excludes_symm hfree) hsymmetric ?_
    simpa only [or_comm] using hx

/-! ### Problems with the same ways -/

/-- The client without its group. -/
def ungrouped (c : Client) : Client := { c with group := none }

/-- The problems differ at most in their groups, in which clients name them, and in how often and in which order they
    list the vehicle types. -/
structure SameWays (p q : Problem) : Prop where
  depots : q.depots = p.depots
  clients : q.clients.map ungrouped = p.clients.map ungrouped
  vehicleTypes : ∀ v, v ∈ q.vehicleTypes ↔ v ∈ p.vehicleTypes
  distances : q.distances = p.distances
  durations : q.durations = p.durations

theorem SameWays.numDepots (h : SameWays p q) : q.numDepots = p.numDepots := congrArg Array.size h.depots

theorem SameWays.numLocations (h : SameWays p q) : q.numLocations = p.numLocations := by
  have hclients := congrArg Array.size h.clients
  rw [Array.size_map, Array.size_map] at hclients
  unfold Problem.Parts.numLocations
  rw [h.depots, hclients]

theorem SameWays.isDepot (h : SameWays p q) (l : Nat) : q.isDepot l = p.isDepot l := by
  unfold Problem.isDepot
  rw [h.numDepots]

theorem SameWays.client? (h : SameWays p q) (l : Nat) : q.client? l = none ∧ p.client? l = none ∨
    ∃ c c', q.client? l = some c ∧ p.client? l = some c' ∧ ungrouped c = ungrouped c' := by
  have hclient := congrArg (·[l - p.numDepots]?) h.clients
  simp only [Array.getElem?_map] at hclient
  unfold Problem.client?
  rw [h.numDepots]
  split
  · exact Or.inl ⟨rfl, rfl⟩
  · cases hp : p.clients[l - p.numDepots]? with
    | none =>
      rw [hp] at hclient
      exact Or.inl ⟨Option.map_eq_none_iff.mp hclient, rfl⟩
    | some c' =>
      rw [hp] at hclient
      obtain ⟨c, hc, heq⟩ := Option.map_eq_some_iff.mp hclient
      exact Or.inr ⟨c, c', hc, rfl, heq⟩

theorem SameWays.window (h : SameWays p q) (l : Nat) : q.window l = p.window l := by
  unfold Problem.window Problem.window?
  rcases h.client? l with ⟨hq, hp⟩ | ⟨c, c', hq, hp, heq⟩
  · rw [hq, hp, h.depots]
  · rw [hq, hp]
    exact congrArg (fun c => Except.ok c.window) heq

theorem SameWays.serviceDuration (h : SameWays p q) (l : Nat) : q.serviceDuration l = p.serviceDuration l := by
  unfold Problem.serviceDuration
  rcases h.client? l with ⟨hq, hp⟩ | ⟨c, c', hq, hp, heq⟩
  · rw [hq, hp]
  · rw [hq, hp]
    exact congrArg (fun c => c.serviceDuration.toInt) heq

theorem SameWays.prize (h : SameWays p q) (l : Nat) : q.prize l = p.prize l := by
  unfold Problem.prize
  rcases h.client? l with ⟨hq, hp⟩ | ⟨c, c', hq, hp, heq⟩
  · rw [hq, hp]
  · rw [hq, hp]
    exact congrArg (fun c => c.prize.toInt) heq

theorem SameWays.wayScore (h : SameWays p q) : WayScore q params i j x ↔ WayScore p params i j x := by
  have hdistance : q.distanceMatrix = p.distanceMatrix := funext fun profile => by
    unfold Problem.distanceMatrix
    rw [h.distances]
  have hduration : q.durationMatrix = p.durationMatrix := funext fun profile => by
    unfold Problem.durationMatrix
    rw [h.durations]
  have hcharges : Charges q = Charges p := by
    unfold Charges
    rw [hdistance, hduration]
  have htakes : Takes q = Takes p := by
    unfold Takes
    rw [hduration]
  unfold WayScore
  simp only [hcharges, htakes, h.vehicleTypes, h.window, h.serviceDuration, h.prize]

theorem SameWays.symm (h : SameWays p q) : SameWays q p where
  depots := h.depots.symm
  clients := h.clients.symm
  vehicleTypes v := (h.vehicleTypes v).symm
  distances := h.distances.symm
  durations := h.durations.symm

theorem SameWays.pairScore (h : SameWays p q) (hexcludes : p.Excludes i j ↔ q.Excludes i j)
    (hx : PairScore p params i j x) : PairScore q params i j x := by
  have hdrop : Dropped p i j ↔ Dropped q i j := by
    unfold Dropped
    rw [h.isDepot, h.isDepot]
  cases hx with
  | never hd => exact .never (hdrop.mp hd)
  | exclusive hkeep hmarked => exact .exclusive (mt hdrop.mpr hkeep) (hexcludes.mp hmarked)
  | oneWay hkeep hfree hsymmetric hx =>
    exact .oneWay (mt hdrop.mpr hkeep) (mt hexcludes.mpr hfree) hsymmetric (h.wayScore.mpr hx)
  | bothWays hkeep hfree hsymmetric hx =>
    refine .bothWays (mt hdrop.mpr hkeep) (mt hexcludes.mpr hfree) hsymmetric ?_
    simpa only [h.wayScore] using hx

/-- Square tables with the same entries are the same. -/
theorem eq_of_entry {s s' : Scores} (h : s.Square n) (h' : s'.Square n)
    (hentry : ∀ i j, i < n → j < n → s.entry i j = s'.entry i j) : s = s' := by
  obtain ⟨rows⟩ := s
  obtain ⟨rows'⟩ := s'
  refine congrArg Scores.mk (Array.ext (h.rows.trans h'.rows.symm) fun i hi hi' => ?_)
  have hrow := Array.getElem?_eq_getElem hi
  have hrow' := Array.getElem?_eq_getElem hi'
  refine Array.ext ((h.columns hrow).trans (h'.columns hrow').symm) fun j hj hj' => ?_
  have hij := hentry i j (h.rows ▸ hi) (h.columns hrow ▸ hj)
  unfold Scores.entry at hij
  simp only [hrow, hrow', Array.getElem?_eq_getElem hj, Array.getElem?_eq_getElem hj'] at hij
  exact Except.ok.inj hij

/-- Every score is that of its pair of locations. So if both directions of a pair shall count as the nearer of the two,
    the table is symmetric; it does not matter in which order the vehicle types are, or how often one of them is there;
    and groups matter only for the pairs of clients that they exclude. -/
theorem scores_pointwise (hvalid : params.validate = .ok ()) (hwait : params.waitWeight.isFinite = true)
    (hwarp : params.warpWeight.isFinite = true) : ∃ s, scores p params = .ok s ∧ s.Square p.numLocations ∧
      (∀ i j, i < p.numLocations → j < p.numLocations → ∀ x, s.entry i j = .ok x ↔ PairScore p params i j x) ∧
      (params.symmetricProximity = true →
        ∀ i j, i < p.numLocations → j < p.numLocations → s.entry i j = s.entry j i) ∧
      (∀ q, SameWays p q → q.groups = p.groups → scores q params = .ok s) ∧
      ∀ q, SameWays p q → ∃ s', scores q params = .ok s' ∧ ∀ i j, i < p.numLocations → j < p.numLocations →
        ¬ p.Excludes i j → ¬ q.Excludes i j → s'.entry i j = s.entry i j := by
  have hw := weighted_of_validate hvalid hwait hwarp
  obtain ⟨s, hs, heach⟩ := scores_each p hw
  have hentry : ∀ i j, i < p.numLocations → j < p.numLocations →
      ∀ x, s.entry i j = .ok x ↔ PairScore p params i j x := fun i j hi hj x => by
    obtain ⟨y, hy, hpair⟩ := heach.entry hi hj
    refine ⟨fun hx => ?_, fun hx => ?_⟩
    · rwa [Except.ok.inj (hx.symm.trans hy)]
    · rwa [hx.unique hw hpair]
  -- A problem with the same ways has the same scores, where it excludes the same.
  have hsame : ∀ q, SameWays p q → ∃ s', scores q params = .ok s' ∧ s'.Square p.numLocations ∧
      ∀ i j, i < p.numLocations → j < p.numLocations → (q.Excludes i j ↔ p.Excludes i j) →
        s'.entry i j = s.entry i j := by
    intro q hq
    obtain ⟨s', hs', heach'⟩ := scores_each q hw
    rw [hq.numLocations] at heach'
    refine ⟨s', hs', heach'.square, fun i j hi hj hexcludes => ?_⟩
    obtain ⟨y, hy, hpair⟩ := heach'.entry hi hj
    rw [hy, (hentry i j hi hj y).mpr (hq.symm.pairScore hexcludes hpair)]
  refine ⟨s, hs, heach.square, hentry, fun hsymmetric i j hi hj => ?_, fun q hq hgroups => ?_, fun q hq => ?_⟩
  · obtain ⟨x, hx, hpair⟩ := heach.entry hi hj
    rw [hx, (hentry j i hj hi x).mpr (hpair.symm hsymmetric)]
  · obtain ⟨s', hs', hsquare, hentry'⟩ := hsame q hq
    have hexcludes : ∀ i j, q.Excludes i j ↔ p.Excludes i j := fun i j => by
      unfold Problem.Excludes
      rw [hgroups]
    rw [hs', eq_of_entry hsquare heach.square fun i j hi hj => hentry' i j hi hj (hexcludes i j)]
  · obtain ⟨s', hs', -, hentry'⟩ := hsame q hq
    exact ⟨s', hs', fun i j hi hj hfree hfree' => hentry' i j hi hj (iff_of_false hfree' hfree)⟩

/-- The sample with its vehicle type listed twice. -/
def Sample.doubled : Problem where
  toParts := { Sample.problem.toParts with vehicleTypes := #[{ capacity := 1 }, { capacity := 1 }] }
  flawless := by decide +kernel

/-- The way from the fourth client to the first brings less prize than the way back. -/
theorem scores_in_sample : Sample.twoEach.validate = .ok () ∧ Sample.twoEach.waitWeight.isFinite = true ∧
    Sample.twoEach.warpWeight.isFinite = true ∧ ∃ s, scores Sample.problem Sample.twoEach = .ok s ∧
      s.entry 1 3 = .ok exclusive ∧ s.entry 4 1 = s.entry 1 4 ∧ scores Sample.doubled Sample.twoEach = .ok s := by
  have hvalid : Sample.twoEach.validate = .ok () := by rfl
  have hwait : Sample.twoEach.waitWeight.isFinite = true := by decide +kernel
  have hwarp : Sample.twoEach.warpWeight.isFinite = true := by decide +kernel
  obtain ⟨s, hs, -, hentry, hsymmetric, hvehicles, -⟩ := scores_pointwise (p := Sample.problem) hvalid hwait hwarp
  have hexcludes : Sample.problem.Excludes 1 3 :=
    ⟨{ clients := [3, 1, 3] }, Array.mem_singleton.mpr rfl, rfl, ⟨1, by decide, rfl⟩, 3, by decide, rfl⟩
  have hsame : SameWays Sample.problem Sample.doubled :=
    ⟨rfl, rfl, fun v => by simp [Sample.doubled, Sample.problem], rfl, rfl⟩
  exact ⟨hvalid, hwait, hwarp, s, hs,
    (hentry 1 3 (by decide) (by decide) exclusive).mpr (.exclusive (not_dropped rfl rfl (by decide)) hexcludes),
    hsymmetric rfl 4 1 (by decide) (by decide), hvehicles Sample.doubled hsame rfl⟩

end Neighbourhood

end Fleet
