import Fleet.Proofs.Plan

/-! What the check of a plan answers.

    It goes through the entries of a plan in order: for each tour its vehicle type, then its visits. An entry is judged by
    those before it, whose order does not matter: how many of them have the same vehicle type, and whether one of them is
    a visit of the same location. The answer is the flaw of the first entry that is not possible, and there is none
    exactly if the plan is well-formed. Each place that is looked up in the tables is there. -/

namespace Fleet
namespace Plan

/-- What a plan says: that a tour has a vehicle type, or that it visits a location. Tours are numbered. -/
inductive Entry where
  | vehicle (route vehicleType : Nat)
  | visit (route location : Nat)
  deriving DecidableEq

namespace Entry

def type? : Entry → Option Nat
  | .vehicle _ k => some k
  | .visit _ _ => none

def location? : Entry → Option Nat
  | .vehicle _ _ => none
  | .visit _ x => some x

end Entry

/-- What a tour says, its vehicle type first. -/
def entriesOf (tour : Tour × Nat) : List Entry :=
  .vehicle tour.2 tour.1.vehicleType.toNat :: tour.1.visits.map fun x => .visit tour.2 x.toNat

def entries (plan : Plan) : List Entry := plan.routes.zipIdx.flatMap entriesOf

/-- What is wrong with an entry behind others: a vehicle type is not known or there are no more of it, a location is not
    that of a client or it is visited already. -/
inductive Violates (p : Problem) (before : List Entry) : Entry → Flaw → Prop
  | unknown {route k : Nat} (h : p.vehicleTypes.size ≤ k) :
      Violates p before (.vehicle route k) (.unknownVehicleType route k)
  | unavailable {route k : Nat} {v : VehicleType} (hv : p.vehicleTypes[k]? = some v)
      (h : v.numAvailable.toNat ≤ (before.filterMap Entry.type?).count k) :
      Violates p before (.vehicle route k) (.unavailable k v.numAvailable.toNat)
  | stranger {route x : Nat} (h : ¬(p.numDepots ≤ x ∧ x < p.numLocations)) :
      Violates p before (.visit route x) (.notClient route x)
  | again {route x : Nat} (hclient : p.numDepots ≤ x ∧ x < p.numLocations) (h : x ∈ before.filterMap Entry.location?) :
      Violates p before (.visit route x) (.visitedTwice x)

/-- Nothing is wrong with any of the entries. -/
def Faultless (p : Problem) (entries : List Entry) : Prop :=
  ∀ before entry behind flaw, entries = before ++ entry :: behind → ¬Violates p before entry flaw

/-- The first entry with which something is wrong has this flaw. -/
def FirstFlaw (p : Problem) (entries : List Entry) (flaw : Flaw) : Prop :=
  ∃ before entry behind, entries = before ++ entry :: behind ∧ Faultless p before ∧ Violates p before entry flaw

variable {p : Problem} {tally tally' : Tally p} {before entries : List Entry} {entry : Entry} {flaw flaw' : Flaw}

theorem Violates.unique (h : Violates p before entry flaw) (h' : Violates p before entry flaw') : flaw = flaw' := by
  cases h with
  | unknown hk =>
    cases h' with
    | unknown => rfl
    | unavailable hv => exact absurd (Array.getElem?_eq_some_iff.mp hv).1 (Nat.not_lt.mpr hk)
  | unavailable hv =>
    cases h' with
    | unknown hk => exact absurd (Array.getElem?_eq_some_iff.mp hv).1 (Nat.not_lt.mpr hk)
    | unavailable hv' =>
      cases hv.symm.trans hv'
      rfl
  | stranger hx =>
    cases h' with
    | stranger => rfl
    | again hclient => exact absurd hclient hx
  | again hclient =>
    cases h' with
    | stranger hx => exact absurd hclient hx
    | again => rfl

theorem Faultless.nil : Faultless p [] := fun before entry behind _ h => by simp at h

theorem Faultless.concat (h : Faultless p before) (hentry : ∀ flaw, ¬Violates p before entry flaw) :
    Faultless p (before ++ [entry]) := by
  intro before' entry' behind flaw heq
  rcases List.eq_nil_or_concat behind with rfl | ⟨behind, last, rfl⟩
  · obtain ⟨rfl, rfl⟩ := List.append_singleton_inj.mp heq
    exact hentry flaw
  · rw [List.concat_eq_append, ← List.cons_append, ← List.append_assoc] at heq
    exact h before' entry' behind flaw (List.append_singleton_inj.mp heq).1

/-! ### The check as one pass over the entries -/

/-- Looks at one entry. -/
def Tally.meet (p : Problem) (tally : Tally p) : Entry → Except Flaw (Tally p)
  | .vehicle route k => tally.use p route k
  | .visit route x => tally.visit p route x

theorem Tally.tour_eq (tour : Tour × Nat) (tally : Tally p) :
    tally.tour p tour = (entriesOf tour).foldlM (Tally.meet p) tally := by
  unfold Tally.tour entriesOf
  rw [List.foldlM_cons]
  simp only [List.foldlM_map]
  rfl

theorem foldlM_tour (tours : List (Tour × Nat)) (tally : Tally p) :
    tours.foldlM (Tally.tour p) tally = (tours.flatMap entriesOf).foldlM (Tally.meet p) tally := by
  induction tours generalizing tally with
  | nil => rfl
  | cons tour tours ih =>
    rw [List.foldlM_cons, List.flatMap_cons, List.foldlM_append, Tally.tour_eq]
    exact congrArg (_ >>= ·) (funext ih)

theorem check_eq (plan : Plan) (p : Problem) :
    plan.check p = (plan.entries.foldlM (Tally.meet p) (Tally.start p)).map fun _ => () := by
  unfold check entries
  rw [foldlM_tour]
  cases List.foldlM (Tally.meet p) (Tally.start p) (plan.routes.zipIdx.flatMap entriesOf) <;> rfl

/-! ### What the check has seen -/

/-- The tally is that of the entries. -/
def Tally.Has (tally : Tally p) (entries : List Entry) : Prop :=
  tally.Shows (entries.filterMap Entry.type?) (entries.filterMap Entry.location?)

/-- The answer for an entry behind others: the tally with the entry, or what is wrong with it. -/
inductive Judges (p : Problem) (before : List Entry) (entry : Entry) : Except Flaw (Tally p) → Prop
  | ok {tally : Tally p} (hentry : ∀ flaw, ¬Violates p before entry flaw) (h : tally.Has (before ++ [entry])) :
      Judges p before entry (.ok tally)
  | error {flaw : Flaw} (h : Violates p before entry flaw) : Judges p before entry (.error flaw)

theorem Tally.Has.use_judges (h : tally.Has before) (route k : Nat) :
    Judges p before (.vehicle route k) (tally.use p route k) := by
  unfold Tally.use
  split
  · rename_i hk
    have hv := Array.getElem?_eq_getElem hk
    simp only [h.used k hk]
    split
    · rename_i hmany
      exact .error (.unavailable hv (Nat.lt_succ_iff.mp hmany))
    · rename_i hmany
      refine .ok (fun flaw hflaw => ?_) ?_
      · cases hflaw with
        | unknown h => exact absurd hk (Nat.not_lt.mpr h)
        | unavailable hv' h =>
          cases hv.symm.trans hv'
          exact hmany (Nat.lt_succ_iff.mpr h)
      · simpa [Tally.Has, List.filterMap_append, List.filterMap_cons, Entry.type?, Entry.location?] using h.count hk
  · rename_i hk
    exact .error (.unknown (Nat.not_lt.mp hk))

theorem Tally.Has.visit_judges (h : tally.Has before) (route x : Nat) :
    Judges p before (.visit route x) (tally.visit p route x) := by
  unfold Tally.visit
  split
  · rename_i hclient
    have hrange := Problem.isClient_iff.mp hclient
    dsimp only
    split
    · rename_i hvisited
      exact .error (.again hrange ((h.visited x hrange.2).mp hvisited))
    · rename_i hvisited
      refine .ok (fun flaw hflaw => ?_) ?_
      · cases hflaw with
        | stranger hx => exact hx hrange
        | again _ hmem => exact hvisited ((h.visited x hrange.2).mpr hmem)
      · simpa [Tally.Has, List.filterMap_append, List.filterMap_cons, Entry.type?, Entry.location?] using h.mark hrange.2
  · rename_i hclient
    exact .error (.stranger fun hrange => hclient (Problem.isClient_iff.mpr hrange))

theorem Tally.Has.meet_judges (h : tally.Has before) : ∀ entry, Judges p before entry (tally.meet p entry)
  | .vehicle route k => h.use_judges route k
  | .visit route x => h.visit_judges route x

/-- The answer for more entries behind others: the tally of all of them, or the first flaw. -/
inductive Answers (p : Problem) (entries : List Entry) : Except Flaw (Tally p) → Prop
  | ok {tally : Tally p} (hentries : Faultless p entries) (h : tally.Has entries) : Answers p entries (.ok tally)
  | error {flaw : Flaw} (h : FirstFlaw p entries flaw) : Answers p entries (.error flaw)

theorem Tally.Has.answers (h : tally.Has before) (hbefore : Faultless p before) (entries : List Entry) :
    Answers p (before ++ entries) (entries.foldlM (Tally.meet p) tally) := by
  induction entries generalizing before tally with
  | nil =>
    rw [List.append_nil]
    exact .ok hbefore h
  | cons entry entries ih =>
    rw [List.foldlM_cons]
    have hjudges := h.meet_judges entry
    generalize tally.meet p entry = answer at hjudges
    cases hjudges with
    | ok hentry h' =>
      rw [List.append_cons]
      exact ih h' (hbefore.concat hentry)
    | error hflaw => exact .error ⟨before, entry, entries, rfl, hbefore, hflaw⟩

theorem Tally.has_start (p : Problem) : (Tally.start p).Has [] := Tally.shows_start p

/-- Nothing keeps the check from going through entries with which nothing is wrong. -/
theorem Faultless.run (h : Faultless p entries) :
    ∃ tally, entries.foldlM (Tally.meet p) (Tally.start p) = .ok tally ∧ tally.Has entries := by
  have hanswers := (Tally.has_start p).answers .nil entries
  rw [List.nil_append] at hanswers
  generalize entries.foldlM (Tally.meet p) (Tally.start p) = answer at hanswers
  cases hanswers with
  | ok _ hhas => exact ⟨_, rfl, hhas⟩
  | error hfirst =>
    obtain ⟨before, entry, behind, heq, -, hflaw⟩ := hfirst
    exact absurd hflaw (h before entry behind _ heq)

theorem FirstFlaw.foldlM_eq (h : FirstFlaw p entries flaw) :
    entries.foldlM (Tally.meet p) (Tally.start p) = .error flaw := by
  obtain ⟨before, entry, behind, rfl, hbefore, hflaw⟩ := h
  obtain ⟨tally, hrun, hhas⟩ := hbefore.run
  have hjudges := hhas.meet_judges entry
  have hmeet : tally.meet p entry = .error flaw := by
    generalize tally.meet p entry = answer at hjudges
    cases hjudges with
    | ok hentry => exact absurd hflaw (hentry flaw)
    | error hflaw' => rw [hflaw.unique hflaw']
  rw [List.foldlM_append, hrun]
  show List.foldlM (Tally.meet p) tally (entry :: behind) = .error flaw
  rw [List.foldlM_cons, hmeet]
  rfl

theorem check_eq_error_iff {plan : Plan} : plan.check p = .error flaw ↔ FirstFlaw p plan.entries flaw := by
  rw [check_eq]
  constructor
  · intro h
    have hanswers := (Tally.has_start p).answers .nil plan.entries
    rw [List.nil_append] at hanswers
    generalize plan.entries.foldlM (Tally.meet p) (Tally.start p) = answer at h hanswers
    cases hanswers with
    | ok => cases h
    | error hfirst =>
      cases h
      exact hfirst
  · intro h
    rw [h.foldlM_eq]
    rfl

/-! ### Looking up what must be there -/

/-- The place `i` of a table, which must have it. -/
def place {α : Type} (table : Array α) (i : Nat) : Except Fault α :=
  match table[i]? with
  | some a => .ok a
  | none => .error .outOfRange

/-- As `Tally.meet`, without knowing how long the tables are: they must have the places that they are asked for. -/
def Tally.meetStrictly (p : Problem) (tally : Tally p) : Entry → Except Fault (Tally p)
  | .vehicle route k =>
    match p.vehicleTypes[k]? with
    | none => .error (.refused (.plan (.unknownVehicleType route k)))
    | some v => do
      let count ← place tally.used.toArray k
      if v.numAvailable.toNat < count + 1 then .error (.refused (.plan (.unavailable k v.numAvailable.toNat)))
      else return { tally with used := tally.used.setIfInBounds k (count + 1) }
  | .visit route x =>
    if p.isClient x then do
      let visited ← place tally.visited.toArray x
      if visited then .error (.refused (.plan (.visitedTwice x)))
      else return { tally with visited := tally.visited.setIfInBounds x true }
    else .error (.refused (.plan (.notClient route x)))

def checkStrictly (plan : Plan) (p : Problem) : Except Fault Unit := do
  let _ ← plan.entries.foldlM (Tally.meetStrictly p) (Tally.start p)
  return ()

theorem place_eq_ok {α : Type} {n i : Nat} (table : Vector α n) (h : i < n) : place table.toArray i = .ok table[i] := by
  unfold place
  rw [Vector.getElem?_toArray, Vector.getElem?_eq_getElem h]

theorem setIfInBounds_eq_set {α : Type} {n i : Nat} (table : Vector α n) (h : i < n) (a : α) :
    table.setIfInBounds i a = table.set i a := by
  ext j hj
  rw [Vector.getElem_setIfInBounds, Vector.getElem_set]

theorem Tally.meetStrictly_eq (tally : Tally p) (entry : Entry) :
    tally.meetStrictly p entry = (tally.meet p entry).mapError fun flaw => .refused (.plan flaw) := by
  cases entry with
  | vehicle route k =>
    by_cases hk : k < p.vehicleTypes.size
    · simp only [meetStrictly, meet, use, Array.getElem?_eq_getElem hk, dif_pos hk, place_eq_ok tally.used hk, ok_bind,
        setIfInBounds_eq_set tally.used hk]
      split <;> rfl
    · simp only [meetStrictly, meet, use, Array.getElem?_eq_none (Nat.not_lt.mp hk), dif_neg hk, Except.mapError]
  | visit route x =>
    by_cases hclient : p.isClient x = true
    · have hx := Problem.lt_of_isClient hclient
      simp only [meetStrictly, meet, visit, if_pos hclient, dif_pos hclient, place_eq_ok tally.visited hx, ok_bind,
        setIfInBounds_eq_set tally.visited hx]
      split <;> rfl
    · simp only [meetStrictly, meet, visit, if_neg hclient, dif_neg hclient, Except.mapError]

theorem Tally.foldlM_meetStrictly (entries : List Entry) (tally : Tally p) :
    entries.foldlM (Tally.meetStrictly p) tally =
      (entries.foldlM (Tally.meet p) tally).mapError fun flaw => .refused (.plan flaw) := by
  induction entries generalizing tally with
  | nil => rfl
  | cons entry entries ih =>
    rw [List.foldlM_cons, List.foldlM_cons, tally.meetStrictly_eq]
    cases tally.meet p entry with
    | ok tally' => exact ih tally'
    | error => rfl

/-- Every place that the check looks up is there. -/
theorem checkStrictly_eq (plan : Plan) (p : Problem) :
    plan.checkStrictly p = (plan.check p).mapError fun flaw => .refused (.plan flaw) := by
  unfold checkStrictly
  rw [check_eq, Tally.foldlM_meetStrictly]
  cases plan.entries.foldlM (Tally.meet p) (Tally.start p) <;> rfl

/-! ### Well-formed plans -/

/-- Vehicle types are known and used at most as often as they are available; only clients are visited, none of them
    twice. -/
structure WellFormed (p : Problem) (plan : Plan) : Prop where
  known : ∀ tour ∈ plan.routes, tour.vehicleType.toNat < p.vehicleTypes.size
  available : ∀ {k v}, p.vehicleTypes[k]? = some v →
    plan.routes.countP (fun tour => tour.vehicleType.toNat = k) ≤ v.numAvailable.toNat
  clients : ∀ tour ∈ plan.routes, ∀ x ∈ tour.visits, p.numDepots ≤ x.toNat ∧ x.toNat < p.numLocations
  nodup : (plan.routes.flatMap (·.visits)).Nodup

theorem wellFormed_iff {plan : Plan} : WellFormed p plan ↔ Fits p plan.types plan.locations := by
  have hcount : ∀ k, plan.types.count k = plan.routes.countP fun tour => tour.vehicleType.toNat = k := fun k => by
    rw [types, List.count_eq_countP, List.countP_map]
    rfl
  have hclients : (∀ x ∈ plan.locations, p.isClient x = true) ↔
      ∀ tour ∈ plan.routes, ∀ x ∈ tour.visits, p.numDepots ≤ x.toNat ∧ x.toNat < p.numLocations := by
    simp only [locations, Problem.isClient_iff, List.mem_flatMap, List.mem_map]
    constructor
    · exact fun h tour ht x hx => h _ ⟨tour, ht, x, hx, rfl⟩
    · rintro h _ ⟨tour, ht, x, hx, rfl⟩
      exact h tour ht x hx
  constructor
  · intro h
    exact {
      known := List.forall_mem_map.mpr h.known
      available := fun {k _} hv => hcount k ▸ h.available hv
      clients := hclients.mpr h.clients
      nodup := nodup_locations_iff.mpr h.nodup }
  · intro h
    exact {
      known := List.forall_mem_map.mp h.known
      available := fun {k _} hv => hcount k ▸ h.available hv
      clients := hclients.mp h.clients
      nodup := nodup_locations_iff.mp h.nodup }

/-- The check accepts exactly the well-formed plans. For any other it gives the flaw of the first entry, tour by tour and
    the vehicle type before the visits, that is not possible behind the others; and it looks up no place that is not
    there. -/
theorem check_answers (plan : Plan) (p : Problem) :
    (plan.check p = .ok () ↔ WellFormed p plan) ∧
      (∀ flaw, plan.check p = .error flaw ↔ FirstFlaw p plan.entries flaw) ∧
      plan.checkStrictly p = (plan.check p).mapError fun flaw => .refused (.plan flaw) :=
  ⟨check_eq_ok_iff.trans wellFormed_iff.symm, fun _ => check_eq_error_iff, checkStrictly_eq plan p⟩

end Plan
end Fleet
