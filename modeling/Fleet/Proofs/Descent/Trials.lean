import Fleet.Proofs.Descent.Costs
import Fleet.Proofs.Neighbourhood

/-! Looking for a move that lowers the cost.

    Only an overflow keeps a client from an answer, whatever nodes the search still remembers as visitors of
    locations; and a move that is found applies. -/

namespace Fleet
namespace Descent

open Layout

variable {p : Problem} {penalties : Penalties} {descent : Descent} {l : Layout} {visitors : Visitors} {u v : NodeId}
  {move : Move}

/-! ### Visitors -/

theorem enter_succeeds (hs : Sited p l) (nodes : List NodeId) : ∀ {visitors : Visitors},
    visitors.size = p.numLocations → Succeeds (fun vs => vs.size = p.numLocations) (enter l visitors nodes) := by
  induction nodes with
  | nil => exact fun {visitors} hsize => ⟨visitors, rfl, hsize⟩
  | cons node nodes ih =>
    intro visitors hsize
    unfold enter
    cases hn : l.node? node with
    | none => exact ih hsize
    | some n =>
      simp only
      rw [if_pos (hsize ▸ hs.location hn)]
      exact ih ((Array.size_setIfInBounds ..).trans hsize)

theorem visitors_succeed (hs : Sited p l) :
    Succeeds (fun vs => vs.size = p.numLocations) (enter l (.replicate p.numLocations none) (clients l)) :=
  enter_succeeds hs (clients l) Array.size_replicate

theorem enterRoute_succeeds (hs : Sited p l) (hsize : visitors.size = p.numLocations) (id : RouteId) :
    Succeeds (fun vs => vs.size = p.numLocations) (enterRoute l visitors id) := by
  unfold enterRoute
  split
  · exact enter_succeeds hs _ hsize
  · exact ⟨visitors, rfl, hsize⟩

theorem visitorsOf_succeeds {locations : List Nat} (h : ∀ x ∈ locations, x < visitors.size) :
    Succeeds (fun _ => True) (visitorsOf visitors locations) := by
  unfold visitorsOf
  refine (Succeeds.mapM fun x hx => show Succeeds (fun _ => True) _ from ?_).bind fun found _ => ⟨_, rfl, trivial⟩
  rw [Array.getElem?_eq_getElem (h x hx)]
  exact ⟨_, rfl, trivial⟩

theorem partners_succeeds {location : Nat} (hn : Neighbourhood.Within p.numLocations descent.neighbours)
    (hsize : visitors.size = p.numLocations) (hlocation : location < p.numLocations) :
    Succeeds (fun _ => True) (descent.partners l visitors location) := by
  obtain ⟨neighbours, hneighbours⟩ : ∃ neighbours, descent.neighbours[location]? = some neighbours :=
    ⟨_, Array.getElem?_eq_getElem (hn.size ▸ hlocation)⟩
  unfold partners
  rw [hneighbours]
  exact (visitorsOf_succeeds fun x hx => hsize ▸ hn.lt hneighbours hx).bind fun _ _ => ⟨_, rfl, trivial⟩

/-! ### The first improving move -/

/-- A move with a partner that lowers the cost. -/
def Improving (p : Problem) (penalties : Penalties) (l : Layout) (u : NodeId) (found : Option (NodeId × Move)) : Prop :=
  ∀ {v move}, found = some (v, move) → ∃ c, Move.costChange p penalties l move u v = .ok c ∧ c < 0

theorem firstImproving_computes (hl : Seated l) (hs : Sited p l) {trials : List (NodeId × Move)} :
    Computes (Improving p penalties l u) (firstImproving p penalties l u trials) := by
  induction trials with
  | nil => exact .ok fun hnone => by cases hnone
  | cons trial trials ih =>
    obtain ⟨v, move⟩ := trial
    unfold firstImproving
    refine (Move.costChange_computes hl hs).eq.bind fun c ⟨hc, _⟩ => ?_
    split
    · rename_i hneg
      refine .ok fun heq => ?_
      cases heq
      exact ⟨c, hc, hneg⟩
    · exact ih

theorem find?_computes (hl : Seated l) (hs : Sited p l) (hn : Neighbourhood.Within p.numLocations descent.neighbours)
    (hsize : visitors.size = p.numLocations) :
    Computes (Improving p descent.penalties l u) (descent.find? p l visitors u) := by
  unfold find?
  cases hu : l.node? u with
  | none => exact .ok fun hnone => by cases hnone
  | some n =>
    cases hroute : n.route with
    | none =>
      simp only [hroute]
      exact .ok fun hnone => by cases hnone
    | some id =>
      simp only [hroute]
      exact (partners_succeeds hn hsize (hs.location hu)).computes.bind fun _ _ => firstImproving_computes hl hs

/-! ### Overflows -/

theorem firstImproving_overflow (hl : Seated l) {trials : List (NodeId × Move)}
    (h : firstImproving p penalties l u trials = .error .overflow) :
    ∃ trial ∈ trials, trial.2.Strained p penalties l u trial.1 := by
  induction trials with
  | nil => cases h
  | cons trial trials ih =>
    obtain ⟨v, move⟩ := trial
    unfold firstImproving at h
    cases hc : move.costChange p penalties l u v with
    | error fault =>
      rw [hc] at h
      cases h
      exact ⟨(v, move), List.mem_cons_self, Move.strained_of_overflow hl hc⟩
    | ok c =>
      rw [hc, ok_bind] at h
      split at h
      · cases h
      · obtain ⟨trial, htrial, hstrained⟩ := ih h
        exact ⟨trial, List.mem_cons_of_mem _ htrial, hstrained⟩

/-- Looking for a move overflows only with the costs of one that is tried. -/
theorem find?_overflow (hl : Seated l) (hs : Sited p l) (hn : Neighbourhood.Within p.numLocations descent.neighbours)
    (hsize : visitors.size = p.numLocations) (h : descent.find? p l visitors u = .error .overflow) :
    ∃ v, ∃ move ∈ descent.moves, move.Strained p descent.penalties l u v := by
  unfold find? at h
  cases hu : l.node? u with
  | none =>
    rw [hu] at h
    cases h
  | some n =>
    simp only [hu] at h
    split at h
    · cases h
    · obtain ⟨partners, hpartners, -⟩ := partners_succeeds hn hsize (hs.location hu)
      rw [hpartners, ok_bind] at h
      obtain ⟨⟨v, move⟩, htrial, hstrained⟩ := firstImproving_overflow hl h
      simp only [List.mem_flatMap, List.mem_map, Prod.mk.injEq] at htrial
      obtain ⟨_, -, move', hmove, -, rfl⟩ := htrial
      exact ⟨v, move', hmove, hstrained⟩

/-! ### What is found -/

/-- A move that lowers the cost applies. -/
theorem applies_of_costChange {c : Int} (hl : Seated l) (hc : move.costChange p penalties l u v = .ok c) (hneg : c < 0) :
    Move.Applies move l u v := by
  by_contra hm
  rcases Move.sites?_of_not_applies hl hm with hnone | ⟨-, hover⟩
  · rw [Move.costChange_of_none hnone] at hc
    cases hc
    omega
  · rw [Move.costChange_of_overflow hover] at hc
    cases hc

end Descent
end Fleet
