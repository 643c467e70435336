import Fleet.Proofs.Dispatch.Consistency

/-! How long a search takes, and what it leaves.

    The search may start in any state of a clean run, also in one where only handles to nodes keep a route alive, so
    that the route goes when a move takes these nodes to another one. -/

namespace Fleet
namespace Descent

open Layout
open Dispatch

variable {p : Problem} {h : Handles} {d d' : Dispatch} {l : Layout} {penalties : Penalties}

/-- The tours of all routes, computed from their locations, cost `c` together. -/
def Costs (p : Problem) (penalties : Penalties) (l : Layout) (c : Int) : Prop :=
  ∃ f : RouteId → Int, c = l.sumOf f ∧ ∀ id r, l.route? id = some r →
    penalties.costOfTour p r.vehicleType.toNat (l.locations r) = .ok (f id)

theorem costs_of_totalCost {c : Int} (hc : Current p l) (h : totalCost p penalties l = .ok c) : Costs p penalties l c := by
  obtain ⟨f, hf, rfl⟩ := totalCost_eq_ok h
  exact ⟨f, rfl, fun _ _ hr => hf.costOfTour hc hr⟩

theorem totalCost_nonneg {c : Int} (hp : penalties.Nonneg) (hc : Current p l) (h : totalCost p penalties l = .ok c) :
    0 ≤ c := by
  obtain ⟨f, hf, rfl⟩ := totalCost_eq_ok h
  exact hf.sumOf_nonneg hp hc

/-- What a search that ends reports, and what there is afterwards. -/
structure Concludes (p : Problem) (descent : Descent) (d : Dispatch) (report : Report) (d' : Dispatch) : Prop where
  passes_le : report.passes ≤ descent.maxPasses
  passes_le_moves : report.passes ≤ report.moves + 1
  moves_le : report.moves ≤ report.initialCost
  nonneg : 0 ≤ report.finalCost
  descends : report.finalCost ≤ report.initialCost - report.moves
  initial : Costs p descent.penalties d.layout report.initialCost
  final : Costs p descent.penalties d'.layout report.finalCost
  consistent : d'.isConsistent = true
  reconciled : ∀ id, (d'.layout.route? id).isSome → d'.isReconciled id = .ok true

/-- In every state of a clean run a search ends, and each of its moves lowers the cost: so there are at most as many as
    the routes cost at first. Only an overflow of totals or costs can stop it. -/
theorem search_concludes (hr : Reachable p h d) {search : SearchParameters} (hsearch : search.validate = .ok ())
    (neighbourhood : NeighbourhoodParameters) (moves : List Move) {σ : Type}
    (shuffle : List NodeId → σ → List NodeId × σ) (s : σ) :
    ∃ neighbours, Neighbourhood.lists p neighbourhood = .ok neighbours ∧
      (neighbourhood.validate = .ok () → ofParameters p neighbourhood search =
        .ok ⟨neighbours, Move.defaults, search.penalties, search.maxPasses.toNat⟩) ∧
      let descent : Descent := ⟨neighbours, moves, search.penalties, search.maxPasses.toNat⟩
      ((∃ report s' d', descent.run p shuffle s d = .ok (report, s') d' ∧ Concludes p descent d report d') ∨
        ∃ d', descent.run p shuffle s d = .error .overflow d' ∧ descent.Strained p d'.layout) := by
  obtain ⟨neighbours, hlists, hwithin⟩ := Neighbourhood.lists_succeed p neighbourhood
  refine ⟨neighbours, hlists, fun hneighbourhood => ?_, ?_⟩
  · unfold ofParameters
    rw [hneighbourhood, hsearch, hlists]
    rfl
  · intro descent
    have hd := hr.coherent
    have hp : descent.penalties.Nonneg := Penalties.nonneg_of_validate hsearch
    have hwithin : Neighbourhood.Within p.numLocations descent.neighbours := hwithin
    have hrun := run_descends hwithin shuffle s hd
    generalize descent.run p shuffle s d = result at hrun
    cases hrun with
    | fault hover =>
      obtain ⟨rfl, hstrained⟩ := hover
      exact Or.inr ⟨_, rfl, hstrained⟩
    | @ok result d' h =>
      obtain ⟨report, s'⟩ := result
      obtain ⟨hd', hinitial, hfinal, hpasses, hmoving, hdescends⟩ := h
      have hdrop : report.finalCost + report.moves ≤ report.initialCost := (hdescends.lowers hp).cost_le hinitial hfinal
      have hnonneg : 0 ≤ report.finalCost := totalCost_nonneg hp hd'.current hfinal
      refine Or.inl ⟨report, s', d', rfl, hpasses, hmoving, by omega, hnonneg, by omega,
        costs_of_totalCost hd.current hinitial, costs_of_totalCost hd'.current hfinal, hd'.isConsistent, fun id hid => ?_⟩
      obtain ⟨r, hroute⟩ := Option.isSome_iff_exists.mp hid
      exact hd'.isReconciled hroute

end Descent

namespace Dispatch.Sample

/-- Each of two clients has the other one as its only neighbour, however near they are. -/
theorem lists_run : Neighbourhood.lists problem {} = .ok #[[], [2], [1]] := eq_ok_of_toOption (by decide +kernel)

/-- A search to which a vehicle that is too small is cheaper than a second one. -/
def frugal : Descent := ⟨#[[], [2], [1]], Move.defaults, SearchParameters.penalties { loadPenalty := 1 }, 100⟩

/-- Both clients are in the second route, and the first one has gone. -/
def merged : Dispatch := after (frugal.run problem (fun nodes (n : Nat) => (nodes, n)) 0 lent)

end Dispatch.Sample

namespace Descent

open Dispatch

/-- The only handle of the first route is that of its client. The search moves the client to the second route, and so the
    first one goes while the search is running. -/
theorem search_concludes_in_sample :
    (Reachable Sample.problem (Sample.handles.withoutRoute ⟨⟨0, 0⟩⟩) Sample.lent ∧
      ({ loadPenalty := 1 } : SearchParameters).validate = .ok ()) ∧
    Neighbourhood.lists Sample.problem {} = .ok Sample.frugal.neighbours ∧
    Sample.frugal.run Sample.problem (fun nodes (n : Nat) => (nodes, n)) 0 Sample.lent = .ok (⟨2, 1, 44, 27⟩, 0) Sample.merged ∧
    Sample.merged.layout.route? ⟨⟨0, 0⟩⟩ = none ∧
    Concludes Sample.problem Sample.frugal Sample.lent ⟨2, 1, 44, 27⟩ Sample.merged := by
  have hsearch : ({ loadPenalty := 1 } : SearchParameters).validate = .ok () := by rfl
  have hreport : Sample.frugal.run Sample.problem (fun nodes (n : Nat) => (nodes, n)) 0 Sample.lent =
      .ok (⟨2, 1, 44, 27⟩, 0) Sample.merged := Sample.eq_ok (by decide +kernel)
  obtain ⟨neighbours, hlists, -, hrun⟩ := search_concludes Sample.reachable_lent hsearch {} Move.defaults
    (fun nodes (n : Nat) => (nodes, n)) 0
  obtain rfl := Except.ok.inj (hlists.symm.trans Sample.lists_run)
  refine ⟨⟨Sample.reachable_lent, hsearch⟩, hlists, hreport, by decide +kernel, ?_⟩
  have hfrugal : (⟨#[[], [2], [1]], Move.defaults, SearchParameters.penalties { loadPenalty := 1 },
      ({ loadPenalty := 1 } : SearchParameters).maxPasses.toNat⟩ : Descent) = Sample.frugal := by rfl
  simp only [hfrugal, hreport] at hrun
  rcases hrun with ⟨report, n, d', hrun, hconcludes⟩ | ⟨d', hrun, -⟩
  · cases hrun
    exact hconcludes
  · cases hrun

end Descent
end Fleet
