import Fleet.Proofs.Descent.Trials
import Fleet.Proofs.Frame.Dispatch

/-! A search keeps everything in order, and every move that it makes lowers the cost.

    Making a move may destroy one of its routes, which takes its cost with it. While every route has a handle none
    goes in mid-search, and then the search only shares the clients out anew. -/

namespace Fleet

/-- Every route has a handle. -/
def Handles.Firm (h : Handles) (l : Layout) : Prop := ∀ {id}, (l.route? id).isSome → id ∈ h.routes

theorem Handles.Firm.keepsRuns {h : Handles} {l l' : Layout} (hf : h.Firm l) (hk : l.KeepsRuns l') : h.Firm l' :=
  fun {id} hid => hf (by rwa [← hk.sameDepots.isSome])

namespace Descent

open Layout DispatchM
open Dispatch (Coherent)

variable {p : Problem} {penalties : Penalties} {descent : Descent} {h : Handles} {d d' : Dispatch} {l l' l'' : Layout}
  {visitors : Visitors} {u v : NodeId} {move : Move} {σ : Type} {k k' : Nat}

/-! ### Lower costs -/

/-- The cost goes down by `k` at least. -/
def Lowers (p : Problem) (penalties : Penalties) (l : Layout) (k : Nat) (l' : Layout) : Prop :=
  ∀ f, Priced p penalties l f → ∃ f', Priced p penalties l' f' ∧ l'.sumOf f' + k ≤ l.sumOf f

namespace Lowers

theorem refl (l : Layout) : Lowers p penalties l 0 l := fun f hf => ⟨f, hf, by simp⟩

theorem trans (h : Lowers p penalties l k l') (h' : Lowers p penalties l' k' l'') :
    Lowers p penalties l (k + k') l'' := by
  intro f hf
  obtain ⟨f', hf', hdrop⟩ := h f hf
  obtain ⟨f'', hf'', hdrop'⟩ := h' f' hf'
  exact ⟨f'', hf'', by omega⟩

/-- Without some of its routes a layout costs no more. -/
theorem prune (h : Lowers p penalties l k l') (hp : penalties.Nonneg) (hc : Current p l')
    (hsub : ∀ id r, l''.route? id = some r → l'.route? id = some r) : Lowers p penalties l k l'' := by
  intro f hf
  obtain ⟨f', hf', hdrop⟩ := h f hf
  exact ⟨f', fun hr => hf' (hsub _ _ hr), by have := hf'.sumOf_le hp hc hsub; omega⟩

/-- The final cost is below the initial cost by `k` at least. -/
theorem cost_le {initial final : Int} (h : Lowers p penalties l k l')
    (hinitial : totalCost p penalties l = .ok initial) (hfinal : totalCost p penalties l' = .ok final) :
    final + k ≤ initial := by
  obtain ⟨f, hf, rfl⟩ := totalCost_eq_ok hinitial
  obtain ⟨g, hg, rfl⟩ := totalCost_eq_ok hfinal
  obtain ⟨f', hf', hdrop⟩ := h f hf
  rw [← Priced.sumOf_eq hf' hg] at hdrop
  exact hdrop

end Lowers

/-- `k` moves share the clients out anew, at a cost that is lower by `k` at least. -/
structure Improves (p : Problem) (penalties : Penalties) (l : Layout) (k : Nat) (l' : Layout) : Prop
    extends Reshuffles l l' where
  still : k = 0 → l' = l
  drop : Lowers p penalties l k l'

namespace Improves

theorem refl (hl : Seated l) : Improves p penalties l 0 l := ⟨.refl hl, fun _ => rfl, .refl l⟩

theorem trans (h : Improves p penalties l k l') (h' : Improves p penalties l' k' l'') :
    Improves p penalties l (k + k') l'' where
  toReshuffles := h.toReshuffles.trans h'.toReshuffles
  still hk := (h'.still (by omega)).trans (h.still (by omega))
  drop := h.drop.trans h'.drop

/-- The final cost is below the initial cost by the number of moves at least. -/
theorem cost_le {initial final : Int} (h : Improves p penalties l k l')
    (hinitial : totalCost p penalties l = .ok initial) (hfinal : totalCost p penalties l' = .ok final) :
    final + k ≤ initial :=
  h.drop.cost_le hinitial hfinal

end Improves

/-- `k` moves have been made. They lower the cost unless penalties are below zero, whatever has gone with them; and no
    route visits a client that none visited before. -/
structure Descends (p : Problem) (penalties : Penalties) (h : Handles) (l : Layout) (k : Nat) (l' : Layout) : Prop where
  serves : ∀ m, Serves l' m → Serves l m
  lowers : penalties.Nonneg → Lowers p penalties l k l'
  improves : h.Firm l → Improves p penalties l k l'

namespace Descends

theorem refl (hl : Seated l) : Descends p penalties h l 0 l := ⟨fun _ hm => hm, fun _ => .refl l, fun _ => .refl hl⟩

theorem trans (hd : Descends p penalties h l k l') (hd' : Descends p penalties h l' k' l'') :
    Descends p penalties h l (k + k') l'' where
  serves m hm := hd.serves m (hd'.serves m hm)
  lowers hp := (hd.lowers hp).trans (hd'.lowers hp)
  improves hfirm :=
    have himproves := hd.improves hfirm
    himproves.trans (hd'.improves (hfirm.keepsRuns himproves.toKeepsRuns))

end Descends

/-- What can overflow in a search: the totals of a route that is changed, the cost of all routes, or the costs that a
    move is judged by. -/
inductive Strained (p : Problem) (descent : Descent) (l : Layout) : Prop
  | totals (h : l.Strained p)
  | cost (h : totalCost p descent.penalties l = .error .overflow)
  | move {u v : NodeId} {move : Move} (hmem : move ∈ descent.moves) (h : move.Strained p descent.penalties l u v)

/-! ### One move -/

theorem make_fares {c : Int} (hd : Coherent p h d) (hc : move.costChange p penalties d.layout u v = .ok c) (hneg : c < 0)
    (hsize : visitors.size = p.numLocations) :
    FaresUnless (Overflows fun t => t.layout.Strained p)
      (fun vs d' => Coherent p h d' ∧ vs.size = p.numLocations ∧ Descends p penalties h d.layout 1 d'.layout)
      (make p visitors u v move d) := by
  obtain ⟨a, ra, i, b, rb, j, hm⟩ := applies_of_costChange hd.seated hc hneg
  have hends := (Move.perform_ends (p := p) (Move.sites?_of_appliesAt hd.seated hm)).onLayout
  have hperform := hends.fares (Dispatch.perform_moved hd hm)
  unfold make
  refine hperform.bind fun routes d₁ ⟨⟨hroutes, hmoved⟩, _⟩ => ?_
  subst hroutes
  obtain ⟨n, d', hrun, hd', hsame, hprunes⟩ := hmoved.reconcile_run hd.sited hm.ne
  simp only
  rw [bind_ok hrun, get_bind_run]
  obtain ⟨vs, hvs, hvsize⟩ := enterRoute_succeeds hd'.sited hsize a
  obtain ⟨ws, hws, hwsize⟩ := enterRoute_succeeds hd'.sited hvsize b
  rw [hvs, ofResult_ok_bind, get_bind_run, hws]
  have hlowers : Lowers p penalties d.layout 1 d₁.layout := by
    intro f hf
    obtain ⟨f', hf', hsum⟩ := hmoved.priced hd.seated hm hc hf
    exact ⟨f', hf', by omega⟩
  refine .ok ⟨hd', hwsize, fun m ⟨id, r, hr, hmem⟩ => (hmoved.reshuffles.serves m).mp ⟨id, r, hprunes id r hr, hmem⟩,
    fun hp => hlowers.prune hp hmoved.current hprunes, fun hfirm => ?_⟩
  -- Both routes have a handle, so reconciling them destroys neither and leaves the layout as the move has made it.
  have hpos : ∀ {id r}, d.layout.route? id = some r → 0 < d.routeHandles id := fun hr => by
    rw [hd.held.routes]
    exact List.count_pos_iff.mpr (hfirm (Option.isSome_iff_exists.mpr ⟨_, hr⟩))
  rw [hsame (hpos hm.left) (hpos hm.right)]
  exact ⟨hmoved.reshuffles, fun hk => absurd hk one_ne_zero, hlowers⟩

/-! ### Passes -/

theorem improveAll_fares (hn : Neighbourhood.Within p.numLocations descent.neighbours) {us : List NodeId} :
    ∀ {d : Dispatch} {visitors : Visitors} {made : Nat}, Coherent p h d → visitors.size = p.numLocations →
      FaresUnless (Overflows fun t => descent.Strained p t.layout)
        (fun made' d' => Coherent p h d' ∧ ∃ k, made' = made + k ∧
          Descends p descent.penalties h d.layout k d'.layout)
        (improveAll p descent us visitors made d) := by
  induction us with
  | nil =>
    intro d visitors made hd _
    exact .ok ⟨hd, 0, rfl, .refl hd.seated⟩
  | cons u us ih =>
    -- Nothing is asked of `u` itself, which may have gone with the route of an earlier move.
    intro d visitors made hd hsize
    unfold improveAll
    rw [get_bind_run]
    have hstrained : find? p descent d.layout visitors u = .error .overflow → descent.Strained p d.layout := fun hover => by
      obtain ⟨v, move, hmem, hstrained⟩ := find?_overflow hd.seated hd.sited hn hsize hover
      exact .move hmem hstrained
    refine (FaresUnless.ofResult (find?_computes hd.seated hd.sited hn hsize) hstrained).bind fun found t ⟨ht, hfound⟩ => ?_
    subst ht
    cases found with
    | none => exact ih hd hsize
    | some trial =>
      obtain ⟨v, move⟩ := trial
      obtain ⟨c, hc, hneg⟩ := hfound rfl
      refine ((make_fares hd hc hneg hsize).mono (fun _ _ hover => hover.imp_right .totals) fun _ _ h' => h').bind fun vs d₁ ⟨hd₁, hvs, h₁⟩ => ?_
      refine (ih hd₁ hvs).mono (fun _ _ hover => hover) fun made' d' ⟨hd', k, hmade, hrest⟩ => ⟨hd', k + 1, by omega, ?_⟩
      rw [Nat.add_comm]
      exact h₁.trans hrest

theorem pass_fares (hn : Neighbourhood.Within p.numLocations descent.neighbours)
    (shuffle : List NodeId → σ → List NodeId × σ) (s : σ) (hd : Coherent p h d) :
    FaresUnless (Overflows fun t => descent.Strained p t.layout)
      (fun result d' => Coherent p h d' ∧ Descends p descent.penalties h d.layout result.1 d'.layout)
      (pass p descent shuffle s d) := by
  unfold pass
  rw [get_bind_run]
  obtain ⟨visitors, hvisitors, hsize⟩ := visitors_succeed hd.sited
  simp only [hvisitors, ofResult_ok_bind]
  refine (improveAll_fares hn hd hsize).bind fun made d' ⟨hd', k, hmade, hdescends⟩ => .ok ⟨hd', ?_⟩
  rw [hmade, Nat.zero_add]
  exact hdescends

/-- All passes together. Every pass but the last makes a move. -/
theorem passes_fares (hn : Neighbourhood.Within p.numLocations descent.neighbours)
    (shuffle : List NodeId → σ → List NodeId × σ) {remaining : Nat} : ∀ {passed moved : Nat} {s : σ} {d : Dispatch},
    Coherent p h d →
      FaresUnless (Overflows fun t => descent.Strained p t.layout)
        (fun result d' => Coherent p h d' ∧ ∃ n k, result.1 = (passed + n, moved + k) ∧ n ≤ remaining ∧ n ≤ k + 1 ∧
          Descends p descent.penalties h d.layout k d'.layout)
        (passes p descent shuffle remaining (passed, moved) s d) := by
  induction remaining with
  | zero =>
    intro passed moved s d hd
    exact .ok ⟨hd, 0, 0, rfl, le_rfl, Nat.zero_le _, .refl hd.seated⟩
  | succ remaining ih =>
    intro passed moved s d hd
    unfold passes
    refine (pass_fares hn shuffle s hd).bind fun result d₁ ⟨hd₁, hdescends⟩ => ?_
    obtain ⟨made, s⟩ := result
    simp only
    split
    · rename_i hzero
      rw [hzero] at hdescends
      exact .ok ⟨hd₁, 1, 0, rfl, by omega, le_rfl, hdescends⟩
    · refine (ih hd₁).mono (fun _ _ hover => hover) fun result' d' ⟨hd', n, k, hresult, hn, hk, hrest⟩ =>
        ⟨hd', n + 1, made + k, ?_, by omega, by omega, hdescends.trans hrest⟩
      rw [hresult]
      exact Prod.ext (by simp; omega) (by simp; omega)

/-! ### The search -/

/-- A search gives its report, unless a quantity overflows. -/
theorem run_descends (hn : Neighbourhood.Within p.numLocations descent.neighbours)
    (shuffle : List NodeId → σ → List NodeId × σ) (s : σ) (hd : Coherent p h d) :
    FaresUnless (Overflows fun t => descent.Strained p t.layout)
      (fun result d' => Coherent p h d' ∧ totalCost p descent.penalties d.layout = .ok result.1.initialCost ∧
        totalCost p descent.penalties d'.layout = .ok result.1.finalCost ∧ result.1.passes ≤ descent.maxPasses ∧
        result.1.passes ≤ result.1.moves + 1 ∧ Descends p descent.penalties h d.layout result.1.moves d'.layout)
      (run p descent shuffle s d) := by
  unfold run
  rw [get_bind_run]
  refine (FaresUnless.ofResult (totalCost_computes hd.sited).eq .cost).bind fun initial t ⟨ht, hinitial, _⟩ => ?_
  subst ht
  refine (passes_fares hn shuffle hd).bind fun result d₁ ⟨hd₁, n, k, hresult, hn, hk, hdescends⟩ => ?_
  obtain ⟨⟨passed, moved⟩, s⟩ := result
  cases hresult
  simp only [get_bind_run, Nat.zero_add]
  refine (FaresUnless.ofResult (totalCost_computes hd₁.sited).eq .cost).bind fun final t ⟨ht, hfinal, _⟩ => ?_
  subst ht
  exact .ok ⟨hd₁, hinitial, hfinal, hn, hk, hdescends⟩

theorem run_fares (hn : Neighbourhood.Within p.numLocations descent.neighbours)
    (shuffle : List NodeId → σ → List NodeId × σ) (s : σ) (hd : Coherent p h d) :
    Fares (fun result d' => Coherent p h d' ∧ totalCost p descent.penalties d.layout = .ok result.1.initialCost ∧
        totalCost p descent.penalties d'.layout = .ok result.1.finalCost ∧ result.1.passes ≤ descent.maxPasses ∧
        result.1.passes ≤ result.1.moves + 1 ∧
        (h.Firm d.layout → Improves p descent.penalties d.layout result.1.moves d'.layout))
      (run p descent shuffle s d) :=
  (run_descends hn shuffle s hd).fares.mono fun _ _ ⟨hd', hinitial, hfinal, hpasses, hmoving, hdescends⟩ =>
    ⟨hd', hinitial, hfinal, hpasses, hmoving, hdescends.improves⟩

end Descent
end Fleet
