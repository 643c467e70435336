import Fleet.Proofs.Dispatch.Growing
import Fleet.Proofs.Dispatch.Runs

/-! How requests fail in clean runs.

    A request is done, or it is refused and leaves no trace, or the totals or costs of a tour overflow, or no slot is
    left for what it makes. Otherwise no promise inside of the books is ever broken and nothing is looked up that is not
    there; in particular no count of handles goes below zero. -/

namespace Fleet
namespace Dispatch

open DispatchM

variable {p : Problem} {h h' : Handles} {d d' : Dispatch} {request : Request}

namespace Request

/-- What overflows where a request does; many requests never do. -/
def Strains (p : Problem) (l : Layout) : Request → Prop
  | .search descent _ _ => descent.Strained p l
  | .move rule u v => l.Strained p ∨ rule.IsHuge ∧ rule.Oversized l u v
  | .addRoute .. | .addRouteNode .. | .append .. | .insert .. | .remove .. | .load .. => l.Strained p
  | .shareRoute .. | .releaseRoute .. | .addNode .. | .shareNode .. | .nodeAt .. | .releaseNode .. | .reconcile .. =>
    False

end Request

/-! ### What a request does to the slots, and what overflows in it -/

/-- Some slots are vacated, or some are taken. -/
def Steps (d d' : Dispatch) : Prop := Sheds d d' ∨ Grows d d'

section
variable {α : Type} {cause : Dispatch → Prop} {m : DispatchM α} {f : α → Handles} {a : α}

theorem shedding (hm : Keeps Sheds cause m) (d : Dispatch) :
    Ends (fun _ d' => Steps d d') cause ((m >>= fun a => pure (f a)) d) :=
  (hm d).bind fun _ _ h => .ok (Or.inl h)

theorem growing (hm : Ends (fun _ d' => Grows d d') cause (m d)) :
    Ends (fun _ d' => Steps d d') cause ((m >>= fun a => pure (f a)) d) :=
  hm.bind fun _ _ h => .ok (Or.inr h)

/-- An operation that is known not to overflow. -/
theorem shedding_of_ok (hm : Keeps Sheds (fun _ => True) m) (hrun : m d = .ok a d') :
    Ends (fun _ d' => Steps d d') cause ((m >>= fun a => pure (f a)) d) := by
  rw [bind_ok hrun]
  exact .ok (Or.inl (hm.of_ok hrun))

end

theorem move_ends (hd : Coherent p h d) (rule : Move) (u v : NodeId) :
    Ends (fun _ d' => Steps d d') (fun d' => d'.layout.Strained p ∨ rule.IsHuge ∧ rule.Oversized d'.layout u v)
      ((Request.move rule u v).carryOut p h d) := by
  simp only [Request.carryOut]
  by_cases hm : rule.Applies d.layout u v
  · obtain ⟨a, ra, i, b, rb, j, hm⟩ := hm
    have hperform := (Move.perform_ends (p := p) (Move.sites?_of_appliesAt hd.seated hm)).onLayout
    refine (hperform.mono (fun _ _ hsame => hsame) fun _ => .inl).bind fun routes d₁ hsame => ?_
    have hreconcile : Keeps Sheds (fun d' => d'.layout.Strained p ∨ rule.IsHuge ∧ rule.Oversized d'.layout u v)
        (reconcile routes.1 routes.2 >>= fun _ => pure h) :=
      (reconcile_keeps routes.1 routes.2).bind fun _ => .pure h
    exact (hreconcile d₁).mono (fun _ _ hsheds => .inl (IsTrans.trans _ _ _ (SameSlots.sheds hsame) hsheds)) fun _ h => h
  · rcases Move.perform_of_not_applies hd.seated hm with hrefused | ⟨hsize, hover⟩
    · rw [bind_error (onLayout_error hrefused)]
      exact .fault (by simp)
    · rw [bind_error (onLayout_error hover)]
      exact .overflow (.inr ⟨hsize.isHuge hd.seated, hsize⟩)

theorem carryOut_ends (hd : Coherent p h d) (hpermitted : request.Permitted p h) :
    Ends (fun _ d' => Steps d d') (fun d' => request.Strains p d'.layout) (request.carryOut p h d) := by
  cases request with
  | addRoute vehicleType idx => exact growing (addRoute_keeps p vehicleType idx d)
  | shareRoute route => exact shedding (shareRoute_keeps route).sheds d
  | releaseRoute route =>
    -- That the count of handles suffices is not known to `releaseRoute_keeps`, but to the invariant.
    obtain ⟨d', -, hrun, -⟩ := releaseRoute_run hd hpermitted
    exact shedding_of_ok (releaseRoute_keeps route) hrun
  | addNode location => exact growing (addNode_keeps p location d)
  | addRouteNode route location => exact growing (addRouteNode_ends hd route location)
  | shareNode node => exact shedding (shareNode_keeps node).sheds d
  | nodeAt route position => exact shedding (nodeAt_keeps route position).sheds d
  | releaseNode node =>
    obtain ⟨d', hrun, -⟩ := releaseNode_coherent hd hpermitted
    exact shedding_of_ok (releaseNode_keeps node) hrun
  | append route node => exact shedding (put_keeps p route .last node) d
  | insert route position node => exact shedding (put_keeps p route (.position position) node) d
  | remove route position => exact shedding (remove_keeps p route position) d
  | reconcile a b => exact shedding (reconcile_keeps a b) d
  | load plan => exact growing (load_ends hd plan)
  | search descent shuffle s =>
    obtain ⟨params, hlists⟩ := hpermitted
    obtain ⟨lists, hlists', hwithin⟩ := Neighbourhood.lists_succeed p params
    rw [hlists] at hlists'
    cases hlists'
    -- `run_keeps` leaves open what overflows, and `run_descends` what happens to the slots.
    have hrun := (Descent.run_keeps p descent shuffle s d).faresUnless (Descent.run_descends hwithin shuffle s hd)
    exact (hrun.ends fun _ hover => hover.1.2).bind fun _ _ h => .ok (Or.inl h.2)
  | move rule u v => exact move_ends hd rule u v

/-! ### Plans of routes -/

end Dispatch
end Fleet
