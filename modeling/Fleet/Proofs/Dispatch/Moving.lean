import Fleet.Proofs.Dispatch.Reconcile

/-! Making moves.

    A move changes two routes of the layout and leaves the books alone. The two routes together visit what they
    visited before, so reconciling them puts everything in order again. -/

namespace Fleet
namespace Layout

variable {l l' l'' : Layout} {a b : RouteId} {ra rb ra' rb' : Route} {m : NodeId}

/-- Some route visits the node as a client. -/
def Serves (l : Layout) (m : NodeId) : Prop := ∃ id r, l.route? id = some r ∧ m ∈ r.clients

/-- The same routes visit the same clients, perhaps each of them others than before. -/
structure Reshuffles (l l' : Layout) : Prop extends KeepsRuns l l' where
  serves : ∀ m, Serves l' m ↔ Serves l m

namespace Reshuffles

theorem refl (h : Seated l) : Reshuffles l l := ⟨.refl h, fun _ => Iff.rfl⟩

theorem trans (h : Reshuffles l l') (h' : Reshuffles l' l'') : Reshuffles l l'' :=
  ⟨h.toKeepsRuns.trans h'.toKeepsRuns, fun m => (h'.serves m).trans (h.serves m)⟩

end Reshuffles

/-- A node is visited by one of two routes, or by another one. -/
theorem serves_iff (ha : l.route? a = some ra) (hb : l.route? b = some rb) : Serves l m ↔
    (m ∈ ra.clients ∨ m ∈ rb.clients) ∨ ∃ id r, id ≠ a ∧ id ≠ b ∧ l.route? id = some r ∧ m ∈ r.clients := by
  constructor
  · rintro ⟨id, r, hr, hm⟩
    by_cases hida : id = a
    · rw [hida, ha] at hr
      cases hr
      exact Or.inl (Or.inl hm)
    · by_cases hidb : id = b
      · rw [hidb, hb] at hr
        cases hr
        exact Or.inl (Or.inr hm)
      · exact Or.inr ⟨id, r, hida, hidb, hr, hm⟩
  · rintro ((hm | hm) | ⟨id, r, -, -, hr, hm⟩)
    · exact ⟨a, ra, ha, hm⟩
    · exact ⟨b, rb, hb, hm⟩
    · exact ⟨id, r, hr, hm⟩

end Layout

/-- Two routes share their clients out anew. -/
theorem Move.ReroutesBoth.reshuffles {l l' : Layout} {a b : RouteId} {ra rb ra' rb' : Route} (h : ReroutesBoth l a ra' b rb' l')
    (hab : a ≠ b) (ha : l.route? a = some ra) (hb : l.route? b = some rb) (hsa : Layout.SameRun ra ra')
    (hsb : Layout.SameRun rb rb') (hperm : (ra'.clients ++ rb'.clients).Perm (ra.clients ++ rb.clients)) : l.Reshuffles l' where
  toKeepsRuns := h.keepsRuns ha hb hsa hsb
  serves m := by
    rw [Layout.serves_iff h.route_left (h.route_right hab), Layout.serves_iff ha hb, ← List.mem_append, ← List.mem_append,
      hperm.mem_iff]
    refine or_congr Iff.rfl (exists_congr fun id => exists_congr fun r => ?_)
    constructor
    · rintro ⟨hida, hidb, hr, hm⟩
      exact ⟨hida, hidb, h.route_of_ne hida hidb ▸ hr, hm⟩
    · rintro ⟨hida, hidb, hr, hm⟩
      exact ⟨hida, hidb, (h.route_of_ne hida hidb).trans hr, hm⟩

/-- A move that is made serves the same clients, and keeps all totals current. -/
theorem Move.perform_reshuffles {p : Problem} {move : Move} {u v : NodeId} {l l' : Layout} {routes : RouteId × RouteId}
    (hl : Layout.Seated l) (hs : Layout.Sited p l) (hrun : move.perform p u v l = .ok routes l') :
    Layout.Reshuffles l l' ∧ (Layout.Current p l → Layout.Current p l') := by
  obtain ⟨a, ra, i, b, rb, j, totalsU, totalsV, hm, -, hU, hV, hr⟩ := perform_eq_ok hl hs hrun
  have hperm := move.perm_newClients ra.clients rb.clients i j
  exact ⟨hr.reshuffles hm.ne hm.left hm.right ⟨rfl, rfl, rfl, rfl⟩ ⟨rfl, rfl, rfl, rfl⟩ hperm,
    fun hc => hr.current hc hU hV⟩

namespace Dispatch

open Layout DispatchM Move

variable {p : Problem} {h : Handles} {d d' : Dispatch} {l' : Layout} {move : Move} {u v : NodeId} {a b : RouteId}
  {ra rb : Route} {i j : Nat}

theorem Booked.onLayout {idle : List RouteId} (hd : Booked h idle d) (hl : Seated d.layout) (hk : KeepsRuns d.layout l') :
    Booked h idle { d with layout := l' } :=
  ⟨hd.entered.onLayout hk, hd.counted.onLayout hd.entered hl hk, hd.kept, ⟨hd.held.routes, hd.held.nodes⟩, hd.busy⟩

/-- What two routes visit and own together, a move does not change. -/
theorem Reconciled.but_onLayout {ra' rb' : Route} (hd : Reconciled d) (hab : a ≠ b)
    (h' : ReroutesBoth d.layout a ra' b rb' l') (ha : d.layout.route? a = some ra) (hb : d.layout.route? b = some rb)
    (hperm : (ra'.clients ++ rb'.clients).Perm (ra.clients ++ rb.clients)) :
    ReconciledBut a b { d with layout := l' } where
  others {id r m} hida hidb hr := by
    have hr : l'.route? id = some r := hr
    rw [h'.route_of_ne hida hidb] at hr
    exact hd hr
  both {s t m} hs ht := by
    have hs : l'.route? a = some s := hs
    have ht : l'.route? b = some t := ht
    rw [h'.route_left] at hs
    rw [h'.route_right hab] at ht
    cases hs
    cases ht
    rw [← List.mem_append, hperm.mem_iff, List.mem_append]
    exact or_congr (hd ha) (hd hb)

/-- What there is after a move has been made, with its two routes not yet reconciled. -/
structure Moved (p : Problem) (h : Handles) (move : Move) (d : Dispatch) (a : RouteId) (ra : Route) (i : Nat)
    (b : RouteId) (rb : Route) (j : Nat) (d' : Dispatch) : Prop where
  reroutes : ∃ totalsU totalsV,
    Totals.ofTour p ra.vehicleType.toNat (d.layout.locations (move.newRoutes ra rb i j).1) = .ok totalsU ∧
    Totals.ofTour p rb.vehicleType.toNat (d.layout.locations (move.newRoutes ra rb i j).2) = .ok totalsV ∧
    ReroutesBoth d.layout a { (move.newRoutes ra rb i j).1 with totals := totalsU }
      b { (move.newRoutes ra rb i j).2 with totals := totalsV } d'.layout
  books : d' = { d with layout := d'.layout }
  current : Current p d'.layout
  reshuffles : Reshuffles d.layout d'.layout
  booked : Booked h [] d'
  unreconciled : ReconciledBut a b d'

/-- A move that applies is made, unless a total overflows. -/
theorem perform_moved (hd : Coherent p h d) (hm : AppliesAt move d.layout u v a ra i b rb j) :
    Fares (fun routes d' => routes = (a, b) ∧ Moved p h move d a ra i b rb j d') (onLayout (move.perform p u v) d) := by
  refine (Fares.onLayout (perform_fares hd.seated hd.sited hm)).mono fun routes d' hd' => ?_
  obtain ⟨l', rfl, hroutes, totalsU, totalsV, hU, hV, hr⟩ := hd'
  have hperm := move.perm_newClients ra.clients rb.clients i j
  have hre := hr.reshuffles hm.ne hm.left hm.right ⟨rfl, rfl, rfl, rfl⟩ ⟨rfl, rfl, rfl, rfl⟩ hperm
  exact ⟨hroutes, ⟨totalsU, totalsV, hU, hV, hr⟩, rfl, hr.current hd.current hU hV, hre,
    hd.booked.onLayout hd.seated hre.toKeepsRuns, Reconciled.but_onLayout hd.reconciled hm.ne hr hm.left hm.right hperm⟩

/-- After a move its two routes can be reconciled, and then everything is in order. -/
theorem Moved.reconcile_run (hd : Moved p h move d a ra i b rb j d') (hs : Sited p d.layout) (hab : a ≠ b) :
    ∃ n d'', reconcile a b d' = .ok n d'' ∧ Coherent p h d'' ∧
      (0 < d.routeHandles a → 0 < d.routeHandles b → d''.layout = d'.layout) ∧ Prunes d' d'' := by
  obtain ⟨totalsU, totalsV, -, -, hr⟩ := hd.reroutes
  obtain ⟨n, d'', hrun, hd'', hsame, hprunes⟩ := Dispatch.reconcile_run hd.booked hd.reshuffles.seated (hd.reshuffles.sited hs)
    hd.current hd.unreconciled hab hr.route_left (hr.route_right hab)
  refine ⟨n, d'', hrun, hd'', ?_, hprunes⟩
  rw [hd.books] at hsame
  exact hsame

end Dispatch
end Fleet
