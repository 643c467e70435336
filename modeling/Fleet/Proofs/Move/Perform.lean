import Fleet.Proofs.Move.Rearrange

/-! What a move does where it applies, and what was predicted of it.

    A move is made or refused by its places alone (`AppliesAt`), unless their numbers are out of range (`Oversized`).
    The prediction computes the totals of the very tours that making the move computes again, so where the one does
    not overflow the other does not either. -/

namespace Fleet
namespace Move

open Layout

variable {p : Problem} {penalties : Penalties} {l l' : Layout} {move : Move} {u v : NodeId} {a b : RouteId}
  {ra rb : Route} {i j : Nat}

/-! ### Places -/

theorem site?_eq_some_iff (h : Seated l) : site? l u = some ⟨a, i⟩ ↔ ∃ r, l.route? a = some r ∧ r.visits[i]? = some u := by
  unfold site?
  constructor
  · intro hs
    obtain ⟨n, hn, hs⟩ := Option.bind_eq_some_iff.mp hs
    obtain ⟨id, hid, hs⟩ := Option.bind_eq_some_iff.mp hs
    cases hs
    exact h.visit hn hid
  · rintro ⟨r, hr, hu⟩
    obtain ⟨n, hn, hid, hpos⟩ := h.seat hr hu
    simp [hn, hid, hpos]

/-- Two nodes are visits of different routes. -/
structure PlacedAt (l : Layout) (u v : NodeId) (a : RouteId) (ra : Route) (i : Nat) (b : RouteId) (rb : Route)
    (j : Nat) : Prop where
  ne : a ≠ b
  left : l.route? a = some ra
  right : l.route? b = some rb
  visitU : ra.visits[i]? = some u
  visitV : rb.visits[j]? = some v

/-- A move applies to two nodes: they are visits of different routes, at positions where it fits. -/
structure AppliesAt (move : Move) (l : Layout) (u v : NodeId) (a : RouteId) (ra : Route) (i : Nat) (b : RouteId)
    (rb : Route) (j : Nat) : Prop extends PlacedAt l u v a ra i b rb j where
  fits : move.fits i ra.clients.length j rb.clients.length = .ok true

/-- A move applies to two nodes somewhere. -/
def Applies (move : Move) (l : Layout) (u v : NodeId) : Prop := ∃ a ra i b rb j, AppliesAt move l u v a ra i b rb j

/-- The nodes are visits of different routes, but a position that a move looks at there is out of range. -/
def Oversized (move : Move) (l : Layout) (u v : NodeId) : Prop :=
  ∃ a ra i b rb j, PlacedAt l u v a ra i b rb j ∧ move.Exceeds i ra.clients.length j

/-- An exchange of so many clients that their number alone is almost out of range. -/
def IsHuge : Move → Prop
  | .exchange n _ _ _ => 2 ^ 64 - 2 ^ 32 < n.toNat
  | .swapTails => False

/-- No position of a route comes near the bound for words: only the sizes of an exchange do. -/
theorem Oversized.isHuge (h : Seated l) (hm : Oversized move l u v) : move.IsHuge := by
  obtain ⟨a, ra, i, b, rb, j, hplaced, hexceeds⟩ := hm
  have hi := (List.getElem?_eq_some_iff.mp hplaced.visitU).1
  have hj := (List.getElem?_eq_some_iff.mp hplaced.visitV).1
  have hra := h.length_visits_le hplaced.left
  have hrb := h.length_visits_le hplaced.right
  cases move with
  | exchange n m pos le =>
    have hle : m.toNat ≤ n.toNat := UInt64.le_iff_toNat_le.mp le
    unfold IsHuge
    unfold Exceeds at hexceeds
    omega
  | swapTails => exact hexceeds

theorem places?_eq_some_iff (h : Seated l) :
    places? l u v = some ((⟨a, i⟩, ra), (⟨b, j⟩, rb)) ↔ PlacedAt l u v a ra i b rb j := by
  unfold places?
  constructor
  · intro hplaces
    obtain ⟨⟨a', i'⟩, hu, hplaces⟩ := Option.bind_eq_some_iff.mp hplaces
    obtain ⟨⟨b', j'⟩, hv, hplaces⟩ := Option.bind_eq_some_iff.mp hplaces
    split at hplaces
    · cases hplaces
    · rename_i hne
      obtain ⟨ra', hra, hplaces⟩ := Option.bind_eq_some_iff.mp hplaces
      obtain ⟨rb', hrb, hplaces⟩ := Option.bind_eq_some_iff.mp hplaces
      cases hplaces
      obtain ⟨ra', hra', hvisitU⟩ := (site?_eq_some_iff h).mp hu
      obtain ⟨rb', hrb', hvisitV⟩ := (site?_eq_some_iff h).mp hv
      cases hra.symm.trans hra'
      cases hrb.symm.trans hrb'
      exact ⟨hne, hra, hrb, hvisitU, hvisitV⟩
  · intro hplaced
    have hu := (site?_eq_some_iff h).mpr ⟨ra, hplaced.left, hplaced.visitU⟩
    have hv := (site?_eq_some_iff h).mpr ⟨rb, hplaced.right, hplaced.visitV⟩
    simp [hu, hv, hplaced.ne, hplaced.left, hplaced.right]

/-- The places of two nodes are unique. -/
theorem PlacedAt.unique {a' b' : RouteId} {ra' rb' : Route} {i' j' : Nat} (hl : Seated l)
    (h : PlacedAt l u v a ra i b rb j) (h' : PlacedAt l u v a' ra' i' b' rb' j') :
    a = a' ∧ ra = ra' ∧ i = i' ∧ b = b' ∧ rb = rb' ∧ j = j' := by
  have heq := (places?_eq_some_iff hl).mpr h
  rw [(places?_eq_some_iff hl).mpr h'] at heq
  cases heq
  exact ⟨rfl, rfl, rfl, rfl, rfl, rfl⟩

theorem sites?_of_placedAt (h : Seated l) (hplaced : PlacedAt l u v a ra i b rb j) : move.sites? l u v = (do
    let fits ← move.fits i ra.clients.length j rb.clients.length
    return if fits then some (⟨a, i⟩, ⟨b, j⟩) else none) := by
  unfold sites?
  rw [(places?_eq_some_iff h).mpr hplaced]

theorem sites?_of_appliesAt (h : Seated l) (hm : AppliesAt move l u v a ra i b rb j) :
    move.sites? l u v = .ok (some (⟨a, i⟩, ⟨b, j⟩)) := by
  rw [sites?_of_placedAt h hm.toPlacedAt, hm.fits]
  rfl

theorem sites?_of_not_placed (h : Seated l) (hplaced : ∀ a ra i b rb j, ¬PlacedAt l u v a ra i b rb j) :
    move.sites? l u v = .ok none := by
  unfold sites?
  cases hplaces : places? l u v with
  | none => rfl
  | some places =>
    obtain ⟨⟨⟨a, i⟩, ra⟩, ⟨⟨b, j⟩, rb⟩⟩ := places
    exact absurd ((places?_eq_some_iff h).mp hplaces) (hplaced a ra i b rb j)

/-- A move applies to two nodes, or it does not, or this cannot be found out. -/
theorem sites?_cases (h : Seated l) (move : Move) (u v : NodeId) :
    (∃ a ra i b rb j, AppliesAt move l u v a ra i b rb j) ∨
      (¬Applies move l u v ∧ ¬Oversized move l u v ∧ move.sites? l u v = .ok none) ∨
      (¬Applies move l u v ∧ Oversized move l u v ∧ move.sites? l u v = .error .overflow) := by
  cases hplaces : places? l u v with
  | none =>
    have hnone : ∀ a ra i b rb j, ¬PlacedAt l u v a ra i b rb j := fun a ra i b rb j hplaced => by
      rw [(places?_eq_some_iff h).mpr hplaced] at hplaces
      cases hplaces
    refine .inr (.inl ⟨?_, ?_, sites?_of_not_placed h hnone⟩)
    · rintro ⟨a, ra, i, b, rb, j, hm⟩
      exact hnone _ _ _ _ _ _ hm.toPlacedAt
    · rintro ⟨a, ra, i, b, rb, j, hplaced, -⟩
      exact hnone _ _ _ _ _ _ hplaced
  | some places =>
    obtain ⟨⟨⟨a, i⟩, ra⟩, ⟨⟨b, j⟩, rb⟩⟩ := places
    have hplaced := (places?_eq_some_iff h).mp hplaces
    have hfits : Applies move l u v → move.fits i ra.clients.length j rb.clients.length = .ok true := by
      rintro ⟨a', ra', i', b', rb', j', hm⟩
      obtain ⟨rfl, rfl, rfl, rfl, rfl, rfl⟩ := hm.unique h hplaced
      exact hm.fits
    have hexceeds : Oversized move l u v → move.Exceeds i ra.clients.length j := by
      rintro ⟨a', ra', i', b', rb', j', hplaced', hexceeds⟩
      obtain ⟨rfl, rfl, rfl, rfl, rfl, rfl⟩ := hplaced'.unique h hplaced
      exact hexceeds
    rw [sites?_of_placedAt h hplaced]
    rcases move.fits_cases i ra.clients.length j rb.clients.length with ⟨hin, fits, heq⟩ | ⟨hout, heq⟩
    · cases fits with
      | true => exact .inl ⟨a, ra, i, b, rb, j, hplaced, heq⟩
      | false =>
        refine .inr (.inl ⟨fun hm => ?_, fun hover => hin (hexceeds hover), by rw [heq]; rfl⟩)
        cases heq.symm.trans (hfits hm)
    · refine .inr (.inr ⟨fun hm => ?_, ⟨a, ra, i, b, rb, j, hplaced, hout⟩, by rw [heq]; rfl⟩)
      cases heq.symm.trans (hfits hm)

/-- Where a move does not apply, no places are found, or their numbers are out of range. -/
theorem sites?_of_not_applies (h : Seated l) (hm : ¬Applies move l u v) :
    move.sites? l u v = .ok none ∨ Oversized move l u v ∧ move.sites? l u v = .error .overflow := by
  rcases sites?_cases h move u v with happlies | ⟨-, -, hnone⟩ | ⟨-, hover, herror⟩
  · exact absurd happlies hm
  · exact .inl hnone
  · exact .inr ⟨hover, herror⟩

/-! ### The second look-up

    The places come with their routes: that these are there has been seen before. -/

theorem routes_of_sites? {siteU siteV : Site} (h : move.sites? l u v = .ok (some (siteU, siteV))) :
    siteU.route ≠ siteV.route ∧ ∃ ra rb, l.route? siteU.route = some ra ∧ l.route? siteV.route = some rb := by
  unfold sites? at h
  split at h
  · cases h
  · rename_i siteU' ra siteV' rb hplaces
    obtain ⟨fits, -, h⟩ := bind_eq_ok h
    cases fits with
    | false => cases h
    | true =>
      cases h
      unfold places? at hplaces
      obtain ⟨siteU', hu, hplaces⟩ := Option.bind_eq_some_iff.mp hplaces
      obtain ⟨siteV', hv, hplaces⟩ := Option.bind_eq_some_iff.mp hplaces
      split at hplaces
      · cases hplaces
      · rename_i hne
        obtain ⟨ra', hra, hplaces⟩ := Option.bind_eq_some_iff.mp hplaces
        obtain ⟨rb', hrb, hplaces⟩ := Option.bind_eq_some_iff.mp hplaces
        cases hplaces
        exact ⟨hne, ra, rb, hra, hrb⟩

theorem routePair?_eq_some_iff : l.routePair? a b = some (ra, rb) ↔ a ≠ b ∧ l.route? a = some ra ∧ l.route? b = some rb := by
  rw [Layout.routePair?, Pool.pair?_eq_some_iff, Ne, ← routeId_eq_iff]
  rfl

/-- Making a move is not refused any more once the places are found, whatever layout it is. -/
theorem routePair?_of_sites? {siteU siteV : Site} (h : move.sites? l u v = .ok (some (siteU, siteV))) :
    ∃ routes, l.routePair? siteU.route siteV.route = some routes := by
  obtain ⟨hne, ra, rb, hra, hrb⟩ := routes_of_sites? h
  exact ⟨(ra, rb), routePair?_eq_some_iff.mpr ⟨hne, hra, hrb⟩⟩

theorem perform_of_sites? {siteU siteV : Site} {routeU routeV : Route}
    (h : move.sites? l u v = .ok (some (siteU, siteV))) (hroutes : l.routePair? siteU.route siteV.route = some (routeU, routeV)) :
    move.perform p u v l = (do
      move.rearrange siteU siteV routeU routeV
      Layout.refresh p siteU.route
      Layout.refresh p siteV.route
      return (siteU.route, siteV.route)) l := by
  unfold perform
  rw [get_bind_run, h]
  simp only [LayoutM.ofResult, pure_bind, hroutes]

/-- The two routes after a move, with the totals they had. -/
def newRoutes (move : Move) (ra rb : Route) (i j : Nat) : Route × Route :=
  ({ ra with clients := (move.newClients ra.clients rb.clients i j).1 },
    { rb with clients := (move.newClients ra.clients rb.clients i j).2 })

/-! ### Making the move -/

theorem perform_of_none (h : move.sites? l u v = .ok none) :
    move.perform p u v l = .error (.refused (.inapplicable move.name u v)) l := by
  unfold perform
  rw [get_bind_run, h]
  rfl

theorem perform_of_overflow (h : move.sites? l u v = .error .overflow) :
    move.perform p u v l = .error .overflow l := by
  unfold perform
  rw [get_bind_run, h]
  rfl

theorem perform_of_appliesAt (h : Seated l) (hm : AppliesAt move l u v a ra i b rb j) :
    move.perform p u v l = (do
      move.rearrange ⟨a, i⟩ ⟨b, j⟩ ra rb
      Layout.refresh p a
      Layout.refresh p b
      return (a, b)) l :=
  perform_of_sites? (sites?_of_appliesAt h hm) (routePair?_eq_some_iff.mpr ⟨hm.ne, hm.left, hm.right⟩)

/-- Where a move applies and the totals of the new tours can be computed, it is made. -/
theorem perform_run {totalsU totalsV : Totals} (h : Seated l) (hm : AppliesAt move l u v a ra i b rb j)
    (hU : Totals.ofTour p ra.vehicleType.toNat (l.locations (move.newRoutes ra rb i j).1) = .ok totalsU)
    (hV : Totals.ofTour p rb.vehicleType.toNat (l.locations (move.newRoutes ra rb i j).2) = .ok totalsV) :
    ∃ l', move.perform p u v l = .ok (a, b) l' ∧
      ReroutesBoth l a { (move.newRoutes ra rb i j).1 with totals := totalsU }
        b { (move.newRoutes ra rb i j).2 with totals := totalsV } l' := by
  obtain ⟨l₁, hrun₁, h₁⟩ := rearrange_run h hm.ne hm.left hm.right hm.fits
  obtain ⟨l₂, hrun₂, h₂⟩ := refresh_run (p := p) h₁.seated h₁.route_left ((congrArg _ (h₁.locations _)).trans hU)
  have h₂ := h₁.then_left h₂
  obtain ⟨l₃, hrun₃, h₃⟩ := refresh_run (p := p) h₂.seated (h₂.route_right hm.ne)
    ((congrArg _ (h₂.locations _)).trans hV)
  refine ⟨l₃, ?_, h₂.then_right hm.ne h₃⟩
  rw [perform_of_appliesAt h hm, bind_ok hrun₁, bind_ok hrun₂, bind_ok hrun₃]
  rfl

/-- Only an overflow keeps the new tours of a move from their totals. -/
theorem newRoutes_compute (h : Seated l) (hl : Sited p l) (hm : AppliesAt move l u v a ra i b rb j) :
    Computes (fun _ => True) (Totals.ofTour p ra.vehicleType.toNat (l.locations (move.newRoutes ra rb i j).1)) ∧
      Computes (fun _ => True) (Totals.ofTour p rb.vehicleType.toNat (l.locations (move.newRoutes ra rb i j).2)) := by
  obtain ⟨l₁, -, h₁⟩ := rearrange_run h hm.ne hm.left hm.right hm.fits
  have hl₁ := (h₁.keepsRuns hm.left hm.right (.of_clients _ _) (.of_clients _ _)).sited hl
  have hU := hl₁.ofTour_computes h₁.seated h₁.route_left
  have hV := hl₁.ofTour_computes h₁.seated (h₁.route_right hm.ne)
  rw [h₁.locations] at hU hV
  exact ⟨hU, hV⟩

/-- A move that applies is made unless a total overflows. -/
theorem perform_fares (h : Seated l) (hl : Sited p l) (hm : AppliesAt move l u v a ra i b rb j) :
    Fares (fun routes l' => routes = (a, b) ∧ ∃ totalsU totalsV,
      Totals.ofTour p ra.vehicleType.toNat (l.locations (move.newRoutes ra rb i j).1) = .ok totalsU ∧
      Totals.ofTour p rb.vehicleType.toNat (l.locations (move.newRoutes ra rb i j).2) = .ok totalsV ∧
      ReroutesBoth l a { (move.newRoutes ra rb i j).1 with totals := totalsU }
        b { (move.newRoutes ra rb i j).2 with totals := totalsV } l') (move.perform p u v l) := by
  obtain ⟨l₁, hrun₁, h₁⟩ := rearrange_run h hm.ne hm.left hm.right hm.fits
  obtain ⟨hU, hV⟩ := newRoutes_compute h hl hm
  rw [perform_of_appliesAt h hm, bind_ok hrun₁]
  rw [← h₁.locations] at hU
  refine (refresh_fares h₁.seated h₁.route_left hU).bind fun _ l₂ h₂ => ?_
  obtain ⟨totalsU, htotalsU, h₂⟩ := h₂
  have h₂ := h₁.then_left h₂
  rw [← h₂.locations] at hV
  refine (refresh_fares h₂.seated (h₂.route_right hm.ne) hV).bind fun _ l₃ h₃ => ?_
  obtain ⟨totalsV, htotalsV, h₃⟩ := h₃
  have htotalsU := (congrArg _ (h₁.locations _)).symm.trans htotalsU
  have htotalsV := (congrArg _ (h₂.locations _)).symm.trans htotalsV
  exact .ok ⟨rfl, totalsU, totalsV, htotalsU, htotalsV, h₂.then_right hm.ne h₃⟩

/-- A move that does not apply is refused, or its positions are out of range. In both cases nothing has changed. -/
theorem perform_of_not_applies (h : Seated l) (hm : ¬Applies move l u v) :
    move.perform p u v l = .error (.refused (.inapplicable move.name u v)) l ∨
      Oversized move l u v ∧ move.perform p u v l = .error .overflow l := by
  rcases sites?_of_not_applies h hm with hnone | ⟨hsize, hover⟩
  · exact .inl (perform_of_none hnone)
  · exact .inr ⟨hsize, perform_of_overflow hover⟩

/-- Everything that a move that is made has done: its two routes have the clients that its rule gives, and their totals
    are those of the new tours. -/
theorem perform_answers (h : Seated l) (hl : Sited p l) (move : Move) (u v : NodeId) :
    Answers l (fun routes l' => ∃ a ra i b rb j totalsU totalsV,
      AppliesAt move l u v a ra i b rb j ∧ routes = (a, b) ∧
      Totals.ofTour p ra.vehicleType.toNat (l.locations (move.newRoutes ra rb i j).1) = .ok totalsU ∧
      Totals.ofTour p rb.vehicleType.toNat (l.locations (move.newRoutes ra rb i j).2) = .ok totalsV ∧
      ReroutesBoth l a { (move.newRoutes ra rb i j).1 with totals := totalsU }
        b { (move.newRoutes ra rb i j).2 with totals := totalsV } l') (move.perform p u v l) := by
  by_cases hm : Applies move l u v
  · obtain ⟨a, ra, i, b, rb, j, hm⟩ := hm
    refine .of_fares ((perform_fares h hl hm).mono fun routes l' hdone => ?_)
    obtain ⟨hroutes, totalsU, totalsV, hU, hV, hr⟩ := hdone
    exact ⟨a, ra, i, b, rb, j, totalsU, totalsV, hm, hroutes, hU, hV, hr⟩
  · rcases perform_of_not_applies (p := p) h hm with hrefused | ⟨-, hover⟩
    · rw [hrefused]
      exact .refused
    · rw [hover]
      exact .overflow

theorem perform_eq_ok {routes : RouteId × RouteId} (h : Seated l) (hl : Sited p l)
    (hrun : move.perform p u v l = .ok routes l') : ∃ a ra i b rb j totalsU totalsV,
      AppliesAt move l u v a ra i b rb j ∧ routes = (a, b) ∧
      Totals.ofTour p ra.vehicleType.toNat (l.locations (move.newRoutes ra rb i j).1) = .ok totalsU ∧
      Totals.ofTour p rb.vehicleType.toNat (l.locations (move.newRoutes ra rb i j).2) = .ok totalsV ∧
      ReroutesBoth l a { (move.newRoutes ra rb i j).1 with totals := totalsU }
        b { (move.newRoutes ra rb i j).2 with totals := totalsV } l' := by
  have hanswers := perform_answers h hl move u v
  rw [hrun] at hanswers
  cases hanswers with
  | ok hdone => exact hdone

/-- A move that is not made changes nothing, unless a total overflows. -/
theorem perform_eq_error {fault : Fault} (h : Seated l) (hl : Sited p l)
    (hrun : move.perform p u v l = .error fault l') (hfault : fault ≠ .overflow) : l' = l := by
  have hanswers := perform_answers h hl move u v
  rw [hrun] at hanswers
  cases hanswers with
  | overflow => exact absurd rfl hfault
  | refused => rfl

/-! ### The prediction -/

/-- A move that does not apply is predicted to change nothing. -/
theorem costChange_of_none (h : move.sites? l u v = .ok none) : move.costChange p penalties l u v = .ok 0 := by
  unfold costChange
  rw [h]
  rfl

theorem costChange_of_overflow (h : move.sites? l u v = .error .overflow) :
    move.costChange p penalties l u v = .error .overflow := by
  unfold costChange
  rw [h]
  rfl

/-- The predicted tours are those of the new routes. -/
theorem newTours_locations (h : Seated l) (hm : AppliesAt move l u v a ra i b rb j) :
    move.newTours (l.locations ra) (l.locations rb) i j =
      .ok (l.locations (move.newRoutes ra rb i j).1, l.locations (move.newRoutes ra rb i j).2) := by
  obtain ⟨l₁, -, h₁⟩ := rearrange_run h hm.ne hm.left hm.right hm.fits
  have hU := h₁.seated.locations_eq h₁.route_left
  have hV := h₁.seated.locations_eq (h₁.route_right hm.ne)
  have hlocation : l₁.locationOf = l.locationOf := funext h₁.locationOf
  rw [h₁.locations, hlocation, visits_eq_between, map_between] at hU hV
  have hlength : ∀ ms : List NodeId, ms.length = (ms.map l.locationOf).length := fun _ => (List.length_map _).symm
  have hfits := hm.fits
  rw [hlength ra.clients, hlength rb.clients] at hfits
  rw [h.locations_eq hm.left, h.locations_eq hm.right, visits_eq_between, visits_eq_between, map_between, map_between,
    newTours_run hfits, newClients_map]
  exact congrArg Except.ok (Prod.ext hU.symm hV.symm)

/-- What is predicted is the cost of both new tours less that of the routes as they are. -/
theorem costChange_eq_ok {delta : Int} (h : Seated l) (hm : AppliesAt move l u v a ra i b rb j)
    (heq : move.costChange p penalties l u v = .ok delta) :
    ∃ totalsU totalsV oldU oldV newU newV,
      Totals.ofTour p ra.vehicleType.toNat (l.locations (move.newRoutes ra rb i j).1) = .ok totalsU ∧
      Totals.ofTour p rb.vehicleType.toNat (l.locations (move.newRoutes ra rb i j).2) = .ok totalsV ∧
      penalties.cost p ra.vehicleType.toNat ra.totals = .ok oldU ∧
      penalties.cost p rb.vehicleType.toNat rb.totals = .ok oldV ∧
      penalties.cost p ra.vehicleType.toNat totalsU = .ok newU ∧
      penalties.cost p rb.vehicleType.toNat totalsV = .ok newV ∧ delta = newU + newV - (oldU + oldV) := by
  unfold costChange at heq
  simp only [sites?_of_appliesAt h hm, hm.left, hm.right, newTours_locations h hm, ok_bind] at heq
  obtain ⟨oldU, holdU, heq⟩ := bind_eq_ok heq
  obtain ⟨oldV, holdV, heq⟩ := bind_eq_ok heq
  obtain ⟨old, hold, heq⟩ := bind_eq_ok heq
  obtain ⟨newU, hnewU, heq⟩ := bind_eq_ok heq
  obtain ⟨newV, hnewV, heq⟩ := bind_eq_ok heq
  obtain ⟨new, hnew, heq⟩ := bind_eq_ok heq
  obtain ⟨totalsU, htotalsU, hnewU⟩ := bind_eq_ok hnewU
  obtain ⟨totalsV, htotalsV, hnewV⟩ := bind_eq_ok hnewV
  refine ⟨totalsU, totalsV, oldU, oldV, newU, newV, htotalsU, htotalsV, holdU, holdV, hnewU, hnewV, ?_⟩
  rw [checked_eq_ok heq, checked_eq_ok hnew, checked_eq_ok hold]

/-- Only an overflow keeps a move from its prediction. -/
theorem costChange_computes (h : Seated l) (hl : Sited p l) :
    Computes (fun _ => True) (move.costChange p penalties l u v) := by
  by_cases hm : Applies move l u v
  · obtain ⟨a, ra, i, b, rb, j, hm⟩ := hm
    have hvU := hl.vehicleType_lt hm.left
    have hvV := hl.vehicleType_lt hm.right
    obtain ⟨hU, hV⟩ := newRoutes_compute h hl hm
    unfold costChange
    simp only [sites?_of_appliesAt h hm, hm.left, hm.right, newTours_locations h hm, ok_bind]
    refine (Penalties.cost_computes hvU _).bind fun _ _ => ?_
    refine (Penalties.cost_computes hvV _).bind fun _ _ => ?_
    refine (Computes.checked _).bind fun _ _ => ?_
    refine (hU.bind fun _ _ => Penalties.cost_computes hvU _).bind fun _ _ => ?_
    refine (hV.bind fun _ _ => Penalties.cost_computes hvV _).bind fun _ _ => ?_
    refine (Computes.checked _).bind fun _ _ => ?_
    exact (Computes.checked _).mono fun _ _ => trivial
  · rcases sites?_of_not_applies h hm with hnone | ⟨-, hover⟩
    · exact .of_ok (costChange_of_none hnone) trivial
    · rw [costChange_of_overflow hover]
      exact .overflow

/-- The move applies and the tours that it leads to are known, but what they or the present ones cost overflows; or it
    exchanges so many clients that a position it looks at is out of range. -/
def Strained (p : Problem) (penalties : Penalties) (l : Layout) (move : Move) (u v : NodeId) : Prop :=
  (∃ a ra i b rb j, AppliesAt move l u v a ra i b rb j ∧
    (∃ tours, move.newTours (l.locations ra) (l.locations rb) i j = .ok tours) ∧
    move.costChange p penalties l u v = .error .overflow) ∨ move.IsHuge ∧ Oversized move l u v

theorem strained_of_overflow (h : Seated l) (hover : move.costChange p penalties l u v = .error .overflow) :
    move.Strained p penalties l u v := by
  by_cases hm : Applies move l u v
  · obtain ⟨a, ra, i, b, rb, j, hm⟩ := hm
    exact .inl ⟨a, ra, i, b, rb, j, hm, ⟨_, newTours_locations h hm⟩, hover⟩
  · rcases sites?_of_not_applies h hm with hnone | ⟨hsize, -⟩
    · rw [costChange_of_none hnone] at hover
      cases hover
    · exact .inr ⟨hsize.isHuge h, hsize⟩

end Move
end Fleet
