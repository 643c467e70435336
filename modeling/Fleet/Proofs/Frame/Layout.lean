import Fleet.Move
import Fleet.Proofs.Layout.Lifetime
import Fleet.Proofs.Slots

/-! What changes of routes leave alone, whatever is asked for.

    No change of a route takes or vacates a slot, gives a route other depots or a node another location, and it
    overflows only where the totals of a route do. Nothing is assumed of the layout; `Keeps` puts together what the
    steps of a computation say of themselves. -/

namespace Fleet

variable {σ α β : Type}

/-! ### Computations and what they keep -/

/-- A result is as `post` says, and if a quantity has overflowed, `cause` holds of the state it did so in. -/
inductive Ends (post : α → σ → Prop) (cause : σ → Prop) : EStateM.Result Fault σ α → Prop
  | ok {a : α} {s : σ} (h : post a s) : Ends post cause (.ok a s)
  | overflow {s : σ} (h : cause s) : Ends post cause (.error .overflow s)
  | fault {fault : Fault} {s : σ} (h : fault ≠ .overflow) : Ends post cause (.error fault s)

namespace Ends
variable {post : α → σ → Prop} {cause cause' : σ → Prop} {m : EStateM Fault σ α} {s : σ}

theorem mono {post' : α → σ → Prop} {r : EStateM.Result Fault σ α} (h : Ends post cause r)
    (imp : ∀ a t, post a t → post' a t) (himp : ∀ t, cause t → cause' t) : Ends post' cause' r := by
  cases h with
  | ok h => exact .ok (imp _ _ h)
  | overflow h => exact .overflow (himp _ h)
  | fault h => exact .fault h

theorem bind {post' : β → σ → Prop} {f : α → EStateM Fault σ β} (h : Ends post cause (m s))
    (next : ∀ a t, post a t → Ends post' cause (f a t)) : Ends post' cause ((m >>= f) s) := by
  generalize hr : m s = r at h
  cases h with
  | ok h =>
    rw [bind_ok hr]
    exact next _ _ h
  | overflow h =>
    rw [bind_error hr]
    exact .overflow h
  | fault h =>
    rw [bind_error hr]
    exact .fault h

/-- What else is known of the results and of the faults, together with this. -/
theorem faresUnless {fails : Fault → σ → Prop} {post' : α → σ → Prop} {r : EStateM.Result Fault σ α} (h : Ends post cause r)
    (h' : FaresUnless fails post' r) :
    FaresUnless (fun fault t => fails fault t ∧ (fault = .overflow → cause t)) (fun a t => post' a t ∧ post a t) r := by
  cases h with
  | ok h =>
    cases h' with
    | ok h' => exact .ok ⟨h', h⟩
  | overflow h =>
    cases h' with
    | fault h' => exact .fault ⟨h', fun _ => h⟩
  | fault h =>
    cases h' with
    | fault h' => exact .fault ⟨h', fun heq => absurd heq h⟩

/-- A computation that passes all checks can only end as this one does. -/
theorem fares {post' : α → σ → Prop} {r : EStateM.Result Fault σ α} (h : Ends post cause r) (h' : Fares post' r) :
    FaresUnless (Overflows cause) (fun a t => post' a t ∧ post a t) r :=
  (h.faresUnless (FaresUnless.of_fares h')).mono (fun _ _ hfault => ⟨hfault.1.1, hfault.2 hfault.1.1⟩) fun _ _ h => h

end Ends

theorem FaresUnless.ends {fails : Fault → σ → Prop} {post : α → σ → Prop} {cause : σ → Prop}
    {r : EStateM.Result Fault σ α} (h : FaresUnless fails post r) (hcause : ∀ t, fails .overflow t → cause t) :
    Ends post cause r := by
  cases h with
  | ok h => exact .ok h
  | @fault fault s h =>
    by_cases hfault : fault = .overflow
    · subst hfault
      exact .overflow (hcause s h)
    · exact .fault hfault

/-- What else is known of the results may come in along the way. -/
theorem Ends.and {fails : Fault → σ → Prop} {post post' : α → σ → Prop} {cause : σ → Prop}
    {r : EStateM.Result Fault σ α} (h : Ends post cause r) (h' : FaresUnless fails post' r) :
    Ends (fun a t => post' a t ∧ post a t) cause r :=
  (h.faresUnless h').ends fun _ hcause => hcause.2 rfl

/-- Wherever a computation starts, it ends in a state that `R` relates to the start. -/
def Keeps (R : σ → σ → Prop) (cause : σ → Prop) (m : EStateM Fault σ α) : Prop :=
  ∀ s, Ends (fun _ t => R s t) cause (m s)

namespace Keeps
variable {R : σ → σ → Prop} {cause cause' : σ → Prop} {m : EStateM Fault σ α} {f : α → EStateM Fault σ β}

theorem mono {R' : σ → σ → Prop} (h : Keeps R cause m) (imp : ∀ s t, R s t → R' s t)
    (himp : ∀ t, cause t → cause' t) : Keeps R' cause' m :=
  fun s => (h s).mono (fun _ t => imp s t) himp

theorem of_ok {s t : σ} {a : α} (h : Keeps R cause m) (hrun : m s = .ok a t) : R s t := by
  have h := h s
  rw [hrun] at h
  cases h with
  | ok h => exact h

protected theorem throw {fault : Fault} (h : fault ≠ .overflow) : Keeps R cause (throw fault : EStateM Fault σ α) :=
  fun _ => .fault h

protected theorem modify {g : σ → σ} (h : ∀ s, R s (g s)) : Keeps R cause (modify g : EStateM Fault σ PUnit) :=
  fun s => .ok (h s)

protected theorem modifyGet {g : σ → α × σ} (h : ∀ s, R s (g s).2) :
    Keeps R cause (modifyGet g : EStateM Fault σ α) :=
  fun s => .ok (h s)

theorem get_bind {g : σ → EStateM Fault σ β} (next : ∀ s, Keeps R cause (g s)) :
    Keeps R cause ((get : EStateM Fault σ σ) >>= g) :=
  fun s => next s s

variable [IsPreorder σ R]

protected theorem pure (a : α) : Keeps R cause (pure a : EStateM Fault σ α) := fun s => .ok (refl s)

/-- Steps that keep the relation wherever they start may follow what keeps it from one start. -/
theorem bind_ends {s : σ} (h : Ends (fun _ t => R s t) cause (m s)) (next : ∀ a, Keeps R cause (f a)) :
    Ends (fun _ t => R s t) cause ((m >>= f) s) :=
  h.bind fun a t hst => (next a t).mono (fun _ _ htu => IsTrans.trans _ _ _ hst htu) fun _ h => h

theorem bind (h : Keeps R cause m) (next : ∀ a, Keeps R cause (f a)) : Keeps R cause (m >>= f) :=
  fun s => bind_ends (h s) next

end Keeps

namespace Layout

open Move

variable {cause : Layout → Prop}

/-! ### Slots of layouts -/

/-- All nodes of `l'` are nodes of `l` at their locations, and all its routes are routes of `l`, perhaps with other
    clients and totals. -/
structure Inherits (l l' : Layout) : Prop where
  node : ∀ m n', l'.node? m = some n' → ∃ n, l.node? m = some n ∧ n'.location = n.location
  route : ∀ id r', l'.route? id = some r' → ∃ r, l.route? id = some r ∧ SameRun r r'

namespace Inherits

variable {l l' l'' : Layout}

theorem refl (l : Layout) : Inherits l l := ⟨fun _ n hn => ⟨n, hn, rfl⟩, fun _ r hr => ⟨r, hr, .refl r⟩⟩

theorem trans (h : Inherits l l') (h' : Inherits l' l'') : Inherits l l'' where
  node m n'' hn'' := by
    obtain ⟨n', hn', hlocation'⟩ := h'.node m n'' hn''
    obtain ⟨n, hn, hlocation⟩ := h.node m n' hn'
    exact ⟨n, hn, hlocation'.trans hlocation⟩
  route id r'' hr'' := by
    obtain ⟨r', hr', hs'⟩ := h'.route id r'' hr''
    obtain ⟨r, hr, hs⟩ := h.route id r' hr'
    exact ⟨r, hr, hs.trans hs'⟩

end Inherits

/-- The same slots are taken and the same keys come next; nodes keep their locations and routes their depots. -/
structure SameSlots (l l' : Layout) : Prop where
  nodes : l'.nodes.outline = l.nodes.outline
  routes : l'.routes.outline = l.routes.outline
  inherits : Inherits l l'

instance : IsPreorder Layout SameSlots where
  refl l := ⟨rfl, rfl, .refl l⟩
  trans _ _ _ h h' := ⟨h'.nodes.trans h.nodes, h'.routes.trans h.routes, h.inherits.trans h'.inherits⟩

/-- In layouts in order slots may be taken, and nothing else happens to the slots; routes keep their depots. -/
structure Grows (l l' : Layout) : Prop where
  nodes : l.nodes.WellFormed → l'.nodes.WellFormed ∧ Pool.Fills l.nodes l'.nodes
  routes : l.routes.WellFormed → l'.routes.WellFormed ∧ Pool.Fills l.routes l'.routes
  runs : l.routes.WellFormed → ∀ id r, l.route? id = some r → ∃ r', l'.route? id = some r' ∧ SameRun r r'

instance : IsPreorder Layout Grows where
  refl l := ⟨fun h => ⟨h, .refl l.nodes⟩, fun h => ⟨h, .refl l.routes⟩, fun _ _ r hr => ⟨r, hr, .refl r⟩⟩
  trans _ _ _ h h' := {
    nodes := fun hn => ⟨(h'.nodes (h.nodes hn).1).1, (h.nodes hn).2.trans (h'.nodes (h.nodes hn).1).2⟩
    routes := fun hr => ⟨(h'.routes (h.routes hr).1).1, (h.routes hr).2.trans (h'.routes (h.routes hr).1).2⟩
    runs := fun hw id r hr => by
      obtain ⟨r', hr', hs⟩ := h.runs hw id r hr
      obtain ⟨r'', hr'', hs'⟩ := h'.runs (h.routes hw).1 id r' hr'
      exact ⟨r'', hr'', hs.trans hs'⟩ }

theorem SameSlots.grows {l l' : Layout} (h : SameSlots l l') : Grows l l' where
  nodes hn := ⟨hn.of_outline h.nodes, .of_outline h.nodes⟩
  routes hr := ⟨hr.of_outline h.routes, .of_outline h.routes⟩
  runs _ id r hr := by
    have halive : (l'.routes.get? id.key).isSome := by
      rw [Pool.get?_isSome_iff, Pool.slot?_eq_of_outline h.routes]
      exact Pool.slot?_of_get? hr
    obtain ⟨r', hr'⟩ := Option.isSome_iff_exists.mp halive
    obtain ⟨s, hs, hrun⟩ := h.inherits.route id r' hr'
    rw [hr] at hs
    cases hs
    exact ⟨r', hr', hrun⟩

/-- The totals of some route overflow. -/
def Strained (p : Problem) (l : Layout) : Prop :=
  ∃ id r, l.route? id = some r ∧ Totals.ofTour p r.vehicleType.toNat (l.locations r) = .error .overflow

/-! ### Single routes -/

section
variable {id : RouteId} {node : NodeId} {l : Layout} {r r' : Route} {n n' : Node}

/-- Only a route that is there goes on. -/
theorem route_bind_keeps {f : Route → LayoutM α}
    (next : ∀ l r, l.route? id = some r → Ends (fun _ l' => SameSlots l l') cause (f r l)) :
    Keeps SameSlots cause (route id >>= f) := by
  intro l
  cases hr : l.route? id with
  | none =>
    rw [bind_error (route_refused hr)]
    exact .fault (by simp)
  | some r =>
    rw [bind_ok (route_run hr)]
    exact next l r hr

/-- Only a node that is there goes on. -/
theorem visited_bind_keeps {f : Node → LayoutM α}
    (next : ∀ l n, l.node? node = some n → Ends (fun _ l' => SameSlots l l') cause (f n l)) :
    Keeps SameSlots cause (visited node >>= f) := by
  intro l
  cases hn : l.node? node with
  | none =>
    rw [bind_error (visited_error hn)]
    exact .fault (by simp)
  | some n =>
    rw [bind_ok (visited_run hn)]
    exact next l n hn

theorem setRoute_ends (hr : l.route? id = some r) (hs : SameRun r r') :
    Ends (fun _ l' => SameSlots l l') cause (setRoute id r' l) := by
  refine .ok ⟨rfl, Pool.outline_set l.routes id.key r', fun m n hn => ⟨n, hn, rfl⟩, fun x s hx => ?_⟩
  change (l.routes.set id.key r').get? x.key = some s at hx
  rw [Pool.get?_set_of_get? (show l.routes.get? id.key = some r from hr)] at hx
  split at hx
  · rename_i heq
    rw [← routeId_eq_iff] at heq
    cases hx
    exact ⟨r, heq ▸ hr, hs⟩
  · exact ⟨s, hx, .refl s⟩

theorem setNode_ends (hn : l.node? node = some n) (hlocation : n'.location = n.location) :
    Ends (fun _ l' => SameSlots l l') cause (setNode node n' l) := by
  refine .ok ⟨Pool.outline_set l.nodes node.key n', rfl, fun x s hx => ?_, fun id r hr => ⟨r, hr, .refl r⟩⟩
  change (l.nodes.set node.key n').get? x.key = some s at hx
  rw [Pool.get?_set_of_get? (show l.nodes.get? node.key = some n from hn)] at hx
  split at hx
  · rename_i heq
    rw [← eq_iff_key_eq] at heq
    cases hx
    exact ⟨n, heq ▸ hn, hlocation⟩
  · exact ⟨s, hx, rfl⟩

end

theorem seat_keeps (id : RouteId) (nodes : List NodeId) (position : Nat) :
    Keeps SameSlots cause (seat id position nodes) := by
  induction nodes generalizing position with
  | nil => exact .pure ()
  | cons node nodes ih =>
    exact visited_bind_keeps fun _ _ hn => Keeps.bind_ends (setNode_ends hn rfl) fun _ => ih (position + 1)

theorem seatFrom_keeps (id : RouteId) (position : Nat) : Keeps SameSlots cause (seatFrom id position) :=
  route_bind_keeps fun l _ _ => seat_keeps id _ position l

theorem unseat_keeps (node : NodeId) : Keeps SameSlots cause (unseat node) :=
  visited_bind_keeps fun _ _ hn => setNode_ends hn rfl

theorem unseatAll_keeps (nodes : List NodeId) : Keeps SameSlots cause (unseatAll nodes) := by
  induction nodes with
  | nil => exact .pure ()
  | cons node nodes ih => exact (unseat_keeps node).bind fun _ => ih

theorem append_keeps (id : RouteId) (node : NodeId) : Keeps SameSlots cause (append id node) :=
  route_bind_keeps fun _ _ hr => Keeps.bind_ends (setRoute_ends hr (.of_clients _ _)) fun _ => seatFrom_keeps id _

theorem insertAt_keeps (id : RouteId) (position : Nat) (node : NodeId) :
    Keeps SameSlots cause (insertAt id position node) := by
  refine route_bind_keeps fun l r hr => ?_
  split
  · exact .fault (by simp)
  · rw [get_bind_run]
    split
    · exact Keeps.bind_ends (setRoute_ends hr (.of_clients _ _)) fun _ => seatFrom_keeps id position
    · exact .fault (by simp)

theorem removeAt_keeps (id : RouteId) (position : Nat) : Keeps SameSlots cause (removeAt id position) := by
  refine route_bind_keeps fun l r hr => ?_
  cases r.client? position with
  | none => exact .fault (by simp)
  | some node =>
    exact Keeps.bind_ends (setRoute_ends hr (.of_clients _ _)) fun _ => (unseat_keeps node).bind fun _ =>
      (seatFrom_keeps id position).bind fun _ => .pure node

theorem removeMany_keeps (id : RouteId) (position count : Nat) :
    Keeps SameSlots cause (removeMany id position count) := by
  induction count with
  | zero => exact .pure ()
  | succ count ih => exact (removeAt_keeps id position).bind fun _ => ih

theorem insertMany_keeps (id : RouteId) (nodes : List NodeId) (position : Nat) :
    Keeps SameSlots cause (insertMany id position nodes) := by
  induction nodes generalizing position with
  | nil => exact .pure ()
  | cons node nodes ih => exact (insertAt_keeps id position node).bind fun _ => ih (position + 1)

theorem appendMany_keeps (id : RouteId) (nodes : List NodeId) : Keeps SameSlots cause (appendMany id nodes) := by
  induction nodes with
  | nil => exact .pure ()
  | cons node nodes ih => exact (append_keeps id node).bind fun _ => ih

theorem clear_keeps (id : RouteId) : Keeps SameSlots cause (clear id) :=
  route_bind_keeps fun _ r hr => Keeps.bind_ends (setRoute_ends hr (.of_clients _ _)) fun _ =>
    (unseatAll_keeps r.clients).bind fun _ => seatFrom_keeps id 1

/-- The totals of the route itself are the only ones that are computed. -/
theorem refresh_keeps (p : Problem) (id : RouteId) : Keeps SameSlots (Strained p) (refresh p id) := by
  refine (seatFrom_keeps id 0).bind fun _ => route_bind_keeps fun l r hr => ?_
  rw [get_bind_run]
  cases htotals : Totals.ofTour p r.vehicleType.toNat (l.locations r) with
  | ok totals => exact setRoute_ends hr ⟨rfl, rfl, rfl, rfl⟩
  | error fault =>
    by_cases hfault : fault = .overflow
    · rw [hfault] at htotals ⊢
      exact .overflow ⟨id, r, hr, htotals⟩
    · exact .fault hfault

/-! ### New nodes and routes -/

theorem addNode_keeps (location : UInt64) : Keeps Grows cause (addNode location) := by
  intro l
  unfold addNode
  rw [get_bind_run]
  rcases takeSlot_cases l.nodes { location } l with ⟨hroom, hrun⟩ | ⟨_, ⟨-, rfl⟩, hrun⟩
  · rw [bind_ok hrun]
    exact .ok ⟨fun h => ⟨h.insert hroom _, .insert h _⟩, fun h => ⟨h, .refl _⟩, fun _ _ r hr => ⟨r, hr, .refl r⟩⟩
  · rw [bind_error hrun]
    exact .fault (by simp)

theorem addRoute_keeps (idx : Nat) (vehicleType : UInt64) (start finish : NodeId) :
    Keeps Grows cause (addRoute idx vehicleType start finish) := by
  obtain ⟨r, hr⟩ : ∃ r : Route, r = { idx, vehicleType, start, clients := [], finish } := ⟨_, rfl⟩
  intro l
  unfold addRoute
  rw [get_bind_run, ← hr]
  rcases takeSlot_cases l.routes r l with ⟨hroom, hrun⟩ | ⟨_, ⟨-, rfl⟩, hrun⟩
  · rw [bind_ok hrun, modify_bind_run]
    have hopens : Grows l { l with routes := (l.routes.insert fun _ => r).2 } :=
      ⟨fun h => ⟨h, .refl _⟩, fun h => ⟨h.insert hroom _, .insert h _⟩,
        fun h _ r hr => ⟨r, h.get?_insert_of_some hr _, .refl r⟩⟩
    have hseats : Keeps Grows cause (seatFrom ⟨l.routes.nextKey⟩ 0) :=
      (seatFrom_keeps _ 0).mono (fun _ _ => SameSlots.grows) fun _ h => h
    rw [Pool.insert_fst]
    exact ((hseats.bind fun _ => .pure _) _).mono (fun _ _ hs => IsTrans.trans _ _ _ hopens hs) fun _ h => h
  · rw [bind_error hrun]
    exact .fault (by simp)

end Layout

/-! ### Moves -/

namespace Move

open Layout

theorem rearrange_keeps {cause : Layout → Prop} (move : Move) (siteU siteV : Site) (routeU routeV : Route) :
    Keeps SameSlots cause (move.rearrange siteU siteV routeU routeV) := by
  cases move with
  | exchange n m =>
    exact (removeMany_keeps _ _ n.toNat).bind fun _ => (removeMany_keeps _ _ m.toNat).bind fun _ =>
      (insertMany_keeps _ _ _).bind fun _ => insertMany_keeps _ _ _
  | swapTails =>
    exact (removeMany_keeps _ _ _).bind fun _ => (removeMany_keeps _ _ _).bind fun _ =>
      (appendMany_keeps _ _).bind fun _ => appendMany_keeps _ _

/-- Once its places are found, a move overflows only where the totals of a route do. -/
theorem perform_ends {p : Problem} {move : Move} {l : Layout} {u v : NodeId} {siteU siteV : Site}
    (hsites : move.sites? l u v = .ok (some (siteU, siteV))) :
    Ends (fun _ l' => SameSlots l l') (Strained p) (move.perform p u v l) := by
  unfold perform
  rw [get_bind_run, hsites]
  simp only [LayoutM.ofResult, pure_bind]
  cases l.routePair? siteU.route siteV.route with
  | none => exact .fault (by simp)
  | some routes =>
    exact ((rearrange_keeps move siteU siteV routes.1 routes.2).bind fun _ => (refresh_keeps p siteU.route).bind fun _ =>
      (refresh_keeps p siteV.route).bind fun _ => .pure (siteU.route, siteV.route)) l

theorem perform_keeps (p : Problem) (move : Move) (u v : NodeId) :
    Keeps SameSlots (fun _ => True) (move.perform p u v) := by
  intro l
  cases hsites : move.sites? l u v with
  | error fault =>
    unfold perform
    rw [get_bind_run, hsites]
    by_cases hfault : fault = .overflow
    · subst hfault
      exact .overflow trivial
    · exact .fault hfault
  | ok sites =>
    cases sites with
    | none =>
      unfold perform
      rw [get_bind_run, hsites]
      exact .fault (by simp)
    | some sites => exact (perform_ends hsites).mono (fun _ _ h => h) fun _ _ => trivial

end Move
end Fleet
