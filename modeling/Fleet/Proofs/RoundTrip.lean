import Fleet.Plan
import Fleet.Problem.Format
import Fleet.Proofs.Acceptance
import Fleet.Proofs.Json.Record

/-! Problems and plans read back as themselves. -/

namespace Fleet

open Json Recovers

/-! ### Records -/

theorem Depot.recovers : Recovers Depot.ofForm? Depot.toValue := by
  refine .record (by decide : fieldNames.Nodup) (fun _ => rfl) (fun _ => rfl) (fun depot => ?_)
    fun depot form fields hfields hlookup => ?_
  · simp [int64.legible]
  · simp [ofForm?, hfields, Fields.required?, Fields.withDefault?, hlookup, List.lookup_cons, int64.read]

theorem Client.recovers : Recovers Client.ofForm? Client.toValue := by
  refine .record (by decide : fieldNames.Nodup) (fun _ => rfl) (fun _ => rfl) (fun client => ?_)
    fun client form fields hfields hlookup => ?_
  · cases client.group <;> simp [int64.legible, uint64.legible, bool.legible, Value.Legible.null]
  · -- The one field that may be `null`.
    have hnull : Form.maybe? Form.uint64? Value.null.sorted.toForm = some none := rfl
    have hgroup : ∀ g : UInt64, Form.maybe? Form.uint64? (Value.ofUInt64 g).sorted.toForm = some (some g) := fun g =>
      uint64.maybe_some (a := g) (by simp [Value.ofUInt64, Value.sorted, Value.toForm])
    obtain ⟨x, y, delivery, serviceDuration, window, prize, required, group⟩ := client
    cases group <;> simp [ofForm?, hfields, Fields.required?, Fields.withDefault?, hlookup, List.lookup_cons, int64.read,
      bool.read, hnull, hgroup]

theorem VehicleType.recovers : Recovers VehicleType.ofForm? VehicleType.toValue := by
  refine .record (by decide : fieldNames.Nodup) (fun _ => rfl) (fun _ => rfl) (fun vehicleType => ?_)
    fun vehicleType form fields hfields hlookup => ?_
  · simp [int64.legible, uint64.legible]
  · simp [ofForm?, hfields, Fields.withDefault?, hlookup, List.lookup_cons, int64.read, uint64.read]

theorem Group.recovers : Recovers Group.ofForm? Group.toValue := by
  refine .record (by decide : fieldNames.Nodup) (fun _ => rfl) (fun _ => rfl) (fun group => ?_)
    fun group form fields hfields hlookup => ?_
  · simp [uint64.list.legible, bool.legible]
  · simp [ofForm?, hfields, Fields.required?, Fields.withDefault?, hlookup, List.lookup_cons, uint64.list.read, bool.read]

theorem Tour.recovers : Recovers Tour.ofForm? Tour.toValue := by
  refine .record (by decide : fieldNames.Nodup) (fun _ => rfl) (fun _ => rfl) (fun tour => ?_)
    fun tour form fields hfields hlookup => ?_
  · simp [uint64.list.legible, uint64.legible]
  · simp [ofForm?, hfields, Fields.required?, Fields.withDefault?, hlookup, List.lookup_cons, uint64.list.read, uint64.read]

namespace Problem

theorem rows_recovers : Recovers rowsOfForm? rowsToValue := int64.list.list.list

theorem Draft.recovers : Recovers Draft.ofForm? Draft.toValue := by
  refine .record (by decide : fieldNames.Nodup) (fun _ => rfl) (fun _ => rfl) (fun draft => ?_)
    fun draft form fields hfields hlookup => ?_
  · simp [Depot.recovers.list.legible, Client.recovers.list.legible, VehicleType.recovers.list.legible,
      Group.recovers.list.legible, rows_recovers.legible]
  · simp [ofForm?, hfields, Fields.required?, Fields.withDefault?, hlookup, List.lookup_cons, Depot.recovers.list.read,
      Client.recovers.list.read, VehicleType.recovers.list.read, Group.recovers.list.read, rows_recovers.read]

end Problem

namespace Plan

theorem recovers : Recovers ofForm? toValue := by
  refine .record (by decide : fieldNames.Nodup) (fun _ => rfl) (fun _ => rfl) (fun plan => ?_)
    fun plan form fields hfields hlookup => ?_
  · simp [Tour.recovers.list.legible]
  · simp [ofForm?, hfields, Fields.required?, hlookup, Tour.recovers.list.read]

end Plan

/-! ### Texts -/

theorem Problem.parse_render (p : Problem) : parse p.render = .ok p := by
  have hfirst := (Draft.recovers.legible p.draft).sorted.first?
  have haccept : p.draft.accept = .ok p := Draft.accept_eq_ok_iff.mpr rfl
  unfold parse render Value.canonical toValue
  rw [hfirst]
  simp only [ofForm, Draft.recovers.read, haccept]
  rfl

theorem Plan.parse_render (plan : Plan) : parse plan.render = .ok plan := by
  unfold parse render Value.canonical
  rw [(recovers.legible plan).sorted.parse?]
  simp only [ofForm, recovers.read]

/-- A text, written anew from what it says. -/
def recast {α : Type} (parse : String → Except Refusal α) (render : α → String) (text : String) :
    Except Refusal String := do
  let a ← parse text
  return render a

/-- What reads back as itself is written the same the second time. -/
theorem recast_recast {α : Type} {parse : String → Except Refusal α} {render : α → String}
    (h : ∀ a, parse (render a) = .ok a) (text : String) :
    (recast parse render text >>= recast parse render) = recast parse render text := by
  unfold recast
  cases parse text with
  | ok a =>
    show (do
      let a ← parse (render a)
      return render a) = _
    rw [h]
  | error why => rfl

/-- Every problem and every plan is read back from its text as it was. So no other text is ever written for it: whatever
    text says the same, written anew it becomes this one. -/
theorem stored_reads_back : (∀ p : Problem, Problem.parse p.render = .ok p) ∧
    (∀ plan : Plan, Plan.parse plan.render = .ok plan) ∧
    (∀ text, (recast Problem.parse Problem.render text >>= recast Problem.parse Problem.render) =
      recast Problem.parse Problem.render text) ∧
    ∀ text, (recast Plan.parse Plan.render text >>= recast Plan.parse Plan.render) =
      recast Plan.parse Plan.render text :=
  ⟨Problem.parse_render, Plan.parse_render, recast_recast Problem.parse_render, recast_recast Plan.parse_render⟩

end Fleet
