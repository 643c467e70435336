import Fleet.Dispatch.Basic
import Mathlib

/-! How computations end: with a result, with a refusal that changes nothing, or at a limit of the machine.

    `Fares` is for computations that have passed all checks of what they were given: only an overflow can
    keep them from a result. `FaresUnless` says what else may, and where. `Answers` is for operations of the interface,
    which may also refuse, and `Replies` for those among them that make something new. None of them leaves room for a
    broken promise inside of the books or for a place without an element. -/

namespace Fleet

variable {σ α β : Type}

/-! ### Steps of a computation -/

section Steps
variable {m : EStateM Fault σ α} {f : α → EStateM Fault σ β} {s t : σ} {a : α}

theorem bind_ok (h : m s = .ok a t) : (m >>= f) s = f a t := by
  show EStateM.bind m f s = _
  unfold EStateM.bind
  rw [h]

theorem bind_error {fault : Fault} (h : m s = .error fault t) : (m >>= f) s = .error fault t := by
  show EStateM.bind m f s = _
  unfold EStateM.bind
  rw [h]

theorem bind_run_eq_ok {b : β} (h : (m >>= f) s = .ok b t) : ∃ a u, m s = .ok a u ∧ f a u = .ok b t := by
  cases hm : m s with
  | ok a u =>
    rw [bind_ok hm] at h
    exact ⟨a, u, rfl, h⟩
  | error fault u =>
    rw [bind_error hm] at h
    cases h

@[simp] theorem pure_run (a : α) (s : σ) : (pure a : EStateM Fault σ α) s = .ok a s := rfl

@[simp] theorem modifyGet_run (g : σ → α × σ) (s : σ) :
    (modifyGet g : EStateM Fault σ α) s = .ok (g s).1 (g s).2 := rfl

@[simp] theorem get_bind_run (g : σ → EStateM Fault σ β) (s : σ) :
    ((get : EStateM Fault σ σ) >>= g) s = g s s := rfl

@[simp] theorem modify_bind_run (g : σ → σ) (f : PUnit → EStateM Fault σ β) (s : σ) :
    ((modify g : EStateM Fault σ PUnit) >>= f) s = f ⟨⟩ (g s) := rfl

end Steps

/-! ### Computations that pass all checks -/

/-- There is a result and a state as `post` says, or a quantity has overflowed. -/
inductive Fares (post : α → σ → Prop) : EStateM.Result Fault σ α → Prop
  | ok {a : α} {s : σ} (h : post a s) : Fares post (.ok a s)
  | overflow {s : σ} : Fares post (.error .overflow s)

namespace Fares
variable {post : α → σ → Prop} {m : EStateM Fault σ α} {s : σ}

theorem mono {post' : α → σ → Prop} {r : EStateM.Result Fault σ α} (h : Fares post r)
    (imp : ∀ a t, post a t → post' a t) : Fares post' r := by
  cases h with
  | ok h => exact .ok (imp _ _ h)
  | overflow => exact .overflow

theorem bind {post' : β → σ → Prop} {f : α → EStateM Fault σ β} (h : Fares post (m s))
    (next : ∀ a t, post a t → Fares post' (f a t)) : Fares post' ((m >>= f) s) := by
  generalize hr : m s = r at h
  cases h with
  | ok h =>
    rw [bind_ok hr]
    exact next _ _ h
  | overflow =>
    rw [bind_error hr]
    exact .overflow

theorem of_ok {a : α} {t : σ} (h : m s = .ok a t) (hpost : post a t) : Fares post (m s) := by
  rw [h]
  exact .ok hpost

end Fares

/-- There is a result and a state as `post` says, or else a fault and a state as `cause` says. -/
inductive FaresUnless (cause : Fault → σ → Prop) (post : α → σ → Prop) : EStateM.Result Fault σ α → Prop
  | ok {a : α} {s : σ} (h : post a s) : FaresUnless cause post (.ok a s)
  | fault {fault : Fault} {s : σ} (h : cause fault s) : FaresUnless cause post (.error fault s)

/-- A quantity has overflowed, in a state as `cause` says. -/
def Overflows (cause : σ → Prop) (fault : Fault) (s : σ) : Prop := fault = .overflow ∧ cause s

namespace FaresUnless
variable {cause cause' : Fault → σ → Prop} {strained : σ → Prop} {post : α → σ → Prop} {m : EStateM Fault σ α} {s : σ}

theorem overflow (h : strained s) : FaresUnless (Overflows strained) post (.error .overflow s) := .fault ⟨rfl, h⟩

theorem of_fares {r : EStateM.Result Fault σ α} (h : Fares post r) : FaresUnless (Overflows fun _ => True) post r := by
  cases h with
  | ok h => exact .ok h
  | overflow => exact .overflow trivial

theorem fares {r : EStateM.Result Fault σ α} (h : FaresUnless (Overflows strained) post r) : Fares post r := by
  cases h with
  | ok h => exact .ok h
  | fault h =>
    obtain ⟨rfl, -⟩ := h
    exact .overflow

theorem mono {post' : α → σ → Prop} {r : EStateM.Result Fault σ α} (h : FaresUnless cause post r)
    (himp : ∀ fault t, cause fault t → cause' fault t) (imp : ∀ a t, post a t → post' a t) :
    FaresUnless cause' post' r := by
  cases h with
  | ok h => exact .ok (imp _ _ h)
  | fault h => exact .fault (himp _ _ h)

theorem bind {post' : β → σ → Prop} {f : α → EStateM Fault σ β} (h : FaresUnless cause post (m s))
    (next : ∀ a t, post a t → FaresUnless cause post' (f a t)) : FaresUnless cause post' ((m >>= f) s) := by
  generalize hr : m s = r at h
  cases h with
  | ok h =>
    rw [bind_ok hr]
    exact next _ _ h
  | fault h =>
    rw [bind_error hr]
    exact .fault h

/-- A handler that passes on every fault that there may be has nothing else to do. -/
theorem tryCatch {handle : Fault → EStateM Fault σ α} (h : FaresUnless cause post (m s))
    (hthrow : ∀ fault t, cause fault t → handle fault = throw fault) : FaresUnless cause post ((tryCatch m handle) s) := by
  generalize hr : m s = r at h
  have hrun : (MonadExcept.tryCatch m handle) s = (match m s with
      | .ok a t => .ok a t
      | .error what t => handle what t) := by
    show EStateM.tryCatch m handle s = _
    unfold EStateM.tryCatch
    cases m s <;> rfl
  refine cast (congrArg (FaresUnless cause post) hrun.symm) ?_
  cases h with
  | ok h =>
    rw [hr]
    exact .ok h
  | fault h =>
    rw [hr]
    simp only [hthrow _ _ h]
    exact .fault h

end FaresUnless

/-- There is a result and a state as `post` says, or a quantity has overflowed, or `s` is as it was because
    what was asked for was refused. -/
inductive Answers (s : σ) (post : α → σ → Prop) : EStateM.Result Fault σ α → Prop
  | ok {a : α} {t : σ} (h : post a t) : Answers s post (.ok a t)
  | overflow {t : σ} : Answers s post (.error .overflow t)
  | refused {why : Refusal} : Answers s post (.error (.refused why) s)

namespace Answers
variable {post : α → σ → Prop} {s : σ}

theorem mono {post' : α → σ → Prop} {r : EStateM.Result Fault σ α} (h : Answers s post r)
    (imp : ∀ a t, post a t → post' a t) : Answers s post' r := by
  cases h with
  | ok h => exact .ok (imp _ _ h)
  | overflow => exact .overflow
  | refused => exact .refused

theorem of_fares {r : EStateM.Result Fault σ α} (h : Fares post r) : Answers s post r := by
  cases h with
  | ok h => exact .ok h
  | overflow => exact .overflow

theorem of_ok {m : EStateM Fault σ α} {a : α} {t : σ} (h : m s = .ok a t) (hpost : post a t) : Answers s post (m s) :=
  of_fares (.of_ok h hpost)

/-- An operation whose result is made from that of another one. -/
theorem returning {post' : β → σ → Prop} {m : EStateM Fault σ α} {f : α → β} (h : Answers s post (m s))
    (imp : ∀ a t, post a t → post' (f a) t) : Answers s post' ((m >>= fun a => pure (f a)) s) := by
  generalize hr : m s = r at h
  cases h with
  | ok h =>
    rw [bind_ok hr]
    exact .ok (imp _ _ h)
  | overflow =>
    rw [bind_error hr]
    exact .overflow
  | refused =>
    rw [bind_error hr]
    exact .refused

end Answers

/-- A limit of the machine: a quantity is out of range, or there is no place for something new. -/
inductive Fault.IsLimit : Fault → Prop
  | overflow : Fault.IsLimit .overflow
  | full {slot : Nat} : Fault.IsLimit (.broken (.full slot))

/-- There is a result and a state as `post` says, or else a fault and a state as `cause` says, or `s` is as it was
    because what was asked for was refused. -/
inductive Replies (s : σ) (cause : Fault → σ → Prop) (post : α → σ → Prop) : EStateM.Result Fault σ α → Prop
  | ok {a : α} {t : σ} (h : post a t) : Replies s cause post (.ok a t)
  | fault {fault : Fault} {t : σ} (h : cause fault t) : Replies s cause post (.error fault t)
  | refused {why : Refusal} : Replies s cause post (.error (.refused why) s)

namespace Replies
variable {cause : Fault → σ → Prop} {post : α → σ → Prop} {s : σ}

theorem of_answers {r : EStateM.Result Fault σ α} (h : Answers s post r) (hcause : ∀ t, cause .overflow t) :
    Replies s cause post r := by
  cases h with
  | ok h => exact .ok h
  | overflow => exact .fault (hcause _)
  | refused => exact .refused

theorem of_fares {r : EStateM.Result Fault σ α} (h : FaresUnless cause post r) : Replies s cause post r := by
  cases h with
  | ok h => exact .ok h
  | fault h => exact .fault h

theorem of_ok {m : EStateM Fault σ α} {a : α} {t : σ} (h : m s = .ok a t) (hpost : post a t) :
    Replies s cause post (m s) := by
  rw [h]
  exact .ok hpost

theorem mono {cause' : Fault → σ → Prop} {post' : α → σ → Prop} {r : EStateM.Result Fault σ α} (h : Replies s cause post r)
    (himp : ∀ fault t, cause fault t → cause' fault t) (imp : ∀ a t, post a t → post' a t) :
    Replies s cause' post' r := by
  cases h with
  | ok h => exact .ok (imp _ _ h)
  | fault h => exact .fault (himp _ _ h)
  | refused => exact .refused

/-- An operation whose result is made from that of another one. -/
theorem returning {post' : β → σ → Prop} {m : EStateM Fault σ α} {f : α → β} (h : Replies s cause post (m s))
    (imp : ∀ a t, post a t → post' (f a) t) : Replies s cause post' ((m >>= fun a => pure (f a)) s) := by
  generalize hr : m s = r at h
  cases h with
  | ok h =>
    rw [bind_ok hr]
    exact .ok (imp _ _ h)
  | fault h =>
    rw [bind_error hr]
    exact .fault h
  | refused =>
    rw [bind_error hr]
    exact .refused

end Replies

/-! ### Computations that change nothing -/

/-- There is a result as `post` says, or a quantity has overflowed. -/
inductive Computes (post : α → Prop) : Except Fault α → Prop
  | ok {a : α} (h : post a) : Computes post (.ok a)
  | overflow : Computes post (.error .overflow)

@[simp] theorem ok_bind (a : α) (f : α → Except Fault β) : (Except.ok a >>= f) = f a := rfl

theorem bind_eq_ok {r : Except Fault α} {f : α → Except Fault β} {b : β} (h : (r >>= f) = .ok b) :
    ∃ a, r = .ok a ∧ f a = .ok b := by
  cases r with
  | ok a => exact ⟨a, rfl, h⟩
  | error fault => cases h

theorem mapM_eq_ok {f : α → Except Fault β} {as : List α} :
    ∀ {bs}, as.mapM f = .ok bs → List.Forall₂ (fun a b => f a = .ok b) as bs := by
  induction as with
  | nil =>
    intro bs h
    cases h
    exact .nil
  | cons a as ih =>
    intro bs h
    rw [List.mapM_cons] at h
    obtain ⟨b, hb, h⟩ := bind_eq_ok h
    obtain ⟨bs', hbs', h⟩ := bind_eq_ok h
    cases h
    exact .cons hb (ih hbs')

theorem checked_eq_ok {n m : Int} (h : Quantity.checked n = .ok m) : m = n := by
  unfold Quantity.checked at h
  split at h
  · exact (Except.ok.inj h).symm
  · cases h

namespace Computes
variable {post : α → Prop} {r : Except Fault α}

theorem mono {post' : α → Prop} (h : Computes post r) (imp : ∀ a, post a → post' a) : Computes post' r := by
  cases h with
  | ok h => exact .ok (imp _ h)
  | overflow => exact .overflow

theorem bind {post' : β → Prop} {f : α → Except Fault β} (h : Computes post r)
    (next : ∀ a, post a → Computes post' (f a)) : Computes post' (r >>= f) := by
  cases h with
  | ok h => exact next _ h
  | overflow => exact .overflow

theorem of_ok {a : α} (h : r = .ok a) (hpost : post a) : Computes post r := by
  rw [h]
  exact .ok hpost

/-- What is said of a result may also say which computation it is the result of. -/
theorem eq (h : Computes post r) : Computes (fun a => r = .ok a ∧ post a) r := by
  cases h with
  | ok h => exact .ok ⟨rfl, h⟩
  | overflow => exact .overflow

theorem checked (n : Int) : Computes (fun m => m = n) (Quantity.checked n) := by
  unfold Quantity.checked
  split
  · exact .ok rfl
  · exact .overflow

/-- Elements whose computations all pass, one after the other. -/
theorem mapM {f : α → Except Fault β} {post : α → β → Prop} {as : List α}
    (h : ∀ a ∈ as, Computes (post a) (f a)) : Computes (fun bs => List.Forall₂ post as bs) (as.mapM f) := by
  induction as with
  | nil => exact .ok .nil
  | cons a as ih =>
    rw [List.mapM_cons]
    refine (h a List.mem_cons_self).bind fun b hb => ?_
    refine (ih fun a' ha' => h a' (List.mem_cons_of_mem _ ha')).bind fun bs hbs => ?_
    exact .ok (.cons hb hbs)

end Computes

/-! ### Computations that cannot fail -/

/-- There is a result as `post` says. -/
def Succeeds (post : α → Prop) (r : Except Fault α) : Prop := ∃ a, r = .ok a ∧ post a

namespace Succeeds
variable {post : α → Prop} {r : Except Fault α}

theorem bind {post' : β → Prop} {f : α → Except Fault β} (h : Succeeds post r)
    (next : ∀ a, post a → Succeeds post' (f a)) : Succeeds post' (r >>= f) := by
  obtain ⟨a, rfl, ha⟩ := h
  exact next a ha

theorem computes (h : Succeeds post r) : Computes post r := by
  obtain ⟨a, rfl, ha⟩ := h
  exact .ok ha

theorem mapM {f : α → Except Fault β} {post : α → β → Prop} {as : List α} (h : ∀ a ∈ as, Succeeds (post a) (f a)) :
    Succeeds (fun bs => List.Forall₂ post as bs) (as.mapM f) := by
  induction as with
  | nil => exact ⟨[], rfl, .nil⟩
  | cons a as ih =>
    rw [List.mapM_cons]
    refine (h a List.mem_cons_self).bind fun b hb => ?_
    refine (ih fun a' ha' => h a' (List.mem_cons_of_mem _ ha')).bind fun bs hbs => ?_
    exact ⟨b :: bs, rfl, .cons hb hbs⟩

/-- What every step keeps, all steps together keep. -/
theorem foldlM {f : β → α → Except Fault β} {inv : β → Prop} {as : List α}
    (h : ∀ a ∈ as, ∀ b, inv b → Succeeds inv (f b a)) : ∀ {b}, inv b → Succeeds inv (as.foldlM f b) := by
  induction as with
  | nil => exact fun {b} hb => ⟨b, rfl, hb⟩
  | cons a as ih =>
    intro b hb
    rw [List.foldlM_cons]
    exact (h a List.mem_cons_self b hb).bind fun b' hb' => ih (fun a' ha' => h a' (List.mem_cons_of_mem _ ha')) hb'

end Succeeds

theorem FaresUnless.ofResult {cause : Dispatch → Prop} {post : α → Prop} {e : Except Fault α} {s : Dispatch}
    (h : Computes post e) (hcause : e = .error .overflow → cause s) :
    FaresUnless (Overflows cause) (fun a t => t = s ∧ post a) (DispatchM.ofResult e s) := by
  cases h with
  | ok h => exact .ok ⟨rfl, h⟩
  | overflow => exact .overflow (hcause rfl)

/-! ### The layout in the dispatch -/

theorem onLayout_ok {m : LayoutM α} {d : Dispatch} {a : α} {l : Layout} (h : m d.layout = .ok a l) :
    DispatchM.onLayout m d = .ok a { d with layout := l } := by
  unfold DispatchM.onLayout
  rw [h]

theorem onLayout_error {m : LayoutM α} {d : Dispatch} {fault : Fault} {l : Layout} (h : m d.layout = .error fault l) :
    DispatchM.onLayout m d = .error fault { d with layout := l } := by
  unfold DispatchM.onLayout
  rw [h]

theorem onLayout_eq_ok {m : LayoutM α} {d d' : Dispatch} {a : α} (hrun : DispatchM.onLayout m d = .ok a d') :
    m d.layout = .ok a d'.layout ∧ d' = { d with layout := d'.layout } := by
  unfold DispatchM.onLayout at hrun
  split at hrun
  · rename_i heq
    cases hrun
    exact ⟨heq, rfl⟩
  · cases hrun

theorem onLayout_eq_error {m : LayoutM α} {d d' : Dispatch} {fault : Fault}
    (hrun : DispatchM.onLayout m d = .error fault d') :
    m d.layout = .error fault d'.layout ∧ d' = { d with layout := d'.layout } := by
  unfold DispatchM.onLayout at hrun
  split at hrun
  · cases hrun
  · rename_i heq
    cases hrun
    exact ⟨heq, rfl⟩

theorem FaresUnless.onLayout {m : LayoutM α} {d : Dispatch} {cause : Fault → Layout → Prop} {post : α → Layout → Prop}
    (h : FaresUnless cause post (m d.layout)) :
    FaresUnless (fun fault t => cause fault t.layout) (fun a t => ∃ l, t = { d with layout := l } ∧ post a l)
      (DispatchM.onLayout m d) := by
  generalize hr : m d.layout = r at h
  unfold DispatchM.onLayout
  rw [hr]
  cases h with
  | ok h => exact .ok ⟨_, rfl, h⟩
  | fault h => exact .fault h

theorem Fares.onLayout {m : LayoutM α} {d : Dispatch} {post : α → Layout → Prop} (h : Fares post (m d.layout)) :
    Fares (fun a t => ∃ l, t = { d with layout := l } ∧ post a l) (DispatchM.onLayout m d) :=
  (FaresUnless.onLayout (FaresUnless.of_fares h)).fares

theorem ofResult_eq_ok {e : Except Fault α} {a : α} {d d' : Dispatch} (h : DispatchM.ofResult e d = .ok a d') :
    e = .ok a ∧ d' = d := by
  cases e with
  | ok b =>
    cases h
    exact ⟨rfl, rfl⟩
  | error fault => cases h

@[simp] theorem ofResult_ok_bind (a : α) (f : α → DispatchM β) (d : Dispatch) :
    (DispatchM.ofResult (.ok a) >>= f) d = f a d := rfl

end Fleet
