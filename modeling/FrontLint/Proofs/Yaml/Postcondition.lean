/-!
# How computations end

A computation ends in a value, and perhaps a state, that satisfies a postcondition, or in one of
the faults that are expected of it. What a sequence of steps ends in follows from its steps.
-/

namespace FrontLint

variable {ε α β σ : Type}

/-- A result is a value that satisfies `post`, or one of the faults. -/
def Meets (r : Except ε α) (post : α → Prop) (faults : ε → Prop) : Prop :=
  match r with
  | .ok a => post a
  | .error e => faults e

namespace Meets

variable {post : α → Prop} {faults : ε → Prop} {r : Except ε α}

instance [DecidablePred post] [DecidablePred faults] : Decidable (Meets r post faults) :=
  match r with
  | .ok a => inferInstanceAs (Decidable (post a))
  | .error e => inferInstanceAs (Decidable (faults e))

theorem bind {f : α → Except ε β} {post' : β → Prop} (h : Meets r post faults)
    (hf : ∀ a, post a → Meets (f a) post' faults) : Meets (r >>= f) post' faults := by
  cases r with
  | ok a => exact hf a h
  | error e => exact h

theorem mono {post' : α → Prop} {faults' : ε → Prop} (h : Meets r post faults)
    (hpost : ∀ a, post a → post' a) (hfaults : ∀ e, faults e → faults' e) :
    Meets r post' faults' := by
  cases r with
  | ok a => exact hpost a h
  | error e => exact hfaults e h

theorem of_forall (h : ∀ a, post a) : Meets r post fun _ => True := by
  cases r with
  | ok a => exact h a
  | error e => trivial

/-- The postcondition of a sequence of steps may follow from the last one alone. -/
theorem bind_of_forall {f : α → Except ε β} {post' : β → Prop}
    (h : ∀ a, Meets (f a) post' fun _ => True) : Meets (r >>= f) post' fun _ => True := by
  cases r with
  | ok a => exact h a
  | error e => trivial

theorem and {post' : α → Prop} {faults' : ε → Prop} (h : Meets r post faults)
    (h' : Meets r post' faults') :
    Meets r (fun a => post a ∧ post' a) fun e => faults e ∧ faults' e := by
  cases r with
  | ok a => exact ⟨h, h'⟩
  | error e => exact ⟨h, h'⟩

theorem of_eq_ok {a : α} (h : Meets r post faults) (hr : r = .ok a) : post a := by
  rw [hr] at h
  exact h

theorem of_eq_error {e : ε} (h : Meets r post faults) (hr : r = .error e) : faults e := by
  rw [hr] at h
  exact h

theorem exists_error (h : Meets r (fun _ => False) faults) : ∃ e, r = .error e ∧ faults e := by
  cases r with
  | ok a => exact h.elim
  | error e => exact ⟨e, rfl, h⟩

theorem mapM {f : α → Except ε β} {l : List α} {post : β → Prop}
    (h : ∀ a ∈ l, Meets (f a) post faults) :
    Meets (l.mapM f) (fun bs => ∀ b ∈ bs, post b) faults := by
  induction l with
  | nil => exact fun b hb => nomatch hb
  | cons a l ih =>
      rw [List.mapM_cons]
      refine bind (h a List.mem_cons_self) fun b hb => ?_
      refine bind (ih fun a ha => h a (List.mem_cons_of_mem _ ha)) fun bs hbs => ?_
      exact List.forall_mem_cons.2 ⟨hb, hbs⟩

theorem mapError {ε' : Type} {f : ε → ε'} {faults' : ε' → Prop} (h : Meets r post faults)
    (hf : ∀ e, faults e → faults' (f e)) : Meets (r.mapError f) post faults' := by
  cases r with
  | ok a => exact h
  | error e => exact hf e h

end Meets

/-- An action on a state ends in a value and a state that satisfy `post`, or in one of the
faults. -/
def Runs (m : StateT σ (Except ε) α) (s : σ) (post : α → σ → Prop) (faults : ε → Prop) : Prop :=
  Meets (m.run s) (fun r => post r.1 r.2) faults

namespace Runs

variable {post : α → σ → Prop} {faults : ε → Prop} {s : σ} {m : StateT σ (Except ε) α}

theorem bind {f : α → StateT σ (Except ε) β} {post' : β → σ → Prop} (h : Runs m s post faults)
    (hf : ∀ a s', post a s' → Runs (f a) s' post' faults) : Runs (m >>= f) s post' faults :=
  Meets.bind h fun r hr => hf r.1 r.2 hr

theorem mono {post' : α → σ → Prop} {faults' : ε → Prop} (h : Runs m s post faults)
    (hpost : ∀ a s', post a s' → post' a s') (hfaults : ∀ e, faults e → faults' e) :
    Runs m s post' faults' :=
  Meets.mono h (fun r hr => hpost r.1 r.2 hr) hfaults

theorem of_eq_ok {a : α} {s' : σ} (h : Runs m s post faults) (hm : m.run s = .ok (a, s')) :
    post a s' := by
  rw [Runs, hm] at h
  exact h

end Runs

/-- Two steps that succeed are two actions that succeed. -/
theorem run_bind_eq_ok {m : StateT σ (Except ε) α} {f : α → StateT σ (Except ε) β} {s s' : σ}
    {b : β} (h : (m >>= f).run s = .ok (b, s')) :
    ∃ a s₁, m.run s = .ok (a, s₁) ∧ (f a).run s₁ = .ok (b, s') := by
  rw [StateT.run_bind] at h
  cases hm : m.run s with
  | error e =>
      rw [hm] at h
      cases h
  | ok x =>
      rw [hm] at h
      exact ⟨x.1, x.2, rfl, h⟩

theorem run_lift_eq_ok {x : Except ε α} {s s' : σ} {a : α}
    (h : (liftM x : StateT σ (Except ε) α).run s = .ok (a, s')) : x = .ok a ∧ s' = s := by
  cases x with
  | error e => cases h
  | ok b =>
      cases h
      exact ⟨rfl, rfl⟩

section

variable {post : α → σ → Prop} {post' : β → σ → Prop} {faults : ε → Prop} {s : σ}

theorem runs_of_eq_ok {m : StateT σ (Except ε) α}
    (h : ∀ a s', m.run s = .ok (a, s') → post a s') : Runs m s post fun _ => True := by
  rw [Runs]
  cases hm : m.run s with
  | error e => trivial
  | ok x => exact h x.1 x.2 hm

theorem runs_pure {a : α} (h : post a s) : Runs (pure a) s post faults := h

theorem runs_get {f : σ → StateT σ (Except ε) β} (h : Runs (f s) s post' faults) :
    Runs (get >>= f) s post' faults := h

theorem runs_set {s' : σ} {f : PUnit → StateT σ (Except ε) β}
    (h : Runs (f ⟨⟩) s' post' faults) : Runs (set s' >>= f) s post' faults := h

theorem runs_modify {f : σ → σ} {post : PUnit → σ → Prop} (h : post ⟨⟩ (f s)) :
    Runs (modify f : StateT σ (Except ε) PUnit) s post faults := h

theorem runs_modify_bind {f : σ → σ} {k : PUnit → StateT σ (Except ε) β}
    (h : Runs (k ⟨⟩) (f s) post' faults) : Runs (modify f >>= k) s post' faults := h

theorem runs_throw {e : ε} (h : faults e) :
    Runs (throw e : StateT σ (Except ε) α) s post faults := h

theorem runs_throw_bind {e : ε} {f : α → StateT σ (Except ε) β} (h : faults e) :
    Runs (throw e >>= f) s post' faults := h

theorem runs_lift {r : Except ε α} (h : Meets r (fun a => post a s) faults) :
    Runs (liftM r : StateT σ (Except ε) α) s post faults := by
  cases r with
  | ok a => exact h
  | error e => exact h

end

end FrontLint
