import Mathlib.Tactic.Common

/-! Stateful computations that may fault. A fault keeps the state reached so
far, as an exception thrown out of a half-finished member function does. -/
namespace Outcome
variable {ε σ τ α β : Type}

instance instDecidableEqResult [DecidableEq ε] [DecidableEq σ] [DecidableEq α] :
    DecidableEq (EStateM.Result ε σ α)
  | .ok a s, .ok b t => decidable_of_iff (a = b ∧ s = t) (by simp)
  | .error e s, .error f t => decidable_of_iff (e = f ∧ s = t) (by simp)
  | .ok _ _, .error _ _ => .isFalse nofun
  | .error _ _, .ok _ _ => .isFalse nofun

/-- What is claimed of the value and the state that a computation ends with can be checked there. -/
instance instDecidableOfOk {P : α → σ → Prop} [∀ a s, Decidable (P a s)] :
    (x : EStateM.Result ε σ α) → Decidable (∀ a s, x = .ok a s → P a s)
  | .ok a s => decidable_of_iff (P a s) ⟨fun h _ _ he => by cases he; exact h, fun h => h a s rfl⟩
  | .error _ _ => .isTrue nofun

def left : EStateM.Result ε σ α → σ
  | .ok _ s | .error _ s => s

def returned : EStateM.Result ε σ α → Bool
  | .ok _ _ => true
  | .error _ _ => false

theorem eq_ok_left {r : EStateM.Result ε σ Unit} (h : returned r) : r = .ok () (left r) := by
  cases r with
  | ok => rfl
  | error => cases h

theorem bind_ok {x : EStateM ε σ α} {f : α → EStateM ε σ β} {s s' : σ} {a : α}
    (h : x s = .ok a s') : (x >>= f) s = f a s' := by
  simp only [bind, EStateM.bind, h]

theorem bind_error {x : EStateM ε σ α} {f : α → EStateM ε σ β} {s s' : σ} {e : ε}
    (h : x s = .error e s') : (x >>= f) s = .error e s' := by
  simp only [bind, EStateM.bind, h]

theorem bind_of_eq {x y : EStateM ε σ α} {f : α → EStateM ε σ β} {s t : σ} (h : x s = y t) :
    (x >>= f) s = (y >>= f) t := by
  simp only [bind, EStateM.bind, h]

theorem bind_eq_ok {x : EStateM ε σ α} {f : α → EStateM ε σ β} {s t : σ} {b : β} :
    (x >>= f) s = .ok b t ↔ ∃ a s', x s = .ok a s' ∧ f a s' = .ok b t := by
  cases h : x s with
  | ok a s' =>
    rw [bind_ok h]
    constructor
    · exact fun hf => ⟨a, s', rfl, hf⟩
    · rintro ⟨a, s', hx, hf⟩
      cases hx
      exact hf
  | error e s' =>
    rw [bind_error h]
    constructor
    · exact fun hf => nomatch hf
    · rintro ⟨a, s', hx, _⟩
      cases hx

theorem bind_eq_error {x : EStateM ε σ α} {f : α → EStateM ε σ β} {s t : σ} {e : ε} :
    (x >>= f) s = .error e t ↔ x s = .error e t ∨ ∃ a s', x s = .ok a s' ∧ f a s' = .error e t := by
  cases h : x s with
  | ok a s' =>
    rw [bind_ok h]
    constructor
    · exact fun hf => .inr ⟨a, s', rfl, hf⟩
    · rintro (hx | ⟨a, s', hx, hf⟩)
      · cases hx
      · cases hx
        exact hf
  | error e' s' =>
    rw [bind_error h]
    constructor
    · rintro ⟨⟩
      exact .inl rfl
    · rintro (hx | ⟨a, s', hx, _⟩)
      · cases hx
        rfl
      · cases hx

/-- What is made of a returned value does not change how the computation fails. -/
theorem bind_pure_eq_error {x : EStateM ε σ α} {f : α → β} {s t : σ} {e : ε} :
    (x >>= fun a => pure (f a)) s = .error e t ↔ x s = .error e t := by
  rw [bind_eq_error]
  refine or_iff_left ?_
  rintro ⟨a, s', -, hf⟩
  cases hf

@[simp] theorem pure_run (a : α) (s : σ) : (pure a : EStateM ε σ α) s = .ok a s := rfl
@[simp] theorem get_run (s : σ) : (get : EStateM ε σ σ) s = .ok s s := rfl
@[simp] theorem set_run (s t : σ) : (set t : EStateM ε σ PUnit) s = .ok ⟨⟩ t := rfl
@[simp] theorem modify_run (g : σ → σ) (s : σ) : (modify g : EStateM ε σ PUnit) s = .ok ⟨⟩ (g s) := rfl
@[simp] theorem throw_run (e : ε) (s : σ) : (throw e : EStateM ε σ α) s = .error e s := rfl
@[simp] theorem get_bind (f : σ → EStateM ε σ α) (s : σ) : (get >>= f) s = f s s := rfl
@[simp] theorem modify_bind (g : σ → σ) (f : PUnit → EStateM ε σ α) (s : σ) :
    (modify g >>= f) s = f ⟨⟩ (g s) := rfl
@[simp] theorem set_bind (t : σ) (f : PUnit → EStateM ε σ α) (s : σ) :
    (set t >>= f) s = f ⟨⟩ t := rfl

theorem tryCatch_ok {x : EStateM ε σ α} {handle : ε → EStateM ε σ α} {s s' : σ} {a : α} (h : x s = .ok a s') :
    tryCatch x handle s = .ok a s' := by
  change EStateM.tryCatch x handle s = _
  rw [EStateM.tryCatch, h]

theorem tryCatch_error {x : EStateM ε σ α} {handle : ε → EStateM ε σ α} {s s' : σ} {e : ε}
    (h : x s = .error e s') :
    tryCatch x handle s = handle e s' := by
  change EStateM.tryCatch x handle s = _
  rw [EStateM.tryCatch, h]
  rfl

/-- Run a computation on one component of a larger state. -/
def zoom (view : τ → σ) (put : σ → τ → τ) (x : EStateM ε σ α) : EStateM ε τ α := fun t =>
  match x (view t) with
  | .ok a s => .ok a (put s t)
  | .error e s => .error e (put s t)

theorem zoom_ok {view : τ → σ} {put : σ → τ → τ} {x : EStateM ε σ α} {t : τ} {a : α} {s : σ}
    (h : x (view t) = .ok a s) : zoom view put x t = .ok a (put s t) := by
  simp only [zoom, h]

theorem zoom_error {view : τ → σ} {put : σ → τ → τ} {x : EStateM ε σ α} {t : τ} {e : ε} {s : σ}
    (h : x (view t) = .error e s) : zoom view put x t = .error e (put s t) := by
  simp only [zoom, h]

/-- What a return of the larger computation says about the component. -/
theorem zoom_eq_ok {view : τ → σ} {put : σ → τ → τ} {x : EStateM ε σ α} {t t' : τ} {a : α}
    (h : zoom view put x t = .ok a t') :
    ∃ s, x (view t) = .ok a s ∧ t' = put s t := by
  cases hx : x (view t) with
  | ok b s =>
    rw [zoom_ok hx] at h
    cases h
    exact ⟨s, rfl, rfl⟩
  | error e s =>
    rw [zoom_error hx] at h
    cases h

theorem zoom_eq_error {view : τ → σ} {put : σ → τ → τ} {x : EStateM ε σ α} {t t' : τ} {e : ε}
    (h : zoom view put x t = .error e t') :
    ∃ s, x (view t) = .error e s ∧ t' = put s t := by
  cases hx : x (view t) with
  | ok a s =>
    rw [zoom_ok hx] at h
    cases h
  | error f s =>
    rw [zoom_error hx] at h
    cases h
    exact ⟨s, rfl, rfl⟩

end Outcome
