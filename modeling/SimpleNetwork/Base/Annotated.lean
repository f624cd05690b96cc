import SimpleNetwork.Base.Outcome

/-! Computations on a state that carries annotations, and the computations they are
when the annotations are left out. -/
namespace Outcome
variable {ε σ τ α β : Type} {erase : τ → σ}

/-- A result, seen without the annotations of its state. -/
def bare (erase : τ → σ) : EStateM.Result ε τ α → EStateM.Result ε σ α
  | .ok a t => .ok a (erase t)
  | .error e t => .error e (erase t)

/-- Whatever the annotations are, `m` does to the rest of the state what `x` does. -/
def Erases (erase : τ → σ) (m : EStateM ε τ α) (x : EStateM ε σ α) : Prop :=
  ∀ t, bare erase (m t) = x (erase t)

namespace Erases
variable {m : EStateM ε τ α} {x : EStateM ε σ α}

theorem pure (a : α) : Erases erase (Pure.pure a : EStateM ε τ α) (Pure.pure a) := fun _ => rfl

theorem throw (e : ε) : Erases erase (MonadExcept.throw e : EStateM ε τ α) (MonadExcept.throw e) :=
  fun _ => rfl

theorem bind {f : α → EStateM ε τ β} {g : α → EStateM ε σ β} (hx : Erases erase m x)
    (hf : ∀ a, Erases erase (f a) (g a)) :
    Erases erase (m >>= f) (x >>= g) := by
  intro t
  have ht := hx t
  cases hm : m t with
  | ok a t' =>
    rw [hm] at ht
    rw [bind_ok hm, bind_ok ht.symm]
    exact hf a t'
  | error e t' =>
    rw [hm] at ht
    rw [bind_error hm, bind_error ht.symm]
    rfl

/-- The rest of the state is read as it is. -/
theorem get {f : τ → EStateM ε τ α} {g : σ → EStateM ε σ α} (hf : ∀ t, Erases erase (f t) (g (erase t))) :
    Erases erase (MonadState.get >>= f) (MonadState.get >>= g) := fun t => hf t t

/-- What looks at the annotations is no part of the computation without them. -/
theorem look {f : τ → EStateM ε τ α} (hf : ∀ t, Erases erase (f t) x) : Erases erase
    (MonadState.get >>= f) x := fun t => hf t t

/-- Nor is what changes them only. -/
theorem annotate {f : τ → τ} {k : PUnit → EStateM ε τ α} (hf : ∀ t, erase (f t) = erase t)
    (hk : Erases erase (k ⟨⟩) x) :
    Erases erase (modify f >>= k) x := by
  intro t
  rw [modify_bind, hk (f t), hf t]

theorem ite {c : Prop} [Decidable c] {m' : EStateM ε τ α} {x' : EStateM ε σ α} (hx : Erases erase m x)
    (hx' : Erases erase m' x') : Erases erase (if c then m else m') (if c then x else x') := by
  split
  · exact hx
  · exact hx'

theorem tryCatch {handle : ε → EStateM ε τ α} {handle' : ε → EStateM ε σ α} (hx : Erases erase m x)
    (hh : ∀ e, Erases erase (handle e) (handle' e)) :
    Erases erase (MonadExcept.tryCatch m handle) (MonadExcept.tryCatch x handle') := by
  intro t
  have ht := hx t
  cases hm : m t with
  | ok a t' =>
    rw [hm] at ht
    rw [tryCatch_ok hm, tryCatch_ok ht.symm]
    rfl
  | error e t' =>
    rw [hm] at ht
    rw [tryCatch_error hm, tryCatch_error ht.symm]
    exact hh e t'

end Erases
end Outcome
