import SimpleNetwork.Base.Outcome
import SimpleNetwork.Base.Slices

/-! What a computation may touch: arrays that agree at some of their places, and
faults that a computation never ends with. -/
namespace Slices
variable {α : Type*} {p : Nat → Prop} {xs ys zs : List α}

/-- Two arrays of one length with the same cells at the places in `p`. -/
structure AgreesOn (p : Nat → Prop) (xs ys : List α) : Prop where
  length_eq : ys.length = xs.length
  cell_eq : ∀ k, p k → ys[k]? = xs[k]?

namespace AgreesOn

theorem refl (xs : List α) : AgreesOn p xs xs := ⟨rfl, fun _ _ => rfl⟩

theorem trans (h : AgreesOn p xs ys) (h' : AgreesOn p ys zs) : AgreesOn p xs zs where
  length_eq := h'.length_eq.trans h.length_eq
  cell_eq k hk := (h'.cell_eq k hk).trans (h.cell_eq k hk)

/-- A run of places in `p` holds the same in both. -/
theorem slice_eq (h : AgreesOn p xs ys) {i n : Nat}
    (hp : ∀ k, i ≤ k → k < i + n → p k) : slice ys i n = slice xs i n := by
  apply List.ext_getElem?
  intro k
  rw [getElem?_slice, getElem?_slice]
  split
  · exact h.cell_eq _ (hp _ (by omega) (by omega))
  · rfl

/-- A block over places that are not in `p`. -/
theorem overwrite {cells block : List α} {i : Nat} (hroom : i + block.length ≤ cells.length)
    (hp : ∀ k, i ≤ k → k < i + block.length → ¬ p k) : AgreesOn p cells
    (CellRing.overwrite cells i block) where
  length_eq := CellRing.length_overwrite hroom
  cell_eq k hk := by rw [CellRing.getElem?_overwrite hroom, if_neg fun hin => hp k hin.1 hin.2 hk]

end AgreesOn
end Slices

namespace Outcome
variable {ε σ α β : Type} {bad : ε → Prop}

/-- No run of the computation ends with one of these faults. -/
def Avoids (bad : ε → Prop) (x : EStateM ε σ α) : Prop := ∀ s e t, x s = .error e t → ¬ bad e

namespace Avoids

theorem pure (a : α) : Avoids bad (Pure.pure a : EStateM ε σ α) := fun _ _ _ hr => nomatch hr

theorem set (s : σ) : Avoids bad (MonadStateOf.set s : EStateM ε σ PUnit) := fun _ _ _ hr => nomatch hr

theorem throw {e : ε} (h : ¬ bad e) : Avoids bad (MonadExcept.throw e : EStateM ε σ α) := by
  intro s e' t hr
  cases hr
  exact h

theorem bind {x : EStateM ε σ α} {f : α → EStateM ε σ β} (hx : Avoids bad x) (hf : ∀ a, Avoids bad (f a)) :
    Avoids bad (x >>= f) := by
  intro s e t hr
  rcases bind_eq_error.mp hr with hxs | ⟨a, s', -, hfs⟩
  · exact hx s e t hxs
  · exact hf a s' e t hfs

theorem get {f : σ → EStateM ε σ α} (hf : ∀ s, Avoids bad (f s)) : Avoids bad (MonadState.get >>= f) :=
  fun s e t hr => hf s s e t hr

theorem ite {c : Prop} [Decidable c] {x y : EStateM ε σ α} (hx : c → Avoids bad x) (hy : ¬ c → Avoids bad y) :
    Avoids bad (if c then x else y) := by
  split
  · exact hx ‹_›
  · exact hy ‹_›

theorem tryCatch {x : EStateM ε σ α} {handle : ε → EStateM ε σ α}
    (hh : ∀ e, (∃ s t, x s = .error e t) → Avoids bad (handle e)) :
    Avoids bad (MonadExcept.tryCatch x handle) := by
  intro s e t hr
  cases hxs : x s with
  | ok a s' =>
    rw [tryCatch_ok hxs] at hr
    exact nomatch hr
  | error e' s' =>
    rw [tryCatch_error hxs] at hr
    exact hh e' ⟨s, s', hxs⟩ s' e t hr

end Avoids
end Outcome
