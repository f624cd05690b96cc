import SimpleNetwork.Base.Outcome

/-! Triples for stateful computations that may fault: one postcondition for a
return and one for a fault, with the rules to walk through a program. -/
namespace Outcome
variable {ε σ τ α β : Type}

/-- From a state in `P`, a return ends in `Q` and a fault leaves a state in `E`. -/
structure Triple (P : σ → Prop) (x : EStateM ε σ α) (Q : α → σ → Prop) (E : σ → Prop) : Prop where
  returns : ∀ {s a t}, P s → x s = .ok a t → Q a t
  faults : ∀ {s e t}, P s → x s = .error e t → E t

/-- A triple whose postcondition is its precondition. -/
abbrev Keeps (P : σ → Prop) (x : EStateM ε σ α) (E : σ → Prop) : Prop := Triple P x (fun _ => P) E

namespace Triple
variable {P P' : σ → Prop} {Q Q' : α → σ → Prop} {R : β → σ → Prop} {E F : σ → Prop} {x : EStateM ε σ α}

theorem pure {a : α} (h : ∀ s, P s → Q a s) : Triple P (Pure.pure a : EStateM ε σ α) Q E where
  returns hs hr := by
    cases hr
    exact h _ hs
  faults _ hr := nomatch hr

theorem throw {e : ε} (h : ∀ s, P s → E s) : Triple P (MonadExcept.throw e : EStateM ε σ α) Q E where
  returns _ hr := nomatch hr
  faults hs hr := by
    cases hr
    exact h _ hs

theorem modify {f : σ → σ} {Q : PUnit → σ → Prop} (h : ∀ s, P s → Q ⟨⟩ (f s)) :
    Triple P (modifyGet fun s => (⟨⟩, f s) : EStateM ε σ PUnit) Q E where
  returns hs hr := by
    cases hr
    exact h _ hs
  faults _ hr := nomatch hr

theorem bind {f : α → EStateM ε σ β} (hx : Triple P x Q E) (hf : ∀ a, Triple (Q a) (f a) R E) :
    Triple P (x >>= f) R E where
  returns hs hr := by
    obtain ⟨a, s', hxs, hfs⟩ := bind_eq_ok.mp hr
    exact (hf a).returns (hx.returns hs hxs) hfs
  faults hs hr := by
    rcases bind_eq_error.mp hr with hxs | ⟨a, s', hxs, hfs⟩
    · exact hx.faults hs hxs
    · exact (hf a).faults (hx.returns hs hxs) hfs

/-- The state that `get` returns is the state it runs in. -/
theorem get {f : σ → EStateM ε σ α} (h : ∀ s, P s → Triple (fun t => t = s) (f s) Q E) :
    Triple P (MonadState.get >>= f) Q E where
  returns hs hr := (h _ hs).returns rfl hr
  faults hs hr := (h _ hs).faults rfl hr

/-- `get` where only facts about the returned state matter. -/
theorem look {f : σ → EStateM ε σ α} (h : ∀ s, P s → Triple P (f s) Q E) : Triple P
    (MonadState.get >>= f) Q E where
  returns hs hr := (h _ hs).returns hs hr
  faults hs hr := (h _ hs).faults hs hr

theorem ite {c : Prop} [Decidable c] {y : EStateM ε σ α} (hx : c → Triple P x Q E)
    (hy : ¬ c → Triple P y Q E) :
    Triple P (if c then x else y) Q E := by
  split
  · exact hx ‹_›
  · exact hy ‹_›

theorem before (h : Triple P x Q E) (hp : ∀ s, P' s → P s) : Triple P' x Q E where
  returns hs hr := h.returns (hp _ hs) hr
  faults hs hr := h.faults (hp _ hs) hr

theorem after (h : Triple P x Q E) (hq : ∀ a s, Q a s → Q' a s) : Triple P x Q' E where
  returns hs hr := hq _ _ (h.returns hs hr)
  faults := h.faults

theorem relax (h : Triple P x Q E) (he : ∀ s, E s → F s) : Triple P x Q F where
  returns := h.returns
  faults hs hr := he _ (h.faults hs hr)

/-- A fact of the precondition that does not depend on the state. -/
theorem given {fact : Prop} (h : fact → Triple P x Q E) : Triple (fun s => P s ∧ fact) x Q E where
  returns hs hr := (h hs.2).returns hs.1 hr
  faults hs hr := (h hs.2).faults hs.1 hr

/-- A triple may be proved for each state of its precondition. -/
theorem pinned (h : ∀ s, P s → Triple (fun t => t = s) x Q E) : Triple P x Q E where
  returns hs hr := (h _ hs).returns rfl hr
  faults hs hr := (h _ hs).faults rfl hr

theorem either (h : Triple P x Q E) (h' : Triple P' x Q E) : Triple (fun s => P s ∨ P' s) x Q E where
  returns hs hr := hs.elim (fun hs => h.returns hs hr) fun hs => h'.returns hs hr
  faults hs hr := hs.elim (fun hs => h.faults hs hr) fun hs => h'.faults hs hr

theorem both (h : Triple P x Q E) (h' : Triple P' x Q' E) :
    Triple (fun s => P s ∧ P' s) x (fun a s => Q a s ∧ Q' a s) E where
  returns hs hr := ⟨h.returns hs.1 hr, h'.returns hs.2 hr⟩
  faults hs hr := h.faults hs.1 hr

/-- Two predicates kept for reasons of their own. -/
theorem and (h : Triple P x Q E) (h' : Triple P' x Q' F) :
    Triple (fun s => P s ∧ P' s) x (fun a s => Q a s ∧ Q' a s) fun s => E s ∧ F s where
  returns hs hr := ⟨h.returns hs.1 hr, h'.returns hs.2 hr⟩
  faults hs hr := ⟨h.faults hs.1 hr, h'.faults hs.2 hr⟩

theorem tryCatch {handle : ε → EStateM ε σ α} (hx : Triple P x Q F) (hh : ∀ e, Triple F (handle e) Q E) :
    Triple P (MonadExcept.tryCatch x handle) Q E where
  returns {s a t} hs hr := by
    change EStateM.tryCatch x handle s = _ at hr
    rw [EStateM.tryCatch] at hr
    cases hxs : x s with
    | ok a s' =>
      rw [hxs] at hr
      cases hr
      exact hx.returns hs hxs
    | error e s' =>
      rw [hxs] at hr
      exact (hh e).returns (hx.faults hs hxs) hr
  faults {s e t} hs hr := by
    change EStateM.tryCatch x handle s = _ at hr
    rw [EStateM.tryCatch] at hr
    cases hxs : x s with
    | ok a s' =>
      rw [hxs] at hr
      cases hr
    | error e s' =>
      rw [hxs] at hr
      exact (hh e).faults (hx.faults hs hxs) hr

/-- A computation on one component keeps what the rest of the state says. -/
theorem zoom {view : τ → σ} {put : σ → τ → τ} {x : EStateM ε σ α} {P E : τ → Prop}
    (hput : ∀ s t, P t → P (put s t))
    (he : ∀ t, P t → E t) : Keeps P (Outcome.zoom view put x) E where
  returns {t a t'} ht hr := by
    obtain ⟨s, -, rfl⟩ := zoom_eq_ok hr
    exact hput s t ht
  faults {t e t'} ht hr := by
    obtain ⟨s, -, rfl⟩ := zoom_eq_error hr
    exact he _ (hput s t ht)

end Triple
end Outcome
