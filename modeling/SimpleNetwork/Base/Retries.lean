import SimpleNetwork.Base.Outcome

/-! Loops that try again. A round answers, fails, or leaves a state in which the
next round starts; nothing bounds the number of rounds. -/
namespace Retries
variable {ε σ α : Type}

/-- How a loop ends, with the states in which it tried again. A loop that does
not end has no derivation. -/
inductive Loop (round : EStateM ε σ (Option α)) : σ → List σ → EStateM.Result ε σ α → Prop
  | answered {s s' : σ} {a : α} (h : round s = .ok (some a) s') : Loop round s [] (.ok a s')
  | failed {s s' : σ} {e : ε} (h : round s = .error e s') : Loop round s [] (.error e s')
  | again {s s' : σ} {retries : List σ} {r : EStateM.Result ε σ α} (h : round s = .ok none s')
      (rest : Loop round s' retries r) : Loop round s (s' :: retries) r

variable {round : EStateM ε σ (Option α)}

/-- A loop ends in one way at most. -/
theorem Loop.unique {s : σ} {retries retries' : List σ} {r r' : EStateM.Result ε σ α}
    (h : Loop round s retries r)
    (h' : Loop round s retries' r') : retries = retries' ∧ r = r' := by
  induction h generalizing retries' r' with
  | answered h =>
    cases h' with
    | answered h' =>
      cases h.symm.trans h'
      exact ⟨rfl, rfl⟩
    | failed h' | again h' _ => cases h.symm.trans h'
  | failed h =>
    cases h' with
    | failed h' =>
      cases h.symm.trans h'
      exact ⟨rfl, rfl⟩
    | answered h' | again h' _ => cases h.symm.trans h'
  | again h _ ih =>
    cases h' with
    | again h' rest =>
      cases h.symm.trans h'
      obtain ⟨rfl, rfl⟩ := ih rest
      exact ⟨rfl, rfl⟩
    | answered h' | failed h' => cases h.symm.trans h'

/-- The termination rule: what holds with `n` tries left, and of the next state
with one less. -/
theorem loop_ends {P : Nat → σ → Prop} (hlast : ∀ s s', P 0 s → round s ≠ .ok none s')
    (hmore : ∀ n s s', P (n + 1) s → round s = .ok none s' → P n s') {n : Nat} {s : σ} (h : P n s) :
    ∃ retries r, Loop round s retries r ∧ retries.length ≤ n := by
  induction n generalizing s with
  | zero =>
    cases hround : round s with
    | error e s' => exact ⟨[], _, .failed hround, Nat.le_refl 0⟩
    | ok a s' =>
      cases a with
      | some a => exact ⟨[], _, .answered hround, Nat.le_refl 0⟩
      | none => exact absurd hround (hlast s s' h)
  | succ n ih =>
    cases hround : round s with
    | error e s' => exact ⟨[], _, .failed hround, Nat.zero_le _⟩
    | ok a s' =>
      cases a with
      | some a => exact ⟨[], _, .answered hround, Nat.zero_le _⟩
      | none =>
        obtain ⟨retries, r, hloop, hlen⟩ := ih (hmore n s s' h hround)
        exact ⟨s' :: retries, r, .again hround hloop, Nat.succ_le_succ hlen⟩

/-- A loop that goes through known states up to the round that answers. -/
theorem loop_of_orbit {orbit : Nat → σ} {n : Nat} {a : α} {s' : σ}
    (hagain : ∀ i < n, round (orbit i) = .ok none (orbit (i + 1)))
    (hanswer : round (orbit n) = .ok (some a) s') :
    Loop round (orbit 0) ((List.range n).map fun i => orbit (i + 1)) (.ok a s') := by
  induction n generalizing orbit with
  | zero => exact .answered hanswer
  | succ n ih =>
    have hrest := ih (fun i hi => hagain (i + 1) (Nat.succ_lt_succ hi)) hanswer
    rw [List.range_succ_eq_map, List.map_cons, List.map_map]
    exact .again (hagain 0 (Nat.succ_pos n)) hrest

/-- What one retry does to the state, every retry does. -/
theorem Loop.chain {I : σ → Prop} {R : σ → σ → Prop} (hretry : ∀ s s', I s → round s = .ok none s' →
      I s' ∧ R s s')
    {s : σ} {retries : List σ} {r : EStateM.Result ε σ α} (h : Loop round s retries r) (hs : I s) :
    (s :: retries).IsChain R := by
  induction h with
  | answered | failed => exact .singleton _
  | again h _ ih =>
    obtain ⟨hs', hR⟩ := hretry _ _ hs h
    exact .cons_cons hR (ih hs')

/-- The loop with a bound on its rounds. -/
def bounded (exhausted : ε) (round : EStateM ε σ (Option α)) : Nat → EStateM ε σ α
  | 0 => throw exhausted
  | fuel + 1 => do
    match ← round with
    | some a => pure a
    | none => bounded exhausted round fuel

/-- A bound that is not reached makes no difference. -/
theorem Loop.bounded_eq {exhausted : ε} {s : σ} {retries : List σ} {r : EStateM.Result ε σ α}
    (h : Loop round s retries r)
    {fuel : Nat} (hfuel : retries.length < fuel) : bounded exhausted round fuel s = r := by
  induction h generalizing fuel with
  | answered h =>
    obtain ⟨fuel, rfl⟩ := Nat.exists_eq_succ_of_ne_zero (Nat.ne_of_gt hfuel)
    rw [bounded, Outcome.bind_ok h]
    rfl
  | failed h =>
    obtain ⟨fuel, rfl⟩ := Nat.exists_eq_succ_of_ne_zero (Nat.ne_of_gt hfuel)
    rw [bounded, Outcome.bind_error h]
  | again h _ ih =>
    obtain ⟨fuel, rfl⟩ := Nat.exists_eq_succ_of_ne_zero (Nat.ne_of_gt (Nat.zero_lt_of_lt hfuel))
    rw [bounded, Outcome.bind_ok h]
    exact ih (Nat.lt_of_succ_lt_succ hfuel)

end Retries
