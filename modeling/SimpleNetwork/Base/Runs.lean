import Mathlib.Tactic.Common

/-! Finite labelled runs of a step relation, with the invariant rule and the
forward-simulation rule. -/
namespace Runs
variable {σ τ ε : Type*}

inductive Run (step : σ → ε → σ → Prop) : σ → List ε → σ → Prop
  | nil (s : σ) : Run step s [] s
  | cons {s u t : σ} {e : ε} {es : List ε} : step s e u → Run step u es t → Run step s (e :: es) t

/-- The steps that are made where a condition holds. -/
def Where (step : σ → ε → σ → Prop) (P : σ → ε → Prop) (s : σ) (e : ε) (s' : σ) : Prop := step s e s' ∧ P s e

variable {step : σ → ε → σ → Prop}

theorem Run.invariant {I : σ → Prop} (hstep : ∀ {s e s'}, I s → step s e s' → I s')
    {s t : σ} {es : List ε} (hrun : Run step s es t) (hs : I s) : I t := by
  induction hrun with
  | nil => exact hs
  | cons h _ ih => exact ih (hstep hs h)

theorem Run.mono {step' : σ → ε → σ → Prop} (hstep : ∀ {s e s'}, step s e s' → step' s e s')
    {s t : σ} {es : List ε}
    (hrun : Run step s es t) : Run step' s es t := by
  induction hrun with
  | nil s => exact .nil s
  | cons h _ ih => exact .cons (hstep h) ih

/-- A run knows of each step what holds of all its labels. -/
theorem Run.restrict {P : ε → Prop} {s t : σ} {es : List ε} (hrun : Run step s es t) (hes : ∀ e ∈ es, P e) :
    Run (fun s e s' => step s e s' ∧ P e) s es t := by
  induction hrun with
  | nil s => exact .nil s
  | cons h _ ih =>
    exact .cons ⟨h, hes _ List.mem_cons_self⟩ (ih fun e he => hes e (List.mem_cons_of_mem _ he))

/-- A run that a function computes step by step. -/
theorem Run.of_foldlM {next : σ → ε → Option σ}
    (hnext : ∀ {s e s'}, next s e = some s' → step s e s') {s t : σ} {es : List ε}
    (h : es.foldlM next s = some t) : Run step s es t := by
  induction es generalizing s with
  | nil =>
    cases h
    exact .nil _
  | cons e es ih =>
    obtain ⟨u, hfirst, hrest⟩ := Option.bind_eq_some_iff.mp (show (next s e).bind _ = some t from h)
    exact .cons (hnext hfirst) (ih hrest)

/-- Whether each label of a sequence is enabled where it comes, when a function makes the steps. -/
def allEnabled (enabled : σ → ε → Bool) (next : σ → ε → σ) : σ → List ε → Bool
  | _, [] => true
  | s, e :: es => enabled s e && allEnabled enabled next (next s e) es

theorem Run.of_allEnabled {enabled : σ → ε → Bool} {next : σ → ε → σ}
    (hstep : ∀ {s e}, enabled s e → step s e (next s e))
    {s : σ} {es : List ε} (h : allEnabled enabled next s es) : Run step s es (es.foldl next s) := by
  induction es generalizing s with
  | nil => exact .nil s
  | cons e es ih =>
    obtain ⟨he, hes⟩ := Bool.and_eq_true_iff.mp h
    exact .cons (hstep he) (ih hes)

/-- The invariant rule for properties that also speak of the labels so far. -/
theorem Run.history {I : List ε → σ → Prop} (hstep : ∀ {es s e s'}, I es s → step s e s' → I (es ++ [e]) s')
    {s t : σ} {es : List ε} (hrun : Run step s es t) {before : List ε} (hs : I before s) :
    I (before ++ es) t := by
  induction hrun generalizing before with
  | nil => simpa using hs
  | cons h _ ih => simpa using ih (hstep hs h)

/-- One-step simulation lifts to runs with the same labels. -/
theorem Run.simulate {step' : τ → ε → τ → Prop} {R : σ → τ → Prop}
    (hstep : ∀ {s e s' q}, R s q → step s e s' → ∃ q', step' q e q' ∧ R s' q')
    {s t : σ} {es : List ε} (hrun : Run step s es t) {q : τ} (hs : R s q) :
    ∃ q', Run step' q es q' ∧ R t q' := by
  induction hrun generalizing q with
  | nil => exact ⟨q, .nil q, hs⟩
  | cons h _ ih =>
    obtain ⟨q', hq, hr⟩ := hstep hs h
    obtain ⟨q'', hq', hr'⟩ := ih hr
    exact ⟨q'', .cons hq hq', hr'⟩

/-- What holds of every entry of a trace and what came before it, one entry at a time. -/
theorem forall_split_concat {α : Type*} {trace : List α} {e : α} {P : List α → α → Prop} :
    (∀ before x after, trace ++ [e] = before ++ x :: after → P before x) ↔
      (∀ before x after, trace = before ++ x :: after → P before x) ∧ P trace e := by
  constructor
  · intro h
    refine ⟨fun before x after htrace => h before x (after ++ [e]) ?_, h trace e [] rfl⟩
    rw [htrace, List.append_assoc]
    rfl
  · rintro ⟨htrace, hlast⟩ before x after hsplit
    rcases List.eq_nil_or_concat after with rfl | ⟨after, y, rfl⟩
    · obtain ⟨rfl, hxe⟩ := List.append_inj' hsplit rfl
      cases hxe
      exact hlast
    · rw [List.concat_eq_append, ← List.cons_append, ← List.append_assoc] at hsplit
      exact htrace before x after (List.append_inj' hsplit rfl).1

/-- Two histories in one, each in its own order. -/
inductive Interleaved {α : Type*} : List α → List α → List α → Prop
  | nil : Interleaved [] [] []
  | left {xs ys zs : List α} (x : α) : Interleaved xs ys zs → Interleaved (xs ++ [x]) ys (zs ++ [x])
  | right {xs ys zs : List α} (y : α) : Interleaved xs ys zs → Interleaved xs (ys ++ [y]) (zs ++ [y])

namespace Interleaved
variable {α : Type*} {xs ys zs : List α}

theorem swap (h : Interleaved xs ys zs) : Interleaved ys xs zs := by
  induction h with
  | nil => exact .nil
  | left x _ ih => exact ih.right x
  | right y _ ih => exact ih.left y

theorem lefts (h : Interleaved xs ys zs) (more : List α) : Interleaved (xs ++ more) ys (zs ++ more) := by
  induction more generalizing xs zs with
  | nil => rwa [List.append_nil, List.append_nil]
  | cons x more ih =>
    rw [List.append_cons, List.append_cons zs]
    exact ih (h.left x)

theorem rights (h : Interleaved xs ys zs) (more : List α) : Interleaved xs (ys ++ more) (zs ++ more) :=
  (h.swap.lefts more).swap

theorem eq_right (h : Interleaved xs ys zs) (hnone : xs = []) : zs = ys := by
  induction h with
  | nil => rfl
  | left x _ _ => exact absurd hnone (List.append_ne_nil_of_right_ne_nil _ (List.cons_ne_nil _ _))
  | right y _ ih => rw [ih hnone]

end Interleaved
end Runs
