import Mathlib.Data.List.Perm.Basic
import SimpleNetwork.Base.Runs

/-! `timer::base`: one asio timer whose handler arms it again. A wait is pending
until its expiry is set anew or it is cancelled, which queues its handler with
an error, or until it expires, which queues it with success. What is queued stays
queued. The calls made and the runs of `on_time` are ghost state. -/
namespace SimpleNetwork
open Runs

/-- The public members; seconds are given as the milliseconds they are cut down to. -/
inductive TimerCall where
  | delay (milliseconds : UInt32) (repeating : Bool)
  | cancel
  deriving DecidableEq, Repr

/-- An `async_wait` with what its handler captures, the period its expiry was set
with, and the number of calls made before it started. -/
structure Wait where
  milliseconds : UInt32
  repeating : Bool
  expiry : UInt32
  since : Nat
  deriving DecidableEq, Repr

/-- A run of `on_time`: the wait that led to it and the calls made before it. -/
structure Firing where
  wait : Wait
  calls : List TimerCall
  deriving DecidableEq, Repr

/-- The last call made before the `on_time` is the `delay()` with the period and
the flag its wait has, and nothing was called since the wait started. -/
structure Firing.Belongs (f : Firing) : Prop where
  last : f.calls.getLast? = some (.delay f.wait.milliseconds f.wait.repeating)
  period : f.wait.expiry = f.wait.milliseconds
  since : f.wait.since = f.calls.length

structure TimerBase where
  expiry : UInt32 := 0
  pending : List Wait := []
  queue : List (Wait × Bool) := []
  calls : List TimerCall := []
  record : List Firing := []
  deriving DecidableEq, Repr

namespace TimerBase

def abort (s : TimerBase) : TimerBase :=
  { s with pending := [], queue := s.queue ++ s.pending.map fun w => (w, false) }

def expiresFromNow (milliseconds : UInt32) (s : TimerBase) : TimerBase :=
  { s.abort with expiry := milliseconds }

def doTime (milliseconds : UInt32) (repeating : Bool) (s : TimerBase) : TimerBase :=
  let s := s.abort
  { s with pending := s.pending ++ [⟨milliseconds, repeating, s.expiry, s.calls.length⟩] }

def call (s : TimerBase) (c : TimerCall) : TimerBase :=
  let s := { s with calls := s.calls ++ [c] }
  match c with
  | .delay milliseconds repeating => (s.expiresFromNow milliseconds).doTime milliseconds repeating
  | .cancel => s.abort

/-- The handler of a wait. Its `on_time` makes the calls of the script, and may
then throw. -/
def handler (w : Wait) (ec : Bool) (script : List TimerCall) (throws : Bool) (s : TimerBase) : TimerBase :=
  if ec then
    let s := s.expiresFromNow w.milliseconds
    let s := { s with record := s.record ++ [⟨w, s.calls⟩] }
    let s := script.foldl call s
    if w.repeating ∧ ¬ throws then s.doTime w.milliseconds w.repeating else s
  else s

end TimerBase

/-- A call from outside `on_time`, the expiry of a pending wait, and the run of a
queued handler. -/
inductive TimerEvent where
  | call (c : TimerCall)
  | expire (i : Nat)
  | run (i : Nat) (script : List TimerCall) (throws : Bool)
  deriving DecidableEq, Repr

namespace TimerBase

def next (s : TimerBase) : TimerEvent → Option TimerBase
  | .call c => some (s.call c)
  | .expire i =>
    s.pending[i]?.map fun w =>
      { s with pending := s.pending.eraseIdx i, queue := s.queue ++ [(w, true)] }
  | .run i script throws =>
    s.queue[i]?.map fun h => handler h.1 h.2 script throws { s with queue := s.queue.eraseIdx i }

def Step (s : TimerBase) (e : TimerEvent) (s' : TimerBase) : Prop := s.next e = some s'

def due (s : TimerBase) : List Wait := s.queue.filterMap fun h => if h.2 then some h.1 else none

/-- Each `on_time` belongs to the latest call, and a delay that does not repeat
has one at most. -/
def LastWins (s : TimerBase) : Prop :=
  (∀ f ∈ s.record, f.Belongs) ∧ s.record.Pairwise fun f g => f.calls.length = g.calls.length →
    g.wait.repeating

/-- No call is made while a handler is queued with success, and a repeating
`on_time` that returns leaves the timer on its own period. -/
def Timely (s : TimerBase) : TimerEvent → Prop
  | .call _ => s.due = []
  | .expire _ => True
  | .run i script throws => ∀ w, s.queue[i]? = some (w, true) → w.repeating → throws = false →
    script = [] ∨ script.getLast? = some (.delay w.milliseconds true)

def TimelyStep (s : TimerBase) (e : TimerEvent) (s' : TimerBase) : Prop := Step s e s' ∧ Timely s e

section Lemmas
variable {s : TimerBase}

private theorem due_append (l m : List (Wait × Bool)) :
    due { s with queue := l ++ m } = due { s with queue := l } ++ due { s with queue := m } :=
  List.filterMap_append

@[simp] private theorem due_abort : s.abort.due = s.due := by
  have hnone : (s.pending.map fun w => (w, false)).filterMap
      (fun h : Wait × Bool => if h.2 then some h.1 else none) = [] := by
    simp
  rw [due, abort, List.filterMap_append, hnone, List.append_nil]
  rfl

@[simp] private theorem due_call (c : TimerCall) : (s.call c).due = s.due := by
  cases c with
  | delay milliseconds repeating =>
    change (abort (expiresFromNow milliseconds _)).due = _
    rw [due_abort]
    exact due_abort
  | cancel => exact due_abort

private theorem queue_call (c : TimerCall) : ∃ rest, (s.call c).queue = s.queue ++ rest := by
  cases c with
  | delay milliseconds repeating => exact ⟨_, List.append_assoc _ _ _⟩
  | cancel => exact ⟨_, rfl⟩

@[simp] private theorem calls_call (c : TimerCall) : (s.call c).calls = s.calls ++ [c] := by
  cases c <;> rfl

@[simp] private theorem record_call (c : TimerCall) : (s.call c).record = s.record := by
  cases c <;> rfl

private theorem pending_delay (milliseconds : UInt32) (repeating : Bool) :
    (s.call (.delay milliseconds repeating)).pending =
    [⟨milliseconds, repeating, milliseconds,
      (s.calls ++ [TimerCall.delay milliseconds repeating]).length⟩] :=
  rfl

private theorem pending_call_length (c : TimerCall) : (s.call c).pending.length ≤ 1 := by
  cases c with
  | delay milliseconds repeating => exact Nat.le_refl 1
  | cancel => exact Nat.zero_le 1

@[simp] private theorem calls_foldl (script : List TimerCall) :
    (script.foldl call s).calls = s.calls ++ script := by
  induction script generalizing s with
  | nil => simp
  | cons c script ih => simp [ih]

@[simp] theorem record_foldl (script : List TimerCall) : (script.foldl call s).record = s.record := by
  induction script generalizing s with
  | nil => rfl
  | cons c script ih => simp [ih]

private theorem pending_foldl_length (h : s.pending.length ≤ 1) (script : List TimerCall) :
    (script.foldl call s).pending.length ≤ 1 := by
  induction script generalizing s with
  | nil => exact h
  | cons c script ih => exact ih (pending_call_length c)

/-- A handler that leaves the queue, and the rest of it. -/
theorem due_erase {i : Nat} {w : Wait} {ec : Bool} (h : s.queue[i]? = some (w, ec)) :
    ((if ec then [w] else []) ++ due { s with queue := s.queue.eraseIdx i }).Perm s.due := by
  obtain ⟨hi, hw⟩ := List.getElem?_eq_some_iff.mp h
  have hperm := (List.getElem_cons_eraseIdx_perm hi).filterMap fun h : Wait × Bool =>
    if h.2 then some h.1 else none
  rw [hw] at hperm
  cases ec with
  | true => simpa [due] using hperm
  | false => simpa [due] using hperm

end Lemmas

/-- At most one wait is pending, whatever is called and queued. -/
theorem pending_step {s s' : TimerBase} {e : TimerEvent} (h : s.pending.length ≤ 1) (hstep : Step s e s') :
    s'.pending.length ≤ 1 := by
  cases e with
  | call c =>
    cases hstep
    exact pending_call_length c
  | expire i =>
    obtain ⟨w, -, rfl⟩ := Option.map_eq_some_iff.mp hstep
    exact Nat.le_trans (List.eraseIdx_sublist _ _).length_le h
  | run i script throws =>
    obtain ⟨⟨w, ec⟩, -, rfl⟩ := Option.map_eq_some_iff.mp hstep
    unfold handler
    split
    · have hscript : (script.foldl call
          { (expiresFromNow w.milliseconds { s with queue := s.queue.eraseIdx i }) with
          record := s.record ++ [⟨w, s.calls⟩] }).pending.length ≤ 1 :=
            pending_foldl_length (by exact Nat.zero_le 1) script
      simp only
      split
      · exact Nat.le_refl 1
      · exact hscript
    · exact h

/-- A wait whose `on_time` would belong to the latest call. -/
structure Live (s : TimerBase) (w : Wait) : Prop where
  belongs : Firing.Belongs ⟨w, s.calls⟩
  first : w.repeating = false → ∀ f ∈ s.record, f.calls.length < s.calls.length

/-- The invariant of timely runs: one wait at most can still lead to an `on_time`. -/
structure Kept (s : TimerBase) : Prop where
  one : (s.pending ++ s.due).length ≤ 1
  live : ∀ w ∈ s.pending ++ s.due, s.Live w
  earlier : ∀ f ∈ s.record, f.calls.length ≤ s.calls.length
  wins : s.LastWins

section Timely
variable {s : TimerBase}

theorem Kept.call (h : Kept s) (hdue : s.due = []) (c : TimerCall) : Kept (s.call c) := by
  have hlater (f : Firing) (hf : f ∈ s.record) : f.calls.length < (s.call c).calls.length := by
    have hle := h.earlier f hf
    simp
    omega
  refine ⟨?_, ?_, fun f hf => ?_, ?_⟩
  · rw [due_call, hdue, List.append_nil]
    exact pending_call_length c
  · rw [due_call, hdue, List.append_nil]
    cases c with
    | delay milliseconds repeating =>
      rw [pending_delay, List.forall_mem_singleton]
      refine ⟨⟨?_, rfl, ?_⟩, fun _ f hf => hlater f hf⟩
      · exact List.getLast?_concat
      · rfl
    | cancel => exact fun w hw => absurd hw List.not_mem_nil
  · rw [record_call] at hf
    exact Nat.le_of_lt (hlater f hf)
  · rw [LastWins, record_call]
    exact h.wins

theorem Kept.calls (h : Kept s) (hdue : s.due = []) (script : List TimerCall) :
    Kept (script.foldl TimerBase.call s) ∧ (script.foldl TimerBase.call s).due = [] := by
  induction script generalizing s with
  | nil => exact ⟨h, hdue⟩
  | cons c script ih => exact ih (h.call hdue c) ((due_call c).trans hdue)

/-- The `on_time` of a wait that is not superseded. -/
theorem Kept.fired (h : Kept s) {w : Wait} (hw : s.Live w) (hpending : s.pending = []) (hdue : s.due = []) :
    Kept { s with record := s.record ++ [⟨w, s.calls⟩] } := by
  have hnone : s.pending ++ s.due = [] := by rw [hpending, hdue, List.append_nil]
  refine ⟨?_, ?_, ?_, ?_, ?_⟩
  · change (s.pending ++ s.due).length ≤ 1
    exact h.one
  · change ∀ w ∈ s.pending ++ s.due, _
    rw [hnone]
    exact fun w hw => nomatch hw
  · intro f hf
    rcases List.mem_append.mp hf with hf | hf
    · exact h.earlier f hf
    · have heq := List.mem_singleton.mp hf
      subst heq
      exact Nat.le_refl _
  · intro f hf
    rcases List.mem_append.mp hf with hf | hf
    · exact h.wins.1 f hf
    · rw [List.mem_singleton.mp hf]
      exact hw.belongs
  · refine List.pairwise_append.mpr ⟨h.wins.2, List.pairwise_singleton _ _, fun f hf g hg hsame => ?_⟩
    rw [List.mem_singleton.mp hg] at hsame ⊢
    cases hrepeating : w.repeating with
    | true => rfl
    | false => exact absurd hsame (Nat.ne_of_lt (hw.first hrepeating f hf))

/-- The handler's own re-arming, on the period and with the flag of the latest delay. -/
theorem Kept.doTime (h : Kept s) (hdue : s.due = []) {milliseconds : UInt32}
    (hlast : s.calls.getLast? = some (.delay milliseconds true)) (hexpiry : s.expiry = milliseconds) :
    Kept (s.doTime milliseconds true) := by
  have hnone : (s.doTime milliseconds true).due = [] := due_abort.trans hdue
  refine ⟨?_, ?_, h.earlier, h.wins⟩
  · rw [hnone]
    exact Nat.le_refl 1
  · rw [hnone, List.append_nil]
    change ∀ w ∈ [_], _
    rw [List.forall_mem_singleton]
    exact ⟨⟨hlast, hexpiry, rfl⟩, fun hr => nomatch hr⟩

private theorem Kept.expire (h : Kept s) {i : Nat} {w : Wait} (hw : s.pending[i]? = some w) :
    Kept { s with pending := s.pending.eraseIdx i, queue := s.queue ++ [(w, true)] } := by
  obtain ⟨hi, hget⟩ := List.getElem?_eq_some_iff.mp hw
  have hperm : (s.pending.eraseIdx i ++ due { s with queue := s.queue ++ [(w, true)] }).Perm
    (s.pending ++ s.due) := by
    have hdue : due { s with queue := s.queue ++ [(w, true)] } = s.due ++ [w] := due_append _ _
    rw [hdue, ← List.append_assoc]
    refine List.perm_append_comm.trans (.trans ?_ ((List.getElem_cons_eraseIdx_perm hi).append_right s.due))
    rw [hget]
    rfl
  refine ⟨?_, ?_, h.earlier, h.wins⟩
  · change (s.pending.eraseIdx i ++ due { s with queue := _ }).length ≤ 1
    rw [hperm.length_eq]
    exact h.one
  · intro u hu
    have hmem : u ∈ s.pending ++ s.due := hperm.mem_iff.mp hu
    exact ⟨(h.live u hmem).belongs, (h.live u hmem).first⟩

/-- A script that changes nothing, or ends on the delay it began with. -/
theorem left_on_period {milliseconds : UInt32} {script : List TimerCall}
    (hlast : s.calls.getLast? = some (.delay milliseconds true)) (hexpiry : s.expiry = milliseconds)
    (h : script = [] ∨ script.getLast? = some (.delay milliseconds true)) :
    (script.foldl TimerBase.call s).calls.getLast? = some (.delay milliseconds true) ∧
      (script.foldl TimerBase.call s).expiry = milliseconds := by
  rcases h with rfl | h
  · exact ⟨hlast, hexpiry⟩
  · obtain ⟨front, rfl⟩ := List.getLast?_eq_some_iff.mp h
    rw [calls_foldl, List.foldl_append, ← List.append_assoc]
    exact ⟨List.getLast?_concat, rfl⟩

theorem Kept.run (h : Kept s) {i : Nat} {w : Wait} {script : List TimerCall} {throws : Bool}
    (hw : s.queue[i]? = some (w, true)) (ht : w.repeating → throws = false →
      script = [] ∨ script.getLast? = some (.delay w.milliseconds true)) :
    Kept (handler w true script throws { s with queue := s.queue.eraseIdx i }) := by
  have hperm : (w :: due { s with queue := s.queue.eraseIdx i }).Perm s.due := due_erase hw
  have hmem : w ∈ s.due := hperm.mem_iff.mp (List.mem_cons_self ..)
  have hone := h.one
  rw [List.length_append, ← hperm.length_eq, List.length_cons] at hone
  have hpending : s.pending = [] := List.length_eq_zero_iff.mp (by omega)
  have hdue : due { s with queue := s.queue.eraseIdx i } = [] := List.length_eq_zero_iff.mp (by omega)
  have hlive := h.live w (List.mem_append_right _ hmem)
  obtain ⟨u, hu⟩ : ∃ u, u = expiresFromNow w.milliseconds { s with queue := s.queue.eraseIdx i } := ⟨_, rfl⟩
  have hudue : u.due = [] := by
    rw [hu]
    exact due_abort.trans hdue
  have hupending : u.pending = [] := by rw [hu]; rfl
  have hustart : Kept u := by
    refine ⟨?_, ?_, ?_, ?_⟩
    · rw [hupending, hudue]
      exact Nat.zero_le 1
    · rw [hupending, hudue]
      exact fun w hw => nomatch hw
    · rw [hu]
      exact h.earlier
    · rw [hu]
      exact h.wins
  have hulive : u.Live w := by
    rw [hu]
    exact ⟨hlive.belongs, hlive.first⟩
  obtain ⟨hend, henddue⟩ := (hustart.fired hulive hupending hudue).calls hudue script
  unfold handler
  rw [if_pos rfl, ← hu]
  simp only
  split
  · rename_i hagain
    have hrepeating : w.repeating = true := hagain.1
    rw [hrepeating]
    have hlast : u.calls.getLast? = some (.delay w.milliseconds true) := by
      rw [← hrepeating]
      exact hulive.belongs.last
    have hexpiry : u.expiry = w.milliseconds := by rw [hu]; rfl
    obtain ⟨hthen, hperiod⟩ := left_on_period hlast hexpiry (ht hagain.1 (by simpa using hagain.2))
      (s := { u with record := u.record ++ [⟨w, u.calls⟩] })
    exact hend.doTime henddue hthen hperiod
  · exact hend

end Timely

private theorem kept_step {s s' : TimerBase} {e : TimerEvent} (h : Kept s)
    (hstep : TimelyStep s e s') : Kept s' := by
  obtain ⟨hstep, htimely⟩ := hstep
  cases e with
  | call c =>
    cases hstep
    exact h.call htimely c
  | expire i =>
    obtain ⟨w, hw, rfl⟩ := Option.map_eq_some_iff.mp hstep
    exact h.expire hw
  | run i script throws =>
    obtain ⟨⟨w, ec⟩, hw, rfl⟩ := Option.map_eq_some_iff.mp hstep
    cases ec with
    | true => exact h.run hw (htimely w hw)
    | false =>
      have hperm : (due { s with queue := s.queue.eraseIdx i }).Perm s.due := due_erase hw
      have hlives : (s.pending ++ due { s with queue := s.queue.eraseIdx i }).Perm
        (s.pending ++ s.due) := hperm.append_left _
      refine ⟨?_, fun u hu => ?_, h.earlier, h.wins⟩
      · change (s.pending ++ due { s with queue := s.queue.eraseIdx i }).length ≤ 1
        rw [hlives.length_eq]
        exact h.one
      · have hmem : u ∈ s.pending ++ s.due := hlives.mem_iff.mp hu
        exact ⟨(h.live u hmem).belongs, (h.live u hmem).first⟩

private theorem kept_new : Kept {} :=
  ⟨Nat.zero_le 1, fun _ hw => (nomatch hw), fun _ hf => (nomatch hf), fun _ hf => (nomatch hf), .nil⟩

section Untimely
variable {s : TimerBase}

/-- Running a handler that is queued with success adds its `on_time` to the record. -/
theorem run_recorded {i : Nat} {w : Wait} (h : s.queue[i]? = some (w, true)) :
    ∃ s', Step s (.run i [] true) s' ∧ ⟨w, s.calls⟩ ∈ s'.record := by
  have hstep : Step s (.run i [] true) (handler w true [] true { s with queue := s.queue.eraseIdx i }) := by
    rw [Step, next, h]
    rfl
  refine ⟨_, hstep, ?_⟩
  unfold handler
  rw [if_pos rfl]
  simp [expiresFromNow, abort]

/-- A wait that would not belong to the latest call can still get its `on_time`. -/
theorem pending_lost {w : Wait} (hw : s.pending = [w]) (hb : ¬ Firing.Belongs ⟨w, s.calls⟩) :
    ∃ es s', Run Step s es s' ∧ ¬ s'.LastWins := by
  have hexpire : Step s (.expire 0) { s with pending := [], queue := s.queue ++ [(w, true)] } := by
    rw [Step, next, hw]
    rfl
  have hqueue : (s.queue ++ [(w, true)])[s.queue.length]? = some (w, true) := List.getElem?_concat_length
  obtain ⟨s', hrun, hmem⟩ :=
    run_recorded (s := { s with pending := [], queue := s.queue ++ [(w, true)] }) hqueue
  exact ⟨_, s', .cons hexpire (.cons hrun (.nil _)), fun hl => hb (hl.1 _ hmem)⟩

/-- After an untimely step the rest of the run can go wrong. -/
theorem Kept.lost (h : Kept s) {e : TimerEvent} {s' : TimerBase} (hstep : Step s e s') (ht : ¬ Timely s e) :
    ∃ es s'', Run Step s' es s'' ∧ ¬ s''.LastWins := by
  cases e with
  | call c =>
    cases hstep
    obtain ⟨w, hw⟩ := List.exists_mem_of_ne_nil _ ht
    obtain ⟨i, hi⟩ : ∃ i, s.queue[i]? = some (w, true) := by
      obtain ⟨⟨u, ec⟩, hu, hsome⟩ := List.mem_filterMap.mp hw
      obtain ⟨i, hi⟩ := List.mem_iff_getElem?.mp hu
      refine ⟨i, ?_⟩
      cases ec with
      | true =>
        cases hsome
        exact hi
      | false => cases hsome
    obtain ⟨rest, hrest⟩ := queue_call (s := s) c
    have hqueued : (s.call c).queue[i]? = some (w, true) := by
      rw [hrest, List.getElem?_append_left (List.getElem?_eq_some_iff.mp hi).1]
      exact hi
    obtain ⟨s'', hrun, hmem⟩ := run_recorded hqueued
    refine ⟨_, s'', .cons hrun (.nil _), fun hl => ?_⟩
    have hsince := (h.live w (List.mem_append_right _ hw)).belongs.since
    have hnow := (hl.1 _ hmem).since
    simp only [calls_call, List.length_append, List.length_cons, List.length_nil] at hsince hnow
    omega
  | expire i => exact absurd trivial ht
  | run i script throws =>
    simp only [Timely, not_forall, not_or] at ht
    obtain ⟨w, hw, hrepeating, rfl, hne, hlast⟩ := ht
    have hs' : handler w true script false { s with queue := s.queue.eraseIdx i } = s' := by
      rw [Step, next, hw] at hstep
      exact Option.some_inj.mp hstep
    rw [handler, if_pos rfl, if_pos ⟨hrepeating, Bool.false_ne_true⟩] at hs'
    subst hs'
    refine pending_lost rfl fun hb => hlast ?_
    have hthen := hb.last
    change ((script.foldl TimerBase.call _).calls).getLast? =
      some (.delay w.milliseconds w.repeating) at hthen
    rw [calls_foldl, List.getLast?_append_of_ne_nil _ hne, hrepeating] at hthen
    exact hthen

end Untimely

/-- At most one wait is ever pending. In a run of timely steps the latest call
decides every `on_time`, and after any other step the run can go on to one that
it does not decide. -/
theorem last_delay_wins {es : List TimerEvent} {s : TimerBase} (h : Run Step {} es s) :
    s.pending.length ≤ 1 ∧ (Run TimelyStep {} es s → s.LastWins ∧
      ∀ e s', Step s e s' → ¬ Timely s e → ∃ es' s'', Run Step s' es' s'' ∧ ¬ s''.LastWins) := by
  refine ⟨h.invariant (I := fun s => s.pending.length ≤ 1) (fun hs hstep => pending_step hs hstep)
    (Nat.zero_le 1), ?_⟩
  intro htimely
  have hkept : Kept s := htimely.invariant (I := Kept) (fun hs hstep => kept_step hs hstep) kept_new
  exact ⟨hkept.wins, fun e s' hstep ht => hkept.lost hstep ht⟩

/-- A repeating delay runs, and a single one replaces it and is cancelled by its own `on_time`. -/
theorem last_delay_wins_replaced : ∃ es s, Run TimelyStep {} es s ∧ s.pending.length ≤ 1 ∧ s.LastWins ∧
    s.record.map (fun f => f.wait.milliseconds) = [20, 500] := by
  have hrun : Run TimelyStep {} [.call (.delay 20 true), .expire 0, .run 0 [] false, .call (.delay 500 false),
      .run 0 [] false, .expire 0, .run 0 [.cancel] false] _ :=
    .cons ⟨rfl, rfl⟩ <| .cons ⟨rfl, trivial⟩ <| .cons ⟨rfl, fun _ _ _ _ => .inl rfl⟩ <| .cons ⟨rfl, rfl⟩ <|
    .cons ⟨rfl, fun _ _ _ _ => .inl rfl⟩ <| .cons ⟨rfl, trivial⟩ <|
    .cons ⟨rfl, fun w hw hr => by cases hw; exact nomatch hr⟩ <| .nil _
  obtain ⟨hone, hwins⟩ := last_delay_wins (hrun.mono fun h => h.1)
  exact ⟨_, _, hrun, hone, (hwins hrun).1, by decide⟩

/-- A `cancel()` inside a repeating `on_time`, and one while a handler is queued:
`on_time` runs once more. -/
theorem cancelled_runs_again :
    (∃ s, Run Step {} [.call (.delay 20 true), .expire 0, .run 0 [.cancel] false, .expire 0,
      .run 0 [] false] s ∧
      (∃ f ∈ s.record, f.calls.getLast? = some .cancel) ∧ ¬ s.LastWins) ∧
    ∃ s, Run Step {} [.call (.delay 20 false), .expire 0, .call .cancel, .run 0 [] false] s ∧
      (∃ f ∈ s.record, f.calls.getLast? = some .cancel) ∧ ¬ s.LastWins := by
  have hlost (s : TimerBase) (h : ∃ f ∈ s.record, f.calls.getLast? = some .cancel) : ¬ s.LastWins := by
    obtain ⟨f, hf, hlast⟩ := h
    intro hl
    exact nomatch hlast.symm.trans (hl.1 f hf).last
  have hrearmed : Run Step {} [.call (.delay 20 true), .expire 0, .run 0 [.cancel] false, .expire 0,
      .run 0 [] false] _ :=
    .cons rfl <| .cons rfl <| .cons rfl <| .cons rfl <| .cons rfl <| .nil _
  have hstale : Run Step {} [.call (.delay 20 false), .expire 0, .call .cancel, .run 0 [] false] _ :=
    .cons rfl <| .cons rfl <| .cons rfl <| .cons rfl <| .nil _
  exact ⟨⟨_, hrearmed, by decide, hlost _ (by decide)⟩, ⟨_, hstale, by decide, hlost _ (by decide)⟩⟩

end TimerBase
end SimpleNetwork
