import SimpleNetwork.Asio.Connector
import SimpleNetwork.Base.Triple

/-! Where control is in a connector, what is then known of its session, and the
socket functions that run no application code. -/
namespace SimpleNetwork
open Outcome

def Action.isEffect : Action → Bool
  | .closeSocket | .setState _ | .resetRecv | .resetSend | .release => true
  | _ => false

/-- An effect by the handler of an operation that an earlier session started. -/
def Entry.Stale (e : Entry) : Prop := e.action.isEffect ∧ ∃ c ∈ e.cause, c < e.session

/-- A `connect()` call finds nothing outstanding and does not come from the
`on_recv` of a completion handler. -/
def Action.isClean : Action → Bool
  | .connect outstanding inRecv => outstanding = 0 && !inRecv
  | _ => true

instance (e : Entry) : Decidable e.Stale := inferInstanceAs (Decidable (_ ∧ _))

namespace Asio
variable {κ : Type}

/-- Every `connect()` call so far was clean. -/
def Clean (a : Asio κ) : Prop := ∀ e ∈ a.trace, e.action.isClean

/-- Outstanding operations belong to the current session, and no effect was stale. -/
def Current (a : Asio κ) : Prop := (∀ p ∈ a.pending, p.session = a.session) ∧ ∀ e ∈ a.trace, ¬ e.Stale

/-- The socket as far as these two and the sessions of handlers depend on it. -/
def core (a : Asio κ) : Asio κ :=
  { a with flags := 0, isOpen := false, front := [], answers := [], scripts := [] }

instance (a : Asio κ) : Decidable a.Clean := inferInstanceAs (Decidable (∀ e ∈ a.trace, _))

end Asio

/-- Where control is: in application code outside handlers, in an `on_recv` or
another callback of a handler of session `n`, in such a handler, or in one that
has notified the application and may have lost its session. -/
inductive Mode where
  | application
  | inRecv (n : Nat)
  | notified (n : Nat)
  | handler (n : Nat)
  | left (n : Nat)

namespace Mode
variable {κ : Type} (t : Transport)

def running : Mode → Option Nat
  | handler n | left n => some n
  | _ => none

def isInRecv : Mode → Bool
  | inRecv _ => true
  | _ => false

/-- What is known of the session. After a notification a kcp handler is still in
its session or finds no control block. -/
def Pinned : Mode → Asio κ → Prop
  | application, _ => True
  | inRecv n, a | handler n, a => a.session = n
  | notified n, a | left n, a => t = .kcp → a.session = n ∨ a.kcp = none

def after : Mode → Mode
  | handler n => left n
  | m => m

def entered (fromRecv : Bool) : Mode → Mode
  | handler n => if fromRecv then inRecv n else notified n
  | left n => notified n
  | m => m

def returned (fromRecv : Bool) (m : Mode) : Mode := if fromRecv then m else m.after

def begun : Mode → Mode
  | notified _ => application
  | m => m

/-- A handler that may have lost its session has no effects any more. -/
def Active : Mode → Prop
  | left _ => False
  | _ => True

variable {m : Mode}

theorem active_of_running (h : m.running = none) : m.Active := by
  cases m with
  | left n => cases h
  | application | inRecv n | notified n | handler n => trivial

theorem after_of_running (h : m.running = none) : m.after = m := by
  cases m with
  | handler n => cases h
  | application | inRecv n | notified n | left n => rfl

end Mode

namespace Connection
variable {κ : Type} {t : Transport} {m : Mode} {K : Ikcp κ} {cb : Callbacks Circle κ} {s : Sock Circle κ}

def At (t : Transport) (m : Mode) (s : Sock Circle κ) : Prop :=
  s.socket.running = m.running ∧ s.socket.inRecv = m.isInRecv ∧
    (s.socket.Clean → s.socket.Current ∧ m.Pinned t s.socket)

def Good (s : Sock Circle κ) : Prop := s.socket.Clean → s.socket.Current

theorem At.good (h : At t m s) : Good s := fun hc => (h.2.2 hc).1

/-- A handler weakens to one that may have lost its session. -/
theorem At.after (h : At t m s) : At t m.after s := by
  cases m with
  | handler n =>
    obtain ⟨hr, hi, ho⟩ := h
    refine ⟨hr, hi, ?_⟩
    intro hc
    obtain ⟨hcur, hn⟩ := ho hc
    exact ⟨hcur, fun _ => .inl hn⟩
  | application | inRecv n | notified n | left n => exact h

/-- A recorded action keeps the invariant, an effect only in its own session. -/
theorem At.noted {action : Action} (h : At t m s)
    (hown : action.isEffect → s.socket.Clean → ∀ c ∈ m.running, s.socket.session = c) :
    At t m { s with socket := { s.socket with
      trace := s.socket.trace ++ [⟨s.socket.session, s.socket.running, action⟩] } } := by
  obtain ⟨hr, hi, ho⟩ := h
  refine ⟨hr, hi, ?_⟩
  intro hc
  have hold : s.socket.Clean := fun e he => hc e (List.mem_append_left _ he)
  obtain ⟨⟨hpending, htrace⟩, hpin⟩ := ho hold
  refine ⟨⟨hpending, ?_⟩, ?_⟩
  · intro e he
    rcases List.mem_append.mp he with he | he
    · exact htrace e he
    · rw [List.mem_singleton] at he
      subst he
      rintro ⟨heffect, c, hcause, hlt⟩
      rw [← hown heffect hold c (hr ▸ hcause)] at hlt
      exact Nat.lt_irrefl _ hlt
  · cases m <;> exact hpin

/-- An active mode is in its own session. -/
theorem At.own (h : At t m s) (hm : m.Active) : s.socket.Clean → ∀ c ∈ m.running, s.socket.session = c := by
  intro hc c hrun
  cases m with
  | handler n =>
    cases hrun
    exact (h.2.2 hc).2
  | left n => exact hm.elim
  | application | inRecv n | notified n => cases hrun

section Steps

private theorem note_keeps {action : Action} (hm : action.isEffect → m.Active) :
    Keeps (At (κ := κ) t m) (note action) Good :=
  Triple.modify fun _ h => h.noted fun he => h.own (hm he)

/-- An action that is no effect may be recorded anywhere. -/
theorem note_silent {action : Action} (h : action.isEffect = false) :
    Keeps (At (κ := κ) t m) (note action) Good :=
  note_keeps fun he => nomatch h.symm.trans he

theorem recv_keeps {α : Type} {x : EStateM Fault Circle α} : Keeps (At (κ := κ) t m) (recv x) Good :=
  Triple.zoom (fun _ _ h => h) fun _ h => h.good

theorem send_frame {α : Type} {x : EStateM Fault Circle α} {P : Sock Circle κ → Prop}
    (hP : ∀ b s, P s → P { s with sendBuff := b }) (hgood : ∀ s, P s → Good s) : Keeps P (send x) Good :=
  Triple.zoom hP hgood

theorem send_keeps {α : Type} {x : EStateM Fault Circle α} : Keeps (At (κ := κ) t m) (send x) Good :=
  send_frame (fun _ _ h => h) fun _ h => h.good

theorem start_keeps {operation : Operation} : Keeps (At (κ := κ) t m) (start operation) Good := by
  refine Triple.modify fun s h => ?_
  obtain ⟨hr, hi, ho⟩ := h
  refine ⟨hr, hi, ?_⟩
  intro hc
  obtain ⟨⟨hpending, htrace⟩, hpin⟩ := ho hc
  refine ⟨⟨?_, htrace⟩, ?_⟩
  · intro p hp
    rcases List.mem_append.mp hp with hp | hp
    · exact hpending p hp
    · rw [List.mem_singleton] at hp
      rw [hp]
  · cases m <;> exact hpin

/-- Fields that the invariant does not mention may change freely. -/
theorem socketDo_keeps {f : Asio κ → Asio κ} (hf : ∀ a, (f a).core = a.core) : Keeps (At t m)
    (socketDo f) Good := by
  refine Triple.modify fun s h => ?_
  have hcore (a : Asio κ) : At t m { s with socket := a } ↔ At t m { s with socket := a.core } := by
    cases m <;> exact Iff.rfl
  rw [hcore, hf]
  exact (hcore s.socket).mp h

theorem nextAnswer_keeps : Keeps (At (κ := κ) t m) nextAnswer Good := by
  refine Triple.look fun s _ => ?_
  split
  · exact Triple.pure fun _ h => h
  · refine Triple.bind (socketDo_keeps fun _ => rfl) fun _ => ?_
    exact Triple.pure fun _ h => h

theorem nonBlocking_keeps : Keeps (At (κ := κ) t m) nonBlocking Good := by
  refine Triple.look fun s _ => Triple.ite (fun _ => Triple.pure fun _ h => h) fun _ => ?_
  exact Triple.throw fun _ h => h.good

theorem setState_keeps {state : ConnectionState} (hm : m.Active) :
    Keeps (At (κ := κ) t m) (setState state) Good :=
  Triple.bind (Triple.modify fun _ h => h) fun _ => note_keeps fun _ => hm

theorem closeSocket_keeps (hm : m.Active) : Keeps (At (κ := κ) t m) closeSocket Good :=
  Triple.bind (socketDo_keeps fun _ => rfl) fun _ => note_keeps fun _ => hm

theorem resetRecv_keeps (hm : m.Active) : Keeps (At (κ := κ) t m) resetRecv Good :=
  Triple.bind (Triple.modify fun _ h => h) fun _ => note_keeps fun _ => hm

theorem resetSend_keeps (hm : m.Active) : Keeps (At (κ := κ) t m) resetSend Good :=
  Triple.bind (Triple.modify fun _ h => h) fun _ => note_keeps fun _ => hm

theorem load_keeps {P E : Sock Circle κ → Prop} (hE : ∀ s, P s → E s) (d : Data) (start count : UInt64) :
    Keeps P (d.load start count) E :=
  Triple.ite (fun _ => Triple.pure fun _ h => h) fun _ => Triple.throw hE

theorem store_keeps {P E : Sock Circle κ → Prop} (hE : ∀ s, P s → E s) (d : Data) (start : UInt64)
    (bytes : List UInt8) :
    Keeps P (d.store start bytes) E :=
  Triple.ite (fun _ => Triple.pure fun _ h => h) fun _ => Triple.throw hE

theorem doWriteTcp_keeps : Keeps (At (κ := κ) t m) doWriteTcp Good := by
  refine Triple.look fun s _ => Triple.ite (fun _ => Triple.ite (fun _ => ?_) ?_) ?_
  · refine Triple.bind (socketDo_keeps fun _ => rfl) fun _ => ?_
    exact start_keeps
  all_goals exact fun _ => Triple.pure fun _ h => h

theorem openTcp_keeps : Keeps (At (κ := κ) t m) openTcp Good := by
  refine Triple.bind (note_silent rfl) fun _ => ?_
  refine Triple.bind nonBlocking_keeps fun _ => ?_
  refine Triple.bind start_keeps fun _ => ?_
  exact doWriteTcp_keeps

theorem sendOnce_keeps : Keeps (At (κ := κ) t m) sendOnce Good := by
  unfold sendOnce
  refine Triple.look fun s _ => ?_
  refine Triple.bind send_keeps fun bytes => ?_
  refine Triple.bind nextAnswer_keeps fun answer => ?_
  refine Triple.ite (fun _ => ?_) fun _ => Triple.pure fun _ h => h
  refine Triple.bind send_keeps fun _ => ?_
  refine Triple.bind (note_silent rfl) fun _ => ?_
  exact Triple.pure fun _ h => h

theorem doRead_keeps : Keeps (At (κ := κ) t m) (doRead t) Good := by
  unfold doRead
  split
  · exact start_keeps
  · refine Triple.bind recv_keeps fun _ => ?_
    exact Triple.look fun s _ => start_keeps
  · exact start_keeps

theorem sendDatagram_keeps {bytes : List UInt8} : Keeps (At (κ := κ) t m) (sendDatagram bytes) Good := by
  unfold sendDatagram
  refine Triple.bind nextAnswer_keeps fun answer => ?_
  refine Triple.ite (fun _ => ?_) fun _ => Triple.pure fun _ h => h
  refine Triple.bind (note_silent rfl) fun _ => ?_
  exact Triple.pure fun _ h => h

theorem stagedBytes_keeps {count : UInt64} : Keeps (At (κ := κ) t m) (stagedBytes count) Good := by
  unfold stagedBytes
  refine Triple.look fun s _ => ?_
  refine Triple.bind send_keeps fun first => ?_
  refine Triple.bind (store_keeps (fun _ h => h.good) _ _ _) fun staged => ?_
  refine Triple.bind send_keeps fun _ => ?_
  refine Triple.look fun s _ => ?_
  refine Triple.bind send_keeps fun second => ?_
  refine Triple.bind (store_keeps (fun _ h => h.good) _ _ _) fun staged => ?_
  exact load_keeps (fun _ h => h.good) _ _ _

/-- In a mode that finds a control block the session is the one of the mode, so
sending through the block keeps the invariant. -/
theorem doWriteKcp_keeps (fuel : Nat) : Keeps (At t m) (doWriteKcp K fuel) Good := by
  induction fuel with
  | zero => exact Triple.throw fun _ h => h.good
  | succ fuel ih =>
    refine Triple.get fun s hs => ?_
    split
    · exact Triple.pure fun _ h => h ▸ hs
    · rename_i block hk
      refine Triple.ite ?_ fun _ => Triple.pure fun _ h => h ▸ hs
      intro _
      let P (u : Sock Circle κ) : Prop := ∀ b : κ, At t m { u with socket := { u.socket with kcp := some b } }
      have hP : P s := by
        intro b
        obtain ⟨hr, hi, ho⟩ := hs
        refine ⟨hr, hi, fun hc => ⟨(ho hc).1, ?_⟩⟩
        have hpin := (ho hc).2
        cases m with
        | application => trivial
        | inRecv n | handler n => exact hpin
        | notified n | left n =>
          intro hkcp
          refine .inl ((hpin hkcp).resolve_right fun hnone => ?_)
          rw [hk] at hnone
          cases hnone
      have hgood (u : Sock Circle κ) (h : P u) : Good u := (h (K.send block []).2).good
      refine Triple.bind (Q := fun _ => P) ((send_frame (fun _ _ h => h) hgood).before ?_) fun bytes => ?_
      · rintro _ rfl
        exact hP
      refine Triple.bind (Q := fun _ => At t m) (Triple.modify fun u h => h _) fun _ => ?_
      refine Triple.bind send_keeps fun _ => ?_
      exact ih

end Steps

end Connection
end SimpleNetwork
