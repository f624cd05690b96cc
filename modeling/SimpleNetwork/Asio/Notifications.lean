import Mathlib.Data.List.Chain
import SimpleNetwork.Asio.Indifferent
import SimpleNetwork.Asio.Sessions

/-! The notifications a connector gives its application. What decides them is the
connection state, whether the socket is open, and what has been reported so far. -/
namespace SimpleNetwork
open Outcome Runs

inductive Report where
  | connecting
  | connected
  | disconnected
  deriving DecidableEq, Repr

def Action.report : Action → Option Report
  | .setState .connecting => some .connecting
  | .onConnected => some .connected
  | .onDisconnected => some .disconnected
  | _ => none

def Asio.reports {κ : Type} (a : Asio κ) : List Report := a.trace.filterMap fun e => e.action.report

/-- What may come next: only the end of a session after its begin, and no end after an end. -/
def Report.Before (x y : Report) : Prop :=
  (x = .connected → y = .disconnected) ∧ (x = .disconnected → y ≠ .disconnected)

/-- What decides the notifications of a connector. -/
structure Standing where
  state : ConnectionState
  isOpen : Bool
  reports : List Report

structure Told (v : Standing) : Prop where
  chain : v.reports.IsChain Report.Before
  up : v.reports.getLast? = some .connected → v.state = .connected
  down : v.reports.getLast? = some .disconnected → v.state = .disconnected

/-- Between the functions of a udp or kcp connector a connected socket is open. -/
structure Normal (t : Transport) (v : Standing) : Prop where
  told : Told v
  opened : t ≠ .tcp → v.state = .connected → v.isOpen

/-- Application code cannot connect a tcp connector, only the event loop can. -/
structure Subdued (t : Transport) (down : Bool) (v : Standing) : Prop where
  normal : Normal t v
  state : down → t = .tcp → v.state ≠ .connected

private theorem Told.report {v : Standing} (h : Told v) {r : Report} {state : ConnectionState} {isOpen : Bool}
    (hbefore : ∀ x, v.reports.getLast? = some x → x.Before r) (hup : r = .connected → state = .connected)
    (hdown : r = .disconnected → state = .disconnected) : Told ⟨state, isOpen, v.reports ++ [r]⟩ := by
  refine ⟨?_, ?_, ?_⟩
  · refine h.chain.append (.singleton r) ?_
    intro x hx y hy
    cases hy
    exact hbefore x hx
  · change (v.reports ++ [r]).getLast? = _ → _
    rw [List.getLast?_concat, Option.some_inj]
    exact hup
  · change (v.reports ++ [r]).getLast? = _ → _
    rw [List.getLast?_concat, Option.some_inj]
    exact hdown

/-- A state change that is not reported. -/
theorem Told.closed {v : Standing} (h : Told v) (isOpen : Bool) :
    Told ⟨v.state, isOpen, v.reports⟩ := ⟨h.chain, h.up, h.down⟩

theorem Told.connecting {v : Standing} (h : Told v) (hstate : v.state ≠ .connected) (isOpen : Bool) :
    Told ⟨.connecting, isOpen, v.reports ++ [.connecting]⟩ := by
  refine h.report ?_ (fun hr => nomatch hr) fun hr => nomatch hr
  intro x hx
  refine ⟨?_, fun _ hr => nomatch hr⟩
  rintro rfl
  exact absurd (h.up hx) hstate

theorem Told.connected {v : Standing} (h : Told v) (hstate : v.state ≠ .connected) (isOpen : Bool) :
    Told ⟨.connected, isOpen, v.reports ++ [.connected]⟩ := by
  refine h.report ?_ (fun _ => rfl) fun hr => nomatch hr
  intro x hx
  refine ⟨?_, fun _ hr => nomatch hr⟩
  rintro rfl
  exact absurd (h.up hx) hstate

theorem Told.disconnected {v : Standing} (h : Told v) (hstate : v.state ≠ .disconnected) (isOpen : Bool) :
    Told ⟨.disconnected, isOpen, v.reports ++ [.disconnected]⟩ := by
  refine h.report ?_ (fun hr => nomatch hr) fun _ => rfl
  intro x hx
  refine ⟨fun _ => rfl, ?_⟩
  rintro rfl
  exact absurd (h.down hx) hstate

/-- A connector that is not connected may have its socket open or closed. -/
theorem Told.subdued {v : Standing} (h : Told v) (hstate : v.state ≠ .connected) (t : Transport)
    (down : Bool) : Subdued t down v :=
  ⟨⟨h, fun _ hs => absurd hs hstate⟩, fun _ _ => hstate⟩

theorem Subdued.weaken {t : Transport} {v : Standing} (h : Subdued t true v) (down : Bool) :
    Subdued t down v :=
  ⟨h.normal, fun _ => h.state rfl⟩

namespace Connection
variable {κ α β : Type} {t : Transport} {K : Ikcp κ} {cb : Callbacks Circle κ}

def standing (s : Sock Circle κ) : Standing := ⟨s.state, s.socket.isOpen, s.socket.reports⟩

def On (P : Standing → Prop) (s : Sock Circle κ) : Prop := P (standing s)

/-- Code that neither notifies nor connects nor closes. -/
def Still (x : EStateM Fault (Sock Circle κ) α) : Prop :=
  ∀ v : Standing, Keeps (fun s => standing s = v) x fun s => standing s = v

theorem Still.keeps {x : EStateM Fault (Sock Circle κ) α} (h : Still x) {P E : Standing → Prop}
    (he : ∀ v, P v → E v) :
    Keeps (On P) x (On E) where
  returns {s a s'} hs hr := by
    have hsame : standing s' = standing s := (h (standing s)).returns rfl hr
    change P (standing s')
    rw [hsame]
    exact hs
  faults {s e s'} hs hr := by
    have hsame : standing s' = standing s := (h (standing s)).faults rfl hr
    change E (standing s')
    rw [hsame]
    exact he _ hs

section Still

theorem Still.bind {x : EStateM Fault (Sock Circle κ) α} {f : α → EStateM Fault (Sock Circle κ) β}
    (hx : Still x)
    (hf : ∀ a, Still (f a)) : Still (x >>= f) := fun v => Triple.bind (hx v) fun a => hf a v

theorem Still.look {f : Sock Circle κ → EStateM Fault (Sock Circle κ) α}
    (h : ∀ s, Still (f s)) : Still (get >>= f) :=
  fun v => Triple.look fun s _ => h s v

theorem Still.modify {f : Sock Circle κ → Sock Circle κ} (h : ∀ s, standing (f s) = standing s) :
    Still (modifyGet fun s => (⟨⟩, f s) : EStateM Fault (Sock Circle κ) PUnit) :=
  fun _ => Triple.modify fun s hs => (h s).trans hs

private theorem standing_noted (s : Sock Circle κ) (action : Action) :
    standing { s with socket := { s.socket with
      trace := s.socket.trace ++ [⟨s.socket.session, s.socket.running, action⟩] } } =
      ⟨s.state, s.socket.isOpen, s.socket.reports ++ action.report.toList⟩ := by
  have hreports : (s.socket.trace ++ [(⟨s.socket.session, s.socket.running, action⟩ : Entry)]).filterMap
      (fun e => e.action.report) = s.socket.reports ++ action.report.toList := by
    rw [List.filterMap_append]
    cases h : action.report with
    | none => simp [Asio.reports, h]
    | some r => simp [Asio.reports, h]
  exact congrArg (Standing.mk s.state s.socket.isOpen) hreports

private theorem still_note {action : Action} (h : action.report = none) :
    Still (note action : EStateM Fault (Sock Circle κ) Unit) := by
  refine Still.modify fun s => ?_
  rw [standing_noted, h, Option.toList_none, List.append_nil]
  rfl

/-- Routine actions and transfers do not touch what decides the notifications. -/
theorem unasked_on {P E : Standing → Prop} (he : ∀ v, P v → E v) : Unasked
    (On P : Sock Circle κ → Prop) (On E) where
  exit {s} hs := he (standing s) hs
  same {s u} hstate hsocket hs := by
    obtain ⟨hopen, -, -, htrace, -⟩ := Asio.same_bearing hsocket
    have hsame : standing u = standing s := by
      rw [standing, standing, hstate, hopen, Asio.reports, htrace]
      rfl
    rw [On, hsame]
    exact hs
  noted {action} ha := by
    refine (still_note ?_).keeps he
    cases action <;> first | rfl | exact nomatch ha
  answered hs := hs

private theorem unasked_standing (v : Standing) :
    Unasked (fun s : Sock Circle κ => standing s = v) fun s => standing s = v :=
  unasked_on (P := (· = v)) (E := (· = v)) fun _ h => h

private theorem still_start (operation : Operation) :
    Still (start operation : EStateM Fault (Sock Circle κ) Unit) :=
  fun v => (unasked_standing v).start operation

private theorem still_nextAnswer : Still (nextAnswer : EStateM Fault (Sock Circle κ) Answer) :=
  fun v => (unasked_standing v).nextAnswer

private theorem still_nonBlocking : Still (nonBlocking : EStateM Fault (Sock Circle κ) Unit) :=
  fun v => (unasked_standing v).nonBlocking

private theorem still_attempt : Still (attempt : EStateM Fault (Sock Circle κ) Unit) :=
  fun v => (unasked_standing v).attempt

private theorem still_sendDatagram (bytes : List UInt8) :
    Still (sendDatagram bytes : EStateM Fault (Sock Circle κ) ErrorCode) :=
  fun v => (unasked_standing v).sendDatagram bytes

end Still

/-- Callbacks that keep what has been told, and tcp callbacks that do not connect. -/
structure Telling (t : Transport) (cb : Callbacks Circle κ) : Prop where
  onConnected : ∀ down, Keeps (On (Subdued t down)) cb.onConnected (On (Normal t))
  onDisconnected : ∀ down, Keeps (On (Subdued t down)) cb.onDisconnected (On (Normal t))
  onRecv : ∀ down i r, Keeps (On (Subdued t down)) (cb.onRecv i r) (On (Normal t))

private theorem Still.subdued {x : EStateM Fault (Sock Circle κ) α} (h : Still x) (t : Transport)
    (down : Bool) :
    Keeps (On (Subdued t down)) x (On (Normal t)) := h.keeps fun _ hv => hv.normal

section Reporting
variable {P Q : Standing → Prop} {E : Sock Circle κ → Prop}

private theorem note_reports {action : Action}
    (h : ∀ v, P v → Q ⟨v.state, v.isOpen, v.reports ++ action.report.toList⟩) :
    Triple (On P) (note action) (fun _ => On Q) E := by
  refine Triple.modify fun s hs => ?_
  change Q (standing _)
  rw [standing_noted]
  exact h _ hs

private theorem setState_reports {state : ConnectionState}
    (h : ∀ v, P v → Q ⟨state, v.isOpen, v.reports ++ (Action.setState state).report.toList⟩) :
    Triple (On P) (setState state) (fun _ => On Q) E := by
  refine Triple.bind (Q := fun _ => On fun v =>
    Q ⟨v.state, v.isOpen, v.reports ++ (Action.setState state).report.toList⟩)
    (Triple.modify fun s hs => h (standing s) hs) fun _ => ?_
  exact note_reports fun _ hv => hv

private theorem closeSocket_reports (h : ∀ v, P v → Q ⟨v.state, false, v.reports⟩) :
    Triple (On P) (closeSocket : EStateM Fault (Sock Circle κ) Unit) (fun _ => On Q) E := by
  refine Triple.bind (Q := fun _ => On Q) (Triple.modify fun s hs => h _ hs) fun _ => ?_
  refine note_reports fun v hv => ?_
  rw [show (Action.closeSocket).report.toList = [] from rfl, List.append_nil]
  exact hv

/-- A change that cannot throw, and its entry in the trace. -/
theorem noted_reports {f : Sock Circle κ → Sock Circle κ} {action : Action}
    (hf : ∀ s, standing (f s) = standing s)
    (h : action.report = none) : Keeps (On P) (modify f >>= fun _ => note action) E := by
  refine Triple.bind (Q := fun _ => On P) (Triple.modify fun s hs => ?_) fun _ => note_reports fun v hv => ?_
  · change P (standing (f s))
    rw [hf]
    exact hs
  · rw [h, Option.toList_none, List.append_nil]
    exact hv

private theorem resetRecv_reports :
    Keeps (On P) (resetRecv : EStateM Fault (Sock Circle κ) Unit) E :=
  noted_reports (fun _ => rfl) rfl

private theorem resetSend_reports :
    Keeps (On P) (resetSend : EStateM Fault (Sock Circle κ) Unit) E :=
  noted_reports (fun _ => rfl) rfl

private theorem release_reports : Keeps (On P) (release : EStateM Fault (Sock Circle κ) Unit) E :=
  noted_reports (fun _ => rfl) rfl

end Reporting

def Leaving (v : Standing) : Prop :=
  v.state = .disconnected ∧ ∃ state ≠ .disconnected, Told ⟨state, v.isOpen, v.reports⟩

private theorem setState_leaving {s : Sock Circle κ} {E : Sock Circle κ → Prop} (hs : On Told s)
    (hstate : s.state ≠ .disconnected) :
    Triple (fun u => u = s) (setState .disconnected) (fun _ => On Leaving) E := by
  have hset : Triple (On fun v => Told v ∧ v.state ≠ .disconnected)
    (setState .disconnected : EStateM Fault (Sock Circle κ) Unit)
      (fun _ => On Leaving) E := by
    refine setState_reports fun v hv => ⟨rfl, v.state, hv.2, ?_⟩
    rw [show (Action.setState .disconnected).report.toList = [] from rfl, List.append_nil]
    exact hv.1
  refine hset.before ?_
  rintro _ rfl
  exact ⟨hs, hstate⟩

section Close
variable (hcb : Telling t cb)
include hcb

private theorem reportEnd_reports : Triple (On Leaving) (note .onDisconnected >>= fun _ => cb.onDisconnected)
    (fun _ => On (Subdued t true)) (On (Normal t)) := by
  refine Triple.bind (Q := fun _ => On (Subdued t true)) (note_reports fun v hv => ?_) fun _ =>
    hcb.onDisconnected true
  obtain ⟨hstate, state, hne, htold⟩ := hv
  rw [hstate]
  exact (htold.disconnected hne v.isOpen).subdued (fun h => nomatch h) t true

/-- `on_close()` right after the socket was closed. -/
theorem onClose_reports : Triple (On Told) (onClose cb) (fun _ => On (Subdued t true)) (On (Normal t)) := by
  refine Triple.get fun s hs => Triple.ite (fun hstate => ?_) fun hstate => ?_
  · have hne : s.state ≠ .disconnected := fun h => nomatch hstate.symm.trans h
    exact Triple.bind (setState_leaving hs hne) fun _ => reportEnd_reports hcb
  · refine Triple.pure ?_
    rintro _ rfl
    exact Told.subdued hs hstate t true

/-- A connected session ends with its report, and no other code is told anything. -/
theorem close_reports : Triple (On Told) (close t cb) (fun _ => On (Subdued t true)) (On (Normal t)) := by
  have hclosed : Triple (On Told) (closeSocket : EStateM Fault (Sock Circle κ) Unit)
      (fun _ => On Told) (On (Normal t)) :=
    closeSocket_reports fun v hv => hv.closed false
  cases t with
  | tcp =>
    refine Triple.bind (Q := fun _ => On Told) (Triple.modify fun _ h => h) fun _ => ?_
    refine Triple.bind resetRecv_reports fun _ => Triple.bind resetSend_reports fun _ => ?_
    exact Triple.bind hclosed fun _ => onClose_reports hcb
  | udp => exact Triple.bind hclosed fun _ => onClose_reports hcb
  | kcp =>
    refine Triple.bind hclosed fun _ => Triple.bind (onClose_reports hcb) fun _ => ?_
    exact Triple.look fun s _ => Triple.ite (fun _ => release_reports) fun _ => Triple.pure fun _ h => h

omit hcb in
/-- A close on the way of a disconnect tells nothing. -/
theorem close_leaving {E : Sock Circle κ → Prop} : Keeps (On Leaving) (close t cb) E := by
  have hclosed : Keeps (On Leaving) (closeSocket : EStateM Fault (Sock Circle κ) Unit) E := by
    refine closeSocket_reports fun v hv => ?_
    obtain ⟨hstate, state, hne, htold⟩ := hv
    exact ⟨hstate, state, hne, htold.closed false⟩
  have hend : Keeps (On Leaving) (onClose cb) E := by
    refine Triple.look fun s hs => Triple.ite (fun hstate => ?_) fun _ => Triple.pure fun _ h => h
    cases hstate.symm.trans hs.1
  cases t with
  | tcp =>
    refine Triple.bind (Q := fun _ => On Leaving) (Triple.modify fun _ h => h) fun _ => ?_
    refine Triple.bind resetRecv_reports fun _ => Triple.bind resetSend_reports fun _ => ?_
    exact Triple.bind hclosed fun _ => hend
  | udp => exact Triple.bind hclosed fun _ => hend
  | kcp =>
    refine Triple.bind hclosed fun _ => Triple.bind hend fun _ => ?_
    exact Triple.look fun s _ => Triple.ite (fun _ => release_reports) fun _ => Triple.pure fun _ h => h

private theorem disconnect_reports :
    Triple (On Told) (disconnect t cb) (fun _ => On (Subdued t true)) (On (Normal t)) := by
  refine Triple.get fun s hs => Triple.ite (fun hstate => ?_) fun hstate => ?_
  · refine Triple.pure ?_
    rintro _ rfl
    refine Told.subdued hs ?_ t true
    intro h
    cases hstate.symm.trans h
  · exact Triple.bind (setState_leaving hs hstate) fun _ => Triple.bind close_leaving fun _ =>
      reportEnd_reports hcb

end Close

section Calls
variable (hcb : Telling t cb) {down : Bool}
include hcb

private theorem close_subdued : Keeps (On (Subdued t down)) (close t cb) (On (Normal t)) :=
  ((close_reports hcb).before fun _ h => h.normal.told).after fun _ _ h => h.weaken down

private theorem disconnect_subdued : Keeps (On (Subdued t down)) (disconnect t cb) (On (Normal t)) :=
  ((disconnect_reports hcb).before fun _ h => h.normal.told).after fun _ _ h => h.weaken down

private theorem attended_subdued : Attended t cb (On (Subdued t down)) (On (Normal t)) where
  toUnasked := unasked_on fun _ hv => hv.normal
  closes := close_subdued hcb
  receives := hcb.onRecv down

private theorem openSocket_subdued (K : Ikcp κ) :
    Keeps (On (Subdued t down)) (openSocket t K cb) (On (Normal t)) := by
  have hattended : Attended t cb (On (Subdued t down)) (On (Normal t)) := attended_subdued hcb
  cases t with
  | tcp =>
    refine Triple.bind ((still_note rfl).subdued .tcp down) fun _ =>
      Triple.bind hattended.nonBlocking fun _ => ?_
    exact Triple.bind (hattended.start _) fun _ => hattended.doWriteTcp
  | udp | kcp =>
    refine Triple.bind ((still_note rfl).subdued _ down) fun _ =>
      Triple.bind hattended.nonBlocking fun _ => ?_
    exact Triple.bind (hattended.doRead _) fun _ => hattended.doWrite K

/-- A session begins with its report, on a socket that is open. -/
theorem connected_subdued (K : Ikcp κ) :
    Triple (On fun v => Normal t v ∧ (t ≠ .tcp → v.isOpen)) (connected t K cb)
    (fun _ => On (Normal t)) (On (Normal t)) := by
  refine Triple.get fun s hs => Triple.ite (fun hstate => ?_) fun _ => ?_
  · have hset : Triple (fun u => u = s) (setState .connected) (fun _ => On fun v =>
        v.state = .connected ∧ (t ≠ .tcp → v.isOpen) ∧ ∃ state ≠ .connected,
          Told ⟨state, v.isOpen, v.reports⟩)
        (On (Normal t)) := by
      have hfirst : Triple (On fun v => (Normal t v ∧ (t ≠ .tcp → v.isOpen)) ∧ v.state ≠ .connected)
          (setState .connected : EStateM Fault (Sock Circle κ) Unit) (fun _ => On fun v =>
            v.state = .connected ∧ (t ≠ .tcp → v.isOpen) ∧ ∃ state ≠ .connected,
              Told ⟨state, v.isOpen, v.reports⟩)
          (On (Normal t)) := by
        refine setState_reports fun v hv => ⟨rfl, hv.1.2, v.state, hv.2, ?_⟩
        rw [show (Action.setState .connected).report.toList = [] from rfl, List.append_nil]
        exact hv.1.1.told
      refine hfirst.before ?_
      rintro _ rfl
      exact ⟨hs, hstate⟩
    refine Triple.bind hset fun _ =>
      Triple.bind (Q := fun _ => On (Subdued t false)) (note_reports fun v hv => ?_) fun _ => ?_
    · obtain ⟨hup, hopen, state, hne, htold⟩ := hv
      rw [hup]
      exact ⟨⟨htold.connected hne v.isOpen, fun ht _ => hopen ht⟩, fun h => nomatch h⟩
    · refine Triple.bind (hcb.onConnected false) fun _ =>
        (openSocket_subdued hcb K).after fun _ _ h => h.normal
  · refine Triple.pure ?_
    rintro _ rfl
    exact hs.1

omit hcb in
private theorem still_beginSession : Still (beginSession : EStateM Fault (Sock Circle κ) Unit) := by
  refine Still.look fun s => Still.bind (Still.modify fun _ => rfl) fun _ => ?_
  exact still_note rfl

omit hcb in
/-- The part of `connect()` of a udp or kcp connector that finds the socket closed. -/
theorem openDatagram_reports (ht : t ≠ .tcp) :
    Triple (On (Normal t)) (openDatagram : EStateM Fault (Sock Circle κ) Unit)
    (fun _ => On fun v => Told v ∧ v.state ≠ .connected ∧ v.isOpen) (On (Normal t)) := by
  refine Triple.get fun s hs => Triple.ite (fun _ => Triple.throw fun _ h => h ▸ hs) fun hclosed => ?_
  have hstate : s.state ≠ .connected := fun h => hclosed (hs.opened ht h)
  have hkept : Keeps (On fun v => Told v ∧ v.state ≠ .connected)
      (attempt : EStateM Fault (Sock Circle κ) Unit) (On (Normal t)) :=
    still_attempt.keeps fun v hv => (hv.1.subdued hv.2 t true).normal
  refine Triple.bind (hkept.before fun u hu => hu ▸ ⟨hs.told, hstate⟩) fun _ => Triple.modify fun u hu => ?_
  exact ⟨hu.1.closed true, hu.2, rfl⟩

/-- Behind the `close()` of `connect()`: a tcp connector is not connected, and a
udp or kcp connector that an `on_disconnected` has connected again is open, so
that opening it throws. -/
theorem connect_subdued (K : Ikcp κ) : Keeps (On (Subdued t down)) (connect t K cb) (On (Normal t)) := by
  refine Triple.bind (still_beginSession.subdued t down) fun _ => ?_
  refine Triple.bind ((close_reports hcb).before fun _ h => h.normal.told) fun _ => ?_
  split
  · refine Triple.bind (Q := fun _ => On (Subdued .tcp down)) (setState_reports fun v hv => ?_) fun _ => ?_
    · exact (hv.normal.told.connecting (hv.state rfl rfl) v.isOpen).subdued (fun h => nomatch h) .tcp down
    · refine Triple.bind (Q := fun _ => On (Subdued .tcp down)) (Triple.modify fun s hs => ?_) fun _ => ?_
      · exact ⟨⟨hs.normal.told.closed true, fun ht => absurd rfl ht⟩, hs.state⟩
      · exact (still_start _).subdued .tcp down
  · rename_i ht
    have hne : t ≠ .tcp := fun h => ht h
    have hdial {x : EStateM Fault (Sock Circle κ) Unit} (hx : Still x) :
        Keeps (On fun v => Told v ∧ v.state ≠ .connected ∧ v.isOpen) x (On (Normal t)) :=
      hx.keeps fun v hv => (hv.1.subdued hv.2.1 t true).normal
    have htrying {γ : Type} {x : EStateM Fault (Sock Circle κ) γ} (hx : Still x) :
        Keeps (On fun v => Told v ∧ v.state = .connecting ∧ v.isOpen) x (On (Normal t)) :=
      hx.keeps fun v hv => (hv.1.subdued (fun h => nomatch hv.2.1.symm.trans h) t true).normal
    have hstop : Triple (On fun v => Told v ∧ v.state = .connecting ∧ v.isOpen) (disconnect t cb)
        (fun _ => On (Subdued t down)) (On (Normal t)) :=
      ((disconnect_reports hcb).before fun _ h => h.1).after fun _ _ h => h.weaken down
    have hgo : Triple (On fun v => Told v ∧ v.state = .connecting ∧ v.isOpen) (connected t K cb)
        (fun _ => On (Subdued t down)) (On (Normal t)) := by
      refine ((connected_subdued hcb K).before fun u hu => ?_).after fun _ u hu =>
        ⟨hu, fun _ h => absurd h hne⟩
      exact ⟨(hu.1.subdued (fun h => nomatch hu.2.1.symm.trans h) t true).normal, fun _ => hu.2.2⟩
    refine Triple.bind ((openDatagram_reports hne).before fun _ h => h.normal) fun _ => ?_
    refine Triple.bind (hdial still_nonBlocking) fun _ => ?_
    refine Triple.bind (hdial still_attempt) fun _ => Triple.bind (hdial still_attempt) fun _ => ?_
    refine Triple.bind (Q := fun _ => On fun v => Told v ∧ v.state = .connecting ∧ v.isOpen)
      (setState_reports fun v hv => ⟨hv.1.connecting hv.2.1 v.isOpen, rfl, hv.2.2⟩) fun _ => ?_
    refine Triple.bind (htrying still_nextAnswer) fun answer => Triple.ite (fun _ => hstop) fun _ => ?_
    refine Triple.bind (htrying (still_sendDatagram _)) fun ec => ?_
    exact Triple.ite (fun _ => hgo) fun _ => hstop

private theorem sendPacket_subdued (K : Ikcp κ) (payload : List UInt8) :
    Keeps (On (Subdued t down)) (sendPacket t K cb payload) (On (Normal t)) := by
  have hattended : Attended t cb (On (Subdued t down)) (On (Normal t)) := attended_subdued hcb
  have hnormal : Indifferent (On (Normal t) : Sock Circle κ → Prop) (On (Normal t)) :=
    (unasked_on fun _ hv => hv).toIndifferent
  exact hattended.sendPacket hattended.toIndifferent hnormal (hattended.doWrite K) payload

private theorem perform_subdued (K : Ikcp κ) (calls : List Call) :
    Keeps (On (Subdued t down)) (perform t K cb calls) (On (Normal t)) := by
  induction calls with
  | nil => exact Triple.pure fun _ h => h
  | cons call calls ih =>
    unfold perform
    cases call with
    | connect => exact Triple.bind (connect_subdued hcb K) fun _ => ih
    | disconnect => exact Triple.bind (disconnect_subdued hcb) fun _ => ih
    | send payload => exact Triple.bind (sendPacket_subdued hcb K payload) fun _ => ih

end Calls

/-- Callbacks that follow the scripts keep what has been told. -/
theorem telling_callbacks (K : Ikcp κ) (fuel : Nat) : Telling t (callbacks t K fuel) := by
  induction fuel with
  | zero =>
    exact ⟨fun _ => Triple.pure fun _ h => h, fun _ => Triple.pure fun _ h => h,
      fun _ _ _ => Triple.pure fun _ h => h⟩
  | succ fuel ih =>
    have hcode (down fromRecv : Bool) : Keeps (On (Subdued t down))
        (applicationCode fromRecv (perform t K (callbacks t K fuel))) (On (Normal t)) := by
      refine Triple.look fun s _ => ?_
      split
      · exact Triple.pure fun _ h => h
      · refine Triple.bind (Q := fun _ => On (Subdued t down)) (Triple.modify fun _ h => h) fun _ => ?_
        exact Triple.bind (perform_subdued ih K _) fun _ => Triple.modify fun _ h => h
    exact ⟨fun down => hcode down false, fun down => hcode down false, fun down _ _ => hcode down true⟩

section Handlers

private theorem handle_subdued (hcb : Telling t cb) (K : Ikcp κ) (rounds : Nat)
    (operation : Operation) (ec : ErrorCode)
    (data : List UInt8) : Triple (On (Subdued t false)) (handle t K cb rounds operation ec data)
    (fun _ => On (Normal t))
      (On (Normal t)) := by
  by_cases hconnect : t = .tcp ∧ operation = .connect
  · obtain ⟨rfl, rfl⟩ := hconnect
    refine Triple.ite (fun _ => ?_) fun _ => (disconnect_subdued hcb).after fun _ _ h => h.normal
    exact (connected_subdued hcb K).before fun u hu => ⟨hu.normal, fun ht => absurd rfl ht⟩
  · have hattended : Attended t cb (On (Subdued t false)) (On (Normal t)) := attended_subdued hcb
    have hother := hattended.handle K rounds (fun ht h => hconnect ⟨ht, h⟩) ec data
    exact hother.after fun _ _ h => h.normal

/-- One event keeps what has been told, whether it returns or throws. -/
theorem event_subdued (hcb : Telling t cb) (K : Ikcp κ) (rounds : Nat) (e : ConnectorEvent) :
    Triple (On (Normal t)) (event t K rounds cb e) (fun _ => On (Normal t)) (On (Normal t)) := by
  refine Triple.before (P := On (Subdued t false)) ?_ fun _ h => ⟨h, fun hd => nomatch hd⟩
  cases e with
  | call call => exact (perform_subdued hcb K [call]).after fun _ _ h => h.normal
  | complete i ec data =>
    refine Triple.look fun s _ => ?_
    split
    · exact Triple.pure fun _ h => h.normal
    · refine Triple.bind (Q := fun _ => On (Subdued t false)) (Triple.modify fun _ h => h) fun _ => ?_
      exact handle_subdued hcb K rounds _ ec data
  | tick current =>
    refine Triple.ite ?_ fun _ => Triple.pure fun _ h => h.normal
    rintro rfl
    exact ((attended_subdued hcb).update K rounds current).after fun _ _ h => h.normal

end Handlers
end Connection

open Connection

theorem Normal.step {κ : Type} {t : Transport} {K : Ikcp κ} {s s' : Sock Circle κ}
    {e : ConnectorEvent × Surroundings}
    (h : Normal t (standing s)) (hstep : ConnectorStep t K s e s') : Normal t (standing s') := by
  have hevent := event_subdued (telling_callbacks (t := t) K e.2.scripts.length) K e.2.rounds e.1
  have hstart : On (Normal t) (surrounded e.2 s) := h
  rw [hstep.2, afterEvent]
  split
  · rename_i u hr
    have hend : On (Normal t) u := hevent.returns hstart hr
    exact hend
  · rename_i u hr
    have hend : On (Normal t) u := hevent.faults hstart hr
    exact hend

/-- Two equal reports are not side by side, and what is right behind the first of
them is allowed there. -/
theorem Report.between {reports : List Report} (h : reports.IsChain Report.Before) {i j : Nat}
    {x : Report} (hij : i < j)
    (hi : reports[i]? = some x) (hj : reports[j]? = some x) (hx : x ≠ .connecting) :
    ∃ k y, i < k ∧ k < j ∧ reports[k]? = some y ∧ x.Before y := by
  obtain ⟨hilt, rfl⟩ := List.getElem?_eq_some_iff.mp hi
  obtain ⟨hjlt, hjx⟩ := List.getElem?_eq_some_iff.mp hj
  have hnext := List.isChain_iff_getElem.mp h i (by omega)
  refine ⟨i + 1, _, Nat.lt_succ_self i, ?_, List.getElem?_eq_getElem (by omega), hnext⟩
  refine Nat.lt_of_le_of_ne hij ?_
  rintro rfl
  rw [hjx] at hnext
  cases hreport : reports[i] with
  | connecting => exact hx hreport
  | connected => exact nomatch (hnext.1 hreport).symm.trans hreport
  | disconnected => exact hnext.2 hreport hreport

/-- Over every run of a connector, between two `on_connected` there is an
`on_disconnected`, and between two `on_disconnected` there is a `connecting()` or
an `on_connected`. -/
theorem notifications_alternate {κ : Type} (t : Transport) (K : Ikcp κ)
    {events : List (ConnectorEvent × Surroundings)}
    {s : Sock Circle κ} (hrun : Run (ConnectorStep t K) connector events s) {i j : Nat} (hij : i < j) :
    (s.socket.reports[i]? = some .connected → s.socket.reports[j]? = some .connected →
      ∃ k, i < k ∧ k < j ∧ s.socket.reports[k]? = some .disconnected) ∧
    (s.socket.reports[i]? = some .disconnected → s.socket.reports[j]? = some .disconnected →
      ∃ k, i < k ∧ k < j ∧ (s.socket.reports[k]? = some .connecting ∨
        s.socket.reports[k]? = some .connected)) := by
  have hstart : Normal t (standing (connector : Sock Circle κ)) := by
    refine ⟨⟨.nil, ?_, ?_⟩, ?_⟩
    all_goals intros; contradiction
  have hlast : Normal t (standing s) :=
    hrun.invariant (I := fun s => Normal t (standing s)) (fun h hs => h.step hs) hstart
  have hchain : s.socket.reports.IsChain Report.Before := hlast.told.chain
  constructor
  · intro hi hj
    obtain ⟨k, y, hik, hkj, hk, hy⟩ := Report.between hchain hij hi hj (fun h => nomatch h)
    exact ⟨k, hik, hkj, by rw [hk, hy.1 rfl]⟩
  · intro hi hj
    obtain ⟨k, y, hik, hkj, hk, hy⟩ := Report.between hchain hij hi hj (fun h => nomatch h)
    refine ⟨k, hik, hkj, ?_⟩
    cases y with
    | connecting => exact .inl hk
    | connected => exact .inr hk
    | disconnected => exact absurd rfl (hy.2 rfl)

/-- Two tcp sessions, the second begun from the `on_disconnected` of the first. -/
def reconnected : List (ConnectorEvent × Surroundings) :=
  [(.call .connect, {}), (.complete 0 .success [], {}),
    (.complete 0 .failure [], { scripts := [[.connect]] }),
    (.complete 0 .success [], {})]

theorem notifications_alternate_reconnected : ∃ s, Run (ConnectorStep .tcp noKcp) connector reconnected s ∧
    s.socket.reports = [.connecting, .connected, .disconnected, .connecting, .connected] ∧
    ∃ k, 1 < k ∧ k < 4 ∧ s.socket.reports[k]? = some .disconnected := by
  have hrun : Run (ConnectorStep .tcp noKcp) connector reconnected _ := run_of_allEnabled (by decide +kernel)
  refine ⟨_, hrun, by decide +kernel, ?_⟩
  exact (notifications_alternate .tcp noKcp hrun (by decide)).1 (by decide +kernel) (by decide +kernel)

end SimpleNetwork
