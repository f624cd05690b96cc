import SimpleNetwork.Asio.Indifferent
import SimpleNetwork.Asio.Sessions

/-! `connection::connected()` opens its socket after the `on_connected` of the
application has run: what that callback may do for the socket to be still the
one that was connected. -/
namespace SimpleNetwork
open Outcome Runs Words

/-- What a trace says of its socket: the state it was last given, and whether it
was closed since its connection began. -/
structure Course where
  state : ConnectionState := .disconnected
  closed : Bool := false
  deriving DecidableEq, Repr

def Course.after (v : Course) : Action → Course
  | .setState state => ⟨state, v.closed && state ≠ .connecting⟩
  | .closeSocket => { v with closed := true }
  | _ => v

def course (trace : List Entry) : Course := trace.foldl (fun v e => v.after e.action) {}

/-- The socket an entry finds: connected, not closed since, and connected in this
session if the handler of a connect is running. -/
def Entry.FindsLive (e : Entry) (before : List Entry) : Prop :=
  course before = ⟨.connected, false⟩ ∧ ∀ session ∈ e.cause, session = e.session

/-- Every `open()` in a trace found a live socket. -/
def OpenedLive (trace : List Entry) : Prop :=
  ∀ before e after, trace = before ++ e :: after → e.action = .openSocket → e.FindsLive before

private theorem course_concat (trace : List Entry) (e : Entry) :
    course (trace ++ [e]) = (course trace).after e.action := by
  rw [course, List.foldl_append]
  rfl

private theorem openedLive_concat {trace : List Entry} {e : Entry} :
    OpenedLive (trace ++ [e]) ↔ OpenedLive trace ∧ (e.action = .openSocket → e.FindsLive trace) :=
  forall_split_concat

/-- What the application calls in a callback, and the results of the socket calls
on the way. -/
structure Reaction where
  calls : List Call := []
  answers : List Answer := []

structure Application (κ : Type) where
  onConnected : Sock Circle κ → Reaction
  onDisconnected : Sock Circle κ → Reaction
  onRecv : Nat → Reader → Sock Circle κ → Reaction

/-- A connection is made by an acceptor over a connected socket, or is a connector. -/
inductive ConnectionEvent (κ : Type) where
  | accept (kcp : Option κ)
  | connector (event : ConnectorEvent)

/-- An event with the application and the results of the socket calls outside
callbacks, a bound on nested callbacks and one on the packets of an `on_read`. -/
structure Turn (κ : Type) where
  event : ConnectionEvent κ
  application : Application κ
  depth : Nat := 0
  answers : List Answer := []
  rounds : Nat := 0

namespace Connection
variable {κ : Type} (t : Transport) (K : Ikcp κ)

def react (fromRecv : Bool) (decides : Sock Circle κ → Reaction)
    (body : List Call → EStateM Fault (Sock Circle κ) Unit) :
    EStateM Fault (Sock Circle κ) Unit := do
  let s ← get
  socketDo fun a => { a with
    answers := (decides s).answers
    running := none
    inRecv := a.inRecv || (fromRecv && a.running.isSome) }
  body (decides s).calls
  socketDo fun a =>
    { a with answers := s.socket.answers, running := s.socket.running, inRecv := s.socket.inRecv }

/-- The callbacks of an application, nested to a bounded depth. -/
def reactions (application : Application κ) : Nat → Callbacks Circle κ
  | 0 => ⟨pure (), pure (), silent⟩
  | depth + 1 =>
    let body := perform t K (reactions application depth)
    ⟨react false application.onConnected body, react false application.onDisconnected body,
      fun i r => react true (application.onRecv i r) body⟩

def turn (rounds : Nat) (cb : Callbacks Circle κ) : ConnectionEvent κ → EStateM Fault (Sock Circle κ) Unit
  | .accept kcp => do
    socketDo fun a => { a with isOpen := true, kcp := kcp }
    connected t K cb
  | .connector e => event t K rounds cb e

def afterTurn (s : Sock Circle κ) (τ : Turn κ) : Sock Circle κ :=
  match turn t K τ.rounds (reactions t K τ.application τ.depth) τ.event
    (surrounded { answers := τ.answers } s) with
  | .ok _ s' => settled s'
  | .error _ s' => settled s'

/-- A connection is accepted before anything else happens to it, and a completion
event is one of an outstanding operation. -/
def possible (s : Sock Circle κ) : ConnectionEvent κ → Bool
  | .accept _ => s.socket.trace.isEmpty
  | .connector e => enabled s e

def ConnectionStep (s : Sock Circle κ) (τ : Turn κ) (s' : Sock Circle κ) : Prop :=
  possible s τ.event ∧ s' = afterTurn t K s τ

end Connection

/-- An `on_connected` that only sends, over udp with success. -/
structure Reaction.Considerate (r : Reaction) (t : Transport) : Prop where
  sends : ∀ call ∈ r.calls, ∃ payload, call = .send payload
  succeed : t = .udp → r.calls.length ≤ r.answers.length ∧ ∀ answer ∈ r.answers.take r.calls.length,
    answer.ec = .success

/-- In a turn every `on_connected` is considerate, and a connect that succeeded is
completed while the socket it connected is still open. -/
structure Turn.Considerate {κ : Type} (τ : Turn κ) (t : Transport) (s : Sock Circle κ) : Prop where
  application : ∀ u : Sock Circle κ, u.state = .connected → (τ.application.onConnected u).Considerate t
  connects : ∀ i data session, τ.event = .connector (.complete i .success data) →
    s.socket.pending[i]? = some ⟨.connect, session⟩ → s.socket.isOpen ∧ session = s.socket.session

/-- What decides whether a socket may be opened. -/
structure Prospect where
  state : ConnectionState
  isOpen : Bool
  session : Nat
  running : Option Nat
  course : Course
  opened : Prop

def Prospect.noted (v : Prospect) (action : Action) : Prospect :=
  { v with
    course := v.course.after action
    opened := v.opened ∧ (action = .openSocket → v.course = ⟨.connected, false⟩ ∧
      ∀ session ∈ v.running, session = v.session) }

private theorem Prospect.noted_other {v : Prospect} {action : Action} (hopen : action ≠ .openSocket) :
    v.noted action = { v with course := v.course.after action } := by
  have hopened : (v.opened ∧ (action = .openSocket → v.course = ⟨.connected, false⟩ ∧
    ∀ session ∈ v.running, session = v.session)) =
      v.opened := propext (and_iff_left fun he => absurd he hopen)
  rw [noted, hopened]

private theorem Prospect.noted_routine {v : Prospect} {action : Action} (ha : action.routine) :
    v.noted action = v := by
  have hcourse : v.course.after action = v.course := by
    cases action with
    | closeSocket | setState | openSocket | onConnected | onDisconnected | connect => exact nomatch ha
    | resetRecv | resetSend | release | received | sent => rfl
  rw [noted_other, hcourse]
  rintro rfl
  exact nomatch ha

/-- Every `open()` so far found a live socket, the trace tells the state, and an
open tcp socket was not closed since its connection began. -/
structure Sound (t : Transport) (v : Prospect) : Prop where
  opened : v.opened
  agrees : v.course.state = v.state
  isOpen : t = .tcp → v.isOpen → v.course.closed = false

structure Amid (t : Transport) (running : Option Nat) (v : Prospect) : Prop where
  sound : Sound t v
  running : v.running = running

structure Uncut (t : Transport) (running : Option Nat) (session : Nat) (v : Prospect) :
    Prop extends Amid t running v where
  closed : v.course.closed = false
  session : v.session = session

structure Live (t : Transport) (running : Option Nat) (session : Nat) (v : Prospect) : Prop
    extends Uncut t running session v where
  state : v.state = .connected

private theorem Live.course {t : Transport} {running : Option Nat} {session : Nat} {v : Prospect}
    (h : Live t running session v) :
    v.course = ⟨.connected, false⟩ := by
  have hstate := h.sound.agrees.trans h.state
  have hclosed := h.closed
  cases hv : v.course with
  | mk state closed =>
    rw [hv] at hstate hclosed
    rw [← hstate, ← hclosed]

theorem Sound.setState {t : Transport} {v : Prospect} (h : Sound t v) (state : ConnectionState) :
    Sound t (Prospect.noted { v with state := state } (.setState state)) := by
  rw [Prospect.noted_other (show Action.setState state ≠ .openSocket from fun he => nomatch he)]
  refine ⟨h.opened, rfl, fun ht hv => ?_⟩
  change (v.course.closed && _) = false
  rw [h.isOpen ht hv, Bool.false_and]

theorem Sound.closeSocket {t : Transport} {v : Prospect} (h : Sound t v) :
    Sound t (Prospect.noted { v with isOpen := false } .closeSocket) := by
  rw [Prospect.noted_other (show Action.closeSocket ≠ .openSocket from fun he => nomatch he)]
  exact ⟨h.opened, h.agrees, fun _ hv => nomatch hv⟩

namespace Connection
variable {κ α : Type} {t : Transport} {K : Ikcp κ} {cb : Callbacks Circle κ}

def prospect (s : Sock Circle κ) : Prospect :=
  ⟨s.state, s.socket.isOpen, s.socket.session, s.socket.running, course s.socket.trace,
    OpenedLive s.socket.trace⟩

def Has (P : Prospect → Prop) (s : Sock Circle κ) : Prop := P (prospect s)

private theorem prospect_noted (s : Sock Circle κ) (action : Action) :
    prospect { s with socket := { s.socket with
      trace := s.socket.trace ++ [⟨s.socket.session, s.socket.running, action⟩] } } =
        (prospect s).noted action := by
  rw [prospect, course_concat, propext openedLive_concat]
  rfl

section Pieces
variable {P Q : Prospect → Prop} {E : Sock Circle κ → Prop}

private theorem note_has {action : Action} (h : ∀ v, P v → Q (v.noted action)) :
    Triple (Has P) (note action) (fun _ => Has Q) E := by
  refine Triple.modify fun s hs => ?_
  rw [Has, prospect_noted]
  exact h _ hs

private theorem setState_has {state : ConnectionState}
    (h : ∀ v, P v → Q (Prospect.noted { v with state := state } (.setState state))) :
    Triple (Has P) (setState state) (fun _ => Has Q) E := by
  refine Triple.bind (Q := fun _ => Has fun v => Q (v.noted (.setState state)))
    (Triple.modify fun s hs => h (prospect s) hs) fun _ => ?_
  exact note_has fun _ hv => hv

private theorem closeSocket_has (h : ∀ v, P v → Q (Prospect.noted { v with isOpen := false } .closeSocket)) :
    Triple (Has P) (closeSocket : EStateM Fault (Sock Circle κ) Unit) (fun _ => Has Q) E := by
  refine Triple.bind (Q := fun _ => Has fun v => Q (v.noted .closeSocket))
    (Triple.modify fun s hs => h (prospect s) hs) fun _ => ?_
  exact note_has fun _ hv => hv

private theorem unasked_has {P E : Prospect → Prop} (he : ∀ v, P v → E v) : Unasked
    (Has P : Sock Circle κ → Prop) (Has E) where
  exit {s} hs := he (prospect s) hs
  same {s u} hstate hsocket hs := by
    obtain ⟨hopen, hsession, hrunning, htrace, -⟩ := Asio.same_bearing hsocket
    have hsame : prospect u = prospect s := by
      rw [prospect, hstate, hopen, hsession, hrunning, htrace, prospect]
    rw [Has, hsame]
    exact hs
  noted {action} ha := by
    refine note_has fun v hv => ?_
    rw [Prospect.noted_routine ha]
    exact hv
  answered hs := hs

end Pieces

private theorem unasked_amid (running : Option Nat) :
    Unasked (Has (Amid t running) : Sock Circle κ → Prop) (Has (Sound t)) :=
  unasked_has fun _ hv => hv.sound

private theorem unasked_live (running : Option Nat) (session : Nat) :
    Unasked (Has (Live t running session) : Sock Circle κ → Prop) (Has (Sound t)) :=
  unasked_has fun _ hv => hv.sound

private theorem unasked_sound : Unasked (Has (Sound t) : Sock Circle κ → Prop) (Has (Sound t)) :=
  unasked_has fun _ hv => hv

structure Heeding (t : Transport) (cb : Callbacks Circle κ) : Prop where
  onConnected : ∀ running session, Keeps (Has (Live t running session)) cb.onConnected (Has (Sound t))
  onDisconnected : ∀ running, Keeps (Has (Amid t running)) cb.onDisconnected (Has (Sound t))
  onRecv : ∀ running i r, Keeps (Has (Amid t running)) (cb.onRecv i r) (Has (Sound t))

private theorem setState_amid (running : Option Nat) (state : ConnectionState) {E : Sock Circle κ → Prop} :
    Keeps (Has (Amid t running)) (setState state) E :=
  setState_has fun _ hv => ⟨hv.sound.setState state, hv.running⟩

private theorem note_amid {running : Option Nat} {action : Action} {E : Sock Circle κ → Prop}
    (hopen : action ≠ .openSocket)
    (hcourse : ∀ v : Course, v.after action = v) : Keeps (Has (Amid t running)) (note action) E := by
  refine note_has fun v hv => ?_
  rw [Prospect.noted_other hopen, hcourse]
  exact hv

section Calls
variable (hcb : Heeding t cb) {running : Option Nat}
include hcb

private theorem onClose_amid : Keeps (Has (Amid t running)) (onClose cb) (Has (Sound t)) := by
  refine Triple.look fun s _ => Triple.ite (fun _ => ?_) fun _ => Triple.pure fun _ h => h
  refine Triple.bind (setState_amid running _) fun _ => ?_
  refine Triple.bind (note_amid (fun h => nomatch h) fun _ => rfl) fun _ => hcb.onDisconnected running

private theorem close_amid : Keeps (Has (Amid t running)) (close t cb) (Has (Sound t)) := by
  have hat : Unasked (Has (Amid t running) : Sock Circle κ → Prop) (Has (Sound t)) := unasked_amid running
  have hclosed : Keeps (Has (Amid t running)) (closeSocket : EStateM Fault (Sock Circle κ) Unit)
      (Has (Sound t)) :=
    closeSocket_has fun v hv => ⟨hv.sound.closeSocket, hv.running⟩
  cases t with
  | tcp =>
    refine Triple.bind (hat.socketDo fun _ => rfl) fun _ => ?_
    refine Triple.bind hat.resetRecv fun _ => Triple.bind hat.resetSend fun _ => ?_
    exact Triple.bind hclosed fun _ => onClose_amid hcb
  | udp => exact Triple.bind hclosed fun _ => onClose_amid hcb
  | kcp =>
    refine Triple.bind hclosed fun _ => Triple.bind (onClose_amid hcb) fun _ => ?_
    exact Triple.look fun s _ => Triple.ite (fun _ => hat.release) fun _ => Triple.pure fun _ h => h

private theorem disconnect_amid : Keeps (Has (Amid t running)) (disconnect t cb) (Has (Sound t)) := by
  refine Triple.look fun s _ => Triple.ite (fun _ => Triple.pure fun _ h => h) fun _ => ?_
  refine Triple.bind (setState_amid running _) fun _ => Triple.bind (close_amid hcb) fun _ => ?_
  exact Triple.bind (note_amid (fun h => nomatch h) fun _ => rfl) fun _ => hcb.onDisconnected running

private theorem attended_amid : Attended t cb (Has (Amid t running)) (Has (Sound t)) where
  toUnasked := unasked_amid running
  closes := close_amid hcb
  receives := hcb.onRecv running

/-- `open()` of a live socket. -/
theorem openSocket_live {session : Nat} (hsession : ∀ n ∈ running, n = session) :
    Triple (Has (Live t running session)) (openSocket t K cb) (fun _ => Has (Amid t running))
      (Has (Sound t)) := by
  have hattended : Attended t cb (Has (Amid t running)) (Has (Sound t)) := attended_amid hcb
  have hnote : Triple (Has (Live t running session)) (note .openSocket : EStateM Fault (Sock Circle κ) Unit)
      (fun _ => Has (Amid t running)) (Has (Sound t)) := by
    refine note_has fun v hv =>
      ⟨⟨⟨hv.sound.opened, fun _ => ⟨hv.course, ?_⟩⟩, hv.sound.agrees, hv.sound.isOpen⟩, hv.running⟩
    rw [hv.running, hv.session]
    exact hsession
  cases t with
  | tcp =>
    refine Triple.bind hnote fun _ => Triple.bind hattended.nonBlocking fun _ => ?_
    exact Triple.bind (hattended.start _) fun _ => hattended.doWriteTcp
  | udp | kcp =>
    refine Triple.bind hnote fun _ => Triple.bind hattended.nonBlocking fun _ => ?_
    exact Triple.bind (hattended.doRead _) fun _ => hattended.doWrite K

/-- `connected()` on a socket that was not closed since it was connected. -/
theorem connected_uncut {session : Nat} (hsession : ∀ n ∈ running, n = session) :
    Triple (Has (Uncut t running session)) (connected t K cb) (fun _ => Has (Amid t running))
      (Has (Sound t)) := by
  refine Triple.look fun s _ => Triple.ite (fun _ => ?_) fun _ => Triple.pure fun _ h => h.toAmid
  refine Triple.bind (Q := fun _ => Has (Live t running session)) (setState_has fun v hv => ?_) fun _ => ?_
  · refine ⟨⟨⟨hv.sound.setState _, hv.running⟩, ?_, hv.session⟩, rfl⟩
    change (v.course.closed && _) = false
    rw [hv.closed, Bool.false_and]
  refine Triple.bind (Q := fun _ => Has (Live t running session)) (note_has fun v hv => ?_) fun _ => ?_
  · rw [Prospect.noted_other (show Action.onConnected ≠ .openSocket from fun h => nomatch h)]
    exact hv
  exact Triple.bind (hcb.onConnected running session) fun _ => openSocket_live hcb hsession

/-- A `connect()` call of the application, which no handler is credited with. -/
theorem connect_amid : Keeps (Has (Amid t none)) (connect t K cb) (Has (Sound t)) := by
  have hat : Unasked (Has (Amid t none) : Sock Circle κ → Prop) (Has (Sound t)) := unasked_amid none
  have hbegin : Keeps (Has (Amid t none)) (beginSession : EStateM Fault (Sock Circle κ) Unit)
      (Has (Sound t)) := by
    refine Triple.look fun s _ => Triple.bind (Q := fun _ => Has (Amid t none))
      (Triple.modify fun u hu => ?_) fun _ => ?_
    · exact ⟨⟨hu.sound.opened, hu.sound.agrees, hu.sound.isOpen⟩, hu.running⟩
    · exact note_amid (fun h => nomatch h) fun _ => rfl
  have hconnecting (v : Prospect) (hv : Amid t none v) :
      Amid t none (Prospect.noted { v with state := .connecting } (.setState .connecting)) ∧
        (Prospect.noted { v with state := .connecting } (.setState .connecting)).course.closed = false :=
    ⟨⟨hv.sound.setState _, hv.running⟩, Bool.and_false _⟩
  refine Triple.bind hbegin fun _ => Triple.bind (close_amid hcb) fun _ => ?_
  by_cases ht : t = .tcp
  · subst ht
    refine Triple.bind (Q := fun _ => Has fun v => Amid .tcp none v ∧ v.course.closed = false)
      (setState_has fun v hv => hconnecting v hv) fun _ => ?_
    refine Triple.bind (Q := fun _ => Has (Amid .tcp none)) (Triple.modify fun s hs => ?_) fun _ =>
      hat.start _
    exact ⟨⟨hs.1.sound.opened, hs.1.sound.agrees, fun _ _ => hs.2⟩, hs.1.running⟩
  · have hdial : Keeps (Has (Amid t none)) (do
        openDatagram
        nonBlocking
        attempt
        attempt
        setState .connecting
        let answer ← nextAnswer
        if answer.ec ≠ .success then disconnect t cb
        else
          let ec ← sendDatagram (le32 0)
          if ec = .success then connected t K cb else disconnect t cb) (Has (Sound t)) := by
      have hopen : Keeps (Has (Amid t none)) (openDatagram : EStateM Fault (Sock Circle κ) Unit)
          (Has (Sound t)) := by
        refine Triple.look fun s _ => Triple.ite (fun _ => Triple.throw fun _ h => h.sound) fun _ => ?_
        refine Triple.bind hat.attempt fun _ => Triple.modify fun u hu => ?_
        exact ⟨⟨hu.sound.opened, hu.sound.agrees, fun htcp => absurd htcp ht⟩, hu.running⟩
      have huncut : Unasked (Has (fun v => Amid t none v ∧ v.course.closed = false) : Sock Circle
          κ → Prop) (Has (Sound t)) :=
        unasked_has fun _ hv => hv.1.sound
      have hstop : Triple (Has fun v => Amid t none v ∧ v.course.closed = false) (disconnect t cb)
        (fun _ => Has (Amid t none))
          (Has (Sound t)) := (disconnect_amid hcb).before fun _ h => h.1
      have hgo : Triple (Has fun v => Amid t none v ∧ v.course.closed = false) (connected t K cb)
        (fun _ => Has (Amid t none))
          (Has (Sound t)) := by
        refine Triple.pinned fun s hs => ?_
        have hthis : Triple (Has (Uncut t none s.socket.session)) (connected t K cb)
            (fun _ => Has (Amid t none)) (Has (Sound t)) :=
          connected_uncut hcb fun n hn => absurd hn (Option.not_mem_none n)
        refine hthis.before ?_
        rintro _ rfl
        exact ⟨hs.1, hs.2, rfl⟩
      refine Triple.bind hopen fun _ => Triple.bind hat.nonBlocking fun _ => ?_
      refine Triple.bind hat.attempt fun _ => Triple.bind hat.attempt fun _ => ?_
      refine Triple.bind (Q := fun _ => Has fun v => Amid t none v ∧ v.course.closed = false)
        (setState_has fun v hv => hconnecting v hv) fun _ => ?_
      refine Triple.bind huncut.nextAnswer fun answer => Triple.ite (fun _ => hstop) fun _ => ?_
      exact Triple.bind (huncut.sendDatagram _) fun ec => Triple.ite (fun _ => hgo) fun _ => hstop
    cases t with
    | tcp => exact absurd rfl ht
    | udp | kcp => exact hdial

private theorem perform_amid (calls : List Call) :
    Keeps (Has (Amid t none)) (perform t K cb calls) (Has (Sound t)) := by
  have hattended : Attended t cb (Has (Amid t none)) (Has (Sound t)) := attended_amid hcb
  induction calls with
  | nil => exact Triple.pure fun _ h => h
  | cons call calls ih =>
    unfold perform
    cases call with
    | connect => exact Triple.bind (connect_amid hcb) fun _ => ih
    | disconnect => exact Triple.bind (disconnect_amid hcb) fun _ => ih
    | send payload =>
      refine Triple.bind (hattended.sendPacket hattended.toIndifferent unasked_sound.toIndifferent
        ?_ payload) fun _ => ih
      exact hattended.doWrite K

end Calls

/-- A live socket in application code that has a number of sends to make, which
succeed where they call the socket. -/
def Sending (t : Transport) (session sends : Nat) (s : Sock Circle κ) : Prop :=
  Has (Live t none session) s ∧
    (t = .udp → sends ≤ s.socket.answers.length ∧ ∀ answer ∈ s.socket.answers.take sends,
      answer.ec = .success)

section Sending
variable {session sends : Nat}

private theorem indifferent_sending :
    Indifferent (Sending t session sends : Sock Circle κ → Prop) (Has (Sound t)) where
  exit hs := hs.1.sound
  same hstate hsocket hs := by
    refine ⟨(unasked_live none session).same hstate hsocket hs.1, ?_⟩
    rw [(Asio.same_bearing hsocket).2.2.2.2]
    exact hs.2
  noted {action} ha := by
    have hlive : Keeps (Has (Live t none session))
        (note action : EStateM Fault (Sock Circle κ) Unit) (Has (Sound t)) :=
      (unasked_live none session).noted ha
    refine Triple.modify fun s hs => ⟨hlive.returns hs.1 rfl, hs.2⟩

private theorem Sending.one_less {s : Sock Circle κ} (h : Sending t session (sends + 1) s) :
    Sending t session sends s := by
  refine ⟨h.1, fun ht => ?_⟩
  obtain ⟨hlen, hall⟩ := h.2 ht
  refine ⟨by omega, fun answer ha => hall answer ?_⟩
  exact List.take_subset_take_left _ (Nat.le_succ sends) ha

/-- A send takes one of the answers that are successes. -/
theorem sendDatagram_sending (bytes : List UInt8) :
    Triple (Sending .udp session (sends + 1)) (sendDatagram bytes)
    (fun ec s => Sending .udp session sends s ∧ ec = .success) (Has (Sound .udp) : Sock Circle κ → Prop) := by
  have hanswer : Triple (Sending .udp session (sends + 1)) nextAnswer
      (fun answer s => Sending .udp session sends s ∧ answer.ec = .success)
        (Has (Sound .udp) : Sock Circle κ → Prop) := by
    refine Triple.get fun s hs => ?_
    obtain ⟨hlen, hall⟩ := hs.2 rfl
    cases hanswers : s.socket.answers with
    | nil =>
      rw [hanswers] at hlen
      exact absurd hlen (Nat.not_succ_le_zero _)
    | cons answer answers =>
      rw [hanswers] at hlen hall
      refine Triple.bind (Q := fun _ => Sending .udp session sends) (Triple.modify ?_) fun _ =>
        Triple.pure fun u hu => ?_
      · rintro _ rfl
        exact ⟨hs.1, fun _ => ⟨Nat.le_of_succ_le_succ hlen, fun x hx => hall x (List.mem_cons_of_mem _ hx)⟩⟩
      · exact ⟨hu, hall answer List.mem_cons_self⟩
  refine Triple.bind hanswer fun answer => Triple.given fun hec =>
    Triple.ite (fun _ => ?_) fun hne => absurd hec hne
  exact Triple.bind (indifferent_sending.noted rfl) fun _ => Triple.pure fun _ hs => ⟨hs, hec⟩

private theorem doWrite_sending :
    Triple (Sending t session (sends + 1)) (doWrite t K cb) (fun _ => Sending t session sends)
    (Has (Sound t)) := by
  have hsending : Indifferent (Sending t session sends : Sock Circle κ → Prop) (Has (Sound t)) :=
    indifferent_sending
  have hbefore : Indifferent (Sending t session (sends + 1) : Sock Circle κ → Prop)
      (Has (Sound t)) := indifferent_sending
  cases t with
  | tcp => exact hsending.doWriteTcp.before fun _ hs => hs.one_less
  | udp =>
    have hrest (bytes : List UInt8) : Triple (Sending .udp session (sends + 1)) (do
        let ec ← sendDatagram bytes
        if ec ≠ .success then close .udp cb else pure ()
        resetSend) (fun _ => Sending .udp session sends) (Has (Sound .udp)) := by
      refine Triple.bind (sendDatagram_sending bytes) fun ec => Triple.given fun hec => ?_
      exact Triple.ite (fun hne => absurd hec hne) fun _ => hsending.resetSend
    refine Triple.look fun s _ => Triple.ite (fun _ => ?_) fun _ => Triple.pure fun _ hs => hs.one_less
    refine Triple.ite (fun _ => ?_) fun _ => ?_
    · exact Triple.bind hbefore.send fun bytes => hrest bytes
    · exact Triple.bind (hbefore.stagedBytes _) fun bytes => hrest bytes
  | kcp => exact Triple.look fun s _ => (hsending.doWriteKcp K _).before fun _ hs => hs.one_less

/-- Sends leave a live socket live. -/
theorem perform_sending {calls : List Call} (hsends : ∀ call ∈ calls, ∃ payload, call = .send payload) :
    Triple (Sending t session calls.length) (perform t K cb calls) (fun _ => Sending t session 0)
      (Has (Sound t)) := by
  induction calls with
  | nil => exact Triple.pure fun _ h => h
  | cons call calls ih =>
    obtain ⟨payload, rfl⟩ := hsends call List.mem_cons_self
    unfold perform
    refine Triple.bind ?_ fun _ => ih fun call hcall => hsends call (List.mem_cons_of_mem _ hcall)
    exact indifferent_sending.sendPacket indifferent_sending unasked_sound.toIndifferent
      doWrite_sending payload

end Sending
section Application
variable {application : Application κ} {running : Option Nat}

private theorem react_amid (hcb : Heeding t cb) (fromRecv : Bool) (decides : Sock Circle κ → Reaction) :
    Keeps (Has (Amid t running)) (react fromRecv decides (perform t K cb)) (Has (Sound t)) := by
  refine Triple.get fun s hs => Triple.bind (Q := fun _ => Has (Amid t none)) (Triple.modify ?_) fun _ => ?_
  · rintro _ rfl
    exact ⟨⟨hs.sound.opened, hs.sound.agrees, hs.sound.isOpen⟩, rfl⟩
  · refine Triple.bind (perform_amid hcb _) fun _ => Triple.modify fun u hu => ?_
    exact ⟨⟨hu.sound.opened, hu.sound.agrees, hu.sound.isOpen⟩, hs.running⟩

/-- A considerate reaction to `on_connected`. -/
theorem react_live {session : Nat} {decides : Sock Circle κ → Reaction}
    (hconsiderate : ∀ s : Sock Circle κ, s.state = .connected → (decides s).Considerate t) :
    Keeps (Has (Live t running session)) (react false decides (perform t K cb)) (Has (Sound t)) := by
  refine Triple.get fun s hs => ?_
  have hreaction := hconsiderate s hs.state
  refine Triple.bind (Q := fun _ => Sending t session (decides s).calls.length) (Triple.modify ?_) fun _ => ?_
  · rintro _ rfl
    exact ⟨⟨⟨⟨⟨hs.sound.opened, hs.sound.agrees, hs.sound.isOpen⟩, rfl⟩, hs.closed, hs.session⟩,
      hs.state⟩, hreaction.succeed⟩
  · refine Triple.bind (perform_sending hreaction.sends) fun _ => Triple.modify fun u hu => ?_
    have hlive := hu.1
    exact ⟨⟨⟨⟨hlive.sound.opened, hlive.sound.agrees, hlive.sound.isOpen⟩, hs.running⟩,
      hlive.closed, hlive.session⟩, hlive.state⟩

private theorem heeding_reactions (hconsiderate : ∀ s : Sock Circle κ, s.state = .connected →
      (application.onConnected s).Considerate t)
    (depth : Nat) : Heeding t (reactions t K application depth) := by
  induction depth with
  | zero =>
    exact ⟨fun _ _ => Triple.pure fun _ h => h, fun _ => Triple.pure fun _ h => h,
      fun _ _ _ => Triple.pure fun _ h => h⟩
  | succ depth ih =>
    exact ⟨fun _ _ => react_live hconsiderate, fun _ => react_amid ih false _,
      fun _ _ _ => react_amid ih true _⟩

end Application

/-- One turn whose application is considerate opens no socket that is not live. -/
theorem turn_sound (hcb : Heeding t cb) (rounds : Nat) {s : Sock Circle κ}
    (hs : Has (Amid t none) s) {e : ConnectionEvent κ}
    (hpossible : possible s e) (hconnects : ∀ i data session, e = .connector (.complete i .success data) →
      s.socket.pending[i]? = some ⟨.connect, session⟩ → s.socket.isOpen ∧ session = s.socket.session) :
    Triple (fun u => u = s) (turn t K rounds cb e) (fun _ => Has (Sound t)) (Has (Sound t)) := by
  have hbefore {P : Prospect → Prop} (hp : P (prospect s)) : ∀ u, u = s → Has P u := by
    rintro _ rfl
    exact hp
  have hstart : ∀ u, u = s → Has (Amid t none) u := hbefore hs
  cases e with
  | accept kcp =>
    have hnil : s.socket.trace = [] := List.isEmpty_iff.mp hpossible
    have hcourse : course s.socket.trace = {} := by rw [hnil, course, List.foldl_nil]
    have hclosed : (course s.socket.trace).closed = false := by rw [hcourse]
    refine Triple.bind (Q := fun _ => Has (Uncut t none s.socket.session)) (Triple.modify ?_) fun _ => ?_
    · rintro _ rfl
      exact ⟨⟨⟨hs.sound.opened, hs.sound.agrees, fun _ _ => hclosed⟩, hs.running⟩, hclosed, rfl⟩
    · exact (connected_uncut hcb fun n hn => absurd hn (Option.not_mem_none n)).after fun _ _ h => h.sound
  | connector e =>
    cases e with
    | call call => exact ((perform_amid hcb [call]).before hstart).after fun _ _ h => h.sound
    | complete i ec data =>
      refine Triple.get fun u hu => ?_
      subst hu
      split
      · exact (Triple.pure fun _ h => h.sound).before hstart
      rename_i p hp
      have hrunning : Triple (fun v => v = u)
          (socketDo fun a : Asio κ => { a with pending := a.pending.eraseIdx i, running := some p.session })
          (fun _ v => Has (Amid t (some p.session)) v ∧ (prospect v).isOpen = u.socket.isOpen ∧
            (prospect v).session = u.socket.session) (Has (Sound t)) := by
        refine Triple.modify ?_
        rintro _ rfl
        exact ⟨⟨⟨hs.sound.opened, hs.sound.agrees, hs.sound.isOpen⟩, rfl⟩, rfl, rfl⟩
      refine Triple.bind hrunning fun _ => ?_
      by_cases hconnect : t = .tcp ∧ p.operation = .connect
      · obtain ⟨rfl, hoperation⟩ := hconnect
        rw [hoperation]
        refine Triple.ite (fun hec => ?_) fun _ => ?_
        · subst hec
          have hcurrent := hconnects i data p.session rfl (by rw [hp, ← hoperation])
          have huncut : Triple (Has (Uncut .tcp (some p.session) p.session)) (connected .tcp K cb)
              (fun _ => Has (Amid .tcp (some p.session))) (Has (Sound .tcp)) :=
            connected_uncut hcb fun n hn => (Option.mem_some_iff.mp hn).symm
          refine (huncut.before ?_).after fun _ _ h => h.sound
          rintro v ⟨hat, hopen, hsession⟩
          exact ⟨hat, hat.sound.isOpen rfl (hopen.trans hcurrent.1), hsession.trans hcurrent.2.symm⟩
        · exact ((disconnect_amid hcb).before fun _ h => h.1).after fun _ _ h => h.sound
      · have hattended : Attended t cb (Has (Amid t (some p.session))) (Has (Sound t)) := attended_amid hcb
        have hother := hattended.handle K rounds (fun ht h => hconnect ⟨ht, h⟩) ec data
        exact (hother.before fun _ h => h.1).after fun _ _ h => h.sound
    | tick current =>
      refine Triple.ite ?_ fun _ => (Triple.pure fun _ h => h.sound).before hstart
      rintro rfl
      exact (((attended_amid hcb).update K rounds current).before hstart).after fun _ _ h => h.sound

end Connection
open Connection

theorem Turn.Considerate.step {κ : Type} {t : Transport} {K : Ikcp κ} {s s' : Sock Circle κ} {τ : Turn κ}
    (hs : Has (Amid t none) s) (h : τ.Considerate t s) (hstep : ConnectionStep t K s τ s') :
    Has (Amid t none) s' := by
  have hstart : Has (Amid t none) (surrounded { answers := τ.answers } s) := hs
  have hturn : Triple (fun u => u = surrounded { answers := τ.answers } s)
      (turn t K τ.rounds (reactions t K τ.application τ.depth) τ.event) (fun _ => Has (Sound t))
        (Has (Sound t)) :=
    turn_sound (heeding_reactions h.application τ.depth) τ.rounds hstart hstep.1 h.connects
  rw [hstep.2, afterTurn]
  split
  · rename_i u hr
    have hend : Has (Sound t) u := hturn.returns rfl hr
    exact ⟨⟨hend.opened, hend.agrees, hend.isOpen⟩, rfl⟩
  · rename_i u hr
    have hend : Has (Sound t) u := hturn.faults rfl hr
    exact ⟨⟨hend.opened, hend.agrees, hend.isOpen⟩, rfl⟩

/-- Over every run of a connection whose `on_connected` callbacks are considerate,
each `open()` finds the state CONNECTED and its socket not closed since it was
connected. The trace tells the state of the connection. -/
theorem opens_live {κ : Type} (t : Transport) (K : Ikcp κ) {turns : List (Turn κ)} {s : Sock Circle κ}
    (hrun : Run (fun s τ s' => τ.Considerate t s ∧ ConnectionStep t K s τ s') connector turns s) :
    OpenedLive s.socket.trace ∧ (course s.socket.trace).state = s.state := by
  have hstart : Has (Amid t none) (connector : Sock Circle κ) := by
    refine ⟨⟨?_, rfl, fun _ _ => rfl⟩, rfl⟩
    intro before e after h
    exact absurd h.symm (List.append_ne_nil_of_right_ne_nil before (List.cons_ne_nil e after))
  have hlast : Has (Amid t none) s := hrun.invariant (fun hs h => h.1.step hs h.2) hstart
  exact ⟨hlast.sound.opened, hlast.sound.agrees⟩

def greeter (calls : List Call) (answers : List Answer) : Application Unit :=
  ⟨fun _ => ⟨calls, answers⟩, fun _ => {}, fun _ _ _ => {}⟩

def dials : Turn Unit := { event := .connector (.call .connect), application := greeter [.send [1]] [] }

def greets : Turn Unit :=
  { event := .connector (.complete 0 .success []), application := greeter [.send [1]] [], depth := 1 }

theorem opens_live_greeting : ∃ s, Run (ConnectionStep .tcp noKcp) connector [dials, greets] s ∧
    .openSocket ∈ s.socket.trace.map Entry.action ∧ OpenedLive s.socket.trace := by
  have hfirst : ConnectionStep .tcp noKcp connector dials (afterTurn .tcp noKcp connector dials) :=
    ⟨by decide +kernel, rfl⟩
  have hsecond : ConnectionStep .tcp noKcp (afterTurn .tcp noKcp connector dials) greets
      (afterTurn .tcp noKcp (afterTurn .tcp noKcp connector dials) greets) := ⟨by decide +kernel, rfl⟩
  have hpending : (afterTurn .tcp noKcp connector dials).socket.pending[0]? =
      some ⟨.connect, 1⟩ := by decide +kernel
  have hsends (s : Sock Circle Unit) : ((greeter [.send [1]] []).onConnected s).Considerate .tcp :=
    ⟨fun call hcall => ⟨[1], List.mem_singleton.mp hcall⟩, fun ht => nomatch ht⟩
  refine ⟨_, .cons hfirst (.cons hsecond (.nil _)), by decide +kernel, ?_⟩
  refine (opens_live .tcp noKcp (.cons ⟨?_, hfirst⟩ (.cons ⟨?_, hsecond⟩ (.nil _)))).1
  · exact ⟨fun s _ => hsends s, fun i data session he => nomatch he⟩
  · refine ⟨fun s _ => hsends s, ?_⟩
    rintro i data session he hp
    cases he
    cases hpending.symm.trans hp
    exact ⟨by decide +kernel, by decide +kernel⟩

/-- An accepted connection whose application gives it up in `on_connected`. -/
def leaving : Turn Unit := { event := .accept none, application := greeter [.disconnect] [], depth := 1 }

def failing : Turn Unit :=
  { event := .accept none, application := greeter [.send [1]] [⟨.failure, [], 0⟩], depth := 1 }

/-- `connected()` goes on to `open()` after an `on_connected` that closed the socket. -/
theorem opens_closed_socket : (∀ t, ∃ s, Run (ConnectionStep t noKcp) connector [leaving] s ∧
      ¬ OpenedLive s.socket.trace) ∧
    ∃ s, Run (ConnectionStep .udp noKcp) connector [failing] s ∧ ¬ OpenedLive s.socket.trace := by
  have hrun (t : Transport) (τ : Turn Unit) (hpossible : possible (connector : Sock Circle Unit) τ.event) :
      Run (ConnectionStep t noKcp) connector [τ] (afterTurn t noKcp connector τ) :=
    .cons ⟨hpossible, rfl⟩ (.nil _)
  have hopens {trace : List Entry} (hlast : trace = trace.dropLast ++ [⟨0, none, .openSocket⟩])
      (hcourse : course trace.dropLast ≠ ⟨.connected, false⟩) : ¬ OpenedLive trace :=
    fun h => hcourse (h trace.dropLast _ [] hlast rfl).1
  refine ⟨fun t => ⟨_, hrun t leaving rfl, ?_⟩, _, hrun .udp failing rfl,
    hopens (by decide +kernel) (by decide +kernel)⟩
  cases t with
  | tcp => exact hopens (by decide +kernel) (by decide +kernel)
  | udp => exact hopens (by decide +kernel) (by decide +kernel)
  | kcp => exact hopens (by decide +kernel) (by decide +kernel)

end SimpleNetwork
