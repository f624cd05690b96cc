import SimpleNetwork.Asio.Connector
import SimpleNetwork.Base.Triple

/-! The pieces of the socket functions that neither open nor close a socket, nor
change the connection state, nor report: what they leave as it is. -/
namespace SimpleNetwork
open Outcome

def Action.routine : Action → Bool
  | .resetRecv | .resetSend | .release | .received _ | .sent _ => true
  | _ => false

def Asio.bearing {κ : Type} (a : Asio κ) : Asio κ :=
  { a with flags := 0, kcp := none, front := [], pending := [], scripts := [], inRecv := false }

theorem Asio.same_bearing {κ : Type} {a b : Asio κ} (h : a.bearing = b.bearing) :
    a.isOpen = b.isOpen ∧ a.session = b.session ∧ a.running = b.running ∧ a.trace = b.trace ∧
      a.answers = b.answers := by
  have hfield {α : Type} (f : Asio κ → α) : f a.bearing = f b.bearing := congrArg f h
  exact ⟨hfield isOpen, hfield session, hfield running, hfield trace, hfield answers⟩

namespace Connection
variable {κ α : Type}

/-- A predicate that does not look at buffers, transfers and routine actions. -/
structure Indifferent (P E : Sock Circle κ → Prop) : Prop where
  exit : ∀ {s}, P s → E s
  same : ∀ {s u : Sock Circle κ}, u.state = s.state → u.socket.bearing = s.socket.bearing → P s → P u
  noted : ∀ {action : Action}, action.routine → Keeps P (note action) E

/-- It does not look at the answers to come either. -/
structure Unasked (P E : Sock Circle κ → Prop) : Prop extends Indifferent P E where
  answered : ∀ {s answers}, P s → P { s with socket := { s.socket with answers := answers } }

variable {P E : Sock Circle κ → Prop}

section Indifferent
variable (h : Indifferent P E)
include h

theorem Indifferent.send {x : EStateM Fault Circle α} : Keeps P (send x) E :=
  Triple.zoom (fun _ s hs => h.same (s := s) rfl rfl hs) fun _ hs => h.exit hs

theorem Indifferent.recv {x : EStateM Fault Circle α} : Keeps P (recv x) E :=
  Triple.zoom (fun _ s hs => h.same (s := s) rfl rfl hs) fun _ hs => h.exit hs

theorem Indifferent.modify {f : Sock Circle κ → Sock Circle κ} (hstate : ∀ s, (f s).state = s.state)
    (hsocket : ∀ s, (f s).socket.bearing = s.socket.bearing) :
    Keeps P (modifyGet fun s => (⟨⟩, f s) : EStateM Fault (Sock Circle κ) PUnit) E :=
  Triple.modify fun s hs => h.same (hstate s) (hsocket s) hs

theorem Indifferent.socketDo {f : Asio κ → Asio κ} (hf : ∀ a, (f a).bearing = a.bearing) : Keeps P
    (socketDo f) E :=
  h.modify (fun _ => rfl) fun s => hf s.socket

theorem Indifferent.start (operation : Operation) : Keeps P (start operation) E :=
  h.modify (fun _ => rfl) fun _ => rfl

theorem Indifferent.resetRecv : Keeps P resetRecv E :=
  Triple.bind (h.modify (fun _ => rfl) fun _ => rfl) fun _ => h.noted rfl

theorem Indifferent.resetSend : Keeps P resetSend E :=
  Triple.bind (h.modify (fun _ => rfl) fun _ => rfl) fun _ => h.noted rfl

theorem Indifferent.release : Keeps P release E :=
  Triple.bind (h.socketDo fun _ => rfl) fun _ => h.noted rfl

theorem Indifferent.nonBlocking : Keeps P nonBlocking E :=
  Triple.look fun _ _ => Triple.ite (fun _ => Triple.pure fun _ hs => hs) fun _ =>
    Triple.throw fun _ hs => h.exit hs

theorem Indifferent.doWriteTcp : Keeps P doWriteTcp E := by
  refine Triple.look fun s _ => Triple.ite (fun _ => Triple.ite (fun _ => ?_) fun _ => ?_) fun _ => ?_
  · exact Triple.bind (h.socketDo fun _ => rfl) fun _ => h.start _
  · exact Triple.pure fun _ hs => hs
  · exact Triple.pure fun _ hs => hs

theorem Indifferent.doRead (t : Transport) : Keeps P (doRead t) E := by
  cases t with
  | tcp | kcp => exact h.start _
  | udp => exact Triple.bind h.recv fun _ => Triple.look fun s _ => h.start _

theorem Indifferent.load (d : Data) (start count : UInt64) : Keeps P (d.load start count) E :=
  Triple.ite (fun _ => Triple.pure fun _ hs => hs) fun _ => Triple.throw fun _ hs => h.exit hs

theorem Indifferent.store (d : Data) (start : UInt64) (bytes : List UInt8) :
    Keeps P (d.store start bytes) E :=
  Triple.ite (fun _ => Triple.pure fun _ hs => hs) fun _ => Triple.throw fun _ hs => h.exit hs

theorem Indifferent.stagedBytes (count : UInt64) : Keeps P (stagedBytes count) E := by
  refine Triple.look fun s _ => Triple.bind h.send fun first => Triple.bind (h.store _ _ _) fun staged => ?_
  refine Triple.bind h.send fun _ => Triple.look fun s _ => Triple.bind h.send fun second => ?_
  exact Triple.bind (h.store _ _ _) fun staged => h.load _ _ _

theorem Indifferent.doWriteKcp (K : Ikcp κ) (fuel : Nat) : Keeps P (doWriteKcp K fuel) E := by
  induction fuel with
  | zero => exact Triple.throw fun _ hs => h.exit hs
  | succ fuel ih =>
    refine Triple.look fun s _ => ?_
    split
    · exact Triple.pure fun _ hs => hs
    · refine Triple.ite (fun _ => Triple.bind h.send fun bytes => ?_) fun _ => Triple.pure fun _ hs => hs
      exact Triple.bind (h.socketDo fun _ => rfl) fun _ => Triple.bind h.send fun _ => ih

end Indifferent

section Unasked
variable (h : Unasked P E)
include h

theorem Unasked.nextAnswer : Keeps P nextAnswer E := by
  refine Triple.look fun s _ => ?_
  split
  · exact Triple.pure fun _ hs => hs
  · exact Triple.bind (Triple.modify fun _ hs => h.answered hs) fun _ => Triple.pure fun _ hs => hs

theorem Unasked.attempt : Keeps P attempt E := by
  refine Triple.bind h.nextAnswer fun answer => Triple.ite (fun _ => Triple.pure fun _ hs => hs) fun _ => ?_
  exact Triple.throw fun _ hs => h.exit hs

theorem Unasked.sendDatagram (bytes : List UInt8) : Keeps P (sendDatagram bytes) E := by
  refine Triple.bind h.nextAnswer fun answer => Triple.ite (fun _ => ?_) fun _ => Triple.pure fun _ hs => hs
  exact Triple.bind (h.noted rfl) fun _ => Triple.pure fun _ hs => hs

theorem Unasked.sendOnce : Keeps P sendOnce E := by
  refine Triple.look fun s _ => Triple.bind h.send fun bytes => Triple.bind h.nextAnswer fun answer => ?_
  refine Triple.ite (fun _ => Triple.bind h.send fun _ => ?_) fun _ => Triple.pure fun _ hs => hs
  exact Triple.bind (h.noted rfl) fun _ => Triple.pure fun _ hs => hs

end Unasked
/-- A predicate that also survives a close and the application's `on_recv`. -/
structure Attended (t : Transport) (cb : Callbacks Circle κ) (P E : Sock Circle κ → Prop) :
    Prop extends Unasked P E where
  closes : Keeps P (close t cb) E
  receives : ∀ i r, Keeps P (cb.onRecv i r) E

section Handlers
variable {t : Transport} {cb : Callbacks Circle κ}

theorem Attended.doWrite (h : Attended t cb P E) (K : Ikcp κ) : Keeps P (doWrite t K cb) E := by
  cases t with
  | tcp => exact h.doWriteTcp
  | udp =>
    have hrest (bytes : List UInt8) : Keeps P (do
        let ec ← Connection.sendDatagram bytes
        if ec ≠ .success then close .udp cb else pure ()
        Connection.resetSend) E := by
      refine Triple.bind (h.sendDatagram _) fun ec => Triple.ite (fun _ => ?_) fun _ => h.resetSend
      exact Triple.bind h.closes fun _ => h.resetSend
    refine Triple.look fun s _ => Triple.ite (fun _ => ?_) fun _ => Triple.pure fun _ hs => hs
    refine Triple.ite (fun _ => ?_) fun _ => ?_
    · exact Triple.bind h.send fun bytes => hrest bytes
    · exact Triple.bind (h.stagedBytes _) fun bytes => hrest bytes
  | kcp => exact Triple.look fun s _ => h.doWriteKcp K _

theorem Attended.onRead (h : Attended t cb P E) (rounds : Nat) : Keeps P (onRead cb.onRecv rounds) E := by
  have hround : Keeps P (onReadRound cb.onRecv) E := by
    refine Triple.look fun s _ => Triple.ite (fun _ => Triple.pure fun _ hs => hs) fun _ => ?_
    refine Triple.bind h.recv fun bytes => ?_
    refine Triple.look fun s _ => Triple.ite (fun _ => Triple.pure fun _ hs => hs) fun _ => ?_
    refine Triple.bind h.recv fun reader => Triple.look fun s _ => ?_
    refine Triple.bind (h.receives _ _) fun _ => Triple.bind h.recv fun _ => ?_
    refine Triple.bind (h.modify (fun _ => rfl) fun _ => rfl) fun _ => ?_
    exact Triple.look fun s _ => Triple.pure fun _ hs => hs
  induction rounds with
  | zero => exact Triple.throw fun _ hs => h.exit hs
  | succ rounds ih =>
    exact Triple.bind hround fun more => Triple.ite (fun _ => ih) fun _ => Triple.pure fun _ hs => hs

theorem Attended.handleWaitWrite (h : Attended .tcp cb P E) (ec : ErrorCode) :
    Keeps P (handleWaitWrite cb ec) E := by
  have hloop (fuel : Nat) : Keeps P (sendLoop cb fuel) E := by
    induction fuel with
    | zero => exact Triple.throw fun _ hs => h.exit hs
    | succ fuel ih =>
      refine Triple.bind h.sendOnce fun ec => ?_
      split
      · exact Triple.look fun s _ => Triple.ite (fun _ => ih) fun _ => Triple.pure fun _ hs => hs
      · exact Triple.pure fun _ hs => hs
      · exact Triple.bind h.closes fun _ => Triple.pure fun _ hs => hs
  refine Triple.ite (fun _ => h.closes) fun _ => Triple.look fun s _ => ?_
  refine Triple.bind (hloop _) fun more => Triple.ite (fun _ => ?_) fun _ => Triple.pure fun _ hs => hs
  exact Triple.bind (h.socketDo fun _ => rfl) fun _ => h.doWriteTcp

theorem Attended.receiveLoop (h : Attended .tcp cb P E) (rounds fuel : Nat) :
    Keeps P (receiveLoop cb rounds fuel) E := by
  induction fuel with
  | zero => exact Triple.throw fun _ hs => h.exit hs
  | succ fuel ih =>
    refine Triple.bind h.recv fun size => Triple.ite (fun _ => Triple.pure fun _ hs => hs) fun _ => ?_
    refine Triple.bind h.nextAnswer fun answer =>
      Triple.ite (fun _ => Triple.bind h.recv fun _ => ?_) fun _ => ?_
    · refine Triple.bind h.recv fun _ => Triple.bind (h.noted rfl) fun _ =>
        Triple.bind (h.onRead rounds) fun _ => ?_
      split
      · exact ih
      · exact Triple.pure fun _ hs => hs
      · exact Triple.bind h.closes fun _ => Triple.pure fun _ hs => hs
    · split
      · exact ih
      · exact Triple.pure fun _ hs => hs
      · exact Triple.bind h.closes fun _ => Triple.pure fun _ hs => hs

theorem Attended.handleWaitRead (h : Attended .tcp cb P E) (rounds : Nat) (ec : ErrorCode) :
    Keeps P (handleWaitRead cb rounds ec) E := by
  refine Triple.ite (fun _ => h.closes) fun _ => Triple.look fun s _ => ?_
  refine Triple.bind (h.receiveLoop rounds _) fun more => Triple.ite (fun _ => ?_) fun _ =>
    Triple.pure fun _ hs => hs
  exact h.doRead .tcp

theorem Attended.handleReceiveUdp (h : Attended .udp cb P E) (rounds : Nat) (place space : UInt64)
    (ec : ErrorCode)
    (data : List UInt8) : Keeps P (handleReceiveUdp cb rounds place space ec data) E := by
  refine Triple.ite (fun _ => h.closes) fun _ => Triple.look fun s _ => ?_
  refine Triple.bind (h.store _ _ _) fun stored => ?_
  refine Triple.bind (h.modify (fun _ => rfl) fun _ => rfl) fun _ => ?_
  refine Triple.bind h.recv fun _ => Triple.bind (h.noted rfl) fun _ => ?_
  exact Triple.bind (h.onRead rounds) fun _ => Triple.bind h.resetRecv fun _ => h.doRead .udp

theorem Attended.handleReceiveKcp (h : Attended .kcp cb P E) (K : Ikcp κ) (ec : ErrorCode)
    (data : List UInt8) :
    Keeps P (handleReceiveKcp K cb ec data) E := by
  refine Triple.ite (fun _ => h.closes) fun _ => ?_
  refine Triple.bind (h.socketDo fun _ => rfl) fun _ => Triple.bind (h.noted rfl) fun _ =>
    Triple.look fun s _ => ?_
  refine Triple.ite (fun _ => Triple.pure fun _ hs => hs) fun _ => Triple.ite (fun _ => ?_) fun _ => ?_
  · refine Triple.bind (h.socketDo fun _ => rfl) fun _ => Triple.bind (h.doWrite K) fun _ => ?_
    exact Triple.bind (h.socketDo fun _ => rfl) fun _ => h.doRead .kcp
  · exact Triple.bind (h.socketDo fun _ => rfl) fun _ => h.doRead .kcp

theorem Attended.update (h : Attended .kcp cb P E) (K : Ikcp κ) (rounds : Nat) (current : UInt32) :
    Keeps P (update K cb rounds current) E := by
  have houtput (datagrams : List (List UInt8)) : Keeps P (output cb datagrams) E := by
    induction datagrams with
    | nil => exact Triple.pure fun _ hs => hs
    | cons bytes rest ih =>
      refine Triple.bind (h.sendDatagram _) fun ec => Triple.ite (fun _ => ?_) fun _ => ih
      exact Triple.bind h.closes fun _ => Triple.throw fun _ hs => h.exit hs
  refine Triple.look fun s _ => ?_
  split
  · exact Triple.pure fun _ hs => hs
  · refine Triple.bind (houtput _) fun _ => ?_
    refine Triple.bind (h.socketDo fun _ => rfl) fun _ => Triple.bind h.recv fun size => ?_
    refine Triple.bind (h.socketDo fun _ => rfl) fun _ => ?_
    refine Triple.ite (fun _ => ?_) fun _ => Triple.pure fun _ hs => hs
    exact Triple.bind h.recv fun _ => Triple.bind h.recv fun _ => h.onRead rounds

/-- The handlers other than that of a connect. -/
theorem Attended.handle (h : Attended t cb P E) (K : Ikcp κ) (rounds : Nat) {operation : Operation}
    (hother : t = .tcp → operation ≠ .connect) (ec : ErrorCode) (data : List UInt8) :
    Keeps P (handle t K cb rounds operation ec data) E := by
  unfold Connection.handle
  split
  · exact absurd rfl (hother rfl)
  · exact h.handleWaitRead rounds ec
  · exact h.handleWaitWrite ec
  · exact h.handleReceiveUdp rounds _ _ ec data
  · exact h.handleReceiveKcp K ec data
  · exact Triple.pure fun _ hs => hs

end Handlers

/-- A packet is sent: only the write at the end may lead to another predicate. -/
theorem Indifferent.sendPacket {Q : Sock Circle κ → Prop} {t : Transport} {K : Ikcp κ}
    {cb : Callbacks Circle κ}
    (h : Indifferent P E) (hq : Indifferent Q E) (he : Indifferent E E)
    (hwrite : Triple P (Connection.doWrite t K cb) (fun _ => Q) E) (payload : List UInt8) :
    Triple P (sendPacket t K cb payload) (fun _ => Q) E := by
  have hholding {γ : Type} {R : Sock Circle κ → Prop} {w : Writer} {x : EStateM Fault (Sock Circle κ) γ}
      (hx : Triple P x (fun _ => R) E) : Triple P (holding w x) (fun _ => R) E := by
    refine Triple.tryCatch hx fun e => ?_
    exact Triple.bind he.send fun _ => Triple.throw fun _ hs => hs
  refine Triple.bind h.send fun w => ?_
  refine Triple.bind (hholding h.send) fun w => ?_
  refine Triple.bind (hholding (Triple.bind h.send fun _ => hwrite)) fun _ => ?_
  exact hq.send

end Connection
end SimpleNetwork
