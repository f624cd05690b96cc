import SimpleNetwork.Asio.Modes
import SimpleNetwork.Base.Runs

/-! Completions and sessions of a connector. Handlers carry no session, so a
stale completion acts on whatever session is current; it can be kept out only
by the moments at which `connect()` is called. -/
namespace SimpleNetwork
open Outcome Runs

namespace Connection
variable {κ : Type} {t : Transport} {m : Mode} {K : Ikcp κ} {cb : Callbacks Circle κ} {s : Sock Circle κ}

/-- Callbacks that keep the invariant: a notification may end the session of the
handler that makes it, an `on_recv` may not. -/
structure Tame (t : Transport) (cb : Callbacks Circle κ) : Prop where
  onConnected : ∀ m, Triple (At t m) cb.onConnected (fun _ => At t m.after) Good
  onDisconnected : ∀ m, Triple (At t m) cb.onDisconnected (fun _ => At t m.after) Good
  onRecv : ∀ m, m.Active → ∀ i r, Keeps (At t m) (cb.onRecv i r) Good

section Sockets
variable (hcb : Tame t cb)
include hcb

private theorem onClose_ends (hm : m.Active) : Triple (At t m) (onClose cb) (fun _ => At t m.after) Good := by
  refine Triple.look fun s _ => Triple.ite ?_ ?_
  · intro _
    refine Triple.bind (setState_keeps hm) fun _ => ?_
    refine Triple.bind (note_silent rfl) fun _ => ?_
    exact hcb.onDisconnected m
  · intro _
    exact Triple.pure fun _ h => h.after

omit hcb in
/-- The release at the end of a kcp close finds a control block only in its own session. -/
theorem release_keeps : Triple (fun s => At .kcp m s ∧ s.socket.kcp.isSome)
    (release : EStateM Fault (Sock Circle κ) Unit)
    (fun _ s => At .kcp m s ∧ s.socket.kcp = none) Good := by
  refine Triple.bind
    (Q := fun _ s => (At .kcp m s ∧ s.socket.kcp = none) ∧
      (s.socket.Clean → ∀ c ∈ m.running, s.socket.session = c)) ?_ ?_
  · refine Triple.modify fun s h => ?_
    obtain ⟨⟨hr, hi, ho⟩, hk⟩ := h
    refine ⟨⟨⟨hr, hi, ?_⟩, rfl⟩, ?_⟩
    · intro hc
      refine ⟨(ho hc).1, ?_⟩
      have hpin := (ho hc).2
      cases m with
      | application => trivial
      | inRecv n | handler n => exact hpin
      | notified n | left n => exact fun _ => .inr rfl
    · intro hc c hrun
      have hpin := (ho hc).2
      cases m with
      | handler n =>
        cases hrun
        exact hpin
      | left n =>
        cases hrun
        refine (hpin rfl).resolve_right fun hnone => ?_
        rw [hnone] at hk
        cases hk
      | application | inRecv n | notified n => cases hrun
  · intro _
    refine Triple.modify fun s h => ?_
    exact ⟨h.1.1.noted fun _ => h.2, h.1.2⟩

omit hcb in
private theorem close_kcp_ends (hcb : Tame .kcp cb) (hm : m.Active) :
    Triple (At .kcp m) (close .kcp cb) (fun _ s => At .kcp m.after s ∧ s.socket.kcp = none) Good := by
  unfold close
  refine Triple.bind (closeSocket_keeps hm) fun _ => ?_
  refine Triple.bind (onClose_ends hcb hm) fun _ => ?_
  refine Triple.get fun s hs => Triple.ite ?_ ?_
  · intro hk
    exact release_keeps.before fun _ h => h ▸ ⟨hs, hk⟩
  · intro hk
    exact Triple.pure fun _ h => h ▸ ⟨hs, by simpa using hk⟩

private theorem close_ends (hm : m.Active) : Triple (At t m) (close t cb) (fun _ => At t m.after) Good := by
  cases t with
  | tcp =>
    unfold close
    refine Triple.bind (socketDo_keeps fun _ => rfl) fun _ => ?_
    refine Triple.bind (resetRecv_keeps hm) fun _ => ?_
    refine Triple.bind (resetSend_keeps hm) fun _ => ?_
    refine Triple.bind (closeSocket_keeps hm) fun _ => ?_
    exact onClose_ends hcb hm
  | udp =>
    unfold close
    refine Triple.bind (closeSocket_keeps hm) fun _ => ?_
    exact onClose_ends hcb hm
  | kcp => exact (close_kcp_ends hcb hm).after fun _ _ h => h.1

private theorem disconnect_ends (hm : m.Active) :
    Triple (At t m) (disconnect t cb) (fun _ => At t m.after) Good := by
  have hafter : m.after.after = m.after := by cases m <;> rfl
  refine Triple.look fun s _ => Triple.ite ?_ ?_
  · intro _
    exact Triple.pure fun _ h => h.after
  · intro _
    refine Triple.bind (setState_keeps hm) fun _ => ?_
    refine Triple.bind (close_ends hcb hm) fun _ => ?_
    refine Triple.bind (note_silent rfl) fun _ => ?_
    have hlast := hcb.onDisconnected m.after
    rw [hafter] at hlast
    exact hlast

omit hcb in
private theorem doWriteUdp_keeps (hcb : Tame .udp cb) (hm : m.running = none) :
    Keeps (At .udp m) (doWriteUdp cb) Good := by
  have hactive := Mode.active_of_running hm
  have hclose := close_ends hcb hactive
  rw [Mode.after_of_running hm] at hclose
  have hrest (bytes : List UInt8) : Keeps (At .udp m) (do
      let ec ← sendDatagram bytes
      if ec ≠ .success then close .udp cb else pure ()
      resetSend) Good := by
    refine Triple.bind sendDatagram_keeps fun ec => ?_
    refine Triple.ite ?_ ?_
    · intro _
      exact Triple.bind hclose fun _ => resetSend_keeps hactive
    · intro _
      exact resetSend_keeps hactive
  unfold doWriteUdp
  refine Triple.look fun s _ => Triple.ite (fun _ => ?_) fun _ => Triple.pure fun _ h => h
  refine Triple.ite ?_ ?_
  · intro _
    exact Triple.bind send_keeps hrest
  · intro _
    exact Triple.bind stagedBytes_keeps hrest

private theorem doWrite_keeps (hm : m.running = none) : Keeps (At t m) (doWrite t K cb) Good := by
  cases t with
  | tcp => exact doWriteTcp_keeps
  | udp => exact doWriteUdp_keeps hcb hm
  | kcp => exact Triple.look fun s _ => doWriteKcp_keeps _

private theorem openSocket_keeps (hm : t = .tcp ∨ m.running = none) :
    Keeps (At t m) (openSocket t K cb) Good := by
  unfold openSocket
  split
  · exact openTcp_keeps
  · rename_i htcp
    have hrun := hm.resolve_left htcp
    refine Triple.bind (note_silent rfl) fun _ => ?_
    refine Triple.bind nonBlocking_keeps fun _ => ?_
    refine Triple.bind doRead_keeps fun _ => ?_
    exact doWrite_keeps hcb hrun

private theorem connected_ends (hactive : m.Active) (hm : t = .tcp ∨ m.running = none) :
    Triple (At t m) (connected t K cb) (fun _ => At t m.after) Good := by
  unfold connected
  refine Triple.look fun s _ => Triple.ite ?_ ?_
  · intro _
    refine Triple.bind (setState_keeps hactive) fun _ => ?_
    refine Triple.bind (note_silent rfl) fun _ => ?_
    refine Triple.bind (hcb.onConnected m) fun _ => ?_
    refine openSocket_keeps hcb (hm.imp_right fun hrun => ?_)
    rw [Mode.after_of_running hrun]
    exact hrun
  · intro _
    exact Triple.pure fun _ h => h.after

private theorem onReadRound_keeps (hm : m.Active) : Keeps (At t m) (onReadRound cb.onRecv) Good := by
  unfold onReadRound
  refine Triple.look fun s _ => Triple.ite (fun _ => Triple.pure fun _ h => h) fun _ => ?_
  refine Triple.bind recv_keeps fun bytes => ?_
  refine Triple.look fun s _ => Triple.ite (fun _ => Triple.pure fun _ h => h) fun _ => ?_
  refine Triple.bind recv_keeps fun reader => ?_
  refine Triple.look fun s _ => ?_
  refine Triple.bind (hcb.onRecv m hm _ _) fun _ => ?_
  refine Triple.bind recv_keeps fun _ => ?_
  refine Triple.bind (Q := fun _ => At t m) (Triple.modify fun _ h => h) fun _ => ?_
  exact Triple.look fun s _ => Triple.pure fun _ h => h

private theorem onRead_keeps (hm : m.Active) (fuel : Nat) : Keeps (At t m) (onRead cb.onRecv fuel) Good := by
  induction fuel with
  | zero => exact Triple.throw fun _ h => h.good
  | succ fuel ih =>
    refine Triple.bind (onReadRound_keeps hcb hm) fun more => Triple.ite (fun _ => ih) fun _ => ?_
    exact Triple.pure fun _ h => h

end Sockets

section Handlers
variable {n : Nat}

/-- The mode of a loop of a handler that goes on or has closed. -/
def looping (n : Nat) (more : Bool) : Mode := if more then .handler n else .left n

private theorem sendLoop_keeps (hcb : Tame .tcp cb) (fuel : Nat) :
    Triple (At .tcp (.handler n)) (sendLoop cb fuel) (fun more => At .tcp (looping n more)) Good := by
  induction fuel with
  | zero => exact Triple.throw fun _ h => h.good
  | succ fuel ih =>
    refine Triple.bind sendOnce_keeps fun ec => ?_
    split
    · refine Triple.look fun s _ => Triple.ite (fun _ => ih) fun _ => ?_
      exact Triple.pure fun _ h => h
    · exact Triple.pure fun _ h => h
    · refine Triple.bind (close_ends hcb trivial) fun _ => ?_
      exact Triple.pure fun _ h => h

private theorem handleWaitWrite_ends (hcb : Tame .tcp cb) (ec : ErrorCode) :
    Triple (At .tcp (.handler n)) (handleWaitWrite cb ec) (fun _ => At .tcp (.left n)) Good := by
  unfold handleWaitWrite
  refine Triple.ite (fun _ => close_ends hcb trivial) fun _ => ?_
  refine Triple.look fun s _ => ?_
  refine Triple.bind (sendLoop_keeps hcb _) fun more => ?_
  cases more with
  | false => exact Triple.pure fun _ h => h
  | true =>
    refine Triple.bind (socketDo_keeps fun _ => rfl) fun _ => ?_
    exact doWriteTcp_keeps.after fun _ _ h => h.after

private theorem receiveLoop_keeps (hcb : Tame .tcp cb) (rounds fuel : Nat) :
    Triple (At .tcp (.handler n)) (receiveLoop cb rounds fuel)
      (fun more => At .tcp (looping n more)) Good := by
  induction fuel with
  | zero => exact Triple.throw fun _ h => h.good
  | succ fuel ih =>
    refine Triple.bind recv_keeps fun size => Triple.ite (fun _ => Triple.pure fun _ h => h) fun _ => ?_
    refine Triple.bind nextAnswer_keeps fun answer => Triple.ite ?_ ?_
    · intro _
      refine Triple.bind recv_keeps fun _ => ?_
      refine Triple.bind recv_keeps fun _ => ?_
      refine Triple.bind (note_silent rfl) fun _ => ?_
      refine Triple.bind (onRead_keeps (m := .handler n) hcb trivial rounds) fun _ => ?_
      split
      · exact ih
      · exact Triple.pure fun _ h => h
      · exact Triple.bind (close_ends hcb trivial) fun _ => Triple.pure fun _ h => h
    · intro _
      split
      · exact ih
      · exact Triple.pure fun _ h => h
      · exact Triple.bind (close_ends hcb trivial) fun _ => Triple.pure fun _ h => h

private theorem handleWaitRead_ends (hcb : Tame .tcp cb) (rounds : Nat) (ec : ErrorCode) :
    Triple (At .tcp (.handler n)) (handleWaitRead cb rounds ec) (fun _ => At .tcp (.left n)) Good := by
  unfold handleWaitRead
  refine Triple.ite (fun _ => close_ends hcb trivial) fun _ => ?_
  refine Triple.look fun s _ => ?_
  refine Triple.bind (receiveLoop_keeps hcb rounds _) fun more => ?_
  cases more with
  | false => exact Triple.pure fun _ h => h
  | true => exact doRead_keeps.after fun _ _ h => h.after

private theorem handleReceiveUdp_ends (hcb : Tame .udp cb) (rounds : Nat) (place space : UInt64)
    (ec : ErrorCode)
    (data : List UInt8) :
    Triple (At .udp (.handler n)) (handleReceiveUdp cb rounds place space ec data)
      (fun _ => At .udp (.left n)) Good := by
  unfold handleReceiveUdp
  refine Triple.ite (fun _ => close_ends hcb trivial) fun _ => ?_
  refine Triple.look fun s _ => ?_
  refine Triple.bind (store_keeps (fun _ h => h.good) _ _ _) fun stored => ?_
  refine Triple.bind (Q := fun _ => At .udp (.handler n)) (Triple.modify fun _ h => h) fun _ => ?_
  refine Triple.bind recv_keeps fun _ => ?_
  refine Triple.bind (note_silent rfl) fun _ => ?_
  refine Triple.bind (onRead_keeps (m := .handler n) hcb trivial rounds) fun _ => ?_
  refine Triple.bind (resetRecv_keeps trivial) fun _ => ?_
  exact doRead_keeps.after fun _ _ h => h.after

/-- A handler in its own session may do with the control block what it likes. -/
theorem handler_kcp {f : Asio κ → Option κ} :
    Keeps (At .kcp (.handler n)) (socketDo fun a : Asio κ => { a with kcp := f a }) Good :=
  Triple.modify fun _ h => h

private theorem handleReceiveKcp_ends (hcb : Tame .kcp cb) (ec : ErrorCode) (data : List UInt8) :
    Triple (At .kcp (.handler n)) (handleReceiveKcp K cb ec data) (fun _ => At .kcp (.left n)) Good := by
  unfold handleReceiveKcp
  refine Triple.ite (fun _ => close_ends hcb trivial) fun _ => ?_
  refine Triple.bind (socketDo_keeps fun _ => rfl) fun _ => ?_
  refine Triple.bind (note_silent rfl) fun _ => ?_
  refine Triple.look fun s _ => Triple.ite (fun _ => Triple.pure fun _ h => h.after) fun _ => ?_
  refine Triple.ite ?_ ?_
  · intro _
    refine Triple.bind handler_kcp fun _ => ?_
    refine Triple.bind (Triple.look fun s _ => doWriteKcp_keeps _) fun _ => ?_
    refine Triple.bind handler_kcp fun _ => ?_
    exact doRead_keeps.after fun _ _ h => h.after
  · intro _
    refine Triple.bind handler_kcp fun _ => ?_
    exact doRead_keeps.after fun _ _ h => h.after

theorem handle_ends (hcb : Tame t cb) (rounds : Nat) (operation : Operation) (ec : ErrorCode)
    (data : List UInt8) :
    Triple (At t (.handler n)) (handle t K cb rounds operation ec data) (fun _ => At t (.left n)) Good := by
  unfold handle
  split
  · exact Triple.ite (fun _ => connected_ends hcb trivial (.inl rfl)) fun _ => disconnect_ends hcb trivial
  · exact handleWaitRead_ends hcb rounds ec
  · exact handleWaitWrite_ends hcb ec
  · exact handleReceiveUdp_ends hcb rounds _ _ ec data
  · exact handleReceiveKcp_ends hcb ec data
  · exact Triple.pure fun _ h => h.after

end Handlers

section Application

/-- A clean `connect()` finds nothing outstanding; one from an `on_recv` is not clean. -/
theorem beginSession_begins (hm : m.running = none) :
    Triple (At t m) (beginSession : EStateM Fault (Sock Circle κ) Unit) (fun _ => At t m.begun) Good := by
  unfold beginSession
  refine Triple.get fun s hs => ?_
  refine Triple.bind (Q := fun _ u =>
    u = { s with socket := { s.socket with session := s.socket.session + 1 } })
    (Triple.modify fun _ h => h ▸ rfl) fun _ => ?_
  refine Triple.modify ?_
  rintro _ rfl
  obtain ⟨hr, hi, ho⟩ := hs
  have hbegun : m.begun.running = none ∧ m.begun.isInRecv = m.isInRecv := by
    cases m with
    | handler n | left n => cases hm
    | application | inRecv n | notified n => exact ⟨rfl, rfl⟩
  refine ⟨(hr.trans hm).trans hbegun.1.symm, hi.trans hbegun.2.symm, ?_⟩
  intro hc
  have hold : s.socket.Clean := fun e he => hc e (List.mem_append_left _ he)
  obtain ⟨hnone, hout⟩ : s.socket.pending.length = 0 ∧ s.socket.inRecv = false := by
    have hlast := hc _ (List.mem_append_right _ List.mem_cons_self)
    simpa [Action.isClean] using hlast
  refine ⟨⟨?_, ?_⟩, ?_⟩
  · intro p hp
    rw [List.length_eq_zero_iff.mp hnone] at hp
    cases hp
  · intro e he
    rcases List.mem_append.mp he with he | he
    · exact (ho hold).1.2 e he
    · rw [List.mem_singleton] at he
      subst he
      exact fun hstale => nomatch hstale.1
  · cases m with
    | handler n | left n => cases hm
    | inRecv n =>
      rw [hi] at hout
      cases hout
    | application | notified n => trivial

variable (hcb : Tame t cb)
include hcb

/-- The close at the beginning of `connect()` leaves no control block. -/
theorem close_begun (hm : m.running = none) : Triple (At t m.begun) (close t cb) (fun _ => At t m) Good := by
  cases m with
  | handler n | left n => cases hm
  | application | inRecv n => exact close_ends hcb trivial
  | notified n =>
    cases t with
    | tcp | udp =>
      refine (close_ends (m := .application) hcb trivial).after fun _ s h => ?_
      exact ⟨h.1, h.2.1, fun hc => ⟨(h.2.2 hc).1, fun hkcp => nomatch hkcp⟩⟩
    | kcp =>
      refine (close_kcp_ends (m := .application) hcb trivial).after fun _ s h => ?_
      exact ⟨h.1.1, h.1.2.1, fun hc => ⟨(h.1.2.2 hc).1, fun _ => .inr h.2⟩⟩

omit hcb in
private theorem attempt_keeps : Keeps (At (κ := κ) t m) attempt Good := by
  refine Triple.bind nextAnswer_keeps fun answer => Triple.ite (fun _ => Triple.pure fun _ h => h) fun _ => ?_
  exact Triple.throw fun _ h => h.good

omit hcb in
private theorem openDatagram_keeps : Keeps (At (κ := κ) t m) openDatagram Good := by
  refine Triple.look fun s _ => Triple.ite (fun _ => Triple.throw fun _ h => h.good) fun _ => ?_
  refine Triple.bind attempt_keeps fun _ => ?_
  exact socketDo_keeps fun _ => rfl

private theorem connect_keeps (hm : m.running = none) : Keeps (At t m) (connect t K cb) Good := by
  have hactive := Mode.active_of_running hm
  have hdisconnect := disconnect_ends hcb hactive
  have hconnected := connected_ends (K := K) hcb hactive (.inr hm)
  rw [Mode.after_of_running hm] at hdisconnect hconnected
  unfold connect
  refine Triple.bind (beginSession_begins hm) fun _ => ?_
  refine Triple.bind (close_begun hcb hm) fun _ => ?_
  split
  · refine Triple.bind (setState_keeps hactive) fun _ => ?_
    refine Triple.bind (socketDo_keeps fun _ => rfl) fun _ => ?_
    exact start_keeps
  · refine Triple.bind openDatagram_keeps fun _ => ?_
    refine Triple.bind nonBlocking_keeps fun _ => ?_
    refine Triple.bind attempt_keeps fun _ => ?_
    refine Triple.bind attempt_keeps fun _ => ?_
    refine Triple.bind (setState_keeps hactive) fun _ => ?_
    refine Triple.bind nextAnswer_keeps fun answer => Triple.ite (fun _ => hdisconnect) fun _ => ?_
    refine Triple.bind sendDatagram_keeps fun ec => ?_
    exact Triple.ite (fun _ => hconnected) fun _ => hdisconnect

omit hcb in
private theorem holding_keeps {α : Type} {w : Writer} {x : EStateM Fault (Sock Circle κ) α}
    (hx : Keeps (At t m) x Good) :
    Keeps (At t m) (holding w x) Good := by
  refine Triple.tryCatch hx fun e => ?_
  refine Triple.bind (send_frame (P := Good) (fun _ _ h => h) fun _ h => h) fun _ => ?_
  exact Triple.throw fun _ h => h

private theorem sendPacket_keeps (hm : m.running = none) (payload : List UInt8) :
    Keeps (At t m) (sendPacket t K cb payload) Good := by
  refine Triple.bind send_keeps fun w => ?_
  refine Triple.bind (holding_keeps send_keeps) fun w => ?_
  refine Triple.bind (holding_keeps (Triple.bind send_keeps fun _ => doWrite_keeps hcb hm)) fun _ => ?_
  exact send_keeps

private theorem perform_keeps (hm : m.running = none) (calls : List Call) :
    Keeps (At t m) (perform t K cb calls) Good := by
  induction calls with
  | nil => exact Triple.pure fun _ h => h
  | cons call calls ih =>
    have hdisconnect := disconnect_ends hcb (Mode.active_of_running hm)
    rw [Mode.after_of_running hm] at hdisconnect
    unfold perform
    cases call with
    | connect => exact Triple.bind (connect_keeps hcb hm) fun _ => ih
    | disconnect => exact Triple.bind hdisconnect fun _ => ih
    | send payload => exact Triple.bind (sendPacket_keeps hcb hm payload) fun _ => ih

end Application

section Callbacks
variable {fromRecv : Bool}

private theorem entered_running : (m.entered fromRecv).running = none := by
  cases m with
  | handler n => cases fromRecv <;> rfl
  | application | inRecv n | notified n | left n => rfl

/-- A callback enters application code. -/
theorem At.enter (h : At t m s) (hm : fromRecv → m.Active) (scripts : List (List Call)) :
    At t (m.entered fromRecv) { s with socket := { s.socket with
      scripts := scripts
      running := none
      inRecv := s.socket.inRecv || (fromRecv && s.socket.running.isSome) } } := by
  obtain ⟨hr, hi, ho⟩ := h
  refine ⟨entered_running.symm, ?_, ?_⟩
  · change (s.socket.inRecv || (fromRecv && s.socket.running.isSome)) = _
    rw [hr, hi]
    cases m with
    | left n =>
      cases fromRecv with
      | false => rfl
      | true => exact (hm rfl).elim
    | application | inRecv n | notified n | handler n => cases fromRecv <;> rfl
  · intro hc
    refine ⟨(ho hc).1, ?_⟩
    have hpin := (ho hc).2
    cases m with
    | handler n =>
      cases fromRecv with
      | false => exact fun _ => .inl hpin
      | true => exact hpin
    | application | inRecv n | notified n | left n => exact hpin

/-- Application code gives control back to what called it. -/
theorem At.leave {u : Sock Circle κ} (hs : At t m s) (hu : At t (m.entered fromRecv) u) :
    At t (m.returned fromRecv) { u with socket := { u.socket with
      running := s.socket.running
      inRecv := s.socket.inRecv } } := by
  obtain ⟨hr, hi, -⟩ := hs
  obtain ⟨-, -, ho⟩ := hu
  refine ⟨?_, ?_, ?_⟩
  · refine hr.trans ?_
    cases m <;> cases fromRecv <;> rfl
  · refine hi.trans ?_
    cases m <;> cases fromRecv <;> rfl
  · intro hc
    refine ⟨(ho hc).1, ?_⟩
    have hpin := (ho hc).2
    cases m <;> cases fromRecv <;> exact hpin

theorem At.returned (h : At t m s) : At t (m.returned fromRecv) s := by
  cases fromRecv with
  | false => exact h.after
  | true => exact h

private theorem applicationCode_returns {body : List Call → EStateM Fault (Sock Circle κ) Unit}
    (hbody : ∀ m' : Mode, m'.running = none → ∀ calls, Keeps (At t m') (body calls) Good)
    (hm : fromRecv → m.Active) :
    Triple (At t m) (applicationCode fromRecv body) (fun _ => At t (m.returned fromRecv)) Good := by
  unfold applicationCode
  refine Triple.get fun s hs => ?_
  split
  · exact Triple.pure fun _ h => h ▸ hs.returned
  · rename_i script scripts _
    refine Triple.bind (Q := fun _ => At t (m.entered fromRecv)) (Triple.modify ?_) fun _ => ?_
    · rintro _ rfl
      exact hs.enter hm scripts
    · refine Triple.bind (hbody _ entered_running script) fun _ => ?_
      exact Triple.modify fun u hu => hs.leave hu

private theorem tame_callbacks (fuel : Nat) : Tame t (callbacks t K fuel) := by
  induction fuel with
  | zero =>
    refine ⟨fun m => ?_, fun m => ?_, fun m _ i r => Triple.pure fun _ h => h⟩
    all_goals exact Triple.pure fun _ h => h.after
  | succ fuel ih =>
    have hbody (m' : Mode) (hm' : m'.running = none) (calls : List Call) :=
      perform_keeps (K := K) ih hm' calls
    refine ⟨fun m => ?_, fun m => ?_, fun m hm i r => ?_⟩
    · exact applicationCode_returns hbody fun h => nomatch h
    · exact applicationCode_returns hbody fun h => nomatch h
    · exact applicationCode_returns hbody fun _ => hm

end Callbacks

section Events

private theorem output_keeps (hcb : Tame .kcp cb) (datagrams : List (List UInt8)) :
    Keeps (At .kcp .application) (output cb datagrams) Good := by
  induction datagrams with
  | nil => exact Triple.pure fun _ h => h
  | cons bytes rest ih =>
    refine Triple.bind sendDatagram_keeps fun ec => Triple.ite (fun _ => ?_) fun _ => ih
    refine Triple.bind (close_ends (m := .application) hcb trivial) fun _ => ?_
    exact Triple.throw fun _ h => h.good

private theorem update_keeps (hcb : Tame .kcp cb) (rounds : Nat) (current : UInt32) :
    Keeps (At .kcp .application) (update K cb rounds current) Good := by
  have hblock (block : κ) :
      Keeps (At .kcp .application) (socketDo fun a : Asio κ => { a with kcp := some block }) Good :=
    Triple.modify fun _ h => h
  unfold update
  refine Triple.look fun s _ => ?_
  split
  · exact Triple.pure fun _ h => h
  · rename_i block _
    refine Triple.bind (output_keeps hcb _) fun _ => ?_
    refine Triple.bind (hblock _) fun _ => ?_
    refine Triple.bind recv_keeps fun size => ?_
    refine Triple.bind (hblock _) fun _ => Triple.ite (fun _ => ?_) fun _ => Triple.pure fun _ h => h
    refine Triple.bind recv_keeps fun _ => ?_
    refine Triple.bind recv_keeps fun _ => ?_
    exact onRead_keeps (m := .application) hcb trivial rounds

/-- A completion starts in the session of its operation, the current one. -/
theorem At.dispatch (h : At t .application s) {i : Nat} {p : Pending} (hp : s.socket.pending[i]? = some p) :
    At t (.handler p.session) { s with socket := { s.socket with
      pending := s.socket.pending.eraseIdx i
      running := some p.session } } := by
  obtain ⟨-, hi, ho⟩ := h
  refine ⟨rfl, hi, ?_⟩
  intro hc
  obtain ⟨⟨hpending, htrace⟩, -⟩ := ho hc
  refine ⟨⟨?_, htrace⟩, ?_⟩
  · intro q hq
    exact hpending q (List.mem_of_mem_eraseIdx hq)
  · exact (hpending p (List.mem_of_getElem? hp)).symm

private theorem event_good (hcb : Tame t cb) (rounds : Nat) (e : ConnectorEvent) :
    Triple (At t .application) (event t K rounds cb e) (fun _ => Good) Good := by
  cases e with
  | call call => exact (perform_keeps hcb rfl [call]).after fun _ _ h => h.good
  | complete i ec data =>
    refine Triple.get fun s hs => ?_
    split
    · exact Triple.pure fun _ h => h ▸ hs.good
    · rename_i p hp
      refine Triple.bind (Q := fun _ => At t (.handler p.session)) (Triple.modify ?_) fun _ => ?_
      · rintro _ rfl
        exact hs.dispatch hp
      · exact (handle_ends hcb rounds _ ec data).after fun _ _ h => h.good
  | tick current =>
    refine Triple.ite ?_ fun _ => Triple.pure fun _ h => h.good
    rintro rfl
    exact (update_keeps hcb rounds current).after fun _ _ h => h.good

theorem Good.settled (h : Good s) : At t .application (settled s) := ⟨rfl, rfl, fun hc => ⟨h hc, trivial⟩⟩

/-- One event keeps the invariant, whether it returns or throws. -/
theorem At.step {e : ConnectorEvent × Surroundings} {s' : Sock Circle κ} (h : At t .application s)
    (hstep : ConnectorStep t K s e s') : At t .application s' := by
  have hgood := event_good (K := K) (tame_callbacks (t := t) (K := K) e.2.scripts.length) e.2.rounds e.1
  have hstart : At t .application (surrounded e.2 s) := h
  rw [hstep.2, afterEvent]
  split
  · rename_i s' hr
    exact (hgood.returns hstart hr).settled
  · rename_i s' hr
    exact (hgood.faults hstart hr).settled

end Events
end Connection

open Connection

/-- In every run of a connector whose `connect()` calls are all clean, no
completion has an effect in a session later than its own. -/
theorem no_stale_completion {κ : Type} (t : Transport) (K : Ikcp κ)
    {events : List (ConnectorEvent × Surroundings)}
    {s : Sock Circle κ} (hrun : Run (ConnectorStep t K) connector events s) (hclean : s.socket.Clean) :
    ∀ e ∈ s.socket.trace, ¬ e.Stale := by
  have hstart : At t .application (connector : Sock Circle κ) := by
    refine ⟨rfl, rfl, fun _ => ⟨⟨?_, ?_⟩, trivial⟩⟩
    · intro p hp
      cases hp
    · intro e he
      cases he
  have hlast : At t .application s := hrun.invariant (I := At t .application) (fun h hs => h.step hs) hstart
  exact (hlast.2.2 hclean).1.2

/-- A KCP library that keeps no blocks; tcp never calls it. -/
def noKcp : Ikcp Unit where
  create _ := ()
  input _ _ := ()
  send _ _ := (0, ())
  update _ _ := ([], ())
  recv _ _ := (-1, [], ())

/-- A tcp session that ends by a failed read wait, and a new one begun in `on_disconnected`. -/
def reconnecting : List (ConnectorEvent × Surroundings) :=
  [(.call .connect, {}), (.complete 0 .success [], {}),
    (.complete 0 .failure [], { scripts := [[.connect]] })]

/-- A `connect()` on a connected tcp connector; the old read wait completes as aborted. -/
def replacing : List (ConnectorEvent × Surroundings) :=
  [(.call .connect, {}), (.complete 0 .success [], {}), (.call .connect, {}),
    (.complete 0 .operationAborted [], {})]

/-- The clean reconnect leaves every effect in its own session. -/
theorem no_stale_completion_reconnecting : ∃ s, Run (ConnectorStep .tcp noKcp) connector reconnecting s ∧
    s.socket.session = 2 ∧ s.state = .connecting ∧ ∀ e ∈ s.socket.trace, ¬ e.Stale := by
  have hrun : Run (ConnectorStep .tcp noKcp) connector reconnecting _ := run_of_allEnabled (by decide +kernel)
  refine ⟨_, hrun, by decide +kernel, by decide +kernel, ?_⟩
  exact no_stale_completion .tcp noKcp hrun (by decide +kernel)

/-- The aborted wait of the first session resets the buffers and closes the socket of the second. -/
theorem stale_wait_closes_replacement : ∃ s, Run (ConnectorStep .tcp noKcp) connector replacing s ∧
    ⟨2, some 1, .closeSocket⟩ ∈ s.socket.trace ∧ ¬ ∀ e ∈ s.socket.trace, ¬ e.Stale :=
  ⟨_, run_of_allEnabled (by decide +kernel), by decide +kernel, by decide +kernel⟩

end SimpleNetwork
