import SimpleNetwork.Asio.Interface
import SimpleNetwork.Asio.Sessions
import SimpleNetwork.Buffer.CircleSound
import SimpleNetwork.Reactor.Framing

/-! The receive loop of a connected kcp socket. Every path through the receive
handler starts the next receive or closes, except the one that returns on a
conversation number of zero. -/
namespace SimpleNetwork
open Outcome Words Runs Connection

namespace Asio
variable {κ : Type}

def closings (a : Asio κ) : Nat := a.trace.countP fun e => e.action = .closeSocket

def tellings (a : Asio κ) : Nat := a.trace.countP fun e => e.action = .onDisconnected

private theorem closings_le (a : Asio κ) (entry : Entry) :
    a.closings ≤ closings { a with trace := a.trace ++ [entry] } :=
  (List.sublist_append_left _ _).countP_le

private theorem tellings_le (a : Asio κ) (entry : Entry) :
    a.tellings ≤ tellings { a with trace := a.trace ++ [entry] } :=
  (List.sublist_append_left _ _).countP_le

private theorem closings_closed (a : Asio κ) (session : Nat) (cause : Option Nat) :
    closings { a with trace := a.trace ++ [⟨session, cause, .closeSocket⟩] } = a.closings + 1 := by
  simp [closings]

private theorem tellings_told (a : Asio κ) (session : Nat) (cause : Option Nat) :
    tellings { a with trace := a.trace ++ [⟨session, cause, .onDisconnected⟩] } = a.tellings + 1 := by
  simp [tellings]

/-- Exactly one operation is outstanding, a receive of a kcp socket. -/
def Listens (a : Asio κ) : Prop := ∃ session, a.pending = [⟨.receive 0 kcpBufferSize, session⟩]

end Asio

namespace Connection
variable {κ : Type} {K : Ikcp κ} {cb : Callbacks Circle κ} {n m : Nat}

/-- The socket has been closed, and the application told, since the counts were `n` and `m`. -/
def Told (n m : Nat) (s : Sock Circle κ) : Prop := n < s.socket.closings ∧ m < s.socket.tellings

def Live (n m : Nat) (s : Sock Circle κ) : Prop :=
  s.state = .connected ∧ n ≤ s.socket.closings ∧ m ≤ s.socket.tellings

structure Attached (n m : Nat) (s : Sock Circle κ) : Prop where
  state : s.state = .connected
  closings : s.socket.closings = n
  tellings : m ≤ s.socket.tellings
  sound : s.sendBuff.Sound

/-- What is known between handlers: a socket that was not closed listens. After a
`connect()` call has closed it, only that the application was told. -/
def Kept (n m : Nat) : Bool → Sock Circle κ → Prop
  | false, s => Told n m s ∨ Attached n m s ∧ s.socket.Listens
  | true, s => Told n m s

private theorem kept_of_told {i : Bool} {s : Sock Circle κ} (h : Told n m s) : Kept n m i s := by
  cases i with
  | true => exact h
  | false => exact .inl h

theorem Attached.live {s : Sock Circle κ} (h : Attached n m s) : Live n m s :=
  ⟨h.state, Nat.le_of_eq h.closings.symm, h.tellings⟩

theorem Kept.live {i : Bool} {s : Sock Circle κ} (h : Kept n m i s) : Told n m s ∨ Live n m s := by
  cases i with
  | true => exact .inl h
  | false => exact h.imp_right fun h => h.1.live

theorem Kept.exit {i : Bool} {s : Sock Circle κ} (h : Kept n m i s) : Kept n m false s := by
  cases i with
  | true => exact .inl h
  | false => exact h

private theorem told_note {E : Sock Circle κ → Prop} (action : Action) :
    Keeps (Told n m) (note action) E := by
  refine Triple.modify fun s h => ⟨?_, ?_⟩
  · exact Nat.lt_of_lt_of_le h.1 (s.socket.closings_le _)
  · exact Nat.lt_of_lt_of_le h.2 (s.socket.tellings_le _)

private theorem told_framed {ι : Type} : Framed .kcp (fun _ : ι => Told (κ := κ) n m) (Kept n m false) where
  exit h := .inl h
  noted _ := told_note _
  state _ h := h
  steered {i s a} ha h := by
    have htrace : a.steering.trace = s.socket.trace := by rw [ha]; rfl
    change a.trace = _ at htrace
    unfold Told Asio.closings Asio.tellings at h ⊢
    rw [htrace]
    exact h
  resets ht := nomatch ht
  releases _ _ := Triple.bind (Triple.modify fun _ h => h) fun _ => told_note _

section Close
variable (hcb : Obeys (Kept n m) (Kept n m false) cb)
include hcb

private theorem told_callbacks : Obeys (fun _ : Unit => Told n m) (Kept n m false) cb := fun _ => hcb true

omit hcb in
/-- Once closed, only the call of `on_disconnected` is missing. -/
theorem closed_note (action : Action) :
    Keeps (fun s : Sock Circle κ => n < s.socket.closings ∧ m ≤ s.socket.tellings) (note action)
      (Kept n m false) := by
  refine Triple.modify fun s h => ⟨?_, ?_⟩
  · exact Nat.lt_of_lt_of_le h.1 (s.socket.closings_le _)
  · exact Nat.le_trans h.2 (s.socket.tellings_le _)

omit hcb in
private theorem closeSocket_closes (state : ConnectionState) :
    Triple (fun s : Sock Circle κ => s.state = state ∧ n ≤ s.socket.closings ∧
      m ≤ s.socket.tellings) closeSocket
      (fun _ s => s.state = state ∧ n < s.socket.closings ∧ m ≤ s.socket.tellings) (Kept n m false) := by
  refine Triple.bind (Q := fun _ s => s.state = state ∧ n ≤ s.socket.closings ∧ m ≤ s.socket.tellings)
    (Triple.modify fun _ h => h) fun _ => Triple.modify fun s h => ⟨h.1, ?_, ?_⟩
  · exact Nat.lt_of_lt_of_le (Nat.lt_succ_of_le h.2.1) (Nat.le_of_eq (s.socket.closings_closed _ _).symm)
  · exact Nat.le_trans h.2.2 (s.socket.tellings_le _)

/-- The call that tells the application. -/
theorem tells : Triple (fun s : Sock Circle κ => n < s.socket.closings ∧ m ≤ s.socket.tellings)
    (do note .onDisconnected; cb.onDisconnected) (fun _ => Told n m) (Kept n m false) := by
  refine Triple.bind (Q := fun _ => Told n m) (Triple.modify fun s h => ⟨?_, ?_⟩) fun _ => (hcb true).2
  · exact Nat.lt_of_lt_of_le h.1 (s.socket.closings_le _)
  · exact Nat.lt_of_lt_of_le (Nat.lt_succ_of_le h.2) (Nat.le_of_eq (s.socket.tellings_told _ _).symm)

/-- Closing a connected socket tells the application. -/
theorem close_tells : Triple (Live n m) (close .kcp cb) (fun _ => Told n m) (Kept n m false) := by
  refine Triple.bind (closeSocket_closes _) fun _ => ?_
  refine Triple.bind (Q := fun _ => Told n m) ?_ fun _ => ?_
  · refine Triple.get fun s hs => ?_
    rw [if_pos hs.1]
    refine Triple.bind (Q := fun _ s => n < s.socket.closings ∧ m ≤ s.socket.tellings) ?_ fun _ => tells hcb
    exact Triple.bind (Triple.modify fun _ h => h ▸ hs.2) fun _ => closed_note _
  · refine Triple.look fun s _ => Triple.ite (fun _ => ?_) fun _ => Triple.pure fun _ h => h
    exact told_framed.releases rfl ()

private theorem close_told : Keeps (Told n m) (close .kcp cb) (Kept n m false) :=
  told_framed.close (i := ()) (told_callbacks hcb)

/-- `disconnect()` leaves the state before it closes, and tells the application last. -/
theorem disconnect_tells : Triple (Live n m)
    (disconnect .kcp cb) (fun _ => Told n m) (Kept n m false) := by
  refine Triple.get fun s hs => ?_
  rw [if_neg (by rw [hs.1]; decide)]
  refine Triple.bind (Q := fun _ s => s.state = .disconnected ∧ n ≤ s.socket.closings ∧
    m ≤ s.socket.tellings) ?_ fun _ => ?_
  · refine Triple.bind (Q := fun _ s => s.state = .disconnected ∧ n ≤ s.socket.closings ∧
      m ≤ s.socket.tellings)
      (Triple.modify fun _ h => h ▸ ⟨rfl, hs.2⟩) fun _ => Triple.modify fun s h => ⟨h.1, ?_, ?_⟩
    · exact Nat.le_trans h.2.1 (s.socket.closings_le _)
    · exact Nat.le_trans h.2.2 (s.socket.tellings_le _)
  refine Triple.bind (Q := fun _ s => n < s.socket.closings ∧ m ≤ s.socket.tellings) ?_ fun _ => tells hcb
  refine Triple.bind (closeSocket_closes _) fun _ => ?_
  refine Triple.bind (Q := fun _ s => n < s.socket.closings ∧ m ≤ s.socket.tellings) ?_ fun _ => ?_
  · refine Triple.get fun s hs => ?_
    rw [if_neg (by rw [hs.1]; decide)]
    exact Triple.pure fun _ h => h ▸ hs.2
  · refine Triple.look fun s _ => Triple.ite (fun _ => ?_) fun _ => Triple.pure fun _ h => h
    exact Triple.bind (Triple.modify fun _ h => h) fun _ => closed_note _

private theorem disconnect_told : Keeps (Told n m) (disconnect .kcp cb) (Kept n m false) :=
  told_framed.disconnect (i := ()) (told_callbacks hcb)

end Close

/-- Fields of the socket that these predicates do not look at. -/
theorem Kept.with_socket {i : Bool} {s : Sock Circle κ} {a : Asio κ} (h : Kept n m i s)
    (hpending : a.pending = s.socket.pending) (htrace : a.trace = s.socket.trace) :
    Kept n m i { s with socket := a } := by
  have hclosings : a.closings = s.socket.closings := by rw [Asio.closings, htrace]; rfl
  have htellings : a.tellings = s.socket.tellings := by rw [Asio.tellings, htrace]; rfl
  have htold (h : Told n m s) : Told n m { s with socket := a } := by
    unfold Told at h ⊢
    rw [hclosings, htellings]
    exact h
  cases i with
  | true => exact htold h
  | false =>
    refine h.imp htold fun h => ⟨⟨h.1.state, hclosings.trans h.1.closings, ?_, h.1.sound⟩, ?_⟩
    · exact Nat.le_trans h.1.tellings (Nat.le_of_eq htellings.symm)
    · obtain ⟨session, hlistens⟩ := h.2
      exact ⟨session, hpending.trans hlistens⟩

private theorem kept_send {α : Type} {x : EStateM Fault Circle α}
    (hx : Keeps Circle.Sound x Circle.Sound) {i : Bool} :
    Keeps (Kept (κ := κ) n m i) (send x) (Kept n m false) := by
  have hput {j : Bool} {s : Sock Circle κ} {c : Circle} (h : Kept n m j s) (hc : s.sendBuff.Sound → c.Sound) :
      Kept n m j { s with sendBuff := c } := by
    cases j with
    | true => exact h
    | false =>
      refine h.imp_right fun h => ⟨⟨h.1.state, h.1.closings, h.1.tellings, hc h.1.sound⟩, h.2⟩
  constructor
  · intro s a t hs hrun
    obtain ⟨c, hxs, rfl⟩ := send_eq_ok hrun
    exact hput hs fun hsound => hx.returns hsound hxs
  · intro s e t hs hrun
    obtain ⟨c, hxs, rfl⟩ := send_eq_error hrun
    exact hput hs.exit fun hsound => hx.faults hsound hxs

private theorem sound_read (count offset : UInt64) :
    Keeps Circle.Sound (Buffer.read count offset) Circle.Sound :=
  Circle.sound_readFuel _ _ _ _

private theorem sound_write (data : List UInt8) (offset : UInt64) :
    Keeps Circle.Sound (Buffer.write data offset) Circle.Sound :=
  Circle.sound_lasting.writeFuel _ _ _

private theorem sound_peekStart (count : UInt64) : Keeps Circle.Sound (Circle.peekStart count) Circle.Sound :=
  Circle.keeps_peekStart _

private theorem sound_new : Keeps Circle.Sound (Writer.new : EStateM Fault Circle Writer) Circle.Sound :=
  Triple.look fun _ _ => Triple.bind (sound_write _ _) fun _ => Triple.pure fun _ h => h

private theorem sound_put (w : Writer) (payload : List UInt8) :
    Keeps Circle.Sound (w.put payload) Circle.Sound :=
  Triple.look fun _ _ => Triple.bind (sound_write _ _) fun _ => Triple.look fun _ _ =>
    Triple.pure fun _ h => h

private theorem sound_flush (w : Writer) : Keeps Circle.Sound (w.flush none) Circle.Sound :=
  Triple.bind (sound_write _ _) fun _ => Triple.pure fun _ h => h

private theorem sound_destroy (w : Writer) : Keeps Circle.Sound w.destroy Circle.Sound := by
  refine Triple.look fun _ _ => Triple.ite (fun _ => ?_) fun _ => Triple.pure fun _ h => h
  refine Triple.bind (sound_read _ _) fun bytes => Triple.ite (fun _ => ?_) fun _ => Triple.pure fun _ h => h
  exact Circle.sound_lasting.removeFromBack _

private theorem kept_doWriteKcp (fuel : Nat) {i : Bool} :
    Keeps (Kept n m i) (doWriteKcp K fuel) (Kept n m false) := by
  induction fuel with
  | zero => exact Triple.throw fun _ h => h.exit
  | succ fuel ih =>
    unfold doWriteKcp
    refine Triple.look fun s _ => ?_
    split
    · exact Triple.pure fun _ h => h
    · refine Triple.ite (fun _ => ?_) fun _ => Triple.pure fun _ h => h
      refine Triple.bind (kept_send (sound_peekStart _)) fun bytes => ?_
      refine Triple.bind (Q := fun _ => Kept n m i)
        (Triple.modify fun _ h => h.with_socket rfl rfl) fun _ => ?_
      exact Triple.bind (kept_send (Circle.sound_remove _)) fun _ => ih

/-- Every call of the application keeps what is known between handlers. -/
theorem kept_interface : Interface .kcp K (Kept n m) (fun _ => true) (Kept n m false) where
  steered {i s a} ha h := by
    have hpending : a.steering.pending = s.socket.steering.pending := by rw [ha]
    have htrace : a.steering.trace = s.socket.steering.trace := by rw [ha]
    exact h.with_socket hpending htrace
  inRecv _ h := h.with_socket rfl rfl
  opened := kept_send sound_new
  put w payload := kept_send (sound_put w payload)
  flushed w := kept_send (sound_flush w)
  destroyed w := kept_send (sound_destroy w)
  undone w := kept_send (sound_destroy w)
  write {i cb} _ := Triple.look fun s _ => kept_doWriteKcp _
  disconnects {i cb} hcb := by
    have hall := (disconnect_told hcb).either (disconnect_tells hcb)
    exact (hall.before fun _ h => h.live).after fun _ _ h => kept_of_told h
  begins {i cb} hcb := by
    refine Triple.bind (Q := fun _ s => Told n m s ∨ Live n m s) ?_ fun _ =>
      (close_told hcb).either (close_tells hcb)
    refine Triple.get fun s hs => ?_
    refine Triple.bind (Q := fun _ s => Told n m s ∨ Live n m s)
      (Triple.modify fun _ h => h ▸ hs.live) fun _ => ?_
    refine Triple.modify fun s h => h.imp (fun h => ⟨?_, ?_⟩) fun h => ⟨h.1, ?_, ?_⟩
    · exact Nat.lt_of_lt_of_le h.1 (s.socket.closings_le _)
    · exact Nat.lt_of_lt_of_le h.2 (s.socket.tellings_le _)
    · exact Nat.le_trans h.2.1 (s.socket.closings_le _)
    · exact Nat.le_trans h.2.2 (s.socket.tellings_le _)
  framed := told_framed
  back h := kept_of_told h
  read := Triple.modify fun _ h => h
  dial ht := nomatch ht

private theorem kept_callbacks (fuel : Nat) :
    Obeys (Kept (κ := κ) n m) (Kept n m false) (callbacks .kcp K fuel) :=
  kept_interface.callbacks fuel

section Update

private theorem kept_onRecv (fuel i : Nat) (r : Reader) :
    Keeps (Kept (κ := κ) n m false) ((callbacks .kcp K fuel).onRecv i r) (Kept n m false) := by
  cases fuel with
  | zero => exact Triple.pure fun _ h => h
  | succ fuel =>
    change Keeps (Kept n m false) (applicationCode true _) _
    unfold applicationCode
    refine Triple.look fun s _ => ?_
    split
    · exact Triple.pure fun _ h => h
    · refine Triple.bind (Q := fun _ => Kept n m false)
        (Triple.modify fun _ h => h.with_socket rfl rfl) fun _ => ?_
      refine Triple.bind (kept_interface.perform (kept_callbacks fuel) _) fun _ => ?_
      exact Triple.modify fun _ h => h.with_socket rfl rfl

private theorem kept_recv {α : Type} {x : EStateM Fault Circle α} :
    Keeps (Kept (κ := κ) n m false) (recv x) (Kept n m false) := by
  refine Triple.zoom (fun c s h => ?_) fun _ h => h
  exact h.imp_right fun h => ⟨⟨h.1.state, h.1.closings, h.1.tellings, h.1.sound⟩, h.2⟩

variable (hrecv : ∀ i r, Keeps (Kept n m false) (cb.onRecv i r) (Kept n m false))

include hrecv in
private theorem kept_onRead (rounds : Nat) :
    Keeps (Kept n m false) (onRead cb.onRecv rounds) (Kept n m false) := by
  have hround : Keeps (Kept n m false) (onReadRound cb.onRecv) (Kept n m false) := by
    unfold onReadRound
    refine Triple.look fun s _ => Triple.ite (fun _ => Triple.pure fun _ h => h) fun _ => ?_
    refine Triple.bind kept_recv fun bytes => ?_
    refine Triple.look fun s _ => Triple.ite (fun _ => Triple.pure fun _ h => h) fun _ => ?_
    refine Triple.bind kept_recv fun reader => ?_
    refine Triple.look fun s _ => ?_
    refine Triple.bind (hrecv _ _) fun _ => ?_
    refine Triple.bind kept_recv fun _ => ?_
    refine Triple.bind (Q := fun _ => Kept n m false) (Triple.modify fun _ h => ?_) fun _ => ?_
    · exact h.imp_right fun h => ⟨⟨h.1.state, h.1.closings, h.1.tellings, h.1.sound⟩, h.2⟩
    · exact Triple.look fun s _ => Triple.pure fun _ h => h
  induction rounds with
  | zero => exact Triple.throw fun _ h => h
  | succ rounds ih =>
    exact Triple.bind hround fun more => Triple.ite (fun _ => ih) fun _ => Triple.pure fun _ h => h

variable (hcb : Obeys (Kept n m) (Kept n m false) cb)
include hcb

/-- A failed send in the output callback closes the socket. -/
theorem kept_output (datagrams : List (List UInt8)) :
    Keeps (Kept n m false) (output cb datagrams) (Kept n m false) := by
  have hsend (bytes : List UInt8) : Keeps (Kept (κ := κ) n m false) (sendDatagram bytes)
    (Kept n m false) := by
    refine Triple.bind (Q := fun _ => Kept n m false) ?_ fun answer => ?_
    · refine Triple.look fun s _ => ?_
      split
      · exact Triple.pure fun _ h => h
      · refine Triple.bind (Q := fun _ => Kept n m false)
          (Triple.modify fun _ h => h.with_socket rfl rfl) fun _ => ?_
        exact Triple.pure fun _ h => h
    · refine Triple.ite (fun _ => ?_) fun _ => Triple.pure fun _ h => h
      refine Triple.bind (Q := fun _ => Kept n m false) (Triple.modify fun s h => ?_) fun _ =>
        Triple.pure fun _ h => h
      refine h.imp (fun h => ⟨?_, ?_⟩) fun h => ⟨⟨h.1.state, ?_, ?_, h.1.sound⟩, h.2⟩
      · exact Nat.lt_of_lt_of_le h.1 (s.socket.closings_le _)
      · exact Nat.lt_of_lt_of_le h.2 (s.socket.tellings_le _)
      · rw [← h.1.closings]
        simp [Asio.closings]
      · exact Nat.le_trans h.1.tellings (s.socket.tellings_le _)
  induction datagrams with
  | nil => exact Triple.pure fun _ h => h
  | cons bytes datagrams ih =>
    refine Triple.bind (hsend bytes) fun ec => Triple.ite (fun _ => ?_) fun _ => ih
    have hclose := ((close_told hcb).either (close_tells hcb)).before fun _ (h : Kept n m false _) => h.live
    exact Triple.bind hclose fun _ => Triple.throw fun _ h => .inl h

include hrecv in
private theorem kept_update (rounds : Nat) (current : UInt32) :
    Keeps (Kept n m false) (update K cb rounds current) (Kept n m false) := by
  unfold update
  refine Triple.look fun s _ => ?_
  split
  · exact Triple.pure fun _ h => h
  · refine Triple.bind (kept_output hcb _) fun _ => ?_
    refine Triple.bind (Q := fun _ => Kept n m false)
      (Triple.modify fun _ h => h.with_socket rfl rfl) fun _ => ?_
    refine Triple.bind kept_recv fun size => ?_
    refine Triple.bind (Q := fun _ => Kept n m false)
      (Triple.modify fun _ h => h.with_socket rfl rfl) fun _ => ?_
    refine Triple.ite (fun _ => ?_) fun _ => Triple.pure fun _ h => h
    refine Triple.bind kept_recv fun _ => ?_
    exact Triple.bind kept_recv fun _ => kept_onRead hrecv rounds

end Update

/-- The first word of `buffer_` after a datagram; a short one leaves old bytes behind it. -/
def firstWord (front data : List UInt8) : UInt32 :=
  ofLe32 ((data.take kcpBufferSize.toNat ++ front.drop (data.take kcpBufferSize.toNat).length).take 4)

/-- On a sound ring `do_write` returns, and touches only the ring and the control block. -/
theorem doWriteKcp_returns (fuel : Nat) {s : Sock Circle κ} (hs : s.sendBuff.Sound)
    (hfuel : s.sendBuff.getCount.toNat < fuel) :
    ∃ c k, doWriteKcp K fuel s = .ok ()
      { s with sendBuff := c, socket := { s.socket with kcp := k } } ∧ c.Sound := by
  induction fuel generalizing s with
  | zero => exact absurd hfuel (Nat.not_lt_zero _)
  | succ fuel ih =>
    rw [doWriteKcp, get_bind]
    cases hk : s.socket.kcp with
    | none => exact ⟨s.sendBuff, s.socket.kcp, rfl, hs⟩
    | some block =>
      change ∃ c k, (if s.sendBuff.getCount > 0 then _ else _ : EStateM Fault (Sock Circle κ) Unit) s = _ ∧ _
      split
      · rename_i hpos
        have hcount : 0 < s.sendBuff.getCount.toNat := UInt64.lt_iff_toNat_lt.mp hpos
        obtain ⟨bytes, hpeek⟩ := hs.peekStart_run
        obtain ⟨c, hremove, hc, hless⟩ := hs.remove_run hcount
        have hsent : send (Circle.remove s.sendBuff.getContinguiousCount) ({ s with
            socket := { s.socket with kcp := some (K.send block bytes).2 } } : Sock Circle κ) =
              .ok () { s with
              sendBuff := c
              socket := { s.socket with kcp := some (K.send block bytes).2 } } := send_ok hremove
        obtain ⟨d, k, hrun, hd⟩ := ih (s := { s with
          sendBuff := c
          socket := { s.socket with kcp := some (K.send block bytes).2 } }) hc
            (Nat.lt_of_lt_of_le hless (Nat.le_of_lt_succ hfuel))
        rw [bind_ok (send_ok hpeek), socketDo, modify_bind, bind_ok hsent]
        exact ⟨d, k, hrun, hd⟩
      · exact ⟨s.sendBuff, s.socket.kcp, rfl, hs⟩

private theorem doWrite_returns (K : Ikcp κ) (cb : Callbacks Circle κ) {s : Sock Circle κ}
    (hs : s.sendBuff.Sound) :
    ∃ c k, doWrite .kcp K cb s = .ok ()
      { s with sendBuff := c, socket := { s.socket with kcp := k } } ∧ c.Sound := by
  have hwrite : doWrite .kcp K cb = (do
      let s ← get
      doWriteKcp K (s.sendBuff.getCount.toNat + 1)) := rfl
  rw [hwrite, get_bind]
  exact doWriteKcp_returns _ hs (Nat.lt_succ_self _)

/-- A datagram with a conversation number is taken in, and the next receive started. -/
theorem handleReceiveKcp_listens (K : Ikcp κ) (cb : Callbacks Circle κ) {s : Sock Circle κ}
    (hs : Attached n m s) (hp : s.socket.pending = []) {data : List UInt8}
    (hword : firstWord s.socket.front data ≠ 0) :
    ∃ s', handleReceiveKcp K cb .success data s = .ok () s' ∧ Attached n m s' ∧ s'.socket.Listens := by
  obtain ⟨bytes, hbytes⟩ : ∃ bytes, bytes = data.take kcpBufferSize.toNat := ⟨_, rfl⟩
  obtain ⟨u, hu⟩ : ∃ u : Sock Circle κ, u = { s with socket := { s.socket with
      front := (bytes ++ s.socket.front.drop bytes.length).take 4
      trace := s.socket.trace ++ [⟨s.socket.session, s.socket.running, .received bytes⟩] } } := ⟨_, rfl⟩
  have hattached : Attached n m u := by
    rw [hu]
    refine ⟨hs.state, ?_, Nat.le_trans hs.tellings (s.socket.tellings_le _), hs.sound⟩
    rw [← hs.closings]
    simp [Asio.closings]
  have hpending : u.socket.pending = [] := by rw [hu, hp]
  have hconv : ofLe32 u.socket.front ≠ 0 := by
    rw [hu, hbytes]
    exact hword
  have hlast (c : Circle) (hc : c.Sound) (k : Option κ) : ∃ s', (do
      socketDo fun a => { a with kcp := a.kcp.map fun block => K.input block bytes }
      doRead .kcp : EStateM Fault (Sock Circle κ) Unit)
        { u with sendBuff := c, socket := { u.socket with kcp := k } } = .ok () s' ∧
        Attached n m s' ∧ s'.socket.Listens := by
    refine ⟨_, rfl, ⟨hattached.state, hattached.closings, hattached.tellings, hc⟩, u.socket.session, ?_⟩
    change u.socket.pending ++ [_] = _
    rw [hpending]
    rfl
  have hfront : socketDo (fun a => { a with front := (bytes ++ a.front.drop bytes.length).take 4 })
    s = .ok () { s with
      socket := { s.socket with front := (bytes ++ s.socket.front.drop bytes.length).take 4 } } := rfl
  have hnoted : note (.received bytes) ({ s with
      socket := { s.socket with front := (bytes ++ s.socket.front.drop bytes.length).take 4 } } :
        Sock Circle κ) = .ok () u := by
    rw [hu]
    rfl
  rw [handleReceiveKcp, if_neg (not_not.mpr rfl), ← hbytes, bind_ok hfront, bind_ok hnoted, get_bind]
  change ∃ s', (if ofLe32 u.socket.front = 0 then _ else _ : EStateM Fault (Sock Circle κ) Unit) u = _ ∧ _
  rw [if_neg hconv]
  by_cases hnone : u.socket.kcp.isNone
  · obtain ⟨c, k, hwrite, hc⟩ := doWrite_returns K cb
      (s := { u with socket := { u.socket with kcp := some (K.create (ofLe32 u.socket.front)) } })
        hattached.sound
    obtain ⟨s', hrun, hs'⟩ := hlast c hc k
    refine ⟨s', ?_, hs'⟩
    rw [if_pos hnone, socketDo, modify_bind, bind_ok hwrite]
    exact hrun
  · rw [if_neg hnone]
    exact hlast u.sendBuff hattached.sound u.socket.kcp

private theorem told_handleReceiveKcp (hcb : Obeys (Kept n m) (Kept n m false) cb) (ec : ErrorCode)
    (data : List UInt8) :
    Keeps (Told n m) (handleReceiveKcp K cb ec data) (Kept n m false) := by
  have hdo {f : Asio κ → Asio κ} (hf : ∀ a, (f a).trace = a.trace) :
      Keeps (Told n m) (socketDo f : EStateM Fault (Sock Circle κ) Unit) (Kept n m false) := by
    refine Triple.modify fun s h => ?_
    unfold Told Asio.closings Asio.tellings at h ⊢
    rw [hf]
    exact h
  have hlast (bytes : List UInt8) : Keeps (Told n m) (do
      socketDo fun a => { a with kcp := a.kcp.map fun block => K.input block bytes }
      doRead .kcp : EStateM Fault (Sock Circle κ) Unit) (Kept n m false) :=
    Triple.bind (hdo fun _ => rfl) fun _ => Triple.modify fun _ h => h
  unfold handleReceiveKcp
  refine Triple.ite (fun _ => close_told hcb) fun _ => ?_
  refine Triple.bind (hdo fun _ => rfl) fun _ => ?_
  refine Triple.bind (told_note _) fun _ => ?_
  refine Triple.look fun s _ => Triple.ite (fun _ => Triple.pure fun _ h => h) fun _ => ?_
  refine Triple.ite (fun _ => ?_) fun _ => hlast _
  refine Triple.bind (hdo fun _ => rfl) fun _ => ?_
  exact Triple.bind (Triple.look fun _ _ => kept_doWriteKcp (i := true) _) fun _ => hlast _

/-- The state that a call leaves, whether it returns or throws. -/
def Ends (P : Sock Circle κ → Prop) : EStateM.Result Fault (Sock Circle κ) Unit → Prop
  | .ok _ s => P s
  | .error _ s => P s

private theorem ends_of_triple {P E : Sock Circle κ → Prop} {x : EStateM Fault (Sock Circle κ) Unit}
    (hx : Triple P x (fun _ => E) E)
    {s : Sock Circle κ} (hs : P s) : Ends E (x s) := by
  cases hr : x s with
  | ok a t => exact hx.returns hs hr
  | error e t => exact hx.faults hs hr

/-- The handler of a completed receive, entered with nothing outstanding any more. -/
theorem handleReceiveKcp_rearms (hcb : Obeys (Kept n m) (Kept n m false) cb) {ec : ErrorCode}
    {data : List UInt8}
    {s : Sock Circle κ} (hs : Attached n m s) (hp : s.socket.pending = [])
    (hword : ec = .success → firstWord s.socket.front data ≠ 0) :
    Ends (Kept n m false) (handleReceiveKcp K cb ec data s) := by
  by_cases hec : ec = .success
  · subst hec
    obtain ⟨s', hrun, hs'⟩ := handleReceiveKcp_listens K cb hs hp (hword rfl)
    rw [hrun]
    exact .inr hs'
  · rw [handleReceiveKcp, if_pos hec]
    exact ends_of_triple ((close_tells hcb).after fun _ _ h => kept_of_told h) hs.live

/-- One event. A datagram must leave a conversation number at the front of `buffer_`. -/
theorem kept_event (fuel rounds : Nat) (e : ConnectorEvent) {s : Sock Circle κ} (hs : Kept n m false s)
    (hword : ∀ i data, e = .complete i .success data → firstWord s.socket.front data ≠ 0) :
    Ends (Kept n m false) (event .kcp K rounds (callbacks .kcp K fuel) e s) := by
  cases e with
  | call call => exact ends_of_triple (kept_interface.perform (kept_callbacks fuel) [call]) hs
  | tick current =>
    exact ends_of_triple (kept_update (kept_onRecv fuel) (kept_callbacks fuel) rounds current) hs
  | complete i ec data =>
    rw [event, get_bind]
    cases hp : s.socket.pending[i]? with
    | none => exact hs
    | some p =>
      obtain ⟨u, hu⟩ : ∃ u : Sock Circle κ, u = { s with socket := { s.socket with
          pending := s.socket.pending.eraseIdx i
          running := some p.session } } := ⟨_, rfl⟩
      have hstep : (do
          socketDo fun a => { a with pending := a.pending.eraseIdx i, running := some p.session }
          handle .kcp K (callbacks .kcp K fuel) rounds p.operation ec data :
            EStateM Fault (Sock Circle κ) Unit) s =
          handle .kcp K (callbacks .kcp K fuel) rounds p.operation ec data u := by
        rw [hu]
        rfl
      change Ends _ ((do
        socketDo fun a => { a with pending := a.pending.eraseIdx i, running := some p.session }
        handle .kcp K (callbacks .kcp K fuel) rounds p.operation ec data :
          EStateM Fault (Sock Circle κ) Unit) s)
      rw [hstep]
      have hcb : Obeys (Kept n m) (Kept n m false) (callbacks .kcp K fuel) := kept_callbacks fuel
      rcases hs with htold | ⟨hattached, session, hlistens⟩
      · have htold' : Told n m u := by
          rw [hu]
          exact htold
        cases p.operation with
        | connect | waitRead | waitWrite => exact .inl htold'
        | receive place space =>
          exact ends_of_triple ((told_handleReceiveKcp hcb ec data).after fun _ _ h => kept_of_told h) htold'
      · rw [hlistens] at hp
        have hi : i = 0 := by
          by_contra hne
          rw [List.getElem?_eq_none (by simp; omega)] at hp
          cases hp
        subst hi
        cases hp
        have hattached' : Attached n m u := by
          rw [hu]
          exact ⟨hattached.state, hattached.closings, hattached.tellings, hattached.sound⟩
        have hpending : u.socket.pending = [] := by
          rw [hu]
          change s.socket.pending.eraseIdx 0 = []
          rw [hlistens]
          rfl
        refine handleReceiveKcp_rearms hcb hattached' hpending fun hec => ?_
        rw [hu]
        exact hword 0 data (by rw [hec])

/-- A connected kcp socket right after an `open()` that found nothing outstanding. -/
def Opened (K : Ikcp κ) (start : Sock Circle κ) : Prop :=
  ∃ (cb : Callbacks Circle κ) (u v : Sock Circle κ), u.state = .connected ∧ u.socket.pending = [] ∧
    u.sendBuff.Sound ∧
    openSocket .kcp K cb u = .ok () v ∧ start = settled v

private theorem opened_kept {start : Sock Circle κ} (h : Opened K start) :
    Kept start.socket.closings start.socket.tellings false start := by
  obtain ⟨cb, u, v, hstate, hpending, hsound, hopen, rfl⟩ := h
  obtain ⟨_, w, hnoted, hopen⟩ := bind_eq_ok.mp hopen
  obtain ⟨_, x, hblocking, hopen⟩ := bind_eq_ok.mp hopen
  obtain ⟨_, y, hread, hwrite⟩ := bind_eq_ok.mp hopen
  cases hnoted
  rw [nonBlocking, get_bind] at hblocking
  split at hblocking
  · cases hblocking
    cases hread
    obtain ⟨c, k, hreturns, hc⟩ := doWrite_returns K cb (s := { u with socket := { u.socket with
      trace := u.socket.trace ++ [⟨u.socket.session, u.socket.running, .openSocket⟩]
      pending := u.socket.pending ++ [⟨.receive 0 kcpBufferSize, u.socket.session⟩] } }) hsound
    have hlast := (EStateM.Result.ok.inj (hwrite.symm.trans hreturns)).2
    rw [hlast]
    refine .inr ⟨⟨hstate, rfl, Nat.le_refl _, hc⟩, u.socket.session, ?_⟩
    change u.socket.pending ++ [_] = _
    rw [hpending]
    rfl
  · cases hblocking

end Connection

/-- An event in which a received datagram, if there is one, leaves a conversation
number other than zero at the front of `buffer_`. -/
def NumberedStep {κ : Type} (K : Ikcp κ) (s : Sock Circle κ) (e : ConnectorEvent × Surroundings)
    (s' : Sock Circle κ) : Prop :=
  ConnectorStep .kcp K s e s' ∧ ∀ i data, e.1 = .complete i .success data → firstWord s.socket.front data ≠ 0

theorem Kept.step {κ : Type} {K : Ikcp κ} {n m : Nat} {s s' : Sock Circle κ}
    {e : ConnectorEvent × Surroundings}
    (h : Kept n m false s) (hstep : NumberedStep K s e s') : Kept n m false s' := by
  obtain ⟨⟨-, hafter⟩, hword⟩ := hstep
  have hstart : Kept n m false (surrounded e.2 s) := h.with_socket rfl rfl
  have hends := kept_event (K := K) e.2.scripts.length e.2.rounds e.1 hstart hword
  rw [hafter, afterEvent]
  revert hends
  cases event .kcp K e.2.rounds (callbacks .kcp K e.2.scripts.length) e.1 (surrounded e.2 s) with
  | ok _ u => exact fun hends => Kept.with_socket hends rfl rfl
  | error _ u => exact fun hends => Kept.with_socket hends rfl rfl

/-- In every run of a connected kcp socket after its `open()` whose datagrams all
leave a conversation number, exactly one receive is outstanding between handlers
as long as the socket has not been closed; and when there is none,
`on_disconnected` has been delivered. -/
theorem kcp_keeps_listening {κ : Type} {K : Ikcp κ} {start s : Sock Circle κ}
    {es : List (ConnectorEvent × Surroundings)}
    (hopened : Opened K start) (hrun : Run (NumberedStep K) start es s) :
    (s.socket.closings = start.socket.closings → s.socket.Listens) ∧
      (¬ s.socket.Listens → start.socket.tellings < s.socket.tellings) := by
  have hkept := hrun.invariant (I := Kept start.socket.closings start.socket.tellings false) Kept.step
    (opened_kept hopened)
  rcases hkept with htold | ⟨_, hlistens⟩
  · exact ⟨fun heq => absurd htold.1 (Nat.not_lt_of_le (Nat.le_of_eq heq)), fun _ => htold.2⟩
  · exact ⟨fun _ => hlistens, fun hnot => absurd hlistens hnot⟩

def freshlyOpened : Sock Circle Unit :=
  { (connector : Sock Circle Unit) with
    state := .connected
    socket :=
      { isOpen := true, pending := [⟨.receive 0 kcpBufferSize, 0⟩], trace := [⟨0, none, .openSocket⟩] } }

private theorem freshlyOpened_opened : Opened noKcp freshlyOpened := by
  refine ⟨callbacks .kcp noKcp 0,
    { (connector : Sock Circle Unit) with state := .connected, socket := { isOpen := true } },
    freshlyOpened, rfl, rfl, freshBuffer_valid.1.sound, ?_, rfl⟩
  decide +kernel

def datagram (bytes : List UInt8) : ConnectorEvent × Surroundings := (.complete 0 .success bytes, {})

/-- A datagram of conversation 1, one byte whose word the datagram before it completes,
and an empty one. -/
theorem kcp_keeps_listening_numbered :
    ∃ s, Run (NumberedStep noKcp) freshlyOpened [datagram [1, 2, 0, 0, 9], datagram [0], datagram []] s ∧
      s.socket.closings = freshlyOpened.socket.closings ∧ s.socket.Listens := by
  let s₁ := afterEvent .kcp noKcp freshlyOpened (datagram [1, 2, 0, 0, 9])
  let s₂ := afterEvent .kcp noKcp s₁ (datagram [0])
  have hrun : Run (NumberedStep noKcp) freshlyOpened [datagram [1, 2, 0, 0, 9], datagram [0], datagram []]
      (afterEvent .kcp noKcp s₂ (datagram [])) := by
    refine .cons ⟨⟨rfl, rfl⟩, ?_⟩ (.cons ⟨⟨?_, rfl⟩, ?_⟩ (.cons ⟨⟨?_, rfl⟩, ?_⟩ (.nil _)))
    -- the word is read from the bytes that all datagrams so far have left in the buffer
    case refine_1 | refine_3 | refine_5 =>
      intro i data h
      cases h
      decide +kernel
    all_goals decide +kernel
  have hclosings : (afterEvent .kcp noKcp s₂ (datagram [])).socket.closings =
      freshlyOpened.socket.closings := by
    decide +kernel
  exact ⟨_, hrun, hclosings, (kcp_keeps_listening freshlyOpened_opened hrun).1 hclosings⟩

/-- Four zero bytes end the receive loop of a connected socket, and nobody is told. -/
theorem kcp_stops_listening : Opened noKcp freshlyOpened ∧ ∃ s,
    Run (ConnectorStep .kcp noKcp) freshlyOpened [datagram [0, 0, 0, 0]] s ∧
    s.state = .connected ∧ s.socket.closings = freshlyOpened.socket.closings ∧
    s.socket.tellings = freshlyOpened.socket.tellings ∧ s.socket.pending = [] := by
  refine ⟨freshlyOpened_opened, _, .cons ⟨rfl, rfl⟩ (.nil _), ?_⟩
  decide +kernel

end SimpleNetwork
