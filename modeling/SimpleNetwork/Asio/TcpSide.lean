import SimpleNetwork.Asio.Answers
import SimpleNetwork.Asio.SendPacket

/-! One side of a tcp connection between its opening and its close. Each event keeps
the send ring, the receive ring and the packets that went into them in step. -/
namespace SimpleNetwork
open Words Outcome

def readWaits {β κ : Type} (s : Sock β κ) : Nat := s.socket.pending.countP (·.operation = .waitRead)

/-- What holds of a socket while its session lasts, also in the middle of a
handler, when the given packets have been sent. -/
structure Serving {κ : Type} (packets : List (List UInt8)) (s : Sock Circle κ) : Prop where
  pumping : Pumping Circle.Valid Circle.contents (encodePackets packets) s
  ring : s.recvBuff.Valid ∧ Laddered s.recvBuff.data
  sends : Laddered s.sendBuff.data
  accounts : Accounts Circle.contents (receivedBytes s) s.deliveries s.recvBuff.contents
  small : ∀ p ∈ packets, p.length + 4 ≤ ringLimit

section Frame
variable {κ : Type} {packets : List (List UInt8)} {s s' : Sock Circle κ}

/-- The invariant does not look at the rest of the state. -/
theorem Serving.congr (h : Serving packets s) (hrecv : s'.recvBuff = s.recvBuff)
    (hsend : s'.sendBuff = s.sendBuff)
    (hdeliveries : s'.deliveries = s.deliveries) (hflags : s'.socket.flags = s.socket.flags)
    (htrace : s'.socket.trace = s.socket.trace) (hwaits : writeWaits s' = writeWaits s) :
    Serving packets s' where
  pumping := by
    have hbit : isSending s' ↔ isSending s := by rw [isSending, isSending, hflags]
    refine ⟨hsend ▸ h.pumping.valid, ?_, fun hne => hbit.mpr (h.pumping.stalled (hsend ▸ hne)), ?_⟩
    · rw [hwaits, h.pumping.waits]
      simp only [hbit]
    · rw [sentBytes, htrace, hsend]
      exact h.pumping.lossless
  ring := hrecv ▸ h.ring
  sends := hsend ▸ h.sends
  accounts := by
    rw [receivedBytes, htrace, hrecv, hdeliveries]
    exact h.accounts
  small := h.small

/-- The packet at the front is delivered and removed. -/
theorem Serving.deliver (h : Serving packets s) (hready : Ready s.recvBuff.contents) {b : Circle}
    (hb : b.Valid ∧ Laddered b.data)
    (hc : b.contents = s.recvBuff.contents.drop (packetSize s.recvBuff.contents)) :
    Serving packets { s with
      recvBuff := b
      deliveries := s.deliveries ++ [⟨⟨0, 4, declared s.recvBuff.contents⟩, s.recvBuff, b⟩] } where
  pumping := ⟨h.pumping.valid, h.pumping.waits, h.pumping.stalled, h.pumping.lossless⟩
  ring := hb
  sends := h.sends
  accounts := by
    change Accounts _ _ _ b.contents
    rw [hc]
    exact h.accounts.deliver rfl hready rfl
  small := h.small

/-- The space query changes the ring, but not what is in it. -/
theorem Serving.regrown (h : Serving packets s) {b : Circle} (hb : b.Valid ∧ Laddered b.data)
    (hc : b.contents = s.recvBuff.contents) : Serving packets { s with recvBuff := b } where
  pumping := ⟨h.pumping.valid, h.pumping.waits, h.pumping.stalled, h.pumping.lossless⟩
  ring := hb
  sends := h.sends
  accounts := by
    change Accounts _ _ _ b.contents
    rw [hc]
    exact h.accounts
  small := h.small

/-- Received bytes are stored behind the others and recorded. -/
theorem Serving.arrive (h : Serving packets s) (bytes : List UInt8) {b : Circle}
    (hb : b.Valid ∧ Laddered b.data)
    (hc : b.contents = s.recvBuff.contents ++ bytes) (cause : Option Nat) :
    Serving packets { s with
      recvBuff := b
      socket :=
        { s.socket with trace := s.socket.trace ++ [⟨s.socket.session, cause, .received bytes⟩] } } where
  pumping := by
    refine ⟨h.pumping.valid, h.pumping.waits, h.pumping.stalled, ?_⟩
    change (s.socket.trace ++ [_]).flatMap _ ++ _ = _
    rw [List.flatMap_append, List.flatMap_singleton]
    change sentBytes s ++ [] ++ _ = _
    rw [List.append_nil]
    exact h.pumping.lossless
  ring := hb
  sends := h.sends
  accounts := by
    change Accounts _ (List.flatMap _ (s.socket.trace ++ _)) _ b.contents
    rw [List.flatMap_append, List.flatMap_singleton, hc]
    exact h.accounts.arrive bytes
  small := h.small

end Frame

namespace Connection
variable {κ : Type} {K : Ikcp κ} {cb : Callbacks Circle κ} {packets : List (List UInt8)}
  {s s' : Sock Circle κ}

/-- `do_write()` starts a write wait or does nothing. -/
theorem doWriteTcp_cases (hrun : doWriteTcp s = .ok () s') : s' = s ∨ s' = { s with socket := { s.socket with
    flags := s.socket.flags ||| sending
    pending := s.socket.pending ++ [⟨.waitWrite, s.socket.session⟩] } } := by
  rw [doWriteTcp, Outcome.get_bind] at hrun
  split at hrun
  · split at hrun
    · cases hrun
      exact .inr rfl
    · cases hrun
      exact .inl rfl
  · cases hrun
    exact .inl rfl

/-- What a socket function leaves alone that only sends. -/
structure Unread (s s' : Sock Circle κ) : Prop where
  recvBuff : s'.recvBuff = s.recvBuff
  deliveries : s'.deliveries = s.deliveries
  state : s'.state = s.state
  waits : readWaits s' = readWaits s
  received : receivedBytes s' = receivedBytes s

theorem Unread.refl (s : Sock Circle κ) : Unread s s := ⟨rfl, rfl, rfl, rfl, rfl⟩

theorem Unread.trans {s'' : Sock Circle κ} (h : Unread s s') (h' : Unread s' s'') : Unread s s'' :=
  ⟨h'.recvBuff.trans h.recvBuff, h'.deliveries.trans h.deliveries, h'.state.trans h.state,
    h'.waits.trans h.waits,
    h'.received.trans h.received⟩

theorem doWriteTcp_unread (hrun : doWriteTcp s = .ok () s') : Unread s s' ∧ s'.sendBuff = s.sendBuff := by
  rcases doWriteTcp_cases hrun with rfl | rfl
  · exact ⟨.refl s', rfl⟩
  · refine ⟨⟨rfl, rfl, rfl, ?_, rfl⟩, rfl⟩
    change (s.socket.pending ++ [_]).countP _ = s.socket.pending.countP _
    rw [List.countP_append]
    rfl

abbrev Fitting (cb : Callbacks Circle κ) : Prop :=
  Obeys (fun _ : Unit => Rings (Circle.Sized Ladder)) (Rings (Circle.Sized Ladder)) cb

/-- A send that returns has put the packet behind the others. -/
theorem sendPacket_serves {payload : List UInt8} (hcb : Fitting cb) (h : Serving packets s)
    (hsize : payload.length < 2 ^ 64)
    (hrun : sendPacket .tcp K cb payload s = .ok () s') : Serving (packets ++ [payload]) s' ∧
    Unread s s' := by
  obtain ⟨b, w, u, hv, hc, hhead, -, hwrite, hdestroy⟩ := sendPacket_eq_ok h.pumping.valid hsize hrun
  have hlossless : sentBytes { s with sendBuff := b } ++ b.contents =
    encodePackets (packets ++ [payload]) := by
    rw [hc, ← List.append_assoc, encodePackets, List.flatMap_append, List.flatMap_singleton]
    exact congrArg (· ++ encodePacket payload) h.pumping.lossless
  obtain ⟨v, hwrite', hpump⟩ := doWriteTcp_pumps circle_drains (s := { s with sendBuff := b }) hv
    h.pumping.waits hlossless
  change doWriteTcp _ = .ok () u at hwrite
  rw [hwrite'] at hwrite
  obtain ⟨-, rfl⟩ := EStateM.Result.ok.inj hwrite
  obtain ⟨hwritten, hsend⟩ := doWriteTcp_unread hwrite'
  have hstart : Unread s { s with sendBuff := b } := ⟨rfl, rfl, rfl, rfl, rfl⟩
  have hunread : Unread s v := hstart.trans hwritten
  rw [destroy_after hv hc hhead (.inl hsend)] at hdestroy
  obtain ⟨-, rfl⟩ := EStateM.Result.ok.inj hdestroy
  have hladder : Laddered v.sendBuff.data :=
    ((rings_interface rungs).sendPacket (i := ()) hcb payload).returns
      ⟨h.ring.2, h.sends⟩ hrun |>.2
  refine ⟨⟨hpump, hunread.recvBuff ▸ h.ring, hladder, ?_, ?_⟩, hunread⟩
  · rw [hunread.received, hunread.recvBuff, hunread.deliveries]
    exact h.accounts
  · intro p hp
    rcases List.mem_append.mp hp with hp | hp
    · exact h.small p hp
    · have hlt := hpump.valid.length_lt
      have hle := hladder.le
      rw [hsend, hc, List.length_append, length_encodePacket] at hlt
      rw [hsend] at hle
      rw [List.mem_singleton.mp hp]
      unfold ringLimit
      omega

/-- The send rule of tcp. -/
theorem sends_tcp (hcb : Fitting cb) : Sends .tcp K cb Unread Serving where
  refl := .refl
  trans := .trans
  recvBuff h := h.recvBuff
  deliveries h := h.deliveries
  packet h hsize hrun := sendPacket_serves hcb h hsize hrun

end Connection

def Attending {κ : Type} (packets : List (List UInt8)) (s : Sock Circle κ) : Prop :=
  Serving packets s ∧ readWaits s = 0 ∧ s.state = .connected

namespace Responder
variable {κ : Type} {app : Responder} {K : Ikcp κ} {packets : List (List UInt8)}
  {old : List (Delivery Circle)} {s s' : Sock Circle κ}

private theorem sends_attending : Sends .tcp K unheard Connection.Unread Attending :=
  (Connection.sends_tcp (Connection.obeys_pure rfl rfl)).also fun hframe h =>
    ⟨hframe.waits.trans h.1, hframe.state.trans h.2⟩

private theorem delivers_attending : Delivers (Attending (κ := κ)) where
  ring h := h.1.ring
  deliver h hready hb hc := ⟨h.1.deliver hready hb hc, h.2⟩

/-- A chunk that the receive loop stores and reads. -/
theorem Answering.chunk (h : app.Answering Attending packets old s) {bytes : List UInt8} (rounds : Nat)
    (hfit : bytes.length ≤
      (Circle.continguiousSpaceOf s.recvBuff.head s.recvBuff.tail s.recvBuff.getSize).toNat)
    (hrun : (do
      Connection.recv (Circle.pokeEnd bytes)
      Connection.recv (Circle.written (UInt64.ofNat bytes.length))
      Connection.note (.received bytes)
      Connection.onRead (app.onRecv .tcp K) rounds : EStateM Fault (Sock Circle κ) Unit) s = .ok () s') :
    app.Answering Attending packets old s' ∧ ¬ Ready s'.recvBuff.contents := by
  rw [h.sent.1.ring.1.toNat_continguiousSpace] at hfit
  obtain ⟨b, hfill, hv, hc, hsize, hmax⟩ := Circle.fill_spec h.sent.1.ring.1 bytes hfit
  obtain ⟨_, b₁, hpoke, hwritten⟩ := bind_eq_ok.mp hfill
  rw [bind_ok (Connection.recv_ok hpoke), bind_ok (Connection.recv_ok hwritten)] at hrun
  obtain ⟨_, t, hnote, hread⟩ := bind_eq_ok.mp hrun
  cases hnote
  obtain ⟨hlimit, i, hi, hladder⟩ := h.sent.1.ring.2
  have hstored : app.Answering Attending packets old { s with
      recvBuff := b
      socket :=
        { s.socket with trace := s.socket.trace ++ [⟨s.socket.session, s.socket.running, .received bytes⟩] } } :=
    h.change rfl fun hs =>
      ⟨hs.1.arrive bytes ⟨hv, hmax.trans hlimit, i, hi, hsize.trans hladder⟩ hc s.socket.running,
      hs.2⟩
  exact hstored.onRead sends_attending delivers_attending hread

inductive Left (app : Responder) (packets : List (List UInt8)) (old : List (Delivery Circle))
    (s' : Sock Circle κ) : Bool → Prop
  | listening (h : app.Answering Attending packets old s') (hready : ¬ Ready s'.recvBuff.contents) : Left app packets old s' true
  | ended {t : Sock Circle κ} (h : app.Answering Attending packets old t) (hready : ¬ Ready t.recvBuff.contents)
    (hclosed : Connection.Closed t s') : Left app packets old s' false

/-- The receive loop of a handler that returns. -/
theorem Answering.receiveLoop {rounds fuel : Nat} {more : Bool} (h : app.Answering Attending packets old s)
    (hready : ¬ Ready s.recvBuff.contents)
    (hrun : Connection.receiveLoop (app.callbacks .tcp K) rounds fuel s = .ok more s') :
    app.Left packets old s' more := by
  induction fuel generalizing s with
  | zero => cases hrun
  | succ fuel ih =>
    obtain ⟨space, t, hquery, hrun⟩ := bind_eq_ok.mp hrun
    obtain ⟨c, hspace, rfl⟩ := Connection.recv_eq_ok hquery
    obtain ⟨hoffer, hword, hring, hc⟩ := Circle.getContinguiousSpace_laddered h.sent.1.ring hready hspace
    have hgrown : app.Answering Attending packets old { s with recvBuff := c } :=
      h.change rfl fun hs => ⟨hs.1.regrown hring hc, hs.2⟩
    have hstill : ¬ Ready c.contents := by rwa [hc]
    split at hrun
    · cases hrun
      exact .listening hgrown hstill
    · rw [bind_ok (Connection.nextAnswer_eq _)] at hrun
      generalize s.socket.answers.headD ⟨.wouldBlock, [], 0⟩ = answer at hrun
      have hnext : app.Answering Attending packets old
          { s with recvBuff := c, socket := { s.socket with answers := s.socket.answers.tail } } :=
        hgrown.change rfl fun hs => ⟨hs.1.congr rfl rfl rfl rfl rfl rfl, hs.2⟩
      have hclose {v : Sock Circle κ} (hv : app.Answering Attending packets old v)
        (hquiet : ¬ Ready v.recvBuff.contents)
          (hrest : (do
            Connection.close .tcp (app.callbacks .tcp K)
            pure false : EStateM Fault (Sock Circle κ) Bool) v =
              .ok more s') : app.Left packets old s' more := by
        obtain ⟨_, w, hrun, hrest⟩ := bind_eq_ok.mp hrest
        cases hrest
        exact .ended hv hquiet ((Connection.close_closes rfl).returns ⟨rfl, rfl, rfl⟩ hrun)
      -- the chunk is stored and read, and then the error code decides how to go on
      have hchunk {code : EStateM Fault (Sock Circle κ) Bool}
          (hcode : ∀ {v}, app.Answering Attending packets old v → ¬ Ready v.recvBuff.contents →
            code v = .ok more s' →
            app.Left packets old s' more)
          (hrest : (do
            let bytes := answer.data.take space.toUInt32.toNat
            if bytes ≠ [] then
              Connection.recv (Circle.pokeEnd bytes)
              Connection.recv (Circle.written (UInt64.ofNat bytes.length))
              Connection.note (.received bytes)
              Connection.onRead (app.onRecv .tcp K) rounds
            code : EStateM Fault (Sock Circle κ) Bool)
              { s with recvBuff := c, socket := { s.socket with answers := s.socket.answers.tail } } = .ok more s') :
          app.Left packets old s' more := by
        have hfit : (answer.data.take space.toUInt32.toNat).length ≤
            (Circle.continguiousSpaceOf c.head c.tail c.getSize).toNat := by
          rw [← hoffer, UInt64.toNat_toUInt32, List.length_take]
          omega
        dsimp only at hrest
        split at hrest
        · obtain ⟨_, v₁, hpoke, hrest⟩ := bind_eq_ok.mp hrest
          obtain ⟨_, v₂, hwritten, hrest⟩ := bind_eq_ok.mp hrest
          obtain ⟨_, v₃, hnote, hrest⟩ := bind_eq_ok.mp hrest
          obtain ⟨_, v, hread, hrest⟩ := bind_eq_ok.mp hrest
          obtain ⟨hv, hquiet⟩ := hnext.chunk rounds hfit (by
            rw [bind_ok hpoke, bind_ok hwritten, bind_ok hnote]
            exact hread)
          exact hcode hv hquiet hrest
        · exact hcode hnext hstill hrest
      obtain ⟨code, data, count⟩ := answer
      cases code with
      | success => exact hchunk ih hrun
      | wouldBlock =>
        refine hchunk (fun hv hquiet hrest => ?_) hrun
        cases hrest
        exact .listening hv hquiet
      | operationAborted => exact hchunk hclose hrun
      | failure => exact hchunk hclose hrun

/-- The handler of the read wait, which is no longer outstanding. -/
theorem Answering.handleWaitRead {rounds : Nat} {ec : ErrorCode} (h : app.Answering Attending packets old s)
    (hready : ¬ Ready s.recvBuff.contents)
    (hrun : Connection.handleWaitRead (app.callbacks .tcp K) rounds ec s = .ok () s') :
    (∃ t, app.Answering Attending packets old t ∧ ¬ Ready t.recvBuff.contents ∧
      Connection.start .waitRead t = .ok () s') ∨
      ∃ t, app.Answering Attending packets old t ∧ ¬ Ready t.recvBuff.contents ∧ Connection.Closed t s' := by
  rw [Connection.handleWaitRead] at hrun
  split at hrun
  · exact .inr ⟨s, h, hready, (Connection.close_closes rfl).returns ⟨rfl, rfl, rfl⟩ hrun⟩
  · rw [get_bind] at hrun
    obtain ⟨more, t, hloop, hrest⟩ := bind_eq_ok.mp hrun
    have hleft := h.receiveLoop hready hloop
    cases hleft with
    | listening ht hquiet => exact .inl ⟨t, ht, hquiet, hrest⟩
    | ended hu hquiet hclosed =>
      cases hrest
      exact .inr ⟨_, hu, hquiet, hclosed⟩

end Responder

namespace Connection
variable {κ : Type} {cb : Callbacks Circle κ} {appended : List UInt8} {s s' : Sock Circle κ}

private theorem unread_send {α : Type} (x : EStateM Fault Circle α) : Keeps (Unread s) (send x) (Unread s) :=
  .zoom (fun _ _ h => ⟨h.recvBuff, h.deliveries, h.state, h.waits, h.received⟩) fun _ h => h

private theorem unread_nextAnswer : Keeps (Unread s) nextAnswer (Unread s) where
  returns {u a v} hu hrun := by
    rw [nextAnswer_eq] at hrun
    cases hrun
    exact ⟨hu.recvBuff, hu.deliveries, hu.state, hu.waits, hu.received⟩
  faults {u e v} hu hrun := by
    rw [nextAnswer_eq] at hrun
    cases hrun

private theorem unread_note {action : Action} (hreceived : action.receivedBytes = []) :
    Keeps (Unread s) (note action) (Unread s) :=
  .modify fun u h => by
    refine ⟨h.recvBuff, h.deliveries, h.state, h.waits, ?_⟩
    change (u.socket.trace ++ [_]).flatMap _ = _
    rw [List.flatMap_append, List.flatMap_singleton, hreceived, List.append_nil]
    exact h.received

theorem sendOnce_unread : Keeps (Unread s) sendOnce (Unread s) := by
  refine .look fun u hu => .bind (Q := fun _ => Unread s) (unread_send _) fun bytes => ?_
  refine .bind (Q := fun _ => Unread s) unread_nextAnswer fun answer => ?_
  dsimp only
  refine .ite (fun _ => ?_) fun _ => .pure fun _ h => h
  refine .bind (Q := fun _ => Unread s) (unread_send _) fun _ => ?_
  exact .bind (Q := fun _ => Unread s) (unread_note rfl) fun _ => .pure fun _ h => h

/-- A socket whose unsent bytes are all still there. -/
structure Draining (appended : List UInt8) (s s' : Sock Circle κ) : Prop extends Unread s s' where
  valid : s'.sendBuff.Valid
  lossless : sentBytes s' ++ s'.sendBuff.contents = appended
  flags : s'.socket.flags = s.socket.flags
  writes : writeWaits s' = writeWaits s

/-- The send loop of a handler that returns. -/
theorem Draining.sendLoop {fuel : Nat} {more : Bool} {u : Sock Circle κ} (h : Draining appended s u)
    (hquiet : cb.onDisconnected = pure ()) (hrun : sendLoop cb fuel u = .ok more s') :
    if more then Draining appended s s' else ∃ t, Draining appended s t ∧ Closed t s' := by
  induction fuel generalizing u with
  | zero => cases hrun
  | succ fuel ih =>
    obtain ⟨v, honce, hv, hf, hp, -, hl⟩ := sendOnce_moves circle_drains h.valid h.lossless
    have hsent : Draining appended s v :=
      ⟨h.toUnread.trans (sendOnce_unread.returns (.refl u) honce), hv, hl, hf.trans h.flags, by
        rw [writeWaits, hp, ← h.writes]; rfl⟩
    rw [Connection.sendLoop, bind_ok honce] at hrun
    have hclose (hrest : (do
        close .tcp cb
        pure false : EStateM Fault (Sock Circle κ) Bool) v = .ok more s') :
        if more then Draining appended s s' else ∃ t, Draining appended s t ∧ Closed t s' := by
      obtain ⟨_, w, hrun, hrest⟩ := bind_eq_ok.mp hrest
      cases hrest
      exact ⟨v, hsent, (close_closes hquiet).returns ⟨rfl, rfl, rfl⟩ hrun⟩
    cases hec : (u.socket.answers.headD ⟨.wouldBlock, [], 0⟩).ec with
    | success =>
      rw [hec] at hrun
      dsimp only at hrun
      rw [get_bind] at hrun
      split at hrun
      · exact ih hsent hrun
      · cases hrun
        exact hsent
    | wouldBlock =>
      rw [hec] at hrun
      cases hrun
      exact hsent
    | operationAborted =>
      rw [hec] at hrun
      exact hclose hrun
    | failure =>
      rw [hec] at hrun
      exact hclose hrun

/-- The handler of the write wait, which is no longer outstanding. -/
theorem Draining.handleWaitWrite {ec : ErrorCode} (h : Draining appended s s) (hw : writeWaits s = 0)
    (hquiet : cb.onDisconnected = pure ()) (hrun : handleWaitWrite cb ec s = .ok () s') :
    Pumping Circle.Valid Circle.contents appended s' ∧ Unread s s' ∨ ∃ t, Draining appended s t ∧
      Closed t s' := by
  rw [Connection.handleWaitWrite] at hrun
  split at hrun
  · exact .inr ⟨s, h, (close_closes hquiet).returns ⟨rfl, rfl, rfl⟩ hrun⟩
  · rw [get_bind] at hrun
    obtain ⟨more, t, hloop, hrest⟩ := bind_eq_ok.mp hrun
    have hleft := h.sendLoop hquiet hloop
    cases more with
    | false =>
      cases hrest
      exact .inr hleft
    | true =>
      obtain ⟨u, hu, hpump⟩ := doWriteTcp_pumps circle_drains
        (s := { t with socket := { t.socket with flags := t.socket.flags &&& ~~~sending } }) hleft.valid (by
          split
          · rename_i hbit
            exact absurd (sending_unset _) hbit
          · exact hleft.writes.trans hw) hleft.lossless
      change doWriteTcp _ = .ok () s' at hrest
      rw [hu] at hrest
      obtain ⟨-, rfl⟩ := EStateM.Result.ok.inj hrest
      have hclear : Unread s { t with socket := { t.socket with flags := t.socket.flags &&& ~~~sending } } :=
        ⟨hleft.recvBuff, hleft.deliveries, hleft.state, hleft.waits, hleft.received⟩
      exact .inl ⟨hpump, hclear.trans (doWriteTcp_unread hu).1⟩

end Connection

namespace Side
variable {κ : Type} {app : Responder} {K : Ikcp κ} {a a' : Side κ}

/-- Between the events of a session: nothing that can be delivered is left in the
ring, and one read wait is outstanding. -/
structure Up (a : Side κ) : Prop where
  serving : Serving a.sent a.socket
  quiet : ¬ Ready a.socket.recvBuff.contents
  waits : readWaits a.socket = 1

structure Sound (a : Side κ) : Prop where
  sent : sentBytes a.socket <+: encodePackets a.sent
  received : ∃ rest, Accounts Circle.contents (receivedBytes a.socket) a.socket.deliveries rest ∧ ¬ Ready rest
  small : ∀ p ∈ a.sent, p.length + 4 ≤ ringLimit

def Kept (a : Side κ) : Prop := a.Sound ∧ (a.socket.state = .connected → a.Up)

theorem Up.kept (h : a.Up) : a.Kept :=
  ⟨⟨⟨_, h.serving.pumping.lossless⟩, ⟨_, h.serving.accounts, h.quiet⟩, h.serving.small⟩, fun _ => h⟩

def Follows (a a' : Side κ) : Prop := a'.Kept ∧ a.socket.deliveries <+: a'.socket.deliveries

private theorem follows_of_serving {s : Sock Circle κ} (h : Serving (a.after app s).sent s)
    (hquiet : ¬ Ready s.recvBuff.contents)
    (hwaits : readWaits s = 1) (hold : a.socket.deliveries <+: s.deliveries) : a.Follows (a.after app s) :=
  ⟨Up.kept ⟨h.congr rfl rfl rfl rfl rfl rfl, hquiet, hwaits⟩, hold⟩

private theorem sound_of_serving {s : Sock Circle κ} (h : Serving (a.after app s).sent s)
    (hquiet : ¬ Ready s.recvBuff.contents) :
    (a.after app s).Sound := ⟨⟨_, h.pumping.lossless⟩, ⟨_, h.accounts, hquiet⟩, h.small⟩

private theorem follows_of_closed {s t : Sock Circle κ} (h : (a.after app t).Sound)
    (hold : a.socket.deliveries <+: t.deliveries)
    (hclosed : Connection.Closed t s) : a.Follows (a.after app s) := by
  have hsent : (a.after app s).sent = (a.after app t).sent := by rw [after, after, hclosed.deliveries]
  refine ⟨⟨⟨?_, ?_, hsent ▸ h.small⟩, fun hup => absurd hup hclosed.down⟩, hclosed.deliveries ▸ hold⟩
  · change sentBytes s <+: _
    rw [hclosed.sentBytes, hsent]
    exact h.sent
  · change ∃ rest, Accounts _ (receivedBytes s) s.deliveries rest ∧ _
    rw [hclosed.received, hclosed.deliveries]
    exact h.received

/-- An operation that is taken out of the outstanding ones. -/
theorem countP_eraseIdx {α : Type} {l : List α} {i : Nat} {x : α} (h : l[i]? = some x) (p : α → Bool) :
    l.countP p = (l.eraseIdx i).countP p + if p x then 1 else 0 := by
  obtain ⟨hi, hget⟩ := List.getElem?_eq_some_iff.mp h
  rw [← (List.getElem_cons_eraseIdx_perm hi).countP_eq p, List.countP_cons, hget]

structure Resumes (a : Side κ) (operation : Operation) (s : Sock Circle κ) : Prop where
  recvBuff : s.recvBuff = a.socket.recvBuff
  sendBuff : s.sendBuff = a.socket.sendBuff
  deliveries : s.deliveries = a.socket.deliveries
  flags : s.socket.flags = a.socket.socket.flags
  trace : s.socket.trace = a.socket.socket.trace
  up : s.state = .connected
  reads : readWaits a.socket = readWaits s + if operation = .waitRead then 1 else 0
  writes : writeWaits a.socket = writeWaits s + if operation = .waitWrite then 1 else 0

theorem resumes_resuming (hup : a.socket.state = .connected) {env : Surroundings} {i : Nat} {p : Pending}
    (hp : a.socket.socket.pending[i]? = some p) : a.Resumes p.operation (a.resuming env i p) := by
  have hreads := countP_eraseIdx hp (·.operation = .waitRead)
  have hwrites := countP_eraseIdx hp (·.operation = .waitWrite)
  simp only [decide_eq_true_eq] at hreads hwrites
  exact ⟨rfl, rfl, rfl, rfl, rfl, hup, hreads, hwrites⟩

section Handlers
variable {s s' : Sock Circle κ} {operation : Operation} (h : a.Up) (hs : a.Resumes operation s)
include h hs

theorem Resumes.serving (hop : operation ≠ .waitWrite) : Serving a.sent s := by
  have hwrites := hs.writes
  rw [if_neg hop] at hwrites
  exact h.serving.congr hs.recvBuff hs.sendBuff hs.deliveries hs.flags hs.trace hwrites.symm

/-- A handler that does nothing. -/
theorem Resumes.idle (hread : operation ≠ .waitRead) (hwrite : operation ≠ .waitWrite) :
    a.Follows (a.after app s) := by
  have hreads := hs.reads
  rw [if_neg hread] at hreads
  refine follows_of_serving ?_ (hs.recvBuff ▸ h.quiet) (hreads.symm.trans h.waits)
    (hs.deliveries ▸ List.prefix_rfl)
  rw [after_sent hs.deliveries]
  exact hs.serving h hwrite

theorem Resumes.read {rounds : Nat} {ec : ErrorCode} (hop : operation = .waitRead)
    (hrun : Connection.handleWaitRead (app.callbacks .tcp K) rounds ec s = .ok () s') :
    a.Follows (a.after app s') := by
  have hstart : app.Answering Attending a.sent a.socket.deliveries s := by
    refine hs.deliveries ▸ Responder.answering_begins ⟨hs.serving h (by rw [hop]; decide), ?_, hs.up⟩
    have hreads := hs.reads
    rw [if_pos hop, h.waits] at hreads
    omega
  rcases hstart.handleWaitRead (hs.recvBuff ▸ h.quiet) hrun with
    ⟨t, ht, hquiet, hwait⟩ | ⟨t, ht, hquiet, hclosed⟩
  · cases hwait
    refine follows_of_serving (ht.sent.1.congr rfl rfl rfl rfl rfl ?_) hquiet ?_ ht.old
    · change (t.socket.pending ++ [_]).countP _ = t.socket.pending.countP _
      rw [List.countP_append]
      rfl
    · change (t.socket.pending ++ [_]).countP _ = 1
      rw [List.countP_append]
      exact congrArg (· + 1) ht.sent.2.1
  · exact follows_of_closed (sound_of_serving ht.sent.1 hquiet) ht.old hclosed

theorem Resumes.write {ec : ErrorCode} (hop : operation = .waitWrite)
    (hrun : Connection.handleWaitWrite (app.callbacks .tcp K) ec s = .ok () s') :
    a.Follows (a.after app s') := by
  have hzero : writeWaits s = 0 := by
    have hwrites := hs.writes
    rw [if_pos hop, h.serving.pumping.waits] at hwrites
    split at hwrites <;> omega
  have hlossless : sentBytes s ++ s.sendBuff.contents = encodePackets a.sent := by
    rw [sentBytes, hs.trace, hs.sendBuff]
    exact h.serving.pumping.lossless
  have hstart : Connection.Draining (encodePackets a.sent) s s :=
    ⟨.refl s, hs.sendBuff ▸ h.serving.pumping.valid, hlossless, rfl, rfl⟩
  have hreceived : receivedBytes s = receivedBytes a.socket := by rw [receivedBytes, receivedBytes, hs.trace]
  have haccounts {t : Sock Circle κ} (ht : Connection.Unread s t) :
      Accounts Circle.contents (receivedBytes t) t.deliveries t.recvBuff.contents := by
    rw [ht.received, hreceived, ht.deliveries, hs.deliveries, ht.recvBuff, hs.recvBuff]
    exact h.serving.accounts
  rcases hstart.handleWaitWrite hzero rfl hrun with ⟨hpump, hunread⟩ | ⟨t, ht, hclosed⟩
  · have hsent : (a.after app s').sent = a.sent := after_sent (hunread.deliveries.trans hs.deliveries)
    have hrecv : s'.recvBuff = a.socket.recvBuff := hunread.recvBuff.trans hs.recvBuff
    refine follows_of_serving ?_ (hrecv ▸ h.quiet) ?_
      ((hunread.deliveries.trans hs.deliveries) ▸ List.prefix_rfl)
    · rw [hsent]
      refine ⟨hpump, hrecv ▸ h.serving.ring, ?_, haccounts hunread, h.serving.small⟩
      have hrings : Rings (Circle.Sized Ladder) s :=
        ⟨hs.recvBuff ▸ h.serving.ring.2, hs.sendBuff ▸ h.serving.sends⟩
      exact (Connection.rings_handleWaitWrite rungs (app.gentle .tcp K rungs) ec).returns hrings hrun |>.2
    · have hreads := hs.reads
      rw [if_neg (by rw [hop]; decide), h.waits] at hreads
      exact hunread.waits.trans hreads.symm
  · have hsent : (a.after app t).sent = a.sent := after_sent (ht.deliveries.trans hs.deliveries)
    have hreceived : ∃ rest, Accounts Circle.contents (receivedBytes t) t.deliveries rest ∧ ¬ Ready rest :=
      ⟨_, haccounts ht.toUnread, by rw [ht.recvBuff, hs.recvBuff]; exact h.quiet⟩
    refine follows_of_closed (t := t) ⟨?_, hreceived, hsent ▸ h.serving.small⟩
      ((ht.deliveries.trans hs.deliveries) ▸ List.prefix_rfl) hclosed
    rw [hsent]
    exact ⟨_, ht.lossless⟩

/-- The handler of any operation. -/
theorem Resumes.handle {rounds : Nat} {ec : ErrorCode} {data : List UInt8}
    (hrun : Connection.handle .tcp K (app.callbacks .tcp K) rounds operation ec data s =
      .ok () s') : a.Follows (a.after app s') := by
  cases operation with
  | connect =>
    change (if ec = .success then _ else _ : EStateM _ _ _) s = _ at hrun
    split at hrun
    · rw [Connection.connected, get_bind, if_neg (not_not.mpr hs.up)] at hrun
      cases hrun
      exact hs.idle h (by decide) (by decide)
    · refine follows_of_closed (sound_of_serving (s := s) ?_ (hs.recvBuff ▸ h.quiet))
        (hs.deliveries ▸ List.prefix_rfl)
        ((Connection.disconnect_closes rfl).returns ⟨rfl, rfl, rfl⟩ hrun)
      rw [after_sent hs.deliveries]
      exact hs.serving h (by decide)
  | waitRead => exact hs.read h rfl hrun
  | waitWrite => exact hs.write h rfl hrun
  | receive start space =>
    cases hrun
    exact hs.idle h (by simp) (by simp)

end Handlers

/-- An event that does nothing to the socket. -/
theorem Up.surrounded (h : a.Up) (env : Surroundings) :
    a.Follows (a.after app (Connection.surrounded env a.socket)) := by
  refine follows_of_serving ?_ h.quiet h.waits List.prefix_rfl
  rw [after_sent (s := Connection.surrounded env a.socket) rfl]
  exact h.serving.congr rfl rfl rfl rfl rfl rfl

/-- One event keeps the invariant. -/
theorem Turn.follows {e : ConnectorEvent × Surroundings} (h : a.Kept)
    (hturn : a.Turn .tcp app K e a') : a.Follows a' := by
  obtain ⟨hup, -, hsame, hsmall, s, hrun, rfl⟩ := hturn
  rw [outcome] at hrun
  have h := h.2 hup
  have hnone (hcalled : called e.1 = []) : (⟨a.socket, a.sent ++ called e.1⟩ : Side κ) = a := by
    rw [hcalled, List.append_nil]
  obtain ⟨event, env⟩ := e
  have hstart : Serving a.sent (Connection.surrounded env a.socket) := h.serving.congr rfl rfl rfl rfl rfl rfl
  cases event with
  | call call =>
    cases call with
    | connect => exact absurd rfl hsame
    | disconnect =>
      obtain ⟨_, t, hdisconnect, hrest⟩ := bind_eq_ok.mp hrun
      cases hrest
      rw [hnone rfl]
      refine follows_of_closed (sound_of_serving (s := Connection.surrounded env a.socket) ?_
        h.quiet) List.prefix_rfl
        ((Connection.disconnect_closes rfl).returns ⟨rfl, rfl, rfl⟩ hdisconnect)
      rw [after_sent (s := Connection.surrounded env a.socket) rfl]
      exact hstart
    | send payload =>
      obtain ⟨hs, hunread⟩ := (Connection.sends_tcp (app.gentle .tcp K rungs).obeys).perform
        [payload] hsmall hstart hrun
      refine follows_of_serving (a := ⟨a.socket, a.sent ++ [payload]⟩) ?_
        (hunread.recvBuff ▸ h.quiet) (hunread.waits.trans h.waits)
        (hunread.deliveries ▸ List.prefix_rfl)
      have hsent : (after app ⟨a.socket, a.sent ++ [payload]⟩ s).sent = a.sent ++ [payload] :=
        after_sent hunread.deliveries
      rw [hsent]
      exact hs
  | complete i ec data =>
    rw [hnone rfl]
    cases hp : a.socket.socket.pending[i]? with
    | none =>
      have hidle : (Connection.surrounded env a.socket).socket.pending[i]? = none := hp
      rw [Connection.event, get_bind, hidle] at hrun
      cases hrun
      exact h.surrounded env
    | some p =>
      rw [event_complete hp] at hrun
      exact (resumes_resuming hup hp).handle h hrun
  | tick current =>
    rw [Connection.event, if_neg (by decide)] at hrun
    cases hrun
    rw [hnone rfl]
    exact h.surrounded env

theorem Turn.keeps {e : ConnectorEvent × Surroundings} (h : a.Kept)
    (hturn : a.Turn .tcp app K e a') : a'.Kept := (hturn.follows h).1

end Side
end SimpleNetwork
