import SimpleNetwork.Asio.Answers
import SimpleNetwork.Asio.Datagram
import SimpleNetwork.Asio.SendPacket
import SimpleNetwork.Asio.UdpWrite

/-! Two udp sides and a network that may lose, repeat and reorder datagrams. A packet
is one datagram, and a datagram that arrives is delivered whole or not at all. -/
namespace SimpleNetwork
open Words Outcome Runs

/-- A datagram of one of the packets, or of the empty one that `connect()` sends. -/
def Carries (packets : List (List UInt8)) (d : List UInt8) : Prop :=
  ∃ p, d = encodePacket p ∧ p.length + 4 < 2 ^ 32 ∧ (p = [] ∨ p ∈ packets)

theorem Carries.mono {packets more : List (List UInt8)} {d : List UInt8} (h : Carries packets d) :
    Carries (packets ++ more) d := by
  obtain ⟨p, hd, hsmall, hp⟩ := h
  exact ⟨p, hd, hsmall, hp.imp_right (List.mem_append_left _)⟩

/-- After a reset the ring is empty, whatever was in it. -/
theorem Circle.Flat.reset_valid {c : Circle} (h : c.Flat) : c.reset.Valid :=
  have hpos : 0 < c.data.mem.length := Nat.lt_of_le_of_lt (Nat.zero_le _) h.1.head_lt
  ⟨h.1.pow, h.1.growth, hpos, hpos⟩

namespace Connection
variable {κ : Type} {K : Ikcp κ} {cb : Callbacks Circle κ} {packets : List (List UInt8)}
  {bytes : List UInt8} {s s' : Sock Circle κ}

/-- A packet written to a ring that lies in one run leaves it so. -/
theorem flat_writePacket (payload : List UInt8) : Keeps Circle.Flat (writePacket payload) Circle.Flat := by
  refine .bind UdpSocket.flat_new fun w => .bind (UdpSocket.flat_put w payload) fun w => ?_
  exact UdpSocket.flat_flush w none

/-- What sending leaves alone of the receiving side. -/
structure Aside (s s' : Sock Circle κ) : Prop where
  recvBuff : s'.recvBuff = s.recvBuff
  deliveries : s'.deliveries = s.deliveries
  pending : s'.socket.pending = s.socket.pending

theorem Aside.refl (s : Sock Circle κ) : Aside s s := ⟨rfl, rfl, rfl⟩

theorem Aside.trans {s'' : Sock Circle κ} (h : Aside s s') (h' : Aside s' s'') : Aside s s'' :=
  ⟨h'.recvBuff.trans h.recvBuff, h'.deliveries.trans h.deliveries, h'.pending.trans h.pending⟩

/-- While a datagram is handed over: the send ring still holds it, and it is all that is new. -/
structure Handing (bytes : List UInt8) (s s' : Sock Circle κ) : Prop extends Aside s s' where
  sendBuff : s'.sendBuff = s.sendBuff
  told : ∀ d ∈ datagrams s', d ∈ datagrams s ∨ d = bytes

theorem Handing.refl (bytes : List UInt8) (s : Sock Circle κ) : Handing bytes s s :=
  ⟨.refl s, rfl, fun _ hd => .inl hd⟩

/-- Functions that touch neither ring, no receive and no datagram. -/
theorem handing_modify {f : Sock Circle κ → Sock Circle κ} (haside : ∀ u, Aside u (f u))
    (hsend : ∀ u, (f u).sendBuff = u.sendBuff)
    (htrace : ∀ u, (f u).socket.trace = u.socket.trace) : Keeps (Handing bytes s)
    (modify f : EStateM Fault (Sock Circle κ) Unit) (Handing bytes s) :=
  .modify fun u h => ⟨h.toAside.trans (haside u), (hsend u).trans h.sendBuff, fun d hd => h.told d (by
    rw [datagrams, htrace] at hd
    exact hd)⟩

private theorem handing_note {action : Action} (haction : ∀ d ∈ action.datagrams, d = bytes) :
    Keeps (Handing bytes s) (note action) (Handing bytes s) :=
  .modify fun u h => by
    refine ⟨⟨h.recvBuff, h.deliveries, h.pending⟩, h.sendBuff, fun d hd => ?_⟩
    change d ∈ (u.socket.trace ++ [_]).flatMap _ at hd
    rw [List.flatMap_append, List.flatMap_singleton] at hd
    exact (List.mem_append.mp hd).elim (h.told d) fun hd => .inr (haction d hd)

private theorem handing_setState (state : ConnectionState) :
    Keeps (Handing bytes s) (setState state) (Handing bytes s) :=
  .bind (handing_modify (fun _ => ⟨rfl, rfl, rfl⟩) (fun _ => rfl) fun _ => rfl) fun _ =>
    handing_note (fun _ hd => nomatch hd)

/-- `udp::socket::close()` without a callback. -/
theorem handing_close (hquiet : cb.onDisconnected = pure ()) :
    Keeps (Handing bytes s) (close .udp cb) (Handing bytes s) := by
  refine .bind (.bind (handing_modify (fun _ => ⟨rfl, rfl, rfl⟩) (fun _ => rfl) fun _ => rfl)
    fun _ => handing_note (fun _ hd => nomatch hd)) fun _ => ?_
  refine .look fun u _ => .ite (fun _ => ?_) fun _ => .pure fun _ h => h
  refine .bind (handing_setState _) fun _ => .bind (handing_note (fun _ hd => nomatch hd)) fun _ => ?_
  rw [hquiet]
  exact .pure fun _ h => h

/-- A closed socket is not connected. -/
theorem closeUdp_down (hquiet : cb.onDisconnected = pure ()) :
    Triple (fun _ : Sock Circle κ => True) (close .udp cb)
      (fun _ u => u.state ≠ .connected) fun _ => True := by
  refine .bind (Q := fun _ _ => True)
    (.bind (Q := fun _ _ => True) (.modify fun _ _ => trivial) fun _ => .modify fun _ _ => trivial)
    fun _ => .get fun u _ => ?_
  split
  · refine .bind (Q := fun _ v => v.state ≠ .connected)
      (.bind (Q := fun _ v => v.state ≠ .connected) (.modify fun _ _ => nofun)
      fun _ => .modify fun _ h => h) fun _ =>
        .bind (Q := fun _ v => v.state ≠ .connected) (.modify fun _ h => h) fun _ => ?_
    rw [hquiet]
    exact .pure fun _ h => h
  · rename_i hdown
    exact .pure fun v hv => hv ▸ hdown

private theorem handing_disconnect (hquiet : cb.onDisconnected = pure ()) :
    Keeps (Handing bytes s) (disconnect .udp cb) (Handing bytes s) := by
  refine .look fun u _ => .ite (fun _ => .pure fun _ h => h) fun _ => ?_
  refine .bind (handing_setState _) fun _ => .bind (handing_close hquiet) fun _ =>
    .bind (handing_note (fun _ hd => nomatch hd)) fun _ => ?_
  rw [hquiet]
  exact .pure fun _ h => h

private theorem handing_sendDatagram : Keeps (Handing bytes s) (sendDatagram bytes) (Handing bytes s) := by
  have hanswer : Keeps (Handing bytes s) nextAnswer (Handing bytes s) := by
    refine .look fun u _ => ?_
    split
    · exact .pure fun _ h => h
    · refine .bind (handing_modify (fun _ => ⟨rfl, rfl, rfl⟩) (fun _ => rfl) fun _ => rfl) fun _ =>
        .pure fun _ h => h
  refine .bind hanswer fun answer => .ite (fun _ => ?_) fun _ => .pure fun _ h => h
  refine .bind (handing_note fun d hd => List.mem_singleton.mp hd) fun _ => .pure fun _ h => h

/-- The socket between packets: the send ring is empty, and its datagrams are the packets sent. -/
structure Dispatched (packets : List (List UInt8)) (s : Sock Circle κ) : Prop where
  flat : s.sendBuff.Flat
  valid : s.sendBuff.Valid
  empty : s.sendBuff.contents = []
  told : ∀ d ∈ datagrams s, Carries packets d

/-- `do_write()` hands over all of a ring in one run, and resets it. -/
theorem doWriteUdp_dispatches (hflat : s.sendBuff.Flat) (hne : s.sendBuff.contents ≠ [])
    (hquiet : cb.onDisconnected = pure ())
    (hrun : doWriteUdp cb s = .ok () s') :
    Aside s s' ∧ s'.sendBuff = Circle.reset s.sendBuff ∧ ∀ d ∈ datagrams s', d ∈ datagrams s ∨
      d = s.sendBuff.contents := by
  have hcount : s.sendBuff.getCount ≠ 0 := by
    intro hzero
    rw [Circle.contents, hzero] at hne
    exact hne rfl
  rw [doWriteUdp, get_bind, if_pos hcount, if_pos hflat.getContinguiousCount.symm,
    bind_ok (send_ok hflat.peekStart)] at hrun
  obtain ⟨ec, t, hsend, hrun⟩ := bind_eq_ok.mp hrun
  have ht := handing_sendDatagram.returns (Handing.refl s.sendBuff.contents s) hsend
  have hreset {u : Sock Circle κ} (hu : Handing s.sendBuff.contents s u) (hlast : resetSend u = .ok () s') :
      Aside s s' ∧ s'.sendBuff = Circle.reset s.sendBuff ∧ ∀ d ∈ datagrams s', d ∈ datagrams s ∨
        d = s.sendBuff.contents := by
    cases hlast
    refine ⟨hu.toAside.trans ⟨rfl, rfl, rfl⟩, congrArg Circle.reset hu.sendBuff, fun d hd => ?_⟩
    change d ∈ (u.socket.trace ++ [_]).flatMap _ at hd
    rw [List.flatMap_append, List.flatMap_singleton] at hd
    exact (List.mem_append.mp hd).elim (hu.told d) fun hd => absurd hd List.not_mem_nil
  dsimp only at hrun
  split at hrun
  · obtain ⟨_, u, hclose, hlast⟩ := bind_eq_ok.mp hrun
    exact hreset ((handing_close hquiet).returns ht hclose) hlast
  · exact hreset ht hrun

/-- A send that returns has made one datagram of the packet, or none. -/
theorem sendPacket_dispatches {payload : List UInt8} (h : Dispatched packets s)
    (hsize : payload.length < 2 ^ 64)
    (hquiet : cb.onDisconnected = pure ()) (hrun : sendPacket .udp K cb payload s = .ok () s') :
    Dispatched (packets ++ [payload]) s' ∧ Aside s s' := by
  obtain ⟨b, w, u, hv, hc, hhead, ⟨p, hmade⟩, hwrite, hdestroy⟩ := sendPacket_eq_ok h.valid hsize hrun
  have hflat : b.Flat := (flat_writePacket payload).returns h.flat hmade
  rw [h.empty] at hc
  have hall : b.contents = encodePacket payload := hc
  obtain ⟨haside, hsend, htold⟩ := doWriteUdp_dispatches (s := { s with sendBuff := b }) hflat (by
    dsimp only
    rw [hall]
    exact List.cons_ne_nil _ _) hquiet hwrite
  have hempty := hflat.reset
  have hnil : u.sendBuff.Valid ∧ u.sendBuff.contents = [] := hsend ▸ ⟨hflat.reset_valid, hempty.2⟩
  rw [destroy_after hv hc (by rw [hhead, h.empty]) (.inr hnil)] at hdestroy
  obtain ⟨-, rfl⟩ := EStateM.Result.ok.inj hdestroy
  have hstart : Aside s { s with sendBuff := b } := ⟨rfl, rfl, rfl⟩
  refine ⟨⟨hsend ▸ hempty.1, hnil.1, hnil.2, fun d hd => ?_⟩, hstart.trans haside⟩
  rcases htold d hd with hd | hd
  · exact (h.told d hd).mono
  · refine ⟨payload, hd.trans hall, ?_, .inr (List.mem_append_right _ List.mem_cons_self)⟩
    have hsmall := encoded_small hv hc
    omega

private theorem sends_udp (hquiet : cb.onDisconnected = pure ()) : Sends .udp K cb Aside Dispatched where
  refl := .refl
  trans := .trans
  recvBuff h := h.recvBuff
  deliveries h := h.deliveries
  packet h hsize hrun := sendPacket_dispatches h hsize hquiet hrun

end Connection

/-- What is delivered of a datagram of one packet: all of it, if it fits into the ring. -/
def whole (d : List UInt8) : List (List UInt8) := if d.length ≤ 1023 then [d.drop 4] else []

def Default (d : Data) : Prop := d.mem.length = 1024 ∧ d.maxSize = 409600

namespace Responder
variable {κ : Type} (app : Responder) {K : Ikcp κ} {packets : List (List UInt8)} {s s' : Sock Circle κ}

/-- `on_read` on a datagram of one packet. -/
theorem onRead_dispatches {p : List UInt8} {rounds : Nat} (h : Connection.Dispatched packets s)
    (hring : s.recvBuff.Valid ∧ Default s.recvBuff.data)
    (hsmall : p.length + 4 < 2 ^ 32) (hc : s.recvBuff.contents = (encodePacket p).take 1023)
    (hrun : Connection.onRead (app.onRecv .udp K) rounds s = .ok () s') :
    Default s'.recvBuff.data ∧ s'.socket.pending = s.socket.pending ∧ ∃ new,
      s'.deliveries = s.deliveries ++ new ∧
      new.map (Delivery.payload Circle.contents) = whole (encodePacket p) ∧
      Connection.Dispatched (packets ++ app.answers new s.deliveries.length) s' := by
  have R := circle_reads Default
  have hstream : s.recvBuff.contents ++ (encodePacket p).drop 1023 = encodePacket p ++ [] := by
    rw [hc, List.take_append_drop, List.append_nil]
  have hlen : s.recvBuff.contents.length = min 1023 (p.length + 4) := by
    rw [hc, List.length_take, length_encodePacket]
  have hsize := packetSize_encoded hstream (by omega) hsmall
  cases rounds with
  | zero => cases hrun
  | succ rounds =>
    by_cases hfit : p.length + 4 ≤ 1023
    · have hall : s.recvBuff.contents = encodePacket p := by
        rw [hc, List.take_of_length_le (by rw [length_encodePacket]; exact hfit)]
      have hready : Ready s.recvBuff.contents := ⟨by omega, by omega⟩
      obtain ⟨more, u, hround, hrest⟩ := bind_eq_ok.mp hrun
      have hcall := hround
      rw [Connection.onReadRound_call R hring hready] at hcall
      obtain ⟨_, t, hrecv, -⟩ := bind_eq_ok.mp hcall
      obtain ⟨ht, hst⟩ := onRecv_answers (Connection.sends_udp rfl) h hring.1 hrecv
      obtain ⟨b, hb, hleft, hkeep⟩ :=
        Connection.onReadRound_keep R hring hready hrecv hst.recvBuff hst.deliveries
      have hnil : b.contents = [] := by
        rw [hleft, hsize, List.drop_eq_nil_iff]
        omega
      rw [hkeep] at hround
      obtain ⟨rfl, rfl⟩ := EStateM.Result.ok.inj hround
      rw [hnil] at hrest
      cases hrest
      refine ⟨hb.2, hst.pending, _, rfl, ?_, ?_⟩
      · rw [whole, if_pos (by rw [length_encodePacket]; exact hfit), List.map_singleton,
          Delivery.payload, Delivery.packet]
        change [(s.recvBuff.contents.drop 4).take (declared s.recvBuff.contents).toNat] = _
        rw [toNat_declared_encoded hstream (by omega) hsmall, hall, List.take_of_length_le]
        rw [List.length_drop, length_encodePacket]
        omega
      · rw [answers, List.zipIdx_singleton, List.flatMap_singleton]
        exact ⟨ht.flat, ht.valid, ht.empty, ht.told⟩
    · have hready : ¬ Ready s.recvBuff.contents := fun hq => by
        have := hq.2
        omega
      rw [Connection.onRead_round rounds (Connection.onReadRound_stop R hring hready)] at hrun
      cases hrun
      refine ⟨hring.2, rfl, [], (List.append_nil _).symm, ?_, ?_⟩
      · rw [whole, if_neg (by rw [length_encodePacket]; exact hfit)]
        rfl
      · rw [answers, List.zipIdx_nil, List.flatMap_nil, List.append_nil]
        exact h

end Responder

namespace Side
variable {κ : Type} {app : Responder} {K : Ikcp κ} {a a' : Side κ}

/-- A udp side between events: both rings are empty, every receive is offered the
whole ring, and a connected side has one of them outstanding. -/
structure Idle (a : Side κ) : Prop where
  ring : AtStart a.socket.recvBuff a.socket.socket.pending
  dispatched : Connection.Dispatched a.sent a.socket
  listening : a.socket.state = .connected → a.socket.socket.pending.length = 1

structure Begins (a : Side κ) (u : Sock Circle κ) : Prop where
  ring : AtStart u.recvBuff u.socket.pending
  deliveries : u.deliveries = a.socket.deliveries
  dispatched : Connection.Dispatched a.sent u

/-- An event that delivers nothing. -/
theorem Begins.idle {u s : Sock Circle κ} (hring : AtStart u.recvBuff u.socket.pending)
    (hdeliveries : u.deliveries = a.socket.deliveries)
    (haside : Connection.Aside u s) (hdispatched : Connection.Dispatched a.sent s)
    (hlistening : s.state = .connected → s.socket.pending.length = 1) :
    (a.after app s).Idle ∧ (a.after app s).delivered = a.delivered := by
  have hsame := haside.deliveries.trans hdeliveries
  refine ⟨⟨?_, ?_, hlistening⟩, congrArg (List.map _) hsame⟩
  · change AtStart s.recvBuff s.socket.pending
    rw [haside.recvBuff, haside.pending]
    exact hring
  · rw [after_sent hsame]
    exact ⟨hdispatched.flat, hdispatched.valid, hdispatched.empty, hdispatched.told⟩

/-- An event that sends nothing either. -/
theorem Begins.nothing {u s : Sock Circle κ} (hu : a.Begins u) (h : Connection.Handing (encodePacket []) u s)
    (hlistening : s.state = .connected → s.socket.pending.length = 1) :
    (a.after app s).Idle ∧ (a.after app s).delivered = a.delivered := by
  refine Begins.idle hu.ring hu.deliveries h.toAside ?_ hlistening
  refine ⟨h.sendBuff ▸ hu.dispatched.flat, h.sendBuff ▸ hu.dispatched.valid,
    h.sendBuff ▸ hu.dispatched.empty, fun d hd => ?_⟩
  rcases h.told d hd with hd | hd
  · exact hu.dispatched.told d hd
  · exact ⟨[], hd, by decide, .inl rfl⟩

/-- The handler of a receive that got a datagram of one packet. -/
theorem Idle.receive (h : a.Idle) (hup : a.socket.state = .connected) {env : Surroundings} {i : Nat}
    {q : Pending}
    (hq : a.socket.socket.pending[i]? = some q) {p : List UInt8}
    (hsmall : p.length + 4 < 2 ^ 32) {s : Sock Circle κ}
    (hrun : Connection.event .udp K env.rounds (app.callbacks .udp K) (.complete i .success (encodePacket p))
      (Connection.surrounded env a.socket) = .ok () s) :
    (a.after app s).Idle ∧ (a.after app s).delivered = a.delivered ++ whole (encodePacket p) := by
  obtain ⟨ring, hv, hc, hsize, hmax, hreads⟩ := event_reads (K := K) (app.callbacks .udp K)
    (s := Connection.surrounded env a.socket) h.ring hq (encodePacket p) env.rounds
  rw [hreads] at hrun
  obtain ⟨_, v, hread, hlast⟩ := bind_eq_ok.mp hrun
  have hstart : Connection.Dispatched a.sent
      (inHandler (Connection.surrounded env a.socket) i q ring ((encodePacket p).take 1023)) := by
    refine ⟨h.dispatched.flat, h.dispatched.valid, h.dispatched.empty, fun d hd => h.dispatched.told d ?_⟩
    change d ∈ (a.socket.socket.trace ++ [_]).flatMap _ at hd
    rw [List.flatMap_append, List.flatMap_singleton] at hd
    exact (List.mem_append.mp hd).elim id fun hd => absurd hd List.not_mem_nil
  obtain ⟨hdefault, hpending, new, hnew, hwhole, hdispatched⟩ :=
    app.onRead_dispatches hstart ⟨hv, hsize, hmax⟩ hsmall hc hread
  rw [listens hdefault.1 hdefault.2] at hlast
  obtain ⟨-, rfl⟩ := EStateM.Result.ok.inj hlast
  change v.deliveries = a.socket.deliveries ++ new at hnew
  refine ⟨⟨⟨rfl, rfl, hdefault.1, hdefault.2, fun r hr => ?_⟩,
    ⟨hdispatched.flat, hdispatched.valid, hdispatched.empty, fun d hd => ?_⟩, fun _ => ?_⟩, ?_⟩
  · change r ∈ v.socket.pending ++ [_] at hr
    rw [hpending] at hr
    rcases List.mem_append.mp hr with hr | hr
    · exact h.ring.2.2.2.2 r (List.mem_of_mem_eraseIdx hr)
    · rw [List.mem_singleton.mp hr]
  · change d ∈ (v.socket.trace ++ [_]).flatMap _ at hd
    change Carries (a.sent ++ app.answers
      (v.deliveries.drop a.socket.deliveries.length) a.socket.deliveries.length) d
    rw [hnew, List.drop_left]
    rw [List.flatMap_append, List.flatMap_singleton] at hd
    exact (List.mem_append.mp hd).elim (hdispatched.told d) fun hd => absurd hd List.not_mem_nil
  · obtain ⟨hi, -⟩ := List.getElem?_eq_some_iff.mp hq
    have hone := h.listening hup
    change (v.socket.pending ++ [_]).length = 1
    rw [hpending, List.length_append, List.length_singleton]
    change (a.socket.socket.pending.eraseIdx i).length + 1 = 1
    rw [List.length_eraseIdx_of_lt hi, hone]
  · change v.deliveries.map _ = _
    rw [hnew, List.map_append, hwhole]
    rfl

/-- The handler of a receive that failed. -/
theorem Idle.fail (h : a.Idle) {env : Surroundings} {i : Nat}
    (hi : i < a.socket.socket.pending.length) {ec : ErrorCode} (hec : ec ≠ .success)
    {data : List UInt8} {s : Sock Circle κ}
    (hrun : Connection.event .udp K env.rounds (app.callbacks .udp K) (.complete i ec data)
      (Connection.surrounded env a.socket) = .ok () s) :
    (a.after app s).Idle ∧ (a.after app s).delivered = a.delivered := by
  obtain ⟨q, hq⟩ : ∃ q, a.socket.socket.pending[i]? = some q := ⟨_, List.getElem?_eq_getElem hi⟩
  have hpending : (Connection.surrounded env a.socket).socket.pending[i]? = some q := hq
  rw [Connection.event, get_bind, hpending] at hrun
  obtain ⟨_, u, hu, hrun⟩ := bind_eq_ok.mp hrun
  have hbegins : a.Begins u := by
    cases hu
    refine ⟨?_, rfl, h.dispatched.flat, h.dispatched.valid, h.dispatched.empty, h.dispatched.told⟩
    exact ⟨h.ring.1, h.ring.2.1, h.ring.2.2.1, h.ring.2.2.2.1,
      fun r hr => h.ring.2.2.2.2 r (List.mem_of_mem_eraseIdx hr)⟩
  rw [h.ring.2.2.2.2 q (List.mem_of_getElem? hq)] at hrun
  change Connection.handleReceiveUdp _ _ _ _ _ _ _ = _ at hrun
  rw [Connection.handleReceiveUdp, if_pos hec] at hrun
  exact hbegins.nothing ((Connection.handing_close rfl).returns (.refl _ _) hrun) fun hup =>
    absurd hup ((Connection.closeUdp_down rfl).returns trivial hrun)

/-- One event delivers the packets of the datagrams that arrive and fit. -/
theorem Idle.turn {e : ConnectorEvent × Surroundings} (h : a.Idle) (hturn : a.Turn .udp app K e a')
    (harrives : ∀ d ∈ arrivals e.1, ∃ p, d = encodePacket p ∧ p.length + 4 < 2 ^ 32) :
    a'.Idle ∧ a'.delivered = a.delivered ++ (arrivals e.1).flatMap whole := by
  obtain ⟨hup, henabled, hsame, hsmall, s, hrun, rfl⟩ := hturn
  rw [outcome] at hrun
  obtain ⟨event, env⟩ := e
  have hone := h.listening hup
  have hbegins : a.Begins (Connection.surrounded env a.socket) :=
    ⟨h.ring, rfl, h.dispatched.flat, h.dispatched.valid, h.dispatched.empty, h.dispatched.told⟩
  have hnone (hcalled : called event = []) : (⟨a.socket, a.sent ++ called event⟩ : Side κ) = a := by
    rw [hcalled, List.append_nil]
  cases event with
  | call call =>
    change _ ∧ _ = a.delivered ++ []
    rw [List.append_nil]
    cases call with
    | connect => exact absurd rfl hsame
    | disconnect =>
      obtain ⟨_, t, hdisconnect, hrest⟩ := bind_eq_ok.mp hrun
      cases hrest
      rw [hnone rfl]
      have hhanding := (Connection.handing_disconnect rfl).returns (.refl (encodePacket []) _) hdisconnect
      exact hbegins.nothing hhanding fun _ => hhanding.pending ▸ hone
    | send payload =>
      obtain ⟨ht, haside⟩ := (Connection.sends_udp rfl).perform [payload] hsmall hbegins.dispatched hrun
      exact Begins.idle (a := ⟨a.socket, a.sent ++ [payload]⟩) hbegins.ring hbegins.deliveries
        haside ht fun _ => haside.pending ▸ hone
  | complete i ec data =>
    rw [hnone rfl]
    have hi : i < a.socket.socket.pending.length := of_decide_eq_true henabled
    by_cases hec : ec = .success
    · subst hec
      obtain ⟨p, rfl, hp⟩ := harrives data List.mem_cons_self
      change _ ∧ _ = a.delivered ++ List.flatMap whole [encodePacket p]
      rw [List.flatMap_singleton]
      exact h.receive hup (List.getElem?_eq_getElem hi) hp hrun
    · have hlost : arrivals (.complete i ec data) = [] := by
        cases ec with
        | success => exact absurd rfl hec
        | _ => rfl
      rw [hlost, List.flatMap_nil, List.append_nil]
      exact h.fail hi hec hrun
  | tick current =>
    rw [Connection.event, if_neg (by decide)] at hrun
    cases hrun
    rw [hnone rfl]
    change _ ∧ _ = a.delivered ++ []
    rw [List.append_nil]
    exact hbegins.nothing (.refl _ _) fun _ => hone

/-- A udp side whose socket has just been opened. A connector has sent its first datagram. -/
structure Bound (a : Side κ) : Prop where
  up : a.socket.state = .connected
  sent : a.sent = []
  deliveries : a.socket.deliveries = []
  ring : AtStart a.socket.recvBuff a.socket.socket.pending
  listening : a.socket.socket.pending.length = 1
  sendBuff : a.socket.sendBuff = freshBuffer
  told : ∀ d ∈ datagrams a.socket, d = le32 0

theorem Bound.idle (h : a.Bound) : a.Idle := by
  obtain ⟨hv, hc⟩ := freshBuffer_valid
  refine ⟨h.ring, ⟨?_, ?_, ?_, fun d hd => ⟨[], h.told d hd, by decide, .inl rfl⟩⟩, fun _ => h.listening⟩
  · rw [h.sendBuff]
    exact ⟨hv.sound, rfl⟩
  · rw [h.sendBuff]
    exact hv
  · rw [h.sendBuff]
    exact hc

end Side

namespace Link
variable {κ : Type} {apps : Bool → Responder} {K : Ikcp κ} {l l' : Link κ}

def arrived (i : Bool) (events : List (Bool × ConnectorEvent × Surroundings)) : List (List UInt8) :=
  events.flatMap fun e => if e.1 = i then arrivals e.2.1 else []

structure Heard (events : List (Bool × ConnectorEvent × Surroundings)) (l : Link κ) : Prop where
  idle : ∀ i, (l i).Idle
  delivered : ∀ i, (l i).delivered = (arrived i events).flatMap whole
  origin : ∀ i, ∀ p ∈ (l i).delivered, p = [] ∨ p ∈ (l !i).sent

theorem Heard.step {events : List (Bool × ConnectorEvent × Surroundings)}
    {e : Bool × ConnectorEvent × Surroundings}
    (h : Heard events l) (hstep : DatagramStep .udp apps K l e l')
    (hreturns : l.Returns .udp apps K e) : Heard (events ++ [e]) l' := by
  have hcarries : ∀ d ∈ arrivals e.2.1, Carries (l !e.1).sent d :=
    fun d hd => (h.idle !e.1).dispatched.told d (hstep.arrives d hd)
  obtain ⟨hidle, hdelivered⟩ := (h.idle e.1).turn (hstep.turn hreturns) fun d hd => by
    obtain ⟨p, hp, hsmall, -⟩ := hcarries d hd
    exact ⟨p, hp, hsmall⟩
  have hsplit (i : Bool) : arrived i (events ++ [e]) = arrived i events ++ if e.1 =
      i then arrivals e.2.1 else [] := by
    rw [arrived, List.flatMap_append, List.flatMap_singleton]
    rfl
  refine ⟨fun i => ?_, fun i => ?_, fun i p hp => ?_⟩ <;> rcases Bool.eq_or_eq_not i e.1 with rfl | rfl
  · exact hidle
  · rw [hstep.other]
    exact h.idle _
  · rw [hdelivered, h.delivered, hsplit, if_pos rfl, List.flatMap_append]
  · rw [hstep.other, h.delivered, hsplit, if_neg (by cases e.1 <;> decide), List.append_nil]
  · rw [hdelivered] at hp
    rw [hstep.other]
    rcases List.mem_append.mp hp with hp | hp
    · exact h.origin e.1 p hp
    · obtain ⟨d, hd, hwhole⟩ := List.mem_flatMap.mp hp
      obtain ⟨q, rfl, -, hq⟩ := hcarries d hd
      have hsame : p = q := by
        unfold whole at hwhole
        split at hwhole
        · rw [List.mem_singleton.mp hwhole, encodePacket]
          exact List.drop_left' (length_le32 _)
        · cases hwhole
      exact hsame ▸ hq
  · rw [hstep.other] at hp
    refine (h.origin (!e.1) p hp).imp_right fun hmem => ?_
    rw [Bool.not_not] at hmem ⊢
    rw [(hstep.turn hreturns).sent, List.append_assoc]
    exact List.mem_append_left _ hmem

private theorem heard_of_bound (hbound : ∀ i, (l i).Bound) : l.Heard [] := by
  have hnone (i : Bool) : (l i).delivered = [] := by rw [Side.delivered, (hbound i).deliveries, List.map_nil]
  refine ⟨fun i => (hbound i).idle, hnone, fun i p hp => ?_⟩
  rw [hnone] at hp
  cases hp

def bound : Link Unit
  | true => ⟨Connection.afterEvent .udp noKcp connector dialing, []⟩
  | false => match Connection.connected .udp noKcp unheard acceptedSock with
    | .ok _ s => ⟨Connection.settled s, []⟩
    | .error _ s => ⟨s, []⟩

private theorem bound_bound (i : Bool) : (bound i).Bound := by
  have hring : ∀ i, (bound i).socket.recvBuff.head = 0 ∧ (bound i).socket.recvBuff.tail = 0 ∧
      (bound i).socket.recvBuff.data.mem.length = 1024 ∧ (bound i).socket.recvBuff.data.maxSize = 409600 ∧
      ∀ p ∈ (bound i).socket.socket.pending, p.operation = .receive 0 1023 := by decide +kernel
  have hlistening : ∀ i, (bound i).socket.socket.pending.length = 1 := by decide +kernel
  have hstate : ∀ i, (bound i).socket.state = .connected ∧ (bound i).sent = [] ∧
    (bound i).socket.deliveries.length = 0 ∧
      (bound i).socket.sendBuff = freshBuffer ∧ ∀ d ∈ datagrams (bound i).socket, d = le32 0 := by
    decide +kernel
  obtain ⟨hup, hsent, hdeliveries, hsend, htold⟩ := hstate i
  exact ⟨hup, hsent, List.eq_nil_of_length_eq_zero hdeliveries, hring i, hlistening i, hsend, htold⟩

/-- A packet of one integer that arrives twice, and the answer to the second one that arrives. -/
def repeating : List (Bool × ConnectorEvent × Surroundings) :=
  let packet : List UInt8 := [4, 0, 0, 0, 42, 43, 0, 0]
  [(true, .call (.send [42, 43, 0, 0]), { answers := [⟨.success, [], 0⟩] }),
   (false, .complete 0 .success packet, { answers := [⟨.success, [], 0⟩], rounds := 1 }),
   (false, .complete 0 .success packet, { answers := [⟨.success, [], 0⟩], rounds := 1 }),
   (true, .complete 0 .success packet, { rounds := 1 })]

private theorem repeating_runs :
    ∃ l, Run (Where (DatagramStep .udp (fun i => if i then .listener else .mirror) noKcp)
    (Returns .udp (fun i => if i then .listener else .mirror) noKcp)) bound repeating l ∧
    (l false).socket.state = .connected := by
  obtain ⟨l, hl⟩ : ∃ l, repeating.foldlM
      (relay .udp (fun i => if i then .listener else .mirror) noKcp) bound = some l :=
    Option.isSome_iff_exists.mp (by decide +kernel)
  have hup : (repeating.foldlM (relay .udp (fun i => if i then .listener else .mirror) noKcp) bound).map
      (fun l => (l false).socket.state) = some .connected := by decide +kernel
  rw [hl, Option.map_some, Option.some.injEq] at hup
  exact ⟨l, .of_foldlM step_of_relay hl, hup⟩

end Link

/-- Over udp nothing is invented, torn or merged, however the network loses, repeats and
reorders datagrams, as long as every event returns. Each datagram that arrives is the packet it was made of, given
whole if it has at most 1023 bytes and else dropped whole. What a side is given are
packets that the other has sent, or the empty packet with which a connector begins. -/
theorem udp_link_delivers {κ : Type} {apps : Bool → Responder} {K : Ikcp κ} {l₀ l : Link κ}
    (hbound : ∀ i, (l₀ i).Bound)
    {events : List (Bool × ConnectorEvent × Surroundings)}
    (hrun : Run (Where (Link.DatagramStep .udp apps K) (Link.Returns .udp apps K)) l₀ events l) (i : Bool) :
    (l i).delivered = (Link.arrived i events).flatMap whole ∧ ∀ p ∈ (l i).delivered, p = [] ∨
    p ∈ (l !i).sent := by
  have hlast : Link.Heard events l :=
    hrun.history (fun h hstep => h.step hstep.1 hstep.2) (Link.heard_of_bound hbound)
  exact ⟨hlast.delivered i, hlast.origin i⟩

theorem udp_link_delivers_twice :
    ∃ l, Run (Where (Link.DatagramStep .udp (fun i => if i then .listener else .mirror) noKcp)
    (Link.Returns .udp (fun i => if i then .listener else .mirror) noKcp)) Link.bound
    Link.repeating l ∧ (l false).delivered = [[42, 43, 0, 0], [42, 43, 0, 0]] ∧
    ∀ p ∈ (l true).delivered, p = [] ∨ p ∈ (l false).sent := by
  obtain ⟨l, hrun, -⟩ := Link.repeating_runs
  refine ⟨l, hrun, ?_, (udp_link_delivers Link.bound_bound hrun true).2⟩
  rw [(udp_link_delivers Link.bound_bound hrun false).1]
  decide

/-- As long as every event returns, a connected side has one receive outstanding, which is
offered the whole ring. So no datagram can end the receive loop behind the application's back. -/
theorem udp_keeps_listening {κ : Type} {apps : Bool → Responder} {K : Ikcp κ} {l₀ l : Link κ}
    (hbound : ∀ i, (l₀ i).Bound)
    {events : List (Bool × ConnectorEvent × Surroundings)}
    (hrun : Run (Where (Link.DatagramStep .udp apps K) (Link.Returns .udp apps K)) l₀ events l) (i : Bool)
    (hup : (l i).socket.state = .connected) :
    ∃ session, (l i).socket.socket.pending = [⟨.receive 0 1023, session⟩] := by
  have hlast : Link.Heard events l :=
    hrun.history (fun h hstep => h.step hstep.1 hstep.2) (Link.heard_of_bound hbound)
  obtain ⟨p, hp⟩ := List.length_eq_one_iff.mp ((hlast.idle i).listening hup)
  have hop := (hlast.idle i).ring.2.2.2.2 p (by rw [hp]; exact List.mem_cons_self)
  exact ⟨p.session, by rw [hp, ← hop]⟩

theorem udp_keeps_listening_twice :
    ∃ l, Run (Where (Link.DatagramStep .udp (fun i => if i then .listener else .mirror) noKcp)
    (Link.Returns .udp (fun i => if i then .listener else .mirror) noKcp)) Link.bound
    Link.repeating l ∧ ∃ session, (l false).socket.socket.pending = [⟨.receive 0 1023, session⟩] := by
  obtain ⟨l, hrun, hup⟩ := Link.repeating_runs
  exact ⟨l, hrun, udp_keeps_listening Link.bound_bound hrun false hup⟩

end SimpleNetwork
