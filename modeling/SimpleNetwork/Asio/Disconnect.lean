import SimpleNetwork.Asio.Socket
import SimpleNetwork.Reactor.OnRead

/-! A disconnect from inside `on_recv` on a tcp connection. It resets the ring
the loop is working on, and the loop then still removes the packet. -/
namespace SimpleNetwork
open Words

namespace Circle
variable {c : Circle} (h : c.Valid)
include h

/-- Removing from a ring that was just reset: the count comes out as the rest
of the capacity, and only a removal of nothing leaves the ring empty. -/
theorem reset_remove {n : UInt64} (hn : n.toNat < c.data.mem.length) :
    ∃ c', remove n c.reset = .ok () c' ∧ c'.Valid ∧ (c'.getCount = 0 ↔ n.toNat = 0) := by
  have hs : (c.reset).getSize.toNat = c.data.mem.length := h.reset.1.toNat_getSize
  have hl := h.size_le
  have hhead : (((0 : UInt64) + n) % (c.reset).getSize).toNat = n.toNat := by
    rw [UInt64.zero_add, UInt64.toNat_mod, hs, Nat.mod_eq_of_lt hn]
  have hv : Valid { c.reset with head := (0 + n) % (c.reset).getSize } :=
    ⟨h.pow, h.growth, by rw [hhead]; exact hn, h.reset.1.tail_lt⟩
  refine ⟨{ c.reset with head := (0 + n) % (c.reset).getSize }, rfl, hv, ?_⟩
  rw [← UInt64.toNat_inj, hv.toNat_getCount, UInt64.toNat_zero]
  have hcount : (ring _ hv).count = if n.toNat ≤ 0 then 0 - n.toNat else 0 + c.data.mem.length - n.toNat := by
    rw [← hhead]
    rfl
  rw [hcount]
  split <;> omega

end Circle

section Session
variable {κ : Type}

/-- Code that returns and leaves `recv_buff_` alone. -/
def KeepsRecv (x : EStateM Fault (Sock Circle κ) Unit) : Prop :=
  ∀ s, ∃ s', x s = .ok () s' ∧ s'.recvBuff = s.recvBuff ∧ s'.deliveries = s.deliveries

/-- Such code that also leaves the session as it is. -/
def KeepsSession (x : EStateM Fault (Sock Circle κ) Unit) : Prop :=
  ∀ s, ∃ s', x s = .ok () s' ∧ s'.recvBuff = s.recvBuff ∧ s'.deliveries = s.deliveries ∧ s'.state = s.state

/-- The application calls `disconnect()` in its `on_recv` number `i` and keeps
the session in the calls before. Nothing is said about later calls. -/
structure DisconnectsAt (cb : Callbacks Circle κ) (i : Nat) : Prop where
  earlier : ∀ j < i, ∀ r, KeepsSession (cb.onRecv j r)
  calls : ∀ r, ∃ before after, KeepsSession before ∧ KeepsRecv after ∧ cb.onRecv i r = (do
    before
    Connection.disconnect .tcp cb
    after)
  notified : KeepsRecv cb.onDisconnected
  logged : ∀ j r s s', cb.onRecv j r s = .ok () s' → s'.deliveries = s.deliveries

/-- The running `on_read` returns after exactly `k + 1` further calls of
`on_recv`, with an empty `recv_buff_`. -/
def FinalAfter (cb : Callbacks Circle κ) (k : Nat) (s : Sock Circle κ) : Prop :=
  ∃ fuel s', Connection.onRead cb.onRecv fuel s = .ok () s' ∧
    s'.deliveries.length = s.deliveries.length + k + 1 ∧ s'.recvBuff.getCount = 0

def unread : Nat → List UInt8 → List UInt8
  | 0, q => q
  | k + 1, q => unread k (q.drop (packetSize q))

namespace Connection
variable {cb : Callbacks Circle κ} {s : Sock Circle κ}

/-- A tcp disconnect of a live session empties `recv_buff_`. -/
theorem disconnect_tcp (hn : KeepsRecv cb.onDisconnected) (hlive : s.state ≠ .disconnected) :
    ∃ s', disconnect .tcp cb s = .ok () s' ∧ s'.recvBuff = s.recvBuff.reset ∧
      s'.deliveries = s.deliveries := by
  unfold disconnect
  rw [Outcome.get_bind, if_neg hlive]
  simp only [setState, close, resetRecv, resetSend, closeSocket, onClose, note, socketDo, bind_assoc,
    Outcome.modify_bind, Outcome.get_bind, reduceCtorEq, if_false, pure_bind]
  obtain ⟨t, ht, hr, hd⟩ := hn _
  exact ⟨t, ht, hr, hd⟩

/-- The effect of the disconnecting `on_recv`. -/
theorem onRecv_disconnects {i : Nat} (hcb : DisconnectsAt cb i) (r : Reader)
    (hlive : s.state ≠ .disconnected) :
    ∃ s', cb.onRecv i r s = .ok () s' ∧ s'.recvBuff = s.recvBuff.reset ∧ s'.deliveries = s.deliveries := by
  obtain ⟨before, after, hbefore, hafter, hcall⟩ := hcb.calls r
  obtain ⟨t, ht, htr, htd, hts⟩ := hbefore s
  obtain ⟨u, hu, hur, hud⟩ := disconnect_tcp hcb.notified (s := t) (by rw [hts]; exact hlive)
  obtain ⟨v, hv, hvr, hvd⟩ := hafter u
  refine ⟨v, ?_, by rw [hvr, hur, htr], by rw [hvd, hud, htd]⟩
  rw [hcall, Outcome.bind_ok ht, Outcome.bind_ok hu, hv]

/-- The round that disconnects: the loop goes on unless the size wrapped to zero. -/
theorem onReadRound_disconnects (hv : s.recvBuff.Valid) (hcb : DisconnectsAt cb s.deliveries.length)
    (hlive : s.state ≠ .disconnected) (hq : Ready s.recvBuff.contents) :
    ∃ s', onReadRound cb.onRecv s = .ok (decide (packetSize s.recvBuff.contents ≠ 0)) s' ∧ s'.recvBuff.Valid ∧
      s'.deliveries.length = s.deliveries.length + 1 ∧
      (s'.recvBuff.getCount = 0 ↔ packetSize s.recvBuff.contents = 0) := by
  have hlt := hv.length_lt
  have hl := hv.size_le
  have hsize : (UInt64.ofNat (packetSize s.recvBuff.contents)).toNat = packetSize s.recvBuff.contents :=
    toNat_ofNat_of_lt (by unfold packetSize; omega)
  have hfit := hq.2
  obtain ⟨t, ht, htr, htd⟩ := onRecv_disconnects hcb ⟨0, 4, declared s.recvBuff.contents⟩ hlive
  obtain ⟨c, hc, hcv, hzero⟩ := Circle.reset_remove hv (n := UInt64.ofNat (packetSize s.recvBuff.contents))
    (by rw [hsize]; omega)
  rw [hsize] at hzero
  have hrun : recv (Buffer.remove (UInt64.ofNat (packetSize s.recvBuff.contents))) t =
      .ok () { t with recvBuff := c } := recv_ok (by rw [htr]; exact hc)
  refine ⟨{ t with
    recvBuff := c
    deliveries := t.deliveries ++ [⟨⟨0, 4, declared s.recvBuff.contents⟩, s.recvBuff, c⟩] }, ?_,
      hcv, ?_, hzero⟩
  · rw [onReadRound_call (circle_reads fun _ => True) ⟨hv, trivial⟩ hq, Outcome.bind_ok ht,
      Outcome.bind_ok hrun,
      Outcome.modify_bind, Outcome.get_bind, Outcome.pure_run]
    congr 1
    exact decide_eq_decide.mpr (not_congr hzero)
  · rw [List.length_append, htd]
    rfl

section Log
variable (hlog : ∀ j r s s', cb.onRecv j r s = .ok () s' → s'.deliveries = s.deliveries)

private theorem recv_deliveries {α : Type} {x : EStateM Fault Circle α} {a : α} {s' : Sock Circle κ}
    (hrun : recv x s = .ok a s') : s'.deliveries = s.deliveries := by
  unfold recv Outcome.zoom at hrun
  split at hrun
  · cases hrun
    rfl
  · cases hrun

include hlog

/-- A delivering round adds one entry to the log, whatever its callback did. -/
theorem onReadRound_grows (hv : s.recvBuff.Valid) (hq : Ready s.recvBuff.contents) {more : Bool}
    {s' : Sock Circle κ} (hrun : onReadRound cb.onRecv s = .ok more s') :
    s'.deliveries.length = s.deliveries.length + 1 := by
  rw [onReadRound_call (circle_reads fun _ => True) ⟨hv, trivial⟩ hq] at hrun
  obtain ⟨_, t, ht, hrun⟩ := Outcome.bind_eq_ok.mp hrun
  obtain ⟨_, u, hu, hrun⟩ := Outcome.bind_eq_ok.mp hrun
  cases hrun
  rw [List.length_append, recv_deliveries hu, hlog _ _ _ _ ht]
  rfl

/-- No round takes entries back. -/
theorem onReadRound_log {more : Bool} {s' : Sock Circle κ} (hrun : onReadRound cb.onRecv s = .ok more s') :
    s.deliveries.length ≤ s'.deliveries.length := by
  unfold onReadRound at hrun
  rw [Outcome.get_bind] at hrun
  split at hrun
  · cases hrun
    exact Nat.le_refl _
  · obtain ⟨_, t, ht, hrun⟩ := Outcome.bind_eq_ok.mp hrun
    have htd := recv_deliveries ht
    rw [Outcome.get_bind] at hrun
    split at hrun
    · cases hrun
      exact Nat.le_of_eq (congrArg List.length htd.symm)
    · obtain ⟨_, u, hu, hrun⟩ := Outcome.bind_eq_ok.mp hrun
      rw [Outcome.get_bind] at hrun
      obtain ⟨_, v, hv, hrun⟩ := Outcome.bind_eq_ok.mp hrun
      obtain ⟨_, w, hw, hrun⟩ := Outcome.bind_eq_ok.mp hrun
      cases hrun
      rw [List.length_append, recv_deliveries hw, hlog _ _ _ _ hv, recv_deliveries hu, htd]
      exact Nat.le_add_right _ _

private theorem onRead_log {fuel : Nat} {s' : Sock Circle κ} (hrun : onRead cb.onRecv fuel s = .ok () s') :
    s.deliveries.length ≤ s'.deliveries.length := by
  induction fuel generalizing s with
  | zero => cases hrun
  | succ fuel ih =>
    obtain ⟨more, t, ht, hrun⟩ := Outcome.bind_eq_ok.mp hrun
    have hround := onReadRound_log hlog ht
    cases more with
    | true => exact Nat.le_trans hround (ih hrun)
    | false =>
      cases hrun
      exact hround

end Log
end Connection

variable {cb : Callbacks Circle κ} {s : Sock Circle κ}

/-- A non-zero packet size leaves stale bytes in the reset ring, and the loop
either delivers one of them or returns with them. -/
theorem not_finalAfter_of_size (hv : s.recvBuff.Valid) (hcb : DisconnectsAt cb s.deliveries.length)
    (hlive : s.state ≠ .disconnected) (hq : Ready s.recvBuff.contents)
    (hsize : packetSize s.recvBuff.contents ≠ 0) :
    ¬ FinalAfter cb 0 s := by
  rintro ⟨fuel, s', hrun, hlen, hempty⟩
  obtain ⟨t, ht, htv, htl, htz⟩ := Connection.onReadRound_disconnects hv hcb hlive hq
  rw [decide_eq_true hsize] at ht
  cases fuel with
  | zero => cases hrun
  | succ fuel =>
    rw [Connection.onRead_round fuel ht, if_pos rfl] at hrun
    cases fuel with
    | zero => cases hrun
    | succ fuel =>
      by_cases hr : Ready t.recvBuff.contents
      · obtain ⟨more, u, hu, hrun⟩ := Outcome.bind_eq_ok.mp hrun
        have hgrow := Connection.onReadRound_grows hcb.logged htv hr hu
        have hrest : u.deliveries.length ≤ s'.deliveries.length := by
          cases more with
          | true => exact Connection.onRead_log hcb.logged hrun
          | false =>
            cases hrun
            exact Nat.le_refl _
        omega
      · rw [Connection.onRead_round fuel (Connection.onReadRound_stop (circle_reads fun _ => True)
          ⟨htv, trivial⟩ hr)] at hrun
        cases hrun
        exact hsize (htz.mp hempty)

private theorem finalAfter_of_size (hv : s.recvBuff.Valid) (hcb : DisconnectsAt cb s.deliveries.length)
    (hlive : s.state ≠ .disconnected) (hq : Ready s.recvBuff.contents)
    (hsize : packetSize s.recvBuff.contents = 0) :
    FinalAfter cb 0 s := by
  obtain ⟨t, ht, -, htl, htz⟩ := Connection.onReadRound_disconnects hv hcb hlive hq
  refine ⟨1, t, ?_, htl, htz.mpr hsize⟩
  rw [Connection.onRead_round 0 ht, hsize]
  rfl

/-- A round that delivers and goes on only moves the question one packet further. -/
theorem finalAfter_succ {k : Nat} {t : Sock Circle κ}
    (hround : Connection.onReadRound cb.onRecv s = .ok true t)
    (hlen : t.deliveries.length = s.deliveries.length + 1) : FinalAfter cb (k + 1) s ↔ FinalAfter cb k t := by
  constructor
  · rintro ⟨fuel, s', hrun, hd, hz⟩
    cases fuel with
    | zero => cases hrun
    | succ fuel =>
      rw [Connection.onRead_round fuel hround, if_pos rfl] at hrun
      exact ⟨fuel, s', hrun, by omega, hz⟩
  · rintro ⟨fuel, s', hrun, hd, hz⟩
    exact ⟨fuel + 1, s', by rw [Connection.onRead_round fuel hround, if_pos rfl, hrun], by omega, hz⟩

private theorem packetSize_eq_zero (q : List UInt8) : packetSize q = 0 ↔ (declared q).toNat = 2 ^ 32 - 4 := by
  have hlt := (declared q).toNat_lt
  unfold packetSize
  omega

end Session

/-- Disconnecting in the `on_recv` of packet `k` is final exactly when that
packet declares 2^32-4 bytes, so that the size removed afterwards is zero. -/
theorem disconnect_final_iff {κ : Type} {cb : Callbacks Circle κ} {s : Sock Circle κ} (hv : s.recvBuff.Valid)
    (hlive : s.state ≠ .disconnected) {k : Nat} (hk : ∀ i ≤ k, Ready (unread i s.recvBuff.contents))
    (hcb : DisconnectsAt cb (s.deliveries.length + k)) :
    FinalAfter cb k s ↔ (declared (unread k s.recvBuff.contents)).toNat = 2 ^ 32 - 4 := by
  induction k generalizing s with
  | zero =>
    have hq := hk 0 (Nat.le_refl 0)
    rw [← packetSize_eq_zero]
    constructor
    · intro hfinal
      exact not_not.mp fun hsize => not_finalAfter_of_size hv hcb hlive hq hsize hfinal
    · exact finalAfter_of_size hv hcb hlive hq
  | succ k ih =>
    have hq := hk 0 (Nat.zero_le _)
    obtain ⟨t, ht, htr, htd, hts⟩ := hcb.earlier s.deliveries.length (by omega)
      ⟨0, 4, declared s.recvBuff.contents⟩ s
    obtain ⟨b, hb, hbc, hround⟩ :=
      Connection.onReadRound_keep (circle_reads fun _ => True) ⟨hv, trivial⟩ hq ht htr htd
    have hnext := hk 1 (by omega)
    have hmore : b.contents ≠ [] := by
      intro hnil
      rw [unread, unread, ← hbc, hnil] at hnext
      exact absurd hnext.1 (by decide)
    rw [decide_eq_true hmore] at hround
    rw [finalAfter_succ hround (by simp), ih hb.1 (by rw [hts]; exact hlive)]
    · rw [hbc, unread]
    · intro i hi
      have := hk (i + 1) (by omega)
      rw [unread, ← hbc] at this
      exact this
    · have hindex : s.deliveries.length + (k + 1) = s.deliveries.length + 1 + k := by omega
      rw [hindex] at hcb
      simpa using hcb

def quitter : Callbacks Circle Unit :=
  ⟨pure (), pure (), fun _ _ => Connection.disconnect .tcp ⟨pure (), pure (), silent⟩⟩

/-- A connected tcp connection whose fresh receive buffer got the given bytes. -/
def tcpReceived (bytes : List UInt8) : Sock Circle Unit :=
  ⟨.connected, Circle.loaded bytes, freshBuffer, {}, []⟩

private theorem quitter_disconnects : DisconnectsAt quitter 0 where
  earlier j hj := absurd hj (Nat.not_lt_zero j)
  calls _ := ⟨pure (), pure (), fun s => ⟨s, rfl, rfl, rfl, rfl⟩, fun s => ⟨s, rfl, rfl, rfl⟩, by
    rw [pure_bind, bind_pure_unit]
    rfl⟩
  notified s := ⟨s, rfl, rfl, rfl⟩
  logged j r s s' hrun := by
    by_cases hlive : s.state = .disconnected
    · change Connection.disconnect .tcp _ s = _ at hrun
      rw [Connection.disconnect, Outcome.get_bind, if_pos hlive] at hrun
      cases hrun
      rfl
    · have hcalm : KeepsRecv (Callbacks.onDisconnected ⟨pure (), pure (), silent⟩ : EStateM Fault
          (Sock Circle Unit) Unit) :=
        fun s => ⟨s, rfl, rfl, rfl⟩
      obtain ⟨t, ht, -, htd⟩ := Connection.disconnect_tcp hcalm hlive
      change Connection.disconnect .tcp _ s = _ at hrun
      rw [ht] at hrun
      cases hrun
      exact htd

/-- One empty packet: the disconnect leaves 1020 stale bytes behind. -/
theorem disconnect_one_packet :
    Ready (tcpReceived [0, 0, 0, 0]).recvBuff.contents ∧
      ¬ FinalAfter quitter 0 (tcpReceived [0, 0, 0, 0]) := by
  obtain ⟨hv, hc⟩ := Circle.loaded_valid [0, 0, 0, 0] (by decide)
  have hq : Ready (tcpReceived [0, 0, 0, 0]).recvBuff.contents := by
    change Ready (Circle.loaded [0, 0, 0, 0]).contents
    rw [hc]
    decide
  refine ⟨hq, not_finalAfter_of_size hv quitter_disconnects (by decide) hq ?_⟩
  change packetSize (Circle.loaded [0, 0, 0, 0]).contents ≠ 0
  rw [hc]
  decide

/-- The one prefix that makes it final. -/
theorem disconnect_final_wrapped :
    Ready (tcpReceived [0xFC, 0xFF, 0xFF, 0xFF]).recvBuff.contents ∧
      FinalAfter quitter 0 (tcpReceived [0xFC, 0xFF, 0xFF, 0xFF]) := by
  obtain ⟨hv, hc⟩ := Circle.loaded_valid [0xFC, 0xFF, 0xFF, 0xFF] (by decide)
  have hc' : (tcpReceived [0xFC, 0xFF, 0xFF, 0xFF]).recvBuff.contents = [0xFC, 0xFF, 0xFF, 0xFF] := hc
  have hq : Ready (tcpReceived [0xFC, 0xFF, 0xFF, 0xFF]).recvBuff.contents := by
    rw [hc']
    decide
  refine ⟨hq, (disconnect_final_iff (k := 0) hv (by decide) ?_ quitter_disconnects).mpr ?_⟩
  · intro i hi
    obtain rfl := Nat.le_zero.mp hi
    exact hq
  · rw [hc']
    decide

end SimpleNetwork
