import SimpleNetwork.Asio.Answers
import SimpleNetwork.Asio.KcpSend
import SimpleNetwork.Asio.KcpUpdate
import SimpleNetwork.Asio.Peers
import SimpleNetwork.Asio.SendPacket

/-! One side of a kcp connection between its opening and its close. Each event keeps
the rings, the packets that went through them and the history of the control block in step. -/
namespace SimpleNetwork
open Words Outcome Relation

namespace Ikcp
variable {κ : Type} {K : Ikcp κ}

/-- What messages sent one after the other do to the history. -/
theorem offer_recorded (heard : List (List UInt8)) (p : Peer κ) {messages : List (List UInt8)}
    (hbytes : ∀ m ∈ messages, m ≠ []) :
    ReflTransGen (K.PeerStep heard) p (K.recorded.offer p messages) ∧
      (K.recorded.offer p messages).offered = p.offered ++ messages ∧
      (K.recorded.offer p messages).handed = p.handed ∧
        (K.recorded.offer p messages).datagrams = p.datagrams := by
  induction messages generalizing p with
  | nil => exact ⟨.refl, (List.append_nil _).symm, rfl, rfl⟩
  | cons m messages ih =>
    obtain ⟨hsteps, hoffered, hhanded, hdatagrams⟩ :=
      ih (K.recorded.send p m).2 fun n hn => hbytes n (List.mem_cons_of_mem _ hn)
    refine ⟨.head (.send p (hbytes m List.mem_cons_self)) hsteps, hoffered.trans ?_, hhanded, hdatagrams⟩
    exact (List.append_cons _ _ _).symm

end Ikcp

namespace Connection
variable {κ : Type} {K : Ikcp κ} {s s' : Sock Circle κ}

/-- `do_write()` that returns has sent all of the ring, if there is a control block. -/
theorem doWriteKcp_eq_ok {fuel : Nat} (h : s.sendBuff.Valid) (hrun : doWriteKcp K fuel s = .ok () s') :
    s.socket.kcp = none ∧ s' = s ∨ ∃ block c messages, s.socket.kcp = some block ∧
      s' = s.handedOver c (K.offer block messages) ∧
      c.Valid ∧ c.data = s.sendBuff.data ∧ c.contents = [] ∧
        messages.flatten = s.sendBuff.contents ∧ ∀ m ∈ messages, m ≠ [] := by
  induction fuel generalizing s with
  | zero => cases hrun
  | succ fuel ih =>
    cases hk : s.socket.kcp with
    | none =>
      rw [doWriteKcp, get_bind, hk] at hrun
      cases hrun
      exact .inl ⟨rfl, rfl⟩
    | some block =>
      by_cases hnil : s.sendBuff.contents = []
      · rw [doWriteKcp_empty K fuel h hnil] at hrun
        cases hrun
        refine .inr ⟨block, s'.sendBuff, [], rfl, (handedOver_same hk).symm, h, rfl, hnil,
          hnil.symm, fun _ hm => ?_⟩
        exact absurd hm List.not_mem_nil
      · have hle : s.sendBuff.getContinguiousCount.toNat ≤ s.sendBuff.contents.length := by
          rw [h.toNat_startRun]
          exact Nat.min_le_left _ _
        obtain ⟨c, hremove, hv, hc, hdata⟩ := Circle.remove_spec h hle
        rw [doWriteKcp_message K fuel h hk hnil hremove] at hrun
        rcases ih (s := s.handedOver c _) hv hrun with
          ⟨hnone, -⟩ | ⟨block', d, messages, hsome, rfl, hd, hddata, hend, hflat, hbytes⟩
        · cases hnone
        · cases hsome
          refine .inr ⟨block, d, _ :: messages, rfl, rfl, hd, hddata.trans hdata, hend, ?_, ?_⟩
          · rw [List.flatten_cons, hflat]
            change _ ++ c.contents = _
            rw [hc, List.take_append_drop]
          · refine List.forall_mem_cons.mpr ⟨fun htake => ?_, hbytes⟩
            have hlen := congrArg List.length htake
            have hpos := List.length_pos_iff.mpr hnil
            have hhead := h.head_lt
            rw [List.length_take, h.toNat_startRun, List.length_nil] at hlen
            omega

end Connection

section Talking
variable {κ : Type} (K : Ikcp κ) (conv : UInt32)

def peer (s : Sock Circle (Peer κ)) : Peer κ := s.socket.kcp.getD (K.recorded.create conv)

/-- What holds of a kcp socket while its session lasts, when the given packets have been sent. -/
structure Talking (packets : List (List UInt8)) (s : Sock Circle (Peer κ)) : Prop where
  ring : s.recvBuff.Valid ∧ Laddered s.recvBuff.data
  sends : s.sendBuff.Valid ∧ Laddered s.sendBuff.data
  sent : (peer K conv s).offered.flatten ++ s.sendBuff.contents = encodePackets packets
  accounts : Accounts Circle.contents (peer K conv s).handed.flatten s.deliveries s.recvBuff.contents
  small : ∀ p ∈ packets, p.length + 4 ≤ ringLimit
  told : ∀ d ∈ datagrams s, d = le32 0 ∨ d ∈ (peer K conv s).datagrams

structure Called (heard : List (List UInt8)) (s s' : Sock Circle (Peer κ)) : Prop where
  recvBuff : s'.recvBuff = s.recvBuff
  deliveries : s'.deliveries = s.deliveries
  state : s'.state = s.state
  datagrams : datagrams s' = datagrams s
  steps : ReflTransGen (K.PeerStep heard) (peer K conv s) (peer K conv s')

variable {K conv} {heard : List (List UInt8)} {packets : List (List UInt8)} {cb : Callbacks Circle (Peer κ)}
  {s s' : Sock Circle (Peer κ)}

theorem Called.refl (s : Sock Circle (Peer κ)) : Called K conv heard s s := ⟨rfl, rfl, rfl, rfl, .refl⟩

theorem Called.trans {s'' : Sock Circle (Peer κ)} (h : Called K conv heard s s')
    (h' : Called K conv heard s' s'') :
    Called K conv heard s s'' :=
  ⟨h'.recvBuff.trans h.recvBuff, h'.deliveries.trans h.deliveries, h'.state.trans h.state,
    h'.datagrams.trans h.datagrams,
    h.steps.trans h'.steps⟩

/-- The condition looks at the rings, the deliveries, and the messages and datagrams of the history. -/
theorem Talking.congr (h : Talking K conv packets s) (hrecv : s'.recvBuff = s.recvBuff)
    (hsend : s'.sendBuff = s.sendBuff)
    (hdeliveries : s'.deliveries = s.deliveries) (hpeer : (peer K conv s).Alike (peer K conv s'))
    (htold : ∀ d ∈ datagrams s', d = le32 0 ∨ d ∈ (peer K conv s').datagrams) : Talking K conv
    packets s' where
  ring := hrecv ▸ h.ring
  sends := hsend ▸ h.sends
  sent := by
    rw [hpeer.offered, hsend]
    exact h.sent
  accounts := by
    rw [hpeer.handed, hrecv, hdeliveries]
    exact h.accounts
  small := h.small
  told := htold

/-- `do_write()` takes bytes from the ring to the library, and nothing else. -/
theorem Talking.doWrite (h : Talking K conv packets s) (heard : List (List UInt8))
    (hrun : Connection.doWrite .kcp K.recorded cb s = .ok () s') :
    Talking K conv packets s' ∧ Called K conv heard s s' ∧
      (s'.sendBuff = s.sendBuff ∨ s'.sendBuff.Valid ∧ s'.sendBuff.contents = []) := by
  rw [Connection.doWrite_kcp] at hrun
  rcases Connection.doWriteKcp_eq_ok h.sends.1 hrun with
    ⟨-, rfl⟩ | ⟨p, c, messages, hk, rfl, hv, hdata, hnil, hflat, hbytes⟩
  · exact ⟨h, .refl s', .inl rfl⟩
  · have hbefore : peer K conv s = p := by rw [peer, hk, Option.getD_some]
    obtain ⟨hsteps, hoffered, hhanded, hdatagrams⟩ := Ikcp.offer_recorded (K := K) heard p hbytes
    refine ⟨⟨h.ring, ⟨hv, hdata ▸ h.sends.2⟩, ?_, ?_, h.small, fun d hd => ?_⟩,
      ⟨rfl, rfl, rfl, rfl, ?_⟩, .inr ⟨hv, hnil⟩⟩
    · change (K.recorded.offer p messages).offered.flatten ++ c.contents = _
      rw [hoffered, hnil, List.append_nil, List.flatten_append, hflat, ← hbefore]
      exact h.sent
    · change Accounts _ (K.recorded.offer p messages).handed.flatten _ _
      rw [hhanded, ← hbefore]
      exact h.accounts
    · change d = le32 0 ∨ d ∈ (K.recorded.offer p messages).datagrams
      rw [hdatagrams, ← hbefore]
      exact h.told d hd
    · rw [hbefore]
      exact hsteps

/-- A send that returns has put the packet behind the others. -/
theorem Talking.sendPacket {payload : List UInt8} (h : Talking K conv packets s)
    (hsize : payload.length < 2 ^ 64)
    (hrun : Connection.sendPacket .kcp K.recorded cb payload s = .ok () s') :
    Talking K conv (packets ++ [payload]) s' ∧ Called K conv heard s s' := by
  obtain ⟨b, w, u, hv, hc, hhead, ⟨p, hmade⟩, hwrite, hdestroy⟩ :=
    Connection.sendPacket_eq_ok h.sends.1 hsize hrun
  have hwritten : Keeps (Circle.Sized Ladder) (Connection.writePacket payload) (Circle.Sized Ladder) :=
    .bind rungs.opened fun w => .bind (rungs.put w payload) fun w => rungs.flush w
  have hladder : Laddered b.data := hwritten.returns h.sends.2 hmade
  have hstart : Talking K conv (packets ++ [payload]) { s with sendBuff := b } := by
    refine ⟨h.ring, ⟨hv, hladder⟩, ?_, h.accounts, fun q hq => ?_, h.told⟩
    · change _ ++ b.contents = _
      rw [hc, ← List.append_assoc, encodePackets, List.flatMap_append, List.flatMap_singleton]
      exact congrArg (· ++ encodePacket payload) h.sent
    · rcases List.mem_append.mp hq with hq | hq
      · exact h.small q hq
      · have hlt := hv.length_lt
        have hle := hladder.le
        rw [hc, List.length_append, length_encodePacket] at hlt
        rw [List.mem_singleton.mp hq]
        unfold ringLimit
        omega
  have hopened : Called K conv heard s { s with sendBuff := b } := ⟨rfl, rfl, rfl, rfl, .refl⟩
  obtain ⟨hu, hcalled, hring⟩ := hstart.doWrite heard hwrite
  rw [Connection.destroy_after hv hc hhead hring] at hdestroy
  obtain ⟨-, rfl⟩ := EStateM.Result.ok.inj hdestroy
  exact ⟨hu, hopened.trans hcalled⟩

private theorem sends_kcp : Sends .kcp K.recorded cb (Called K conv heard) (Talking K conv) where
  refl := .refl
  trans := .trans
  recvBuff h := h.recvBuff
  deliveries h := h.deliveries
  packet h hsize hrun := h.sendPacket hsize hrun

/-- The packet at the front is delivered and removed. -/
theorem Talking.deliver (h : Talking K conv packets s) (hready : Ready s.recvBuff.contents) {b : Circle}
    (hb : b.Valid ∧ Laddered b.data)
    (hc : b.contents = s.recvBuff.contents.drop (packetSize s.recvBuff.contents)) :
    Talking K conv packets { s with
      recvBuff := b
      deliveries := s.deliveries ++ [⟨⟨0, 4, declared s.recvBuff.contents⟩, s.recvBuff, b⟩] } where
  ring := hb
  sends := h.sends
  sent := h.sent
  accounts := by
    change Accounts _ _ _ b.contents
    rw [hc]
    exact h.accounts.deliver rfl hready rfl
  small := h.small
  told := h.told

/-- The space query changes the ring, but not what is in it. -/
theorem Talking.regrown (h : Talking K conv packets s) {b : Circle} (hb : b.Valid ∧ Laddered b.data)
    (hc : b.contents = s.recvBuff.contents) : Talking K conv packets { s with recvBuff := b } where
  ring := hb
  sends := h.sends
  sent := h.sent
  accounts := by
    change Accounts _ _ _ b.contents
    rw [hc]
    exact h.accounts
  small := h.small
  told := h.told

/-- A message is copied behind what is in the ring. -/
theorem Talking.arrive (h : Talking K conv packets s) {b : Circle} (hb : b.Valid ∧ Laddered b.data)
    {bytes : List UInt8}
    (hc : b.contents = s.recvBuff.contents ++ bytes) {p : Peer κ}
    (hoffered : p.offered = (peer K conv s).offered)
    (hhanded : p.handed = (peer K conv s).handed ++ [bytes])
    (hdatagrams : p.datagrams = (peer K conv s).datagrams) :
    Talking K conv packets { s with recvBuff := b, socket := { s.socket with kcp := some p } } where
  ring := hb
  sends := h.sends
  sent := by
    change p.offered.flatten ++ _ = _
    rw [hoffered]
    exact h.sent
  accounts := by
    change Accounts _ p.handed.flatten _ b.contents
    rw [hhanded, hc, List.flatten_append, List.flatten_cons, List.flatten_nil, List.append_nil]
    exact h.accounts.arrive bytes
  small := h.small
  told := by
    change ∀ d ∈ datagrams s, d = le32 0 ∨ d ∈ p.datagrams
    rw [hdatagrams]
    exact h.told

def Underway (K : Ikcp κ) (conv : UInt32) (heard : List (List UInt8)) (p : Peer κ)
    (packets : List (List UInt8))
    (s : Sock Circle (Peer κ)) : Prop :=
  Talking K conv packets s ∧ ReflTransGen (K.PeerStep heard) p (peer K conv s) ∧ s.state = .connected

variable {p : Peer κ}

theorem Underway.congr (h : Underway K conv heard p packets s) (hrecv : s'.recvBuff = s.recvBuff)
    (hsend : s'.sendBuff = s.sendBuff)
    (hdeliveries : s'.deliveries = s.deliveries) (hstate : s'.state = s.state)
    (hpeer : peer K conv s' = peer K conv s)
    (hdatagrams : datagrams s' = datagrams s) : Underway K conv heard p packets s' := by
  refine ⟨h.1.congr hrecv hsend hdeliveries ?_ ?_, hpeer ▸ h.2.1, hstate.trans h.2.2⟩
  · rw [hpeer]
    exact ⟨rfl, rfl, rfl⟩
  · rw [hdatagrams, hpeer]
    exact h.1.told

/-- A datagram is fed to the control block, if there is one. -/
theorem Underway.input (h : Underway K conv heard p packets s) {data : List UInt8} (hdata : data ∈ heard)
    (hrecv : s'.recvBuff = s.recvBuff) (hsend : s'.sendBuff = s.sendBuff)
    (hdeliveries : s'.deliveries = s.deliveries)
    (hstate : s'.state = s.state) (hkcp : s'.socket.kcp = s.socket.kcp.map fun p => K.recorded.input p data)
    (hdatagrams : datagrams s' = datagrams s) : Underway K conv heard p packets s' := by
  cases hk : s.socket.kcp with
  | none =>
    refine h.congr hrecv hsend hdeliveries hstate ?_ hdatagrams
    rw [peer, peer, hkcp, hk]
    rfl
  | some q =>
    have hpeer : peer K conv s = q := by rw [peer, hk, Option.getD_some]
    have hfed : peer K conv s' = K.recorded.input q data := by
      rw [peer, hkcp, hk]
      rfl
    refine ⟨h.1.congr hrecv hsend hdeliveries ?_ ?_, ?_, hstate.trans h.2.2⟩
    · rw [hpeer, hfed]
      exact ⟨rfl, rfl, rfl⟩
    · rw [hdatagrams, hfed]
      exact hpeer ▸ h.1.told
    · rw [hfed]
      exact (hpeer ▸ h.2.1).tail (.input q hdata)

private theorem sends_underway : Sends .kcp K.recorded cb (Called K conv heard) (Underway K conv heard p) :=
  sends_kcp.also fun hframe h => ⟨h.1.trans hframe.steps, hframe.state.trans h.2⟩

private theorem delivers_underway : Responder.Delivers (Underway K conv heard p) where
  ring h := h.1.ring
  deliver h hready hb hc := ⟨h.1.deliver hready hb hc, h.2⟩

structure Passed (ds : List (List UInt8)) (s s' : Sock Circle (Peer κ)) : Prop where
  recvBuff : s'.recvBuff = s.recvBuff
  sendBuff : s'.sendBuff = s.sendBuff
  deliveries : s'.deliveries = s.deliveries
  state : s'.state = s.state
  told : ∀ d ∈ datagrams s', d ∈ datagrams s ∨ d ∈ ds

/-- An update that returns has passed all its datagrams on. -/
theorem output_passed {ds : List (List UInt8)} (hrun : Connection.output cb ds s = .ok () s') :
    Passed ds s s' := by
  induction ds generalizing s with
  | nil =>
    cases hrun
    exact ⟨rfl, rfl, rfl, rfl, fun d hd => .inl hd⟩
  | cons bytes ds ih =>
    obtain ⟨ec, u, hsend, hrun⟩ := bind_eq_ok.mp hrun
    rw [Connection.sendDatagram, bind_ok (Connection.nextAnswer_eq s)] at hsend
    dsimp only at hsend hrun
    split at hrun
    · obtain ⟨_, v, -, hthrow⟩ := bind_eq_ok.mp hrun
      cases hthrow
    · rename_i hec
      split at hsend
      · cases hsend
        obtain ⟨hrecv, hsendBuff, hdeliveries, hstate, htold⟩ := ih hrun
        refine ⟨hrecv, hsendBuff, hdeliveries, hstate, fun d hd => ?_⟩
        rcases htold d hd with hd | hd
        · change d ∈ (s.socket.trace ++ [_]).flatMap _ at hd
          rw [List.flatMap_append, List.flatMap_singleton] at hd
          exact (List.mem_append.mp hd).imp_right fun hd =>
            List.mem_cons.mpr (.inl (List.mem_singleton.mp hd))
        · exact .inr (List.mem_cons_of_mem _ hd)
      · cases hsend
        exact absurd ‹_› hec

namespace Responder
variable {app : Responder} {old : List (Delivery Circle)}

/-- The part of `update` behind `ikcp_update`, which begins with the history that it left. -/
theorem Answering.receiveMessage (hcopies : K.Copies) {q : Peer κ} {rounds : Nat}
    (h : app.Answering (Underway K conv heard p) packets old
      { s with socket := { s.socket with kcp := some q } })
    (hready : ¬ Ready s.recvBuff.contents)
    (hrun : Connection.receiveMessage K.recorded (app.callbacks .kcp K.recorded) rounds q s = .ok () s') :
    app.Answering (Underway K conv heard p) packets old s' ∧ ¬ Ready s'.recvBuff.contents := by
  obtain ⟨_, t, hset, hrun⟩ := bind_eq_ok.mp hrun
  cases hset
  obtain ⟨space, u, hquery, hrun⟩ := bind_eq_ok.mp hrun
  obtain ⟨c, hspace, rfl⟩ := Connection.recv_eq_ok hquery
  obtain ⟨hoffer, hword, hring, hc⟩ := Circle.getContinguiousSpace_laddered h.sent.1.ring hready hspace
  obtain ⟨⟨count, bytes, q'⟩, hr⟩ : ∃ r, K.recorded.recv q space.toUInt32 = r := ⟨_, rfl⟩
  obtain ⟨hstep, halike, hdatagrams, hhanded, hcount, hbytes⟩ := Ikcp.recv_recorded heard hr
  rw [hr] at hrun
  obtain ⟨_, v, hset, hrun⟩ := bind_eq_ok.mp hrun
  cases hset
  split at hrun
  · rename_i hpos
    rw [if_pos (Int.le_of_lt hpos)] at hhanded
    obtain ⟨hlength, hfits⟩ := hcopies q.block space.toUInt32 (hcount ▸ Int.le_of_lt hpos)
    rw [← hcount, ← hbytes] at hlength
    rw [← hbytes, UInt64.toNat_toUInt32, Nat.mod_eq_of_lt hword] at hfits
    have hnarrow : ofInt count = UInt64.ofNat bytes.length := by
      rw [← UInt64.toNat_inj, hlength, toNat_ofInt_natCast (by omega), toNat_ofNat_of_lt (by omega)]
    rw [hoffer, hring.1.toNat_continguiousSpace] at hfits
    obtain ⟨b, hfill, hv, hcb, hsize, hmax⟩ := Circle.fill_spec hring.1 bytes hfits
    obtain ⟨_, b₁, hpoke, hwritten⟩ := bind_eq_ok.mp hfill
    rw [hnarrow] at hrun
    rw [bind_ok (Connection.recv_ok hpoke), bind_ok (Connection.recv_ok hwritten)] at hrun
    obtain ⟨hlimit, i, hi, hladder⟩ := hring.2
    have harrived : app.Answering (Underway K conv heard p) packets old
        { s with recvBuff := b, socket := { s.socket with kcp := some q' } } := by
      refine h.change rfl fun hs => ⟨?_, hs.2.1.tail hstep, hs.2.2⟩
      exact hs.1.arrive ⟨hv, hmax.trans hlimit, i, hi, hsize.trans hladder⟩
        (hcb.trans (congrArg (· ++ bytes) hc)) halike.offered
        hhanded hdatagrams
    exact harrived.onRead sends_underway delivers_underway hrun
  · rename_i hzero
    cases hrun
    refine ⟨h.change rfl fun hs => ⟨?_, hs.2.1.tail hstep, hs.2.2⟩, by rwa [hc]⟩
    by_cases hempty : 0 ≤ count
    · rw [if_pos hempty] at hhanded
      obtain ⟨hlength, -⟩ := hcopies q.block space.toUInt32 (hcount ▸ hempty)
      rw [← hcount, ← hbytes] at hlength
      have hnil : bytes = [] := List.eq_nil_of_length_eq_zero (by omega)
      exact hs.1.arrive hring (by rw [hnil, List.append_nil]; exact hc) halike.offered hhanded hdatagrams
    · rw [if_neg hempty] at hhanded
      refine (hs.1.regrown hring hc).congr rfl rfl rfl
        ⟨halike.offered, halike.accepted, hhanded⟩ fun d hd => ?_
      change d = le32 0 ∨ d ∈ q'.datagrams
      rw [hdatagrams]
      exact hs.1.told d hd

/-- A call of `update()`, with or without a control block. -/
theorem Answering.update (hcopies : K.Copies) {rounds : Nat} {current : UInt32}
    (h : app.Answering (Underway K conv heard p) packets old s) (hready : ¬ Ready s.recvBuff.contents)
    (hrun : Connection.update K.recorded (app.callbacks .kcp K.recorded) rounds current s = .ok () s') :
    app.Answering (Underway K conv heard p) packets old s' ∧ ¬ Ready s'.recvBuff.contents := by
  cases hk : s.socket.kcp with
  | none =>
    rw [Connection.update, get_bind, hk] at hrun
    cases hrun
    exact ⟨h, hready⟩
  | some q =>
    rw [Connection.update_eq _ hk] at hrun
    obtain ⟨_, u, hout, hrun⟩ := bind_eq_ok.mp hrun
    have hpassed := output_passed hout
    have hpeer : peer K conv s = q := by rw [peer, hk, Option.getD_some]
    refine Answering.receiveMessage hcopies
      (h.change hpassed.deliveries fun hs => ⟨?_, ?_, hpassed.state.trans hs.2.2⟩)
      (hpassed.recvBuff ▸ hready) hrun
    · refine hs.1.congr hpassed.recvBuff hpassed.sendBuff hpassed.deliveries ?_ fun d hd => ?_
      · rw [hpeer]
        exact ⟨rfl, rfl, rfl⟩
      · change d = le32 0 ∨ d ∈ q.datagrams ++ (K.recorded.update q current).1
        rcases hpassed.told d hd with hd | hd
        · exact (hs.1.told d hd).imp_right fun hd => List.mem_append_left _ (hpeer ▸ hd)
        · exact .inr (List.mem_append_right _ hd)
    · exact (hpeer ▸ hs.2.1).tail (.update q current)

end Responder

/-- The receive handler feeds a datagram of the conversation to the control block, which
it makes if there is none, and drops the datagram of zeros. -/
theorem Underway.receive (hconv : conv ≠ 0) {data : List UInt8}
    (hdata : data = le32 0 ∨ data ∈ heard ∧ data.take 4 = le32 conv ∧ data.length ≤ 1400)
    (h : Underway K conv heard p packets s)
    (hrun : Connection.handleReceiveKcp K.recorded cb .success data s = .ok () s') :
    Underway K conv heard p packets s' ∧ s'.recvBuff = s.recvBuff ∧ s'.deliveries = s.deliveries := by
  rw [Connection.handleReceiveKcp, if_neg (not_not.mpr rfl)] at hrun
  have hwhole : data.take Connection.kcpBufferSize.toNat = data := by
    refine List.take_of_length_le ?_
    change data.length ≤ 524280
    rcases hdata with rfl | ⟨-, -, hshort⟩
    · decide
    · omega
  rw [hwhole] at hrun
  obtain ⟨_, t, ht, hnoted⟩ := bind_eq_ok.mp hrun
  obtain ⟨_, u, hu, hrest⟩ := bind_eq_ok.mp hnoted
  clear hrun hnoted
  cases ht
  rw [get_bind] at hrest
  have hfront (word : UInt32) (htake : data.take 4 = le32 word) : ofLe32 u.socket.front = word := by
    have hlen := congrArg List.length htake
    rw [List.length_take, length_le32] at hlen
    cases hu
    change ofLe32 ((data ++ s.socket.front.drop data.length).take 4) = word
    rw [List.take_append_of_le_length (by omega), htake, ofLe32_le32]
  have hbegun : Underway K conv heard p packets u ∧ u.recvBuff = s.recvBuff ∧
      u.deliveries = s.deliveries := by
    cases hu
    refine ⟨h.congr rfl rfl rfl rfl rfl ?_, rfl, rfl⟩
    change (s.socket.trace ++ [_]).flatMap _ = s.socket.trace.flatMap _
    rw [List.flatMap_append, List.flatMap_singleton]
    exact List.append_nil _
  rcases hdata with rfl | ⟨hheard, htake, -⟩
  · rw [hfront 0 (List.take_of_length_le (Nat.le_of_eq (length_le32 0))), if_pos rfl] at hrest
    cases hrest
    exact hbegun
  · rw [hfront conv htake] at hrest
    dsimp only at hrest
    rw [if_neg hconv] at hrest
    have hlast {v : Sock Circle (Peer κ)}
      (hv : Underway K conv heard p packets v ∧ v.recvBuff = s.recvBuff ∧
      v.deliveries = s.deliveries)
        (hrun : (do
          Connection.socketDo fun a => { a with kcp := a.kcp.map fun block => K.recorded.input block data }
          Connection.doRead .kcp : EStateM Fault (Sock Circle (Peer κ)) Unit) v = .ok () s') :
        Underway K conv heard p packets s' ∧ s'.recvBuff = s.recvBuff ∧ s'.deliveries = s.deliveries := by
      cases hrun
      exact ⟨hv.1.input hheard rfl rfl rfl rfl rfl rfl, hv.2⟩
    split at hrest
    · rename_i hnone
      obtain ⟨_, v, hmade, hrest⟩ := bind_eq_ok.mp hrest
      cases hmade
      obtain ⟨_, w, hwrite, hrest⟩ := bind_eq_ok.mp hrest
      have hpeer :
          peer K conv { u with socket := { u.socket with kcp := some (K.recorded.create conv) } } =
            peer K conv u := by
        rw [peer, peer, Option.isNone_iff_eq_none.mp hnone]
        rfl
      have hmade : Underway K conv heard p packets
          { u with socket := { u.socket with kcp := some (K.recorded.create conv) } } :=
        hbegun.1.congr rfl rfl rfl rfl hpeer rfl
      obtain ⟨hw, hcalled, -⟩ := hmade.1.doWrite heard hwrite
      refine hlast ⟨⟨hw, hmade.2.1.trans hcalled.steps, hcalled.state.trans hmade.2.2⟩, ?_, ?_⟩ hrest
      · exact hcalled.recvBuff.trans hbegun.2.1
      · exact hcalled.deliveries.trans hbegun.2.2
    · exact hlast hbegun hrest

end Talking

namespace Side
variable {κ : Type} {app : Responder} {K : Ikcp κ} {conv : UInt32} {heard : List (List UInt8)}
  {p : Peer κ} {a a' : Side (Peer κ)}
  {s : Sock Circle (Peer κ)}

structure Reflects (a : Side (Peer κ)) (p : Peer κ) : Prop where
  sent : p.offered.flatten <+: encodePackets a.sent
  received : ∃ rest, Accounts Circle.contents p.handed.flatten a.socket.deliveries rest ∧ ¬ Ready rest
  small : ∀ q ∈ a.sent, q.length + 4 ≤ ringLimit
  told : ∀ d ∈ datagrams a.socket, d = le32 0 ∨ d ∈ p.datagrams

/-- The invariant of a side, with the history of its control block, also when that has been released. -/
def InStep (K : Ikcp κ) (conv : UInt32) (a : Side (Peer κ)) (p : Peer κ) : Prop :=
  a.Reflects p ∧ (a.socket.state = .connected →
    peer K conv a.socket = p ∧ Talking K conv a.sent a.socket ∧ ¬ Ready a.socket.recvBuff.contents)

theorem inStep_of_talking (h : Talking K conv a.sent a.socket) (hquiet : ¬ Ready a.socket.recvBuff.contents) :
    a.InStep K conv (peer K conv a.socket) :=
  ⟨⟨⟨_, h.sent⟩, ⟨_, h.accounts, hquiet⟩, h.small, h.told⟩, fun _ => ⟨rfl, h, hquiet⟩⟩

/-- What an event makes of the invariant. A session that it ends leaves the history as it was. -/
def Advances (K : Ikcp κ) (conv : UInt32) (heard : List (List UInt8)) (p : Peer κ)
    (a a' : Side (Peer κ)) : Prop :=
  a.socket.deliveries <+: a'.socket.deliveries ∧
    ∃ p', ReflTransGen (K.PeerStep heard) p p' ∧ a'.InStep K conv p' ∧ (p' = p ∨ peer K conv a'.socket = p')

/-- An event whose handler goes on. -/
theorem advances_of_underway (h : app.Answering (Underway K conv heard p) a.sent a.socket.deliveries s)
    (hquiet : ¬ Ready s.recvBuff.contents) : Advances K conv heard p a (a.after app s) := by
  have hsettled : Talking K conv (a.after app s).sent (a.after app s).socket :=
    h.sent.1.congr rfl rfl rfl ⟨rfl, rfl, rfl⟩ h.sent.1.told
  exact ⟨h.old, peer K conv s, h.sent.2.1, inStep_of_talking hsettled hquiet, .inr rfl⟩

/-- An event that ends the session. -/
theorem advances_of_closed (h : a.Reflects p) (hclosed : Connection.Closed a.socket s) :
    Advances K conv heard p a (a.after app s) := by
  have hsent : (a.after app s).sent = a.sent := after_sent hclosed.deliveries
  refine ⟨hclosed.deliveries ▸ List.prefix_rfl, p, .refl,
    ⟨⟨?_, ?_, ?_, ?_⟩, fun hup => absurd hup hclosed.down⟩, .inl rfl⟩
  · rw [hsent]
    exact h.sent
  · change ∃ rest, Accounts _ _ s.deliveries rest ∧ _
    rw [hclosed.deliveries]
    exact h.received
  · rw [hsent]
    exact h.small
  · change ∀ d ∈ datagrams s, _
    rw [hclosed.sent]
    exact h.told

/-- One event keeps the invariant. -/
theorem Turn.advances (hconv : conv ≠ 0) (hcopies : K.Copies) {e : ConnectorEvent × Surroundings}
    (h : a.InStep K conv p)
    (hturn : a.Turn .kcp app K.recorded e a')
    (harrives : ∀ d ∈ arrivals e.1, d = le32 0 ∨ d ∈ heard ∧ d.take 4 = le32 conv ∧ d.length ≤ 1400) :
    Advances K conv heard p a a' := by
  obtain ⟨hup, -, hsame, hsmall, s, hrun, rfl⟩ := hturn
  rw [outcome] at hrun
  obtain ⟨hreflects, hlive⟩ := h
  obtain ⟨rfl, htalking, hquiet⟩ := hlive hup
  have hnone (hcalled : called e.1 = []) :
      (⟨a.socket, a.sent ++ called e.1⟩ : Side (Peer κ)) = a := by rw [hcalled, List.append_nil]
  obtain ⟨event, env⟩ := e
  have hbegun {u : Sock Circle (Peer κ)} (hrecv : u.recvBuff = a.socket.recvBuff)
    (hsend : u.sendBuff = a.socket.sendBuff)
      (hdeliveries : u.deliveries = a.socket.deliveries) (hstate : u.state = a.socket.state)
      (hkcp : u.socket.kcp = a.socket.socket.kcp) (htrace : u.socket.trace = a.socket.socket.trace) :
      Underway K conv heard (peer K conv a.socket) a.sent u := by
    have hpeer : peer K conv u = peer K conv a.socket := by rw [peer, peer, hkcp]
    refine Underway.congr ⟨htalking, .refl, hup⟩ hrecv hsend hdeliveries hstate hpeer ?_
    rw [datagrams, datagrams, htrace]
  -- an event that only reads, or does nothing
  have hsilent {u : Sock Circle (Peer κ)} (hu : Underway K conv heard (peer K conv a.socket) a.sent u)
      (hrecv : u.recvBuff = a.socket.recvBuff) (hdeliveries : u.deliveries = a.socket.deliveries) :
      Advances K conv heard (peer K conv a.socket) a (a.after app u) :=
    advances_of_underway (hdeliveries ▸ Responder.answering_begins hu) (hrecv ▸ hquiet)
  cases event with
  | call call =>
    cases call with
    | connect => exact absurd rfl hsame
    | disconnect =>
      obtain ⟨_, t, hdisconnect, hrest⟩ := bind_eq_ok.mp hrun
      cases hrest
      have hpast : Connection.Past a.socket (Connection.surrounded env a.socket) := ⟨rfl, rfl, rfl⟩
      rw [hnone rfl]
      exact advances_of_closed hreflects ((Connection.disconnect_closes rfl).returns hpast hdisconnect)
    | send payload =>
      have hstart : Underway K conv heard (peer K conv a.socket) a.sent
          (Connection.surrounded env a.socket) :=
        hbegun rfl rfl rfl rfl rfl rfl
      obtain ⟨hs, hcalled⟩ := sends_underway.perform [payload] hsmall hstart hrun
      have hdeliveries : s.deliveries = a.socket.deliveries := hcalled.deliveries
      refine advances_of_underway (a := ⟨a.socket, a.sent ++ [payload]⟩) ?_ (hcalled.recvBuff ▸ hquiet)
      exact hdeliveries ▸ Responder.answering_begins hs
  | complete i ec data =>
    rw [hnone rfl]
    cases hp : a.socket.socket.pending[i]? with
    | none =>
      have hidle : (Connection.surrounded env a.socket).socket.pending[i]? = none := hp
      rw [Connection.event, get_bind, hidle] at hrun
      cases hrun
      exact hsilent (hbegun rfl rfl rfl rfl rfl rfl) rfl rfl
    | some q =>
      rw [event_complete hp] at hrun
      obtain ⟨operation, session⟩ := q
      have hresumed : Underway K conv heard (peer K conv a.socket) a.sent
          (a.resuming env i ⟨operation, session⟩) :=
        hbegun rfl rfl rfl rfl rfl rfl
      cases operation with
      | receive place space =>
        by_cases hec : ec = .success
        · subst hec
          obtain ⟨hs, hrecv, hdeliveries⟩ := hresumed.receive hconv (harrives data List.mem_cons_self) hrun
          exact hsilent hs hrecv hdeliveries
        · have hpast : Connection.Past a.socket
              (a.resuming env i ⟨.receive place space, session⟩) := ⟨rfl, rfl, rfl⟩
          change Connection.handleReceiveKcp _ _ _ _ _ = _ at hrun
          rw [Connection.handleReceiveKcp, if_pos hec] at hrun
          exact advances_of_closed hreflects ((Connection.close_closes rfl).returns hpast hrun)
      | _ =>
        cases hrun
        exact hsilent hresumed rfl rfl
  | tick current =>
    rw [Connection.event, if_pos rfl] at hrun
    rw [hnone rfl]
    have hstart : Underway K conv heard (peer K conv a.socket) a.sent (Connection.surrounded env a.socket) :=
      hbegun rfl rfl rfl rfl rfl rfl
    obtain ⟨hs, hleft⟩ := Responder.Answering.update hcopies (Responder.answering_begins hstart) hquiet hrun
    exact advances_of_underway hs hleft

end Side
end SimpleNetwork
