import SimpleNetwork.Asio.TcpLink

/-! Two sides that have stopped sending. From every state of the connection the bytes
that are still buffered or on the way can be delivered. -/
namespace SimpleNetwork
open Words Outcome Runs

namespace Connection
variable {κ : Type} {K : Ikcp κ} {cb : Callbacks Circle κ} {s s' : Sock Circle κ}

/-- A send that takes something records what it took. -/
theorem sendOnce_takes (hv : s.sendBuff.Valid) (hne : s.sendBuff.contents ≠ []) (answer : Answer)
    (hcount : 0 < answer.count)
    (hanswer : s.socket.answers.headD ⟨.wouldBlock, [], 0⟩ = answer) :
    ∃ s' bytes, sendOnce s = .ok answer.ec s' ∧ bytes ≠ [] ∧ sentBytes s' = sentBytes s ++ bytes := by
  obtain ⟨n, hn⟩ : ∃ n, n = (SendBuffer.getContinguiousCount s.sendBuff).toNat := ⟨_, rfl⟩
  have hrun : n = min s.sendBuff.contents.length
      (s.sendBuff.data.mem.length - s.sendBuff.head.toNat) := hn.trans hv.toNat_startRun
  have hhead := hv.head_lt
  have hlen := List.length_pos_iff.mpr hne
  have hword := (SendBuffer.getContinguiousCount s.sendBuff).toNat_lt
  have hpeek := circle_drains.start hv
  rw [← hn] at hpeek hword
  obtain ⟨taken, htaken⟩ : ∃ taken, taken = (s.sendBuff.contents.take n).take answer.count := ⟨_, rfl⟩
  have hcounted : taken.length = min answer.count (min n s.sendBuff.contents.length) := by
    rw [htaken, List.length_take, List.length_take]
  have hbytes : taken ≠ [] := by
    rw [← List.length_pos_iff]
    omega
  obtain ⟨b, hremove, -, -⟩ := circle_drains.remove (b := s.sendBuff) (n := UInt64.ofNat taken.length) hv (by
    rw [toNat_ofNat_of_lt (by omega)]
    omega)
  have hremoved : send (Buffer.remove (UInt64.ofNat taken.length))
      ({ s with socket := { s.socket with answers := s.socket.answers.tail } } : Sock Circle κ) =
        .ok () { s with sendBuff := b, socket := { s.socket with answers := s.socket.answers.tail } } := send_ok hremove
  rw [sendOnce, get_bind, bind_ok (send_ok hpeek), bind_ok (nextAnswer_eq s), hanswer]
  dsimp only
  rw [← htaken, if_pos hbytes]
  refine ⟨_, taken, bind_ok hremoved, hbytes, ?_⟩
  change (s.socket.trace ++ [_]).flatMap _ = _
  rw [List.flatMap_append, List.flatMap_singleton]
  rfl

/-- The handler of a write wait, with one send that takes something. -/
theorem handleWaitWrite_takes (hv : s.sendBuff.Valid) (hne : s.sendBuff.contents ≠ [])
    (hanswers : s.socket.answers = [⟨.wouldBlock, [], 1⟩])
    (hrun : handleWaitWrite cb .success s = .ok () s') :
    ∃ bytes, bytes ≠ [] ∧ sentBytes s' = sentBytes s ++ bytes ∧ Unread s s' := by
  obtain ⟨t, bytes, honce, hbytes, hsent⟩ :=
    sendOnce_takes hv hne ⟨.wouldBlock, [], 1⟩ (by decide) (by rw [hanswers]; rfl)
  have hloop : sendLoop cb (s.socket.answers.length + 1) s = .ok true t := by
    rw [sendLoop, bind_ok honce]
    rfl
  rw [handleWaitWrite, if_neg (not_not.mpr rfl), get_bind, bind_ok hloop] at hrun
  have hread := sendOnce_unread.returns (.refl s) honce
  have hclear : Unread s { t with socket := { t.socket with flags := t.socket.flags &&& ~~~sending } } :=
    ⟨hread.recvBuff, hread.deliveries, hread.state, hread.waits, hread.received⟩
  change doWriteTcp _ = .ok () s' at hrun
  refine ⟨bytes, hbytes, ?_, hclear.trans (doWriteTcp_unread hrun).1⟩
  rcases doWriteTcp_cases hrun with rfl | rfl
  · exact hsent
  · exact hsent

end Connection

namespace Side
variable {κ : Type} {app : Responder} {K : Ikcp κ} {a : Side κ}

/-- An outstanding operation, by its place. -/
theorem exists_pending {operation : Operation} {pending : List Pending}
    (h : 0 < pending.countP fun p : Pending => p.operation = operation) : ∃ (i : Nat) (p : Pending),
    pending[i]? = some p ∧ p.operation = operation := by
  obtain ⟨p, hmem, hop⟩ := List.countP_pos_iff.mp h
  obtain ⟨i, hi⟩ := List.getElem?_of_mem hmem
  exact ⟨i, p, hi, of_decide_eq_true hop⟩

/-- A completion whose handler returns is a step. -/
theorem turn_of_handle (hup : a.socket.state = .connected) {env : Surroundings} {i : Nat}
    {ec : ErrorCode} {data : List UInt8}
    {p : Pending} (hp : a.socket.socket.pending[i]? = some p) {s : Sock Circle κ}
    (hrun : Connection.handle .tcp K (app.callbacks .tcp K) env.rounds p.operation ec data
      (a.resuming env i p) = .ok () s) :
    a.Turn .tcp app K (.complete i ec data, env) (a.after app s) where
  up := hup
  enabled := decide_eq_true (List.getElem?_eq_some_iff.mp hp).1
  same := nofun
  small := nofun
  returns := by
    refine ⟨s, (event_complete hp).trans hrun, ?_⟩
    change _ = after app ⟨a.socket, a.sent ++ []⟩ s
    rw [List.append_nil]

/-- As long as bytes are buffered, the socket can take one. -/
theorem Up.canWrite (app : Responder) (K : Ikcp κ) (h : a.Up) (hup : a.socket.state = .connected)
    (hne : a.socket.sendBuff.contents ≠ []) :
    ∃ e a', a.Turn .tcp app K e a' ∧ a'.socket.state = .connected ∧ a'.sent = a.sent ∧
      receivedBytes a'.socket = receivedBytes a.socket ∧ ∃ bytes, bytes ≠ [] ∧
        sentBytes a'.socket = sentBytes a.socket ++ bytes := by
  have hpump := h.serving.pumping
  have hone : writeWaits a.socket = 1 := by rw [hpump.waits, if_pos (hpump.stalled hne)]
  obtain ⟨i, p, hp, hop⟩ := exists_pending (Nat.lt_of_lt_of_eq Nat.one_pos hone.symm)
  obtain ⟨env, henv⟩ : ∃ env : Surroundings, env = { answers := [⟨.wouldBlock, [], 1⟩] } := ⟨_, rfl⟩
  have hs : a.Resumes p.operation (a.resuming env i p) := resumes_resuming hup hp
  have hzero : writeWaits (a.resuming env i p) = 0 := by
    have hwrites := hs.writes
    rw [if_pos hop, hone] at hwrites
    omega
  have hanswers : (a.resuming env i p).socket.answers = [⟨.wouldBlock, [], 1⟩] :=
    congrArg Surroundings.answers henv
  obtain ⟨s, hrun, -⟩ := Connection.handleWaitWrite_pumps
    (app.callbacks .tcp K) circle_drains (s := a.resuming env i p)
    hpump.valid
    (by rw [hanswers]; intro b hb; rw [List.mem_singleton.mp hb]; exact .inr rfl) hzero hpump.lossless
  obtain ⟨bytes, hbytes, hsent, hunread⟩ :=
    Connection.handleWaitWrite_takes (s := a.resuming env i p) hpump.valid hne hanswers hrun
  have hhandle : Connection.handle .tcp K (app.callbacks .tcp K) env.rounds p.operation .success []
      (a.resuming env i p) = .ok () s := by
    rw [hop]
    exact hrun
  exact ⟨_, _, turn_of_handle hup hp hhandle, hunread.state.trans hup,
    after_sent hunread.deliveries, hunread.received, bytes, hbytes,
    hsent⟩

end Side

/-- An application that sends nothing in answer and reads no further than its packet. -/
structure Responder.Listens (app : Responder) : Prop where
  silent : ∀ i bytes, app.answer i bytes = []
  modest : ∀ r, app.want r ≤ r.length

section Listening
variable {κ : Type} {app : Responder} {K : Ikcp κ} {s : Sock Circle κ} (happ : app.Listens)
include happ

theorem Responder.Listens.onRecv {i : Nat} (length : UInt32) (hv : s.recvBuff.Valid)
    (hfit : 4 + length.toNat ≤ s.recvBuff.contents.length) :
    app.onRecv .tcp K i ⟨0, 4, length⟩ s = .ok () s := by
  have hle := UInt32.le_iff_toNat_le.mp (happ.modest ⟨0, 4, length⟩)
  have hfour : (4 : UInt64).toNat = 4 := rfl
  have hin : (4 : UInt64).toNat + (app.want ⟨0, 4, length⟩).toUInt64.toNat ≤ s.recvBuff.contents.length := by
    rw [UInt32.toNat_toUInt64, hfour]
    exact Nat.le_trans (Nat.add_le_add_left hle 4) hfit
  have hget : ∃ r bytes, (⟨0, 4, length⟩ : Reader).get
      (app.want ⟨0, 4, length⟩).toUInt64 s.recvBuff = .ok (bytes, r) s.recvBuff := by
    rw [Reader.get]
    exact ⟨_, _, bind_ok (Circle.read_peek hv hin)⟩
  obtain ⟨r, bytes, hget⟩ := hget
  rw [Responder.onRecv, bind_ok (Connection.recv_ok hget)]
  dsimp only
  rw [happ.silent]
  rfl

/-- `on_read` when the bytes do not go beyond the first packet. -/
theorem Responder.Listens.onRead (hring : s.recvBuff.Valid ∧ Laddered s.recvBuff.data)
    (hlast : Ready s.recvBuff.contents →
      (declared s.recvBuff.contents).toNat + 4 = s.recvBuff.contents.length) :
    ∃ b ds, Connection.onRead (app.onRecv .tcp K) 1 s =
      .ok () { s with recvBuff := b, deliveries := ds } := by
  have R := circle_reads Laddered
  by_cases hq : Ready s.recvBuff.contents
  · have hall := hlast hq
    have hrecv := happ.onRecv (K := K) (i := s.deliveries.length)
      (declared s.recvBuff.contents) hring.1 (by omega)
    obtain ⟨b, -, hc, hround⟩ := Connection.onReadRound_keep R hring hq hrecv rfl rfl
    have hsize : packetSize s.recvBuff.contents = s.recvBuff.contents.length := by
      have hlt := hring.1.length_small
      rw [packetSize, hall, Nat.mod_eq_of_lt (by omega)]
    rw [hsize, List.drop_length] at hc
    rw [Connection.onRead_round 0 hround, hc]
    exact ⟨b, _, rfl⟩
  · rw [Connection.onRead_round 0 (Connection.onReadRound_stop R hring hq)]
    exact ⟨s.recvBuff, s.deliveries, rfl⟩

/-- A read handler that finds one byte. -/
theorem Responder.Listens.handleWaitRead (hring : s.recvBuff.Valid ∧ Laddered s.recvBuff.data)
    (hready : ¬ Ready s.recvBuff.contents)
    (hroom : s.recvBuff.contents.length < ringLimit) {byte : UInt8}
    (hanswers : s.socket.answers = [⟨.wouldBlock, [byte], 0⟩])
    (hlast : Ready (s.recvBuff.contents ++ [byte]) →
      (declared (s.recvBuff.contents ++ [byte])).toNat + 4 = (s.recvBuff.contents ++ [byte]).length) :
    ∃ s', Connection.handleWaitRead (app.callbacks .tcp K) 1 .success s = .ok () s' ∧ s'.state = s.state ∧
      sentBytes s' = sentBytes s ∧ receivedBytes s' = receivedBytes s ++ [byte] := by
  have hheld : Held s.recvBuff.contents s.recvBuff := ⟨hring.1, hring.2.1, hring.2.2, .stop hready⟩
  rcases hheld.space with ⟨hfull, -⟩ | ⟨-, d, hd, hc, hnf, hquery, -⟩
  · omega
  · obtain ⟨space, hspace⟩ : ∃ space, space = Circle.continguiousSpaceOf d.head d.tail d.getSize := ⟨_, rfl⟩
    have hword := hd.toNat_space_lt
    have hpos : 0 < space.toNat := Nat.pos_of_ne_zero fun hz =>
      hnf ((Circle.continguiousSpace_eq_zero hd.valid).mp (hspace ▸ UInt64.toNat_inj.mp hz))
    rw [← hspace] at hquery hword
    have hsmall : space.toUInt32.toNat = space.toNat := by rw [UInt64.toNat_toUInt32, Nat.mod_eq_of_lt hword]
    have hoffer : space.toUInt32 ≠ 0 := by
      intro hz
      rw [hz] at hsmall
      exact absurd hsmall (Nat.ne_of_lt hpos)
    have htake : [byte].take space.toUInt32.toNat = [byte] :=
      List.take_of_length_le (by rw [hsmall]; exact hpos)
    obtain ⟨b, hfill, hv, hb, hlength, hmax⟩ := Circle.fill_spec hd.valid [byte] (by
      rw [← hd.valid.toNat_continguiousSpace, ← hspace]
      exact hpos)
    obtain ⟨_, b₁, hpoke, hwritten⟩ := bind_eq_ok.mp hfill
    obtain ⟨i, hi, hladder⟩ := hd.size
    rw [hc] at hb
    obtain ⟨u, hu⟩ : ∃ u : Sock Circle κ, u = { s with
      recvBuff := b
      socket := { s.socket with
        answers := s.socket.answers.tail
        trace := s.socket.trace ++ [⟨s.socket.session, s.socket.running, .received [byte]⟩] } } := ⟨_, rfl⟩
    obtain ⟨b', ds, hread⟩ := happ.onRead (K := K) (s := u) (by
      rw [hu]
      exact ⟨hv, hmax.trans hd.maxSize, i, hi, hlength.trans hladder⟩) (by
      rw [hu]
      dsimp only
      rw [hb]
      exact hlast)
    have hloop : Connection.receiveLoop (app.callbacks .tcp K) 1 (s.socket.answers.length + 1) s =
        .ok true { u with recvBuff := b', deliveries := ds } := by
      rw [Connection.receiveLoop, bind_ok (Connection.recv_ok hquery), if_neg hoffer,
        bind_ok (Connection.nextAnswer_eq _)]
      rw [hanswers, List.headD_cons, List.tail_cons]
      dsimp only
      rw [htake, if_pos (List.cons_ne_nil _ _), bind_ok (Connection.recv_ok hpoke),
        bind_ok (Connection.recv_ok hwritten)]
      rw [hanswers, List.tail_cons] at hu
      change (Connection.onRead (app.onRecv .tcp K) 1 >>= _) { s with
        recvBuff := b
        socket := { s.socket with
          answers := []
          trace := s.socket.trace ++ [⟨s.socket.session, s.socket.running, .received [byte]⟩] } } = _
      rw [← hu, bind_ok hread]
      rfl
    rw [Connection.handleWaitRead, if_neg (not_not.mpr rfl), get_bind, bind_ok hloop, hu]
    refine ⟨_, rfl, rfl, ?_, ?_⟩
    · change (s.socket.trace ++ [_]).flatMap _ = _
      rw [List.flatMap_append, List.flatMap_singleton]
      exact List.append_nil _
    · change (s.socket.trace ++ [_]).flatMap _ = _
      rw [List.flatMap_append, List.flatMap_singleton]
      rfl

theorem Responder.Listens.answers (ds : List (Delivery Circle)) (before : Nat) :
    app.answers ds before = [] := by
  rw [Responder.answers, List.flatMap_eq_nil_iff]
  exact fun _ _ => happ.silent _ _

/-- As long as the stream goes on, the socket can read one more byte of it. -/
theorem Side.Up.canRead {a : Side κ} (h : a.Up) (hup : a.socket.state = .connected)
    {packets : List (List UInt8)}
    (hsmall : ∀ p ∈ packets, p.length + 4 ≤ ringLimit) {byte : UInt8} {more : List UInt8}
    (hstream : receivedBytes a.socket ++ byte :: more = encodePackets packets) :
    ∃ e a', a.Turn .tcp app K e a' ∧ a'.socket.state = .connected ∧ a'.sent = a.sent ∧
      sentBytes a'.socket = sentBytes a.socket ∧
      receivedBytes a'.socket = receivedBytes a.socket ++ [byte] := by
  have hbound : ∀ p ∈ packets, p.length + 4 < 2 ^ 32 := fun p hp => by
    have := hsmall p hp
    unfold ringLimit at this
    omega
  obtain ⟨later, hpackets, hleft⟩ := h.serving.accounts.left hbound hstream
  cases later with
  | nil => exact absurd hleft (by simp [encodePackets])
  | cons p later =>
    have hp : p ∈ packets := hpackets ▸ List.mem_append_right _ List.mem_cons_self
    have hshort := short_of_not_ready (hbound p hp) hleft h.quiet
    have hroom : a.socket.recvBuff.contents.length < ringLimit := Nat.lt_of_lt_of_le hshort (hsmall p hp)
    have hlast : Ready (a.socket.recvBuff.contents ++ [byte]) →
        (declared (a.socket.recvBuff.contents ++ [byte])).toNat + 4 =
          (a.socket.recvBuff.contents ++ [byte]).length := by
      intro hq
      rw [← List.append_cons a.socket.recvBuff.contents byte more |>.symm, encodePackets_cons] at hleft
      have hsize := packetSize_encoded hleft hq.1 (hbound p hp)
      have hfit := hq.2
      rw [toNat_declared_encoded hleft hq.1 (hbound p hp)]
      rw [hsize] at hfit
      rw [List.length_append, List.length_singleton] at hfit ⊢
      omega
    obtain ⟨i, w, hw, hop⟩ := Side.exists_pending (Nat.lt_of_lt_of_eq Nat.one_pos h.waits.symm)
    obtain ⟨env, henv⟩ : ∃ env : Surroundings,
        env = { answers := [⟨.wouldBlock, [byte], 0⟩], rounds := 1 } := ⟨_, rfl⟩
    have hanswers : (a.resuming env i w).socket.answers = [⟨.wouldBlock, [byte], 0⟩] :=
      congrArg Surroundings.answers henv
    obtain ⟨s, hrun, hstate, hsent, hreceived⟩ :=
      happ.handleWaitRead (K := K) (s := a.resuming env i w) h.serving.ring h.quiet hroom
      hanswers hlast
    have hhandle : Connection.handle .tcp K (app.callbacks .tcp K) env.rounds w.operation .success
      [] (a.resuming env i w) =
        .ok () s := by
      rw [hop, henv]
      rw [henv] at hrun
      exact hrun
    refine ⟨_, _, Side.turn_of_handle hup hw hhandle, hstate.trans hup, ?_, hsent, hreceived⟩
    rw [Side.after, happ.answers]
    exact List.append_nil _

end Listening

namespace Link
variable {κ : Type} {apps : Bool → Responder} {K : Ikcp κ} {l l' : Link κ}

/-- The bytes of a side's packets that it has not sent yet, and those that have not arrived. -/
def behind (l : Link κ) (i : Bool) : Nat :=
  ((encodePackets (l i).sent).length - (sentBytes (l i).socket).length) +
    ((encodePackets (l i).sent).length - (receivedBytes (l !i).socket).length)

def outstanding (l : Link κ) : Nat := l.behind true + l.behind false

private theorem outstanding_eq (l : Link κ) (i : Bool) : l.outstanding = l.behind i + l.behind (!i) := by
  cases i
  · exact Nat.add_comm _ _
  · rfl

/-- A side that moves more of its bytes has less to do. -/
theorem outstanding_update {i : Bool} {a : Side κ} {out into : List UInt8} (hsent : a.sent = (l i).sent)
    (hout : sentBytes a.socket = sentBytes (l i).socket ++ out)
    (hinto : receivedBytes a.socket = receivedBytes (l i).socket ++ into)
    (hsound : sentBytes a.socket <+: encodePackets a.sent)
    (hstream : receivedBytes a.socket <+: encodePackets (l !i).sent)
    (hne : out ≠ [] ∨ into ≠ []) : outstanding (Function.update l i a) < l.outstanding := by
  have hothers := Bool.not_ne_self i
  have hsound := hsound.length_le
  have hstream := hstream.length_le
  rw [outstanding_eq _ i, outstanding_eq l i]
  unfold behind
  rw [Bool.not_not, Function.update_self, Function.update_of_ne hothers, hsent]
  rw [hsent] at hsound
  rw [hout, List.length_append] at hsound ⊢
  rw [hinto, List.length_append] at hstream ⊢
  rcases hne with hne | hne
  · have := List.length_pos_iff.mpr hne
    omega
  · have := List.length_pos_iff.mpr hne
    omega

/-- A step of one side that loses nothing is one of the connection. -/
theorem Kept.step_of_side (h : l.Kept) {i : Bool} {e : ConnectorEvent × Surroundings} {a : Side κ}
    (hturn : (l i).Turn .tcp (apps i) K e a) (hsent : sentBytes (l i).socket <+: sentBytes a.socket)
    (hreceived : receivedBytes a.socket <+: sentBytes (l !i).socket) :
    Where (Step apps K) (Returns .tcp apps K) l (i, e) (Function.update l i a) := by
  obtain ⟨hstep, hreturns⟩ := Side.turn_iff.mp hturn
  refine ⟨⟨?_, Function.update_of_ne (Bool.not_ne_self i) _ _, fun j => ?_⟩, hreturns⟩
  · rw [Function.update_self]
    exact hstep
  · rcases Bool.eq_or_eq_not j i with rfl | rfl
    · rw [Function.update_self, Function.update_of_ne (Bool.not_ne_self j)]
      exact hreceived
    · rw [Bool.not_not, Function.update_self, Function.update_of_ne (Bool.not_ne_self i)]
      have hother := (h !i).2
      rw [Bool.not_not] at hother
      exact hother.trans hsent

def Resting (l l' : Link κ) : Prop := ∀ i, (l' i).socket.state = .connected ∧ (l' i).sent = (l i).sent

/-- One more byte moves, unless all have arrived. -/
theorem Kept.advance (h : l.Kept) (hup : ∀ i, (l i).socket.state = .connected)
    (happ : ∀ i, (apps i).Listens) :
    (∀ i, receivedBytes (l i).socket = encodePackets (l !i).sent) ∨
      ∃ e l', Where (Step apps K) (Returns .tcp apps K) l e l' ∧ l.Resting l' ∧
        l'.outstanding < l.outstanding := by
  have hside (i : Bool) := (h i).1.2 (hup i)
  have hrest {i : Bool} {a : Side κ} (ha : a.socket.state = .connected) (hsent : a.sent = (l i).sent) :
      l.Resting (Function.update l i a) := by
    intro j
    rcases Bool.eq_or_eq_not j i with rfl | rfl
    · rw [Function.update_self]
      exact ⟨ha, hsent⟩
    · rw [Function.update_of_ne (Bool.not_ne_self i)]
      exact ⟨hup _, rfl⟩
  by_cases hempty : ∀ i, (l i).socket.sendBuff.contents = []
  · have hall (i : Bool) : sentBytes (l i).socket = encodePackets (l i).sent := by
      have hlossless := (hside i).serving.pumping.lossless
      rwa [hempty i, List.append_nil] at hlossless
    by_cases hdone : ∀ i, receivedBytes (l i).socket = encodePackets (l !i).sent
    · exact .inl hdone
    · obtain ⟨i, hi⟩ := not_forall.mp hdone
      obtain ⟨rest, hstream⟩ := (h i).2
      rw [hall] at hstream
      cases rest with
      | nil => exact absurd ((List.append_nil _).symm.trans hstream) hi
      | cons byte more =>
        obtain ⟨e, a, hturn, hstate, hsent, hout, hin⟩ :=
          (hside i).canRead (happ i) (K := K) (hup i) (hside !i).serving.small hstream
        have hfront : receivedBytes a.socket <+: encodePackets (l !i).sent := by
          rw [hin, ← hstream]
          exact ⟨more, List.append_assoc _ _ _⟩
        refine .inr ⟨_, _, h.step_of_side hturn (hout ▸ List.prefix_rfl) ((hall _).symm ▸ hfront),
          hrest hstate hsent, ?_⟩
        exact outstanding_update hsent (hout.trans (List.append_nil _).symm) hin
          (hturn.keeps (h i).1).1.sent hfront
          (.inr (List.cons_ne_nil _ _))
  · obtain ⟨i, hi⟩ := not_forall.mp hempty
    obtain ⟨e, a, hturn, hstate, hsent, hin, bytes, hbytes, hout⟩ := (hside i).canWrite (apps i) K (hup i) hi
    refine .inr ⟨_, _, h.step_of_side hturn (hout ▸ List.prefix_append _ _) (hin ▸ (h i).2),
      hrest hstate hsent, ?_⟩
    exact outstanding_update hsent hout (hin.trans (List.append_nil _).symm)
      (hturn.keeps (h i).1).1.sent (hin ▸ (h.accounts i).1)
      (.inl hbytes)

/-- Until all have arrived. The induction is on the bytes outstanding. -/
theorem Kept.drains (h : l.Kept) (hup : ∀ i, (l i).socket.state = .connected) (happ : ∀ i, (apps i).Listens) :
    ∃ events l', Run (Where (Step apps K) (Returns .tcp apps K)) l events l' ∧ l.Resting l' ∧
      ∀ i, receivedBytes (l' i).socket = encodePackets (l' !i).sent := by
  generalize hn : l.outstanding = n
  induction n using Nat.strong_induction_on generalizing l with
  | _ n ih =>
    rcases h.advance (K := K) hup happ with hall | ⟨e, l₁, hstep, hrest, hless⟩
    · exact ⟨[], l, .nil l, fun i => ⟨hup i, rfl⟩, hall⟩
    · obtain ⟨events, l', hrun, hrest', hall⟩ :=
        ih _ (hn ▸ hless) (hstep.1.keeps h hstep.2) (fun i => (hrest i).1) rfl
      exact ⟨e :: events, l', .cons hstep hrun, fun i => ⟨(hrest' i).1, (hrest' i).2.trans (hrest i).2⟩, hall⟩

end Link

/-- No packet of a connection is ever stuck. From every state that a run between two
listening applications can reach, as long as every event has returned and both sides are
connected, the connection can go on until each side has been given all that the other has sent. -/
theorem tcp_link_drains {κ : Type} {apps : Bool → Responder} {K : Ikcp κ}
    (happ : ∀ i, (apps i).Listens) {l₀ l : Link κ}
    (hopen : ∀ i, (l₀ i).Opened) {events : List (Bool × ConnectorEvent × Surroundings)}
    (hrun : Run (Where (Link.Step apps K) (Link.Returns .tcp apps K)) l₀ events l)
    (hup : ∀ i, (l i).socket.state = .connected) :
    ∃ more l', Run (Where (Link.Step apps K) (Link.Returns .tcp apps K)) l more l' ∧
      ∀ i, (l' i).socket.state = .connected ∧ (l' i).sent = (l i).sent ∧ (l' i).delivered = (l !i).sent := by
  have hkept : l.Kept := hrun.invariant (fun h hstep => hstep.1.keeps h hstep.2) (Link.kept_of_opened hopen)
  obtain ⟨more, l', hmore, hrest, hall⟩ := hkept.drains (K := K) hup happ
  have hkept' : l'.Kept := hmore.invariant (fun h hstep => hstep.1.keeps h hstep.2) hkept
  refine ⟨more, l', hmore, fun i => ⟨(hrest i).1, (hrest i).2, ?_⟩⟩
  rw [hkept'.all_delivered (hall i), (hrest !i).2]

private theorem Responder.listens_listener : listener.Listens := ⟨fun _ _ => rfl, fun _ => UInt32.le_refl _⟩

/-- One side has sent an integer, and the other has read nothing yet. -/
theorem tcp_link_drains_one : ∃ l,
    Run (Where (Link.Step (fun _ => .listener) noKcp)
      (Link.Returns .tcp (fun _ => .listener) noKcp))
    Link.dialed [(true, .call (.send [42, 43, 0, 0]), {})] l ∧ (l false).delivered = [] ∧
    ∃ more l',
      Run (Where (Link.Step (fun _ => .listener) noKcp)
      (Link.Returns .tcp (fun _ => .listener) noKcp)) l more l' ∧
      (l' false).delivered = [[42, 43, 0, 0]] := by
  obtain ⟨l, hl⟩ : ∃ l, Link.dialed.next (fun _ => .listener) noKcp
      (true, .call (.send [42, 43, 0, 0]), {}) = some l :=
    Option.isSome_iff_exists.mp (by decide +kernel)
  have hstate : (Link.dialed.next (fun _ => .listener) noKcp (true, .call (.send [42, 43, 0, 0]), {})).map
      (fun l => ((l true).socket.state, (l false).socket.state, (l true).sent, (l false).delivered)) =
      some (.connected, .connected, [[42, 43, 0, 0]], []) := by decide +kernel
  rw [hl] at hstate
  simp only [Option.map_some, Option.some.injEq, Prod.mk.injEq] at hstate
  obtain ⟨htrue, hfalse, hsent, hnone⟩ := hstate
  have hrun : Run (Where (Link.Step (fun _ => .listener) noKcp)
    (Link.Returns .tcp (fun _ => .listener) noKcp))
      Link.dialed [(true, .call (.send [42, 43, 0, 0]), {})] l :=
    .cons (Link.step_of_next hl) (.nil l)
  obtain ⟨more, l', hmore, hall⟩ :=
    tcp_link_drains (fun _ => Responder.listens_listener) Link.dialed_opened hrun
    (Bool.forall_bool.mpr ⟨hfalse, htrue⟩)
  exact ⟨l, hrun, hnone, more, l', hmore, (hall false).2.2.trans hsent⟩

end SimpleNetwork
