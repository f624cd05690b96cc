import SimpleNetwork.Asio.Disconnect

/-! `kcp::socket::update`: what one call does with the next KCP message, and
when the message gets into the ring at once. -/
namespace SimpleNetwork
open Words

/-- `ikcp_recv` as documented: the next complete message is copied when it fits
the offered length, and otherwise stays queued behind a negative result. -/
structure ReceivesWhole {κ : Type} (K : Ikcp κ) (next : κ → Option (List UInt8)) : Prop where
  fits : ∀ {block message} len, next block = some message → message.length ≤ len.toNat →
    (K.recv block len).1 = message.length ∧ (K.recv block len).2.1 = message
  refused : ∀ {block message} len, next block = some message → len.toNat < message.length →
    (K.recv block len).1 < 0 ∧ next (K.recv block len).2.2 = some message
  nothing : ∀ {block} len, next block = none → (K.recv block len).1 < 0

/-- The next `n` socket calls succeed. -/
def AllSent (n : Nat) (answers : List Answer) : Prop :=
  n ≤ answers.length ∧ ∀ a ∈ answers.take n, a.ec = .success

/-- An application that leaves `recv_buff_` alone in its callbacks. -/
structure Calm {κ : Type} (cb : Callbacks Circle κ) : Prop where
  quiet : Quiet cb.onRecv
  notified : KeepsRecv cb.onDisconnected

section
variable {κ : Type} {K : Ikcp κ} (cb : Callbacks Circle κ) {s : Sock Circle κ}

namespace Connection

private theorem sendDatagram_run (bytes : List UInt8) :
    ∃ t, sendDatagram bytes s = .ok (s.socket.answers.headD ⟨.wouldBlock, [], 0⟩).ec t ∧
      t.recvBuff = s.recvBuff ∧
      t.deliveries = s.deliveries ∧ t.socket.answers = s.socket.answers.tail := by
  obtain ⟨t, ht, htr, -, htd, hts⟩ := nextAnswer_run s
  unfold sendDatagram
  rw [Outcome.bind_ok ht]
  dsimp only
  split
  · exact ⟨_, rfl, htr, htd, congrArg Asio.answers hts⟩
  · exact ⟨t, rfl, htr, htd, congrArg Asio.answers hts⟩

/-- A kcp close returns, whatever state it finds. -/
theorem close_kcp (hcb : KeepsRecv cb.onDisconnected) : ∃ s', close .kcp cb s = .ok () s' := by
  have hrelease (t : Sock Circle κ) : ∃ s', (do
      let u ← get
      if u.socket.kcp.isSome then release else pure () : EStateM Fault (Sock Circle κ) Unit) t =
        .ok () s' := by
    rw [Outcome.get_bind]
    split
    · exact ⟨_, rfl⟩
    · exact ⟨_, rfl⟩
  simp only [close, closeSocket, onClose, note, socketDo, setState, bind_assoc, Outcome.modify_bind,
    Outcome.get_bind]
  split
  · simp only [bind_assoc, Outcome.modify_bind]
    obtain ⟨u, hu, -, -⟩ := hcb _
    rw [Outcome.bind_ok hu]
    exact hrelease u
  · exact hrelease _

/-- When every datagram goes out, `ikcp_update` leaves the buffers as they were. -/
theorem output_sent (datagrams : List (List UInt8)) (hs : AllSent datagrams.length s.socket.answers) :
    ∃ s', output cb datagrams s = .ok () s' ∧ s'.recvBuff = s.recvBuff ∧ s'.deliveries = s.deliveries := by
  induction datagrams generalizing s with
  | nil => exact ⟨s, rfl, rfl, rfl⟩
  | cons bytes rest ih =>
    obtain ⟨t, ht, htr, htd, hta⟩ := sendDatagram_run (s := s) bytes
    obtain ⟨hlen, hall⟩ := hs
    cases ha : s.socket.answers with
    | nil =>
      rw [ha] at hlen
      exact absurd hlen (Nat.not_succ_le_zero _)
    | cons a answers =>
      rw [ha] at hlen hall hta ht
      rw [List.headD_cons, hall a (by simp)] at ht
      obtain ⟨u, hu, hur, hud⟩ := ih (s := t) (by
        rw [hta]
        exact ⟨Nat.le_of_succ_le_succ hlen, fun b hb => hall b (List.mem_cons_of_mem _ hb)⟩)
      exact ⟨u, by
        rw [output, Outcome.bind_ok ht, if_neg (not_not.mpr rfl), hu], hur.trans htr, hud.trans htd⟩

/-- A datagram that cannot be sent closes the socket under the running update. -/
theorem output_failed (hcb : KeepsRecv cb.onDisconnected) (datagrams : List (List UInt8))
    (hs : ¬ AllSent datagrams.length s.socket.answers) :
    ∃ s', output cb datagrams s = .error .deadBlock s' := by
  induction datagrams generalizing s with
  | nil => exact absurd ⟨Nat.zero_le _, by simp⟩ hs
  | cons bytes rest ih =>
    obtain ⟨t, ht, -, -, hta⟩ := sendDatagram_run (s := s) bytes
    obtain ⟨a, ha⟩ : ∃ a, a = s.socket.answers.headD ⟨.wouldBlock, [], 0⟩ := ⟨_, rfl⟩
    rw [← ha] at ht
    by_cases hec : a.ec = .success
    · obtain ⟨u, hu⟩ := ih (s := t) (by
        intro hrest
        apply hs
        rw [hta] at hrest
        cases hc : s.socket.answers with
        | nil =>
          rw [hc] at ha
          rw [ha] at hec
          exact absurd hec (by decide)
        | cons b answers =>
          rw [hc] at ha hrest
          refine ⟨Nat.succ_le_succ hrest.1, ?_⟩
          intro x hx
          rcases List.mem_cons.mp hx with rfl | hx
          · rw [← hec, ha]
            rfl
          · exact hrest.2 x hx)
      exact ⟨u, by rw [output, Outcome.bind_ok ht, if_neg (not_not.mpr hec), hu]⟩
    · obtain ⟨u, hu⟩ := close_kcp cb (s := t) hcb
      exact ⟨u, by rw [output, Outcome.bind_ok ht, if_pos hec, Outcome.bind_ok hu, Outcome.throw_run]⟩

end Connection

/-- Everything one `update` of a live control block can do: fail in a send,
find the ring full and at its maximum, leave the next message queued, or put it
into the ring and go on with `on_read`. -/
inductive UpdateOutcome (K : Ikcp κ) (cb : Callbacks Circle κ) (next : κ → Option (List UInt8))
    (current : UInt32)
    (block : κ) (s : Sock Circle κ) : Prop
  | broken (s' : Sock Circle κ) (hsent : ¬ AllSent (K.update block current).1.length s.socket.answers)
      (hrun : ∀ rounds, Connection.update K cb rounds current s = .error .deadBlock s')
  | full (s' : Sock Circle κ) (hfull : s.recvBuff.Full)
      (hrun : ∀ rounds, Connection.update K cb rounds current s = .error (.thrown .writeNoSpace) s')
  | queued (s' : Sock Circle κ) (hv : s'.recvBuff.Valid) (hsame : ¬ s.recvBuff.Full → s'.recvBuff = s.recvBuff)
      (hleft : ∀ m, next (K.update block current).2 = some m → m = [] ∨
        min (s'.recvBuff.data.mem.length - 1 - s'.recvBuff.contents.length)
          (s'.recvBuff.data.mem.length - s'.recvBuff.tail.toNat) < m.length)
      (hrun : ∀ rounds, Connection.update K cb rounds current s = .ok () s')
  | moved (c : Circle) (m : List UInt8) (s₁ : Sock Circle κ)
      (hsent : AllSent (K.update block current).1.length s.socket.answers)
      (hsame : ¬ s.recvBuff.Full → c = s.recvBuff)
      (hnext : next (K.update block current).2 = some m) (hpos : m ≠ [])
      (hfit : m.length ≤ min (c.data.mem.length - 1 - c.contents.length) (c.data.mem.length - c.tail.toNat))
      (hv : s₁.recvBuff.Valid) (hc : s₁.recvBuff.contents = s.recvBuff.contents ++ m)
      (hrun : ∀ rounds, Connection.update K cb rounds current s = Connection.onRead cb.onRecv rounds s₁)

namespace Connection

def receiveMessage (K : Ikcp κ) (cb : Callbacks Circle κ) (rounds : Nat) (block : κ) :
    EStateM Fault (Sock Circle κ) Unit := do
  socketDo fun a => { a with kcp := some block }
  let size ← recv Circle.getContinguiousSpace
  let (count, bytes, block) := K.recv block size.toUInt32
  socketDo fun a => { a with kcp := some block }
  if count > 0 then
    recv (Circle.pokeEnd bytes)
    recv (Circle.written (ofInt count))
    onRead cb.onRecv rounds
  else pure ()

theorem update_eq {block : κ} (hk : s.socket.kcp = some block) (rounds : Nat) (current : UInt32) :
    update K cb rounds current s = (do
      output cb (K.update block current).1
      receiveMessage K cb rounds (K.update block current).2 : EStateM Fault (Sock Circle κ) Unit) s := by
  unfold update
  rw [Outcome.get_bind, hk]
  rfl

/-- Copying a message that fits into the offered window. -/
theorem receive_bytes {c : Circle} (hv : c.Valid) (m : List UInt8) (t : Sock Circle κ)
    (ht : t.recvBuff = c) (hfit : m.length ≤ (Circle.continguiousSpaceOf c.head c.tail c.getSize).toNat) :
    ∃ d, d.Valid ∧ d.contents = c.contents ++ m ∧ ∀ rounds, (do
      recv (Circle.pokeEnd m)
      recv (Circle.written (ofInt m.length))
      onRead cb.onRecv rounds : EStateM Fault (Sock Circle κ) Unit) t =
        onRead cb.onRecv rounds { t with recvBuff := d } := by
  have hword : ofInt (m.length : Int) = UInt64.ofNat m.length := by
    have hl := hv.size_le
    have hr := hv.toNat_endRun
    rw [← UInt64.toNat_inj, toNat_ofInt_natCast (by omega), toNat_ofNat_of_lt (by omega)]
  obtain ⟨d, hd, hdv, hdc, -⟩ := Circle.fill_spec hv m (by rw [← hv.toNat_continguiousSpace]; exact hfit)
  obtain ⟨_, e, he, hd⟩ := Outcome.bind_eq_ok.mp hd
  rw [← ht] at he
  refine ⟨d, hdv, hdc, ?_⟩
  intro rounds
  rw [Outcome.bind_ok (recv_ok he), hword, Outcome.bind_ok (recv_ok (s := { t with recvBuff := e }) hd)]

/-- With space, the rest of `update` depends on what `ikcp_recv` returns. -/
theorem receiveMessage_eq {c : Circle} {n : UInt64}
    (hspace : Circle.getContinguiousSpace s.recvBuff = .ok n c)
    (block : κ) : ∃ t : Sock Circle κ, t.recvBuff = c ∧ ∀ rounds, receiveMessage K cb rounds block s =
      (if (K.recv block n.toUInt32).1 > 0 then do
        recv (Circle.pokeEnd (K.recv block n.toUInt32).2.1)
        recv (Circle.written (ofInt (K.recv block n.toUInt32).1))
        onRead cb.onRecv rounds
      else pure () : EStateM Fault (Sock Circle κ) Unit) t := by
  obtain ⟨t, ht, htr⟩ : ∃ t, socketDo (fun a => { a with kcp := some block }) s = .ok () t ∧
      t.recvBuff = s.recvBuff := ⟨_, rfl, rfl⟩
  have hquery : recv Circle.getContinguiousSpace t = .ok n { t with recvBuff := c } :=
    recv_ok (by rw [htr]; exact hspace)
  obtain ⟨r, hr⟩ : ∃ r, r = K.recv block n.toUInt32 := ⟨_, rfl⟩
  obtain ⟨u, hu, hur⟩ : ∃ u, socketDo (fun a => { a with kcp := some r.2.2 })
    { t with recvBuff := c } = .ok () u ∧
      u.recvBuff = c := ⟨_, rfl, rfl⟩
  refine ⟨u, hur, fun rounds => ?_⟩
  unfold receiveMessage
  rw [Outcome.bind_ok ht, Outcome.bind_ok hquery, ← hr]
  obtain ⟨count, bytes, after⟩ := r
  dsimp only
  rw [Outcome.bind_ok hu]

private theorem update_outcome (hv : s.recvBuff.Valid) (hcb : Calm cb) {next : κ → Option (List UInt8)}
    (hK : ReceivesWhole K next) {block : κ} (hk : s.socket.kcp = some block) (current : UInt32) :
    UpdateOutcome K cb next current block s := by
  by_cases hsent : AllSent (K.update block current).1.length s.socket.answers
  · obtain ⟨t, ht, htr, -⟩ := output_sent cb _ hsent
    have hupdate (rounds : Nat) : update K cb rounds current s =
        receiveMessage K cb rounds (K.update block current).2 t := by
      rw [update_eq cb hk, Outcome.bind_ok ht]
    have htv : t.recvBuff.Valid := by
      rw [htr]
      exact hv
    rcases Circle.getContinguiousSpace_cases htv with ⟨c, hspace, hcv, hcc, hsame⟩ | ⟨hfull, hspace⟩
    · obtain ⟨u, hur, hu⟩ := receiveMessage_eq (K := K) cb hspace (K.update block current).2
      rw [htr] at hsame hcc
      have hrun := hcv.toNat_endRun
      have hl := hcv.size_le
      have hlen : (Circle.continguiousSpaceOf c.head c.tail c.getSize).toUInt32.toNat =
          (Circle.continguiousSpaceOf c.head c.tail c.getSize).toNat := by
        rw [UInt64.toNat_toUInt32, Nat.mod_eq_of_lt (by omega)]
      have hqueued (hcount : ¬ (K.recv (K.update block current).2
            (Circle.continguiousSpaceOf c.head c.tail c.getSize).toUInt32).1 > 0)
          (hleft : ∀ m, next (K.update block current).2 = some m → m = [] ∨
            min (c.data.mem.length - 1 - c.contents.length) (c.data.mem.length - c.tail.toNat) < m.length) :
          UpdateOutcome K cb next current block s := by
        refine .queued u (by rw [hur]; exact hcv) (by rw [hur]; exact hsame) (by rw [hur]; exact hleft) ?_
        intro rounds
        rw [hupdate, hu, if_neg hcount]
        rfl
      cases hnext : next (K.update block current).2 with
      | none =>
        have hcount := hK.nothing (Circle.continguiousSpaceOf c.head c.tail c.getSize).toUInt32 hnext
        refine hqueued (by omega) fun m hm => ?_
        rw [hnext] at hm
        cases hm
      | some m =>
        by_cases hfit : m.length ≤ (Circle.continguiousSpaceOf c.head c.tail c.getSize).toNat
        · obtain ⟨hcount, hbytes⟩ := hK.fits _ hnext (by rw [hlen]; exact hfit)
          by_cases hempty : m = []
          · refine hqueued (by rw [hcount, hempty]; decide) fun m' hm => ?_
            rw [hnext] at hm
            cases hm
            exact Or.inl hempty
          · have hpos : (m.length : Int) > 0 := by
              have := List.length_pos_iff.mpr hempty
              omega
            obtain ⟨d, hdv, hdc, hd⟩ := receive_bytes cb hcv m u hur hfit
            refine .moved c m { u with recvBuff := d } hsent hsame hnext hempty
              (by rw [← hrun]; exact hfit) hdv
              (by rw [hdc, hcc]) ?_
            intro rounds
            rw [hupdate, hu, hcount, if_pos hpos, hbytes, hd]
        · obtain ⟨hcount, -⟩ := hK.refused _ hnext (by rw [hlen]; omega)
          refine hqueued (by omega) fun m' hm => ?_
          rw [hnext] at hm
          cases hm
          exact Or.inr (by rw [← hrun]; omega)
    · obtain ⟨u, hu, hur⟩ : ∃ u, socketDo (fun a =>
          { a with kcp := some (K.update block current).2 }) t = .ok () u ∧
          u.recvBuff = t.recvBuff := ⟨_, rfl, rfl⟩
      refine .full { u with recvBuff := t.recvBuff } (htr ▸ hfull) fun rounds => ?_
      rw [hupdate, receiveMessage, Outcome.bind_ok hu,
        Outcome.bind_error (recv_error (by rw [hur]; exact hspace))]
  · obtain ⟨t, ht⟩ := output_failed cb hcb.notified _ hsent
    refine .broken t hsent fun rounds => ?_
    rw [update_eq cb hk, Outcome.bind_error ht]

/-- A quiet `on_read` leaves a valid ring. -/
theorem onRead_valid (hquiet : Quiet cb.onRecv) {fuel : Nat} {s' : Sock Circle κ} (hv : s.recvBuff.Valid)
    (hrun : onRead cb.onRecv fuel s = .ok () s') : s'.recvBuff.Valid := by
  induction fuel generalizing s with
  | zero => cases hrun
  | succ fuel ih =>
    by_cases hq : Ready s.recvBuff.contents
    · obtain ⟨t, hround, htv, -, -⟩ := onReadRound_quiet (circle_reads fun _ => True) ⟨hv, trivial⟩ hquiet hq
      rw [onRead_round fuel hround] at hrun
      split at hrun
      · exact ih htv.1 hrun
      · cases hrun
        exact htv.1
    · rw [onRead_round fuel (onReadRound_stop (circle_reads fun _ => True) ⟨hv, trivial⟩ hq)] at hrun
      cases hrun
      exact hv

private theorem update_valid (hv : s.recvBuff.Valid) (hcb : Calm cb) {next : κ → Option (List UInt8)}
    (hK : ReceivesWhole K next) {rounds : Nat} {current : UInt32} {s' : Sock Circle κ}
    (hrun : update K cb rounds current s = .ok () s') : s'.recvBuff.Valid := by
  cases hk : s.socket.kcp with
  | none =>
    unfold update at hrun
    rw [Outcome.get_bind, hk] at hrun
    cases hrun
    exact hv
  | some block =>
    cases update_outcome cb hv hcb hK hk current with
    | broken t hsent h => rw [h] at hrun; cases hrun
    | full t hfull h => rw [h] at hrun; cases hrun
    | queued t htv hsame hleft h =>
      rw [h] at hrun
      cases hrun
      exact htv
    | moved c m t hsent hsame hnext hpos hfit htv hc h =>
      rw [h] at hrun
      exact onRead_valid cb hcb.quiet htv hrun

end Connection

/-- States of a kcp socket that a history of updates and `on_read` calls can
lead to. Between the calls anything but `recv_buff_` may change. -/
inductive KcpReachable (K : Ikcp κ) (cb : Callbacks Circle κ) : Sock Circle κ → Prop
  | fresh {s : Sock Circle κ} (hs : s.recvBuff = freshBuffer) : KcpReachable K cb s
  | other {s s' : Sock Circle κ} (h : KcpReachable K cb s) (hs : s'.recvBuff = s.recvBuff) : KcpReachable K cb s'
  | read {s s' : Sock Circle κ} {rounds : Nat} (h : KcpReachable K cb s)
      (hrun : Connection.onRead cb.onRecv rounds s = .ok () s') : KcpReachable K cb s'
  | update {s s' : Sock Circle κ} {rounds : Nat} {current : UInt32} (h : KcpReachable K cb s)
      (hrun : Connection.update K cb rounds current s = .ok () s') : KcpReachable K cb s'

theorem KcpReachable.valid (hcb : Calm cb) {next : κ → Option (List UInt8)} (hK : ReceivesWhole K next)
    (h : KcpReachable K cb s) : s.recvBuff.Valid := by
  induction h with
  | fresh hs =>
    rw [hs, ← Circle.loaded_nil]
    exact (Circle.loaded_valid [] (by decide)).1
  | other _ hs ih =>
    rw [hs]
    exact ih
  | read _ hrun ih => exact Connection.onRead_valid cb hcb.quiet ih hrun
  | update _ hrun ih => exact Connection.update_valid cb ih hcb hK hrun

/-- `update` appends the whole message to `recv_buff_` and goes on with `on_read`. -/
def MovesMessage (K : Ikcp κ) (cb : Callbacks Circle κ) (current : UInt32) (s : Sock Circle κ)
    (message : List UInt8) : Prop :=
  ∃ s₁ : Sock Circle κ, s₁.recvBuff.contents = s.recvBuff.contents ++ message ∧
    ∀ rounds, Connection.update K cb rounds current s = Connection.onRead cb.onRecv rounds s₁

private theorem movesMessage_iff (hv : s.recvBuff.Valid) (hcb : Calm cb) {next : κ → Option (List UInt8)}
    (hK : ReceivesWhole K next) {block : κ} (hk : s.socket.kcp = some block) {current : UInt32}
    {message : List UInt8} (hnext : next (K.update block current).2 = some message)
    (hroom : message.length ≤ s.recvBuff.data.mem.length - 1 - s.recvBuff.getCount.toNat) :
    MovesMessage K cb current s message ↔ message ≠ [] ∧
      s.recvBuff.tail.toNat + message.length ≤ s.recvBuff.data.mem.length ∧
      AllSent (K.update block current).1.length s.socket.answers := by
  have htail := hv.tail_lt
  rw [← hv.length_contents] at hroom
  have hfull (hne : message ≠ []) : ¬ s.recvBuff.Full := by
    have := List.length_pos_iff.mpr hne
    unfold Circle.Full
    omega
  constructor
  · rintro ⟨s₁, hc, hrun⟩
    have hzero := hrun 0
    cases Connection.update_outcome cb hv hcb hK hk current with
    | broken t hsent h => rw [h] at hzero; cases hzero
    | full t hf h => rw [h] at hzero; cases hzero
    | queued t htv hsame hleft h => rw [h] at hzero; cases hzero
    | moved c m t hsent hsame hn hpos hfit htv htc h =>
      rw [hnext] at hn
      cases hn
      rw [hsame (hfull hpos)] at hfit
      exact ⟨hpos, by omega, hsent⟩
  · rintro ⟨hne, hseam, hsent⟩
    cases Connection.update_outcome cb hv hcb hK hk current with
    | broken t hs h => exact absurd hsent hs
    | full t hf h => exact absurd hf (hfull hne)
    | queued t htv hsame hleft h =>
      rw [hsame (hfull hne)] at hleft
      rcases hleft message hnext with hnil | hlt
      · exact absurd hnil hne
      · omega
    | moved c m t hs hsame hn hpos hfit htv htc h =>
      rw [hnext] at hn
      cases hn
      exact ⟨t, htc, h⟩

end

/-- In every reachable state and for every next message that fits the free
space, `update` moves it and calls `on_read` exactly when the message is not
empty, ends before the physical end of the ring, and no send of `ikcp_update`
fails. -/
theorem kcp_message_moves_iff {κ : Type} {K : Ikcp κ} {cb : Callbacks Circle κ} (hcb : Calm cb)
    {next : κ → Option (List UInt8)} (hK : ReceivesWhole K next) {s : Sock Circle κ}
    (hs : KcpReachable K cb s)
    {block : κ} (hk : s.socket.kcp = some block) {current : UInt32} {message : List UInt8}
    (hnext : next (K.update block current).2 = some message)
    (hroom : message.length ≤ s.recvBuff.data.mem.length - 1 - s.recvBuff.getCount.toNat) :
    MovesMessage K cb current s message ↔ message ≠ [] ∧
      s.recvBuff.tail.toNat + message.length ≤ s.recvBuff.data.mem.length ∧
      AllSent (K.update block current).1.length s.socket.answers :=
  movesMessage_iff cb (hs.valid cb hcb hK) hcb hK hk hnext hroom

/-- A KCP library reduced to its queue of complete messages. -/
def messageQueue : Ikcp (List (List UInt8)) where
  create _ := []
  input block _ := block
  send block _ := (0, block)
  update block _ := ([], block)
  recv
    | [], _ => (-1, [], [])
    | m :: rest, len => if m.length ≤ len.toNat then (m.length, m, rest) else (-3, [], m :: rest)

private theorem messageQueue_whole : ReceivesWhole messageQueue List.head? where
  fits {block message} len hn hl := by
    cases block with
    | nil => cases hn
    | cons m rest =>
      cases hn
      simp [messageQueue, hl]
  refused {block message} len hn hl := by
    cases block with
    | nil => cases hn
    | cons m rest =>
      cases hn
      have hlong : ¬ message.length ≤ len.toNat := by omega
      simp [messageQueue, hlong]
  nothing {block} len hn := by
    cases block with
    | nil => exact (by decide : (-1 : Int) < 0)
    | cons m rest => cases hn

def idle {κ : Type} : Callbacks Circle κ := ⟨pure (), pure (), silent⟩

private theorem calm_idle {κ : Type} : Calm (idle : Callbacks Circle κ) :=
  ⟨quiet_silent, fun s => ⟨s, rfl, rfl, rfl⟩⟩

/-- A kcp connection with an empty receive buffer and the given complete messages. -/
def kcpHolding (messages : List (List UInt8)) : Sock Circle (List (List UInt8)) :=
  ⟨.connected, freshBuffer, freshBuffer, { isOpen := true, kcp := some messages }, []⟩

/-- After one packet of 1020 bytes, which `on_read` delivers and removes, the ring is empty
with four bytes to its physical end. -/
theorem seam_update :
    (match Connection.update messageQueue idle 2 0 (kcpHolding [248 :: 3 :: List.replicate 1018 0]) with
    | .ok _ s =>
      decide (s.recvBuff.data.mem.length = 1024 ∧ s.recvBuff.getCount.toNat = 0 ∧
        s.recvBuff.tail.toNat = 1020)
    | .error _ _ => false) = true := by
  decide +kernel

/-- Any message may be the next one there. -/
theorem seam_reached (message : List UInt8) : ∃ s : Sock Circle (List (List UInt8)),
    KcpReachable messageQueue idle s ∧
    s.socket.kcp = some [message] ∧ s.recvBuff.data.mem.length = 1024 ∧ s.recvBuff.getCount.toNat = 0 ∧
    s.recvBuff.tail.toNat = 1020 := by
  have hupdate := seam_update
  cases hrun : Connection.update messageQueue idle 2 0 (kcpHolding [248 :: 3 :: List.replicate 1018 0]) with
  | error e t =>
    rw [hrun] at hupdate
    cases hupdate
  | ok _ s =>
    rw [hrun] at hupdate
    obtain ⟨hsize, hcount, htail⟩ := of_decide_eq_true hupdate
    exact ⟨{ s with socket := { s.socket with kcp := some [message] } },
      .other (.update (.fresh rfl) hrun) rfl, rfl,
      hsize, hcount, htail⟩

/-- A message of four bytes that ends at the physical end. -/
theorem kcp_message_moves_to_end : ∃ s : Sock Circle (List (List UInt8)),
    KcpReachable messageQueue idle s ∧ s.recvBuff.tail.toNat = 1020 ∧
      MovesMessage messageQueue idle 0 s [1, 0, 0, 0] := by
  obtain ⟨s, hreach, hkcp, hsize, hcount, htail⟩ := seam_reached [1, 0, 0, 0]
  refine ⟨s, hreach, htail, (kcp_message_moves_iff calm_idle messageQueue_whole hreach hkcp rfl ?_).mpr
    ⟨by decide, ?_, Nat.zero_le _, by simp [messageQueue]⟩⟩
  · rw [hsize, hcount]
    decide
  · rw [htail, hsize]
    decide

/-- A message of 100 bytes stays queued there: only four bytes are left before the physical end. -/
theorem kcp_message_stuck_at_seam : ∃ s : Sock Circle (List (List UInt8)),
    KcpReachable messageQueue idle s ∧ s.socket.kcp = some [List.replicate 100 0] ∧
      100 ≤ s.recvBuff.data.mem.length - 1 - s.recvBuff.getCount.toNat ∧
      ¬ MovesMessage messageQueue idle 0 s (List.replicate 100 0) := by
  obtain ⟨s, hreach, hkcp, hsize, hcount, htail⟩ := seam_reached (List.replicate 100 0)
  have hroom : (List.replicate 100 (0 : UInt8)).length ≤
      s.recvBuff.data.mem.length - 1 - s.recvBuff.getCount.toNat := by
    rw [hsize, hcount]
    decide
  refine ⟨s, hreach, hkcp, hroom, fun hmoves => ?_⟩
  have hseam :=
    ((movesMessage_iff idle (hreach.valid idle calm_idle messageQueue_whole) calm_idle
      messageQueue_whole
    hkcp rfl hroom).mp hmoves).2.1
  rw [htail, hsize, List.length_replicate] at hseam
  omega

end SimpleNetwork
