import SimpleNetwork.Asio.Datagram
import SimpleNetwork.Asio.TcpSide

/-! Two sides and the byte streams between them. Each stream hands over, at any pace
and in any pieces, a prefix of what was put into it. -/
namespace SimpleNetwork
open Words Outcome Runs

namespace Side
variable {κ : Type}

/-- A side whose socket has just been opened. -/
structure Opened (a : Side κ) : Prop where
  up : a.socket.state = .connected
  sent : a.sent = []
  deliveries : a.socket.deliveries = []
  recvBuff : a.socket.recvBuff = freshBuffer
  sendBuff : a.socket.sendBuff = freshBuffer
  flags : a.socket.socket.flags = 0
  reads : readWaits a.socket = 1
  writes : writeWaits a.socket = 0
  nothingSent : sentBytes a.socket = []
  nothingReceived : receivedBytes a.socket = []

theorem Opened.kept {a : Side κ} (h : a.Opened) : a.Kept := by
  obtain ⟨hv, hc⟩ := freshBuffer_valid
  have hclear : ¬ isSending a.socket := by
    unfold isSending
    rw [h.flags]
    decide
  refine Up.kept ⟨⟨⟨h.sendBuff ▸ hv, ?_, ?_, ?_⟩, h.recvBuff ▸ ⟨hv, freshBuffer_laddered⟩,
    h.sendBuff ▸ freshBuffer_laddered, ?_, ?_⟩, ?_, h.reads⟩
  · rw [h.writes, if_neg hclear]
  · rw [h.sendBuff, hc]
    exact fun hne => absurd rfl hne
  · rw [h.nothingSent, h.sendBuff, hc, h.sent]
    rfl
  · rw [h.nothingReceived, h.deliveries, h.recvBuff, hc]
    exact accounts_nil _
  · rw [h.sent]
    exact fun _ hp => nomatch hp
  · rw [h.recvBuff, hc]
    decide

/-- `connected()` on a socket with fresh rings. -/
theorem connected_fresh {K : Ikcp κ} {s : Sock Circle κ} (hstate : s.state ≠ .connected)
    (hopen : s.socket.isOpen)
    (hsend : s.sendBuff = freshBuffer) (hflags : s.socket.flags = 0) :
    Connection.connected .tcp K unheard s = .ok () { s with
      state := .connected
      socket := { s.socket with
        pending := s.socket.pending ++ [⟨.waitRead, s.socket.session⟩]
        trace := s.socket.trace ++ [⟨s.socket.session, s.socket.running, .setState .connected⟩] ++
          [⟨s.socket.session, s.socket.running, .onConnected⟩] ++
            [⟨s.socket.session, s.socket.running, .openSocket⟩] } } := by
  have hclear : ~~~s.socket.flags &&& sending ≠ 0 := by
    rw [hflags]
    decide
  have hempty : ¬ Buffer.getCount s.sendBuff > 0 := by
    rw [hsend, circle_drains.count freshBuffer_valid.1 |>.mpr freshBuffer_valid.2]
    decide
  rw [Connection.connected, get_bind, if_pos hstate]
  change (Connection.setState .connected >>= fun _ => Connection.note .onConnected >>= fun _ =>
    pure () >>= fun _ => _) _ = _
  simp only [Connection.setState, Connection.note, Connection.socketDo, bind_assoc, modify_bind, pure_bind,
    Connection.openSocket, Connection.openTcp, Connection.nonBlocking, Connection.start,
      Connection.doWriteTcp, get_bind, hopen,
    if_true, if_pos hclear, if_neg hempty]
  rfl

/-- The state that an event leaves when it returns. -/
theorem afterEvent_ok {t : Transport} {K : Ikcp κ} {s s' : Sock Circle κ} {e : ConnectorEvent × Surroundings}
    (h : Connection.event t K e.2.rounds (Connection.callbacks t K e.2.scripts.length) e.1
      (Connection.surrounded e.2 s) = .ok () s') :
    Connection.afterEvent t K s e = Connection.settled s' := by
  rw [Connection.afterEvent, h]

/-- A connector whose connect has succeeded. -/
theorem opened_connector (K : Ikcp κ) : Opened (κ := κ)
    ⟨Connection.afterEvent .tcp K (Connection.afterEvent .tcp K connector (.call .connect, {}))
      (.complete 0 .success [], {}), []⟩ := by
  obtain ⟨u, hu⟩ : ∃ u : Sock Circle κ,
      u = Connection.afterEvent .tcp K connector (.call .connect, {}) := ⟨_, rfl⟩
  have hfresh := connected_fresh (K := K)
    (s := { u with socket := { u.socket with pending := [], answers := [], scripts := [], running := some 1 } })
    (by rw [hu]; exact nofun) (by rw [hu]; rfl) (by rw [hu]; rfl) (by rw [hu]; rfl)
  have hrun : Connection.event .tcp K 0 (Connection.callbacks .tcp K 0) (.complete 0 .success [])
    (Connection.surrounded {} u) =
      Connection.connected .tcp K unheard
        { u with socket := { u.socket with pending := [], answers := [], scripts := [], running := some 1 } } := by
    rw [hu]
    rfl
  rw [← hu, afterEvent_ok (hrun.trans hfresh), hu]
  exact ⟨rfl, rfl, rfl, rfl, rfl, rfl, rfl, rfl, rfl, rfl⟩

/-- A socket that an acceptor has handed over. -/
theorem opened_accepted (K : Ikcp κ) :
    ∃ s, Connection.connected .tcp K unheard (acceptedSock : Sock Circle κ) = .ok () s ∧
    Opened ⟨Connection.settled s, []⟩ :=
  ⟨_, connected_fresh nofun rfl rfl rfl, rfl, rfl, rfl, rfl, rfl, rfl, rfl, rfl, rfl, rfl⟩

end Side

namespace Link
variable {κ : Type} {apps : Bool → Responder} {K : Ikcp κ} {l₀ l l' : Link κ}

/-- An event of one side. What a side has received is the front of what the other has sent. -/
structure Step (apps : Bool → Responder) (K : Ikcp κ) (l : Link κ)
    (e : Bool × ConnectorEvent × Surroundings) (l' : Link κ) :
    Prop where
  side : (l e.1).Step .tcp (apps e.1) K e.2 (l' e.1)
  other : l' (!e.1) = l (!e.1)
  stream : ∀ i, receivedBytes (l' i).socket <+: sentBytes (l' !i).socket

theorem Step.turn {e : Bool × ConnectorEvent × Surroundings} (hstep : Step apps K l e l')
    (hreturns : l.Returns .tcp apps K e) :
    (l e.1).Turn .tcp (apps e.1) K e.2 (l' e.1) :=
  Side.turn_iff.mpr ⟨hstep.side, hreturns⟩

def next (apps : Bool → Responder) (K : Ikcp κ) (l : Link κ)
    (e : Bool × ConnectorEvent × Surroundings) : Option (Link κ) := do
  let a ← (l e.1).next .tcp (apps e.1) K e.2
  let l' := Function.update l e.1 a
  if ∀ i, receivedBytes (l' i).socket <+: sentBytes (l' !i).socket then some l' else none

theorem step_of_next {e : Bool × ConnectorEvent × Surroundings} (h : l.next apps K e = some l') :
    Where (Step apps K) (Returns .tcp apps K) l e l' := by
  obtain ⟨a, hside, h⟩ := Option.bind_eq_some_iff.mp h
  dsimp only at h
  split at h
  · rename_i hstream
    cases h
    obtain ⟨hstep, hreturns⟩ := Side.turn_iff.mp (Side.turn_of_next hside)
    refine ⟨⟨?_, Function.update_of_ne (Bool.not_ne_self e.1) _ _, hstream⟩, hreturns⟩
    rw [Function.update_self]
    exact hstep
  · cases h

def Kept (l : Link κ) : Prop := ∀ i, (l i).Kept ∧ receivedBytes (l i).socket <+: sentBytes (l !i).socket

theorem Step.keeps {e : Bool × ConnectorEvent × Surroundings} (h : l.Kept) (hstep : Step apps K l e l')
    (hreturns : l.Returns .tcp apps K e) : l'.Kept := by
  refine fun i => ⟨?_, hstep.stream i⟩
  by_cases hi : i = e.1
  · exact hi ▸ (hstep.turn hreturns).keeps (h e.1).1
  · have hother : i = !e.1 := by cases i <;> cases he : e.1 <;> simp_all
    rw [hother, hstep.other]
    exact (h _).1

theorem kept_of_opened (hopen : ∀ i, (l i).Opened) : l.Kept := by
  refine fun i => ⟨(hopen i).kept, ?_⟩
  rw [(hopen i).nothingReceived]
  exact List.nil_prefix

/-- The deliveries of a side account for the front of what the other side has sent. -/
theorem Kept.accounts (h : l.Kept) (i : Bool) : receivedBytes (l i).socket <+: encodePackets (l !i).sent ∧
    ∀ p ∈ (l !i).sent, p.length + 4 < 2 ^ 32 := by
  refine ⟨(h i).2.trans (h !i).1.1.sent, fun p hp => ?_⟩
  have hsmall := (h !i).1.1.small p hp
  unfold ringLimit at hsmall
  omega

theorem Kept.in_order (h : l.Kept) (i : Bool) : (l i).delivered <+: (l !i).sent := by
  obtain ⟨rest, haccounts, -⟩ := (h i).1.1.received
  obtain ⟨hstream, hsmall⟩ := h.accounts i
  exact (haccounts.in_order hsmall hstream).1

/-- When the other side's bytes have all arrived, its packets have all been delivered. -/
theorem Kept.all_delivered (h : l.Kept) {i : Bool}
    (hall : receivedBytes (l i).socket = encodePackets (l !i).sent) :
    (l i).delivered = (l !i).sent := by
  obtain ⟨rest, haccounts, hquiet⟩ := (h i).1.1.received
  exact haccounts.all_delivered (h.accounts i).2 hall hquiet

def dialed : Link Unit
  | true =>
    ⟨Connection.afterEvent .tcp noKcp
      (Connection.afterEvent .tcp noKcp connector (.call .connect, {}))
      (.complete 0 .success [], {}), []⟩
  | false => match Connection.connected .tcp noKcp unheard acceptedSock with
    | .ok _ s => ⟨Connection.settled s, []⟩
    | .error _ s => ⟨s, []⟩

theorem dialed_opened (i : Bool) : (dialed i).Opened := by
  cases i with
  | true =>
    unfold dialed
    exact Side.opened_connector noKcp
  | false =>
    obtain ⟨s, hrun, hopen⟩ := Side.opened_accepted noKcp
    unfold dialed
    rw [hrun]
    exact hopen

def echoing : List (Bool × ConnectorEvent × Surroundings) :=
  [(true, .call (.send [42, 43, 0, 0]), {}),
   (true, .complete 1 .success [], { answers := [⟨.wouldBlock, [], 8⟩] }),
   (false, .complete 0 .success [], { answers := [⟨.wouldBlock, [4, 0, 0], 0⟩], rounds := 1 }),
   (false, .complete 0 .success [], { answers := [⟨.wouldBlock, [0, 42, 43, 0, 0], 0⟩], rounds := 1 }),
   (false, .complete 0 .success [], { answers := [⟨.wouldBlock, [], 8⟩] }),
   (true, .complete 0 .success [],
     { answers := [⟨.wouldBlock, [4, 0, 0, 0, 42, 43, 0, 0], 0⟩], rounds := 1 })]

theorem echoing_runs : ∃ l, Run (Where (Step (fun i => if i then .listener else .mirror) noKcp)
    (Returns .tcp (fun i => if i then .listener else .mirror) noKcp)) dialed echoing l ∧
    (l true).sent = [[42, 43, 0, 0]] ∧ (l true).delivered = [[42, 43, 0, 0]] ∧
    (l true).socket.state = .connected := by
  obtain ⟨l, hl⟩ : ∃ l, echoing.foldlM
      (next (fun i => if i then .listener else .mirror) noKcp) dialed = some l :=
    Option.isSome_iff_exists.mp (by decide +kernel)
  have hheard : (echoing.foldlM (next (fun i => if i then .listener else .mirror) noKcp) dialed).map
      (fun l => ((l true).sent, (l true).delivered, (l true).socket.state)) =
      some ([[42, 43, 0, 0]], [[42, 43, 0, 0]], .connected) := by decide +kernel
  rw [hl, Option.map_some, Option.some.injEq, Prod.mk.injEq, Prod.mk.injEq] at hheard
  exact ⟨l, .of_foldlM step_of_next hl, hheard⟩

end Link

/-- Over tcp the packets arrive once each and in order, whatever the two applications
send, from outside or in answer to packets, and however the streams are cut, as long as
every event returns: what a side has been given is the front of what the other has sent,
and all of it once every byte has arrived, also when the connection was closed since. -/
theorem tcp_link_in_order {κ : Type} {apps : Bool → Responder} {K : Ikcp κ} {l₀ l : Link κ}
    (hopen : ∀ i, (l₀ i).Opened)
    {events : List (Bool × ConnectorEvent × Surroundings)}
    (hrun : Run (Where (Link.Step apps K) (Link.Returns .tcp apps K)) l₀ events l) (i : Bool) :
    (l i).delivered <+: (l !i).sent ∧
      (receivedBytes (l i).socket = encodePackets (l !i).sent → (l i).delivered = (l !i).sent) := by
  have hkept : l.Kept := hrun.invariant (fun h hstep => hstep.1.keeps h hstep.2) (Link.kept_of_opened hopen)
  exact ⟨hkept.in_order i, hkept.all_delivered⟩

/-- The listener hears its integer again. -/
theorem tcp_link_in_order_echo : ∃ l, Run (Where (Link.Step (fun i => if i then .listener else .mirror) noKcp)
    (Link.Returns .tcp (fun i => if i then .listener else .mirror) noKcp)) Link.dialed Link.echoing l ∧
    (l true).delivered = [[42, 43, 0, 0]] ∧ (l true).delivered <+: (l false).sent := by
  obtain ⟨l, hrun, -, hheard, -⟩ := Link.echoing_runs
  exact ⟨l, hrun, hheard, (tcp_link_in_order Link.dialed_opened hrun true).1⟩

/-- Until an exception leaves an event, a connected side waits for bytes with one wait, and
for room with one as long as it has bytes to send. So a handler that holds the connection
is always outstanding. -/
theorem tcp_keeps_waiting {κ : Type} {apps : Bool → Responder} {K : Ikcp κ} {l₀ l : Link κ}
    (hopen : ∀ i, (l₀ i).Opened)
    {events : List (Bool × ConnectorEvent × Surroundings)}
    (hrun : Run (Where (Link.Step apps K) (Link.Returns .tcp apps K)) l₀ events l) (i : Bool)
    (hup : (l i).socket.state = .connected) : readWaits (l i).socket = 1 ∧ writeWaits (l i).socket ≤ 1 ∧
      ((l i).socket.sendBuff.contents ≠ [] → writeWaits (l i).socket = 1) := by
  have hkept : l.Kept := hrun.invariant (fun h hstep => hstep.1.keeps h hstep.2) (Link.kept_of_opened hopen)
  have hside := (hkept i).1.2 hup
  have hpump := hside.serving.pumping
  refine ⟨hside.waits, ?_, fun hne => ?_⟩
  · rw [hpump.waits]
    split
    · exact Nat.le_refl 1
    · exact Nat.zero_le 1
  · rw [hpump.waits, if_pos (hpump.stalled hne)]

theorem tcp_keeps_waiting_echo : ∃ l, Run (Where (Link.Step (fun i => if i then .listener else .mirror) noKcp)
    (Link.Returns .tcp (fun i => if i then .listener else .mirror) noKcp)) Link.dialed Link.echoing l ∧
    readWaits (l true).socket = 1 := by
  obtain ⟨l, hrun, -, -, hup⟩ := Link.echoing_runs
  exact ⟨l, hrun, (tcp_keeps_waiting Link.dialed_opened hrun true hup).1⟩

end SimpleNetwork
