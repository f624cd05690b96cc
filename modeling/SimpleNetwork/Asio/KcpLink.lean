import SimpleNetwork.Asio.KcpSide
import SimpleNetwork.Asio.PlainKcp

/-! Two kcp sides over a network that may lose, repeat and reorder datagrams. Their
control blocks hold one conversation of the library. -/
namespace SimpleNetwork
open Words Outcome Runs Relation

def acceptedKcp {κ : Type} (K : Ikcp κ) (conv : UInt32) : Sock Circle κ :=
  { (acceptedSock : Sock Circle κ) with socket := { isOpen := true, kcp := some (K.create conv) } }

namespace Side
variable {κ : Type} {K : Ikcp κ} {conv : UInt32}

/-- A kcp side whose socket has just been opened. The accepting side has a control block,
and a connector has sent a datagram of zeros. -/
structure Introduced (K : Ikcp κ) (conv : UInt32) (a : Side (Peer κ)) : Prop where
  sent : a.sent = []
  deliveries : a.socket.deliveries = []
  recvBuff : a.socket.recvBuff = freshBuffer
  sendBuff : a.socket.sendBuff = freshBuffer
  block : a.socket.socket.kcp = none ∨ a.socket.socket.kcp = some (K.recorded.create conv)
  told : ∀ d ∈ datagrams a.socket, d = le32 0

theorem Introduced.inStep {a : Side (Peer κ)} (h : a.Introduced K conv) :
    a.InStep K conv (K.recorded.create conv) := by
  obtain ⟨hv, hc⟩ := freshBuffer_valid
  have hpeer : peer K conv a.socket = K.recorded.create conv := by
    rcases h.block with hk | hk <;> rw [peer, hk] <;> rfl
  have hquiet : ¬ Ready a.socket.recvBuff.contents := by
    rw [h.recvBuff, hc]
    decide
  refine hpeer ▸ inStep_of_talking
    ⟨h.recvBuff ▸ ⟨hv, freshBuffer_laddered⟩, h.sendBuff ▸ ⟨hv, freshBuffer_laddered⟩, ?_, ?_, ?_,
    fun d hd => .inl (h.told d hd)⟩ hquiet
  · rw [hpeer, h.sendBuff, hc, h.sent]
    rfl
  · rw [hpeer, h.deliveries, h.recvBuff, hc]
    exact accounts_nil _
  · rw [h.sent]
    exact fun _ hp => absurd hp List.not_mem_nil

/-- A connector that has connected. -/
theorem introduced_connector (K : Ikcp κ) (conv : UInt32) :
    Introduced K conv ⟨Connection.afterEvent .kcp K.recorded connector dialing, []⟩ := by
  obtain ⟨u, hu⟩ : ∃ u : Sock Circle (Peer κ),
      u = Connection.afterEvent .kcp K.recorded connector dialing := ⟨_, rfl⟩
  have htold : datagrams u = [le32 0] := by
    rw [hu]
    rfl
  rw [← hu]
  refine ⟨rfl, ?_, ?_, ?_, .inl ?_, fun d hd => List.mem_singleton.mp (htold ▸ hd)⟩
  all_goals
    rw [hu]
    rfl

/-- `connected()` on a kcp socket with nothing to send. -/
theorem connected_quiet {K : Ikcp κ} {s : Sock Circle κ} (hstate : s.state ≠ .connected)
    (hopen : s.socket.isOpen)
    (hsend : s.sendBuff = freshBuffer) : ∃ u, Connection.connected .kcp K unheard s = .ok () u ∧
    u.deliveries = s.deliveries ∧
      u.recvBuff = s.recvBuff ∧ u.sendBuff = freshBuffer ∧ u.socket.kcp = s.socket.kcp ∧
        datagrams u = datagrams s := by
  have hwrite (u : Sock Circle κ) (hu : u.sendBuff = freshBuffer) :
      Connection.doWrite .kcp K unheard u = .ok () u := by
    rw [Connection.doWrite_kcp, Connection.doWriteKcp_empty K _ (hu ▸ freshBuffer_valid.1)
      (hu ▸ freshBuffer_valid.2)]
  have hblock (u : Sock Circle κ) (hu : u.socket.isOpen) : Connection.nonBlocking u = .ok () u := by
    rw [Connection.nonBlocking, get_bind, if_pos hu]
    rfl
  obtain ⟨v, hv⟩ : ∃ v : Sock Circle κ, v = { s with
    state := .connected
    socket := { s.socket with
      trace := s.socket.trace ++ [⟨s.socket.session, s.socket.running, .setState .connected⟩] ++
          [⟨s.socket.session, s.socket.running, .onConnected⟩] ++
            [⟨s.socket.session, s.socket.running, .openSocket⟩] } } := ⟨_, rfl⟩
  have hfront : Connection.connected .kcp K unheard s =
    (Connection.nonBlocking >>= fun _ => Connection.doRead .kcp >>= fun _ =>
      Connection.doWrite .kcp K unheard) v := by
    rw [Connection.connected, get_bind, if_pos hstate, hv]
    rfl
  have hread : Connection.doRead .kcp v = .ok () { v with
      socket :=
        { v.socket with pending := v.socket.pending ++ [⟨.receive 0 Connection.kcpBufferSize, v.socket.session⟩] } } := rfl
  rw [hfront, bind_ok (hblock v (by rw [hv]; exact hopen)), bind_ok hread, hwrite _ (by rw [hv]; exact hsend)]
  refine ⟨_, rfl, ?_⟩
  rw [hv]
  refine ⟨rfl, rfl, hsend, rfl, ?_⟩
  simp only [datagrams, List.flatMap_append, List.flatMap_singleton, Action.datagrams, List.append_nil]

/-- A socket that the acceptor has handed over. -/
theorem introduced_accepted (K : Ikcp κ) (conv : UInt32) : ∃ s,
    Connection.connected .kcp K.recorded unheard (acceptedKcp K.recorded conv) = .ok () s ∧
      Introduced K conv ⟨Connection.settled s, []⟩ := by
  obtain ⟨s, hrun, hdeliveries, hrecv, hsend, hkcp, htold⟩ :=
    connected_quiet (K := K.recorded) (s := acceptedKcp K.recorded conv)
    nofun rfl rfl
  refine ⟨s, hrun, rfl, hdeliveries, hrecv, hsend, .inr hkcp, fun d hd => ?_⟩
  change d ∈ datagrams s at hd
  rw [htold] at hd
  exact absurd hd List.not_mem_nil

end Side

namespace Link
variable {κ : Type} {apps : Bool → Responder} {K : Ikcp κ} {conv : UInt32} {l₀ l l' : Link (Peer κ)}

/-- The two control blocks hold a conversation, and each side keeps in step with its own. -/
structure Conversing (K : Ikcp κ) (conv : UInt32) (l : Link (Peer κ)) (q : Bool → Peer κ) : Prop where
  conversed : K.Conversed conv q
  inStep : ∀ i, (l i).InStep K conv (q i)

theorem conversing_of_introduced
    (hopen : ∀ i, (l i).Introduced K conv) : Conversing K conv l fun _ => K.recorded.create conv :=
  ⟨.refl, fun i => (hopen i).inStep⟩

/-- An event moves the control block of its side, or ends the session and leaves it as it was. -/
theorem Conversing.step (hK : K.Promises) (hconv : conv ≠ 0) {q : Bool → Peer κ}
    {e : Bool × ConnectorEvent × Surroundings}
    (h : Conversing K conv l q) (hstep : DatagramStep .kcp apps K.recorded l e l')
    (hreturns : l.Returns .kcp apps K.recorded e) :
    (l e.1).socket.deliveries <+: (l' e.1).socket.deliveries ∧
      ∃ p, Conversing K conv l' (Function.update q e.1 p) ∧
        (p = q e.1 ∨ peer K conv (l' e.1).socket = p) := by
  have harrives : ∀ d ∈ arrivals e.2.1, d = le32 0 ∨ d ∈ (q !e.1).datagrams ∧ d.take 4 = le32 conv ∧
      d.length ≤ 1400 := by
    intro d hd
    exact ((h.inStep !e.1).1.told d (hstep.arrives d hd)).imp_right fun hout =>
      ⟨hout, hK.labelled h.conversed (!e.1) d hout⟩
  obtain ⟨hold, p, hsteps, hin, hlast⟩ :=
    (hstep.turn hreturns).advances hconv hK.copies (h.inStep e.1) harrives
  refine ⟨hold, p, ⟨h.conversed.move hsteps, fun i => ?_⟩, hlast⟩
  rcases Bool.eq_or_eq_not i e.1 with rfl | rfl
  · rw [Function.update_self]
    exact hin
  · rw [Function.update_of_ne (Bool.not_ne_self e.1), hstep.other]
    exact h.inStep _

private theorem conversing_of_run (hK : K.Promises) (hconv : conv ≠ 0) (hopen : ∀ i, (l₀ i).Introduced K conv)
    {events : List (Bool × ConnectorEvent × Surroundings)}
    (hrun : Run (Where (DatagramStep .kcp apps K.recorded) (Returns .kcp apps K.recorded)) l₀ events l) :
    ∃ q, Conversing K conv l q :=
  hrun.invariant (I := fun l => ∃ q, Conversing K conv l q)
    (fun h hstep => h.elim fun _ hq => (hq.step hK hconv hstep.1 hstep.2).2.elim fun _ hp =>
      ⟨_, hp.1⟩) ⟨_, conversing_of_introduced hopen⟩

/-- An event of one side in which `ikcp_send` refuses no message. -/
structure KcpStep (apps : Bool → Responder) (K : Ikcp κ) (l : Link (Peer κ))
    (e : Bool × ConnectorEvent × Surroundings)
    (l' : Link (Peer κ)) : Prop extends DatagramStep .kcp apps K.recorded l e l' where
  takes : ∀ p, (l' e.1).socket.socket.kcp = some p → p.accepted = p.offered

def converse (apps : Bool → Responder) (K : Ikcp κ) (l : Link (Peer κ))
    (e : Bool × ConnectorEvent × Surroundings) :
    Option (Link (Peer κ)) := do
  let l' ← l.relay .kcp apps K.recorded e
  if (l' e.1).socket.socket.kcp.all (fun p => p.accepted = p.offered) then some l' else none

private theorem step_of_converse {e : Bool × ConnectorEvent × Surroundings}
    (h : l.converse apps K e = some l') :
    Where (KcpStep apps K) (Returns .kcp apps K.recorded) l e l' := by
  obtain ⟨r, hrelay, h⟩ := Option.bind_eq_some_iff.mp h
  split at h
  · rename_i hall
    cases h
    obtain ⟨hstep, hreturns⟩ := step_of_relay hrelay
    refine ⟨⟨hstep, fun p hp => ?_⟩, hreturns⟩
    rw [hp] at hall
    exact of_decide_eq_true hall
  · cases h

def Attuned (K : Ikcp κ) (conv : UInt32) (l : Link (Peer κ)) : Prop :=
  ∃ q, Conversing K conv l q ∧ ∀ i, (q i).accepted = (q i).offered

theorem Attuned.step (hK : K.Promises) (hconv : conv ≠ 0) {e : Bool × ConnectorEvent × Surroundings}
    (h : Attuned K conv l)
    (hstep : KcpStep apps K l e l') (hreturns : l.Returns .kcp apps K.recorded e) : Attuned K conv l' := by
  obtain ⟨q, hq, htakes⟩ := h
  obtain ⟨-, p, hp, hlast⟩ := hq.step hK hconv hstep.toDatagramStep hreturns
  refine ⟨_, hp, fun i => ?_⟩
  rcases Bool.eq_or_eq_not i e.1 with rfl | rfl
  · rw [Function.update_self]
    rcases hlast with rfl | hpeer
    · exact htakes _
    · cases hk : (l' e.1).socket.socket.kcp with
      | none =>
        rw [peer, hk] at hpeer
        exact hpeer ▸ rfl
      | some r =>
        rw [peer, hk, Option.getD_some] at hpeer
        exact hpeer ▸ hstep.takes r hk
  · rw [Function.update_of_ne (Bool.not_ne_self e.1)]
    exact htakes _

section Streams
variable (hK : K.Promises) {q : Bool → Peer κ} (h : Conversing K conv l q) (i : Bool)
  (htakes : (q !i).accepted = (q !i).offered)
include hK h htakes

/-- What a side has been handed is the front of what the other has sent. -/
theorem Conversing.accounts : (q i).handed.flatten <+: encodePackets (l !i).sent ∧
    ∀ p ∈ (l !i).sent, p.length + 4 < 2 ^ 32 := by
  refine ⟨(htakes ▸ hK.ordered h.conversed i).flatten.trans (h.inStep !i).1.sent, fun p hp => ?_⟩
  have hsmall := (h.inStep !i).1.small p hp
  unfold ringLimit at hsmall
  omega

theorem Conversing.in_order : (l i).delivered <+: (l !i).sent := by
  obtain ⟨rest, haccounts, -⟩ := (h.inStep i).1.received
  obtain ⟨hstream, hsmall⟩ := h.accounts hK i htakes
  exact (haccounts.in_order hsmall hstream).1

/-- When everything the other side has sent has been handed out, it has all been delivered. -/
theorem Conversing.all_delivered (hall : (q i).handed.flatten = encodePackets (l !i).sent) :
    (l i).delivered = (l !i).sent := by
  obtain ⟨rest, haccounts, hquiet⟩ := (h.inStep i).1.received
  exact haccounts.all_delivered (h.accounts hK i htakes).2 hall hquiet

end Streams

/-- A connector that has sent its first datagram, and the socket that the acceptor has
made for it, with a control block. -/
def introduced : Link (Peer PlainKcp)
  | true => ⟨Connection.afterEvent .kcp plainKcp.recorded connector dialing, []⟩
  | false => match Connection.connected .kcp plainKcp.recorded unheard (acceptedKcp plainKcp.recorded 1) with
    | .ok _ s => ⟨Connection.settled s, []⟩
    | .error _ s => ⟨s, []⟩

theorem introduced_introduced (i : Bool) : (introduced i).Introduced plainKcp 1 := by
  cases i with
  | true =>
    unfold introduced
    exact Side.introduced_connector plainKcp 1
  | false =>
    obtain ⟨s, hrun, hopen⟩ := Side.introduced_accepted plainKcp 1
    unfold introduced
    rw [hrun]
    exact hopen

/-- A packet each way. The connector sends its own before it has a control block. -/
def greeting : List (Bool × ConnectorEvent × Surroundings) :=
  [(true, .call (.send [42, 43, 0, 0]), {}),
   (false, .call (.send [7]), {}),
   (false, .tick 0, {}),
   (false, .tick 20, { answers := [⟨.success, [], 0⟩] }),
   (true, .complete 0 .success (PlainKcp.segment 1 PlainKcp.push 128 20 0 0 [1, 0, 0, 0, 7]), {}),
   (true, .tick 40, { answers := [⟨.success, [], 0⟩], rounds := 1 }),
   (true, .tick 60, { answers := [⟨.success, [], 0⟩] }),
   (false, .complete 0 .success (PlainKcp.segment 1 PlainKcp.push 128 60 0 1 [4, 0, 0, 0, 42, 43, 0, 0]), {}),
   (false, .tick 80, { answers := [⟨.success, [], 0⟩], rounds := 1 })]

theorem greeting_runs : ∃ l, Run (Where (KcpStep (fun i => if i then .listener else .mirror) plainKcp)
    (Returns .kcp (fun i => if i then .listener else .mirror) plainKcp.recorded)) introduced greeting l ∧
    (l true).sent = [[42, 43, 0, 0]] ∧ (l true).delivered = [[7]] ∧
    (l false).delivered = [[42, 43, 0, 0]] := by
  obtain ⟨l, hl⟩ : ∃ l, greeting.foldlM
      (converse (fun i => if i then .listener else .mirror) plainKcp) introduced = some l :=
    Option.isSome_iff_exists.mp (by decide +kernel)
  have hheard : (greeting.foldlM
    (converse (fun i => if i then .listener else .mirror) plainKcp) introduced).map
      (fun l => ((l true).sent, (l true).delivered, (l false).delivered)) =
        some ([[42, 43, 0, 0]], [[7]], [[42, 43, 0, 0]]) := by decide +kernel
  rw [hl, Option.map_some, Option.some.injEq, Prod.mk.injEq, Prod.mk.injEq] at hheard
  exact ⟨l, .of_foldlM step_of_converse hl, hheard⟩

end Link

/-- Whatever the network loses, repeats and reorders, the two sockets only take their
control blocks through one conversation of the library, under the acceptor's number.
As long as every event returns, they offer it the packets' bytes in order and without
gaps, and what they hand to the network is what the blocks have output, or the zeros of
a connector. -/
theorem kcp_link_converses {κ : Type} {apps : Bool → Responder} {K : Ikcp κ} (hK : K.Promises)
    {conv : UInt32} (hconv : conv ≠ 0)
    {l₀ l : Link (Peer κ)} (hopen : ∀ i, (l₀ i).Introduced K conv)
    {events : List (Bool × ConnectorEvent × Surroundings)}
    (hrun : Run (Where (Link.DatagramStep .kcp apps K.recorded) (Link.Returns .kcp apps K.recorded))
      l₀ events l) :
    ∃ q, K.Conversed conv q ∧ ∀ i,
      ((l i).socket.state = .connected → ∀ p, (l i).socket.socket.kcp = some p → p = q i) ∧
      (q i).offered.flatten <+: encodePackets (l i).sent ∧ ∀ d ∈ datagrams (l i).socket,
        d = le32 0 ∨ d ∈ (q i).datagrams := by
  obtain ⟨q, hq⟩ := Link.conversing_of_run hK hconv hopen hrun
  refine ⟨q, hq.conversed, fun i => ⟨fun hup p hp => ?_, (hq.inStep i).1.sent, (hq.inStep i).1.told⟩⟩
  rw [← ((hq.inStep i).2 hup).1, peer, hp, Option.getD_some]

theorem kcp_link_converses_greeting : ∃ l : Link (Peer PlainKcp), (l true).delivered = [[7]] ∧ ∃ q,
    plainKcp.Conversed 1 q ∧ ∀ i,
    ((l i).socket.state = .connected → ∀ p, (l i).socket.socket.kcp = some p → p = q i) ∧
      (q i).offered.flatten <+: encodePackets (l i).sent ∧ ∀ d ∈ datagrams (l i).socket,
        d = le32 0 ∨ d ∈ (q i).datagrams := by
  obtain ⟨l, hrun, -, htrue, -⟩ := Link.greeting_runs
  exact ⟨l, htrue, kcp_link_converses plainKcp_promises (by decide) Link.introduced_introduced
    (hrun.mono fun h => ⟨h.1.toDatagramStep, h.2⟩)⟩

/-- Over kcp the packets arrive once each and in order, as long as `ikcp_send` refuses
nothing and every event returns: what a side has been given is the front of what the
other has sent, and, while the side is connected, all of it once the library has handed
out every byte. -/
theorem kcp_link_in_order {κ : Type} {apps : Bool → Responder} {K : Ikcp κ} (hK : K.Promises)
    {conv : UInt32} (hconv : conv ≠ 0)
    {l₀ l : Link (Peer κ)} (hopen : ∀ i, (l₀ i).Introduced K conv)
    {events : List (Bool × ConnectorEvent × Surroundings)}
    (hrun : Run (Where (Link.KcpStep apps K) (Link.Returns .kcp apps K.recorded)) l₀ events l) (i : Bool) :
    (l i).delivered <+: (l !i).sent ∧
    ((l i).socket.state = .connected → ∀ p, (l i).socket.socket.kcp = some p →
      p.handed.flatten = encodePackets (l !i).sent → (l i).delivered = (l !i).sent) := by
  obtain ⟨q, hq, htakes⟩ : Link.Attuned K conv l :=
    hrun.invariant (fun h hstep => h.step hK hconv hstep.1 hstep.2)
    ⟨_, Link.conversing_of_introduced hopen, fun _ => rfl⟩
  refine ⟨hq.in_order hK i (htakes _), fun hup p hp hall => hq.all_delivered hK i (htakes _) ?_⟩
  have hpeer : peer K conv (l i).socket = q i := ((hq.inStep i).2 hup).1
  rw [← hpeer, peer, hp, Option.getD_some]
  exact hall

theorem kcp_link_in_order_greeting : ∃ l : Link (Peer PlainKcp), (l false).delivered = [[42, 43, 0, 0]] ∧
    (l false).delivered <+: (l true).sent ∧
    ((l false).socket.state = .connected → ∀ p, (l false).socket.socket.kcp = some p →
      p.handed.flatten = encodePackets (l true).sent → (l false).delivered = (l true).sent) := by
  obtain ⟨l, hrun, -, -, hfalse⟩ := Link.greeting_runs
  exact ⟨l, hfalse, kcp_link_in_order plainKcp_promises (by decide) Link.introduced_introduced hrun false⟩

end SimpleNetwork
