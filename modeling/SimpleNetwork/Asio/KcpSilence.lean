import SimpleNetwork.Asio.KcpLink

/-! A kcp connector has no control block until the accepting side has sent something.
Where that side waits for the connector, neither of them ever hears a packet. -/
namespace SimpleNetwork
open Words Outcome Runs Connection

/-- A kcp socket that has no control block, has been given no packet and has sent only zeros. -/
structure Mute {κ : Type} (s : Sock Circle κ) : Prop where
  block : s.socket.kcp = none
  deliveries : s.deliveries = []
  told : ∀ d ∈ datagrams s, d = le32 0

section Mute
variable {κ α : Type} {K : Ikcp κ} {cb : Callbacks Circle κ}

private theorem mute_modify {f : Sock Circle κ → Sock Circle κ}
    (hkcp : ∀ s, (f s).socket.kcp = s.socket.kcp ∨ (f s).socket.kcp = none)
    (hdeliveries : ∀ s, (f s).deliveries = s.deliveries) (htrace : ∀ s, (f s).socket.trace = s.socket.trace) :
    Keeps Mute (modify f : EStateM Fault (Sock Circle κ) Unit) Mute :=
  .modify fun s h => ⟨(hkcp s).elim (fun hk => hk.trans h.block) id,
    (hdeliveries s).trans h.deliveries, fun d hd => h.told d (by
    rw [datagrams, htrace] at hd
    exact hd)⟩

private theorem mute_note {action : Action} (haction : action.datagrams = []) :
    Keeps (Mute : Sock Circle κ → Prop) (note action) Mute :=
  .modify fun s h => by
    refine ⟨h.block, h.deliveries, fun d hd => h.told d ?_⟩
    change d ∈ (s.socket.trace ++ [_]).flatMap _ at hd
    rw [List.flatMap_append, List.flatMap_singleton, haction, List.append_nil] at hd
    exact hd

private theorem mute_setState (state : ConnectionState) :
    Keeps (Mute : Sock Circle κ → Prop) (setState state) Mute :=
  .bind (mute_modify (fun _ => .inl rfl) (fun _ => rfl) fun _ => rfl) fun _ => mute_note rfl

private theorem mute_send (x : EStateM Fault Circle α) : Keeps (Mute : Sock Circle κ → Prop) (send x) Mute :=
  .zoom (fun _ _ h => ⟨h.block, h.deliveries, h.told⟩) fun _ h => h

/-- Without a control block `do_write()` does nothing. -/
theorem mute_doWrite : Keeps (Mute : Sock Circle κ → Prop) (doWrite .kcp K cb) Mute := by
  refine .get fun s h => ?_
  rw [doWriteKcp]
  refine .get fun u hu => ?_
  subst hu
  rw [h.block]
  exact .pure fun _ hu => hu ▸ h

private theorem mute_holding {w : Writer} {x : EStateM Fault (Sock Circle κ) α}
    (hx : Keeps Mute x Mute) : Keeps Mute (holding w x) Mute :=
  .tryCatch hx fun _ => .bind (mute_send _) fun _ => .throw fun _ h => h

/-- A packet stays in the ring, also when it does not fit. -/
theorem mute_sendPacket (payload : List UInt8) :
    Keeps (Mute : Sock Circle κ → Prop) (sendPacket .kcp K cb payload) Mute := by
  refine .bind (mute_send _) fun w => .bind (mute_holding (mute_send _)) fun w => ?_
  exact .bind (mute_holding (.bind (mute_send _) fun _ => mute_doWrite)) fun _ => mute_send _

private theorem mute_close (hquiet : cb.onDisconnected = pure ()) :
    Keeps (Mute : Sock Circle κ → Prop) (close .kcp cb) Mute := by
  refine .bind (.bind (mute_modify (fun _ => .inl rfl) (fun _ => rfl) fun _ => rfl) fun _ =>
    mute_note rfl) fun _ => ?_
  refine .bind (.look fun s _ => .ite (fun _ => ?_) fun _ => .pure fun _ h => h) fun _ =>
    .look fun s _ => .ite (fun _ => ?_) fun _ => .pure fun _ h => h
  · refine .bind (mute_setState _) fun _ => .bind (mute_note rfl) fun _ => ?_
    rw [hquiet]
    exact .pure fun _ h => h
  · exact .bind (mute_modify (fun _ => .inr rfl) (fun _ => rfl) fun _ => rfl) fun _ => mute_note rfl

private theorem mute_disconnect (hquiet : cb.onDisconnected = pure ()) :
    Keeps (Mute : Sock Circle κ → Prop) (disconnect .kcp cb) Mute := by
  refine .look fun s _ => .ite (fun _ => .pure fun _ h => h) fun _ => ?_
  refine .bind (mute_setState _) fun _ => .bind (mute_close hquiet) fun _ => .bind (mute_note rfl) fun _ => ?_
  rw [hquiet]
  exact .pure fun _ h => h

/-- The datagram of zeros is dropped. -/
theorem handleReceiveKcp_zeros (K : Ikcp κ) (cb : Callbacks Circle κ) (s : Sock Circle κ) :
    ∃ s', handleReceiveKcp K cb .success (le32 0) s = .ok () s' ∧ s'.socket.kcp = s.socket.kcp ∧
      s'.deliveries = s.deliveries ∧
      datagrams s' = datagrams s := by
  refine ⟨_, rfl, rfl, rfl, ?_⟩
  change (s.socket.trace ++ [_]).flatMap _ = _
  rw [List.flatMap_append, List.flatMap_singleton]
  exact List.append_nil _

/-- Only a datagram with a conversation number makes a control block. -/
theorem mute_receive (hquiet : cb.onDisconnected = pure ()) {ec : ErrorCode} {data : List UInt8}
    (hzeros : ec = .success → data = le32 0) :
    Keeps (Mute : Sock Circle κ → Prop) (handleReceiveKcp K cb ec data) Mute := by
  by_cases hec : ec = .success
  · rw [hec, hzeros hec]
    refine .pinned fun s h => ?_
    obtain ⟨u, hrun, hkcp, hdeliveries, htold⟩ := handleReceiveKcp_zeros K cb s
    constructor
    · rintro _ _ _ rfl hreturn
      cases hrun.symm.trans hreturn
      exact ⟨hkcp.trans h.block, hdeliveries.trans h.deliveries, htold ▸ h.told⟩
    · rintro _ _ _ rfl hfault
      cases hrun.symm.trans hfault
  · rw [handleReceiveKcp, if_pos hec]
    exact mute_close hquiet

private theorem mute_tick (rounds : Nat) (current : UInt32) :
    Keeps (Mute : Sock Circle κ → Prop) (update K cb rounds current) Mute := by
  refine .get fun s h => ?_
  rw [h.block]
  exact .pure fun _ hs => hs ▸ h

/-- Whatever a session without a control block does, also when an exception leaves it. -/
theorem mute_event (hquiet : cb.onDisconnected = pure ()) {rounds : Nat} {event : ConnectorEvent}
    (hsame : event ≠ .call .connect)
    (hzeros : ∀ d ∈ arrivals event, d = le32 0) : Keeps (Mute : Sock Circle κ → Prop)
    (Connection.event .kcp K rounds cb event) Mute := by
  cases event with
  | call call =>
    cases call with
    | connect => exact absurd rfl hsame
    | disconnect => exact .bind (mute_disconnect hquiet) fun _ => .pure fun _ h => h
    | send payload => exact .bind (mute_sendPacket payload) fun _ => .pure fun _ h => h
  | complete i ec data =>
    refine .look fun s _ => ?_
    split
    · exact .pure fun _ h => h
    · rename_i p _
      refine .bind (mute_modify (fun _ => .inl rfl) (fun _ => rfl) fun _ => rfl) fun _ => ?_
      obtain ⟨operation, session⟩ := p
      cases operation with
      | receive place space =>
        refine mute_receive hquiet fun hec => ?_
        subst hec
        exact hzeros data List.mem_cons_self
      | _ => exact .pure fun _ h => h
  | tick current => exact mute_tick rounds current

end Mute

/-- A side without a control block stays as it is, whatever its application sends. -/
theorem Side.Step.mute {κ : Type} {app : Responder} {K : Ikcp κ} {a a' : Side κ}
    {e : ConnectorEvent × Surroundings}
    (h : Mute a.socket) (hstep : a.Step .kcp app K e a')
    (hzeros : ∀ d ∈ arrivals e.1, d = le32 0) : Mute a'.socket := by
  have hkeeps : Keeps Mute (Connection.event .kcp K e.2.rounds (app.callbacks .kcp K) e.1) Mute :=
    mute_event rfl hstep.same hzeros
  have hstart : Mute (surrounded e.2 a.socket) := ⟨h.block, h.deliveries, h.told⟩
  have hleft := hstep.left
  cases hrun : a.outcome .kcp app K e with
  | ok _ s =>
    obtain ⟨hblock, hdeliveries, htold⟩ := hkeeps.returns hstart hrun
    rw [hrun] at hleft
    cases hleft
    exact ⟨hblock, hdeliveries, htold⟩
  | error fault s =>
    obtain ⟨hblock, hdeliveries, htold⟩ := hkeeps.faults hstart hrun
    rw [hrun] at hleft
    rw [hleft.2.1]
    exact ⟨hblock, hdeliveries, htold⟩

namespace Link
variable {κ : Type} {apps : Bool → Responder} {K : Ikcp κ} {conv : UInt32} {i : Bool}
  {l l' : Link (Peer κ)} {p : Peer κ}

/-- Both control blocks of a connection on which only the given side has one. -/
def alone (K : Ikcp κ) (conv : UInt32) (i : Bool) (p : Peer κ) : Bool → Peer κ :=
  Function.update (fun _ => K.recorded.create conv) i p

private theorem alone_this : alone K conv i p i = p := Function.update_self _ _ _

private theorem alone_other : alone K conv i p (!i) = K.recorded.create conv :=
  Function.update_of_ne (Bool.not_ne_self i) _ _

/-- The invariant of a connection whose given side, the accepting one, waits for the other. -/
structure Waiting (K : Ikcp κ) (conv : UInt32) (i : Bool) (l : Link (Peer κ)) (p : Peer κ) : Prop where
  conversed : K.Conversed conv (alone K conv i p)
  inStep : (l i).InStep K conv p
  mute : Mute (l !i).socket
  sent : (l i).sent = []
  silent : p.datagrams = []

/-- The accepting side is given nothing, as the other has taken no message. -/
theorem deliveries_alone (hK : K.Promises) (h : K.Conversed conv (alone K conv i p))
    (hin : (l i).InStep K conv p) :
    (l i).socket.deliveries = [] := by
  obtain ⟨rest, haccounts, -⟩ := hin.1.received
  have hordered := hK.ordered h i
  rw [alone_this, alone_other] at hordered
  rw [List.prefix_nil.mp hordered] at haccounts
  have hfront :=
    (haccounts.in_order (fun p hp => absurd hp List.not_mem_nil)
      (show _ <+: encodePackets [] from List.prefix_rfl)).1
  exact List.map_eq_nil_iff.mp (List.prefix_nil.mp hfront)

theorem Waiting.told (h : Waiting K conv i l p) (j : Bool) : ∀ d ∈ datagrams (l j).socket, d = le32 0 := by
  rcases Bool.eq_or_eq_not j i with rfl | rfl
  · intro d hd
    refine (h.inStep.1.told d hd).resolve_right ?_
    rw [h.silent]
    exact List.not_mem_nil
  · exact h.mute.told

theorem Waiting.step (hK : K.Promises) (hsilent : K.Silent) (hconv : conv ≠ 0)
    {e : Bool × ConnectorEvent × Surroundings}
    (h : Waiting K conv i l p) (hstep : DatagramStep .kcp apps K.recorded l e l')
    (hreturns : e.1 = i → l.Returns .kcp apps K.recorded e)
    (hquiet : e.1 = i → Side.called e.2.1 = []) : ∃ p', Waiting K conv i l' p' := by
  have hzeros : ∀ d ∈ arrivals e.2.1, d = le32 0 := fun d hd => h.told _ d (hstep.arrives d hd)
  rcases Bool.eq_or_eq_not e.1 i with rfl | hi
  · -- the accepting side is given nothing, so it answers nothing, and its block has nothing to output
    have hturn := hstep.turn (hreturns rfl)
    have hadvances : Side.Advances K conv [] p (l e.1) (l' e.1) :=
      hturn.advances hconv hK.copies h.inStep fun d hd => .inl (hzeros d hd)
    obtain ⟨-, p', hsteps, hin, -⟩ := hadvances
    have hconversed : K.Conversed conv (alone K conv e.1 p') := by
      have hheard : (alone K conv e.1 p !e.1).datagrams = [] := by
        rw [alone_other]
        rfl
      have hmoved := h.conversed.move (i := e.1) (p := p') (by rw [hheard, alone_this]; exact hsteps)
      rwa [alone, Function.update_idem] at hmoved
    have hsent : (l' e.1).sent = [] := by
      rw [hturn.sent, h.sent, hquiet rfl, deliveries_alone hK hconversed hin, List.drop_nil]
      rfl
    have hbytes : p'.offered.flatten = [] := by
      have hfront := hin.1.sent
      rw [hsent] at hfront
      exact List.prefix_nil.mp hfront
    have hoffers : Ikcp.Offers (alone K conv e.1 p' e.1) := hconversed.offers e.1
    rw [alone_this] at hoffers
    have hsilence := hsilent hconversed e.1
    rw [alone_this, alone_other] at hsilence
    exact ⟨p', hconversed, hin, hstep.other ▸ h.mute, hsent, hsilence (hoffers.nothing hbytes).2 rfl⟩
  · -- the connector hears no conversation number
    obtain rfl : i = !e.1 := by rw [hi, Bool.not_not]
    refine ⟨p, h.conversed, hstep.other ▸ h.inStep, ?_, hstep.other ▸ h.sent, h.silent⟩
    have hmute := h.mute
    rw [Bool.not_not] at hmute ⊢
    exact hstep.side.mute hmute hzeros

/-- The connector sends, and the accepting side, which waits for it, hears the zeros again. -/
def expecting : List (Bool × ConnectorEvent × Surroundings) :=
  [(true, .call (.send [42, 43, 0, 0]), {}),
   (true, .tick 0, {}),
   (false, .tick 0, {}),
   (false, .complete 0 .success [0, 0, 0, 0], {}),
   (false, .tick 20, {})]

private theorem expecting_runs :
    ∃ l, Run (Where (DatagramStep .kcp
      (fun i => if i then .listener else .mirror) plainKcp.recorded)
    (Returns .kcp (fun i => if i then .listener else .mirror) plainKcp.recorded)) introduced expecting l ∧
    (l true).sent = [[42, 43, 0, 0]] := by
  obtain ⟨l, hl⟩ : ∃ l, expecting.foldlM
      (relay .kcp (fun i => if i then .listener else .mirror) plainKcp.recorded) introduced = some l :=
    Option.isSome_iff_exists.mp (by decide +kernel)
  have hsent : (expecting.foldlM
    (relay .kcp (fun i => if i then .listener else .mirror) plainKcp.recorded) introduced).map
      (fun l => (l true).sent) = some [[42, 43, 0, 0]] := by decide +kernel
  rw [hl, Option.map_some, Option.some.injEq] at hsent
  exact ⟨l, .of_foldlM step_of_relay hl, hsent⟩

end Link

/-- Where the accepting side only answers, nothing is ever heard over kcp: whatever the
connector sends, and whatever exceptions leave its events, it has no control block to
send it with, and neither side is given a packet. -/
theorem kcp_needs_acceptor_first {κ : Type} {apps : Bool → Responder} {K : Ikcp κ} (hK : K.Promises)
    (hsilent : K.Silent)
    {conv : UInt32} (hconv : conv ≠ 0) {l₀ l : Link (Peer κ)}
    (hopen : ∀ i, (l₀ i).Introduced K conv) (i : Bool)
    (hconnector : (l₀ !i).socket.socket.kcp = none) {events : List (Bool × ConnectorEvent × Surroundings)}
    (hrun : Run (Where (Link.DatagramStep .kcp apps K.recorded) fun l e => e.1 = i →
      l.Returns .kcp apps K.recorded e) l₀ events l)
    (hquiet : ∀ e ∈ events, e.1 = i → Side.called e.2.1 = []) :
    (l !i).socket.socket.kcp = none ∧ ∀ j, (l j).delivered = [] ∧ ∀ d ∈ datagrams (l j).socket,
    d = le32 0 := by
  obtain ⟨p, h⟩ : ∃ p, Link.Waiting K conv i l p := by
    refine (hrun.restrict hquiet).invariant (I := fun l => ∃ p, Link.Waiting K conv i l p)
      (fun h hstep => h.elim fun _ hp => hp.step hK hsilent hconv hstep.1.1 hstep.1.2 hstep.2)
        ⟨K.recorded.create conv, ?_⟩
    refine ⟨?_, (hopen i).inStep, ⟨hconnector, (hopen !i).deliveries, (hopen !i).told⟩, (hopen i).sent, rfl⟩
    rw [Link.alone, Function.update_eq_self]
    exact .refl
  refine ⟨h.mute.block, fun j => ⟨?_, h.told j⟩⟩
  rw [Side.delivered, List.map_eq_nil_iff]
  rcases Bool.eq_or_eq_not j i with rfl | rfl
  · exact Link.deliveries_alone hK h.conversed h.inStep
  · exact h.mute.deliveries

theorem kcp_needs_acceptor_first_expecting : ∃ l : Link (Peer PlainKcp), (l true).sent = [[42, 43, 0, 0]] ∧
    (l true).socket.socket.kcp = none ∧ ∀ j, (l j).delivered = [] ∧ ∀ d ∈ datagrams (l j).socket,
    d = le32 0 := by
  obtain ⟨l, hrun, hsent⟩ := Link.expecting_runs
  refine ⟨l, hsent, kcp_needs_acceptor_first plainKcp_promises plainKcp_silent
    (by decide) Link.introduced_introduced false ?_
    (hrun.mono fun h => ⟨h.1, fun _ => h.2⟩) ?_⟩
  · decide +kernel
  · decide

end SimpleNetwork
