import SimpleNetwork.Asio.Interface
import SimpleNetwork.Asio.Sessions
import SimpleNetwork.Reactor.Framing

/-! Datagrams between two udp sockets. The receiving ring is reset after every
datagram and never grows, so a receive is offered 1023 bytes, whatever the
sending side puts into one datagram. -/
namespace SimpleNetwork
open Outcome Words Runs

def Action.isReentry : Action → Bool
  | .connect _ inRecv => inRecv
  | _ => false

/-- `connect()` was called from inside an `on_recv`. -/
def Asio.Reentered {κ : Type} (a : Asio κ) : Prop := ∃ e ∈ a.trace, e.action.isReentry

instance {κ : Type} (a : Asio κ) : Decidable a.Reentered := inferInstanceAs (Decidable (∃ e ∈ a.trace, _))

def Plain (c : Circle) (pending : List Pending) : Prop :=
  c.data.mem.length = 1024 ∧ c.data.maxSize = 409600 ∧ ∀ p ∈ pending, p.operation = .receive 0 1023

def AtStart (c : Circle) (pending : List Pending) : Prop := c.head = 0 ∧ c.tail = 0 ∧ Plain c pending

namespace Connection
variable {κ : Type} {K : Ikcp κ} {cb : Callbacks Circle κ}

/-- A predicate on the receiving side: the ring, the log of deliveries, and the receives. -/
abbrev Side := Circle → List (Delivery Circle) → List Pending → Prop

/-- What is known of the receiving side, inside an `on_recv` or not, unless an
`on_recv` has reconnected. -/
def Known {ι : Type} (flag : ι → Bool) (G : ι → Side) (i : ι) (s : Sock Circle κ) : Prop :=
  s.socket.inRecv = flag i ∧ (s.socket.Reentered ∨ G i s.recvBuff s.deliveries s.socket.pending)

theorem Reentered.append {a : Asio κ} (h : a.Reentered) (entry : Entry) :
    Asio.Reentered { a with trace := a.trace ++ [entry] } := by
  obtain ⟨e, he, hn⟩ := h
  exact ⟨e, List.mem_append_left _ he, hn⟩

section Family
variable {ι : Type} {flag : ι → Bool} {G : ι → Side} {E : Sock Circle κ → Prop}
  (hexit : ∀ {i s}, Known flag G i s → E s)
include hexit

private theorem known_framed : Framed .udp (Known flag G) E where
  exit := hexit
  noted _ := Triple.modify fun _ h => ⟨h.1, h.2.imp_left fun hr => Reentered.append hr _⟩
  state _ h := h
  steered {i s a} ha h := by
    have hpending : a.steering.pending = s.socket.pending := by rw [ha]; rfl
    have htrace : a.steering.trace = s.socket.trace := by rw [ha]; rfl
    have hinRecv : a.steering.inRecv = s.socket.inRecv := by rw [ha]; rfl
    change a.pending = _ at hpending
    change a.trace = _ at htrace
    change a.inRecv = _ at hinRecv
    unfold Known Asio.Reentered at h ⊢
    rw [hpending, htrace, hinRecv]
    exact h
  resets ht := nomatch ht
  releases ht := nomatch ht

private theorem known_send {α : Type} {x : EStateM Fault Circle α} {i : ι} :
    Keeps (Known flag G i) (send x) E :=
  Triple.zoom (fun _ _ h => h) fun _ h => hexit h

theorem known_resetSend {i : ι} : Keeps (Known flag G i) resetSend E :=
  Triple.bind (Triple.modify fun _ h => h) fun _ => (known_framed hexit).noted rfl

private theorem known_stagedBytes {i : ι} (count : UInt64) :
    Keeps (Known flag G i) (stagedBytes count) E := by
  unfold stagedBytes
  refine Triple.look fun s _ => ?_
  refine Triple.bind (known_send hexit) fun first => ?_
  refine Triple.bind (store_keeps (fun _ h => hexit h) _ _ _) fun staged => ?_
  refine Triple.bind (known_send hexit) fun _ => ?_
  refine Triple.look fun s _ => ?_
  refine Triple.bind (known_send hexit) fun second => ?_
  refine Triple.bind (store_keeps (fun _ h => hexit h) _ _ _) fun staged => ?_
  exact load_keeps (fun _ h => hexit h) _ _ _

theorem known_doWriteUdp (hcb : Obeys (Known flag G) E cb) {i : ι} :
    Keeps (Known flag G i) (doWriteUdp cb) E := by
  have hrest (bytes : List UInt8) : Keeps (Known flag G i) (do
      let ec ← sendDatagram bytes
      if ec ≠ .success then close .udp cb else pure ()
      resetSend) E := by
    refine Triple.bind ((known_framed hexit).sendDatagram bytes) fun ec =>
      Triple.ite (fun _ => ?_) fun _ => ?_
    · exact Triple.bind ((known_framed hexit).close hcb) fun _ => known_resetSend hexit
    · exact known_resetSend hexit
  unfold doWriteUdp
  refine Triple.look fun s _ => Triple.ite (fun _ => ?_) fun _ => Triple.pure fun _ h => h
  refine Triple.ite (fun _ => ?_) fun _ => ?_
  · exact Triple.bind (known_send hexit) hrest
  · exact Triple.bind (known_stagedBytes hexit _) hrest

/-- The application's calls keep such knowledge. A `connect()` from inside an
`on_recv` leaves nothing to know. -/
theorem known_interface {begun : ι → ι} (hsend : ∀ {s : Sock Circle κ} {b}, E s → E { s with sendBuff := b })
    (hflag : ∀ i, flag (begun i) = flag i) (hback : ∀ i c d p, G (begun i) c d p → G i c d p)
    (hbegin : ∀ i c d p, flag i = false → G i c d p → G (begun i) c d p)
    (hread : ∀ i c d p, G (begun i) c d p → ∃ n, Circle.getContinguiousSpace c = .ok n c ∧
      ∀ session, G (begun i) c d (p ++ [⟨.receive c.tail n, session⟩])) :
    Interface .udp K (Known flag G) begun E where
  steered := (known_framed hexit).steered
  disconnects hcb := (known_framed hexit).disconnect hcb
  framed := (known_framed hexit).along begun
  inRecv hs hu := ⟨hs.1, hu.2⟩
  opened := known_send hexit
  put _ _ := known_send hexit
  flushed _ := known_send hexit
  destroyed _ := known_send hexit
  undone _ := Triple.zoom (fun _ _ h => hsend h) fun _ h => h
  write hcb := known_doWriteUdp hexit hcb
  begins {i cb} hcb := by
    refine Triple.bind (Q := fun _ => Known flag G (begun i)) ?_ fun _ => (known_framed hexit).close hcb
    refine Triple.get fun s hs => ?_
    refine Triple.bind (Q := fun _ u =>
      u = { s with socket := { s.socket with session := s.socket.session + 1 } })
      (Triple.modify fun _ h => h ▸ rfl) fun _ => Triple.modify ?_
    rintro _ rfl
    refine ⟨hs.1.trans (hflag i).symm, ?_⟩
    cases hf : flag i with
    | true =>
      exact .inl ⟨_, List.mem_append_right _ List.mem_cons_self, hs.1.trans hf⟩
    | false => exact hs.2.imp (fun hr => Reentered.append hr _) fun hg => hbegin i _ _ _ hf hg
  back {i s} h := ⟨h.1.trans (hflag i), h.2.imp_right (hback i _ _ _)⟩
  read {i} := by
    constructor
    · intro s a t hs hrun
      obtain ⟨n, u, hspace, hstart⟩ := bind_eq_ok.mp hrun
      cases hstart
      obtain ⟨c, hq, rfl⟩ := recv_eq_ok hspace
      rcases hs.2 with hr | hg
      · exact ⟨hs.1, .inl hr⟩
      · obtain ⟨m, hq', hnext⟩ := hread i _ _ _ hg
        cases hq.symm.trans hq'
        exact ⟨hs.1, .inr (hnext _)⟩
    · intro s e t hs hrun
      rcases bind_eq_error.mp hrun with hspace | ⟨n, u, -, hstart⟩
      · obtain ⟨c, hq, rfl⟩ := recv_eq_error hspace
        rcases hs.2 with hr | hg
        · exact hexit (i := begun i) ⟨hs.1, .inl hr⟩
        · obtain ⟨m, hq', -⟩ := hread i _ _ _ hg
          cases hq.symm.trans hq'
      · cases hstart
  dial ht := nomatch ht

end Family

/-- A ring of the default size offers all of itself but the cell that stays free. -/
theorem atStart_ring {c : Circle} {pending : List Pending} (h : AtStart c pending) :
    c.Valid ∧ c.contents = [] ∧ Circle.getContinguiousSpace c = .ok 1023 c ∧
      (Circle.continguiousSpaceOf c.head c.tail c.getSize).toNat = 1023 := by
  obtain ⟨hhead, htail, hsize, hmax, -⟩ := h
  have hv : c.Valid := by
    refine ⟨⟨10, by decide, hsize⟩, fun j hj => ?_, by
      rw [hhead, hsize]; decide, by rw [htail, hsize]; decide⟩
    rw [hmax] at hj
    exact Nat.le_trans (Nat.le_of_lt hj) (by decide)
  have hc : c.contents = [] := by
    rw [← hv.getCount_eq_zero, Circle.getCount, Circle.countOf, hhead, htail]
    exact UInt64.zero_and
  have hspace : (Circle.continguiousSpaceOf c.head c.tail c.getSize).toNat = 1023 := by
    rw [hv.toNat_endRun, hc, hsize, htail]
    rfl
  have hword : Circle.continguiousSpaceOf c.head c.tail c.getSize = 1023 := UInt64.toNat_inj.mp hspace
  refine ⟨hv, hc, ?_, hspace⟩
  have hpos : Circle.continguiousSpaceOf c.head c.tail c.getSize ≠ 0 := by
    rw [hword]
    decide
  have hfound : Circle.getContinguiousSpace c = .ok (Circle.continguiousSpaceOf c.head c.tail c.getSize) c :=
    Circle.spaceFuel_of_pos hpos
  rw [hfound, hword]

abbrev Outside : Unit → Sock Circle κ → Prop := Known (fun _ => false) fun _ c _ p => AtStart c p

def Left (s : Sock Circle κ) : Prop := s.socket.Reentered ∨ AtStart s.recvBuff s.socket.pending

private theorem outside_framed : Framed .udp (Outside (κ := κ)) Left := known_framed fun h => h.2

private theorem outside_interface : Interface .udp K (Outside (κ := κ)) id Left := by
  refine known_interface (fun h => h.2) (fun h => h) (fun _ => rfl) (fun _ _ _ _ h => h)
    (fun _ _ _ _ _ h => h) ?_
  intro _ c d p h
  refine ⟨1023, (atStart_ring h).2.2.1, fun session => ?_⟩
  obtain ⟨hhead, htail, hsize, hmax, hpending⟩ := h
  refine ⟨hhead, htail, hsize, hmax, fun q hq => ?_⟩
  rcases List.mem_append.mp hq with hq | hq
  · exact hpending q hq
  · rw [List.mem_singleton] at hq
    rw [hq, htail]

/-- In application code inside an `on_recv`: before a `connect()` and after one. -/
abbrev Inside (G : Side) : Bool → Sock Circle κ → Prop :=
  Known (fun _ => true) fun reconnected c d p => reconnected = false ∧ G c d p

private theorem inside_interface (G : Side) :
    Interface .udp K (Inside (κ := κ) G) (fun _ => true) (fun _ => True) :=
  known_interface (fun _ => trivial) (fun _ => trivial) (fun _ => rfl) (fun _ _ _ _ h => nomatch h.1)
    (fun _ _ _ _ hf => nomatch hf) fun _ _ _ _ h => nomatch h.1

def Reading (G : Side) (s : Sock Circle κ) : Prop :=
  s.socket.running.isSome ∧ s.socket.inRecv = false ∧
    (s.socket.Reentered ∨ G s.recvBuff s.deliveries s.socket.pending)

/-- A predicate on the receiving side that looks only at the receives and at how large the ring is and may grow. -/
def Side.Steady (G : Side) : Prop := ∀ c c' d d' p, c'.data.mem.length = c.data.mem.length →
  c'.data.maxSize = c.data.maxSize → G c d p → G c' d' p

private theorem read_keeps_data (d : Data) (fuel : Nat) (count offset : UInt64) (peek : Bool) :
    Keeps (fun c : Circle => c.data = d) (Circle.readFuel fuel count offset peek) (fun _ => True) := by
  induction fuel generalizing count offset peek with
  | zero => exact Triple.throw fun _ _ => trivial
  | succ fuel ih =>
    have hload (start n : UInt64) (e : Data) : Keeps (fun c : Circle => c.data = d) (e.load start n)
        (fun _ => True) :=
      Triple.ite (fun _ => Triple.pure fun _ h => h) fun _ => Triple.throw fun _ _ => trivial
    unfold Circle.readFuel
    refine Triple.look fun c hc => Triple.ite (fun _ => Triple.throw fun _ _ => trivial) fun _ => ?_
    refine Triple.bind (hload _ _ _) fun bytes => ?_
    have hset (peek : Bool) (head : UInt64) : (if peek then c else { c with head := head }).data = d := by
      cases peek <;> exact hc
    refine Triple.bind (Q := fun _ c => c.data = d) (Triple.modify fun _ _ => hset _ _) fun _ => ?_
    refine Triple.ite (fun _ => Triple.pure fun _ h => h) fun _ => ?_
    exact Triple.bind (ih _ _ _) fun rest => Triple.pure fun _ h => h

section Loop
variable {G : Side} (hG : G.Steady)
include hG

/-- Buffer functions that leave the storage as it is. -/
theorem reading_recv {α : Type} {x : EStateM Fault Circle α}
    (hx : ∀ d, Keeps (fun c : Circle => c.data = d) x (fun _ => True)) :
    Keeps (Reading (κ := κ) G) (recv x) (fun _ => True) := by
  constructor
  · intro s a u hs hrun
    obtain ⟨c, hxs, rfl⟩ := recv_eq_ok hrun
    have hdata : c.data = s.recvBuff.data := (hx _).returns rfl hxs
    have hsize : c.data.mem.length = s.recvBuff.data.mem.length := by rw [hdata]
    have hmax : c.data.maxSize = s.recvBuff.data.maxSize := by rw [hdata]
    exact ⟨hs.1, hs.2.1, hs.2.2.imp_right (hG _ _ _ _ _ hsize hmax)⟩
  · exact fun _ _ => trivial

private theorem reading_onReadRound (hrecv : ∀ i r, Keeps (Reading G) (cb.onRecv i r) (fun _ => True)) :
    Keeps (Reading G) (onReadRound cb.onRecv) (fun _ => True) := by
  have hread (count offset : UInt64) (d : Data) :
      Keeps (fun c : Circle => c.data = d) (Buffer.read count offset) (fun _ => True) :=
    read_keeps_data d _ _ _ _
  unfold onReadRound
  refine Triple.look fun s _ => Triple.ite (fun _ => Triple.pure fun _ h => h) fun _ => ?_
  refine Triple.bind (reading_recv hG (hread _ _)) fun bytes => ?_
  refine Triple.look fun s _ => Triple.ite (fun _ => Triple.pure fun _ h => h) fun _ => ?_
  refine Triple.bind (reading_recv hG fun d => ?_) fun reader => ?_
  · exact Triple.bind (hread _ _ d) fun _ => Triple.pure fun _ h => h
  refine Triple.look fun s _ => ?_
  refine Triple.bind (hrecv _ _) fun _ => ?_
  refine Triple.bind (reading_recv hG fun d => Triple.modify fun _ h => h) fun _ => ?_
  refine Triple.bind (Q := fun _ => Reading G) (Triple.modify fun _ h => ?_) fun _ => ?_
  · exact ⟨h.1, h.2.1, h.2.2.imp_right (hG _ _ _ _ _ rfl rfl)⟩
  exact Triple.look fun s _ => Triple.pure fun _ h => h

private theorem reading_onRead (hrecv : ∀ i r, Keeps (Reading G) (cb.onRecv i r) (fun _ => True))
    (rounds : Nat) :
    Keeps (Reading G) (onRead cb.onRecv rounds) (fun _ => True) := by
  induction rounds with
  | zero => exact Triple.throw fun _ _ => trivial
  | succ rounds ih =>
    refine Triple.bind (reading_onReadRound hG hrecv) fun more => Triple.ite (fun _ => ih) fun _ => ?_
    exact Triple.pure fun _ h => h

end Loop

/-- An `on_recv` runs application code inside and comes back. -/
theorem reading_onRecv (G : Side) (fuel i : Nat) (r : Reader) :
    Keeps (Reading (κ := κ) G) ((callbacks .udp K fuel).onRecv i r) (fun _ => True) := by
  cases fuel with
  | zero => exact Triple.pure fun _ h => h
  | succ fuel =>
    have hbody (calls : List Call) : Keeps (Inside (κ := κ) G false)
      (perform .udp K (callbacks .udp K fuel) calls) (fun _ => True) :=
      (inside_interface G).perform ((inside_interface G).callbacks fuel) calls
    change Keeps (Reading G) (applicationCode true _) (fun _ => True)
    unfold applicationCode
    refine Triple.get fun s hs => ?_
    split
    · exact Triple.pure fun _ h => h ▸ hs
    · rename_i script scripts _
      obtain ⟨hrunning, hflag, hknown⟩ := hs
      refine Triple.bind (Q := fun _ => Inside G false) (Triple.modify ?_) fun _ => ?_
      · rintro u rfl
        refine ⟨?_, hknown.imp_right fun hp => ⟨rfl, hp⟩⟩
        change (u.socket.inRecv || (true && u.socket.running.isSome)) = true
        rw [hrunning, Bool.and_self, Bool.or_true]
      · refine Triple.bind (hbody script) fun _ => Triple.modify fun u hu => ?_
        exact ⟨hrunning, hflag, hu.2.imp_right fun hp => hp.2⟩

def plainSide : Side := fun c _ p => Plain c p

private theorem plainSide_steady : plainSide.Steady := by
  intro c c' d d' p hsize hmax hp
  exact ⟨hsize.trans hp.1, hmax.trans hp.2.1, hp.2.2⟩

/-- The receive handler, up to its last two calls. -/
theorem handleReceiveUdp_reads {G : Side} (hG : G.Steady)
    (hrecv : ∀ i r, Keeps (Reading G) (cb.onRecv i r) (fun _ => True)) {Q : Unit → Sock Circle κ → Prop}
    (hlast : Triple (Reading G) (do resetRecv; doRead .udp) Q (fun _ => True)) (rounds : Nat)
    (place space : UInt64)
    (data : List UInt8) :
    Triple (Reading G) (handleReceiveUdp cb rounds place space .success data) Q (fun _ => True) := by
  unfold handleReceiveUdp
  rw [if_neg (not_not.mpr rfl)]
  refine Triple.get fun s hs => ?_
  have hstore : Triple (fun u : Sock Circle κ => u = s) (s.recvBuff.data.store place (data.take space.toNat))
      (fun stored u => u = s ∧ stored.mem.length = s.recvBuff.data.mem.length ∧
        stored.maxSize = s.recvBuff.data.maxSize)
      (fun _ => True) := by
    refine Triple.ite (fun hroom => Triple.pure fun u hu =>
      ⟨hu, CellRing.length_overwrite hroom, rfl⟩) fun _ => ?_
    exact Triple.throw fun _ _ => trivial
  refine Triple.bind hstore fun stored => ?_
  refine Triple.bind (Q := fun _ => Reading G) (Triple.modify ?_) fun _ => ?_
  · rintro _ ⟨rfl, hlen, hmax⟩
    exact ⟨hs.1, hs.2.1, hs.2.2.imp_right (hG _ _ _ _ _ hlen hmax)⟩
  refine Triple.bind (reading_recv hG fun d => Triple.modify fun _ h => h) fun _ => ?_
  refine Triple.bind (Q := fun _ => Reading G) (Triple.modify fun _ h => ?_) fun _ => ?_
  · exact ⟨h.1, h.2.1, h.2.2.imp_left fun hr => Reentered.append hr _⟩
  exact Triple.bind (reading_onRead hG hrecv rounds) fun _ => hlast

/-- It ends with the ring at its start and one receive more. -/
theorem handleReceiveUdp_returns (K : Ikcp κ)
    (hrecv : ∀ i r, Keeps (Reading plainSide) (cb.onRecv i r) (fun _ => True))
    (rounds : Nat) (place space : UInt64) (data : List UInt8) :
    Triple (Reading plainSide) (handleReceiveUdp cb rounds place space .success data)
      (fun _ => Outside ()) (fun _ => True) := by
  refine handleReceiveUdp_reads plainSide_steady hrecv ?_ rounds place space data
  refine Triple.bind (Q := fun _ => Outside ()) ?_ fun _ => ?_
  · refine Triple.bind (Q := fun _ => Outside ()) (Triple.modify fun u hu => ?_) fun _ => ?_
    · exact ⟨hu.2.1, hu.2.2.imp_right fun hp => ⟨rfl, rfl, hp⟩⟩
    · exact Triple.modify fun _ h => ⟨h.1, h.2.imp_left fun hr => Reentered.append hr _⟩
  · exact ⟨(outside_interface (K := K)).read.returns, fun _ _ => trivial⟩

private theorem handle_leaves (fuel rounds : Nat) (operation : Operation) (ec : ErrorCode)
    (data : List UInt8) :
    Triple (fun s : Sock Circle κ => Outside () s ∧ s.socket.running.isSome)
      (handle .udp K (callbacks .udp K fuel) rounds operation ec data) (fun _ => Left)
      (fun s => ec = .success ∨ Left s) := by
  have hdone : Triple (fun s : Sock Circle κ => Outside () s ∧ s.socket.running.isSome)
      (pure () : EStateM Fault (Sock Circle κ) Unit) (fun _ => Left) (fun s => ec = .success ∨ Left s) :=
    Triple.pure fun _ h => h.1.2
  cases operation with
  | connect | waitRead | waitWrite => exact hdone
  | receive place space =>
    change Triple _ (handleReceiveUdp _ _ _ _ _ _) _ _
    by_cases hec : ec = .success
    · subst hec
      have hhandler := handleReceiveUdp_returns K
        (reading_onRecv (K := K) plainSide fuel) rounds place space data
      constructor
      · intro s a u hs hrun
        refine (hhandler.returns ⟨hs.2, hs.1.1, hs.1.2.imp_right fun hat => ?_⟩ hrun).2
        exact hat.2.2
      · exact fun _ _ => .inl rfl
    · have hclose := outside_framed.close ((outside_interface (K := K)).callbacks fuel) (i := ())
      rw [handleReceiveUdp, if_pos hec]
      exact ⟨fun hs hrun => (hclose.returns hs.1 hrun).2, fun hs hrun => .inr (hclose.faults hs.1 hrun)⟩

/-- An event leaves the ring at its start, unless an exception leaves a receive handler. -/
theorem event_leaves (rounds fuel : Nat) (e : ConnectorEvent) :
    Triple (Outside (κ := κ) ()) (event .udp K rounds (callbacks .udp K fuel) e) (fun _ => Left)
      (fun s => (∃ i data, e = .complete i .success data) ∨ Left s) := by
  cases e with
  | call call =>
    have hkeeps := (outside_interface (K := K)).perform
      ((outside_interface (K := K)).callbacks fuel) (i := ()) [call]
    exact ⟨fun hs hrun => (hkeeps.returns hs hrun).2, fun hs hrun => .inr (hkeeps.faults hs hrun)⟩
  | tick current => exact Triple.pure fun _ h => h.2
  | complete i ec data =>
    refine Triple.get fun s hs => ?_
    split
    · exact Triple.pure fun _ h => h ▸ hs.2
    · rename_i p _
      refine Triple.bind (Q := fun _ u => Outside () u ∧ u.socket.running.isSome)
        (Triple.modify ?_) fun _ => ?_
      · rintro _ rfl
        refine ⟨⟨hs.1, hs.2.imp_right fun hat =>
          ⟨hat.1, hat.2.1, hat.2.2.1, hat.2.2.2.1, fun q hq => ?_⟩⟩, rfl⟩
        exact hat.2.2.2.2 q (List.mem_of_mem_eraseIdx hq)
      · have hhandle := handle_leaves (K := K) fuel rounds p.operation ec data
        refine ⟨fun hu hrun => hhandle.returns hu hrun, fun hu hrun => ?_⟩
        rcases hhandle.faults hu hrun with rfl | hleft
        · exact .inl ⟨i, data, rfl⟩
        · exact .inr hleft

end Connection

open Connection

/-- An event of a udp socket. No exception leaves the handler of a received
datagram; only an `on_recv` can throw one. -/
def PeerStep {κ : Type} (K : Ikcp κ) (s : Sock Circle κ) (e : ConnectorEvent × Surroundings)
    (s' : Sock Circle κ) : Prop :=
  ConnectorStep .udp K s e s' ∧ ∀ i data, e.1 = .complete i .success data →
    ∃ u, event .udp K e.2.rounds (callbacks .udp K e.2.scripts.length) e.1 (surrounded e.2 s) = .ok () u

def acceptedSock {κ : Type} : Sock Circle κ :=
  ⟨.disconnected, freshBuffer, freshBuffer, { isOpen := true }, []⟩

/-- A connector, or an accepted connection after its `connected()`. -/
inductive PeerStart {κ : Type} (K : Ikcp κ) : Sock Circle κ → Prop
  | connector : PeerStart K connector
  | accepted {e : Surroundings} {u : Sock Circle κ}
      (h : connected .udp K (callbacks .udp K e.scripts.length) (surrounded e acceptedSock) = .ok () u) :
      PeerStart K (settled u)

namespace Connection
variable {κ : Type} {K : Ikcp κ}

private theorem atStart_fresh : AtStart freshBuffer [] := by
  refine ⟨rfl, rfl, List.length_replicate, rfl, fun p hp => ?_⟩
  cases hp

theorem Left.settled {s : Sock Circle κ} (h : Left s) : Outside () (settled s) := ⟨rfl, h⟩

private theorem peerStart_outside {s : Sock Circle κ} (h : PeerStart K s) : Outside () s := by
  cases h with
  | connector => exact ⟨rfl, .inr atStart_fresh⟩
  | @accepted e u h =>
    have hstart : Outside () (surrounded e (acceptedSock : Sock Circle κ)) := ⟨rfl, .inr atStart_fresh⟩
    have hkeeps := (outside_interface (K := K)).connected
      ((outside_interface (K := K)).callbacks e.scripts.length) (i := ())
    exact Left.settled (hkeeps.returns hstart h).2

private theorem peerStep_outside {s s' : Sock Circle κ} {e : ConnectorEvent × Surroundings} (h : Outside () s)
    (hstep : PeerStep K s e s') : Outside () s' := by
  obtain ⟨⟨-, hafter⟩, hreturns⟩ := hstep
  have hstart : Outside () (surrounded e.2 s) := h
  have hevent := event_leaves (K := K) e.2.rounds e.2.scripts.length e.1
  rw [hafter, afterEvent]
  split
  · rename_i u hrun
    exact (hevent.returns hstart hrun).settled
  · rename_i fault u hrun
    rcases hevent.faults hstart hrun with ⟨i, data, hcomplete⟩ | hleft
    · obtain ⟨v, hv⟩ := hreturns i data hcomplete
      cases hv.symm.trans hrun
    · exact hleft.settled

/-- In every state reached the ring is at its start and every receive was offered 1023 bytes. -/
theorem peer_outside {start s : Sock Circle κ} {es : List (ConnectorEvent × Surroundings)}
    (hstart : PeerStart K start)
    (hrun : Run (PeerStep K) start es s) (hreentered : ¬ s.socket.Reentered) :
    AtStart s.recvBuff s.socket.pending :=
  (hrun.invariant (I := Outside ()) peerStep_outside (peerStart_outside hstart)).2.resolve_left hreentered

end Connection

section Arrival
variable {κ : Type} {K : Ikcp κ} {cb : Callbacks Circle κ}

/-- The bytes of a datagram in the ring, as far as there was room for them. -/
theorem store_arrived {c : Circle} {pending : List Pending} (h : AtStart c pending) {bytes : List UInt8}
    (hlen : bytes.length ≤ 1023) : ∃ stored e, (∀ s : Sock Circle κ, c.data.store 0 bytes s = .ok stored s) ∧
      Circle.written (UInt64.ofNat bytes.length) { c with data := stored } = .ok () e ∧ e.Valid ∧
        e.contents = bytes ∧
      e.data.mem.length = 1024 ∧ e.data.maxSize = 409600 := by
  obtain ⟨hv, hc, -, hspace⟩ := atStart_ring h
  obtain ⟨e, hfill, he, hce, hse, hme⟩ :=
    Circle.fill_spec hv bytes (by rw [← hv.toNat_continguiousSpace, hspace]; exact hlen)
  have hroom : (0 : UInt64).toNat + bytes.length ≤ c.data.mem.length := by
    rw [h.2.2.1, UInt64.toNat_zero]
    omega
  have hpoke : Circle.pokeEnd bytes c =
      .ok () { c with data := ⟨CellRing.overwrite c.data.mem 0 bytes, c.data.maxSize⟩ } := by
    rw [Circle.pokeEnd, get_bind, h.2.1, bind_ok (Data.store_of_le hroom c)]
    rfl
  rw [bind_ok hpoke] at hfill
  refine ⟨_, e, fun s => Data.store_of_le hroom s, hfill, he, by
    rw [hce, hc]; rfl, hse.trans h.2.2.1, hme.trans h.2.2.2.1⟩

/-- The end of the receive handler: the ring back at its start, and one receive into all of it. -/
theorem listens {v : Sock Circle κ} (hsize : v.recvBuff.data.mem.length = 1024)
    (hmax : v.recvBuff.data.maxSize = 409600) :
    (do resetRecv; doRead .udp : EStateM Fault (Sock Circle κ) Unit) v = .ok () { v with
      recvBuff := Circle.reset v.recvBuff
      socket := { v.socket with
        trace := v.socket.trace ++ [⟨v.socket.session, v.socket.running, .resetRecv⟩]
        pending := v.socket.pending ++ [⟨.receive 0 1023, v.socket.session⟩] } } := by
  have hreset : AtStart (Circle.reset v.recvBuff) [] := ⟨rfl, rfl, hsize, hmax, fun q hq => nomatch hq⟩
  obtain ⟨u, hu⟩ : ∃ u : Sock Circle κ, u = { v with
      recvBuff := Circle.reset v.recvBuff
      socket := { v.socket with
        trace := v.socket.trace ++ [⟨v.socket.session, v.socket.running, .resetRecv⟩] } } := ⟨_, rfl⟩
  have hrun : resetRecv v = .ok () u := by
    rw [hu]
    rfl
  have hquery : Circle.getContinguiousSpace u.recvBuff = .ok 1023 u.recvBuff := by
    rw [hu]
    exact (atStart_ring hreset).2.2.1
  rw [bind_ok hrun, doRead, bind_ok (recv_ok hquery), hu]
  rfl

private theorem reentered_listens :
    Keeps (fun s : Sock Circle κ => s.socket.Reentered) (do resetRecv; doRead .udp)
    (fun _ => True) := by
  refine Triple.bind (Q := fun _ s => s.socket.Reentered) ?_ fun _ => ?_
  · refine Triple.bind (Q := fun _ s => s.socket.Reentered) (Triple.modify fun _ h => h) fun _ => ?_
    exact Triple.modify fun _ h => Reentered.append h _
  · refine Triple.bind (Triple.zoom (fun _ _ h => h) fun _ _ => trivial) fun _ => ?_
    exact Triple.look fun _ _ => Triple.modify fun _ h => h

def inHandler (s : Sock Circle κ) (i : Nat) (p : Pending) (ring : Circle) (bytes : List UInt8) :
    Sock Circle κ := { s with
  recvBuff := ring
  socket := { s.socket with
    pending := s.socket.pending.eraseIdx i
    running := some p.session
    trace := s.socket.trace ++ [⟨s.socket.session, some p.session, .received bytes⟩] } }

/-- The handler of a received datagram, up to its `on_read`. -/
theorem event_reads (cb : Callbacks Circle κ) {s : Sock Circle κ}
    (hat : AtStart s.recvBuff s.socket.pending) {i : Nat} {p : Pending}
    (hp : s.socket.pending[i]? = some p) (d : List UInt8) (rounds : Nat) :
    ∃ e : Circle, e.Valid ∧ e.contents = d.take 1023 ∧ e.data.mem.length = 1024 ∧ e.data.maxSize = 409600 ∧
      event .udp K rounds cb (.complete i .success d) s =
        (do onRead cb.onRecv rounds; resetRecv; doRead .udp : EStateM Fault (Sock Circle κ) Unit)
          (inHandler s i p e (d.take 1023)) := by
  have hoperation : p.operation = .receive 0 1023 := hat.2.2.2.2 p (List.mem_of_getElem? hp)
  have htake : (d.take 1023).length ≤ 1023 := List.length_take_le _ _
  obtain ⟨stored, e, hstore, hwritten, he, hce, hse, hme⟩ := store_arrived (κ := κ) hat htake
  refine ⟨e, he, hce, hse, hme, ?_⟩
  have hdispatch : event .udp K rounds cb (.complete i .success d) s =
    handleReceiveUdp cb rounds 0 1023 .success d
      { s with socket := { s.socket with pending := s.socket.pending.eraseIdx i, running := some p.session } } := by
    rw [event, get_bind, hp]
    change handle .udp K cb rounds p.operation .success d _ = _
    rw [hoperation]
    rfl
  have hannounced : recv (Circle.written (UInt64.ofNat (d.take 1023).length)) ({ s with
      recvBuff := { s.recvBuff with data := stored }
      socket := { s.socket with pending := s.socket.pending.eraseIdx i, running := some p.session }
        } : Sock Circle κ) =
      .ok () { s with
        recvBuff := e
        socket := { s.socket with pending := s.socket.pending.eraseIdx i, running := some p.session } } :=
    recv_ok hwritten
  rw [hdispatch, handleReceiveUdp, if_neg (not_not.mpr rfl), get_bind]
  change ((s.recvBuff.data.store 0 (d.take 1023) >>= _) _) = _
  rw [bind_ok (hstore _), modify_bind]
  change (recv (Circle.written (UInt64.ofNat (d.take 1023).length)) >>= _) { s with
    recvBuff := { s.recvBuff with data := stored }
    socket := { s.socket with pending := s.socket.pending.eraseIdx i, running := some p.session } } = _
  rw [bind_ok hannounced]
  rfl

/-- What `on_read` delivers of the datagram: the packets of which all bytes fit. -/
theorem onRead_delivers {onRecv : OnRecv Circle (Asio κ)} (hquiet : Quiet onRecv) {u : Sock Circle κ}
    {frames : List (List UInt8)} (hframes : ∀ f ∈ frames, f.length + 4 < 2 ^ 32) (he : u.recvBuff.Valid)
    (hce : u.recvBuff.contents = (encodePackets frames).take 1023) (hse : u.recvBuff.data.mem.length = 1024)
    (hme : u.recvBuff.data.maxSize = 409600) {rounds : Nat}
    (hrounds : (encodePackets frames).length < rounds) :
    ∃ v j new, onRead onRecv rounds u = .ok () v ∧ v.recvBuff.data.mem.length = 1024 ∧
      v.recvBuff.data.maxSize = 409600 ∧ v.deliveries = u.deliveries ++ new ∧ j ≤ frames.length ∧
      new.map (Delivery.packet Circle.contents) = (frames.take j).map (fun f => (f.length, f)) ∧
      (j = frames.length ↔ (encodePackets frames).length ≤ 1023) := by
  have hstream : u.recvBuff.contents ++ (encodePackets frames).drop 1023 = encodePackets frames := by
    rw [hce, List.take_append_drop]
  have hfuel : u.recvBuff.contents.length < rounds := by
    rw [hce, List.length_take]
    omega
  obtain ⟨v, j, new, hread, hv, hj, hrest, hinc, hdel, hmap⟩ := onRead_stream
    (circle_reads fun data => data.mem.length = 1024 ∧ data.maxSize = 409600) hquiet frames hframes
    (s := u) ⟨he, hse, hme⟩ _ hstream rounds hfuel
  refine ⟨v, j, new, hread, hv.2.1, hv.2.2, hdel, hj, hmap, ?_, ?_⟩
  · intro hall
    rw [hall, List.drop_length] at hrest
    exact List.drop_eq_nil_iff.mp (List.append_eq_nil_iff.mp hrest).2
  · intro hle
    rw [List.drop_eq_nil_of_le hle, List.append_nil] at hrest
    refine Nat.le_antisymm hj (List.drop_eq_nil_iff.mp ?_)
    cases hcases : frames.drop j with
    | nil => rfl
    | cons f fs =>
      rw [hcases] at hinc hrest
      have hlen := congrArg List.length hrest
      have hlt := hinc.2
      rw [encodePackets_cons, List.length_append] at hlen
      omega

/-- An `on_recv` cut down to the calls that leave the ring and the log alone. -/
def quieted (onRecv : OnRecv Circle (Asio κ)) : OnRecv Circle (Asio κ) := fun i r s =>
  match onRecv i r s with
  | .ok _ t => if t.recvBuff = s.recvBuff ∧ t.deliveries = s.deliveries then .ok () t else .ok () s
  | .error _ _ => .ok () s

private theorem quiet_quieted (onRecv : OnRecv Circle (Asio κ)) : Quiet (quieted onRecv) := by
  intro i r s
  unfold quieted
  split
  · split
    · rename_i h
      exact ⟨_, rfl, h⟩
    · exact ⟨s, rfl, rfl, rfl⟩
  · exact ⟨s, rfl, rfl, rfl⟩

private theorem quieted_eq {onRecv : OnRecv Circle (Asio κ)} {i : Nat} {r : Reader} {s t : Sock Circle κ}
    (h : onRecv i r s = .ok () t) (hrecv : t.recvBuff = s.recvBuff) (hdel : t.deliveries = s.deliveries) :
    quieted onRecv i r s = .ok () t := by
  unfold quieted
  rw [h]
  exact if_pos ⟨hrecv, hdel⟩

/-- A round of `on_read` runs as with the quieted `on_recv`, unless that reconnects. -/
theorem onReadRound_quieted {fuel : Nat} {s t : Sock Circle κ} {more : Bool}
    (hs : Reading (fun _ _ _ => True) s)
    (hv : s.recvBuff.Valid) (hround : onReadRound (callbacks .udp K fuel).onRecv s = .ok more t) :
    t.socket.Reentered ∨ (onReadRound (quieted (callbacks .udp K fuel).onRecv) s =
      .ok more t ∧ t.recvBuff.Valid) := by
  have hR := circle_reads fun _ => True
  have hvalid : s.recvBuff.Valid ∧ True := ⟨hv, trivial⟩
  by_cases hq : Ready s.recvBuff.contents
  · have hcall := hround
    rw [onReadRound_call hR hvalid hq] at hcall
    obtain ⟨_, u, hu, hrest⟩ := bind_eq_ok.mp hcall
    have hside (i : Nat) (r : Reader) :=
      reading_onRecv (K := K) (fun c d _ => c = s.recvBuff ∧ d = s.deliveries) fuel i r
    rcases ((hside _ _).returns ⟨hs.1, hs.2.1, .inr ⟨rfl, rfl⟩⟩ hu).2.2 with hr | ⟨hrecv, hdel⟩
    · have hremove : recv (Buffer.remove (UInt64.ofNat (packetSize s.recvBuff.contents))) u = .ok () { u with
          recvBuff := { u.recvBuff with head := (u.recvBuff.head +
            UInt64.ofNat (packetSize s.recvBuff.contents)) % u.recvBuff.getSize } } := recv_ok rfl
      rw [bind_ok hremove, modify_bind, get_bind] at hrest
      cases hrest
      exact .inl hr
    · refine .inr ⟨?_, ?_⟩
      · rw [onReadRound_call hR hvalid hq, bind_ok (quieted_eq hu hrecv hdel)]
        exact hrest
      · obtain ⟨b, hb, -, hkeep⟩ := onReadRound_keep hR hvalid hq hu hrecv hdel
        cases hkeep.symm.trans hround
        exact hb.1
  · have hstop : onReadRound (callbacks .udp K fuel).onRecv s = .ok false s := onReadRound_stop hR hvalid hq
    cases hstop.symm.trans hround
    exact .inr ⟨onReadRound_stop hR hvalid hq, hv⟩

private theorem onRead_quieted {fuel : Nat} (rounds : Nat) {s s' : Sock Circle κ}
    (hs : Reading (fun _ _ _ => True) s)
    (hv : s.recvBuff.Valid) (hrun : onRead (callbacks .udp K fuel).onRecv rounds s = .ok () s') :
    s'.socket.Reentered ∨ onRead (quieted (callbacks .udp K fuel).onRecv) rounds s = .ok () s' := by
  induction rounds generalizing s with
  | zero => cases hrun
  | succ rounds ih =>
    obtain ⟨more, t, hround, -⟩ := bind_eq_ok.mp hrun
    rw [onRead_round rounds hround] at hrun
    have ht :=
      (reading_onReadRound (fun _ _ _ _ _ _ _ _ => trivial)
        (reading_onRecv (K := K) _ fuel)).returns hs hround
    rcases onReadRound_quieted hs hv hround with hr | ⟨hquiet, hvt⟩
    · have hlast := reading_onRead (G := fun _ _ _ => False) (fun _ _ _ _ _ _ _ h => h)
        (reading_onRecv (K := K) _ fuel) rounds
      cases more with
      | true => exact .inl ((hlast.returns ⟨ht.1, ht.2.1, .inl hr⟩ hrun).2.2.resolve_right fun h => h)
      | false =>
        cases hrun
        exact .inl hr
    · rw [onRead_round rounds hquiet]
      cases more with
      | true => exact ih ht hvt hrun
      | false => exact .inr hrun

/-- The packets of a datagram that the handler of its receive delivered. -/
theorem event_delivered {fuel rounds : Nat} {s s' : Sock Circle κ} (hat : AtStart s.recvBuff s.socket.pending)
    (hcalm : s.socket.inRecv = false) {i : Nat} {p : Pending} (hp : s.socket.pending[i]? = some p)
    {frames : List (List UInt8)} (hframes : ∀ f ∈ frames, f.length + 4 < 2 ^ 32)
    (hrun : event .udp K rounds (callbacks .udp K fuel)
      (.complete i .success (encodePackets frames)) s = .ok () s')
    (hreentered : ¬ s'.socket.Reentered) :
    ∃ j new, s'.deliveries = s.deliveries ++ new ∧ j ≤ frames.length ∧
      new.map (Delivery.packet Circle.contents) = (frames.take j).map (fun f => (f.length, f)) ∧
      (j = frames.length ↔ (encodePackets frames).length ≤ 1023) := by
  obtain ⟨e, he, hce, hse, hme, hreads⟩ := event_reads (K := K) (callbacks .udp K fuel) hat hp
    (encodePackets frames) rounds
  rw [hreads] at hrun
  obtain ⟨_, v, hv, hrest⟩ := bind_eq_ok.mp hrun
  have hreading : Reading (fun _ _ _ => True) (inHandler s i p e ((encodePackets frames).take 1023)) :=
    ⟨rfl, hcalm, .inr trivial⟩
  have hquieted := (onRead_quieted rounds hreading he hv).resolve_left fun hr =>
    hreentered (reentered_listens.returns hr hrest)
  have hrounds : (encodePackets frames).length < rounds + ((encodePackets frames).length + 1) := by omega
  obtain ⟨u, j, new, hread, hsize, hmax, hdel, hj, hmap, hall⟩ :=
    onRead_delivers (quiet_quieted (callbacks .udp K fuel).onRecv)
    (u := inHandler s i p e ((encodePackets frames).take 1023)) hframes he hce hse hme hrounds
  have hsame : v = u := (EStateM.Result.ok.inj ((onRead_more hquieted _).symm.trans hread)).2
  rw [hsame, listens hsize hmax] at hrest
  have hlast := (EStateM.Result.ok.inj hrest).2
  refine ⟨j, new, ?_, hj, hmap, hall⟩
  rw [← hlast]
  exact hdel

/-- A receive handler does not make a `connect()` inside an `on_recv` unhappen. -/
theorem event_reentered {fuel rounds : Nat} {s s' : Sock Circle κ} (hr : s.socket.Reentered)
    (hcalm : s.socket.inRecv = false) {i : Nat} {p : Pending} (hp : s.socket.pending[i]? = some p)
    {d : List UInt8}
    (hrun : event .udp K rounds (callbacks .udp K fuel) (.complete i .success d) s = .ok () s') :
    s'.socket.Reentered := by
  rw [event, get_bind, hp] at hrun
  obtain ⟨_, u, hu, hrun⟩ := bind_eq_ok.mp hrun
  cases hu
  cases hop : p.operation with
  | connect | waitRead | waitWrite =>
    rw [hop] at hrun
    cases hrun
    exact hr
  | receive place space =>
    rw [hop] at hrun
    have hreads := handleReceiveUdp_reads (G := fun _ _ _ => False) (fun _ _ _ _ _ _ _ h => h)
      (reading_onRecv (K := K) _ fuel)
        (reentered_listens.before fun _ h => h.2.2.resolve_right fun h => h) rounds place space d
    have hentered : Reading (fun _ _ _ => False) ({ s with socket := { s.socket with
        pending := s.socket.pending.eraseIdx i
        running := some p.session } } : Sock Circle κ) := ⟨rfl, hcalm, .inl hr⟩
    exact hreads.returns hentered hrun

/-- A quiet `on_recv` lets the handler of a received datagram return. -/
theorem event_returns (hquiet : Quiet cb.onRecv) {s : Sock Circle κ}
    (hat : AtStart s.recvBuff s.socket.pending)
    {i : Nat} (hi : i < s.socket.pending.length) {frames : List (List UInt8)}
    (hframes : ∀ f ∈ frames, f.length + 4 < 2 ^ 32) {rounds : Nat}
    (hrounds : (encodePackets frames).length < rounds) :
    ∃ s', event .udp K rounds cb (.complete i .success (encodePackets frames)) s = .ok () s' := by
  obtain ⟨e, he, hce, hse, hme, hreads⟩ := event_reads (K := K) cb hat (List.getElem?_eq_getElem hi)
    (encodePackets frames) rounds
  obtain ⟨v, j, new, hread, hsize, hmax, -⟩ := onRead_delivers hquiet
    (u := inHandler s i s.socket.pending[i] e ((encodePackets frames).take 1023)) hframes he hce
    hse hme hrounds
  rw [hreads, bind_ok hread, listens hsize hmax]
  exact ⟨_, rfl⟩

end Arrival

section Sender
variable {κ : Type} {cb : Callbacks Circle κ} {s : Sock Circle κ}

/-- Behind the run at `get_start()` the rest of the queue is one run. -/
theorem Circle.remove_run {c : Circle} (hv : c.Valid) :
    ∃ c', Circle.remove c.getContinguiousCount c = .ok () c' ∧ c'.Valid ∧
    c'.contents = c.contents.drop c.getContinguiousCount.toNat ∧
    c'.getContinguiousCount.toNat = c.contents.length - c.getContinguiousCount.toNat := by
  have hhead := hv.head_lt
  have hlt := hv.length_lt
  have hrun := hv.toNat_startRun
  have hle : c.getContinguiousCount.toNat ≤ c.contents.length := by omega
  have hindex := Circle.toNat_index hv hle
  obtain ⟨c', hremove, hv', hc', hd'⟩ := Circle.remove_spec hv hle
  refine ⟨c', hremove, hv', hc', ?_⟩
  have hhead' : c'.head = (c.head + c.getContinguiousCount) % c.getSize := by
    cases hremove
    rfl
  rw [hv'.toNat_startRun, hc', hd', List.length_drop, hhead', hindex, CellRing.wrap]
  split <;> omega

/-- Both pieces of the ring, one behind the other in the staging array. -/
theorem stagedBytes_spec (hv : s.sendBuff.Valid) (hlen : s.sendBuff.contents.length ≤ 65536) :
    ∃ u, stagedBytes s.sendBuff.getCount s = .ok s.sendBuff.contents u ∧ u.socket = s.socket := by
  have hcount := hv.length_contents
  have hrun := hv.toNat_startRun
  obtain ⟨k, hk⟩ : ∃ k, k = s.sendBuff.getContinguiousCount.toNat := ⟨_, rfl⟩
  rw [← hk] at hrun
  obtain ⟨c, hremove, hvc, hcc, hrunc⟩ := Circle.remove_run hv
  rw [← hk] at hcc hrunc
  have hfirst : Circle.peekStart s.sendBuff.getContinguiousCount s.sendBuff =
      .ok (s.sendBuff.contents.take k) s.sendBuff := by
    rw [Circle.peekStart_spec hv (Nat.le_refl _), hk]
  have hsecond : Circle.peekStart c.getContinguiousCount c = .ok (s.sendBuff.contents.drop k) c := by
    rw [Circle.peekStart_spec hvc (Nat.le_refl _), hcc, hrunc, List.take_of_length_le]
    exact Nat.le_of_eq List.length_drop
  have htake : (s.sendBuff.contents.take k).length = k := by
    rw [List.length_take]
    omega
  have hplace : (s.sendBuff.getCount - c.getContinguiousCount).toNat =
      (s.sendBuff.contents.take k).length := by
    rw [toNat_sub_of_le (by omega), htake]
    omega
  have hfresh (u : Sock Circle κ) := Circle.store_fresh u 65536 65536 (s.sendBuff.contents.take k) (by
    rw [htake]
    change k ≤ 65536
    omega)
  have hbehind (u : Sock Circle κ) := Circle.store_behind u 65536 _ (s.sendBuff.contents.take k)
    (List.replicate ((65536 : UInt64).toNat - (s.sendBuff.contents.take k).length) 0)
    (s.sendBuff.contents.drop k) hplace (by
      rw [List.length_drop, List.length_replicate, htake]
      change _ ≤ 65536 - k
      omega)
  have hload (back : List UInt8) (u : Sock Circle κ) :
      (Data.mk (s.sendBuff.contents ++ back) 65536).load 0 s.sendBuff.getCount u =
        .ok s.sendBuff.contents u := by
    rw [Data.load_of_le (by rw [List.length_append, hcount, UInt64.toNat_zero]; omega), ← hcount]
    change EStateM.Result.ok (((s.sendBuff.contents ++ back).drop 0).take s.sendBuff.contents.length) u = _
    rw [List.drop_zero, List.take_left]
  have hrest : send (Circle.peekStart c.getContinguiousCount) ({ s with sendBuff := c } : Sock Circle κ) =
      .ok (s.sendBuff.contents.drop k) { s with sendBuff := c } := send_ok hsecond
  refine ⟨{ s with sendBuff := c }, ?_, rfl⟩
  rw [stagedBytes, get_bind, bind_ok (send_ok hfirst), bind_ok (hfresh _),
    bind_ok (send_ok hremove), get_bind,
    bind_ok hrest, bind_ok (hbehind _), List.take_append_drop, hload]

private theorem sendDatagram_success {bytes : List UInt8} {answer : Answer} {answers : List Answer}
    (hanswers : s.socket.answers = answer :: answers) (hec : answer.ec = .success) :
    sendDatagram bytes s = .ok .success { s with socket := { s.socket with
      answers := answers
      trace := s.socket.trace ++ [⟨s.socket.session, s.socket.running, .sent bytes⟩] } } := by
  have hnext : nextAnswer s = .ok answer { s with socket := { s.socket with answers := answers } } := by
    rw [nextAnswer, get_bind, hanswers]
    rfl
  rw [sendDatagram, bind_ok hnext, if_pos hec, hec]
  rfl

/-- The bytes that `do_write` has for the socket are those in the buffer. -/
theorem doWriteUdp_hands (cb : Callbacks Circle κ) (hv : s.sendBuff.Valid) (hne : s.sendBuff.contents ≠ [])
    (hlen : s.sendBuff.contents.length ≤ 65536) {answer : Answer} {answers : List Answer}
    (hanswers : s.socket.answers = answer :: answers) (hec : answer.ec = .success) :
    ∃ s', doWriteUdp cb s = .ok () s' ∧ s'.socket.trace = s.socket.trace ++
      [⟨s.socket.session, s.socket.running, .sent s.sendBuff.contents⟩,
        ⟨s.socket.session, s.socket.running, .resetSend⟩] := by
  have hcount := hv.length_contents
  have hzero : s.sendBuff.getCount ≠ 0 := fun h0 => hne (hv.getCount_eq_zero.mp h0)
  have hsent (u : Sock Circle κ) (hu : u.socket = s.socket) : ∃ s', (do
      let ec ← sendDatagram s.sendBuff.contents
      if ec ≠ ErrorCode.success then close .udp cb else pure ()
      resetSend : EStateM Fault (Sock Circle κ) Unit) u = .ok () s' ∧ s'.socket.trace = s.socket.trace ++
        [⟨s.socket.session, s.socket.running, .sent s.sendBuff.contents⟩,
          ⟨s.socket.session, s.socket.running, .resetSend⟩] := by
    rw [← hu] at hanswers ⊢
    rw [bind_ok (sendDatagram_success hanswers hec)]
    refine ⟨_, rfl, ?_⟩
    change (u.socket.trace ++ [_]) ++ [_] = _
    rw [List.append_assoc]
    rfl
  rw [doWriteUdp, get_bind, if_pos hzero]
  split
  · rename_i hone
    have hpeek : Circle.peekStart s.sendBuff.getCount s.sendBuff = .ok s.sendBuff.contents s.sendBuff := by
      rw [Circle.peekStart_spec hv (by rw [← hone]), ← hcount, List.take_length]
    rw [bind_ok (send_ok hpeek)]
    exact hsent _ rfl
  · obtain ⟨u, hu, hsocket⟩ := stagedBytes_spec hv hlen
    rw [bind_ok hu]
    exact hsent u hsocket

/-- `do_write` hands a sequence of packets to the socket, in one datagram that udp can carry. -/
def HandsOver (cb : Callbacks Circle κ) (s : Sock Circle κ) (frames : List (List UInt8)) : Prop :=
  frames ≠ [] ∧ (encodePackets frames).length ≤ 65507 ∧ ∃ s', doWriteUdp cb s = .ok () s' ∧
    s'.socket.trace = s.socket.trace ++ [⟨s.socket.session, s.socket.running, .sent (encodePackets frames)⟩,
      ⟨s.socket.session, s.socket.running, .resetSend⟩]

end Sender

private theorem length_encodePackets_le {frames : List (List UInt8)} {f : List UInt8} (hf : f ∈ frames) :
    f.length + 4 ≤ (encodePackets frames).length := by
  induction frames with
  | nil => cases hf
  | cons g frames ih =>
    rw [encodePackets_cons, List.length_append, length_encodePacket]
    rcases List.mem_cons.mp hf with rfl | hf
    · omega
    · have := ih hf
      omega

/-- In every state that a udp socket reaches without an exception from an
`on_recv` and without a `connect()` inside one, a datagram of packets that
another socket handed over is delivered packet by packet if and only if it has
at most 1023 bytes. -/
theorem udp_sides_agree_iff {κ : Type} {K : Ikcp κ} {cb : Callbacks Circle κ} {sender : Sock Circle κ}
    {frames : List (List UInt8)} (hands : HandsOver cb sender frames) {start s s' : Sock Circle κ}
    {es : List (ConnectorEvent × Surroundings)} (hstart : PeerStart K start)
    (hrun : Run (PeerStep K) start es s)
    {i : Nat} {around : Surroundings}
    (harrives : PeerStep K s (.complete i .success (encodePackets frames), around) s')
    (hreentered : ¬ s'.socket.Reentered) :
    (∃ new, s'.deliveries = s.deliveries ++ new ∧
      new.map (Delivery.packet Circle.contents) = frames.map fun f => (f.length, f)) ↔
    (encodePackets frames).length ≤ 1023 := by
  have hframes : ∀ f ∈ frames, f.length + 4 < 2 ^ 32 := fun f hf =>
    Nat.lt_of_le_of_lt (length_encodePackets_le hf) (Nat.lt_of_le_of_lt hands.2.1 (by decide))
  obtain ⟨⟨henabled, hafter⟩, hreturns⟩ := harrives
  obtain ⟨u, hu⟩ := hreturns i _ rfl
  have hlast : s' = settled u := by
    rw [hafter, afterEvent, hu]
  rw [hlast] at hreentered ⊢
  change ¬ u.socket.Reentered at hreentered
  have hi : i < s.socket.pending.length := of_decide_eq_true henabled
  have hp := List.getElem?_eq_getElem hi
  have houtside : Outside () s := hrun.invariant (I := Outside ()) peerStep_outside (peerStart_outside hstart)
  have hat : AtStart s.recvBuff s.socket.pending :=
    houtside.2.resolve_left fun hr =>
      hreentered (event_reentered (s := surrounded around s) hr houtside.1 hp hu)
  obtain ⟨j, new, hdel, hj, hmap, hall⟩ :=
    event_delivered (s := surrounded around s) hat houtside.1 hp hframes hu hreentered
  rw [← hall]
  constructor
  · rintro ⟨new', hdel', hmap'⟩
    have hnew : new' = new := List.append_cancel_left (hdel'.symm.trans hdel)
    rw [hnew, hmap] at hmap'
    have hlen := congrArg List.length hmap'
    rw [List.length_map, List.length_map, List.length_take] at hlen
    omega
  · rintro rfl
    rw [List.take_length] at hmap
    exact ⟨new, hdel, hmap⟩

def arriving (frames : List (List UInt8)) : ConnectorEvent × Surroundings :=
  (.complete 0 .success (encodePackets frames), { rounds := (encodePackets frames).length + 1 })

private theorem arriving_step {κ : Type} {K : Ikcp κ} {s : Sock Circle κ}
    (hat : AtStart s.recvBuff s.socket.pending)
    (hi : 0 < s.socket.pending.length) {frames : List (List UInt8)}
    (hframes : ∀ f ∈ frames, f.length + 4 < 2 ^ 32) :
    PeerStep K s (arriving frames) (afterEvent .udp K s (arriving frames)) := by
  refine ⟨⟨decide_eq_true hi, rfl⟩, fun i data h => ?_⟩
  exact event_returns (s := surrounded (arriving frames).2 s) quiet_silent hat hi hframes (Nat.lt_succ_self _)

def dialing : ConnectorEvent × Surroundings :=
  (.call .connect, { answers := List.replicate 5 ⟨.success, [], 0⟩ })

def dialed : Sock Circle Unit := afterEvent .udp noKcp connector dialing

private theorem dialed_reached : Run (PeerStep noKcp) connector [dialing] dialed :=
  .cons ⟨⟨rfl, rfl⟩, fun _ _ h => nomatch h⟩ (.nil dialed)

private theorem dialed_listens : AtStart dialed.recvBuff dialed.socket.pending ∧
    0 < dialed.socket.pending.length :=
  ⟨peer_outside .connector dialed_reached (by decide +kernel), by decide +kernel⟩

def holdingBytes (ring : Circle) : Sock Circle Unit :=
  { (acceptedSock : Sock Circle Unit) with sendBuff := ring, socket := { isOpen := true, answers := [⟨.success, [], 0⟩] } }

private theorem handsOver_holding {ring : Circle} (hv : ring.Valid) {frames : List (List UInt8)}
    (hne : frames ≠ [])
    (hc : ring.contents = encodePackets frames) (hlen : (encodePackets frames).length ≤ 65507) :
    HandsOver (callbacks .udp noKcp 0) (holdingBytes ring) frames := by
  have hbytes : encodePackets frames ≠ [] := by
    cases frames with
    | nil => exact absurd rfl hne
    | cons f fs => simp [encodePacket, le32]
  have hsend : (holdingBytes ring).sendBuff.contents = encodePackets frames := hc
  have hhands := doWriteUdp_hands (s := holdingBytes ring) (callbacks .udp noKcp 0) hv
    (by rw [hsend]; exact hbytes) (by rw [hsend]; omega) rfl rfl
  rw [hsend] at hhands
  exact ⟨hne, hlen, hhands⟩

/-- One packet of one byte. -/
theorem udp_sides_agree_one_byte :
    HandsOver (callbacks .udp noKcp 0)
    (holdingBytes (Circle.loaded (encodePackets [[42]]))) [[42]] ∧
    ∃ s', PeerStep noKcp dialed (arriving [[42]]) s' ∧ ∃ new, s'.deliveries = dialed.deliveries ++ new ∧
      new.map (Delivery.packet Circle.contents) = [(1, [42])] := by
  have hloaded := Circle.loaded_valid (encodePackets [[42]]) (by decide)
  have hands := handsOver_holding hloaded.1 (by decide) hloaded.2 (by decide)
  have hstep : PeerStep noKcp dialed (arriving [[42]]) _ :=
    arriving_step dialed_listens.1 dialed_listens.2 (by decide)
  refine ⟨hands, _, hstep, ?_⟩
  exact (udp_sides_agree_iff hands .connector dialed_reached hstep (by decide +kernel)).mpr (by decide)

def longFrame : List UInt8 := List.replicate 1020 0

def longRing : Circle := ⟨⟨encodePacket longFrame ++ List.replicate 3072 0, 409600⟩, 0, 1024⟩

private theorem longRing_valid : longRing.Valid ∧ longRing.contents = encodePackets [longFrame] := by
  have hlen : longRing.data.mem.length = 4096 := by decide +kernel
  refine ⟨⟨⟨12, by decide, hlen⟩, fun j hj => ?_, by rw [hlen]; decide, by rw [hlen]; decide⟩, by
    decide +kernel⟩
  exact Nat.le_trans (Nat.le_of_lt hj) (by decide)

/-- Another udp socket hands over one packet of 1020 bytes; the connected peer delivers nothing. -/
theorem udp_peer_drops_long_frame : HandsOver (callbacks .udp noKcp 0) (holdingBytes longRing) [longFrame] ∧
    Run (PeerStep noKcp) connector [dialing] dialed ∧ ∃ s', PeerStep noKcp dialed (arriving [longFrame]) s' ∧
      s'.deliveries = dialed.deliveries := by
  have hlen : (encodePackets [longFrame]).length = 1024 := by decide +kernel
  have hframes : ∀ f ∈ [longFrame], f.length + 4 < 2 ^ 32 := by decide +kernel
  refine ⟨handsOver_holding longRing_valid.1 (by decide) longRing_valid.2 (by rw [hlen]; decide),
    dialed_reached, _,
    arriving_step dialed_listens.1 dialed_listens.2 hframes, ?_⟩
  decide +kernel

end SimpleNetwork
