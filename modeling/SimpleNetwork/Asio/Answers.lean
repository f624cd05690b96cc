import SimpleNetwork.Asio.SendPump
import SimpleNetwork.Asio.Sides

/-! What the sides of all transports share: how packets are sent, how the application
answers those that `on_read` delivers, and how a session ends. -/
namespace SimpleNetwork
open Words Outcome Runs

def Action.receivedBytes : Action → List UInt8
  | .received bytes => bytes
  | _ => []

def receivedBytes {β κ : Type} (s : Sock β κ) : List UInt8 :=
  s.socket.trace.flatMap fun e => e.action.receivedBytes

def Action.datagrams : Action → List (List UInt8)
  | .sent bytes => [bytes]
  | _ => []

def datagrams {β κ : Type} (s : Sock β κ) : List (List UInt8) :=
  s.socket.trace.flatMap fun e => e.action.datagrams

private theorem flatten_datagrams {β κ : Type} (s : Sock β κ) : (datagrams s).flatten = sentBytes s := by
  unfold datagrams sentBytes
  induction s.socket.trace with
  | nil => rfl
  | cons e trace ih =>
    rw [List.flatMap_cons, List.flatMap_cons, List.flatten_append, ih]
    congr 1
    cases e.action with
    | sent bytes => exact List.append_nil bytes
    | _ => rfl

/-- Every function of a ring keeps its size on the ladder. -/
theorem rungs : RingInvariant (Circle.Sized Ladder) := ringInvariant_sized Circle.grows_ladder

/-- The space query may grow the ring, and keeps what is in it. -/
theorem Circle.getContinguiousSpace_laddered {c c' : Circle} {n : UInt64} (h : c.Valid ∧ Laddered c.data)
    (hready : ¬ Ready c.contents) (hrun : getContinguiousSpace c = .ok n c') :
    n = continguiousSpaceOf c'.head c'.tail c'.getSize ∧ n.toNat < 2 ^ 32 ∧ (c'.Valid ∧ Laddered c'.data) ∧
      c'.contents = c.contents := by
  have hheld : Held c.contents c := ⟨h.1, h.2.1, h.2.2, .stop hready⟩
  rcases hheld.space with ⟨-, hquery⟩ | ⟨-, d, hd, hc, -, hquery, -⟩
  · rw [hquery] at hrun
    cases hrun
  · rw [hquery] at hrun
    obtain ⟨rfl, rfl⟩ := EStateM.Result.ok.inj hrun
    exact ⟨rfl, hd.toNat_space_lt, ⟨hd.valid, hd.maxSize, hd.size⟩, hc⟩

section Answers
variable {κ : Type} {t : Transport} {K : Ikcp κ} {cb : Callbacks Circle κ}
  {frame : Sock Circle κ → Sock Circle κ → Prop}
  {holds : List (List UInt8) → Sock Circle κ → Prop} {packets : List (List UInt8)} {s s' : Sock Circle κ}

/-- How a transport sends: what holds of the socket when some packets have been sent,
and what sending one more leaves alone. -/
structure Sends (t : Transport) (K : Ikcp κ) (cb : Callbacks Circle κ)
    (frame : Sock Circle κ → Sock Circle κ → Prop)
    (holds : List (List UInt8) → Sock Circle κ → Prop) : Prop where
  refl : ∀ s, frame s s
  trans : ∀ {s u v}, frame s u → frame u v → frame s v
  recvBuff : ∀ {s u}, frame s u → u.recvBuff = s.recvBuff
  deliveries : ∀ {s u}, frame s u → u.deliveries = s.deliveries
  packet : ∀ {packets payload s u}, holds packets s → payload.length < 2 ^ 64 →
    Connection.sendPacket t K cb payload s = .ok () u → holds (packets ++ [payload]) u ∧ frame s u

namespace Sends
variable (S : Sends t K cb frame holds)
include S

/-- The application's sends, in order. -/
theorem perform (payloads : List (List UInt8)) (hsize : ∀ p ∈ payloads, p.length < 2 ^ 64)
    (h : holds packets s)
    (hrun : Connection.perform t K cb (payloads.map .send) s = .ok () s') :
    holds (packets ++ payloads) s' ∧ frame s s' := by
  induction payloads generalizing packets s with
  | nil =>
    cases hrun
    rw [List.append_nil]
    exact ⟨h, S.refl _⟩
  | cons p payloads ih =>
    obtain ⟨_, u, hsend, hrest⟩ := bind_eq_ok.mp hrun
    obtain ⟨hu, hsu⟩ := S.packet h (hsize p List.mem_cons_self) hsend
    obtain ⟨hs', hus'⟩ := ih (fun q hq => hsize q (List.mem_cons_of_mem _ hq)) hu hrest
    rw [List.append_assoc] at hs'
    exact ⟨hs', S.trans hsu hus'⟩

/-- Sending also keeps what the frame keeps. -/
theorem also {P : Sock Circle κ → Prop} (hP : ∀ {s u}, frame s u → P s → P u) :
    Sends t K cb frame fun packets s => holds packets s ∧ P s where
  refl := S.refl
  trans := S.trans
  recvBuff := S.recvBuff
  deliveries := S.deliveries
  packet h hsize hrun := by
    obtain ⟨hu, hframe⟩ := S.packet h.1 hsize hrun
    exact ⟨⟨hu, hP hframe h.2⟩, hframe⟩

end Sends

namespace Responder
variable {app : Responder} {old : List (Delivery Circle)}

/-- The application reads a packet and sends its answers. -/
theorem onRecv_answers (S : Sends t K unheard frame holds) {i : Nat} {length : UInt32}
    (h : holds packets s) (hv : s.recvBuff.Valid)
    (hrun : app.onRecv t K i ⟨0, 4, length⟩ s = .ok () s') :
    holds (packets ++ app.answer i
      ((s.recvBuff.contents.drop 4).take (app.want ⟨0, 4, length⟩).toNat)) s' ∧ frame s s' := by
  obtain ⟨⟨bytes, r⟩, u, hget, hperform⟩ := bind_eq_ok.mp hrun
  obtain ⟨c, hread, rfl⟩ := Connection.recv_eq_ok hget
  obtain ⟨rfl, rfl⟩ := Reader.get_eq_ok hv hread
  exact S.perform _ (app.small i _) h hperform

structure Delivers (holds : List (List UInt8) → Sock Circle κ → Prop) : Prop where
  ring : ∀ {packets s}, holds packets s → s.recvBuff.Valid ∧ Laddered s.recvBuff.data
  deliver : ∀ {packets s b}, holds packets s → Ready s.recvBuff.contents → b.Valid ∧ Laddered b.data →
    b.contents = s.recvBuff.contents.drop (packetSize s.recvBuff.contents) → holds packets { s with
      recvBuff := b
      deliveries := s.deliveries ++ [⟨⟨0, 4, declared s.recvBuff.contents⟩, s.recvBuff, b⟩] }

/-- The middle of a handler that began with the given packets sent and the given deliveries. -/
structure Answering (app : Responder) (holds : List (List UInt8) → Sock Circle κ → Prop)
    (packets : List (List UInt8))
    (old : List (Delivery Circle)) (s : Sock Circle κ) : Prop where
  sent : holds (packets ++ app.answers (s.deliveries.drop old.length) old.length) s
  old : old <+: s.deliveries

/-- A handler begins. -/
theorem answering_begins (h : holds packets s) : app.Answering holds packets s.deliveries s := by
  refine ⟨?_, List.prefix_rfl⟩
  rw [List.drop_length]
  change holds (packets ++ []) s
  rwa [List.append_nil]

/-- A change that the condition on the socket survives, and that delivers nothing. -/
theorem Answering.change (h : app.Answering holds packets old s)
    {holds' : List (List UInt8) → Sock Circle κ → Prop}
    (hdeliveries : s'.deliveries = s.deliveries) (hsent : ∀ {ps}, holds ps s → holds' ps s') :
    app.Answering holds' packets old s' := by
  refine ⟨?_, hdeliveries ▸ h.old⟩
  rw [hdeliveries]
  exact hsent h.sent

variable (S : Sends t K unheard frame holds) (D : Delivers holds)
include S D

/-- One round of `on_read` delivers the packet at the front and sends the answers. -/
theorem Answering.round (h : app.Answering holds packets old s) {more : Bool}
    (hrun : Connection.onReadRound (app.onRecv t K) s = .ok more s') :
    app.Answering holds packets old s' ∧ (more = false → ¬ Ready s'.recvBuff.contents) := by
  have R := circle_reads Laddered
  have hring := D.ring h.sent
  by_cases hq : Ready s.recvBuff.contents
  · have hcall := hrun
    rw [Connection.onReadRound_call R hring hq] at hcall
    obtain ⟨_, u, hrecv, -⟩ := bind_eq_ok.mp hcall
    obtain ⟨hu, hframe⟩ := onRecv_answers S h.sent hring.1 hrecv
    have hsame := S.recvBuff hframe
    have hdeliveries := S.deliveries hframe
    obtain ⟨b, hb, hc, hround⟩ := Connection.onReadRound_keep R hring hq hrecv hsame hdeliveries
    rw [hround] at hrun
    obtain ⟨rfl, rfl⟩ := EStateM.Result.ok.inj hrun
    have hplace : old.length + (s.deliveries.drop old.length).length = s.deliveries.length := by
      have := h.old.length_le
      rw [List.length_drop]
      omega
    rw [← hsame] at hq hc hu
    rw [← hdeliveries, ← hsame]
    refine ⟨⟨?_, ?_⟩, fun hmore => ?_⟩
    · have hdelivered := D.deliver hu hq hb hc
      convert hdelivered using 1
      rw [List.drop_append_of_le_length (by rw [hdeliveries]; exact h.old.length_le),
        answers_concat, hdeliveries, hplace,
        ← List.append_assoc]
      rfl
    · rw [hdeliveries]
      exact h.old.trans (List.prefix_append _ _)
    · have hempty : b.contents = [] := by simpa using hmore
      change ¬ Ready b.contents
      rw [hempty]
      decide
  · rw [Connection.onReadRound_stop R hring hq] at hrun
    obtain ⟨rfl, rfl⟩ := EStateM.Result.ok.inj hrun
    exact ⟨h, fun _ => hq⟩

/-- `on_read` as a whole leaves no packet behind that it could deliver. -/
theorem Answering.onRead {rounds : Nat} (h : app.Answering holds packets old s)
    (hrun : Connection.onRead (app.onRecv t K) rounds s = .ok () s') :
    app.Answering holds packets old s' ∧ ¬ Ready s'.recvBuff.contents := by
  induction rounds generalizing s with
  | zero => cases hrun
  | succ rounds ih =>
    obtain ⟨more, u, hround, hrest⟩ := bind_eq_ok.mp hrun
    obtain ⟨hu, hstop⟩ := h.round S D hround
    cases more with
    | true => exact ih hu hrest
    | false =>
      cases hrest
      exact ⟨hu, hstop rfl⟩

end Responder
end Answers

namespace Connection
variable {κ : Type} {t : Transport} {cb : Callbacks Circle κ} {s : Sock Circle κ}

structure Past (s s' : Sock Circle κ) : Prop where
  deliveries : s'.deliveries = s.deliveries
  sent : datagrams s' = datagrams s
  received : receivedBytes s' = receivedBytes s

structure Closed (s s' : Sock Circle κ) : Prop extends Past s s' where
  down : s'.state ≠ .connected

theorem Past.sentBytes {s' : Sock Circle κ} (h : Past s s') : sentBytes s' = sentBytes s := by
  rw [← flatten_datagrams, ← flatten_datagrams, h.sent]

private theorem past_modify {f : Sock Circle κ → Sock Circle κ}
    (hdeliveries : ∀ u, (f u).deliveries = u.deliveries)
    (htrace : ∀ u, (f u).socket.trace = u.socket.trace) : Keeps (Past s)
    (modify f : EStateM Fault (Sock Circle κ) Unit) fun _ => True :=
  .modify fun u h => ⟨(hdeliveries u).trans h.deliveries, by rw [← h.sent, datagrams, datagrams, htrace],
    by rw [← h.received, receivedBytes, receivedBytes, htrace]⟩

private theorem past_note {action : Action} (hsent : action.datagrams = [])
    (hreceived : action.receivedBytes = []) :
    Keeps (Past s) (note action) fun _ => True :=
  .modify fun u h => by
    refine ⟨h.deliveries, ?_, ?_⟩
    · rw [← h.sent]
      change (u.socket.trace ++ [_]).flatMap _ = _
      rw [List.flatMap_append, List.flatMap_singleton, hsent, List.append_nil]
      rfl
    · rw [← h.received]
      change (u.socket.trace ++ [_]).flatMap _ = _
      rw [List.flatMap_append, List.flatMap_singleton, hreceived, List.append_nil]
      rfl

private theorem ended_note {action : Action} (hsent : action.datagrams = [])
    (hreceived : action.receivedBytes = []) :
    Keeps (Closed s) (note action) fun _ => True where
  returns h hrun := by
    refine ⟨(past_note hsent hreceived).returns h.toPast hrun, ?_⟩
    cases hrun
    exact h.down
  faults _ _ := trivial

private theorem setState_closes {state : ConnectionState} (hstate : state ≠ .connected) :
    Triple (Past s) (setState state) (fun _ => Closed s) fun _ => True :=
  .bind (Q := fun _ => Closed s)
    (.modify fun _ h => ⟨⟨h.deliveries, h.sent, h.received⟩, hstate⟩) fun _ => ended_note rfl rfl

private theorem closeSocket_past : Keeps (Past s) closeSocket fun _ => True :=
  .bind (past_modify (fun _ => rfl) fun _ => rfl) fun _ => past_note rfl rfl

/-- `connection::on_close()` without a callback. -/
theorem onClose_closes (hquiet : cb.onDisconnected = pure ()) :
    Triple (Past s) (onClose cb) (fun _ => Closed s) fun _ => True := by
  refine .get fun u hu => ?_
  split
  · refine .before (.bind (setState_closes (by decide)) fun _ => .bind (ended_note rfl rfl) fun _ =>
      ?_) fun v hv => hv ▸ hu
    rw [hquiet]
    exact .pure fun v hv => hv
  · rename_i hdown
    exact .pure fun v hv => ⟨hv ▸ hu, hv ▸ hdown⟩

/-- `close()` of the three sockets. -/
theorem close_closes (hquiet : cb.onDisconnected = pure ()) :
    Triple (Past s) (close t cb) (fun _ => Closed s) fun _ => True := by
  cases t with
  | tcp =>
    refine .bind (past_modify (fun _ => rfl) fun _ => rfl) fun _ => ?_
    refine .bind (.bind (past_modify (fun _ => rfl) fun _ => rfl) fun _ => past_note rfl rfl) fun _ => ?_
    refine .bind (.bind (past_modify (fun _ => rfl) fun _ => rfl) fun _ => past_note rfl rfl) fun _ => ?_
    exact .bind closeSocket_past fun _ => onClose_closes hquiet
  | udp => exact .bind closeSocket_past fun _ => onClose_closes hquiet
  | kcp =>
    refine .bind closeSocket_past fun _ => .bind (onClose_closes hquiet) fun _ => .look fun u _ =>
      .ite (fun _ => ?_) fun _ => .pure fun _ h => h
    refine .bind (Q := fun _ => Closed s)
      (.modify fun _ h => ⟨⟨h.deliveries, h.sent, h.received⟩, h.down⟩) fun _ => ended_note rfl rfl

/-- `connection::disconnect()` ends the session too. -/
theorem disconnect_closes (hquiet : cb.onDisconnected = pure ()) :
    Triple (Past s) (disconnect t cb) (fun _ => Closed s) fun _ => True := by
  refine .get fun u hu => ?_
  split
  · rename_i hstate
    exact .pure fun v hv => ⟨hv ▸ hu, by rw [hv, hstate]; decide⟩
  · refine .before (.bind (setState_closes (by decide)) fun _ =>
      .bind (.before (close_closes hquiet) fun _ h => h.toPast)
      fun _ => .bind (ended_note rfl rfl) fun _ => ?_) fun v hv => hv ▸ hu
    rw [hquiet]
    exact .pure fun v hv => hv

end Connection

namespace Side
variable {κ : Type} {t : Transport} {K : Ikcp κ} {a : Side κ}

/-- The state after an operation has been taken out of the outstanding ones. -/
def resuming (a : Side κ) (env : Surroundings) (i : Nat) (p : Pending) : Sock Circle κ :=
  { Connection.surrounded env a.socket with socket := { (Connection.surrounded env a.socket).socket with
    pending := a.socket.socket.pending.eraseIdx i
    running := some p.session } }

/-- A completion is its handler's run. -/
theorem event_complete {env : Surroundings} {i : Nat} {ec : ErrorCode} {data : List UInt8}
    {p : Pending} {cb : Callbacks Circle κ}
    (hp : a.socket.socket.pending[i]? = some p) :
    Connection.event t K env.rounds cb (.complete i ec data) (Connection.surrounded env a.socket) =
      Connection.handle t K cb env.rounds p.operation ec data (a.resuming env i p) := by
  have hresume : (Connection.surrounded env a.socket).socket.pending[i]? = some p := hp
  rw [Connection.event, get_bind, hresume]
  rfl

end Side

def arrivals : ConnectorEvent → List (List UInt8)
  | .complete _ .success d => [d]
  | _ => []

namespace Link
variable {κ : Type} {t : Transport} {apps : Bool → Responder} {K : Ikcp κ} {l l' : Link κ}

/-- An event of one side. A datagram that arrives is one that the other side has handed
over, at any time and perhaps not for the first time. -/
structure DatagramStep (t : Transport) (apps : Bool → Responder) (K : Ikcp κ) (l : Link κ)
    (e : Bool × ConnectorEvent × Surroundings) (l' : Link κ) : Prop where
  side : (l e.1).Step t (apps e.1) K e.2 (l' e.1)
  other : l' (!e.1) = l (!e.1)
  arrives : ∀ d ∈ arrivals e.2.1, d ∈ datagrams (l !e.1).socket

theorem DatagramStep.turn {e : Bool × ConnectorEvent × Surroundings}
    (hstep : DatagramStep t apps K l e l') (hreturns : l.Returns t apps K e) :
    (l e.1).Turn t (apps e.1) K e.2 (l' e.1) :=
  Side.turn_iff.mpr ⟨hstep.side, hreturns⟩

def relay (t : Transport) (apps : Bool → Responder) (K : Ikcp κ) (l : Link κ)
    (e : Bool × ConnectorEvent × Surroundings) :
    Option (Link κ) :=
  if ∀ d ∈ arrivals e.2.1, d ∈ datagrams (l !e.1).socket then
    ((l e.1).next t (apps e.1) K e.2).map (Function.update l e.1)
  else none

theorem step_of_relay {e : Bool × ConnectorEvent × Surroundings} (h : l.relay t apps K e = some l') :
    Where (DatagramStep t apps K) (Returns t apps K) l e l' := by
  unfold relay at h
  split at h
  · rename_i harrives
    obtain ⟨a, hside, rfl⟩ := Option.map_eq_some_iff.mp h
    obtain ⟨hstep, hreturns⟩ := Side.turn_iff.mp (Side.turn_of_next hside)
    refine ⟨⟨?_, Function.update_of_ne (Bool.not_ne_self e.1) _ _, harrives⟩, hreturns⟩
    rw [Function.update_self]
    exact hstep
  · cases h

end Link
end SimpleNetwork
