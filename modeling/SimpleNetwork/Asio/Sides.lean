import SimpleNetwork.Asio.ReceivePump
import SimpleNetwork.Asio.Rings
import SimpleNetwork.Buffer.RangeChecks
import SimpleNetwork.Reactor.InOrder

/-! The two sides of a connection over any transport: the socket, the application that
reads packets and answers them, and the packets that have been sent from it. -/
namespace SimpleNetwork
open Words Outcome

namespace Connection
variable {κ : Type}

theorem obeys_pure {B : Circle → Prop} {cb : Callbacks Circle κ} (hconnected : cb.onConnected = pure ())
    (hdisconnected : cb.onDisconnected = pure ()) : Obeys (fun _ : Unit => Rings B) (Rings B) cb :=
  fun _ => ⟨hconnected ▸ .pure fun _ h => h, hdisconnected ▸ .pure fun _ h => h⟩

theorem nextAnswer_eq (s : Sock Circle κ) : nextAnswer s = .ok (s.socket.answers.headD ⟨.wouldBlock, [], 0⟩)
    { s with socket := { s.socket with answers := s.socket.answers.tail } } := by
  obtain ⟨state, recvBuff, sendBuff,
    ⟨flags, isOpen, kcp, front, pending, answers, scripts, session, running, inRecv, trace⟩,
    deliveries⟩ := s
  cases answers <;> rfl

end Connection

/-- What an application does with a packet, given how many it has got before. It
reads some bytes of it, and sends packets. -/
structure Responder where
  want : Reader → UInt32
  answer : Nat → List UInt8 → List (List UInt8)
  small : ∀ i bytes, ∀ p ∈ answer i bytes, p.length < 2 ^ 64

namespace Responder
variable {κ : Type} (app : Responder) (t : Transport) (K : Ikcp κ)

def onRecv : OnRecv Circle (Asio κ) := fun i r => do
  let (bytes, _) ← Connection.recv (r.get (app.want r).toUInt64)
  Connection.perform t K unheard ((app.answer i bytes).map .send)

def callbacks : Callbacks Circle κ := ⟨pure (), pure (), app.onRecv t K⟩

def heard (d : Delivery Circle) : List UInt8 := (d.seen.contents.drop 4).take (app.want d.reader).toNat

def answers (ds : List (Delivery Circle)) (before : Nat) : List (List UInt8) :=
  (ds.zipIdx before).flatMap fun d => app.answer d.2 (app.heard d.1)

/-- Its code keeps the rings. -/
theorem gentle {B : Circle → Prop} (R : RingInvariant B) : Connection.Gentle B (app.callbacks t K) := by
  refine ⟨Connection.obeys_pure rfl rfl, fun i r => ?_⟩
  have hget : Keeps B (r.get (app.want r).toUInt64) B :=
    .look fun _ _ => .bind (R.read _ _) fun _ => .look fun _ _ => .pure fun _ h => h
  refine .bind (Connection.rings_recv hget) fun got => ?_
  exact (Connection.rings_interface R).perform (i := ()) (Connection.obeys_pure rfl rfl) _

theorem answers_append (ds more : List (Delivery Circle)) (before : Nat) :
    app.answers (ds ++ more) before = app.answers ds before ++ app.answers more (before + ds.length) := by
  rw [answers, List.zipIdx_append, List.flatMap_append]
  rfl

theorem answers_concat (ds : List (Delivery Circle)) (d : Delivery Circle) (before : Nat) :
    app.answers (ds ++ [d]) before = app.answers ds before ++
      app.answer (before + ds.length) (app.heard d) := by
  rw [answers_append]
  exact congrArg _ (List.flatMap_singleton _ _)

def listener : Responder := ⟨fun r => r.length, fun _ _ => [], nofun⟩

/-- An application that sends back the first integer of a packet. -/
def mirror : Responder := ⟨fun _ => 4, fun _ bytes => [bytes.take 4], fun _ bytes p hp => by
  rw [List.mem_singleton.mp hp, List.length_take]
  omega⟩

end Responder

/-- What `operator>>` on the reader of a delivery returns, if it returns. -/
theorem Reader.get_eq_ok {c c' : Circle} (h : c.Valid) {length want : UInt32} {bytes : List UInt8}
    {r : Reader}
    (hrun : (⟨0, 4, length⟩ : Reader).get want.toUInt64 c = .ok (bytes, r) c') :
    c' = c ∧ bytes = (c.contents.drop 4).take want.toNat := by
  obtain ⟨old, c₀, hold, hrun⟩ := Outcome.bind_eq_ok.mp hrun
  cases hold
  obtain ⟨bytes', c₁, hread, hrun⟩ := Outcome.bind_eq_ok.mp hrun
  change Circle.read want.toUInt64 4 c = _ at hread
  have hwant : want.toUInt64.toNat = want.toNat := UInt32.toNat_toUInt64 _
  have hfour : (4 : UInt64).toNat = 4 := rfl
  by_cases hin : (4 : UInt64).toNat + want.toUInt64.toNat ≤ c.contents.length
  · rw [Circle.read_peek h hin, hwant, hfour] at hread
    cases hread
    cases hrun
    exact ⟨rfl, rfl⟩
  · have hguard : c.getCount < 4 + want.toUInt64 := by
      have hlt := want.toNat_lt
      rw [UInt64.lt_iff_toNat_lt, toNat_add_of_lt (by omega), ← h.length_contents]
      omega
    rw [Circle.read_refused (by decide) hguard] at hread
    cases hread

/-- One end of a connection, with the packets that have been sent from it. -/
structure Side (κ : Type) where
  socket : Sock Circle κ
  sent : List (List UInt8)

namespace Side
variable {κ : Type} {t : Transport} {app : Responder} {K : Ikcp κ} {a a' : Side κ}

def called : ConnectorEvent → List (List UInt8)
  | .call (.send payload) => [payload]
  | _ => []

/-- The side after an event in which the application answered what was delivered. -/
def after (app : Responder) (a : Side κ) (s : Sock Circle κ) : Side κ :=
  ⟨Connection.settled s, a.sent ++
    app.answers (s.deliveries.drop a.socket.deliveries.length) a.socket.deliveries.length⟩

def outcome (t : Transport) (app : Responder) (K : Ikcp κ) (a : Side κ) (e : ConnectorEvent × Surroundings) :
    EStateM.Result Fault (Sock Circle κ) Unit :=
  Connection.event t K e.2.rounds (app.callbacks t K) e.1 (Connection.surrounded e.2 a.socket)

/-- The event returns: no exception leaves it, and no send of it leaves the ring or sticks. -/
def Returns (t : Transport) (app : Responder) (K : Ikcp κ) (a : Side κ)
    (e : ConnectorEvent × Surroundings) : Prop :=
  ∃ s, a.outcome t app K e = .ok () s

/-- The side that an event leaves. An exception leaves the socket as it is then; there is
nothing after an access outside an array, and after a call that never returns. -/
def Left (app : Responder) (a : Side κ) (e : ConnectorEvent × Surroundings) (a' : Side κ) :
    EStateM.Result Fault (Sock Circle κ) Unit → Prop
  | .ok _ s => a' = after app ⟨a.socket, a.sent ++ called e.1⟩ s
  | .error fault s => fault.isException ∧ a'.socket = Connection.settled s ∧ a.sent <+: a'.sent

/-- One event of a session, which lasts until the connection is closed. -/
structure Step (t : Transport) (app : Responder) (K : Ikcp κ) (a : Side κ)
    (e : ConnectorEvent × Surroundings) (a' : Side κ) : Prop where
  up : a.socket.state = .connected
  enabled : Connection.enabled a.socket e.1 = true
  same : e.1 ≠ .call .connect
  small : ∀ p ∈ called e.1, p.length < 2 ^ 64
  left : Left app a e a' (a.outcome t app K e)

/-- An event of a session that returns. -/
structure Turn (t : Transport) (app : Responder) (K : Ikcp κ) (a : Side κ)
    (e : ConnectorEvent × Surroundings) (a' : Side κ) : Prop where
  up : a.socket.state = .connected
  enabled : Connection.enabled a.socket e.1 = true
  same : e.1 ≠ .call .connect
  small : ∀ p ∈ called e.1, p.length < 2 ^ 64
  returns : ∃ s, a.outcome t app K e = .ok () s ∧ a' = after app ⟨a.socket, a.sent ++ called e.1⟩ s

theorem turn_iff {e : ConnectorEvent × Surroundings} : a.Turn t app K e a' ↔
    a.Step t app K e a' ∧ a.Returns t app K e := by
  constructor
  · rintro ⟨hup, henabled, hsame, hsmall, s, hrun, hleft⟩
    refine ⟨⟨hup, henabled, hsame, hsmall, ?_⟩, s, hrun⟩
    rw [hrun]
    exact hleft
  · rintro ⟨⟨hup, henabled, hsame, hsmall, hleft⟩, s, hrun⟩
    rw [hrun] at hleft
    exact ⟨hup, henabled, hsame, hsmall, s, hrun, hleft⟩

def delivered (a : Side κ) : List (List UInt8) := a.socket.deliveries.map (Delivery.payload Circle.contents)

/-- Without a delivery nothing is answered. -/
theorem after_sent {s : Sock Circle κ} (hdeliveries : s.deliveries = a.socket.deliveries) :
    (a.after app s).sent = a.sent := by
  rw [after, hdeliveries, List.drop_length]
  exact List.append_nil _

/-- What has been sent at the end of an event. -/
theorem Turn.sent {e : ConnectorEvent × Surroundings} (hturn : a.Turn t app K e a') :
    a'.sent = a.sent ++ called e.1 ++
      app.answers (a'.socket.deliveries.drop a.socket.deliveries.length)
      a.socket.deliveries.length := by
  obtain ⟨-, -, -, -, s, -, rfl⟩ := hturn
  rfl

def next (t : Transport) (app : Responder) (K : Ikcp κ) (a : Side κ)
    (e : ConnectorEvent × Surroundings) : Option (Side κ) :=
  if a.socket.state = .connected ∧ Connection.enabled a.socket e.1 = true ∧ e.1 ≠ .call .connect ∧
      ∀ p ∈ called e.1, p.length < 2 ^ 64 then
    match a.outcome t app K e with
    | .ok _ s => some (after app ⟨a.socket, a.sent ++ called e.1⟩ s)
    | .error _ _ => none
  else none

theorem turn_of_next {e : ConnectorEvent × Surroundings} (h : a.next t app K e = some a') :
    a.Turn t app K e a' := by
  unfold next at h
  split at h
  · rename_i hguard
    obtain ⟨hup, henabled, hsame, hsmall⟩ := hguard
    split at h
    · rename_i s hrun
      cases h
      exact ⟨hup, henabled, hsame, hsmall, s, hrun, rfl⟩
    · cases h
  · cases h

end Side

abbrev Link (κ : Type) := Bool → Side κ

/-- The event returns on its side. -/
def Link.Returns {κ : Type} (t : Transport) (apps : Bool → Responder) (K : Ikcp κ) (l : Link κ)
    (e : Bool × ConnectorEvent × Surroundings) : Prop :=
  (l e.1).Returns t (apps e.1) K e.2

end SimpleNetwork
