import SimpleNetwork.Buffer.CircleSpec
import SimpleNetwork.Reactor.Packet

/-! `reactor::connection` with the two buffers of its socket, and the loop that
cuts received bytes into packets. Fields that only one transport has live in a
parameter; the log of deliveries is ghost state. -/
namespace SimpleNetwork
open Words

inductive ConnectionState where
  | disconnected
  | connecting
  | connected
  deriving DecidableEq, Repr

/-- One call of `on_recv`: the reader it got, the buffer it could look at, and
the buffer after the loop removed the packet. -/
structure Delivery (β : Type) where
  reader : Reader
  seen : β
  left : β
  deriving DecidableEq, Repr

structure Connection (β τ : Type) where
  state : ConnectionState
  recvBuff : β
  sendBuff : β
  socket : τ
  deliveries : List (Delivery β)
  deriving DecidableEq, Repr

/-- The application's `on_recv`, as a function of how many packets it has been
given before. It may run any code on the connection. -/
abbrev OnRecv (β τ : Type) := Nat → Reader → EStateM Fault (Connection β τ) Unit

namespace Connection
variable {β τ α : Type}

def recv (x : EStateM Fault β α) : EStateM Fault (Connection β τ) α :=
  Outcome.zoom recvBuff (fun b s => { s with recvBuff := b }) x

def send (x : EStateM Fault β α) : EStateM Fault (Connection β τ) α :=
  Outcome.zoom sendBuff (fun b s => { s with sendBuff := b }) x

theorem recv_ok {x : EStateM Fault β α} {s : Connection β τ} {a : α} {b : β} (h : x s.recvBuff = .ok a b) :
    recv x s = .ok a { s with recvBuff := b } :=
  Outcome.zoom_ok h

theorem recv_error {x : EStateM Fault β α} {s : Connection β τ} {e : Fault} {b : β}
    (h : x s.recvBuff = .error e b) :
    recv x s = .error e { s with recvBuff := b } :=
  Outcome.zoom_error h

/-- A call on `recv_buff_` changes nothing else. -/
theorem recv_eq_ok {x : EStateM Fault β α} {s s' : Connection β τ} {a : α} (h : recv x s = .ok a s') :
    ∃ b, x s.recvBuff = .ok a b ∧ s' = { s with recvBuff := b } :=
  Outcome.zoom_eq_ok h

theorem recv_eq_error {x : EStateM Fault β α} {s s' : Connection β τ} {fault : Fault}
    (h : recv x s = .error fault s') :
    ∃ b, x s.recvBuff = .error fault b ∧ s' = { s with recvBuff := b } :=
  Outcome.zoom_eq_error h

theorem send_ok {x : EStateM Fault β α} {s : Connection β τ} {a : α} {b : β} (h : x s.sendBuff = .ok a b) :
    send x s = .ok a { s with sendBuff := b } :=
  Outcome.zoom_ok h

/-- A call on `send_buff_` changes nothing else. -/
theorem send_eq_ok {x : EStateM Fault β α} {s s' : Connection β τ} {a : α} (h : send x s = .ok a s') :
    ∃ b, x s.sendBuff = .ok a b ∧ s' = { s with sendBuff := b } :=
  Outcome.zoom_eq_ok h

theorem send_eq_error {x : EStateM Fault β α} {s s' : Connection β τ} {fault : Fault}
    (h : send x s = .error fault s') :
    ∃ b, x s.sendBuff = .error fault b ∧ s' = { s with sendBuff := b } :=
  Outcome.zoom_eq_error h

variable [Buffer β]

/-- One round of the loop in `on_read`; the result says whether it goes on.
The packet size is a `uint32`, so the sum with the prefix can wrap. -/
def onReadRound (onRecv : OnRecv β τ) : EStateM Fault (Connection β τ) Bool := do
  let s ← get
  if Buffer.getCount s.recvBuff < 4 then pure false
  else
    let bytes ← recv (Buffer.read 4 0)
    let size : UInt32 := ((ofLe32 bytes).toUInt64 + 4).toUInt32
    let s ← get
    if size.toUInt64 > Buffer.getCount s.recvBuff then pure false
    else
      let reader ← recv Reader.new
      let s ← get
      onRecv s.deliveries.length reader
      recv (Buffer.remove size.toUInt64)
      modify fun t => { t with deliveries := t.deliveries ++ [⟨reader, s.recvBuff, t.recvBuff⟩] }
      let s ← get
      pure (Buffer.getCount s.recvBuff ≠ 0)

/-- `on_read()`, bounded by a number of rounds. -/
def onRead (onRecv : OnRecv β τ) : Nat → EStateM Fault (Connection β τ) Unit
  | 0 => throw .diverged
  | fuel + 1 => do
    let more ← onReadRound onRecv
    if more then onRead onRecv fuel else pure ()

end Connection

/-- An `on_recv` that returns and leaves `recv_buff_` alone. -/
def Quiet {β τ : Type} (onRecv : OnRecv β τ) : Prop :=
  ∀ i r s, ∃ s', onRecv i r s = .ok () s' ∧ s'.recvBuff = s.recvBuff ∧ s'.deliveries = s.deliveries

def silent {β τ : Type} : OnRecv β τ := fun _ _ => pure ()

theorem quiet_silent {β τ : Type} : Quiet (silent : OnRecv β τ) := fun _ _ s => ⟨s, rfl, rfl, rfl⟩

end SimpleNetwork
