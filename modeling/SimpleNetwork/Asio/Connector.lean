import SimpleNetwork.Asio.Socket
import SimpleNetwork.Base.Runs

/-! Connectors of the three transports, the application's calls on them from
outside and from inside its callbacks, and the event loop that runs completion
handlers one at a time. -/
namespace SimpleNetwork
open Words

namespace Connection
variable {κ : Type} (t : Transport) (K : Ikcp κ) (cb : Callbacks Circle κ)

def beginSession : EStateM Fault (Sock Circle κ) Unit := do
  let s ← get
  socketDo fun a => { a with session := a.session + 1 }
  note (.connect s.socket.pending.length s.socket.inRecv)

def attempt : EStateM Fault (Sock Circle κ) Unit := do
  let answer ← nextAnswer
  if answer.ec = .success then pure () else throw .systemError

/-- `socket_.open(v4())`, which refuses a socket that is open. -/
def openDatagram : EStateM Fault (Sock Circle κ) Unit := do
  let s ← get
  if s.socket.isOpen then throw .systemError
  else
    attempt
    socketDo fun a => { a with isOpen := true }

/-- `connect()` of the three connectors. `async_connect` opens a closed socket. -/
def connect : EStateM Fault (Sock Circle κ) Unit := do
  beginSession
  close t cb
  match t with
  | .tcp =>
    setState .connecting
    socketDo fun a => { a with isOpen := true }
    start .connect
  | _ =>
    openDatagram
    nonBlocking
    attempt
    attempt
    setState .connecting
    let answer ← nextAnswer
    if answer.ec ≠ .success then disconnect t cb
    else
      let ec ← sendDatagram (le32 0)
      if ec = .success then connected t K cb else disconnect t cb

/-- Run code that holds a writer; an exception destroys the writer on its way out. -/
def holding {α : Type} (w : Writer) (x : EStateM Fault (Sock Circle κ) α) : EStateM Fault (Sock Circle κ) α :=
  tryCatch x fun e => do
    send w.destroy
    throw e

/-- A packet through `get_packet_writer()`, `operator<<` and `connection::send(writer&)`. -/
def sendPacket (payload : List UInt8) : EStateM Fault (Sock Circle κ) Unit := do
  let w ← send Writer.new
  let w ← holding w (send (w.put payload))
  holding w do
    let _ ← send (w.flush none)
    doWrite t K cb
  send w.destroy

def perform : List Call → EStateM Fault (Sock Circle κ) Unit
  | [] => pure ()
  | call :: calls => do
    match call with
    | .connect => connect t K cb
    | .disconnect => disconnect t cb
    | .send payload => sendPacket t K cb payload
    perform calls

/-- Application code in a callback: it makes the calls of the next script. What
it does is not attributed to the handler that runs it. -/
def applicationCode (fromRecv : Bool) (body : List Call → EStateM Fault (Sock Circle κ) Unit) :
    EStateM Fault (Sock Circle κ) Unit := do
  let s ← get
  match s.socket.scripts with
  | [] => pure ()
  | script :: scripts =>
    socketDo fun a => { a with
      scripts := scripts
      running := none
      inRecv := a.inRecv || (fromRecv && a.running.isSome) }
    body script
    socketDo fun a => { a with running := s.socket.running, inRecv := s.socket.inRecv }

/-- Callbacks that follow the scripts. Each call takes a script, so the number
of scripts bounds how deep callbacks nest. -/
def callbacks : Nat → Callbacks Circle κ
  | 0 => ⟨pure (), pure (), silent⟩
  | fuel + 1 =>
    let body := perform t K (callbacks fuel)
    ⟨applicationCode false body, applicationCode false body, fun _ _ => applicationCode true body⟩

def handle (rounds : Nat) (operation : Operation) (ec : ErrorCode) (data : List UInt8) :
    EStateM Fault (Sock Circle κ) Unit :=
  match t, operation with
  | .tcp, .connect => if ec = .success then connected .tcp K cb else disconnect .tcp cb
  | .tcp, .waitRead => handleWaitRead cb rounds ec
  | .tcp, .waitWrite => handleWaitWrite cb ec
  | .udp, .receive place space => handleReceiveUdp cb rounds place space ec data
  | .kcp, .receive _ _ => handleReceiveKcp K cb ec data
  | _, _ => pure ()

end Connection

/-- What the event loop and the application outside callbacks do with a connector. -/
inductive ConnectorEvent where
  | call (call : Call)
  | complete (i : Nat) (ec : ErrorCode) (data : List UInt8)
  | tick (current : UInt32)
  deriving DecidableEq, Repr

/-- The environment of one event: the results of its socket calls, what its
callbacks call, and a bound on the packets of one `on_read`. -/
structure Surroundings where
  answers : List Answer := []
  scripts : List (List Call) := []
  rounds : Nat := 0
  deriving DecidableEq, Repr

namespace Connection
variable {κ : Type} (t : Transport) (K : Ikcp κ)

def event (rounds : Nat) (cb : Callbacks Circle κ) : ConnectorEvent → EStateM Fault (Sock Circle κ) Unit
  | .call call => perform t K cb [call]
  | .complete i ec data => do
    let s ← get
    match s.socket.pending[i]? with
    | none => pure ()
    | some p =>
      socketDo fun a => { a with pending := a.pending.eraseIdx i, running := some p.session }
      handle t K cb rounds p.operation ec data
  | .tick current => if t = .kcp then update K cb rounds current else pure ()

def surrounded (e : Surroundings) (s : Sock Circle κ) : Sock Circle κ :=
  { s with socket := { s.socket with answers := e.answers, scripts := e.scripts } }

def settled (s : Sock Circle κ) : Sock Circle κ :=
  { s with socket := { s.socket with running := none, inRecv := false } }

def afterEvent (s : Sock Circle κ) (e : ConnectorEvent × Surroundings) : Sock Circle κ :=
  match event t K e.2.rounds (callbacks t K e.2.scripts.length) e.1 (surrounded e.2 s) with
  | .ok _ s' => settled s'
  | .error _ s' => settled s'

def enabled (s : Sock Circle κ) : ConnectorEvent → Bool
  | .complete i _ _ => i < s.socket.pending.length
  | _ => true

def ConnectorStep (s : Sock Circle κ) (e : ConnectorEvent × Surroundings) (s' : Sock Circle κ) : Prop :=
  enabled s e.1 ∧ s' = afterEvent t K s e

variable {t K} in
theorem run_of_allEnabled {s : Sock Circle κ} {es : List (ConnectorEvent × Surroundings)}
    (h : Runs.allEnabled (fun s e => enabled s e.1) (afterEvent t K) s es) :
    Runs.Run (ConnectorStep t K) s es (es.foldl (afterEvent t K) s) :=
  .of_allEnabled (fun he => ⟨he, rfl⟩) h

end Connection

def connector {κ : Type} : Sock Circle κ := ⟨.disconnected, freshBuffer, freshBuffer, {}, []⟩

end SimpleNetwork
