import SimpleNetwork.Reactor.Connection

/-! The sockets of the tcp, udp and kcp transports on asio. A socket call takes
its result from a tape of answers, an asynchronous call leaves a pending
operation behind, and the KCP library is a parameter. Sessions, attribution and
the trace are ghost state. -/
namespace SimpleNetwork
open Words

inductive Transport where
  | tcp
  | udp
  | kcp
  deriving DecidableEq, Repr

inductive ErrorCode where
  | success
  | wouldBlock
  | operationAborted
  | failure
  deriving DecidableEq, Repr

/-- The result of one socket call: what a receive got and how much a send took. -/
structure Answer where
  ec : ErrorCode
  data : List UInt8 := []
  count : Nat := 0
  deriving DecidableEq, Repr

/-- Asynchronous operations. A receive remembers where in its target it stores. -/
inductive Operation where
  | connect
  | waitRead
  | waitWrite
  | receive (start space : UInt64)
  deriving DecidableEq, Repr

/-- An outstanding operation, with the number of `connect()` calls made when it started. -/
structure Pending where
  operation : Operation
  session : Nat
  deriving DecidableEq, Repr

/-- What the trace records. A `connect()` call is recorded with the number of
outstanding operations and whether it comes from inside the `on_recv` of a
completion handler. -/
inductive Action where
  | closeSocket
  | setState (state : ConnectionState)
  | resetRecv
  | resetSend
  | release
  | openSocket
  | onConnected
  | onDisconnected
  | received (bytes : List UInt8)
  | sent (bytes : List UInt8)
  | connect (outstanding : Nat) (inRecv : Bool)
  deriving DecidableEq, Repr

/-- A recorded action, the session it falls in, and the session of the
operation whose handler did it, if a handler did. -/
structure Entry where
  session : Nat
  cause : Option Nat
  action : Action
  deriving DecidableEq, Repr

/-- The functions of the KCP library on control blocks. `update` gives the
datagrams it passes to the output callback, `recv` the returned count and the
bytes it copied. -/
structure Ikcp (κ : Type) where
  create : UInt32 → κ
  input : κ → List UInt8 → κ
  send : κ → List UInt8 → Int × κ
  update : κ → UInt32 → List (List UInt8) × κ
  recv : κ → UInt32 → Int × List UInt8 × κ

inductive Call where
  | connect
  | disconnect
  | send (payload : List UInt8)
  deriving DecidableEq, Repr

/-- The members of the socket classes, the environment (answers of coming
socket calls and the calls that coming callbacks make), and ghost state. -/
structure Asio (κ : Type) where
  flags : UInt8 := 0
  isOpen : Bool := false
  kcp : Option κ := none
  front : List UInt8 := [0, 0, 0, 0]
  pending : List Pending := []
  answers : List Answer := []
  scripts : List (List Call) := []
  session : Nat := 0
  running : Option Nat := none
  inRecv : Bool := false
  trace : List Entry := []
  deriving DecidableEq, Repr

/-- `SENDING`, the bit of `tcp::socket::state_` that guards the write wait. -/
def sending : UInt8 := 1

abbrev Sock (β κ : Type) := Connection β (Asio κ)

/-- The virtual functions an application overrides. -/
structure Callbacks (β κ : Type) where
  onConnected : EStateM Fault (Sock β κ) Unit
  onDisconnected : EStateM Fault (Sock β κ) Unit
  onRecv : OnRecv β (Asio κ)

namespace Connection
section Common
variable {β κ : Type}

def socketDo (f : Asio κ → Asio κ) : EStateM Fault (Sock β κ) Unit :=
  modify fun s => { s with socket := f s.socket }

def note (action : Action) : EStateM Fault (Sock β κ) Unit :=
  socketDo fun a => { a with trace := a.trace ++ [⟨a.session, a.running, action⟩] }

/-- The result of the next socket call; a call beyond the tape would block. -/
def nextAnswer : EStateM Fault (Sock β κ) Answer := do
  let s ← get
  match s.socket.answers with
  | [] => pure ⟨.wouldBlock, [], 0⟩
  | answer :: answers =>
    socketDo fun a => { a with answers := answers }
    pure answer

theorem nextAnswer_run (s : Sock β κ) :
    ∃ t, nextAnswer s = .ok (s.socket.answers.headD ⟨.wouldBlock, [], 0⟩) t ∧ t.recvBuff = s.recvBuff ∧
      t.sendBuff = s.sendBuff ∧ t.deliveries = s.deliveries ∧
      t.socket = { s.socket with answers := s.socket.answers.tail } := by
  unfold nextAnswer
  rw [Outcome.get_bind]
  cases ha : s.socket.answers with
  | nil => exact ⟨s, rfl, rfl, rfl, rfl, by rw [List.tail_nil, ← ha]⟩
  | cons a rest => exact ⟨_, rfl, rfl, rfl, rfl, rfl⟩

def start (operation : Operation) : EStateM Fault (Sock β κ) Unit :=
  socketDo fun a => { a with pending := a.pending ++ [⟨operation, a.session⟩] }

def setState (state : ConnectionState) : EStateM Fault (Sock β κ) Unit := do
  modify fun s => { s with state := state }
  note (.setState state)

def closeSocket : EStateM Fault (Sock β κ) Unit := do
  socketDo fun a => { a with isOpen := false }
  note .closeSocket

def nonBlocking : EStateM Fault (Sock β κ) Unit := do
  let s ← get
  if s.socket.isOpen then pure () else throw .systemError

def release : EStateM Fault (Sock β κ) Unit := do
  socketDo fun a => { a with kcp := none }
  note .release

variable [Buffer β] (t : Transport) (cb : Callbacks β κ)

def resetRecv : EStateM Fault (Sock β κ) Unit := do
  modify fun s => { s with recvBuff := Buffer.reset s.recvBuff }
  note .resetRecv

def resetSend : EStateM Fault (Sock β κ) Unit := do
  modify fun s => { s with sendBuff := Buffer.reset s.sendBuff }
  note .resetSend

def onClose : EStateM Fault (Sock β κ) Unit := do
  let s ← get
  if s.state = .connected then
    setState .disconnected
    note .onDisconnected
    cb.onDisconnected
  else pure ()

def close : EStateM Fault (Sock β κ) Unit :=
  match t with
  | .tcp => do
    socketDo fun a => { a with flags := 0 }
    resetRecv
    resetSend
    closeSocket
    onClose cb
  | .udp => do
    closeSocket
    onClose cb
  | .kcp => do
    closeSocket
    onClose cb
    let s ← get
    if s.socket.kcp.isSome then release else pure ()

def disconnect : EStateM Fault (Sock β κ) Unit := do
  let s ← get
  if s.state = .disconnected then pure ()
  else
    setState .disconnected
    close t cb
    note .onDisconnected
    cb.onDisconnected

end Common

section Tcp
variable {β κ : Type} [SendBuffer β] (cb : Callbacks β κ)

def doWriteTcp : EStateM Fault (Sock β κ) Unit := do
  let s ← get
  if ~~~s.socket.flags &&& sending ≠ 0 then
    if Buffer.getCount s.sendBuff > 0 then
      socketDo fun a => { a with flags := a.flags ||| sending }
      start .waitWrite
    else pure ()
  else pure ()

def openTcp : EStateM Fault (Sock β κ) Unit := do
  note .openSocket
  nonBlocking
  start .waitRead
  doWriteTcp

/-- One `socket_.send` of the run at `get_start()`, and the removal of what it took. -/
def sendOnce : EStateM Fault (Sock β κ) ErrorCode := do
  let s ← get
  let bytes ← send (SendBuffer.peekStart (SendBuffer.getContinguiousCount s.sendBuff))
  let answer ← nextAnswer
  let taken := bytes.take answer.count
  if taken ≠ [] then
    send (Buffer.remove (UInt64.ofNat taken.length))
    note (.sent taken)
  else pure ()
  pure answer.ec

/-- The send loop of the write handler; the result says whether the handler
goes on. Each round uses one answer, so the tape bounds the rounds. -/
def sendLoop : Nat → EStateM Fault (Sock β κ) Bool
  | 0 => throw .diverged
  | fuel + 1 => do
    match ← sendOnce with
    | .success =>
      let s ← get
      if Buffer.getCount s.sendBuff > 0 then sendLoop fuel else pure true
    | .wouldBlock => pure true
    | _ =>
      close .tcp cb
      pure false

def handleWaitWrite (ec : ErrorCode) : EStateM Fault (Sock β κ) Unit := do
  if ec ≠ .success then close .tcp cb
  else
    let s ← get
    if ← sendLoop cb (s.socket.answers.length + 1) then
      socketDo fun a => { a with flags := a.flags &&& ~~~sending }
      doWriteTcp
    else pure ()

end Tcp

section Sockets
variable {κ : Type} (t : Transport) (K : Ikcp κ) (cb : Callbacks Circle κ)

/-- `sizeof(buffer_)` of a kcp socket: an array of 65535 pointers. -/
def kcpBufferSize : UInt64 := 8 * 65535

def doRead : EStateM Fault (Sock Circle κ) Unit :=
  match t with
  | .tcp => start .waitRead
  | .udp => do
    let space ← recv Circle.getContinguiousSpace
    let s ← get
    start (.receive s.recvBuff.tail space)
  | .kcp => start (.receive 0 kcpBufferSize)

def sendDatagram (bytes : List UInt8) : EStateM Fault (Sock Circle κ) ErrorCode := do
  let answer ← nextAnswer
  if answer.ec = .success then note (.sent bytes) else pure ()
  pure answer.ec

/-- The staging array of `udp::socket::do_write()`: both pieces of the ring. -/
def stagedBytes (count : UInt64) : EStateM Fault (Sock Circle κ) (List UInt8) := do
  let s ← get
  let first ← send (Circle.peekStart s.sendBuff.getContinguiousCount)
  let staged ← (Data.new 65536 65536).store 0 first
  send (Circle.remove s.sendBuff.getContinguiousCount)
  let s ← get
  let second ← send (Circle.peekStart s.sendBuff.getContinguiousCount)
  let staged ← staged.store (count - s.sendBuff.getContinguiousCount) second
  staged.load 0 count

def doWriteUdp : EStateM Fault (Sock Circle κ) Unit := do
  let s ← get
  let count := s.sendBuff.getCount
  if count ≠ 0 then
    let bytes ← if count = s.sendBuff.getContinguiousCount then
        send (Circle.peekStart count)
      else stagedBytes count
    let ec ← sendDatagram bytes
    if ec ≠ .success then close .udp cb else pure ()
    resetSend
  else pure ()

/-- `kcp::socket::do_write()`, bounded by a number of recursive calls. -/
def doWriteKcp : Nat → EStateM Fault (Sock Circle κ) Unit
  | 0 => throw .diverged
  | fuel + 1 => do
    let s ← get
    match s.socket.kcp with
    | none => pure ()
    | some block =>
      if s.sendBuff.getCount > 0 then
        let count := s.sendBuff.getContinguiousCount
        let bytes ← send (Circle.peekStart count)
        socketDo fun a => { a with kcp := some (K.send block bytes).2 }
        send (Circle.remove count)
        doWriteKcp fuel
      else pure ()

def doWrite : EStateM Fault (Sock Circle κ) Unit :=
  match t with
  | .tcp => doWriteTcp
  | .udp => doWriteUdp cb
  | .kcp => do
    let s ← get
    doWriteKcp K (s.sendBuff.getCount.toNat + 1)

def openSocket : EStateM Fault (Sock Circle κ) Unit :=
  match t with
  | .tcp => openTcp
  | _ => do
    note .openSocket
    nonBlocking
    doRead t
    doWrite t K cb

def connected : EStateM Fault (Sock Circle κ) Unit := do
  let s ← get
  if s.state ≠ .connected then
    setState .connected
    note .onConnected
    cb.onConnected
    openSocket t K cb
  else pure ()

/-- The receive loop of the tcp read handler; the result says whether the
handler waits again. Each round uses an answer, so the tape bounds the rounds. -/
def receiveLoop (rounds : Nat) : Nat → EStateM Fault (Sock Circle κ) Bool
  | 0 => throw .diverged
  | fuel + 1 => do
    let size ← recv Circle.getContinguiousSpace
    if size.toUInt32 = 0 then pure true
    else
      let answer ← nextAnswer
      let bytes := answer.data.take size.toUInt32.toNat
      if bytes ≠ [] then
        recv (Circle.pokeEnd bytes)
        recv (Circle.written (UInt64.ofNat bytes.length))
        note (.received bytes)
        onRead cb.onRecv rounds
      match answer.ec with
      | .success => receiveLoop rounds fuel
      | .wouldBlock => pure true
      | _ =>
        close .tcp cb
        pure false

def handleWaitRead (rounds : Nat) (ec : ErrorCode) : EStateM Fault (Sock Circle κ) Unit := do
  if ec ≠ .success then close .tcp cb
  else
    let s ← get
    if ← receiveLoop cb rounds (s.socket.answers.length + 1) then doRead .tcp else pure ()

/-- The receive handler of a udp socket. The bytes are in the ring, where the
receive was told to store them, before the handler runs. -/
def handleReceiveUdp (rounds : Nat) (place space : UInt64) (ec : ErrorCode) (data : List UInt8) :
    EStateM Fault (Sock Circle κ) Unit := do
  if ec ≠ .success then close .udp cb
  else
    let bytes := data.take space.toNat
    let s ← get
    let stored ← s.recvBuff.data.store place bytes
    modify fun s => { s with recvBuff := { s.recvBuff with data := stored } }
    recv (Circle.written (UInt64.ofNat bytes.length))
    note (.received bytes)
    onRead cb.onRecv rounds
    resetRecv
    doRead .udp

/-- The receive handler of a kcp socket. Of `buffer_` only the first word is
looked at; a short datagram leaves old bytes in it. -/
def handleReceiveKcp (ec : ErrorCode) (data : List UInt8) : EStateM Fault (Sock Circle κ) Unit := do
  if ec ≠ .success then close .kcp cb
  else
    let bytes := data.take kcpBufferSize.toNat
    socketDo fun a => { a with front := (bytes ++ a.front.drop bytes.length).take 4 }
    note (.received bytes)
    let s ← get
    let conv := ofLe32 s.socket.front
    if conv = 0 then pure ()
    else
      if s.socket.kcp.isNone then
        socketDo fun a => { a with kcp := some (K.create conv) }
        doWrite .kcp K cb
      else pure ()
      socketDo fun a => { a with kcp := a.kcp.map fun block => K.input block bytes }
      doRead .kcp

/-- The output callback on the datagrams of one `ikcp_update`. A close releases
the control block that the update is still working on. -/
def output : List (List UInt8) → EStateM Fault (Sock Circle κ) Unit
  | [] => pure ()
  | bytes :: rest => do
    let ec ← sendDatagram bytes
    if ec ≠ .success then
      close .kcp cb
      throw .deadBlock
    else output rest

def update (rounds : Nat) (current : UInt32) : EStateM Fault (Sock Circle κ) Unit := do
  let s ← get
  match s.socket.kcp with
  | none => pure ()
  | some block =>
    let (datagrams, block) := K.update block current
    output cb datagrams
    socketDo fun a => { a with kcp := some block }
    let size ← recv Circle.getContinguiousSpace
    let (count, bytes, block) := K.recv block size.toUInt32
    socketDo fun a => { a with kcp := some block }
    if count > 0 then
      recv (Circle.pokeEnd bytes)
      recv (Circle.written (ofInt count))
      onRead cb.onRecv rounds
    else pure ()

end Sockets
end Connection
end SimpleNetwork
