import SimpleNetwork.Asio.Connector
import SimpleNetwork.Buffer.CircleStray

/-! A connector whose bytes carry the session they were received in or appended in.
The functions here make the calls of the connector, in the same order, and note beside
it what each call does to the marks. A session begins when `connect()` has closed what
was there before, and ends with the next `close()`. -/
namespace SimpleNetwork
open Words

/-- The session of a byte, counted by the sessions that ended before it. Bytes
that no one session accounts for have none. -/
abbrev Mark := Option Nat

structure Cell where
  byte : UInt8
  mark : Mark
  deriving DecidableEq, Repr

/-- The bytes that `on_recv` could look at or that the transport was handed, the cells
they were taken from, and the session in which that happened. -/
structure Look where
  session : Mark
  bytes : List UInt8
  cells : List Cell
  deriving DecidableEq, Repr

/-- The bytes are those of the cells, and in a session none is of another one. -/
def Look.Own (l : Look) : Prop :=
  l.bytes = l.cells.map Cell.byte ∧ (l.session.isSome → ∀ c ∈ l.cells, c.mark = l.session)

instance (l : Look) : Decidable l.Own := inferInstanceAs (Decidable (_ ∧ _))

namespace Provenance

/-- What is noted beside a connector: the live bytes of both rings, what the control
block has heard, and the sessions in which the outstanding operations were started.
`busy` says that code which goes on with the buffers waits for a callback. -/
structure Marks where
  recv : List Cell := []
  send : List Cell := []
  block : Mark := none
  started : List Mark := []
  ended : Nat := 0
  live : Bool := false
  busy : Bool := false
  parsed : List Look := []
  handed : List Look := []
  tainted : Bool := false
  deriving DecidableEq, Repr

structure Line (κ : Type) where
  conn : Sock Circle κ
  marks : Marks
  deriving DecidableEq, Repr

abbrev Act (κ : Type) := EStateM Fault (Line κ)

/-- The virtual functions an application overrides. -/
structure Callbacks (κ : Type) where
  onConnected : Act κ Unit
  onDisconnected : Act κ Unit
  onRecv : Nat → Reader → Act κ Unit

def marked (mark : Mark) (bytes : List UInt8) : List Cell := bytes.map fun b => ⟨b, mark⟩

def Marks.session (g : Marks) : Mark := if g.live then some g.ended else none

/-- A call of the connector, and what it does to the marks, given the state before it and its outcome. -/
def watch {κ α : Type} (x : EStateM Fault (Sock Circle κ) α)
    (f : Sock Circle κ → EStateM.Result Fault (Sock Circle κ) α → Marks → Marks) : Act κ α :=
  fun l => match x l.conn with
    | .ok a c => .ok a ⟨c, f l.conn (.ok a c) l.marks⟩
    | .error e c => .error e ⟨c, f l.conn (.error e c) l.marks⟩

/-- A call of the connector that moves no byte. -/
def real {κ α : Type} (x : EStateM Fault (Sock Circle κ) α) : Act κ α := watch x fun _ _ g => g

/-- A call that does something to the marks if it returns. -/
def following {κ α : Type} (x : EStateM Fault (Sock Circle κ) α)
    (f : Sock Circle κ → Marks → Marks) : Act κ α :=
  watch x fun _ r g => match r with
    | .ok _ c => f c g
    | .error _ _ => g

def noting {κ : Type} (f : Sock Circle κ → Marks → Marks) : Act κ Unit :=
  modify fun l => { l with marks := f l.conn l.marks }

/-- `remove(count)`. Past the end of the live bytes it uncovers cells of no session. -/
def dropped (count : UInt64) (ring : Circle) (cells : List Cell) : List Cell :=
  if count.toNat ≤ cells.length then cells.drop count.toNat else marked none ring.contents

def takenBack (ring : Circle) (cells : List Cell) : List Cell :=
  if ring.getCount.toNat ≤ cells.length then cells.take ring.getCount.toNat else marked none ring.contents

/-- An append to `send_buff_`. It must have at most a `size_t` of bytes, and be none of those
that leave the array or never return. -/
def appended {κ α : Type} (bytes : List UInt8) (s : Sock Circle κ)
    (r : EStateM.Result Fault (Sock Circle κ) α) (g : Marks) : Marks :=
  let tainted := g.tainted || decide (2 ^ 64 ≤ bytes.length) || decide (s.sendBuff.Strays bytes.length)
  match r with
  | .ok _ _ => { g with send := g.send ++ marked (some g.ended) bytes, tainted := tainted }
  | .error _ _ => { g with tainted := tainted }

def patched {κ α : Type} (bytes : List UInt8) (offset : Nat) (s : Sock Circle κ)
    (r : EStateM.Result Fault (Sock Circle κ) α)
    (g : Marks) : Marks :=
  let tainted := g.tainted || decide (s.sendBuff.StraysAt offset bytes.length)
  match r with
  | .ok _ _ =>
    { g with send := CellRing.overwrite g.send offset (marked (some g.ended) bytes), tainted := tainted }
  | .error _ _ => { g with tainted := tainted }

section Sockets
variable {κ : Type} (t : Transport) (K : Ikcp κ) (cb : Callbacks κ)

def hand (bytes : List UInt8) : Act κ Unit :=
  noting fun _ g => { g with handed := g.handed ++ [⟨g.session, bytes, g.send.take bytes.length⟩] }

def arrive (mark : Marks → Mark) (bytes : List UInt8) (count : UInt64) : Act κ Unit :=
  following (do
    Connection.recv (Circle.pokeEnd bytes)
    Connection.recv (Circle.written count)) fun _ g => { g with recv := g.recv ++ marked (mark g) bytes }

def start (operation : Operation) : Act κ Unit :=
  following (Connection.start operation) fun _ g => { g with started := g.started ++ [g.session] }

def resetRecv : Act κ Unit := following Connection.resetRecv fun _ g => { g with recv := [] }

def resetSend : Act κ Unit := following Connection.resetSend fun _ g => { g with send := [] }

def removeSend (count : UInt64) : Act κ Unit :=
  following (Connection.send (Circle.remove count)) fun c g =>
    { g with send := dropped count c.sendBuff g.send }

def whileBusy (x : Act κ Unit) : Act κ Unit := do
  let l ← get
  noting fun _ g => { g with busy := true }
  x
  noting fun _ g => { g with busy := l.marks.busy }

def endSession : Act κ Unit :=
  noting fun _ g => if g.live then { g with live := false, ended := g.ended + 1 } else g

def onClose : Act κ Unit := do
  let s ← real get
  if s.state = .connected then
    real (Connection.setState .disconnected)
    real (Connection.note .onDisconnected)
    cb.onDisconnected
  else pure ()

def close : Act κ Unit := do
  endSession
  match t with
  | .tcp =>
    real (Connection.socketDo fun a => { a with flags := 0 })
    resetRecv
    resetSend
    real Connection.closeSocket
    onClose cb
  | .udp =>
    real Connection.closeSocket
    onClose cb
  | .kcp =>
    real Connection.closeSocket
    onClose cb
    let s ← real get
    if s.socket.kcp.isSome then real Connection.release else pure ()

def disconnect : Act κ Unit := do
  let s ← real get
  if s.state = .disconnected then pure ()
  else
    real (Connection.setState .disconnected)
    close t cb
    real (Connection.note .onDisconnected)
    cb.onDisconnected

def doRead : Act κ Unit :=
  match t with
  | .tcp => start .waitRead
  | .udp => do
    let space ← real (Connection.recv Circle.getContinguiousSpace)
    let s ← real get
    start (.receive s.recvBuff.tail space)
  | .kcp => start (.receive 0 Connection.kcpBufferSize)

def doWriteTcp : Act κ Unit := do
  let s ← real get
  if ~~~s.socket.flags &&& sending ≠ 0 then
    if Buffer.getCount s.sendBuff > 0 then
      real (Connection.socketDo fun a => { a with flags := a.flags ||| sending })
      start .waitWrite
    else pure ()
  else pure ()

def doWriteUdp : Act κ Unit := do
  let s ← real get
  let count := s.sendBuff.getCount
  if count ≠ 0 then
    let bytes ← if count = s.sendBuff.getContinguiousCount then
        real (Connection.send (Circle.peekStart count))
      else real (Connection.stagedBytes count)
    hand bytes
    let ec ← real (Connection.sendDatagram bytes)
    if ec ≠ .success then whileBusy (close .udp cb) else pure ()
    resetSend
  else pure ()

def doWriteKcp : Nat → Act κ Unit
  | 0 => throw .diverged
  | fuel + 1 => do
    let s ← real get
    match s.socket.kcp with
    | none => pure ()
    | some block =>
      if s.sendBuff.getCount > 0 then
        let count := s.sendBuff.getContinguiousCount
        let bytes ← real (Connection.send (Circle.peekStart count))
        hand bytes
        real (Connection.socketDo fun a => { a with kcp := some (K.send block bytes).2 })
        removeSend count
        doWriteKcp fuel
      else pure ()

def doWrite : Act κ Unit :=
  match t with
  | .tcp => doWriteTcp
  | .udp => doWriteUdp cb
  | .kcp => do
    let s ← real get
    doWriteKcp K (s.sendBuff.getCount.toNat + 1)

def openSocket : Act κ Unit := do
  real (Connection.note .openSocket)
  real Connection.nonBlocking
  doRead t
  doWrite t K cb

def connected : Act κ Unit := do
  let s ← real get
  if s.state ≠ .connected then
    real (Connection.setState .connected)
    real (Connection.note .onConnected)
    cb.onConnected
    openSocket t K cb
  else pure ()

/-- What `connect()` must find after its `close()`. No code may wait to go on
with the buffers; and as only the close of tcp resets them, the other two need
an empty `recv_buff_` and a `send_buff_` without bytes of an earlier session. -/
def Marks.clean (g : Marks) : Bool :=
  !g.busy && (decide (t = .tcp) || (g.recv.isEmpty && g.send.all fun c => c.mark = some g.ended))

def beginSession : Act κ Unit := noting fun _ g => { g with live := true, tainted := g.tainted || !g.clean t }

def connect : Act κ Unit := do
  real Connection.beginSession
  close t cb
  beginSession t
  match t with
  | .tcp =>
    real (Connection.setState .connecting)
    real (Connection.socketDo fun a => { a with isOpen := true })
    start .connect
  | _ =>
    real Connection.openDatagram
    real Connection.nonBlocking
    real Connection.attempt
    real Connection.attempt
    real (Connection.setState .connecting)
    let answer ← real Connection.nextAnswer
    if answer.ec ≠ .success then disconnect t cb
    else
      let ec ← real (Connection.sendDatagram (le32 0))
      if ec = .success then connected t K cb else disconnect t cb

def destroy (w : Writer) : Act κ Unit :=
  following (Connection.send w.destroy) fun c g => { g with send := takenBack c.sendBuff g.send }

/-- Run code that holds a writer; an exception destroys the writer on its way out. -/
def holding {α : Type} (w : Writer) (x : Act κ α) : Act κ α :=
  tryCatch x fun e => do
    destroy w
    throw e

/-- A packet through `get_packet_writer()`, `operator<<` and `connection::send(writer&)`. -/
def sendPacket (payload : List UInt8) : Act κ Unit := do
  let w ← watch (Connection.send Writer.new) (appended (le32 placeholder))
  let w ← holding w (watch (Connection.send (w.put payload)) (appended payload))
  holding w do
    let _ ← watch (Connection.send (w.flush none)) (patched (le32 w.length) w.head.toNat)
    doWrite t K cb
  destroy w

def perform : List Call → Act κ Unit
  | [] => pure ()
  | call :: calls => do
    match call with
    | .connect => connect t K cb
    | .disconnect => disconnect t cb
    | .send payload => sendPacket t K cb payload
    perform calls

def applicationCode (fromRecv : Bool) (body : List Call → Act κ Unit) : Act κ Unit := do
  let s ← real get
  match s.socket.scripts with
  | [] => pure ()
  | script :: scripts =>
    real (Connection.socketDo fun a => { a with
      scripts := scripts
      running := none
      inRecv := a.inRecv || (fromRecv && a.running.isSome) })
    body script
    real (Connection.socketDo fun a => { a with running := s.socket.running, inRecv := s.socket.inRecv })

/-- Callbacks that follow the scripts. The number of scripts bounds how deep they nest. -/
def callbacks : Nat → Callbacks κ
  | 0 => ⟨pure (), pure (), fun _ _ => pure ()⟩
  | fuel + 1 =>
    let body := perform t K (callbacks fuel)
    ⟨applicationCode false body, applicationCode false body, fun _ _ => applicationCode true body⟩

/-- One round of the loop in `on_read`. What `on_recv` can look at is all of `recv_buff_`. -/
def onReadRound : Act κ Bool := do
  let s ← real get
  if Buffer.getCount s.recvBuff < 4 then pure false
  else
    let bytes ← real (Connection.recv (Buffer.read 4 0))
    let size : UInt32 := ((ofLe32 bytes).toUInt64 + 4).toUInt32
    let s ← real get
    if size.toUInt64 > Buffer.getCount s.recvBuff then pure false
    else
      let reader ← real (Connection.recv Reader.new)
      let s ← real get
      noting fun c g => { g with parsed := g.parsed ++ [⟨g.session, c.recvBuff.contents, g.recv⟩] }
      whileBusy (cb.onRecv s.deliveries.length reader)
      following (Connection.recv (Circle.remove size.toUInt64)) fun c g =>
        { g with recv := dropped size.toUInt64 c.recvBuff g.recv }
      real (modify fun u => { u with deliveries := u.deliveries ++ [⟨reader, s.recvBuff, u.recvBuff⟩] })
      let s ← real get
      pure (Buffer.getCount s.recvBuff ≠ 0)

/-- `on_read()`, bounded by a number of rounds. -/
def onRead : Nat → Act κ Unit
  | 0 => throw .diverged
  | fuel + 1 => do
    let more ← onReadRound cb
    if more then onRead fuel else pure ()

def receiveLoop (rounds : Nat) : Nat → Act κ Bool
  | 0 => throw .diverged
  | fuel + 1 => do
    let size ← real (Connection.recv Circle.getContinguiousSpace)
    if size.toUInt32 = 0 then pure true
    else
      let answer ← real Connection.nextAnswer
      let bytes := answer.data.take size.toUInt32.toNat
      if bytes ≠ [] then
        arrive Marks.session bytes (UInt64.ofNat bytes.length)
        real (Connection.note (.received bytes))
        onRead cb rounds
      match answer.ec with
      | .success => receiveLoop rounds fuel
      | .wouldBlock => pure true
      | _ =>
        close .tcp cb
        pure false

def handleWaitRead (rounds : Nat) (ec : ErrorCode) : Act κ Unit := do
  if ec ≠ .success then close .tcp cb
  else
    let s ← real get
    if ← receiveLoop cb rounds (s.socket.answers.length + 1) then doRead .tcp else pure ()

def sendOnce : Act κ ErrorCode := do
  let s ← real get
  let bytes ← real (Connection.send (SendBuffer.peekStart (SendBuffer.getContinguiousCount s.sendBuff)))
  let answer ← real Connection.nextAnswer
  let taken := bytes.take answer.count
  if taken ≠ [] then
    hand taken
    removeSend (UInt64.ofNat taken.length)
    real (Connection.note (.sent taken))
  else pure ()
  pure answer.ec

def sendLoop : Nat → Act κ Bool
  | 0 => throw .diverged
  | fuel + 1 => do
    match ← sendOnce with
    | .success =>
      let s ← real get
      if Buffer.getCount s.sendBuff > 0 then sendLoop fuel else pure true
    | .wouldBlock => pure true
    | _ =>
      close .tcp cb
      pure false

def handleWaitWrite (ec : ErrorCode) : Act κ Unit := do
  if ec ≠ .success then close .tcp cb
  else
    let s ← real get
    if ← sendLoop cb (s.socket.answers.length + 1) then
      real (Connection.socketDo fun a => { a with flags := a.flags &&& ~~~sending })
      doWriteTcp
    else pure ()

/-- A datagram is stored where its receive was told to store it. The marks follow if that
is at `get_end()`, with room behind it. -/
def placed (mark : Mark) (place : UInt64) (bytes : List UInt8) (ring : Circle) : Act κ Unit :=
  following (do
    let s ← get
    let stored ← s.recvBuff.data.store place bytes
    modify fun s => { s with recvBuff := { s.recvBuff with data := stored } }
    Connection.recv (Circle.written (UInt64.ofNat bytes.length))) fun c g =>
      if place = ring.tail ∧ bytes.length ≤
        (Circle.continguiousSpaceOf ring.head ring.tail ring.getSize).toNat then
        { g with recv := g.recv ++ marked mark bytes }
      else { g with recv := marked none c.recvBuff.contents, tainted := g.tainted || g.live }

def handleReceiveUdp (rounds : Nat) (mark : Mark) (place space : UInt64) (ec : ErrorCode)
    (data : List UInt8) : Act κ Unit := do
  if ec ≠ .success then close .udp cb
  else
    let bytes := data.take space.toNat
    let s ← real get
    placed mark place bytes s.recvBuff
    real (Connection.note (.received bytes))
    onRead cb rounds
    resetRecv
    doRead .udp

/-- The mark of a control block that has been given a datagram with the other mark. -/
def mix (m n : Mark) : Mark := if m = n then m else none

def handleReceiveKcp (mark : Mark) (ec : ErrorCode) (data : List UInt8) : Act κ Unit := do
  if ec ≠ .success then close .kcp cb
  else
    let bytes := data.take Connection.kcpBufferSize.toNat
    real (Connection.socketDo fun a => { a with front := (bytes ++ a.front.drop bytes.length).take 4 })
    real (Connection.note (.received bytes))
    let s ← real get
    let conv := ofLe32 s.socket.front
    if conv = 0 then pure ()
    else
      if s.socket.kcp.isNone then
        following (Connection.socketDo fun a => { a with kcp := some (K.create conv) }) fun _ g =>
          { g with block := mark }
        doWrite .kcp K cb
      else pure ()
      following (Connection.socketDo fun a =>
        { a with kcp := a.kcp.map fun block => K.input block bytes }) fun _ g =>
        { g with block := mix mark g.block }
      doRead .kcp

def output : List (List UInt8) → Act κ Unit
  | [] => pure ()
  | bytes :: rest => do
    let ec ← real (Connection.sendDatagram bytes)
    if ec ≠ .success then
      close .kcp cb
      throw .deadBlock
    else output rest

def update (rounds : Nat) (current : UInt32) : Act κ Unit := do
  let s ← real get
  match s.socket.kcp with
  | none => pure ()
  | some block =>
    let (datagrams, block) := K.update block current
    output cb datagrams
    real (Connection.socketDo fun a => { a with kcp := some block })
    let size ← real (Connection.recv Circle.getContinguiousSpace)
    let (count, bytes, block) := K.recv block size.toUInt32
    real (Connection.socketDo fun a => { a with kcp := some block })
    if count > 0 then
      arrive Marks.block bytes (ofInt count)
      onRead cb rounds
    else pure ()

def handle (rounds : Nat) (mark : Mark) (operation : Operation) (ec : ErrorCode)
    (data : List UInt8) : Act κ Unit :=
  match t, operation with
  | .tcp, .connect => if ec = .success then connected .tcp K cb else disconnect .tcp cb
  | .tcp, .waitRead => handleWaitRead cb rounds ec
  | .tcp, .waitWrite => handleWaitWrite cb ec
  | .udp, .receive place space => handleReceiveUdp cb rounds mark place space ec data
  | .kcp, .receive _ _ => handleReceiveKcp K cb mark ec data
  | _, _ => pure ()

/-- A datagram that is received in a session must come from a receive of that session. -/
def Marks.timely (g : Marks) (mark : Mark) (ec : ErrorCode) : Bool :=
  decide (t = .tcp) || decide (ec ≠ .success) || !g.live || decide (mark = g.session)

def event (rounds : Nat) : ConnectorEvent → Act κ Unit
  | .call call => perform t K cb [call]
  | .complete i ec data => do
    let l ← get
    match l.conn.socket.pending[i]? with
    | none => pure ()
    | some p =>
      let mark := (l.marks.started[i]?).join
      following (Connection.socketDo fun a =>
        { a with pending := a.pending.eraseIdx i, running := some p.session }) fun _ g =>
        { g with started := g.started.eraseIdx i, tainted := g.tainted || !g.timely t mark ec }
      handle t K cb rounds mark p.operation ec data
  | .tick current => if t = .kcp then update K cb rounds current else pure ()

def settled (l : Line κ) : Line κ := ⟨Connection.settled l.conn, { l.marks with busy := false }⟩

def next (l : Line κ) (e : ConnectorEvent × Surroundings) : Line κ :=
  match event t K (callbacks t K e.2.scripts.length) e.2.rounds e.1
    { l with conn := Connection.surrounded e.2 l.conn } with
  | .ok _ l' => settled l'
  | .error _ l' => settled l'

def history (events : List (ConnectorEvent × Surroundings)) : Line κ :=
  events.foldl (next t K) ⟨connector, {}⟩

end Sockets
end Provenance
end SimpleNetwork
