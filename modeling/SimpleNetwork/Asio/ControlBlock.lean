import SimpleNetwork.Asio.Socket
import SimpleNetwork.Base.Runs
import SimpleNetwork.Base.Triple

/-! The control block of a kcp socket as an object: created, passed to the
library by pointer, released. `ikcp_update` works on its block until it returns
and calls `output` in between. Every library call is recorded with what its
pointer pointed to. -/
namespace SimpleNetwork
open Words Outcome Runs

inductive KcpCall where
  | update
  | recv
  | send
  | input
  | release
  deriving DecidableEq, Repr

/-- A library call, or a further use of its block by a running `ikcp_update`:
the pointer, whether it points to a block that is not released, and whether an
`ikcp_update` on that block is running. -/
structure KcpUse where
  call : KcpCall
  block : Option Nat
  live : Bool
  updating : Bool
  deriving DecidableEq, Repr

def KcpUse.Safe (u : KcpUse) : Prop := u.live ∧ (u.call = .release → ¬ u.updating)

instance (u : KcpUse) : Decidable u.Safe := inferInstanceAs (Decidable (_ ∧ _))

/-- The members of `kcp::socket`, with control blocks numbered as they are
created, the results of coming socket calls, and the calls that coming callbacks
make. The results of sends in `output` and the library calls are ghost state. -/
structure KcpSocket where
  kcp : Option Nat := none
  created : Nat := 0
  live : List Nat := []
  updating : Option Nat := none
  isOpen : Bool := false
  front : List UInt8 := [0, 0, 0, 0]
  receiving : Nat := 0
  answers : List ErrorCode := []
  scripts : List (List Call) := []
  outputs : List ErrorCode := []
  uses : List KcpUse := []
  deriving DecidableEq, Repr

namespace ControlBlock

abbrev Sock := Connection Circle KcpSocket

abbrev Act := EStateM Fault Sock

/-- The virtual functions an application overrides. -/
structure Callbacks where
  onConnected : Act Unit
  onDisconnected : Act Unit
  onRecv : OnRecv Circle KcpSocket

def socketDo (f : KcpSocket → KcpSocket) : Act Unit := modify fun s => { s with socket := f s.socket }

def setState (state : ConnectionState) : Act Unit := modify fun s => { s with state := state }

def nextAnswer : Act ErrorCode := do
  let s ← get
  match s.socket.answers with
  | [] => pure .wouldBlock
  | ec :: answers =>
    socketDo fun a => { a with answers := answers }
    pure ec

/-- The library looks into a block. What a dead one does is beyond the model. -/
def use (call : KcpCall) (block : Option Nat) : Act Unit := do
  let s ← get
  let live := block.any fun b => decide (b ∈ s.socket.live)
  socketDo fun a => { a with uses := a.uses ++ [⟨call, block, live, block.isSome && a.updating = block⟩] }
  if live then pure () else throw .deadBlock

def useKcp (call : KcpCall) : Act Unit := do
  let s ← get
  use call s.socket.kcp

variable (cb : Callbacks)

def onClose : Act Unit := do
  let s ← get
  if s.state = .connected then
    setState .disconnected
    cb.onDisconnected
  else pure ()

def close : Act Unit := do
  socketDo fun a => { a with isOpen := false }
  onClose cb
  let s ← get
  match s.socket.kcp with
  | none => pure ()
  | some block =>
    useKcp .release
    socketDo fun a => { a with live := a.live.erase block, kcp := none }

def disconnect : Act Unit := do
  let s ← get
  if s.state = .disconnected then pure ()
  else
    setState .disconnected
    close cb
    cb.onDisconnected

def doRead : Act Unit := socketDo fun a => { a with receiving := a.receiving + 1 }

/-- `kcp::socket::do_write()`, bounded by a number of recursive calls. -/
def doWriteFuel : Nat → Act Unit
  | 0 => throw .diverged
  | fuel + 1 => do
    let s ← get
    if s.socket.kcp.isSome && decide (s.sendBuff.getCount > 0) then
      let count := s.sendBuff.getContinguiousCount
      let _ ← Connection.send (Circle.peekStart count)
      useKcp .send
      Connection.send (Circle.remove count)
      doWriteFuel fuel
    else pure ()

def doWrite : Act Unit := do
  let s ← get
  doWriteFuel (s.sendBuff.getCount.toNat + 1)

def nonBlocking : Act Unit := do
  let s ← get
  if s.socket.isOpen then pure () else throw .systemError

def openSocket : Act Unit := do
  nonBlocking
  doRead
  doWrite

def connected : Act Unit := do
  let s ← get
  if s.state ≠ .connected then
    setState .connected
    cb.onConnected
    openSocket
  else pure ()

def attempt : Act Unit := do
  let ec ← nextAnswer
  if ec = .success then pure () else throw .systemError

def connect : Act Unit := do
  close cb
  let s ← get
  if s.socket.isOpen then throw .systemError else pure ()
  attempt
  socketDo fun a => { a with isOpen := true }
  nonBlocking
  attempt
  attempt
  setState .connecting
  let ec ← nextAnswer
  if ec ≠ .success then disconnect cb
  else
    let ec ← nextAnswer
    if ec = .success then connected cb else disconnect cb

/-- Run code that holds a writer; an exception destroys the writer on its way out. -/
def holding {α : Type} (w : Writer) (x : Act α) : Act α :=
  tryCatch x fun e => do
    Connection.send w.destroy
    throw e

/-- A packet through `get_packet_writer()`, `operator<<` and `connection::send(writer&)`. -/
def sendPacket (payload : List UInt8) : Act Unit := do
  let w ← Connection.send Writer.new
  let w ← holding w (Connection.send (w.put payload))
  holding w do
    let _ ← Connection.send (w.flush none)
    doWrite
  Connection.send w.destroy

def perform : List Call → Act Unit
  | [] => pure ()
  | call :: calls => do
    match call with
    | .connect => connect cb
    | .disconnect => disconnect cb
    | .send payload => sendPacket payload
    perform calls

def applicationCode (body : List Call → Act Unit) : Act Unit := do
  let s ← get
  match s.socket.scripts with
  | [] => pure ()
  | script :: scripts =>
    socketDo fun a => { a with scripts := scripts }
    body script

/-- Callbacks that follow the scripts. The number of scripts bounds how deep they nest. -/
def callbacks : Nat → Callbacks
  | 0 => ⟨pure (), pure (), silent⟩
  | fuel + 1 =>
    let body := perform (callbacks fuel)
    ⟨applicationCode body, applicationCode body, fun _ _ => applicationCode body⟩

def output : Act Unit := do
  let ec ← nextAnswer
  socketDo fun a => { a with outputs := a.outputs ++ [ec] }
  if ec ≠ .success then close cb else pure ()

/-- The body of `ikcp_update`: it calls `output` any number of times and goes on
with its block after each call. -/
def ikcpUpdate (block : Nat) : Nat → Act Unit
  | 0 => pure ()
  | outputs + 1 => do
    output cb
    use .update (some block)
    ikcpUpdate block outputs

/-- `kcp::socket::update()`, with the number of outputs that `ikcp_update` makes
and the count and bytes that `ikcp_recv` gives. -/
def update (rounds outputs : Nat) (count : Int) (bytes : List UInt8) : Act Unit := do
  let s ← get
  match s.socket.kcp with
  | none => pure ()
  | some block =>
    useKcp .update
    socketDo fun a => { a with updating := some block }
    ikcpUpdate cb block outputs
    socketDo fun a => { a with updating := none }
    let _ ← Connection.recv Circle.getContinguiousSpace
    useKcp .recv
    if count > 0 then
      Connection.recv (Circle.pokeEnd bytes)
      Connection.recv (Circle.written (ofInt count))
      Connection.onRead cb.onRecv rounds
    else pure ()

def handleReceive (ec : ErrorCode) (bytes : List UInt8) : Act Unit := do
  if ec ≠ .success then close cb
  else
    socketDo fun a => { a with front := (bytes ++ a.front.drop bytes.length).take 4 }
    let s ← get
    if ofLe32 s.socket.front = 0 then pure ()
    else
      if s.socket.kcp.isNone then
        socketDo fun a =>
          { a with kcp := some a.created, live := a.created :: a.live, created := a.created + 1 }
        doWrite
      else pure ()
      useKcp .input
      doRead

/-- What the event loop and the application outside callbacks do with the socket. -/
inductive Event where
  | call (call : Call)
  | complete (ec : ErrorCode) (bytes : List UInt8)
  | tick (outputs : Nat) (count : Int) (bytes : List UInt8)
  deriving DecidableEq, Repr

/-- The environment of one event: the results of its socket calls, what its
callbacks call, and a bound on the packets of one `on_read`. -/
structure Around where
  answers : List ErrorCode := []
  scripts : List (List Call) := []
  rounds : Nat := 0
  deriving DecidableEq, Repr

def event (rounds : Nat) : Event → Act Unit
  | .call call => perform cb [call]
  | .complete ec bytes => do
    socketDo fun a => { a with receiving := a.receiving - 1 }
    handleReceive cb ec bytes
  | .tick outputs count bytes => update cb rounds outputs count bytes

def surrounded (e : Around) (s : Sock) : Sock :=
  { s with socket := { s.socket with answers := e.answers, scripts := e.scripts } }

/-- The state that a call leaves, also when an exception leaves it. Between
events no `ikcp_update` runs. -/
def ended : EStateM.Result Fault Sock Unit → Sock
  | .ok _ s => { s with socket := { s.socket with updating := none } }
  | .error _ s => { s with socket := { s.socket with updating := none } }

def next (s : Sock) (e : Event × Around) : Sock :=
  ended (event (callbacks e.2.scripts.length) e.2.rounds e.1 (surrounded e.2 s))

def enabled (s : Sock) : Event → Bool
  | .complete _ _ => 0 < s.socket.receiving
  | _ => true

def Step (s : Sock) (e : Event × Around) (s' : Sock) : Prop := enabled s e.1 ∧ s' = next s e

def connector : Sock := ⟨.disconnected, freshBuffer, freshBuffer, {}, []⟩

def accepted : Sock :=
  ⟨.disconnected, freshBuffer, freshBuffer, { kcp := some 0, created := 1, live := [0], isOpen := true }, []⟩

/-- A connector, or an accepted connection after its `connected()`. -/
inductive Start : Sock → Prop
  | connector : Start connector
  | accepted (e : Around) : Start (ended (connected (callbacks e.scripts.length) (surrounded e accepted)))

section Invariant

/-- A send in `output` has failed. -/
def Spoiled (a : KcpSocket) : Prop := ∃ ec ∈ a.outputs, ec ≠ ErrorCode.success

/-- `kcp_` is null or points to a live block, and every library call so far was safe. -/
structure Orderly (a : KcpSocket) : Prop where
  held : ∀ b, a.kcp = some b → b ∈ a.live
  safe : ∀ u ∈ a.uses, u.Safe

/-- What is known while `kcp_` has a given value and an `ikcp_update` runs or not. -/
def At (i : Bool) (kcp updating : Option Nat) (s : Sock) : Prop :=
  Spoiled s.socket ∨ (i = false ∧ Orderly s.socket ∧ s.socket.kcp = kcp ∧ s.socket.updating = updating)

/-- What is known outside of `ikcp_update`; with `true`, only that a send in `output` has failed. -/
def Fine (i : Bool) (s : Sock) : Prop :=
  Spoiled s.socket ∨ (i = false ∧ Orderly s.socket ∧ s.socket.updating = none)

variable {cb : Callbacks} {i : Bool} {kcp updating : Option Nat} {s : Sock}

private theorem At.fine (h : At i kcp none s) : Fine i s := h.imp_right fun h => ⟨h.1, h.2.1, h.2.2.2⟩

theorem Fine.at (h : Fine i s) : At i s.socket.kcp none s := h.imp_right fun h => ⟨h.1, h.2.1, rfl, h.2.2⟩

theorem Fine.exit (h : Fine i s) : Fine false s := h.imp_right fun h => ⟨rfl, h.2⟩

private theorem At.spoiled (h : At true kcp updating s) : Spoiled s.socket :=
  h.resolve_right fun h => nomatch h.1

def core (a : KcpSocket) : KcpSocket :=
  { a with created := 0, isOpen := false, front := [], receiving := 0, answers := [], scripts := [] }

theorem At.with_socket {a : KcpSocket} (h : At i kcp updating s) (ha : core a = core s.socket) :
    At i kcp updating { s with socket := a } := by
  have hkcp : (core a).kcp = (core s.socket).kcp := by rw [ha]
  have hlive : (core a).live = (core s.socket).live := by rw [ha]
  have hupdating : (core a).updating = (core s.socket).updating := by rw [ha]
  have houtputs : (core a).outputs = (core s.socket).outputs := by rw [ha]
  have huses : (core a).uses = (core s.socket).uses := by rw [ha]
  refine h.imp (fun hspoiled => ?_) fun ⟨hi, horderly, hk, hu⟩ => ⟨hi, ⟨fun b hb => ?_, ?_⟩, ?_, ?_⟩
  · obtain ⟨ec, hec, hne⟩ := hspoiled
    exact ⟨ec, houtputs ▸ hec, hne⟩
  · exact hlive ▸ horderly.held b (hkcp ▸ hb)
  · exact fun u hmem => horderly.safe u (huses ▸ hmem)
  · exact hkcp.trans hk
  · exact hupdating.trans hu

theorem Fine.with_socket {a : KcpSocket} (h : Fine i s) (ha : core a = core s.socket) :
    Fine i { s with socket := a } :=
  (h.at.with_socket ha).fine

private theorem at_socketDo {f : KcpSocket → KcpSocket} {E : Sock → Prop} (hf : ∀ a, core (f a) = core a) :
    Keeps (At i kcp updating) (socketDo f) E := Triple.modify fun s h => h.with_socket (hf s.socket)

private theorem fine_socketDo {f : KcpSocket → KcpSocket} {E : Sock → Prop} (hf : ∀ a, core (f a) = core a) :
    Keeps (Fine i) (socketDo f) E := Triple.modify fun s h => h.with_socket (hf s.socket)

private theorem spoiled_use (call : KcpCall) (block : Option Nat) :
    Keeps (fun s => Spoiled s.socket) (use call block) (fun s => Spoiled s.socket) := by
  refine Triple.look fun s _ => ?_
  refine Triple.bind (Q := fun _ s => Spoiled s.socket) (Triple.modify fun _ h => h) fun _ => ?_
  exact Triple.ite (fun _ => Triple.pure fun _ h => h) fun _ => Triple.throw fun _ h => h

/-- The library may look into the block of an orderly socket, and release it while no update runs. -/
theorem at_use {call : KcpCall} {b : Nat} (hcall : call = .release → updating = none) :
    Keeps (At i (some b) updating) (use call (some b)) (Fine false) := by
  have hspoiled : Triple (fun s => Spoiled s.socket) (use call (some b))
      (fun _ => At i (some b) updating) (Fine false) :=
    ⟨fun h hr => .inl ((spoiled_use call _).returns h hr),
      fun h hr => .inl ((spoiled_use call _).faults h hr)⟩
  refine hspoiled.either (Triple.get fun s hs => ?_)
  obtain ⟨hi, horderly, hk, hu⟩ := hs
  have hlive : decide (b ∈ s.socket.live) = true := decide_eq_true (horderly.held b hk)
  refine Triple.bind (Q := fun _ => At i (some b) updating) (Triple.modify ?_) fun _ => ?_
  · rintro t rfl
    refine .inr ⟨hi, ⟨horderly.held, fun u hmem => ?_⟩, hk, hu⟩
    rcases List.mem_append.mp hmem with hmem | hmem
    · exact horderly.safe u hmem
    · rw [List.mem_singleton.mp hmem]
      refine ⟨hlive, fun hrelease => ?_⟩
      simp [hu, hcall hrelease]
  · exact Triple.ite (fun _ => Triple.pure fun _ h => h) fun hdead => absurd hlive hdead

private theorem at_zoom_send {α : Type} {x : EStateM Fault Circle α} :
    Keeps (At i kcp none) (Connection.send x) (Fine false) :=
  Triple.zoom (fun _ _ h => h) fun _ h => h.fine.exit

private theorem at_zoom_recv {α : Type} {x : EStateM Fault Circle α} :
    Keeps (At i kcp none) (Connection.recv x) (Fine false) :=
  Triple.zoom (fun _ _ h => h) fun _ h => h.fine.exit

/-- A computation that keeps everything known for each value of `kcp_`. -/
theorem fine_of_at {α : Type} {x : Act α} (hx : ∀ kcp, Keeps (At i kcp none) x (Fine false)) : Keeps
    (Fine i) x (Fine false) where
  returns hs hr := ((hx _).returns hs.at hr).fine
  faults hs hr := (hx _).faults hs.at hr

private theorem at_useKcp {call : KcpCall} {b : Nat} (hcall : call = .release → updating = none) :
    Keeps (At i (some b) updating) (useKcp call) (Fine false) := by
  refine Triple.get fun s hs => ?_
  rcases hs with hspoiled | ⟨hi, horderly, hk, hu⟩
  · refine ⟨fun h hr => .inl ((spoiled_use call _).returns (h ▸ hspoiled) hr), fun h hr => ?_⟩
    exact .inl ((spoiled_use call _).faults (h ▸ hspoiled) hr)
  · rw [hk]
    refine (at_use hcall).before fun t ht => ?_
    rw [ht]
    exact .inr ⟨hi, horderly, hk, hu⟩

theorem At.weaken {kcp' updating' : Option Nat} (h : At true kcp updating s) :
    At i kcp' updating' s := .inl h.spoiled

private theorem at_doWriteFuel (fuel : Nat) : Keeps (At i kcp none) (doWriteFuel fuel) (Fine false) := by
  induction fuel generalizing i kcp with
  | zero => exact Triple.throw fun _ h => h.fine.exit
  | succ fuel ih =>
    unfold doWriteFuel
    refine Triple.get fun s hs => Triple.ite (fun hsome => ?_) fun _ => Triple.pure fun _ h => h ▸ hs
    have hbody (j : Bool) (b : Nat) : Keeps (At j (some b) none) (do
        let _ ← Connection.send (Circle.peekStart s.sendBuff.getContinguiousCount)
        useKcp .send
        Connection.send (Circle.remove s.sendBuff.getContinguiousCount)
        doWriteFuel fuel : Act Unit) (Fine false) := by
      refine Triple.bind at_zoom_send fun bytes => ?_
      refine Triple.bind (at_useKcp fun h => nomatch h) fun _ => ?_
      exact Triple.bind at_zoom_send fun _ => ih
    rcases hs with hspoiled | ⟨hi, horderly, hk, hu⟩
    · refine ((hbody true 0).before fun t ht => ?_).after fun _ _ h => h.weaken
      rw [ht]
      exact .inl hspoiled
    · obtain ⟨b, hb⟩ := Option.isSome_iff_exists.mp (Bool.and_eq_true_iff.mp hsome).1
      rw [← hk, hb]
      refine (hbody i b).before fun t ht => ?_
      rw [ht]
      exact .inr ⟨hi, horderly, hb, hu⟩

private theorem at_doWrite : Keeps (At i kcp none) doWrite (Fine false) :=
  Triple.look fun _ _ => at_doWriteFuel _

private theorem fine_doWrite : Keeps (Fine i) doWrite (Fine false) := fine_of_at fun _ => at_doWrite

private theorem fine_setState (state : ConnectionState) : Keeps (Fine i) (setState state) (Fine false) :=
  Triple.modify fun _ h => h

private theorem at_nextAnswer {E : Sock → Prop} : Keeps (At i kcp updating) nextAnswer E := by
  refine Triple.look fun s _ => ?_
  split
  · exact Triple.pure fun _ h => h
  · exact Triple.bind (at_socketDo fun _ => rfl) fun _ => Triple.pure fun _ h => h

private theorem fine_nextAnswer : Keeps (Fine i) nextAnswer (Fine false) := fine_of_at fun _ => at_nextAnswer

private theorem fine_nonBlocking : Keeps (Fine i) nonBlocking (Fine false) := by
  refine Triple.look fun s _ => Triple.ite (fun _ => Triple.pure fun _ h => h) fun _ => ?_
  exact Triple.throw fun _ h => h.exit

private theorem fine_attempt : Keeps (Fine i) attempt (Fine false) := by
  refine Triple.bind fine_nextAnswer fun ec => Triple.ite (fun _ => Triple.pure fun _ h => h) fun _ => ?_
  exact Triple.throw fun _ h => h.exit

private theorem fine_send {α : Type} {x : EStateM Fault Circle α} :
    Keeps (Fine i) (Connection.send x) (Fine false) :=
  Triple.zoom (fun _ _ h => h) fun _ h => h.exit

private theorem fine_recv {α : Type} {x : EStateM Fault Circle α} :
    Keeps (Fine i) (Connection.recv x) (Fine false) :=
  Triple.zoom (fun _ _ h => h) fun _ h => h.exit

def Obedient (cb : Callbacks) : Prop :=
  ∀ i, Keeps (Fine i) cb.onConnected (Fine false) ∧ Keeps (Fine i) cb.onDisconnected (Fine false)

section Calls
variable (hcb : Obedient cb)
include hcb

/-- Outside of `ikcp_update`, `close()` releases a block that nobody works on. -/
theorem fine_close : Keeps (Fine i) (close cb) (Fine false) := by
  refine Triple.bind (fine_socketDo fun _ => rfl) fun _ => ?_
  refine Triple.bind (Q := fun _ => Fine i) ?_ fun _ => ?_
  · refine Triple.look fun s _ => Triple.ite (fun _ => ?_) fun _ => Triple.pure fun _ h => h
    exact Triple.bind (fine_setState _) fun _ => (hcb i).2
  refine Triple.get fun s hs => ?_
  split
  · exact Triple.pure fun _ h => h ▸ hs
  · rename_i block hk
    have hat : At i (some block) none s := hk ▸ hs.at
    refine Triple.bind ((at_useKcp fun _ => rfl).before fun _ h => h ▸ hat) fun _ => ?_
    refine Triple.modify fun t h => h.imp_right fun ⟨hi, horderly, _, hu⟩ =>
      ⟨hi, ⟨(fun b hb => nomatch hb), horderly.safe⟩, hu⟩

private theorem fine_disconnect : Keeps (Fine i) (disconnect cb) (Fine false) := by
  refine Triple.look fun s _ => Triple.ite (fun _ => Triple.pure fun _ h => h) fun _ => ?_
  refine Triple.bind (fine_setState _) fun _ => ?_
  exact Triple.bind (fine_close hcb) fun _ => (hcb i).2

private theorem fine_connected : Keeps (Fine i) (connected cb) (Fine false) := by
  refine Triple.look fun s _ => Triple.ite (fun _ => ?_) fun _ => Triple.pure fun _ h => h
  refine Triple.bind (fine_setState _) fun _ => ?_
  refine Triple.bind (hcb i).1 fun _ => ?_
  refine Triple.bind fine_nonBlocking fun _ => ?_
  exact Triple.bind (fine_socketDo fun _ => rfl) fun _ => fine_doWrite

private theorem fine_connect : Keeps (Fine i) (connect cb) (Fine false) := by
  refine Triple.bind (fine_close hcb) fun _ => ?_
  have hrest : Keeps (Fine i) (do
      attempt
      socketDo fun a => { a with isOpen := true }
      nonBlocking
      attempt
      attempt
      setState .connecting
      let ec ← nextAnswer
      if ec ≠ .success then disconnect cb
      else
        let ec ← nextAnswer
        if ec = .success then connected cb else disconnect cb : Act Unit) (Fine false) := by
    refine Triple.bind fine_attempt fun _ => ?_
    refine Triple.bind (fine_socketDo fun _ => rfl) fun _ => ?_
    refine Triple.bind fine_nonBlocking fun _ => ?_
    refine Triple.bind fine_attempt fun _ => ?_
    refine Triple.bind fine_attempt fun _ => ?_
    refine Triple.bind (fine_setState _) fun _ => ?_
    refine Triple.bind fine_nextAnswer fun ec => Triple.ite (fun _ => fine_disconnect hcb) fun _ => ?_
    refine Triple.bind fine_nextAnswer fun ec => ?_
    exact Triple.ite (fun _ => fine_connected hcb) fun _ => fine_disconnect hcb
  refine Triple.look fun s _ => Triple.ite (fun _ => ?_) fun _ => hrest
  exact Triple.bind (Triple.throw fun _ h => h.exit) fun _ => hrest

omit hcb in
private theorem fine_holding {α : Type} {w : Writer} {x : Act α} (hx : Keeps (Fine i) x (Fine false)) :
    Keeps (Fine i) (holding w x) (Fine false) := by
  refine Triple.tryCatch hx fun e => ?_
  exact Triple.bind fine_send fun _ => Triple.throw fun _ h => h

omit hcb in
private theorem fine_sendPacket (payload : List UInt8) :
    Keeps (Fine i) (sendPacket payload) (Fine false) := by
  refine Triple.bind fine_send fun w => ?_
  refine Triple.bind (fine_holding fine_send) fun w => ?_
  refine Triple.bind (fine_holding (Triple.bind fine_send fun _ => fine_doWrite)) fun _ => ?_
  exact fine_send

private theorem fine_perform (calls : List Call) : Keeps (Fine i) (perform cb calls) (Fine false) := by
  induction calls with
  | nil => exact Triple.pure fun _ h => h
  | cons call calls ih =>
    unfold perform
    cases call with
    | connect => exact Triple.bind (fine_connect hcb) fun _ => ih
    | disconnect => exact Triple.bind (fine_disconnect hcb) fun _ => ih
    | send payload => exact Triple.bind (fine_sendPacket payload) fun _ => ih

end Calls

private theorem fine_applicationCode {body : List Call → Act Unit}
    (hbody : ∀ calls, Keeps (Fine i) (body calls) (Fine false)) :
    Keeps (Fine i) (applicationCode body) (Fine false) := by
  refine Triple.look fun s _ => ?_
  split
  · exact Triple.pure fun _ h => h
  · exact Triple.bind (fine_socketDo fun _ => rfl) fun _ => hbody _

theorem callbacks_obedient (fuel : Nat) : Obedient (callbacks fuel) := by
  induction fuel with
  | zero => exact fun i => ⟨Triple.pure fun _ h => h, Triple.pure fun _ h => h⟩
  | succ fuel ih =>
    exact fun i => ⟨fine_applicationCode fun _ => fine_perform ih _,
      fine_applicationCode fun _ => fine_perform ih _⟩

theorem callbacks_onRecv (fuel n : Nat) (r : Reader) :
    Keeps (Fine i) ((callbacks fuel).onRecv n r) (Fine false) := by
  cases fuel with
  | zero => exact Triple.pure fun _ h => h
  | succ fuel => exact fine_applicationCode fun _ => fine_perform (callbacks_obedient fuel) _

theorem fine_onRead (hrecv : ∀ n r, Keeps (Fine false) (cb.onRecv n r) (Fine false)) (rounds : Nat) :
    Keeps (Fine false) (Connection.onRead cb.onRecv rounds) (Fine false) := by
  have hround : Keeps (Fine false) (Connection.onReadRound cb.onRecv) (Fine false) := by
    unfold Connection.onReadRound
    refine Triple.look fun s _ => Triple.ite (fun _ => Triple.pure fun _ h => h) fun _ => ?_
    refine Triple.bind fine_recv fun bytes => ?_
    refine Triple.look fun s _ => Triple.ite (fun _ => Triple.pure fun _ h => h) fun _ => ?_
    refine Triple.bind fine_recv fun reader => ?_
    refine Triple.look fun s _ => ?_
    refine Triple.bind (hrecv _ _) fun _ => ?_
    refine Triple.bind fine_recv fun _ => ?_
    refine Triple.bind (Q := fun _ => Fine false) (Triple.modify fun _ h => h) fun _ => ?_
    exact Triple.look fun s _ => Triple.pure fun _ h => h
  induction rounds with
  | zero => exact Triple.throw fun _ h => h
  | succ rounds ih =>
    exact Triple.bind hround fun more => Triple.ite (fun _ => ih) fun _ => Triple.pure fun _ h => h

section Update
variable (hcb : Obedient cb)
include hcb

/-- A send that succeeds leaves the block alone; one that fails spoils the run. -/
theorem at_output : Keeps (At i kcp updating) (output cb) (Fine false) := by
  refine Triple.bind at_nextAnswer fun ec => ?_
  by_cases hec : ec = .success
  · have hkept (s : Sock) (h : At i kcp updating s) :
        At i kcp updating { s with socket := { s.socket with outputs := s.socket.outputs ++ [ec] } } := by
      refine h.imp (fun ⟨ec', hmem, hne⟩ => ⟨ec', List.mem_append_left _ hmem, hne⟩) fun ⟨hi,
        horderly, hk, hu⟩ => ?_
      exact ⟨hi, ⟨horderly.held, horderly.safe⟩, hk, hu⟩
    refine Triple.bind (Q := fun _ => At i kcp updating) (Triple.modify hkept) fun _ => ?_
    rw [if_neg (not_not.mpr hec)]
    exact Triple.pure fun _ h => h
  · have hspoiled (s : Sock) (_ : At i kcp updating s) :
        Fine true { s with socket := { s.socket with outputs := s.socket.outputs ++ [ec] } } :=
      .inl ⟨ec, List.mem_append_right _ List.mem_cons_self, hec⟩
    refine Triple.bind (Q := fun _ => Fine true) (Triple.modify hspoiled) fun _ => ?_
    rw [if_pos hec]
    exact (fine_close hcb).after fun _ _ h => .inl (h.resolve_right fun h => nomatch h.1)

private theorem at_ikcpUpdate (b outputs : Nat) :
    Keeps (At i (some b) updating) (ikcpUpdate cb b outputs) (Fine false) := by
  induction outputs with
  | zero => exact Triple.pure fun _ h => h
  | succ outputs ih =>
    refine Triple.bind (at_output hcb) fun _ => ?_
    exact Triple.bind (at_use fun h => nomatch h) fun _ => ih

theorem fine_update (hrecv : ∀ n r, Keeps (Fine false) (cb.onRecv n r) (Fine false))
    (rounds outputs : Nat) (count : Int)
    (bytes : List UInt8) : Keeps (Fine false) (update cb rounds outputs count bytes) (Fine false) := by
  refine Triple.get fun s hs => ?_
  split
  · exact Triple.pure fun _ h => h ▸ hs
  · rename_i block hk
    have hat : At false (some block) none s := hk ▸ hs.at
    refine Triple.before (P := At false (some block) none) ?_ fun _ h => h ▸ hat
    refine Triple.bind (at_useKcp fun h => nomatch h) fun _ => ?_
    refine Triple.bind (Q := fun _ => At false (some block) (some block))
      (Triple.modify fun t h => ?_) fun _ => ?_
    · exact h.imp_right fun ⟨hi, horderly, hk, _⟩ => ⟨hi, ⟨horderly.held, horderly.safe⟩, hk, rfl⟩
    refine Triple.bind (at_ikcpUpdate hcb block outputs) fun _ => ?_
    refine Triple.bind (Q := fun _ => At false (some block) none) (Triple.modify fun t h => ?_) fun _ => ?_
    · exact h.imp_right fun ⟨hi, horderly, hk, _⟩ => ⟨hi, ⟨horderly.held, horderly.safe⟩, hk, rfl⟩
    refine Triple.bind at_zoom_recv fun size => ?_
    refine Triple.bind (at_useKcp fun h => nomatch h) fun _ => ?_
    refine Triple.before (P := Fine false) ?_ fun _ h => h.fine
    refine Triple.ite (fun _ => ?_) fun _ => Triple.pure fun _ h => h
    refine Triple.bind fine_recv fun _ => ?_
    exact Triple.bind fine_recv fun _ => fine_onRead hrecv rounds

end Update

private theorem fine_handleReceive (hcb : Obedient cb) (ec : ErrorCode) (bytes : List UInt8) :
    Keeps (Fine false) (handleReceive cb ec bytes) (Fine false) := by
  have hlast (b : Nat) : Triple (At false (some b) none) (do useKcp .input; doRead : Act Unit)
      (fun _ => Fine false) (Fine false) := by
    refine Triple.bind (at_useKcp fun h => nomatch h) fun _ => ?_
    have hread : Keeps (At false (some b) none) doRead (Fine false) := at_socketDo fun _ => rfl
    exact hread.after fun _ _ h => h.fine
  refine Triple.ite (fun _ => fine_close hcb) fun _ => ?_
  refine Triple.bind (fine_socketDo fun _ => rfl) fun _ => ?_
  refine Triple.get fun s hs => Triple.ite (fun _ => Triple.pure fun _ h => h ▸ hs) fun _ => ?_
  refine Triple.ite (fun _ => ?_) fun hsome => ?_
  · refine Triple.bind (Q := fun _ => At false (some s.socket.created) none) (Triple.modify ?_) fun _ => ?_
    · rintro t rfl
      refine hs.imp_right fun ⟨hi, horderly, hu⟩ => ⟨hi, ⟨fun b hb => ?_, horderly.safe⟩, rfl, hu⟩
      cases hb
      exact List.mem_cons_self
    · exact Triple.bind at_doWrite fun _ => hlast _
  · obtain ⟨b, hb⟩ := Option.isSome_iff_exists.mp
      (Option.isNone_eq_false_iff.mp (Bool.eq_false_iff.mpr hsome))
    have hat : At false (some b) none s := hb ▸ hs.at
    exact (hlast b).before fun _ h => h ▸ hat

theorem fine_event (fuel rounds : Nat) (e : Event) :
    Keeps (Fine false) (event (callbacks fuel) rounds e) (Fine false) := by
  cases e with
  | call call => exact fine_perform (callbacks_obedient fuel) [call]
  | complete ec bytes =>
    exact Triple.bind (fine_socketDo fun _ => rfl) fun _ =>
      fine_handleReceive (callbacks_obedient fuel) ec bytes
  | tick outputs count bytes =>
    exact fine_update (callbacks_obedient fuel) (callbacks_onRecv fuel) rounds outputs count bytes

private theorem fine_ended {x : Act Unit} (hx : Keeps (Fine false) x (Fine false))
    (hs : Fine false s) : Fine false (ended (x s)) := by
  have hkept {t : Sock} (h : Fine false t) :
      Fine false { t with socket := { t.socket with updating := none } } :=
    h.imp_right fun ⟨hi, horderly, _⟩ => ⟨hi, ⟨horderly.held, horderly.safe⟩, rfl⟩
  cases hr : x s with
  | ok _ t => exact hkept (hx.returns hs hr)
  | error _ t => exact hkept (hx.faults hs hr)

private theorem fine_step {s' : Sock} {e : Event × Around} (hs : Fine false s)
    (hstep : Step s e s') : Fine false s' := by
  rw [hstep.2]
  exact fine_ended (fine_event _ _ _) (hs.with_socket rfl)

private theorem fine_start (h : Start s) : Fine false s := by
  cases h with
  | connector => exact .inr ⟨rfl, ⟨(fun b hb => nomatch hb), fun u hu => nomatch hu⟩, rfl⟩
  | accepted e =>
    refine fine_ended (fine_connected (callbacks_obedient _))
      (.inr ⟨rfl, ⟨fun b hb => ?_, fun u hu => nomatch hu⟩, rfl⟩)
    cases hb
    exact List.mem_cons_self

end Invariant

/-- In every run of a kcp socket in which every send inside `output` succeeds,
the library is only given blocks that are not released, and no block is released
under a running `ikcp_update`. -/
theorem released_block_never_used {start s : Sock} {es : List (Event × Around)} (hstart : Start start)
    (hrun : Run Step start es s) (hsends : ∀ ec ∈ s.socket.outputs,
      ec = .success) : ∀ u ∈ s.socket.uses, u.Safe := by
  have hfine : Fine false s := hrun.invariant (I := Fine false) fine_step (fine_start hstart)
  refine (hfine.resolve_left ?_).2.1.safe
  rintro ⟨ec, hmem, hne⟩
  exact hne (hsends ec hmem)

/-- A `connect()` of which every socket call succeeds, and the datagram that makes the control block. -/
def conversing : List (Event × Around) :=
  [(.call .connect, { answers := List.replicate 5 .success }), (.complete .success [1, 0, 0, 0], {})]

def ticking (ec : ErrorCode) : Event × Around := (.tick 1 (-1) [], { answers := [ec] })

private theorem run_of_allEnabled {s : Sock} {es : List (Event × Around)}
    (h : allEnabled (fun s e => enabled s e.1) next s es) :
    Run Step s es (es.foldl next s) :=
  .of_allEnabled (fun he => ⟨he, rfl⟩) h

/-- A tick whose datagram is sent. -/
theorem released_block_never_used_ticking : ∃ s, Run Step connector (conversing ++ [ticking .success]) s ∧
    s.socket.uses.length = 4 ∧ ∀ u ∈ s.socket.uses, u.Safe := by
  have hrun : Run Step connector (conversing ++ [ticking .success]) _ := run_of_allEnabled (by decide +kernel)
  exact ⟨_, hrun, by decide +kernel, released_block_never_used .connector hrun (by decide +kernel)⟩

/-- A tick whose datagram is not sent: the block is released under the update, which goes on with it. -/
theorem released_block_used : Start connector ∧ ∃ s, Run Step connector (conversing ++ [ticking .failure]) s ∧
    ⟨.release, some 0, true, true⟩ ∈ s.socket.uses ∧ ⟨.update, some 0, false, true⟩ ∈ s.socket.uses ∧
    ¬ ∀ u ∈ s.socket.uses, u.Safe :=
  ⟨.connector, _, run_of_allEnabled (by decide +kernel), by
    decide +kernel, by decide +kernel, by decide +kernel⟩

end ControlBlock
end SimpleNetwork
