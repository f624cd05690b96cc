import SimpleNetwork.Asio.Socket
import SimpleNetwork.Base.Runs
import SimpleNetwork.Buffer.CircleSound

/-! The sending side of a udp socket: its ring, the writers on it, and a record
of what every `do_write()` did. Of the receiving side only the callbacks that it
makes are kept. -/
namespace SimpleNetwork
open Outcome Runs

/-- An access past the staging array, a datagram with the ring's contents when
`do_write()` was entered, and the ring's contents when it returned. -/
inductive Happening where
  | overrun
  | handed (contents datagram : List UInt8)
  | written (left : List UInt8)
  deriving DecidableEq, Repr

/-- What an application does between two returns to the library. Writers are
given by their fields, so they may be of any age and in any order. -/
inductive UdpCall where
  | connect
  | disconnect
  | getPacketWriter
  | child (parent : Writer)
  | put (w : Writer) (value : List UInt8)
  | forward (w : Writer) (source : Circle) (r : Reader)
  | flush (w : Writer)
  | send (w : Writer)
  | drop (w : Writer)
  | throw
  deriving DecidableEq, Repr

/-- The members, the results of coming socket calls, the calls that coming
callbacks make, and the record. -/
structure UdpSocket where
  state : ConnectionState := .disconnected
  isOpen : Bool := false
  sendBuff : Circle := freshBuffer
  answers : List ErrorCode := []
  scripts : List (List UdpCall) := []
  record : List Happening := []
  deriving DecidableEq, Repr

namespace UdpSocket

def onSend {α : Type} (x : EStateM Fault Circle α) : EStateM Fault UdpSocket α :=
  zoom sendBuff (fun b s => { s with sendBuff := b }) x

def happened (h : Happening) : EStateM Fault UdpSocket Unit :=
  modify fun s => { s with record := s.record ++ [h] }

def setState (state : ConnectionState) : EStateM Fault UdpSocket Unit :=
  modify fun s => { s with state := state }

def answer : EStateM Fault UdpSocket ErrorCode := do
  let s ← get
  match s.answers with
  | [] => pure .failure
  | ec :: answers =>
    modify fun s => { s with answers := answers }
    pure ec

def attempt : EStateM Fault UdpSocket Unit := do
  let ec ← answer
  if ec = .success then pure () else throw .systemError

def nonBlocking : EStateM Fault UdpSocket Unit := do
  let s ← get
  if s.isOpen then pure () else throw .systemError

def staging {α : Type} (x : EStateM Fault UdpSocket α) : EStateM Fault UdpSocket α :=
  tryCatch x fun fault => do
    happened .overrun
    throw fault

def stagedBytes (count : UInt64) : EStateM Fault UdpSocket (List UInt8) := do
  let s ← get
  let first ← onSend (Circle.peekStart s.sendBuff.getContinguiousCount)
  let buff ← staging ((Data.new 65536 65536).store 0 first)
  onSend (Circle.remove s.sendBuff.getContinguiousCount)
  let s ← get
  let second ← onSend (Circle.peekStart s.sendBuff.getContinguiousCount)
  let buff ← staging (buff.store (count - s.sendBuff.getContinguiousCount) second)
  staging (buff.load 0 count)

section Callback
variable (callback : EStateM Fault UdpSocket Unit)

def onClose : EStateM Fault UdpSocket Unit := do
  let s ← get
  if s.state = .connected then
    setState .disconnected
    callback
  else pure ()

def close : EStateM Fault UdpSocket Unit := do
  modify fun s => { s with isOpen := false }
  onClose callback

def disconnect : EStateM Fault UdpSocket Unit := do
  let s ← get
  if s.state = .disconnected then pure ()
  else
    setState .disconnected
    close callback
    callback

def doWrite : EStateM Fault UdpSocket Unit := do
  let s ← get
  let count := s.sendBuff.getCount
  if count ≠ 0 then
    let bytes ← if count = s.sendBuff.getContinguiousCount then
        onSend (Circle.peekStart count)
      else stagedBytes count
    happened (.handed s.sendBuff.contents bytes)
    let ec ← answer
    if ec ≠ .success then close callback else pure ()
    modify fun s => { s with sendBuff := s.sendBuff.reset }
  else pure ()
  let s ← get
  happened (.written s.sendBuff.contents)

/-- `udp::socket::open()`. The receive that it starts may find no space. -/
def openSocket : EStateM Fault UdpSocket Unit := do
  nonBlocking
  attempt
  doWrite callback

def connected : EStateM Fault UdpSocket Unit := do
  let s ← get
  if s.state ≠ .connected then
    setState .connected
    callback
    openSocket callback
  else pure ()

def connect : EStateM Fault UdpSocket Unit := do
  close callback
  let s ← get
  if s.isOpen then throw .systemError else attempt
  modify fun s => { s with isOpen := true }
  nonBlocking
  attempt
  attempt
  setState .connecting
  let ec ← answer
  if ec ≠ .success then disconnect callback
  else
    let ec ← answer
    if ec = .success then connected callback else disconnect callback

def call : UdpCall → EStateM Fault UdpSocket Unit
  | .connect => connect callback
  | .disconnect => disconnect callback
  | .getPacketWriter => onSend Writer.new >>= fun _ => pure ()
  | .child parent => onSend parent.child >>= fun _ => pure ()
  | .put w value => onSend (w.put value) >>= fun _ => pure ()
  | .forward w source r => onSend (w.forward source r) >>= fun _ => pure ()
  | .flush w => onSend (w.flush none) >>= fun _ => pure ()
  | .send w => do
    let _ ← onSend (w.flush none)
    doWrite callback
  | .drop w => onSend w.destroy
  | .throw => throw .systemError

/-- Application code may catch what a call throws, or drop its writers and throw
again; both are later calls of its script. -/
def perform : List UdpCall → EStateM Fault UdpSocket Unit
  | [] => pure ()
  | .throw :: _ => call callback .throw
  | c :: calls => do
    catchAll (call callback c) (pure ())
    perform calls

/-- The handler of a receive: on success it runs `on_recv` once for each packet. -/
def handleReceive (ec : ErrorCode) : Nat → EStateM Fault UdpSocket Unit
  | 0 => if ec ≠ .success then close callback else attempt
  | packets + 1 =>
    if ec ≠ .success then close callback
    else do
      callback
      handleReceive ec packets

end Callback

/-- A callback makes the calls of the next script. Each callback takes one, so
the number of scripts bounds how deep callbacks nest. -/
def callback : Nat → EStateM Fault UdpSocket Unit
  | 0 => pure ()
  | fuel + 1 => do
    let s ← get
    match s.scripts with
    | [] => pure ()
    | script :: scripts =>
      modify fun s => { s with scripts := scripts }
      perform (callback fuel) script

end UdpSocket

/-- What the event loop, an acceptor and the application outside callbacks do. -/
inductive UdpEvent where
  | calls (script : List UdpCall)
  | accepted
  | received (ec : ErrorCode) (packets : Nat)
  deriving DecidableEq, Repr

/-- The environment of an event: the results of its socket calls, and what its
callbacks call. -/
structure UdpSurroundings where
  answers : List ErrorCode := []
  scripts : List (List UdpCall) := []
  deriving DecidableEq, Repr

namespace UdpSocket

def event (callback : EStateM Fault UdpSocket Unit) : UdpEvent → EStateM Fault UdpSocket Unit
  | .calls script => perform callback script
  | .accepted => connected callback
  | .received ec packets => handleReceive callback ec packets

def afterEvent (s : UdpSocket) (e : UdpEvent × UdpSurroundings) : UdpSocket :=
  match event (callback e.2.scripts.length) e.1 { s with answers := e.2.answers, scripts := e.2.scripts } with
  | .ok _ s' => s'
  | .error _ s' => s'

def Step (s : UdpSocket) (e : UdpEvent × UdpSurroundings) (s' : UdpSocket) : Prop := s' = afterEvent s e


/-- A datagram is all of the ring, nothing passes the staging array, and nothing
is left in the ring. -/
def Right : Happening → Prop
  | .overrun => False
  | .handed contents datagram => datagram = contents
  | .written left => left = []

/-- The live bytes lie in one run at the start of the ring's array, and all that
happened so far was right. -/
structure Good (s : UdpSocket) : Prop where
  flat : s.sendBuff.Flat
  right : ∀ h ∈ s.record, Right h

section Writers

theorem flat_new : Keeps Circle.Flat (Writer.new : EStateM Fault Circle Writer) Circle.Flat := by
  refine Triple.look fun c _ => ?_
  exact Triple.bind (Circle.flat_lasting.write _ _) fun _ => Triple.pure fun _ h => h

private theorem flat_child (parent : Writer) :
    Keeps Circle.Flat (parent.child : EStateM Fault Circle Writer) Circle.Flat :=
  Triple.bind (Circle.flat_lasting.write _ _) fun _ => Triple.pure fun _ h => h

theorem flat_put (w : Writer) (value : List UInt8) :
    Keeps Circle.Flat (w.put value : EStateM Fault Circle Writer) Circle.Flat := by
  refine Triple.look fun c _ => Triple.bind (Circle.flat_lasting.write _ _) fun _ => ?_
  exact Triple.look fun c _ => Triple.pure fun _ h => h

private theorem flat_forward (w : Writer) (source : Circle) (r : Reader) :
    Keeps Circle.Flat (w.forward source r) Circle.Flat :=
  Triple.bind (Circle.flat_lasting.writeFrom source _ _) fun _ => Triple.pure fun _ h => h

theorem flat_flush (w : Writer) (parent : Option Writer) :
    Keeps Circle.Flat (w.flush parent : EStateM Fault Circle (Option Writer)) Circle.Flat :=
  Triple.bind (Circle.flat_lasting.write _ _) fun _ => Triple.pure fun _ h => h

private theorem flat_destroy (w : Writer) :
    Keeps Circle.Flat (w.destroy : EStateM Fault Circle Unit) Circle.Flat := by
  refine Triple.look fun c _ => Triple.ite (fun _ => ?_) fun _ => Triple.pure fun _ h => h
  refine Triple.bind (Circle.flat_read _) fun bytes => Triple.ite (fun _ => ?_) fun _ =>
    Triple.pure fun _ h => h
  exact Circle.flat_lasting.removeFromBack _

end Writers

section Keeps
variable {callback : EStateM Fault UdpSocket Unit}

private theorem good_onSend {α : Type} {x : EStateM Fault Circle α} (hx : Keeps Circle.Flat x Circle.Flat) :
    Keeps Good (onSend x) Good where
  returns {s a s'} hs hr := by
    obtain ⟨c, hrun, rfl⟩ := zoom_eq_ok hr
    exact ⟨hx.returns hs.flat hrun, hs.right⟩
  faults {s e s'} hs hr := by
    obtain ⟨c, hrun, rfl⟩ := zoom_eq_error hr
    exact ⟨hx.faults hs.flat hrun, hs.right⟩

private theorem good_happened {h : Happening} (hright : Right h) : Keeps Good (happened h) Good := by
  refine Triple.modify fun s hs => ⟨hs.flat, ?_⟩
  intro x hx
  rcases List.mem_append.mp hx with hx | hx
  · exact hs.right x hx
  · cases List.mem_singleton.mp hx
    exact hright

private theorem good_setState (state : ConnectionState) : Keeps Good (setState state) Good :=
  Triple.modify fun _ hs => ⟨hs.flat, hs.right⟩

private theorem good_answer : Keeps Good answer Good := by
  refine Triple.look fun s _ => ?_
  split
  · exact Triple.pure fun _ h => h
  · exact Triple.bind (Triple.modify fun _ hs => ⟨hs.flat, hs.right⟩) fun _ => Triple.pure fun _ h => h

private theorem good_attempt : Keeps Good attempt Good := by
  refine Triple.bind good_answer fun ec => Triple.ite (fun _ => ?_) fun _ => ?_
  · exact Triple.pure fun _ h => h
  · exact Triple.throw fun _ h => h

private theorem good_nonBlocking : Keeps Good nonBlocking Good := by
  refine Triple.look fun s _ => Triple.ite (fun _ => ?_) fun _ => ?_
  · exact Triple.pure fun _ h => h
  · exact Triple.throw fun _ h => h

/-- The end of `do_write()`, from a ring without live bytes. -/
theorem good_return : Triple (fun s => Good s ∧ s.sendBuff.contents = []) (do
    let s ← get
    happened (.written s.sendBuff.contents)) (fun _ => Good) Good := by
  refine Triple.look fun s hs => ?_
  exact (good_happened (h := .written s.sendBuff.contents) hs.2).before fun _ h => h.1

variable (hcallback : Keeps Good callback Good)
include hcallback

private theorem good_onClose : Keeps Good (onClose callback) Good := by
  refine Triple.look fun s _ => Triple.ite (fun _ => ?_) fun _ => Triple.pure fun _ h => h
  exact Triple.bind (good_setState _) fun _ => hcallback

private theorem good_close : Keeps Good (close callback) Good := by
  refine Triple.bind (Q := fun _ => Good) (Triple.modify fun _ hs => ⟨hs.flat, hs.right⟩) fun _ => ?_
  exact good_onClose hcallback

private theorem good_disconnect : Keeps Good (disconnect callback) Good := by
  refine Triple.look fun s _ => Triple.ite (fun _ => Triple.pure fun _ h => h) fun _ => ?_
  refine Triple.bind (good_setState _) fun _ => ?_
  exact Triple.bind (good_close hcallback) fun _ => hcallback

/-- The ring is in one run, so the staging array is not used and the datagram is
all of the ring; what callbacks append afterwards is reset. -/
theorem good_doWrite : Keeps Good (doWrite callback) Good := by
  unfold doWrite
  refine Triple.get fun s hs => ?_
  refine Triple.ite (fun _ => ?_) fun hcount => ?_
  · rw [if_pos hs.flat.getContinguiousCount.symm]
    have hpeek : Triple (fun u => u = s) (onSend (Circle.peekStart s.sendBuff.getCount))
        (fun bytes u => Good u ∧ bytes = s.sendBuff.contents) Good := by
      refine ⟨?_, ?_⟩
      · rintro _ bytes u rfl hr
        rw [onSend, zoom_ok hs.flat.peekStart] at hr
        cases hr
        exact ⟨hs, rfl⟩
      · rintro _ e u rfl hr
        rw [onSend, zoom_ok hs.flat.peekStart] at hr
        cases hr
    refine Triple.bind hpeek fun bytes => Triple.given fun hbytes => ?_
    refine Triple.bind (good_happened hbytes) fun _ => Triple.bind good_answer fun ec => ?_
    have hreset : Keeps Good (do
        modify fun s => { s with sendBuff := s.sendBuff.reset }
        let s ← get
        happened (.written s.sendBuff.contents) : EStateM Fault UdpSocket Unit) Good := by
      refine Triple.bind (Triple.modify fun u hu => ?_) fun _ => good_return
      exact ⟨⟨hu.flat.reset.1, hu.right⟩, hu.flat.reset.2⟩
    refine Triple.ite (fun _ => ?_) fun _ => ?_
    · exact Triple.bind (good_close hcallback) fun _ => hreset
    · exact hreset
  · refine good_return.before ?_
    rintro _ rfl
    refine ⟨hs, ?_⟩
    rw [Circle.contents, Decidable.not_not.mp hcount]
    rfl

private theorem good_openSocket : Keeps Good (openSocket callback) Good := by
  refine Triple.bind good_nonBlocking fun _ => ?_
  exact Triple.bind good_attempt fun _ => good_doWrite hcallback

private theorem good_connected : Keeps Good (connected callback) Good := by
  refine Triple.look fun s _ => Triple.ite (fun _ => ?_) fun _ => Triple.pure fun _ h => h
  refine Triple.bind (good_setState _) fun _ => ?_
  exact Triple.bind hcallback fun _ => good_openSocket hcallback

private theorem good_connect : Keeps Good (connect callback) Good := by
  have hrest : Keeps Good (do
      modify fun s => { s with isOpen := true }
      nonBlocking
      attempt
      attempt
      setState .connecting
      let ec ← answer
      if ec ≠ .success then disconnect callback
      else
        let ec ← answer
        if ec = .success then connected callback
          else disconnect callback : EStateM Fault UdpSocket Unit) Good := by
    refine Triple.bind (Q := fun _ => Good) (Triple.modify fun _ hs => ⟨hs.flat, hs.right⟩) fun _ => ?_
    refine Triple.bind good_nonBlocking fun _ => ?_
    refine Triple.bind good_attempt fun _ => Triple.bind good_attempt fun _ => ?_
    refine Triple.bind (good_setState _) fun _ => Triple.bind good_answer fun ec => ?_
    refine Triple.ite (fun _ => good_disconnect hcallback) fun _ => Triple.bind good_answer fun ec => ?_
    exact Triple.ite (fun _ => good_connected hcallback) fun _ => good_disconnect hcallback
  refine Triple.bind (good_close hcallback) fun _ => Triple.look fun s _ =>
    Triple.ite (fun _ => ?_) fun _ => ?_
  · exact Triple.bind (Triple.throw fun _ h => h) fun _ => hrest
  · exact Triple.bind good_attempt fun _ => hrest

private theorem good_call (c : UdpCall) : Keeps Good (call callback c) Good := by
  cases c with
  | connect => exact good_connect hcallback
  | disconnect => exact good_disconnect hcallback
  | getPacketWriter => exact Triple.bind (good_onSend flat_new) fun _ => Triple.pure fun _ h => h
  | child parent => exact Triple.bind (good_onSend (flat_child parent)) fun _ => Triple.pure fun _ h => h
  | put w value => exact Triple.bind (good_onSend (flat_put w value)) fun _ => Triple.pure fun _ h => h
  | forward w source r =>
    exact Triple.bind (good_onSend (flat_forward w source r)) fun _ => Triple.pure fun _ h => h
  | flush w => exact Triple.bind (good_onSend (flat_flush w none)) fun _ => Triple.pure fun _ h => h
  | send w => exact Triple.bind (good_onSend (flat_flush w none)) fun _ => good_doWrite hcallback
  | drop w => exact good_onSend (flat_destroy w)
  | throw => exact Triple.throw fun _ h => h

private theorem good_perform (calls : List UdpCall) : Keeps Good (perform callback calls) Good := by
  induction calls with
  | nil => exact Triple.pure fun _ h => h
  | cons c calls ih =>
    have hcaught : Keeps Good (catchAll (call callback c) (pure ())) Good := by
      refine Triple.tryCatch (good_call hcallback c) fun fault => Triple.ite (fun _ => ?_) fun _ => ?_
      · exact Triple.pure fun _ h => h
      · exact Triple.throw fun _ h => h
    cases c with
    | throw => exact good_call hcallback .throw
    | _ => exact Triple.bind hcaught fun _ => ih

private theorem good_handleReceive (ec : ErrorCode) (packets : Nat) :
    Keeps Good (handleReceive callback ec packets) Good := by
  induction packets with
  | zero => exact Triple.ite (fun _ => good_close hcallback) fun _ => good_attempt
  | succ packets ih =>
    refine Triple.ite (fun _ => good_close hcallback) fun _ => ?_
    exact Triple.bind hcallback fun _ => ih

private theorem good_event (e : UdpEvent) : Keeps Good (event callback e) Good := by
  cases e with
  | calls script => exact good_perform hcallback script
  | accepted => exact good_connected hcallback
  | received ec packets => exact good_handleReceive hcallback ec packets

end Keeps

private theorem good_callback (fuel : Nat) : Keeps Good (callback fuel) Good := by
  induction fuel with
  | zero => exact Triple.pure fun _ h => h
  | succ fuel ih =>
    refine Triple.look fun s _ => ?_
    split
    · exact Triple.pure fun _ h => h
    · refine Triple.bind (Q := fun _ => Good) (Triple.modify fun _ hs => ⟨hs.flat, hs.right⟩) fun _ => ?_
      exact good_perform ih _

private theorem good_step {s s' : UdpSocket} {e : UdpEvent × UdpSurroundings} (hs : Good s)
    (h : Step s e s') : Good s' := by
  have hgood := good_event (good_callback e.2.scripts.length) e.1
  have hready : Good { s with answers := e.2.answers, scripts := e.2.scripts } := ⟨hs.flat, hs.right⟩
  rw [h, afterEvent]
  cases hr : event (callback e.2.scripts.length) e.1
    { s with answers := e.2.answers, scripts := e.2.scripts } with
  | ok a s' => exact hgood.returns hready hr
  | error fault s' => exact hgood.faults hready hr

private theorem run_foldl (es : List (UdpEvent × UdpSurroundings)) (s : UdpSocket) :
    Run Step s es (es.foldl afterEvent s) := by
  induction es generalizing s with
  | nil => exact .nil s
  | cons e es ih => exact .cons rfl (ih _)

/-- In every run of a udp socket, of a connector or of an acceptor, each
`do_write()` hands over all of the ring in order, stays within the staging
array, and leaves the ring empty when it returns. -/
theorem udp_write_whole (isOpen : Bool) {es : List (UdpEvent × UdpSurroundings)} {s : UdpSocket}
    (h : Run Step { isOpen := isOpen } es s) :
    Happening.overrun ∉ s.record ∧
      (∀ contents datagram, .handed contents datagram ∈ s.record → datagram = contents) ∧
      ∀ left, .written left ∈ s.record → left = [] := by
  have hfresh : Good { isOpen := isOpen } := by
    obtain ⟨hv, -⟩ := Circle.loaded_valid [] (by decide)
    exact ⟨⟨hv.sound, rfl⟩, fun x hx => nomatch hx⟩
  have hgood : Good s := h.invariant (I := Good) (fun hs hstep => good_step hs hstep) hfresh
  exact ⟨fun hx => hgood.right _ hx, fun _ _ hx => hgood.right _ hx, fun _ hx => hgood.right _ hx⟩

/-- Two datagrams; the second one is refused, and `on_disconnected` reconnects. -/
def refusedOnce : List (UdpEvent × UdpSurroundings) :=
  let dialled := List.replicate 6 ErrorCode.success
  [(.calls [.connect], ⟨dialled, []⟩),
    (.calls [.getPacketWriter, .put ⟨0, 0⟩ [7], .send ⟨0, 1⟩, .drop ⟨0, 1⟩], ⟨[.success], []⟩),
    (.calls [.getPacketWriter, .put ⟨0, 0⟩ [8, 9], .send ⟨0, 2⟩, .drop ⟨0, 2⟩],
      ⟨.failure :: dialled, [[.connect]]⟩)]

theorem udp_write_whole_refused :
    ∃ s, Run Step { isOpen := false } refusedOnce s ∧ Happening.overrun ∉ s.record ∧
      (∀ contents datagram, .handed contents datagram ∈ s.record → datagram = contents) ∧
      (∀ left, .written left ∈ s.record → left = []) ∧
      .handed [1, 0, 0, 0, 7] [1, 0, 0, 0, 7] ∈ s.record ∧
        .handed [2, 0, 0, 0, 8, 9] [2, 0, 0, 0, 8, 9] ∈ s.record := by
  have hrun := run_foldl refusedOnce { isOpen := false }
  obtain ⟨hover, hhanded, hwritten⟩ := udp_write_whole false hrun
  exact ⟨_, hrun, hover, hhanded, hwritten, by decide +kernel, by decide +kernel⟩

end UdpSocket
end SimpleNetwork
