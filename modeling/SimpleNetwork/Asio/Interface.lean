import SimpleNetwork.Asio.Connector
import SimpleNetwork.Base.Triple

/-! Invariants of a connector under everything an application can call. A family
of predicates that survives the pieces of the socket functions survives each
call, made from outside or from a callback. -/
namespace SimpleNetwork
open Outcome Words

def Action.isConnect : Action → Bool
  | .connect _ _ => true
  | _ => false

def Asio.steering {κ : Type} (a : Asio κ) : Asio κ :=
  { a with flags := 0, isOpen := false, front := [], answers := [], scripts := [], running := none }

namespace Connection
variable {κ ι : Type} {t : Transport} {K : Ikcp κ} {P : ι → Sock Circle κ → Prop} {E : Sock Circle κ → Prop}
  {cb : Callbacks Circle κ}

structure Framed (t : Transport) (P : ι → Sock Circle κ → Prop) (E : Sock Circle κ → Prop) : Prop where
  exit : ∀ {i s}, P i s → E s
  noted : ∀ {i} {action : Action}, action.isConnect = false → Keeps (P i) (note action) E
  state : ∀ {i s} (state : ConnectionState), P i s → P i { s with state := state }
  steered : ∀ {i s} {a : Asio κ}, a.steering = s.socket.steering → P i s → P i { s with socket := a }
  resets : t = .tcp → ∀ i, Keeps (P i) resetRecv E ∧ Keeps (P i) resetSend E
  releases : t = .kcp → ∀ i, Keeps (P i) release E

theorem Framed.along {ι' : Type} (F : Framed t P E) (f : ι' → ι) : Framed t (fun i => P (f i)) E where
  exit h := F.exit h
  noted h := F.noted h
  state state h := F.state state h
  steered h hs := F.steered h hs
  resets h i := F.resets h (f i)
  releases h i := F.releases h (f i)

def Obeys (P : ι → Sock Circle κ → Prop) (E : Sock Circle κ → Prop) (cb : Callbacks Circle κ) : Prop :=
  ∀ i, Keeps (P i) cb.onConnected E ∧ Keeps (P i) cb.onDisconnected E

section Close
variable (F : Framed t P E) {i : ι}
include F

theorem Framed.socketDo {f : Asio κ → Asio κ} (hf : ∀ a, (f a).steering = a.steering) : Keeps (P i)
    (socketDo f) E :=
  Triple.modify fun s h => F.steered (hf s.socket) h

theorem Framed.setState (state : ConnectionState) : Keeps (P i) (setState state) E :=
  Triple.bind (Triple.modify fun _ h => F.state state h) fun _ => F.noted rfl

theorem Framed.closeSocket : Keeps (P i) closeSocket E := by
  refine Triple.bind (F.socketDo ?_) fun _ => F.noted rfl
  intro a
  rfl

theorem Framed.nextAnswer : Keeps (P i) nextAnswer E := by
  refine Triple.look fun s _ => ?_
  split
  · exact Triple.pure fun _ h => h
  · refine Triple.bind (F.socketDo ?_) fun _ => Triple.pure fun _ h => h
    intro a
    rfl

theorem Framed.nonBlocking : Keeps (P i) nonBlocking E := by
  refine Triple.look fun s _ => Triple.ite (fun _ => Triple.pure fun _ h => h) fun _ => ?_
  exact Triple.throw fun _ h => F.exit h

theorem Framed.sendDatagram (bytes : List UInt8) : Keeps (P i) (sendDatagram bytes) E := by
  refine Triple.bind F.nextAnswer fun answer => Triple.ite (fun _ => ?_) fun _ => Triple.pure fun _ h => h
  exact Triple.bind (F.noted rfl) fun _ => Triple.pure fun _ h => h

theorem Framed.attempt : Keeps (P i) attempt E := by
  refine Triple.bind F.nextAnswer fun answer => Triple.ite (fun _ => Triple.pure fun _ h => h) fun _ => ?_
  exact Triple.throw fun _ h => F.exit h

theorem Framed.openDatagram : Keeps (P i) openDatagram E := by
  refine Triple.look fun s _ => Triple.ite (fun _ => Triple.throw fun _ h => F.exit h) fun _ => ?_
  refine Triple.bind F.attempt fun _ => F.socketDo ?_
  intro a
  rfl

variable (hcb : Obeys P E cb)
include hcb

theorem Framed.onClose : Keeps (P i) (onClose cb) E := by
  refine Triple.look fun s _ => Triple.ite (fun _ => ?_) fun _ => Triple.pure fun _ h => h
  refine Triple.bind (F.setState _) fun _ => ?_
  exact Triple.bind (F.noted rfl) fun _ => (hcb i).2

theorem Framed.close : Keeps (P i) (close t cb) E := by
  cases t with
  | tcp =>
    refine Triple.bind (F.socketDo ?_) fun _ => ?_
    · intro a
      rfl
    refine Triple.bind (F.resets rfl i).1 fun _ => ?_
    refine Triple.bind (F.resets rfl i).2 fun _ => ?_
    exact Triple.bind F.closeSocket fun _ => F.onClose hcb
  | udp => exact Triple.bind F.closeSocket fun _ => F.onClose hcb
  | kcp =>
    refine Triple.bind F.closeSocket fun _ => ?_
    refine Triple.bind (F.onClose hcb) fun _ => ?_
    exact Triple.look fun s _ => Triple.ite (fun _ => F.releases rfl i) fun _ => Triple.pure fun _ h => h

theorem Framed.disconnect : Keeps (P i) (disconnect t cb) E := by
  refine Triple.look fun s _ => Triple.ite (fun _ => Triple.pure fun _ h => h) fun _ => ?_
  refine Triple.bind (F.setState _) fun _ => ?_
  refine Triple.bind (F.close hcb) fun _ => ?_
  exact Triple.bind (F.noted rfl) fun _ => (hcb i).2

end Close

/-- The pieces of the calls of an application. A `connect()` call begins with a
session number and a `close()`, and goes on in another predicate of the family. -/
structure Interface (t : Transport) (K : Ikcp κ) (P : ι → Sock Circle κ → Prop) (begun : ι → ι)
    (E : Sock Circle κ → Prop) : Prop where
  steered : ∀ {i s} {a : Asio κ}, a.steering = s.socket.steering → P i s → P i { s with socket := a }
  inRecv : ∀ {i s u}, P i s → P i u → P i { u with socket := { u.socket with inRecv := s.socket.inRecv } }
  opened : ∀ {i}, Keeps (P i) (send Writer.new) E
  put : ∀ {i} (w : Writer) (payload : List UInt8), Keeps (P i) (send (w.put payload)) E
  flushed : ∀ {i} (w : Writer), Keeps (P i) (send (w.flush none)) E
  destroyed : ∀ {i} (w : Writer), Keeps (P i) (send w.destroy) E
  undone : ∀ w : Writer, Keeps E (send w.destroy) E
  write : ∀ {i} {cb : Callbacks Circle κ}, Obeys P E cb → Keeps (P i) (doWrite t K cb) E
  disconnects : ∀ {i} {cb : Callbacks Circle κ}, Obeys P E cb → Keeps (P i) (disconnect t cb) E
  begins : ∀ {i} {cb : Callbacks Circle κ}, Obeys P E cb →
    Triple (P i) (beginSession >>= fun _ => close t cb) (fun _ => P (begun i)) E
  framed : Framed t (fun i => P (begun i)) E
  back : ∀ {i s}, P (begun i) s → P i s
  read : ∀ {i}, Keeps (P (begun i)) (doRead t) E
  dial : t = .tcp → ∀ {i}, Keeps (P (begun i)) (start .connect) E

section Calls
variable {begun : ι → ι} (I : Interface t K P begun E) (hcb : Obeys P E cb) {i : ι}
include I hcb

theorem Interface.openSocket : Keeps (P (begun i)) (openSocket t K cb) E := by
  cases t with
  | tcp =>
    refine Triple.bind (I.framed.noted rfl) fun _ => ?_
    refine Triple.bind I.framed.nonBlocking fun _ => ?_
    exact Triple.bind I.read fun _ => I.write hcb
  | udp | kcp =>
    refine Triple.bind (I.framed.noted rfl) fun _ => ?_
    refine Triple.bind I.framed.nonBlocking fun _ => ?_
    exact Triple.bind I.read fun _ => I.write hcb

theorem Interface.connected : Keeps (P (begun i)) (connected t K cb) E := by
  refine Triple.look fun s _ => Triple.ite (fun _ => ?_) fun _ => Triple.pure fun _ h => h
  refine Triple.bind (I.framed.setState _) fun _ => ?_
  refine Triple.bind (I.framed.noted rfl) fun _ => ?_
  exact Triple.bind (hcb (begun i)).1 fun _ => I.openSocket hcb

theorem Interface.connect : Keeps (P i) (connect t K cb) E := by
  have hdial : Keeps (P (begun i)) (do
      openDatagram
      nonBlocking
      attempt
      attempt
      setState .connecting
      let answer ← nextAnswer
      if answer.ec ≠ .success then disconnect t cb
      else
        let ec ← sendDatagram (le32 0)
        if ec = .success then Connection.connected t K cb else Connection.disconnect t cb) E := by
    refine Triple.bind I.framed.openDatagram fun _ => ?_
    refine Triple.bind I.framed.nonBlocking fun _ => ?_
    refine Triple.bind I.framed.attempt fun _ => ?_
    refine Triple.bind I.framed.attempt fun _ => ?_
    refine Triple.bind (I.framed.setState _) fun _ => ?_
    refine Triple.bind I.framed.nextAnswer fun answer => Triple.ite (fun _ => I.disconnects hcb) fun _ => ?_
    refine Triple.bind (I.framed.sendDatagram _) fun ec => ?_
    exact Triple.ite (fun _ => I.connected hcb) fun _ => I.disconnects hcb
  have hbegun {x : EStateM Fault (Sock Circle κ) Unit} (hx : Keeps (P (begun i)) x E) :
      Keeps (P i) (beginSession >>= fun _ => close t cb >>= fun _ => x) E := by
    have hall := ((I.begins hcb).bind fun _ => hx).after fun _ _ h => I.back h
    rw [bind_assoc] at hall
    exact hall
  cases t with
  | tcp =>
    refine hbegun (Triple.bind (I.framed.setState _) fun _ =>
      Triple.bind (I.framed.socketDo ?_) fun _ => I.dial rfl)
    intro a
    rfl
  | udp | kcp => exact hbegun hdial

omit hcb in
theorem Interface.holding {α : Type} {w : Writer} {x : EStateM Fault (Sock Circle κ) α}
    (hx : Keeps (P i) x E) :
    Keeps (P i) (holding w x) E := by
  refine Triple.tryCatch hx fun e => ?_
  exact Triple.bind (I.undone w) fun _ => Triple.throw fun _ h => h

theorem Interface.sendPacket (payload : List UInt8) : Keeps (P i) (sendPacket t K cb payload) E := by
  refine Triple.bind I.opened fun w => ?_
  refine Triple.bind (I.holding (I.put w payload)) fun w => ?_
  refine Triple.bind (I.holding (Triple.bind (I.flushed w) fun _ => I.write hcb)) fun _ => ?_
  exact I.destroyed w

theorem Interface.perform (calls : List Call) : Keeps (P i) (perform t K cb calls) E := by
  induction calls with
  | nil => exact Triple.pure fun _ h => h
  | cons call calls ih =>
    unfold Connection.perform
    cases call with
    | connect => exact Triple.bind (I.connect hcb) fun _ => ih
    | disconnect => exact Triple.bind (I.disconnects hcb) fun _ => ih
    | send payload => exact Triple.bind (I.sendPacket hcb payload) fun _ => ih

end Calls

section Callbacks
variable {begun : ι → ι} (I : Interface t K P begun E)
include I

/-- A callback other than `on_recv`. -/
theorem Interface.applicationCode {i : ι} {body : List Call → EStateM Fault (Sock Circle κ) Unit}
    (hbody : ∀ calls, Keeps (P i) (body calls) E) : Keeps (P i) (applicationCode false body) E := by
  unfold Connection.applicationCode
  refine Triple.get fun s hs => ?_
  split
  · exact Triple.pure fun _ h => h ▸ hs
  · rename_i script scripts _
    refine Triple.bind (Q := fun _ => P i) (Triple.modify ?_) fun _ => ?_
    · rintro _ rfl
      refine I.steered ?_ hs
      simp [Asio.steering]
    · refine Triple.bind (hbody script) fun _ => Triple.modify fun u hu => ?_
      have hsteered : P i { u with socket := { u.socket with running := s.socket.running } } :=
        I.steered rfl hu
      exact I.inRecv hs hsteered

theorem Interface.callbacks (fuel : Nat) : Obeys P E (callbacks t K fuel) := by
  induction fuel with
  | zero => exact fun i => ⟨Triple.pure fun _ h => h, Triple.pure fun _ h => h⟩
  | succ fuel ih =>
    intro i
    have hbody (calls : List Call) :
        Keeps (P i) (Connection.perform t K (Connection.callbacks t K fuel) calls) E :=
      I.perform ih calls
    exact ⟨I.applicationCode hbody, I.applicationCode hbody⟩

end Callbacks
end Connection
end SimpleNetwork
