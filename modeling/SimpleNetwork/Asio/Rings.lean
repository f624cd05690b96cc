import SimpleNetwork.Asio.Interface
import SimpleNetwork.Base.Runs
import SimpleNetwork.Asio.Sessions
import SimpleNetwork.Buffer.CircleSizes
import SimpleNetwork.Buffer.CircleSound
import SimpleNetwork.Reactor.Framing

/-! The two rings of a connection. What the functions of a ring keep, every event
of a connector of any transport keeps of both of them, whatever the application
and the network do. -/
namespace SimpleNetwork
open Outcome Words Runs

/-- A property of rings that their functions keep, also when they throw. -/
structure RingInvariant (B : Circle → Prop) : Prop extends Circle.Lasting B where
  reset : ∀ {c}, B c → B c.reset
  head : ∀ {c : Circle} (n : UInt64), B c → B { c with head := n % c.getSize }

namespace RingInvariant
variable {B : Circle → Prop} (R : RingInvariant B)
include R

theorem space : Keeps B Circle.getContinguiousSpace B := R.toLasting.spaceFuel _ _

theorem remove (count : UInt64) : Keeps B (Circle.remove count) B := .modify fun _ h => R.head _ h

theorem read (count offset : UInt64) : Keeps B (Circle.read count offset) B :=
  Circle.keeps_readFuel R.head _ _ _ _

theorem write (data : List UInt8) (offset : UInt64) : Keeps B (Circle.write data offset) B :=
  R.toLasting.write data offset

theorem opened : Keeps B (Writer.new : EStateM Fault Circle Writer) B :=
  .look fun _ _ => .bind (R.write _ _) fun _ => .pure fun _ h => h

theorem put (w : Writer) (payload : List UInt8) : Keeps B (w.put payload) B :=
  .look fun _ _ => .bind (R.write _ _) fun _ => .look fun _ _ => .pure fun _ h => h

theorem flush (w : Writer) : Keeps B (w.flush none) B := .bind (R.write _ _) fun _ => .pure fun _ h => h

theorem destroy (w : Writer) : Keeps B w.destroy B := by
  refine .look fun _ _ => .ite (fun _ => ?_) fun _ => .pure fun _ h => h
  exact .bind (R.read _ _) fun bytes => .ite (fun _ => R.toLasting.removeFromBack _) fun _ =>
    .pure fun _ h => h

end RingInvariant

def Rings {κ : Type} (B : Circle → Prop) (s : Sock Circle κ) : Prop := B s.recvBuff ∧ B s.sendBuff

namespace Connection
variable {κ α : Type} {B : Circle → Prop} (R : RingInvariant B) {t : Transport} {K : Ikcp κ}
  {cb : Callbacks Circle κ}

section Pieces

theorem rings_recv {x : EStateM Fault Circle α} (hx : Keeps B x B) :
    Keeps (Rings B : Sock Circle κ → Prop) (recv x) (Rings B) where
  returns hs hrun := by
    obtain ⟨c, hring, rfl⟩ := recv_eq_ok hrun
    exact ⟨hx.returns hs.1 hring, hs.2⟩
  faults hs hrun := by
    obtain ⟨c, hring, rfl⟩ := recv_eq_error hrun
    exact ⟨hx.faults hs.1 hring, hs.2⟩

private theorem rings_send {x : EStateM Fault Circle α} (hx : Keeps B x B) :
    Keeps (Rings B : Sock Circle κ → Prop) (send x) (Rings B) where
  returns hs hrun := by
    obtain ⟨c, hring, rfl⟩ := send_eq_ok hrun
    exact ⟨hs.1, hx.returns hs.2 hring⟩
  faults hs hrun := by
    obtain ⟨c, hring, rfl⟩ := send_eq_error hrun
    exact ⟨hs.1, hx.faults hs.2 hring⟩

private theorem rings_socketDo (f : Asio κ → Asio κ) :
    Keeps (Rings B : Sock Circle κ → Prop) (socketDo f) (Rings B) := .modify fun _ h => h

private theorem rings_start (operation : Operation) :
    Keeps (Rings B : Sock Circle κ → Prop) (start operation) (Rings B) := rings_socketDo _

private theorem rings_nextAnswer : Keeps (Rings B : Sock Circle κ → Prop) nextAnswer (Rings B) := by
  refine .look fun s _ => ?_
  split
  · exact .pure fun _ h => h
  · exact .bind (rings_socketDo _) fun _ => .pure fun _ h => h

private theorem rings_sendDatagram (bytes : List UInt8) :
    Keeps (Rings B : Sock Circle κ → Prop) (sendDatagram bytes) (Rings B) :=
  .bind rings_nextAnswer fun _ =>
    .ite (fun _ => .bind (rings_socketDo _) fun _ => .pure fun _ h => h) fun _ => .pure fun _ h => h

include R

private theorem rings_resetRecv : Keeps (Rings B : Sock Circle κ → Prop) resetRecv (Rings B) :=
  .bind (Q := fun _ => Rings B) (.modify fun _ h => ⟨R.reset h.1, h.2⟩) fun _ => rings_socketDo _

private theorem rings_resetSend : Keeps (Rings B : Sock Circle κ → Prop) resetSend (Rings B) :=
  .bind (Q := fun _ => Rings B) (.modify fun _ h => ⟨h.1, R.reset h.2⟩) fun _ => rings_socketDo _

private theorem rings_framed : Framed t (fun _ : Unit => (Rings B : Sock Circle κ → Prop)) (Rings B) where
  exit h := h
  noted _ := rings_socketDo _
  state _ h := h
  steered _ h := h
  resets _ _ := ⟨rings_resetRecv R, rings_resetSend R⟩
  releases _ _ := .bind (rings_socketDo _) fun _ => rings_socketDo _

end Pieces

structure Gentle (B : Circle → Prop) (cb : Callbacks Circle κ) : Prop where
  obeys : Obeys (fun _ : Unit => Rings B) (Rings B) cb
  recv : ∀ i r, Keeps (Rings B) (cb.onRecv i r) (Rings B)

section Functions
variable (hcb : Gentle B cb)
include R

private theorem rings_doRead : Keeps (Rings B : Sock Circle κ → Prop) (doRead t) (Rings B) := by
  cases t with
  | tcp => exact rings_start _
  | udp => exact .bind (rings_recv R.space) fun _ => .look fun _ _ => rings_start _
  | kcp => exact rings_start _

omit R in
private theorem rings_doWriteTcp : Keeps (Rings B : Sock Circle κ → Prop) doWriteTcp (Rings B) :=
  .look fun _ _ => .ite (fun _ =>
    .ite (fun _ => .bind (rings_socketDo _) fun _ => rings_start _) fun _ => .pure fun _ h => h)
    fun _ => .pure fun _ h => h

private theorem rings_stagedBytes (count : UInt64) :
    Keeps (Rings B : Sock Circle κ → Prop) (stagedBytes count) (Rings B) := by
  have hload (d : Data) (start n : UInt64) : Keeps (Rings B : Sock Circle κ → Prop) (d.load start n)
      (Rings B) :=
    .ite (fun _ => .pure fun _ h => h) fun _ => .throw fun _ h => h
  have hstore (d : Data) (start : UInt64) (bytes : List UInt8) :
      Keeps (Rings B : Sock Circle κ → Prop) (d.store start bytes) (Rings B) :=
    .ite (fun _ => .pure fun _ h => h) fun _ => .throw fun _ h => h
  refine .look fun s _ => .bind (rings_send (Circle.keeps_peekStart _)) fun first =>
    .bind (hstore _ _ _) fun staged => ?_
  refine .bind (rings_send (R.remove _)) fun _ => .look fun s _ =>
    .bind (rings_send (Circle.keeps_peekStart _)) fun second => ?_
  exact .bind (hstore _ _ _) fun staged => hload _ _ _

private theorem rings_doWriteKcp (fuel : Nat) : Keeps (Rings B) (doWriteKcp K fuel) (Rings B) := by
  induction fuel with
  | zero => exact .throw fun _ h => h
  | succ fuel ih =>
    refine .look fun s _ => ?_
    split
    · exact .pure fun _ h => h
    · refine .ite (fun _ => ?_) fun _ => .pure fun _ h => h
      refine .bind (rings_send (Circle.keeps_peekStart _)) fun bytes => .bind (rings_socketDo _) fun _ => ?_
      exact .bind (rings_send (R.remove _)) fun _ => ih

variable (hobeys : Obeys (fun _ : Unit => Rings B) (Rings B) cb)

include hobeys in
private theorem rings_close (t : Transport) : Keeps (Rings B) (close t cb) (Rings B) :=
  (rings_framed R).close (i := ()) hobeys

include hobeys in
private theorem rings_doWrite : Keeps (Rings B) (doWrite t K cb) (Rings B) := by
  cases t with
  | tcp => exact rings_doWriteTcp
  | udp =>
    have hrest (bytes : List UInt8) : Keeps (Rings B) (do
        let ec ← sendDatagram bytes
        if ec ≠ .success then close .udp cb else pure ()
        resetSend) (Rings B) := by
      refine .bind (rings_sendDatagram _) fun ec => .ite (fun _ => ?_) fun _ => rings_resetSend R
      exact .bind (rings_close R hobeys .udp) fun _ => rings_resetSend R
    refine .look fun s _ => .ite (fun _ => ?_) fun _ => .pure fun _ h => h
    refine .ite (fun _ => ?_) fun _ => ?_
    · exact .bind (rings_send (Circle.keeps_peekStart _)) hrest
    · exact .bind (rings_stagedBytes R _) hrest
  | kcp => exact .look fun _ _ => rings_doWriteKcp R _

/-- Every call of the application keeps the rings. -/
theorem rings_interface : Interface t K (fun _ : Unit => Rings B) id (Rings B) where
  steered _ h := h
  inRecv _ h := h
  opened := rings_send R.opened
  put w payload := rings_send (R.put w payload)
  flushed w := rings_send (R.flush w)
  destroyed w := rings_send (R.destroy w)
  undone w := rings_send (R.destroy w)
  write hcb := rings_doWrite R hcb
  disconnects hcb := (rings_framed R).disconnect (i := ()) hcb
  begins hcb := .bind (Q := fun _ => Rings B)
    (.look fun _ _ => .bind (rings_socketDo _) fun _ => rings_socketDo _)
    fun _ => (rings_framed R).close (i := ()) hcb
  framed := rings_framed R
  back h := h
  read := rings_doRead R
  dial _ := rings_start _

private theorem gentle_callbacks (fuel : Nat) : Gentle B (callbacks t K fuel) := by
  have hobeys (fuel : Nat) := (rings_interface R (t := t) (K := K)).callbacks fuel
  refine ⟨hobeys fuel, fun i r => ?_⟩
  cases fuel with
  | zero => exact .pure fun _ h => h
  | succ fuel =>
    change Keeps _ (applicationCode true _) _
    refine .look fun s _ => ?_
    split
    · exact .pure fun _ h => h
    · refine .bind (rings_socketDo _) fun _ => ?_
      exact .bind ((rings_interface R).perform (i := ()) (hobeys fuel) _) fun _ => rings_socketDo _

include hcb

private theorem rings_onRead (rounds : Nat) : Keeps (Rings B) (onRead cb.onRecv rounds) (Rings B) := by
  have hround : Keeps (Rings B) (onReadRound cb.onRecv) (Rings B) := by
    refine .look fun s _ => .ite (fun _ => .pure fun _ h => h) fun _ =>
      .bind (rings_recv (R.read _ _)) fun bytes => ?_
    refine .look fun s _ => .ite (fun _ => .pure fun _ h => h) fun _ => ?_
    refine .bind (rings_recv (.bind (R.read _ _) fun _ => .pure fun _ h => h)) fun reader =>
      .look fun s _ => ?_
    refine .bind (hcb.recv _ _) fun _ => .bind (rings_recv (R.remove _)) fun _ => ?_
    exact .bind (Q := fun _ => Rings B) (.modify fun _ h => h) fun _ => .look fun _ _ => .pure fun _ h => h
  induction rounds with
  | zero => exact .throw fun _ h => h
  | succ rounds ih => exact .bind hround fun more => .ite (fun _ => ih) fun _ => .pure fun _ h => h

theorem rings_handleWaitWrite (ec : ErrorCode) : Keeps (Rings B) (handleWaitWrite cb ec) (Rings B) := by
  have honce : Keeps (Rings B : Sock Circle κ → Prop) sendOnce (Rings B) := by
    refine .look fun s _ => .bind (rings_send (Circle.keeps_peekStart _)) fun bytes =>
      .bind rings_nextAnswer fun answer => ?_
    refine .ite (fun _ => ?_) fun _ => .pure fun _ h => h
    exact .bind (rings_send (R.remove _)) fun _ => .bind (rings_socketDo _) fun _ => .pure fun _ h => h
  have hloop (fuel : Nat) : Keeps (Rings B) (sendLoop cb fuel) (Rings B) := by
    induction fuel with
    | zero => exact .throw fun _ h => h
    | succ fuel ih =>
      refine .bind honce fun ec => ?_
      split
      · exact .look fun s _ => .ite (fun _ => ih) fun _ => .pure fun _ h => h
      · exact .pure fun _ h => h
      · exact .bind (rings_close R hcb.obeys .tcp) fun _ => .pure fun _ h => h
  refine .ite (fun _ => rings_close R hcb.obeys .tcp) fun _ => .look fun s _ => .bind (hloop _) fun more => ?_
  exact .ite (fun _ => .bind (rings_socketDo _) fun _ => rings_doWriteTcp) fun _ => .pure fun _ h => h

private theorem rings_handleWaitRead (rounds : Nat) (ec : ErrorCode) :
    Keeps (Rings B) (handleWaitRead cb rounds ec) (Rings B) := by
  have hloop (fuel : Nat) : Keeps (Rings B) (receiveLoop cb rounds fuel) (Rings B) := by
    induction fuel with
    | zero => exact .throw fun _ h => h
    | succ fuel ih =>
      refine .bind (rings_recv R.space) fun size => .ite (fun _ => .pure fun _ h => h) fun _ =>
        .bind rings_nextAnswer fun answer => ?_
      -- the chunk is stored and read, and then the error code decides how to go on
      have hchunk {code : EStateM Fault (Sock Circle κ) Bool}
        (hcode : Keeps (Rings B) code (Rings B)) (bytes : List UInt8) :
          Keeps (Rings B) (do
            if bytes ≠ [] then
              recv (Circle.pokeEnd bytes)
              recv (Circle.written (UInt64.ofNat bytes.length))
              note (.received bytes)
              onRead cb.onRecv rounds
            code) (Rings B) := by
        refine .ite (fun _ => ?_) fun _ => hcode
        refine .bind (rings_recv (R.toLasting.pokeEnd _)) fun _ =>
          .bind (rings_recv (R.toLasting.written _)) fun _ => ?_
        exact .bind (rings_socketDo _) fun _ => .bind (rings_onRead R hcb rounds) fun _ => hcode
      have hclose : Keeps (Rings B) (do
          close .tcp cb
          pure false : EStateM Fault (Sock Circle κ) Bool) (Rings B) :=
        .bind (rings_close R hcb.obeys .tcp) fun _ => .pure fun _ h => h
      obtain ⟨code, data, count⟩ := answer
      cases code with
      | success => exact hchunk ih _
      | wouldBlock => exact hchunk (.pure fun _ h => h) _
      | operationAborted => exact hchunk hclose _
      | failure => exact hchunk hclose _
  refine .ite (fun _ => rings_close R hcb.obeys .tcp) fun _ => .look fun s _ => .bind (hloop _) fun more => ?_
  exact .ite (fun _ => rings_doRead R) fun _ => .pure fun _ h => h

private theorem rings_handleReceiveUdp (rounds : Nat) (place space : UInt64) (ec : ErrorCode)
    (data : List UInt8) :
    Keeps (Rings B) (handleReceiveUdp cb rounds place space ec data) (Rings B) := by
  refine .ite (fun _ => rings_close R hcb.obeys .udp) fun _ => .get fun s hs => ?_
  refine .bind ((Data.keeps_store _ _ _).relax fun u hu => hu ▸ hs) fun stored => .given fun hstored => ?_
  refine .bind (Q := fun _ => Rings B) (.modify fun u hu => ?_) fun _ => ?_
  · subst hu
    exact ⟨R.stored hs.1 hstored.1 hstored.2, hs.2⟩
  · refine .bind (rings_recv (R.toLasting.written _)) fun _ => .bind (rings_socketDo _) fun _ =>
      .bind (rings_onRead R hcb rounds) fun _ => ?_
    exact .bind (rings_resetRecv R) fun _ => rings_doRead R

private theorem rings_handleReceiveKcp (ec : ErrorCode) (data : List UInt8) :
    Keeps (Rings B) (handleReceiveKcp K cb ec data) (Rings B) := by
  refine .ite (fun _ => rings_close R hcb.obeys .kcp) fun _ => .bind (rings_socketDo _) fun _ =>
    .bind (rings_socketDo _) fun _ => ?_
  refine .look fun s _ => .ite (fun _ => .pure fun _ h => h) fun _ => ?_
  have hlast : Keeps (Rings B : Sock Circle κ → Prop) (do
      socketDo fun a => { a with kcp := a.kcp.map fun block => K.input block (data.take kcpBufferSize.toNat) }
      doRead .kcp) (Rings B) := .bind (rings_socketDo _) fun _ => rings_doRead R
  exact .ite (fun _ => .bind (rings_socketDo _) fun _ => .bind (rings_doWrite R hcb.obeys) fun _ =>
    hlast) fun _ => hlast

private theorem rings_update (rounds : Nat) (current : UInt32) :
    Keeps (Rings B) (update K cb rounds current) (Rings B) := by
  have houtput (datagrams : List (List UInt8)) : Keeps (Rings B) (output cb datagrams) (Rings B) := by
    induction datagrams with
    | nil => exact .pure fun _ h => h
    | cons bytes datagrams ih =>
      refine .bind (rings_sendDatagram _) fun ec => .ite (fun _ => ?_) fun _ => ih
      exact .bind (rings_close R hcb.obeys .kcp) fun _ => .throw fun _ h => h
  refine .look fun s _ => ?_
  split
  · exact .pure fun _ h => h
  · refine .bind (houtput _) fun _ => .bind (rings_socketDo _) fun _ =>
      .bind (rings_recv R.space) fun size => ?_
    refine .bind (rings_socketDo _) fun _ => .ite (fun _ => ?_) fun _ => .pure fun _ h => h
    exact .bind (rings_recv (R.toLasting.pokeEnd _)) fun _ =>
      .bind (rings_recv (R.toLasting.written _)) fun _ => rings_onRead R hcb rounds

private theorem rings_handle (rounds : Nat) (operation : Operation) (ec : ErrorCode) (data : List UInt8) :
    Keeps (Rings B) (handle t K cb rounds operation ec data) (Rings B) := by
  have hidle : Keeps (Rings B : Sock Circle κ → Prop) (pure () : EStateM Fault (Sock Circle κ) Unit)
      (Rings B) := .pure fun _ h => h
  cases t with
  | tcp =>
    cases operation with
    | connect =>
      exact .ite (fun _ => (rings_interface R).connected (i := ()) hcb.obeys) fun _ =>
        (rings_framed R).disconnect (i := ()) hcb.obeys
    | waitRead => exact rings_handleWaitRead R hcb rounds ec
    | waitWrite => exact rings_handleWaitWrite R hcb ec
    | receive _ _ => exact hidle
  | udp =>
    cases operation with
    | receive place space => exact rings_handleReceiveUdp R hcb rounds place space ec data
    | _ => exact hidle
  | kcp =>
    cases operation with
    | receive place space => exact rings_handleReceiveKcp R hcb ec data
    | _ => exact hidle

private theorem rings_event (rounds : Nat) (e : ConnectorEvent) :
    Keeps (Rings B) (event t K rounds cb e) (Rings B) := by
  cases e with
  | call call => exact (rings_interface R).perform (i := ()) hcb.obeys [call]
  | complete i ec data =>
    refine .look fun s _ => ?_
    split
    · exact .pure fun _ h => h
    · exact .bind (rings_socketDo _) fun _ => rings_handle R hcb rounds _ ec data
  | tick current => exact .ite (fun _ => rings_update R hcb rounds current) fun _ => .pure fun _ h => h

end Functions

include R in
/-- One event, also when an exception leaves it. -/
theorem rings_step {s s' : Sock Circle κ} {e : ConnectorEvent × Surroundings} (h : Rings B s)
    (hstep : ConnectorStep t K s e s') :
    Rings B s' := by
  obtain ⟨-, rfl⟩ := hstep
  have hevent := rings_event R (t := t) (K := K)
    (gentle_callbacks R (t := t) (K := K) e.2.scripts.length) e.2.rounds e.1
  have hstart : Rings B (surrounded e.2 s) := h
  rw [afterEvent]
  cases hrun : event t K e.2.rounds (callbacks t K e.2.scripts.length) e.1 (surrounded e.2 s) with
  | ok u v => exact show Rings B v from hevent.returns hstart hrun
  | error fault v => exact show Rings B v from hevent.faults hstart hrun

end Connection

theorem RingInvariant.and {B B' : Circle → Prop} (R : RingInvariant B) (R' : RingInvariant B') :
    RingInvariant fun c => B c ∧ B' c where
  toLasting := R.toLasting.and R'.toLasting
  reset h := ⟨R.reset h.1, R'.reset h.2⟩
  head n h := ⟨R.head n h.1, R'.head n h.2⟩

theorem ringInvariant_sized {P : Nat → UInt64 → Prop} (hgrow : Circle.Grows P) :
    RingInvariant (Circle.Sized P) where
  toLasting := Circle.sized_lasting hgrow
  reset h := h
  head _ h := h

private theorem ringInvariant_sound : RingInvariant Circle.Sound where
  toLasting := Circle.sound_lasting
  reset h := ⟨h.pow, h.growth, Nat.lt_of_le_of_lt (Nat.zero_le _) h.head_lt⟩
  head n h := ⟨h.pow, h.growth, h.mod_lt n⟩

/-- A ring of at most 262144 bytes whose cursor is inside of the array and whose
count leaves one byte free. -/
structure Circle.Bounded (c : Circle) : Prop where
  size : ∃ i ≤ 4, c.data.mem.length = 1024 * 4 ^ i
  head_lt : c.head.toNat < c.data.mem.length
  count_lt : c.getCount.toNat < c.data.mem.length

theorem Circle.bounded {c : Circle} (h : c.Sound) (hsize : Sized Ladder c) : c.Bounded where
  size := hsize.2
  head_lt := h.head_lt
  count_lt := by
    have hlt := h.normal_valid.length_lt
    rw [h.normal_valid.length_contents, h.getCount_normal] at hlt
    exact hlt

/-- A connection never holds more than its two rings of 262144 bytes: whatever the
application calls, wherever it calls it, and whatever arrives, fails or throws. -/
theorem rings_stay_bounded {κ : Type} (t : Transport) (K : Ikcp κ)
    {events : List (ConnectorEvent × Surroundings)} {s : Sock Circle κ}
    (hrun : Run (Connection.ConnectorStep t K) connector events s) :
    s.recvBuff.Bounded ∧ s.sendBuff.Bounded := by
  have R := ringInvariant_sound.and (ringInvariant_sized Circle.grows_ladder)
  have hfresh : Circle.Sound freshBuffer ∧ Circle.Sized Ladder freshBuffer :=
    ⟨freshBuffer_valid.1.sound, rfl, 0, by decide, List.length_replicate⟩
  have hrings : Rings (fun c => c.Sound ∧ c.Sized Ladder) s :=
    hrun.invariant (fun h hstep => Connection.rings_step R h hstep) ⟨hfresh, hfresh⟩
  exact ⟨Circle.bounded hrings.1.1 hrings.1.2, Circle.bounded hrings.2.1 hrings.2.2⟩

/-- A call that fails, and one that sends. -/
theorem rings_stay_bounded_sending : ∃ s, Run (Connection.ConnectorStep .udp noKcp) connector
    [(.call .connect, {}), (.call (.send [7]), {})] s ∧ s.recvBuff.Bounded ∧ s.sendBuff.Bounded := by
  have hrun : Run (Connection.ConnectorStep .udp noKcp) connector
      [(.call .connect, {}), (.call (.send [7]), {})] _ :=
    .cons ⟨rfl, rfl⟩ (.cons ⟨rfl, rfl⟩ (.nil _))
  exact ⟨_, hrun, rings_stay_bounded .udp noKcp hrun⟩

end SimpleNetwork
