import SimpleNetwork.Asio.Marks
import SimpleNetwork.Base.Annotated
import SimpleNetwork.Base.Runs

/-! Without its marks a marked connector is the connector, call by call and in every run. -/
namespace SimpleNetwork
open Words Outcome Runs

namespace Provenance
section Calls
variable {κ α : Type}

/-- A marked computation does to the connector what the computation without marks does. -/
abbrev Unmarks (m : Act κ α) (x : EStateM Fault (Sock Circle κ) α) : Prop := Erases Line.conn m x

variable {x : EStateM Fault (Sock Circle κ) α}

private theorem unmarks_watch (f : Sock Circle κ → EStateM.Result Fault (Sock Circle κ) α → Marks →
      Marks) : Unmarks (watch x f) x := by
  intro l
  unfold watch
  cases x l.conn <;> rfl

private theorem unmarks_real : Unmarks (real x) x := unmarks_watch _

private theorem unmarks_following (f : Sock Circle κ → Marks → Marks) : Unmarks (following x f) x :=
  unmarks_watch _

private theorem unmarks_noting {f : Sock Circle κ → Marks → Marks} {k : PUnit → Act κ α}
    (hk : Unmarks (k ⟨⟩) x) :
    Unmarks (noting f >>= k) x :=
  Erases.annotate (fun _ => rfl) hk

private theorem unmarks_get {f : Sock Circle κ → Act κ α}
    {g : Sock Circle κ → EStateM Fault (Sock Circle κ) α}
    (hf : ∀ s, Unmarks (f s) (g s)) : Unmarks (real get >>= f) (get >>= g) :=
  Erases.bind unmarks_real hf

private theorem unmarks_noted (f : Sock Circle κ → Marks → Marks) : Unmarks (noting f) (pure ⟨⟩) :=
  fun _ => rfl

private theorem unmarks_whileBusy {m : Act κ Unit} {x : EStateM Fault (Sock Circle κ) Unit}
    (h : Unmarks m x) :
    Unmarks (whileBusy m) x := by
  refine Erases.look fun l => unmarks_noting ?_
  have hafter := Erases.bind h fun _ => unmarks_noted fun _ g => { g with busy := l.marks.busy }
  simpa using hafter

end Calls

section Sockets
variable {κ : Type} {t : Transport} {K : Ikcp κ} {cb : Callbacks κ} {cb' : SimpleNetwork.Callbacks Circle κ}

structure Callbacks.Unmarked (cb : Callbacks κ) (cb' : SimpleNetwork.Callbacks Circle κ) : Prop where
  onConnected : Unmarks cb.onConnected cb'.onConnected
  onDisconnected : Unmarks cb.onDisconnected cb'.onDisconnected
  onRecv (i : Nat) (r : Reader) : Unmarks (cb.onRecv i r) (cb'.onRecv i r)

/-- Bytes that arrive are stored and counted in one call here. -/
private theorem unmarks_arrive {mark : Marks → Mark} {bytes : List UInt8} {count : UInt64}
    {β : Type} {k : PUnit → Act κ β}
    {k' : PUnit → EStateM Fault (Sock Circle κ) β} (hk : ∀ a, Unmarks (k a) (k' a)) :
    Unmarks (arrive mark bytes count >>= k)
      (Connection.recv (Circle.pokeEnd bytes) >>= fun _ =>
        Connection.recv (Circle.written count) >>= k') := by
  rw [← bind_assoc]
  exact Erases.bind (unmarks_following _) hk

variable (hcb : cb.Unmarked cb')
include hcb

private theorem unmarks_onClose : Unmarks (onClose cb) (Connection.onClose cb') := by
  refine unmarks_get fun s => Erases.ite ?_ (Erases.pure _)
  refine Erases.bind unmarks_real fun _ => ?_
  exact Erases.bind unmarks_real fun _ => hcb.onDisconnected

private theorem unmarks_close : Unmarks (close t cb) (Connection.close t cb') := by
  refine unmarks_noting ?_
  cases t with
  | tcp =>
    refine Erases.bind unmarks_real fun _ => ?_
    refine Erases.bind (unmarks_following _) fun _ => ?_
    refine Erases.bind (unmarks_following _) fun _ => ?_
    exact Erases.bind unmarks_real fun _ => unmarks_onClose hcb
  | udp => exact Erases.bind unmarks_real fun _ => unmarks_onClose hcb
  | kcp =>
    refine Erases.bind unmarks_real fun _ => ?_
    refine Erases.bind (unmarks_onClose hcb) fun _ => ?_
    exact unmarks_get fun s => Erases.ite unmarks_real (Erases.pure _)

private theorem unmarks_disconnect : Unmarks (disconnect t cb) (Connection.disconnect t cb') := by
  refine unmarks_get fun s => Erases.ite (Erases.pure _) ?_
  refine Erases.bind unmarks_real fun _ => ?_
  refine Erases.bind (unmarks_close hcb) fun _ => ?_
  exact Erases.bind unmarks_real fun _ => hcb.onDisconnected

omit hcb in
private theorem unmarks_start (operation : Operation) :
    Unmarks (start operation : Act κ Unit) (Connection.start operation) :=
  unmarks_following _

omit hcb in
private theorem unmarks_doRead : Unmarks (doRead t : Act κ Unit) (Connection.doRead t) := by
  cases t with
  | tcp => exact unmarks_start _
  | udp => exact Erases.bind unmarks_real fun space => unmarks_get fun s => unmarks_start _
  | kcp => exact unmarks_start _

omit hcb in
private theorem unmarks_doWriteTcp : Unmarks (doWriteTcp : Act κ Unit) Connection.doWriteTcp := by
  refine unmarks_get fun s => Erases.ite ?_ (Erases.pure _)
  exact Erases.ite (Erases.bind unmarks_real fun _ => unmarks_start _) (Erases.pure _)

private theorem unmarks_doWriteUdp : Unmarks (doWriteUdp cb) (Connection.doWriteUdp cb') := by
  refine unmarks_get fun s => Erases.ite ?_ (Erases.pure _)
  have hsend (bytes : List UInt8) : Unmarks (do
      hand bytes
      let ec ← real (Connection.sendDatagram bytes)
      if ec ≠ .success then whileBusy (close .udp cb) else pure ()
      resetSend) (do
      let ec ← Connection.sendDatagram bytes
      if ec ≠ .success then Connection.close .udp cb' else pure ()
      Connection.resetSend) := by
    refine unmarks_noting ?_
    refine Erases.bind unmarks_real fun ec => ?_
    split
    · exact Erases.bind (unmarks_whileBusy (unmarks_close hcb)) fun _ => unmarks_following _
    · exact unmarks_following _
  split
  · exact Erases.bind unmarks_real hsend
  · exact Erases.bind unmarks_real hsend

omit hcb in
private theorem unmarks_doWriteKcp (fuel : Nat) :
    Unmarks (doWriteKcp K fuel) (Connection.doWriteKcp K fuel) := by
  induction fuel with
  | zero => exact Erases.throw _
  | succ fuel ih =>
    refine unmarks_get fun s => ?_
    cases s.socket.kcp with
    | none => exact Erases.pure _
    | some block =>
      refine Erases.ite ?_ (Erases.pure _)
      refine Erases.bind unmarks_real fun bytes => ?_
      refine unmarks_noting ?_
      refine Erases.bind unmarks_real fun _ => ?_
      exact Erases.bind (unmarks_following _) fun _ => ih

private theorem unmarks_doWrite : Unmarks (doWrite t K cb) (Connection.doWrite t K cb') := by
  cases t with
  | tcp => exact unmarks_doWriteTcp
  | udp => exact unmarks_doWriteUdp hcb
  | kcp => exact unmarks_get fun s => unmarks_doWriteKcp _

private theorem unmarks_openSocket : Unmarks (openSocket t K cb) (Connection.openSocket t K cb') := by
  cases t with
  | tcp =>
    refine Erases.bind unmarks_real fun _ => ?_
    refine Erases.bind unmarks_real fun _ => ?_
    exact Erases.bind (unmarks_start _) fun _ => unmarks_doWriteTcp
  | udp =>
    refine Erases.bind unmarks_real fun _ => ?_
    refine Erases.bind unmarks_real fun _ => ?_
    exact Erases.bind unmarks_doRead fun _ => unmarks_doWrite hcb
  | kcp =>
    refine Erases.bind unmarks_real fun _ => ?_
    refine Erases.bind unmarks_real fun _ => ?_
    exact Erases.bind unmarks_doRead fun _ => unmarks_doWrite hcb

private theorem unmarks_connected : Unmarks (connected t K cb) (Connection.connected t K cb') := by
  refine unmarks_get fun s => Erases.ite ?_ (Erases.pure _)
  refine Erases.bind unmarks_real fun _ => ?_
  refine Erases.bind unmarks_real fun _ => ?_
  exact Erases.bind hcb.onConnected fun _ => unmarks_openSocket hcb

/-- `connect()` of udp and kcp, after its `close()`. -/
private theorem unmarks_connectDatagram : Unmarks (do
      real Connection.openDatagram
      real Connection.nonBlocking
      real Connection.attempt
      real Connection.attempt
      real (Connection.setState .connecting)
      let answer ← real Connection.nextAnswer
      if answer.ec ≠ .success then disconnect t cb
      else
        let ec ← real (Connection.sendDatagram (le32 0))
        if ec = .success then connected t K cb else disconnect t cb) (do
      Connection.openDatagram
      Connection.nonBlocking
      Connection.attempt
      Connection.attempt
      Connection.setState .connecting
      let answer ← Connection.nextAnswer
      if answer.ec ≠ .success then Connection.disconnect t cb'
      else
        let ec ← Connection.sendDatagram (le32 0)
        if ec = .success then Connection.connected t K cb' else Connection.disconnect t cb') := by
  refine Erases.bind unmarks_real fun _ => ?_
  refine Erases.bind unmarks_real fun _ => ?_
  refine Erases.bind unmarks_real fun _ => ?_
  refine Erases.bind unmarks_real fun _ => ?_
  refine Erases.bind unmarks_real fun _ => ?_
  refine Erases.bind unmarks_real fun answer => ?_
  refine Erases.ite (unmarks_disconnect hcb) ?_
  refine Erases.bind unmarks_real fun ec => ?_
  exact Erases.ite (unmarks_connected hcb) (unmarks_disconnect hcb)

private theorem unmarks_connect : Unmarks (connect t K cb) (Connection.connect t K cb') := by
  refine Erases.bind unmarks_real fun _ => ?_
  refine Erases.bind (unmarks_close hcb) fun _ => ?_
  refine unmarks_noting ?_
  cases t with
  | tcp =>
    refine Erases.bind unmarks_real fun _ => ?_
    exact Erases.bind unmarks_real fun _ => unmarks_start _
  | udp => exact unmarks_connectDatagram hcb
  | kcp => exact unmarks_connectDatagram hcb

omit hcb in
private theorem unmarks_holding {α : Type} (w : Writer) {m : Act κ α}
    {x : EStateM Fault (Sock Circle κ) α} (h : Unmarks m x) :
    Unmarks (holding w m) (Connection.holding w x) :=
  Erases.tryCatch h fun _ => Erases.bind (unmarks_following _) fun _ => Erases.throw _

private theorem unmarks_sendPacket (payload : List UInt8) :
    Unmarks (sendPacket t K cb payload) (Connection.sendPacket t K cb' payload) := by
  refine Erases.bind (unmarks_watch _) fun w => ?_
  refine Erases.bind (unmarks_holding w (unmarks_watch _)) fun w => ?_
  refine Erases.bind (unmarks_holding w ?_) fun _ => unmarks_following _
  exact Erases.bind (unmarks_watch _) fun _ => unmarks_doWrite hcb

private theorem unmarks_perform (calls : List Call) :
    Unmarks (perform t K cb calls) (Connection.perform t K cb' calls) := by
  induction calls with
  | nil => exact Erases.pure _
  | cons call calls ih =>
    cases call with
    | connect => exact Erases.bind (unmarks_connect hcb) fun _ => ih
    | disconnect => exact Erases.bind (unmarks_disconnect hcb) fun _ => ih
    | send payload => exact Erases.bind (unmarks_sendPacket hcb payload) fun _ => ih

omit hcb in
private theorem unmarks_applicationCode (fromRecv : Bool) {body : List Call → Act κ Unit}
    {body' : List Call → EStateM Fault (Sock Circle κ) Unit}
    (h : ∀ calls, Unmarks (body calls) (body' calls)) :
    Unmarks (applicationCode fromRecv body) (Connection.applicationCode fromRecv body') := by
  refine unmarks_get fun s => ?_
  cases s.socket.scripts with
  | nil => exact Erases.pure _
  | cons script scripts =>
    refine Erases.bind unmarks_real fun _ => ?_
    exact Erases.bind (h script) fun _ => unmarks_real

omit hcb in
private theorem callbacks_unmarked (fuel : Nat) :
    (callbacks t K fuel).Unmarked (Connection.callbacks t K fuel) := by
  induction fuel with
  | zero => exact ⟨Erases.pure _, Erases.pure _, fun _ _ => Erases.pure _⟩
  | succ fuel ih =>
    have hbody := fun fromRecv => unmarks_applicationCode fromRecv (unmarks_perform (t := t) (K := K) ih)
    exact ⟨hbody false, hbody false, fun _ _ => hbody true⟩

private theorem unmarks_onReadRound : Unmarks (onReadRound cb) (Connection.onReadRound cb'.onRecv) := by
  refine unmarks_get fun s => Erases.ite (Erases.pure _) ?_
  refine Erases.bind unmarks_real fun bytes => ?_
  refine unmarks_get fun s => Erases.ite (Erases.pure _) ?_
  refine Erases.bind unmarks_real fun reader => ?_
  refine unmarks_get fun s => unmarks_noting ?_
  refine Erases.bind (unmarks_whileBusy (hcb.onRecv _ _)) fun _ => ?_
  refine Erases.bind (unmarks_following _) fun _ => ?_
  refine Erases.bind unmarks_real fun _ => ?_
  exact unmarks_get fun s => Erases.pure _

private theorem unmarks_onRead (rounds : Nat) :
    Unmarks (onRead cb rounds) (Connection.onRead cb'.onRecv rounds) := by
  induction rounds with
  | zero => exact Erases.throw _
  | succ rounds ih => exact Erases.bind (unmarks_onReadRound hcb) fun more => Erases.ite ih (Erases.pure _)

/-- What was received is delivered before the loop goes on. -/
private theorem unmarks_received (rounds : Nat) {bytes : List UInt8} {last : Act κ Bool}
    {last' : EStateM Fault (Sock Circle κ) Bool}
    (hlast : Unmarks last last') :
    Unmarks (if bytes ≠ [] then do
        arrive Marks.session bytes (UInt64.ofNat bytes.length)
        real (Connection.note (.received bytes))
        onRead cb rounds
        last
      else last) (if bytes ≠ [] then do
        Connection.recv (Circle.pokeEnd bytes)
        Connection.recv (Circle.written (UInt64.ofNat bytes.length))
        Connection.note (.received bytes)
        Connection.onRead cb'.onRecv rounds
        last'
      else last') := by
  refine Erases.ite ?_ hlast
  refine unmarks_arrive fun _ => ?_
  refine Erases.bind unmarks_real fun _ => ?_
  exact Erases.bind (unmarks_onRead hcb rounds) fun _ => hlast

private theorem unmarks_receiveLoop (rounds fuel : Nat) :
    Unmarks (receiveLoop cb rounds fuel) (Connection.receiveLoop cb' rounds fuel) := by
  induction fuel with
  | zero => exact Erases.throw _
  | succ fuel ih =>
    refine Erases.bind unmarks_real fun size => Erases.ite (Erases.pure _) ?_
    refine Erases.bind unmarks_real fun answer => ?_
    obtain ⟨ec, data, count⟩ := answer
    cases ec with
    | success => exact unmarks_received hcb rounds ih
    | wouldBlock => exact unmarks_received hcb rounds (Erases.pure _)
    | operationAborted =>
      exact unmarks_received hcb rounds (Erases.bind (unmarks_close hcb) fun _ => Erases.pure _)
    | failure => exact unmarks_received hcb rounds (Erases.bind (unmarks_close hcb) fun _ => Erases.pure _)

private theorem unmarks_handleWaitRead (rounds : Nat) (ec : ErrorCode) :
    Unmarks (handleWaitRead cb rounds ec) (Connection.handleWaitRead cb' rounds ec) := by
  refine Erases.ite (unmarks_close hcb) ?_
  refine unmarks_get fun s => ?_
  exact Erases.bind (unmarks_receiveLoop hcb _ _) fun more => Erases.ite unmarks_doRead (Erases.pure _)

omit hcb in
private theorem unmarks_sendOnce : Unmarks (sendOnce : Act κ ErrorCode) Connection.sendOnce := by
  refine unmarks_get fun s => ?_
  refine Erases.bind unmarks_real fun bytes => ?_
  refine Erases.bind unmarks_real fun answer => Erases.ite ?_ (Erases.pure _)
  refine unmarks_noting ?_
  refine Erases.bind (unmarks_following _) fun _ => ?_
  exact Erases.bind unmarks_real fun _ => Erases.pure _

private theorem unmarks_sendLoop (fuel : Nat) :
    Unmarks (sendLoop cb fuel) (Connection.sendLoop cb' fuel) := by
  induction fuel with
  | zero => exact Erases.throw _
  | succ fuel ih =>
    refine Erases.bind unmarks_sendOnce fun ec => ?_
    cases ec with
    | success => exact unmarks_get fun s => Erases.ite ih (Erases.pure _)
    | wouldBlock => exact Erases.pure _
    | operationAborted => exact Erases.bind (unmarks_close hcb) fun _ => Erases.pure _
    | failure => exact Erases.bind (unmarks_close hcb) fun _ => Erases.pure _

private theorem unmarks_handleWaitWrite (ec : ErrorCode) :
    Unmarks (handleWaitWrite cb ec) (Connection.handleWaitWrite cb' ec) := by
  refine Erases.ite (unmarks_close hcb) ?_
  refine unmarks_get fun s => ?_
  refine Erases.bind (unmarks_sendLoop hcb _) fun more => Erases.ite ?_ (Erases.pure _)
  exact Erases.bind unmarks_real fun _ => unmarks_doWriteTcp

omit hcb in
/-- A datagram that arrives is stored and counted in one call here. -/
private theorem unmarks_placed {mark : Mark} {place : UInt64} {bytes : List UInt8} {k : Act κ Unit}
    {k' : EStateM Fault (Sock Circle κ) Unit} (hk : Unmarks k k') :
    Unmarks (do
      let s ← real get
      placed mark place bytes s.recvBuff
      k) (do
      let s ← get
      let stored ← s.recvBuff.data.store place bytes
      modify fun s => { s with recvBuff := { s.recvBuff with data := stored } }
      Connection.recv (Circle.written (UInt64.ofNat bytes.length))
      k') := by
  intro l
  have hbind := Erases.bind (unmarks_following (x := (do
      let s ← get
      let stored ← s.recvBuff.data.store place bytes
      modify fun s => { s with recvBuff := { s.recvBuff with data := stored } }
      Connection.recv (Circle.written (UInt64.ofNat bytes.length)) :
        EStateM Fault (Sock Circle κ) Unit)) fun c g =>
        if place = l.conn.recvBuff.tail ∧
            bytes.length ≤
              (Circle.continguiousSpaceOf l.conn.recvBuff.head l.conn.recvBuff.tail
              l.conn.recvBuff.getSize).toNat then
          { g with recv := g.recv ++ marked mark bytes }
        else { g with recv := marked none c.recvBuff.contents, tainted := g.tainted || g.live })
          (fun _ => hk) l
  simp only [bind_assoc] at hbind
  exact hbind

private theorem unmarks_handleReceiveUdp (rounds : Nat) (mark : Mark) (place space : UInt64)
    (ec : ErrorCode) (data : List UInt8) :
    Unmarks (handleReceiveUdp cb rounds mark place space ec data)
      (Connection.handleReceiveUdp cb' rounds place space ec data) := by
  refine Erases.ite (unmarks_close hcb) ?_
  refine unmarks_placed ?_
  refine Erases.bind unmarks_real fun _ => ?_
  refine Erases.bind (unmarks_onRead hcb rounds) fun _ => ?_
  exact Erases.bind (unmarks_following _) fun _ => unmarks_doRead

private theorem unmarks_handleReceiveKcp (mark : Mark) (ec : ErrorCode) (data : List UInt8) :
    Unmarks (handleReceiveKcp K cb mark ec data) (Connection.handleReceiveKcp K cb' ec data) := by
  refine Erases.ite (unmarks_close hcb) ?_
  refine Erases.bind unmarks_real fun _ => ?_
  refine Erases.bind unmarks_real fun _ => ?_
  refine unmarks_get fun s => Erases.ite (Erases.pure _) ?_
  split
  · refine Erases.bind (unmarks_following _) fun _ => ?_
    refine Erases.bind (unmarks_doWrite hcb) fun _ => ?_
    exact Erases.bind (unmarks_following _) fun _ => unmarks_doRead
  · exact Erases.bind (unmarks_following _) fun _ => unmarks_doRead

private theorem unmarks_output (datagrams : List (List UInt8)) :
    Unmarks (output cb datagrams) (Connection.output cb' datagrams) := by
  induction datagrams with
  | nil => exact Erases.pure _
  | cons bytes rest ih =>
    refine Erases.bind unmarks_real fun ec => Erases.ite ?_ ih
    exact Erases.bind (unmarks_close hcb) fun _ => Erases.throw _

private theorem unmarks_update (rounds : Nat) (current : UInt32) :
    Unmarks (update K cb rounds current) (Connection.update K cb' rounds current) := by
  refine unmarks_get fun s => ?_
  cases s.socket.kcp with
  | none => exact Erases.pure _
  | some block =>
    refine Erases.bind (unmarks_output hcb _) fun _ => ?_
    refine Erases.bind unmarks_real fun _ => ?_
    refine Erases.bind unmarks_real fun size => ?_
    refine Erases.bind unmarks_real fun _ => ?_
    exact Erases.ite (unmarks_arrive fun _ => unmarks_onRead hcb rounds) (Erases.pure _)

private theorem unmarks_handle (rounds : Nat) (mark : Mark) (operation : Operation) (ec : ErrorCode)
    (data : List UInt8) :
    Unmarks (handle t K cb rounds mark operation ec data)
      (Connection.handle t K cb' rounds operation ec data) := by
  cases t with
  | tcp =>
    cases operation with
    | connect => exact Erases.ite (unmarks_connected hcb) (unmarks_disconnect hcb)
    | waitRead => exact unmarks_handleWaitRead hcb _ _
    | waitWrite => exact unmarks_handleWaitWrite hcb _
    | receive place space => exact Erases.pure _
  | udp =>
    cases operation with
    | receive place space => exact unmarks_handleReceiveUdp hcb _ _ _ _ _ _
    | connect => exact Erases.pure _
    | waitRead => exact Erases.pure _
    | waitWrite => exact Erases.pure _
  | kcp =>
    cases operation with
    | receive place space => exact unmarks_handleReceiveKcp hcb _ _ _
    | connect => exact Erases.pure _
    | waitRead => exact Erases.pure _
    | waitWrite => exact Erases.pure _

private theorem unmarks_event (rounds : Nat) (e : ConnectorEvent) :
    Unmarks (event t K cb rounds e) (Connection.event t K rounds cb' e) := by
  cases e with
  | call call => exact unmarks_perform hcb [call]
  | complete i ec data =>
    refine Erases.get fun l => ?_
    dsimp only
    cases l.conn.socket.pending[i]? with
    | none => exact Erases.pure _
    | some p => exact Erases.bind (unmarks_following _) fun _ => unmarks_handle hcb _ _ _ _ _
  | tick current => exact Erases.ite (unmarks_update hcb _ _) (Erases.pure _)

end Sockets

section Histories
variable {κ : Type} {t : Transport} {K : Ikcp κ}

private theorem next_conn (l : Line κ) (e : ConnectorEvent × Surroundings) :
    (next t K l e).conn = Connection.afterEvent t K l.conn e := by
  have hcb : (callbacks t K e.2.scripts.length).Unmarked
      (Connection.callbacks t K e.2.scripts.length) := callbacks_unmarked _
  have hevent := unmarks_event (t := t) (K := K) hcb e.2.rounds e.1
    { l with conn := Connection.surrounded e.2 l.conn }
  unfold next Connection.afterEvent
  rw [← hevent]
  cases event t K (callbacks t K e.2.scripts.length) e.2.rounds e.1
    { l with conn := Connection.surrounded e.2 l.conn } <;> rfl

/-- A run of the connector is the history of its events without the marks. -/
theorem history_conn {s : Sock Circle κ} {es : List (ConnectorEvent × Surroundings)}
    (hrun : Run (Connection.ConnectorStep t K) connector es s) : (history t K es).conn = s := by
  have hfold (l : Line κ) (hl : Run (Connection.ConnectorStep t K) l.conn es s) :
      (es.foldl (next t K) l).conn = s := by
    clear hrun
    induction es generalizing l with
    | nil =>
      cases hl
      rfl
    | cons e es ih =>
      cases hl with
      | cons hstep hrest =>
        rw [hstep.2, ← next_conn l e] at hrest
        exact ih _ hrest
  exact hfold ⟨connector, {}⟩ hrun

end Histories
end Provenance
end SimpleNetwork
