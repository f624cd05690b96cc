import SimpleNetwork.Asio.Interface
import SimpleNetwork.Asio.Marks
import SimpleNetwork.Buffer.CircleQueue

/-! In a session the buffers and the control block of a connector hold only what belongs
to it, as long as every step meets its condition. The invariant ties the marks to the
contents of both rings, so that a call on a ring is answered by what it does to them. -/
namespace SimpleNetwork
open Words Outcome

namespace Provenance
variable {κ : Type}

section Rules
variable {α β : Type} {x : EStateM Fault (Sock Circle κ) α}
  {f : Sock Circle κ → EStateM.Result Fault (Sock Circle κ) α → Marks → Marks}
  {P E : Line κ → Prop} {Q : α → Line κ → Prop} {R : β → Line κ → Prop}

/-- A call with its effect on the marks. -/
theorem triple_watch (hret : ∀ {l a c}, P l → x l.conn = .ok a c → Q a ⟨c, f l.conn (.ok a c) l.marks⟩)
    (hfault : ∀ {l e c}, P l → x l.conn = .error e c →
      E ⟨c, f l.conn (.error e c) l.marks⟩) : Triple P (watch x f) Q E where
  returns {l a l'} hl hr := by
    unfold watch at hr
    cases hx : x l.conn with
    | ok b c =>
      rw [hx] at hr
      cases hr
      exact hret hl hx
    | error e c =>
      rw [hx] at hr
      cases hr
  faults {l e l'} hl hr := by
    unfold watch at hr
    cases hx : x l.conn with
    | ok b c =>
      rw [hx] at hr
      cases hr
    | error e c =>
      rw [hx] at hr
      cases hr
      exact hfault hl hx

theorem triple_following {g : Sock Circle κ → Marks → Marks}
    (hret : ∀ {l a c}, P l → x l.conn = .ok a c → Q a ⟨c, g c l.marks⟩)
    (hfault : ∀ {l e c}, P l → x l.conn = .error e c → E ⟨c, l.marks⟩) : Triple P (following x g) Q E :=
  triple_watch hret hfault

/-- A call of the connector that moves no byte. -/
theorem triple_real (hret : ∀ {l a c}, P l → x l.conn = .ok a c → Q a ⟨c, l.marks⟩)
    (hfault : ∀ {l e c}, P l → x l.conn = .error e c → E ⟨c, l.marks⟩) : Triple P (real x) Q E :=
  triple_watch hret hfault

theorem look_real {k : Sock Circle κ → Act κ β} (h : ∀ l, P l → Triple P (k l.conn) R E) : Triple P
    (real get >>= k) R E where
  returns hl hr := (h _ hl).returns hl hr
  faults hl hr := (h _ hl).faults hl hr

theorem get_real {k : Sock Circle κ → Act κ β} (h : ∀ l, P l → Triple (fun l' => l' = l) (k l.conn) R E) :
    Triple P (real get >>= k) R E where
  returns hl hr := (h _ hl).returns rfl hr
  faults hl hr := (h _ hl).faults rfl hr

theorem triple_noting {g : Sock Circle κ → Marks → Marks} {Q : PUnit → Line κ → Prop}
    (h : ∀ l, P l → Q ⟨⟩ { l with marks := g l.conn l.marks }) : Triple P (noting g) Q E :=
  Triple.modify h

end Rules

section Invariant

/-- What the rings and the marks are to each other, in every state; what belongs to the
session that is going on; and that every look so far was at own bytes. -/
structure Inv (t : Transport) (l : Line κ) : Prop where
  recvRing : l.conn.recvBuff.Valid
  recvBytes : l.marks.recv.map Cell.byte = l.conn.recvBuff.contents
  sendRing : l.conn.sendBuff.Sound
  sendBytes : l.marks.send.map Cell.byte = l.conn.sendBuff.contents
  front : t = .udp → l.conn.sendBuff.head = 0
  bare : t ≠ .kcp → l.conn.socket.kcp.isSome = false
  recv : l.marks.live → ∀ c ∈ l.marks.recv, c.mark = some l.marks.ended
  send : l.marks.live → ∀ c ∈ l.marks.send, c.mark = some l.marks.ended
  block : l.marks.live → l.conn.socket.kcp.isSome → l.marks.block = some l.marks.ended
  parsed : ∀ look ∈ l.marks.parsed, look.Own
  handed : ∀ look ∈ l.marks.handed, look.Own

/-- Where the code is: no caller waits, and perhaps a tcp close has just swept
the buffers; a caller waits to go on with what `recv_buff_` held; or a caller
waits and the session is over. -/
inductive Mode where
  | free (swept : Bool)
  | inside (cells : List Cell)
  | finished

def Mode.busy : Mode → Bool
  | free _ => false
  | inside _ => true
  | finished => true

def Mode.Holds (t : Transport) (g : Marks) : Mode → Prop
  | free swept => swept → t = .tcp → g.live = false → g.recv = [] ∧ ∀ c ∈ g.send, c.mark = some g.ended
  | inside cells => g.live → g.recv = cells
  | finished => g.live = false

/-- What is known in a mode, as long as every step has met its condition. -/
def Known (t : Transport) (m : Mode) (l : Line κ) : Prop :=
  l.marks.busy = m.busy ∧ (l.marks.tainted = false → Inv t l ∧ m.Holds t l.marks)

def Left (t : Transport) (m : Mode) (l : Line κ) : Prop :=
  l.marks.tainted = false → Inv t l ∧ (m = .finished → l.marks.live = false)

/-- A fact about `send_buff_` and its cells, as long as every step has met its condition. -/
def Sending (F : Circle → List Cell → Prop) (l : Line κ) : Prop :=
  l.marks.tainted = false → F l.conn.sendBuff l.marks.send

variable {t : Transport} {m : Mode} {K : Ikcp κ} {cb : Callbacks κ} {l l' : Line κ}
  {E : Line κ → Prop} {F G : Circle → List Cell → Prop}

theorem Known.left (h : Known t m l) : Left t m l := by
  intro ht
  refine ⟨(h.2 ht).1, ?_⟩
  rintro rfl
  exact (h.2 ht).2

private theorem Left.of_finished (h : Left t .finished l) : Left t m l :=
  fun ht => ⟨(h ht).1, fun _ => (h ht).2 rfl⟩

theorem Known.weaken (h : Known t (.free true) l) (swept : Bool) : Known t (.free swept) l :=
  ⟨h.1, fun ht => ⟨(h.2 ht).1, fun _ => (h.2 ht).2 rfl⟩⟩

theorem Sending.imp (h : Sending F l)
    (hFG : ∀ ring cells, F ring cells → G ring cells) : Sending G l := fun ht => hFG _ _ (h ht)

/-- The rest of what is noted does not matter to the invariant. -/
theorem Inv.aside (h : Inv t l) (started : List Mark) (busy tainted : Bool) :
    Inv t { l with marks := { l.marks with started := started, busy := busy, tainted := tainted } } :=
  ⟨h.recvRing, h.recvBytes, h.sendRing, h.sendBytes, h.front, h.bare, h.recv, h.send, h.block,
    h.parsed, h.handed⟩

theorem Mode.Holds.aside {g : Marks} (h : m.Holds t g) (started : List Mark) (busy tainted : Bool) :
    m.Holds t { g with started := started, busy := busy, tainted := tainted } := by
  cases m <;> exact h

def bufs (s : Sock Circle κ) : Circle × Circle × Bool := (s.recvBuff, s.sendBuff, s.socket.kcp.isSome)

/-- A property of the marks and of these members. Where operations were started is none of it. -/
structure Core (G : Line κ → Prop) : Prop where
  conn : ∀ {l : Line κ} {c : Sock Circle κ}, bufs c = bufs l.conn → G l → G ⟨c, l.marks⟩
  started : ∀ {l : Line κ} (started : List Mark), G l →
    G { l with marks := { l.marks with started := started } }

private theorem bufs_eq {s s' : Sock Circle κ} (h : bufs s' = bufs s) :
    s'.recvBuff = s.recvBuff ∧ s'.sendBuff = s.sendBuff ∧ s'.socket.kcp.isSome = s.socket.kcp.isSome := by
  simpa [bufs] using h

theorem core_inv : Core (Inv (κ := κ) t) where
  conn {l c} hc h := by
    obtain ⟨hr, hs, hk⟩ := bufs_eq hc
    refine ⟨hr ▸ h.recvRing, h.recvBytes.trans (by rw [hr]), hs ▸ h.sendRing,
      h.sendBytes.trans (by rw [hs]), ?_, ?_, h.recv, h.send,
      fun hlive hsome => h.block hlive (hk ▸ hsome), h.parsed, h.handed⟩
    · rw [hs]
      exact h.front
    · rw [hk]
      exact h.bare
  started _ h := h.aside _ _ _

theorem core_known : Core (Known (κ := κ) t m) where
  conn hc h := ⟨h.1, fun ht => ⟨core_inv.conn hc (h.2 ht).1, (h.2 ht).2⟩⟩
  started _ h := ⟨h.1, fun ht => ⟨(h.2 ht).1.aside _ _ _, (h.2 ht).2.aside _ _ _⟩⟩

theorem core_sending : Core (Sending (κ := κ) F) where
  conn hc h ht := by
    rw [show F _ _ = F _ _ from congrFun (congrArg F (bufs_eq hc).2.1) _]
    exact h ht
  started _ h := h

theorem Core.and {G H : Line κ → Prop} (hG : Core G) (hH : Core H) : Core fun l => G l ∧ H l :=
  ⟨fun hc h => ⟨hG.conn hc h.1, hH.conn hc h.2⟩, fun ops h => ⟨hG.started ops h.1, hH.started ops h.2⟩⟩

section Environment
variable {α : Type} {x : EStateM Fault (Sock Circle κ) α} {G : Line κ → Prop} (hG : Core G)

/-- A computation that leaves the buffers alone, and whether there is a control block. -/
def Steady (x : EStateM Fault (Sock Circle κ) α) : Prop :=
  ∀ b, Keeps (fun s => bufs s = b) x fun s => bufs s = b

/-- The calls that steer the socket do. -/
theorem framed_bufs (b : Circle × Circle × Bool) :
    Connection.Framed .udp (fun (_ : Unit) (s : Sock Circle κ) => bufs s = b) fun s => bufs s = b where
  exit h := h
  noted _ := Triple.modify fun _ h => h
  state _ h := h
  steered {_ s a} ha h := by
    have hkcp : a.steering.kcp = s.socket.steering.kcp := congrArg Asio.kcp ha
    rw [← h]
    exact congrArg (fun kcp : Option κ => (s.recvBuff, s.sendBuff, kcp.isSome)) hkcp
  resets h := nomatch h
  releases h := nomatch h

private theorem steady_socketDo {f : Asio κ → Asio κ}
    (hf : ∀ a, (f a).kcp.isSome = a.kcp.isSome) : Steady (Connection.socketDo f) := by
  refine fun b => Triple.modify fun s h => ?_
  rw [← h, bufs, hf]
  rfl

private theorem steady_note (action : Action) :
    Steady (Connection.note action : EStateM Fault (Sock Circle κ) Unit) :=
  steady_socketDo fun _ => rfl

include hG in
theorem core_real (hx : Steady x) (hE : ∀ l, G l → E l) : Keeps G (real x) E :=
  triple_watch (fun hl hr => hG.conn ((hx _).returns rfl hr) hl) fun hl hr =>
    hE _ (hG.conn ((hx _).faults rfl hr) hl)

include hG in
/-- What cannot fail needs no exit. -/
theorem core_socketDo {f : Asio κ → Asio κ} (hf : ∀ a, (f a).kcp.isSome = a.kcp.isSome) :
    Keeps G (real (Connection.socketDo f)) E :=
  triple_watch (fun hl hr => hG.conn ((steady_socketDo hf _).returns rfl hr) hl) fun _ hr => nomatch hr

include hG in
theorem core_note (action : Action) : Keeps G (real (Connection.note action)) E :=
  core_socketDo hG fun _ => rfl

include hG in
private theorem core_setState (state : ConnectionState) : Keeps G (real (Connection.setState state)) E := by
  refine triple_watch (fun hl hr => hG.conn ?_ hl) fun _ hr => nomatch hr
  exact ((framed_bufs _).setState (i := ()) state).returns rfl hr

include hG in
private theorem core_closeSocket : Keeps G (real Connection.closeSocket) E := by
  refine triple_watch (fun hl hr => hG.conn ?_ hl) fun _ hr => nomatch hr
  exact ((framed_bufs _).closeSocket (i := ())).returns rfl hr

include hG in
private theorem core_start (operation : Operation) : Keeps G (start operation) E := by
  refine triple_following (fun {l} _ _ hl hr => ?_) fun _ hr => nomatch hr
  cases hr
  have hstarted := hG.started (l.marks.started ++ [l.marks.session]) hl
  refine hG.conn ?_ hstarted
  rfl

include hG in
theorem core_nextAnswer : Keeps G (real Connection.nextAnswer) E := by
  refine triple_watch (fun hl hr => hG.conn ?_ hl) fun {l} _ _ hl hr => ?_
  · exact ((framed_bufs _).nextAnswer (i := ())).returns rfl hr
  · obtain ⟨_, hrun, -⟩ := Connection.nextAnswer_run l.conn
    exact nomatch hrun.symm.trans hr

include hG in
theorem core_sendDatagram (bytes : List UInt8) : Keeps G (real (Connection.sendDatagram bytes)) E := by
  refine triple_real (fun hl hr => hG.conn ?_ hl) fun {l} _ _ _ hr => ?_
  · exact ((framed_bufs _).sendDatagram (i := ()) bytes).returns rfl hr
  · obtain ⟨_, hrun, -⟩ := Connection.nextAnswer_run l.conn
    rw [Connection.sendDatagram, bind_ok hrun] at hr
    dsimp only at hr
    split at hr
    · exact nomatch hr
    · exact nomatch hr

include hG in
private theorem core_nonBlocking (hE : ∀ l, G l → E l) : Keeps G (real Connection.nonBlocking) E :=
  core_real hG (fun b => (framed_bufs b).nonBlocking (i := ())) hE

include hG in
private theorem core_attempt (hE : ∀ l, G l → E l) : Keeps G (real Connection.attempt) E :=
  core_real hG (fun b => (framed_bufs b).attempt (i := ())) hE

include hG in
private theorem core_openDatagram (hE : ∀ l, G l → E l) : Keeps G (real Connection.openDatagram) E :=
  core_real hG (fun b => (framed_bufs b).openDatagram (i := ())) hE

include hG in
theorem core_doWriteTcp : Keeps G doWriteTcp E := by
  refine look_real fun l _ => Triple.ite (fun _ => ?_) fun _ => Triple.pure fun _ h => h
  refine Triple.ite (fun _ => ?_) fun _ => Triple.pure fun _ h => h
  exact Triple.bind (core_socketDo hG fun _ => rfl) fun _ => core_start hG _

end Environment

section Buffers

theorem mem_marked {mark : Mark} {bytes : List UInt8} {c : Cell} (h : c ∈ marked mark bytes) :
    c.mark = mark := by
  obtain ⟨b, -, rfl⟩ := List.mem_map.mp h
  rfl

@[simp] private theorem length_marked (mark : Mark) (bytes : List UInt8) :
    (marked mark bytes).length = bytes.length :=
  List.length_map _

@[simp] theorem map_byte_marked (mark : Mark) (bytes : List UInt8) :
    (marked mark bytes).map Cell.byte = bytes := by
  simp [marked, Function.comp_def]

/-- A ring and cells that may take the place of `send_buff_` and its cells. -/
structure Replaces (t : Transport) (l : Line κ) (ring : Circle) (cells : List Cell) : Prop where
  sound : ring.Sound
  bytes : cells.map Cell.byte = ring.contents
  front : t = .udp → ring.head = 0
  own : ∀ c ∈ cells, c ∈ l.marks.send ∨ c.mark = some l.marks.ended

private theorem Inv.with_send {ring : Circle} {cells : List Cell} (h : Inv t l)
    (hring : Replaces t l ring cells) :
    Inv t ⟨{ l.conn with sendBuff := ring }, { l.marks with send := cells }⟩ :=
  ⟨h.recvRing, h.recvBytes, hring.sound, hring.bytes, hring.front, h.bare, h.recv,
    fun hlive c hc => (hring.own c hc).elim (h.send hlive c) id, h.block, h.parsed, h.handed⟩

private theorem Known.with_send {ring : Circle} {cells : List Cell} (h : Known t m l)
    (hring : l.marks.tainted = false → Inv t l → Replaces t l ring cells) :
    Known t m ⟨{ l.conn with sendBuff := ring }, { l.marks with send := cells }⟩ := by
  refine ⟨h.1, fun ht => ?_⟩
  obtain ⟨hinv, hmode⟩ := h.2 ht
  have hnew := hring ht hinv
  refine ⟨hinv.with_send hnew, ?_⟩
  cases m with
  | free swept =>
    intro hswept htcp hlive
    obtain ⟨hrecv, hsend⟩ := hmode hswept htcp hlive
    exact ⟨hrecv, fun c hc => (hnew.own c hc).elim (hsend c) id⟩
  | inside cells => exact hmode
  | finished => exact hmode

/-- Other cells in `recv_buff_`, in a session none of another one. -/
theorem Known.with_recv {ring : Circle} {cells : List Cell} (h : Known t (.free false) l)
    (hring : l.marks.tainted = false → Inv t l → ring.Valid ∧ cells.map Cell.byte = ring.contents ∧
      (l.marks.live → ∀ c ∈ cells, c.mark = some l.marks.ended)) :
    Known t (.free false) ⟨{ l.conn with recvBuff := ring }, { l.marks with recv := cells }⟩ := by
  refine ⟨h.1, fun ht => ⟨?_, fun hswept => nomatch hswept⟩⟩
  have hinv := (h.2 ht).1
  obtain ⟨hvalid, hbytes, hown⟩ := hring ht hinv
  exact ⟨hvalid, hbytes, hinv.sendRing, hinv.sendBytes, hinv.front, hinv.bare, hown, hinv.send,
    hinv.block, hinv.parsed, hinv.handed⟩

section Rings

private theorem Inv.length_send (h : Inv t l) : l.marks.send.length = l.conn.sendBuff.getCount.toNat := by
  rw [← h.sendRing.length_contents, ← h.sendBytes, List.length_map]

private theorem Inv.send_lt (h : Inv t l) : l.conn.sendBuff.getCount.toNat < 2 ^ 30 := by
  have hle := h.sendRing.normal_valid.size_le
  have hlt := h.sendRing.normal_valid.length_lt
  rw [h.sendRing.contents_normal, h.sendRing.length_contents] at hlt
  exact Nat.lt_of_lt_of_le hlt hle

/-- What an append that does not stray leaves when it returns, or throws. -/
private theorem Inv.append (h : Inv t l) {bytes : List UInt8} (hsize : bytes.length < 2 ^ 64)
    (hsafe : ¬ l.conn.sendBuff.Strays bytes.length) :
    (∀ {c}, Circle.write bytes noOffset l.conn.sendBuff = .ok () c →
      c.Valid ∧ Replaces t l c (l.marks.send ++ marked (some l.marks.ended) bytes)) ∧
    ∀ {fault c}, Circle.write bytes noOffset l.conn.sendBuff = .error fault c →
      Replaces t l c l.marks.send := by
  have hends := h.sendRing.write_appending hsize
  constructor
  · intro c hr
    have hfront : t = .udp → c.head = 0 :=
      fun hudp => (Circle.front_lasting.write bytes noOffset).returns (h.front hudp) hr
    rw [hr] at hends
    cases hends with
    | done _ hv hc =>
      refine ⟨hv, hv.sound, ?_, hfront, fun c hc => (List.mem_append.mp hc).imp_right mem_marked⟩
      rw [List.map_append, h.sendBytes, map_byte_marked, hc]
  · intro fault c hr
    have hfront : t = .udp → c.head = 0 :=
      fun hudp => (Circle.front_lasting.write bytes noOffset).faults (h.front hudp) hr
    rw [hr] at hends
    cases hends with
    | refused _ hs hc => exact ⟨hs, h.sendBytes.trans hc.symm, hfront, fun _ hc => .inl hc⟩
    | astray hstray => exact absurd hstray hsafe

/-- What a patch leaves when it returns. It fails only where it strays. -/
private theorem Inv.patch (h : Inv t l) (hv : l.conn.sendBuff.Valid) {bytes : List UInt8} {offset : UInt64}
    (hroom : offset.toNat + bytes.length ≤ l.marks.send.length) :
    (∀ {c}, Circle.write bytes offset l.conn.sendBuff = .ok () c →
      Replaces t l c (CellRing.overwrite l.marks.send offset.toNat (marked (some l.marks.ended) bytes))) ∧
    ∀ {fault c}, Circle.write bytes offset l.conn.sendBuff = .error fault c →
      l.conn.sendBuff.StraysAt offset.toNat bytes.length := by
  have hends : Circle.PatchEnds l.conn.sendBuff bytes offset.toNat
      (Circle.write bytes offset l.conn.sendBuff) := by
    refine Circle.write_patch_ends hv ?_
    rw [← h.sendBytes, List.length_map]
    exact hroom
  constructor
  · intro c hr
    have hfront : t = .udp → c.head = 0 :=
      fun hudp => (Circle.front_lasting.write bytes offset).returns (h.front hudp) hr
    rw [hr] at hends
    cases hends with
    | done _ _ hv hc =>
      refine ⟨hv.sound, ?_, hfront, fun c hc => ?_⟩
      · rw [hc, ← h.sendBytes]
        simp [CellRing.overwrite, List.map_take, List.map_drop]
      · rcases List.mem_append.mp hc with hc | hc
        · exact (List.mem_append.mp hc).imp List.mem_of_mem_take mem_marked
        · exact .inl (List.mem_of_mem_drop hc)
  · intro fault c hr
    rw [hr] at hends
    cases hends with
    | stuck hne hfull => exact .inr ⟨List.length_pos_of_ne_nil hne, hfull⟩
    | overrun hover => exact .inl hover

/-- What `remove_from_back` leaves, and what it leaves alone. -/
private theorem Inv.back (h : Inv t l) {tail : UInt64}
    (hle : (Circle.countOf l.conn.sendBuff.head tail l.conn.sendBuff.getSize).toNat ≤
      l.marks.send.length) :
    Replaces t l { l.conn.sendBuff with tail := tail }
      (l.marks.send.take (Circle.countOf l.conn.sendBuff.head
      tail l.conn.sendBuff.getSize).toNat) := by
  refine ⟨⟨h.sendRing.pow, h.sendRing.growth, h.sendRing.head_lt⟩, ?_, h.front,
    fun c hc => .inl (List.mem_of_mem_take hc)⟩
  rw [Circle.contents_back (by rw [← h.sendBytes, List.length_map]; exact hle), List.map_take, h.sendBytes]

private theorem Inv.remove (h : Inv t l) (ht : t ≠ .udp) {count : UInt64}
    (hle : count.toNat ≤ l.marks.send.length) :
    Replaces t l
      { l.conn.sendBuff with head := (l.conn.sendBuff.head + count) % l.conn.sendBuff.getSize }
      (l.marks.send.drop count.toNat) := by
  refine ⟨⟨h.sendRing.pow, h.sendRing.growth, h.sendRing.mod_lt _⟩, ?_, fun hudp => absurd hudp ht,
    fun c hc => .inl (List.mem_of_mem_drop hc)⟩
  rw [h.sendRing.remove_contents (by rw [← h.sendBytes, List.length_map]; exact hle), List.map_drop,
    h.sendBytes]

private theorem Inv.empty (h : Inv t l) : Replaces t l l.conn.sendBuff.reset [] := by
  have hreset := h.sendRing.normal_valid.reset
  exact ⟨hreset.1.sound, hreset.2.symm, fun _ => rfl, fun c hc => nomatch hc⟩

end Rings

section Writers

/-- A computation that appends the bytes, and gives what it makes of the ring before and after. -/
private def Appends {α : Type} (x : EStateM Fault Circle α) (bytes : List UInt8)
    (g : Circle → Circle → α) : Prop :=
  ∀ c, x c = match Circle.write bytes noOffset c with
    | .ok _ c' => .ok (g c c') c'
    | .error fault c' => .error fault c'

private theorem appends_new : Appends Writer.new (le32 placeholder) fun c _ => ⟨c.getCount.toUInt32, 0⟩ := by
  intro c
  rw [Writer.new, get_bind]
  cases hr : Circle.write (le32 placeholder) noOffset c with
  | ok u c' => exact bind_ok hr
  | error fault c' => exact bind_error hr

private theorem appends_put (w : Writer) (payload : List UInt8) :
    Appends (w.put payload) payload fun c c' =>
      { w with length := (w.length.toUInt64 + (c'.getCount - c.getCount)).toUInt32 } := by
  intro c
  rw [Writer.put, get_bind]
  cases hr : Circle.write payload noOffset c with
  | ok u c' => exact bind_ok hr
  | error fault c' => exact bind_error hr

/-- An append, and how many bytes there are before and after it. -/
private theorem known_appends {α : Type} {x : EStateM Fault Circle α} {bytes : List UInt8}
    {g : Circle → Circle → α} (hx : Appends x bytes g)
    {l₀ : Line κ} (hl₀ : Known t m l₀) : Triple (fun l => l = l₀) (watch (Connection.send x) (appended bytes))
    (fun a l => Known t m l ∧ (l.marks.tainted = false → l₀.marks.tainted = false ∧ l.conn.sendBuff.Valid ∧
      l.marks.send.length = l₀.marks.send.length + bytes.length ∧ a = g l₀.conn.sendBuff l.conn.sendBuff))
    fun l => Known t m l ∧ (l.marks.tainted = false → l₀.marks.tainted = false ∧
      l.marks.send = l₀.marks.send) := by
  have hkept (ht : (l₀.marks.tainted || decide (2 ^ 64 ≤ bytes.length) ||
        decide (l₀.conn.sendBuff.Strays bytes.length)) = false) :
      l₀.marks.tainted = false ∧ bytes.length < 2 ^ 64 ∧
        ¬ l₀.conn.sendBuff.Strays bytes.length := by
    simpa [and_assoc] using ht
  refine triple_watch ?_ ?_
  · intro l a c hl hr
    subst hl
    obtain ⟨ring, hrun, rfl⟩ := Connection.send_eq_ok hr
    rw [hx] at hrun
    cases hwrite : Circle.write bytes noOffset l.conn.sendBuff with
    | error fault c =>
      rw [hwrite] at hrun
      cases hrun
    | ok u c =>
      rw [hwrite] at hrun
      cases hrun
      refine ⟨⟨hl₀.1, fun ht => ?_⟩, fun ht => ?_⟩
      · obtain ⟨htainted, hsize, hsafe⟩ := hkept ht
        have hnew := hl₀.with_send fun _ hinv => ((hinv.append hsize hsafe).1 hwrite).2
        exact ⟨(hnew.2 htainted).1.aside _ _ _, (hnew.2 htainted).2.aside _ _ _⟩
      · obtain ⟨htainted, hsize, hsafe⟩ := hkept ht
        refine ⟨htainted, ((hl₀.2 htainted).1.append hsize hsafe).1 hwrite |>.1, ?_, rfl⟩
        simp [appended]
  · intro l fault c hl hr
    subst hl
    obtain ⟨ring, hrun, rfl⟩ := Connection.send_eq_error hr
    rw [hx] at hrun
    cases hwrite : Circle.write bytes noOffset l.conn.sendBuff with
    | ok u c =>
      rw [hwrite] at hrun
      cases hrun
    | error fault c =>
      rw [hwrite] at hrun
      cases hrun
      refine ⟨⟨hl₀.1, fun ht => ?_⟩, fun ht => ⟨(hkept ht).1, rfl⟩⟩
      obtain ⟨htainted, hsize, hsafe⟩ := hkept ht
      have hnew := hl₀.with_send fun _ hinv => (hinv.append hsize hsafe).2 hwrite
      exact ⟨(hnew.2 htainted).1.aside _ _ _, (hnew.2 htainted).2.aside _ _ _⟩

/-- The packet of a writer is all that follows in `send_buff_`. -/
def Open (w : Writer) (cells : List Cell) : Prop := cells.length = w.head.toNat + 4 + w.length.toNat

private theorem known_newWriter :
    Triple (Known (κ := κ) t m) (watch (Connection.send Writer.new) (appended (le32 placeholder)))
    (fun w l => Known t m l ∧ Sending (fun _ cells => Open w cells) l) (Left t m) := by
  refine Triple.pinned fun l₀ hl₀ => ?_
  refine ((known_appends appends_new hl₀).after fun w l h => ⟨h.1, fun ht => ?_⟩).relax fun _ h => h.1.left
  obtain ⟨ht₀, -, hcells, rfl⟩ := h.2 ht
  have hcount := (hl₀.2 ht₀).1.length_send
  have hlt := (hl₀.2 ht₀).1.send_lt
  have hfour : (le32 placeholder).length = 4 := length_le32 _
  have hhead : l₀.conn.sendBuff.getCount.toUInt32.toNat = l₀.conn.sendBuff.getCount.toNat := by
    rw [UInt64.toNat_toUInt32]
    omega
  change l.marks.send.length = l₀.conn.sendBuff.getCount.toUInt32.toNat + 4 + 0
  omega

private theorem known_put (w : Writer) (payload : List UInt8) :
    Triple (fun l : Line κ => Known t m l ∧ Sending (fun _ cells => Open w cells) l)
      (watch (Connection.send (w.put payload)) (appended payload))
      (fun w l => Known t m l ∧ Sending (fun ring cells => ring.Valid ∧ Open w cells) l)
      fun l => Known t m l ∧ Sending (fun _ cells => Open w cells) l := by
  refine Triple.pinned fun l₀ hl₀ => ?_
  refine ((known_appends (appends_put w payload) hl₀.1).after fun w' l h =>
    ⟨h.1, fun ht => ?_⟩).relax fun l h => ⟨h.1, fun ht => ?_⟩
  · obtain ⟨ht₀, hsend⟩ := h.2 ht
    rw [hsend]
    exact hl₀.2 ht₀
  · obtain ⟨ht₀, hvalid, hcells, rfl⟩ := h.2 ht
    have hopen : l₀.marks.send.length = w.head.toNat + 4 + w.length.toNat := hl₀.2 ht₀
    have hbefore := (hl₀.1.2 ht₀).1.length_send
    have hafter := (h.1.2 ht).1.length_send
    have hlt := (h.1.2 ht).1.send_lt
    have hadded : (l.conn.sendBuff.getCount - l₀.conn.sendBuff.getCount).toNat = payload.length := by
      rw [toNat_sub_of_le (by omega)]
      omega
    have hlength :
      (w.length.toUInt64 + (l.conn.sendBuff.getCount - l₀.conn.sendBuff.getCount)).toUInt32.toNat =
        w.length.toNat + payload.length := by
      have hword : w.length.toUInt64.toNat = w.length.toNat := UInt32.toNat_toUInt64 _
      rw [UInt64.toNat_toUInt32, toNat_add_of_lt (by omega), hword, hadded]
      omega
    refine ⟨hvalid, ?_⟩
    change l.marks.send.length =
      w.head.toNat + 4 + (w.length.toUInt64 + (l.conn.sendBuff.getCount - l₀.conn.sendBuff.getCount)).toUInt32.toNat
    omega

private theorem known_flush (w : Writer) :
    Triple (fun l : Line κ => Known t m l ∧ Sending (fun ring cells => ring.Valid ∧ Open w cells) l)
    (watch (Connection.send (w.flush none)) (patched (le32 w.length) w.head.toNat))
    (fun _ l => Known t m l ∧ Sending (fun _ cells => Open w cells) l) (Left t .finished) := by
  have hword : w.head.toUInt64.toNat = w.head.toNat := UInt32.toNat_toUInt64 _
  have hroom {cells : List Cell} (h : Open w cells) :
      w.head.toUInt64.toNat + (le32 w.length).length ≤ cells.length := by
    have hlen : cells.length = w.head.toNat + 4 + w.length.toNat := h
    rw [hword, length_le32]
    omega
  have hkept {l : Line κ}
    (ht : (l.marks.tainted || decide
    (l.conn.sendBuff.StraysAt w.head.toNat (le32 w.length).length)) = false) :
      l.marks.tainted = false ∧ ¬ l.conn.sendBuff.StraysAt w.head.toNat (le32 w.length).length := by
    simpa only [Bool.or_eq_false_iff, decide_eq_false_iff_not] using ht
  have hpatch {l : Line κ} (hl : Known t m l ∧
      Sending (fun ring cells => ring.Valid ∧ Open w cells) l) (ht : l.marks.tainted = false) :=
    (hl.1.2 ht).1.patch (hl.2 ht).1 (hroom (hl.2 ht).2)
  rw [hword] at hpatch
  refine triple_watch (fun {l a c} hl hr => ?_) fun {l fault c} hl hr ht => ?_
  · obtain ⟨ring, hrun, rfl⟩ := Connection.send_eq_ok hr
    obtain ⟨u, c, hwrite, hdone⟩ := bind_eq_ok.mp hrun
    cases hdone
    refine ⟨⟨hl.1.1, fun ht => ?_⟩, fun ht => ?_⟩
    · have hnew := hl.1.with_send fun ht _ => (hpatch hl ht).1 hwrite
      exact ⟨(hnew.2 (hkept ht).1).1.aside _ _ _, (hnew.2 (hkept ht).1).2.aside _ _ _⟩
    · have hopen := (hl.2 (hkept ht).1).2
      change (CellRing.overwrite l.marks.send w.head.toNat
        (marked (some l.marks.ended) (le32 w.length))).length = _
      rw [CellRing.length_overwrite]
      · exact hopen
      · rw [length_marked, ← hword]
        exact hroom hopen
  · obtain ⟨ring, hrun, rfl⟩ := Connection.send_eq_error hr
    rw [Writer.flush, bind_pure_eq_error] at hrun
    exact absurd ((hpatch hl (hkept ht).1).2 hrun) (hkept ht).2

/-- What `~writer()` does to a ring: it fails or leaves it, or takes back its packet. -/
private theorem destroy_ends (w : Writer) (ring : Circle) :
    (∃ fault, w.destroy ring = .error fault ring) ∨ w.destroy ring = .ok () ring ∨
      Buffer.getCount ring > w.head.toUInt64 ∧
        w.destroy ring = .ok () { ring with tail := ring.tail - (4 + w.length.toUInt64) } := by
  have hread : Keeps (fun c => c = ring) (Circle.read 4 w.head.toUInt64) fun c => c = ring := by
    refine Circle.keeps_peekFuel _ 4 w.head.toUInt64 ?_
    have hword : w.head.toUInt64.toNat = w.head.toNat := UInt32.toNat_toUInt64 _
    have hfour : (4 : UInt64).toNat = 4 := rfl
    have hlt := w.head.toNat_lt
    omega
  rw [Writer.destroy, get_bind]
  split
  · rename_i hmore
    cases hr : Circle.read 4 w.head.toUInt64 ring with
    | error fault c =>
      obtain rfl := hread.faults rfl hr
      exact .inl ⟨fault, bind_error hr⟩
    | ok bytes c =>
      obtain rfl := hread.returns rfl hr
      rw [bind_ok (show (Buffer.read 4 w.head.toUInt64 : EStateM Fault Circle _) c = .ok bytes c from hr)]
      split
      · exact .inr (.inr ⟨hmore, Circle.removeFromBack_run _ _⟩)
      · exact .inr (.inl rfl)
  · exact .inr (.inl rfl)

/-- A writer whose packet is still in the buffer, or whose packet is gone with all that was there. -/
theorem known_destroy (w : Writer) :
    Triple (fun l : Line κ => Known t m l ∧ Sending (fun _ cells => cells = [] ∨ Open w cells) l)
      (destroy w) (fun _ => Known t m) (Left t m) := by
  have hsame (l : Line κ) (ht : Inv t l) : takenBack l.conn.sendBuff l.marks.send = l.marks.send := by
    rw [takenBack, ← ht.length_send, if_pos (Nat.le_refl _), List.take_length]
  refine triple_following (fun {l a c} hl hr => ?_) fun {l fault c} hl hr => ?_
  · obtain ⟨ring, hrun, rfl⟩ := Connection.send_eq_ok hr
    refine hl.1.with_send fun ht hinv => ?_
    rcases destroy_ends w l.conn.sendBuff with ⟨fault, hends⟩ | hends | ⟨hmore, hends⟩
    · exact nomatch hends.symm.trans hrun
    · cases hends.symm.trans hrun
      change Replaces t l l.conn.sendBuff (takenBack l.conn.sendBuff l.marks.send)
      rw [hsame l hinv]
      exact ⟨hinv.sendRing, hinv.sendBytes, hinv.front, fun _ hc => .inl hc⟩
    · cases hends.symm.trans hrun
      have hlen := hinv.length_send
      have hcount : w.head.toNat < l.conn.sendBuff.getCount.toNat := by
        have := UInt64.lt_iff_toNat_lt.mp hmore
        rwa [UInt32.toNat_toUInt64] at this
      have hopen : l.marks.send.length = w.head.toNat + 4 + w.length.toNat := by
        refine (hl.2 ht).resolve_left fun hnil => ?_
        rw [hnil, List.length_nil] at hlen
        omega
      have hpacket : (4 + w.length.toUInt64).toNat = 4 + w.length.toNat := by
        have hfour : (4 : UInt64).toNat = 4 := rfl
        have hword : w.length.toUInt64.toNat = w.length.toNat := UInt32.toNat_toUInt64 _
        have hlt := w.length.toNat_lt
        rw [toNat_add_of_lt (by omega), hfour, hword]
      obtain ⟨k, hk, hpow⟩ := hinv.sendRing.pow
      have hback := Circle.toNat_getCount_shortened hpow (by omega) (n := 4 + w.length.toUInt64) (by omega)
      have hle :
          (Circle.getCount
          { l.conn.sendBuff with tail := l.conn.sendBuff.tail - (4 + w.length.toUInt64) }).toNat ≤
        l.marks.send.length :=
        Nat.le_trans (Nat.le_of_eq hback) (by omega)
      change Replaces t l _ (takenBack
        { l.conn.sendBuff with tail := l.conn.sendBuff.tail - (4 + w.length.toUInt64) }
        l.marks.send)
      rw [takenBack, if_pos hle]
      exact hinv.back hle
  · obtain ⟨ring, hrun, rfl⟩ := Connection.send_eq_error hr
    rcases destroy_ends w l.conn.sendBuff with ⟨fault, hends⟩ | hends | ⟨-, hends⟩
    · cases hends.symm.trans hrun
      exact hl.1.left
    · exact nomatch hends.symm.trans hrun
    · exact nomatch hends.symm.trans hrun

/-- Without a session any bytes may be in `send_buff_`. -/
private theorem Left.with_send (h : Left t .finished l) {ring : Circle} {cells : List Cell}
    (hring : l.marks.tainted = false → Inv t l → ring.Sound ∧ cells.map Cell.byte = ring.contents ∧
      ring.head = l.conn.sendBuff.head) :
    Left t .finished ⟨{ l.conn with sendBuff := ring }, { l.marks with send := cells }⟩ := by
  intro ht
  obtain ⟨hinv, hover⟩ := h ht
  obtain ⟨hsound, hbytes, hfront⟩ := hring ht hinv
  have hdead : l.marks.live = false := hover rfl
  refine ⟨⟨hinv.recvRing, hinv.recvBytes, hsound, hbytes,
    fun hudp => hfront.trans (hinv.front hudp), hinv.bare, hinv.recv, fun hlive => ?_,
    hinv.block, hinv.parsed, hinv.handed⟩, hover⟩
  exact absurd hlive (by simp [hdead])

/-- After the session a writer may take back whatever it finds. -/
theorem left_destroy (w : Writer) : Keeps (Left (κ := κ) t .finished) (destroy w) (Left t .finished) := by
  have htaken (ring : Circle) (cells : List Cell) (hle : ring.getCount.toNat ≤ cells.length →
      (cells.take ring.getCount.toNat).map Cell.byte =
        ring.contents) : (takenBack ring cells).map Cell.byte = ring.contents := by
    unfold takenBack
    split
    · exact hle ‹_›
    · exact map_byte_marked _ _
  refine triple_following (fun {l a c} hl hr => ?_) fun {l fault c} hl hr => ?_
  · obtain ⟨ring, hrun, rfl⟩ := Connection.send_eq_ok hr
    refine hl.with_send fun ht hinv => ?_
    rcases destroy_ends w l.conn.sendBuff with ⟨fault, hends⟩ | hends | ⟨-, hends⟩
    · exact nomatch hends.symm.trans hrun
    · cases hends.symm.trans hrun
      refine ⟨hinv.sendRing, htaken _ _ fun _ => ?_, rfl⟩
      rw [← hinv.length_send, List.take_length, hinv.sendBytes]
    · cases hends.symm.trans hrun
      exact ⟨⟨hinv.sendRing.pow, hinv.sendRing.growth, hinv.sendRing.head_lt⟩,
        htaken _ _ fun hle => (hinv.back hle).bytes, rfl⟩
  · obtain ⟨ring, hrun, rfl⟩ := Connection.send_eq_error hr
    rcases destroy_ends w l.conn.sendBuff with ⟨fault, hends⟩ | hends | ⟨-, hends⟩
    · cases hends.symm.trans hrun
      exact hl
    · exact nomatch hends.symm.trans hrun
    · exact nomatch hends.symm.trans hrun

end Writers
section Transfers

/-- Who looks at bytes of the session only, looks at own bytes. -/
theorem own_look {g : Marks} {cells : List Cell} {bytes : List UInt8} (hbytes : bytes = cells.map Cell.byte)
    (hown : g.live → ∀ c ∈ cells, c.mark = some g.ended) : Look.Own ⟨g.session, bytes, cells⟩ := by
  refine ⟨hbytes, fun hsome c hc => ?_⟩
  cases hlive : g.live with
  | false => simp [Marks.session, hlive] at hsome
  | true => simpa [Marks.session, hlive] using hown hlive c hc

theorem mem_snoc_own {looks : List Look} {look look' : Look} (h : ∀ look ∈ looks, look.Own) (hlook : look.Own)
    (hmem : look' ∈ looks ++ [look]) : look'.Own := by
  rcases List.mem_append.mp hmem with hmem | hmem
  · exact h _ hmem
  · rw [List.mem_singleton.mp hmem]
    exact hlook

/-- Looking at the bytes behind `get_start()`. -/
theorem triple_peekStart (count : UInt64) (l : Line κ) :
    Triple (fun l' => l' = l) (real (Connection.send (Circle.peekStart count)))
    (fun bytes l' => l' = l ∧ Circle.peekStart count l.conn.sendBuff = .ok bytes l.conn.sendBuff)
    fun l' => l' = l ∧ ∃ fault, Circle.peekStart count l.conn.sendBuff = .error fault l.conn.sendBuff := by
  refine triple_real ?_ ?_
  · intro l' bytes c hl hr
    subst hl
    obtain ⟨ring, hrun, rfl⟩ := Connection.send_eq_ok hr
    obtain rfl := (Circle.keeps_peekStart count).returns rfl hrun
    exact ⟨rfl, hrun⟩
  · intro l' fault c hl hr
    subst hl
    obtain ⟨ring, hrun, rfl⟩ := Connection.send_eq_error hr
    obtain rfl := (Circle.keeps_peekStart count).faults rfl hrun
    exact ⟨rfl, fault, hrun⟩

/-- The run at `get_start()` is the front of the cells. -/
theorem known_peekRun (hl : Known t m l) :
    Triple (fun l' => l' = l) (real
      (Connection.send (Circle.peekStart l.conn.sendBuff.getContinguiousCount)))
    (fun bytes l' => l' = l ∧ (l.marks.tainted = false →
      bytes = l.conn.sendBuff.contents.take l.conn.sendBuff.getContinguiousCount.toNat))
    fun l' => l' = l ∧ l.marks.tainted = true := by
  refine ((triple_peekStart _ l).after fun bytes l' h => ⟨h.1, fun ht => ?_⟩).relax fun l' h => ⟨h.1, ?_⟩
  · obtain ⟨-, fault, hfault⟩ := h
    refine Bool.eq_true_of_not_eq_false fun ht => ?_
    exact nomatch hfault.symm.trans (hl.2 ht).1.sendRing.peekStart_contents
  · have hpeek := (hl.2 ht).1.sendRing.peekStart_contents
    rw [h.2] at hpeek
    exact (EStateM.Result.ok.inj hpeek).1

/-- The front of the ring is handed over. -/
theorem known_hand {bytes : List UInt8} (hl : Known t m l)
    (hbytes : l.marks.tainted = false → bytes <+: l.conn.sendBuff.contents) :
    Triple (fun l' => l' = l) (hand bytes)
      (fun _ l' => Known t m l' ∧ l'.conn = l.conn ∧ l'.marks.send = l.marks.send ∧
        l'.marks.tainted = l.marks.tainted) E := by
  refine triple_noting ?_
  rintro l rfl
  refine ⟨⟨hl.1, fun ht => ?_⟩, rfl, rfl, rfl⟩
  obtain ⟨hinv, hmode⟩ := hl.2 ht
  have hlook : Look.Own ⟨l.marks.session, bytes, l.marks.send.take bytes.length⟩ := by
    refine own_look ?_ fun hlive c hc => hinv.send hlive c (List.mem_of_mem_take hc)
    rw [List.map_take, hinv.sendBytes]
    exact List.prefix_iff_eq_take.mp (hbytes ht)
  refine ⟨⟨hinv.recvRing, hinv.recvBytes, hinv.sendRing, hinv.sendBytes, hinv.front, hinv.bare,
    hinv.recv, hinv.send, hinv.block,
    hinv.parsed, fun look hmem => mem_snoc_own hinv.handed hlook hmem⟩, ?_⟩
  cases m <;> exact hmode

theorem known_removeSend (hne : t ≠ .udp) {count : UInt64} (hl : Known t m l)
    (hle : l.marks.tainted = false → count.toNat ≤ l.marks.send.length) :
    Triple (fun l' => l' = l) (removeSend count) (fun _ l' => Known t m l' ∧ l'.conn.socket = l.conn.socket ∧
      l'.marks.tainted = l.marks.tainted ∧
        (l.marks.tainted = false → l'.marks.send.length =
        l.marks.send.length - count.toNat)) E := by
  refine triple_following ?_ fun _ hr => nomatch hr
  intro l' u c hl' hr
  subst hl'
  obtain ⟨ring, hrun, rfl⟩ := Connection.send_eq_ok hr
  cases hrun
  have hdrop (ht : l'.marks.tainted = false) (ring : Circle) : dropped count ring l'.marks.send =
      l'.marks.send.drop count.toNat := by
    rw [dropped, if_pos (hle ht)]
  refine ⟨hl.with_send fun ht hinv => ?_, rfl, rfl, fun ht => ?_⟩
  · rw [hdrop ht]
    exact hinv.remove hne (hle ht)
  · rw [hdrop ht, List.length_drop]

theorem known_resetSend : Triple (Known (κ := κ) t m) resetSend
    (fun _ l => Known t m l ∧ l.marks.send = []) E := by
  refine triple_following (fun hl hr => ?_) fun _ hr => nomatch hr
  cases hr
  refine ⟨?_, rfl⟩
  have hreset := hl.with_send fun _ hinv => hinv.empty
  exact core_known.conn (by rfl) hreset

end Transfers
end Buffers
section Calls

/-- The mode after the session has ended, before tcp has reset its buffers. -/
def Mode.loose : Mode → Mode
  | free _ => free false
  | m => m

def Mode.closed : Mode → Mode
  | free _ => free true
  | m => m

private theorem Known.of_closed (h : Known t m.closed l) : Known t m l := by
  cases m with
  | free swept => exact h.weaken swept
  | inside cells => exact h
  | finished => exact h

private theorem Left.of_closed (h : Left t m.closed l) : Left t m l := by
  cases m with
  | free swept => exact fun ht => ⟨(h ht).1, fun hm => nomatch hm⟩
  | inside cells => exact h
  | finished => exact h

def Obedient (t : Transport) (cb : Callbacks κ) : Prop :=
  ∀ m, Keeps (Known t m) cb.onConnected (Left t m) ∧ Keeps (Known t m) cb.onDisconnected (Left t m)

private theorem Inv.finished (h : Inv t l) :
    Inv t { l with marks := { l.marks with live := false, ended := l.marks.ended + 1 } } :=
  ⟨h.recvRing, h.recvBytes, h.sendRing, h.sendBytes, h.front, h.bare, (fun hlive => nomatch hlive),
    (fun hlive => nomatch hlive),
    (fun hlive => nomatch hlive), h.parsed, h.handed⟩

private theorem known_endSession :
    Triple (Known (κ := κ) t m) endSession (fun _ l => Known t m.loose l ∧ l.marks.live = false) E := by
  refine triple_noting fun l h => ?_
  split
  · refine ⟨⟨?_, fun ht => ⟨(h.2 ht).1.finished, ?_⟩⟩, rfl⟩
    · cases m <;> exact h.1
    · cases m with
      | free swept => exact fun hswept => nomatch hswept
      | inside cells => exact fun hlive => nomatch hlive
      | finished => rfl
  · rename_i hdead
    refine ⟨⟨?_, fun ht => ⟨(h.2 ht).1, ?_⟩⟩, Bool.eq_false_iff.mpr hdead⟩
    · cases m <;> exact h.1
    · cases m with
      | free swept => exact fun hswept => nomatch hswept
      | inside cells => exact (h.2 ht).2
      | finished => exact (h.2 ht).2

private theorem core_dead : Core fun l : Line κ => l.marks.live = false := ⟨fun _ h => h, fun _ h => h⟩

/-- The reset of `recv_buff_` in `tcp::socket::close()`. -/
private theorem known_sweepRecv :
    Triple (fun l : Line κ => Known .tcp m.loose l ∧ l.marks.live = false) resetRecv
    (fun _ l => (Known .tcp m.loose l ∧ l.marks.live = false) ∧ l.marks.recv = []) E := by
  refine triple_following (fun {l a c} hl hr => ?_) fun _ hr => nomatch hr
  cases hr
  refine ⟨⟨⟨hl.1.1, fun ht => ?_⟩, hl.2⟩, rfl⟩
  obtain ⟨hinv, hmode⟩ := hl.1.2 ht
  have hreset := hinv.recvRing.reset
  refine ⟨⟨hreset.1, hreset.2.symm, hinv.sendRing, hinv.sendBytes, hinv.front, hinv.bare,
    (fun _ c hc => nomatch hc), hinv.send,
    hinv.block, hinv.parsed, hinv.handed⟩, ?_⟩
  cases m with
  | free swept => exact fun hswept => nomatch hswept
  | inside cells => exact fun hlive => absurd (hlive : l.marks.live = true) (by simp [hl.2])
  | finished => exact hmode

private theorem known_sweepSend :
    Triple (fun l : Line κ => (Known .tcp m.loose l ∧ l.marks.live = false) ∧
      l.marks.recv = []) resetSend
    (fun _ => Known .tcp m.closed) E := by
  have hkeeps : Keeps (fun l : Line κ => l.marks.live = false ∧ l.marks.recv = []) resetSend E := by
    refine triple_following (fun hl hr => ?_) fun _ hr => nomatch hr
    cases hr
    exact hl
  refine ((known_resetSend.both hkeeps).before fun l h => ⟨h.1.1, h.1.2, h.2⟩).after fun _ l h => ?_
  obtain ⟨⟨hknown, hsend⟩, hdead, hrecv⟩ := h
  cases m with
  | free swept =>
    refine ⟨hknown.1, fun ht => ⟨(hknown.2 ht).1, fun _ _ _ => ⟨hrecv, fun c hc => ?_⟩⟩⟩
    rw [hsend] at hc
    exact nomatch hc
  | inside cells => exact hknown
  | finished => exact hknown

/-- The other two have nothing to sweep. -/
private theorem Known.unswept (h : Known t m.loose l) (hne : t ≠ .tcp) : Known t m.closed l := by
  cases m with
  | free swept => exact ⟨h.1, fun ht => ⟨(h.2 ht).1, fun _ htcp => absurd htcp hne⟩⟩
  | inside cells => exact h
  | finished => exact h

variable (hcb : Obedient t cb)
include hcb

private theorem known_onClose : Keeps (Known t m) (onClose cb) (Left t m) := by
  refine look_real fun l _ => Triple.ite (fun _ => ?_) fun _ => Triple.pure fun _ h => h
  refine Triple.bind (core_setState core_known _) fun _ => ?_
  exact Triple.bind (core_note core_known _) fun _ => (hcb m).2

/-- `close()` keeps the mode and leaves no control block. -/
theorem known_close : Triple (Known t m) (close t cb)
    (fun _ l => Known t m.closed l ∧ (l.marks.tainted = false → l.conn.socket.kcp.isSome = false))
    (Left t m) := by
  have hbare (hne : t ≠ .kcp) (l : Line κ) (h : Known t m.closed l) : l.marks.tainted = false →
      l.conn.socket.kcp.isSome = false :=
    fun ht => (h.2 ht).1.bare hne
  have hclose : Triple (Known t m) (close t cb)
      (fun _ l => Known t m.closed l ∧ (l.marks.tainted = false → l.conn.socket.kcp.isSome = false))
        (Left t m.closed) := by
    refine Triple.bind known_endSession fun _ => ?_
    cases t with
    | tcp =>
      refine Triple.bind (core_socketDo (core_known.and core_dead) fun _ => rfl) fun _ => ?_
      refine Triple.bind known_sweepRecv fun _ => ?_
      refine Triple.bind known_sweepSend fun _ => ?_
      refine Triple.bind (core_closeSocket core_known) fun _ => ?_
      exact (known_onClose hcb).after fun _ l h => ⟨h, hbare (by decide) l h⟩
    | udp =>
      refine Triple.before (P := Known .udp m.closed) ?_ fun l h => h.1.unswept (by decide)
      refine Triple.bind (core_closeSocket core_known) fun _ => ?_
      exact (known_onClose hcb).after fun _ l h => ⟨h, hbare (by decide) l h⟩
    | kcp =>
      refine Triple.before (P := Known .kcp m.closed) ?_ fun l h => h.1.unswept (by decide)
      refine Triple.bind (core_closeSocket core_known) fun _ => ?_
      refine Triple.bind (known_onClose hcb) fun _ => ?_
      refine get_real fun l hl => Triple.ite (fun _ => ?_) fun hnone => Triple.pure ?_
      · refine triple_real ?_ fun _ hr => nomatch hr
        intro l' u c hl' hr
        subst hl'
        cases hr
        refine ⟨⟨hl.1, fun ht => ⟨?_, (hl.2 ht).2⟩⟩, fun _ => rfl⟩
        have hinv := (hl.2 ht).1
        exact ⟨hinv.recvRing, hinv.recvBytes, hinv.sendRing, hinv.sendBytes, hinv.front,
          fun hne => absurd rfl hne, hinv.recv, hinv.send,
          (fun _ hsome => nomatch hsome), hinv.parsed, hinv.handed⟩
      · rintro l' rfl
        exact ⟨hl, fun _ => Bool.eq_false_iff.mpr hnone⟩
  exact hclose.relax fun _ h => h.of_closed

theorem close_known : Keeps (Known t m) (close t cb) (Left t m) :=
  (known_close hcb).after fun _ _ h => h.1.of_closed

theorem known_disconnect : Keeps (Known t m) (disconnect t cb) (Left t m) := by
  refine look_real fun l _ => Triple.ite (fun _ => Triple.pure fun _ h => h) fun _ => ?_
  refine Triple.bind (core_setState core_known _) fun _ => ?_
  refine Triple.bind (close_known hcb) fun _ => ?_
  exact Triple.bind (core_note core_known _) fun _ => (hcb m).2

omit hcb in
/-- A failed datagram ends the session while `do_write()` waits, so no other can begin. -/
theorem known_failed (hcb : Obedient .udp cb) :
    Keeps (Known .udp m) (whileBusy (close .udp cb)) (Left .udp .finished) := by
  refine Triple.get fun l hl => ?_
  refine Triple.bind (Q := fun _ => Known .udp (.inside l.marks.recv)) (triple_noting ?_) fun _ => ?_
  · rintro l' rfl
    exact ⟨rfl, fun ht => ⟨(hl.2 ht).1.aside _ _ _, fun _ => rfl⟩⟩
  refine Triple.bind (Q := fun _ => Known .udp .finished) ?_ fun _ => triple_noting fun l' h =>
    ⟨hl.1, fun ht => ?_⟩
  · refine Triple.bind (Q := fun _ => Known .udp .finished) ?_ fun _ => ?_
    · exact known_endSession.after fun _ l' h => ⟨h.1.1, fun ht => ⟨(h.1.2 ht).1, h.2⟩⟩
    · exact Triple.bind (core_closeSocket core_known) fun _ => known_onClose hcb
  · obtain ⟨hinv, hdead⟩ := h.2 ht
    have hdead : l'.marks.live = false := hdead
    refine ⟨hinv.aside _ _ _, ?_⟩
    cases m with
    | free swept => exact fun _ htcp => nomatch htcp
    | inside cells => exact fun hlive => absurd (hlive : l'.marks.live = true) (by simp [hdead])
    | finished => exact hdead

/-- What `do_write()` may leave in `send_buff_`. -/
abbrev AllOrNone (n : Nat) : Circle → List Cell → Prop := fun _ cells => cells = [] ∨ cells.length = n

omit hcb in
private theorem known_doWriteUdp (n : Nat) (hcb : Obedient .udp cb) :
    Triple (fun l => Known .udp m l ∧ Sending (fun _ cells => cells.length = n) l) (doWriteUdp cb)
      (fun _ l => Known .udp m l ∧ Sending (AllOrNone n) l) (Left .udp .finished) := by
  have hsend (bytes : List UInt8) :
    Triple (fun l => Known .udp m l ∧ Sending (fun ring _ => bytes <+: ring.contents) l) (do
      hand bytes
      let ec ← real (Connection.sendDatagram bytes)
      if ec ≠ .success then whileBusy (close .udp cb) else pure ()
      resetSend) (fun _ l => Known .udp m l ∧ Sending (AllOrNone n) l) (Left .udp .finished) := by
    refine Triple.pinned fun l hl => ?_
    refine Triple.bind ((known_hand hl.1 hl.2).after fun _ l' h => h.1) fun _ => ?_
    refine Triple.bind (core_sendDatagram core_known bytes) fun ec => ?_
    have hreset : Triple (Known .udp m) (resetSend : Act κ Unit)
        (fun _ l => Known .udp m l ∧ Sending (AllOrNone n) l) (Left .udp .finished) :=
      known_resetSend.after fun _ l h => ⟨h.1, fun _ => .inl h.2⟩
    exact Triple.ite (fun _ => Triple.bind (known_failed hcb) fun _ => hreset) fun _ => hreset
  refine get_real fun l hl => Triple.ite (fun _ => ?_) fun _ => Triple.pure fun l' h =>
    h ▸ ⟨hl.1, fun ht => .inr (hl.2 ht)⟩
  refine Triple.ite (fun hrun => ?_) fun hsplit => ?_
  · have hpeek := known_peekRun hl.1
    rw [← hrun] at hpeek
    refine Triple.bind (Triple.relax (hpeek.after fun bytes l' h => ?_) fun l' h ht => ?_) hsend
    · obtain ⟨rfl, hbytes⟩ := h
      refine ⟨hl.1, fun ht => ?_⟩
      rw [hbytes ht]
      exact List.take_prefix _ _
    · obtain ⟨rfl, htainted⟩ := h
      simp [htainted] at ht
  · have hflat (ht : l.marks.tainted = false) : False := by
      have hinv := (hl.1.2 ht).1
      exact hsplit (Circle.Flat.getContinguiousCount ⟨hinv.sendRing, hinv.front rfl⟩).symm
    refine Triple.bind (triple_real ?_ ?_) hsend
    · rintro _ bytes c rfl _
      exact ⟨⟨hl.1.1, fun ht => (hflat ht).elim⟩, fun ht => (hflat ht).elim⟩
    · rintro _ fault c rfl _ ht
      exact (hflat ht).elim

omit hcb in
/-- A control block takes all there is. -/
private theorem known_doWriteKcp (hne : t ≠ .udp) (n fuel : Nat) :
    Triple (fun l => Known t m l ∧ (l.marks.tainted = false → l.marks.send.length < fuel ∧
        (l.conn.socket.kcp.isSome ∨ l.marks.send.length = n))) (doWriteKcp K fuel)
      (fun _ l => Known t m l ∧ Sending (AllOrNone n) l) (Left t .finished) := by
  induction fuel with
  | zero => exact Triple.throw fun l h ht => absurd (h.2 ht).1 (Nat.not_lt_zero _)
  | succ fuel ih =>
    refine get_real fun l hl => ?_
    cases hk : l.conn.socket.kcp with
    | none =>
      refine Triple.pure fun l' h => ?_
      subst h
      refine ⟨hl.1, fun ht => .inr ((hl.2 ht).2.resolve_left ?_)⟩
      simp [hk]
    | some block =>
      refine Triple.ite (fun hmore => ?_) fun hdone => Triple.pure fun l' h => ?_
      · refine Triple.bind ((known_peekRun hl.1).relax fun l' h ht => ?_) fun bytes =>
          Triple.given fun hbytes => ?_
        · obtain ⟨rfl, htainted⟩ := h
          simp [htainted] at ht
        refine Triple.bind (known_hand hl.1 fun ht => ?_) fun _ => ?_
        · rw [hbytes ht]
          exact List.take_prefix _ _
        refine Triple.bind (Q := fun _ l' => Known t m l' ∧ l'.conn.sendBuff = l.conn.sendBuff ∧
          l'.conn.socket.kcp.isSome ∧
          l'.marks.send = l.marks.send ∧ l'.marks.tainted = l.marks.tainted) ?_ fun _ => ?_
        · refine triple_real ?_ fun _ hr => nomatch hr
          rintro l' u c ⟨hknown, hconn, hsend, htainted⟩ hr
          cases hr
          have hring : l'.conn.sendBuff = l.conn.sendBuff := by rw [hconn]
          refine ⟨core_known.conn ?_ hknown, hring, rfl, hsend, htainted⟩
          rw [hconn]
          simp [bufs, hk]
        refine Triple.pinned fun l' h => ?_
        obtain ⟨hknown, hring, hsome, hsend, htainted⟩ := h
        have hrun (ht : l'.marks.tainted = false) : 0 < l.conn.sendBuff.getContinguiousCount.toNat ∧
            l.conn.sendBuff.getContinguiousCount.toNat ≤ l'.marks.send.length := by
          have hinv := (hl.1.2 (htainted ▸ ht)).1
          have hstart := hinv.sendRing.toNat_startRun
          have hhead := hinv.sendRing.head_lt
          have hpos : 0 < l.conn.sendBuff.getCount.toNat := UInt64.lt_iff_toNat_lt.mp hmore
          rw [hsend, hinv.length_send]
          omega
        refine Triple.bind (known_removeSend hne hknown fun ht => (hrun ht).2) fun _ =>
          ih.before fun l'' h => ⟨h.1, fun ht => ?_⟩
        obtain ⟨-, hsocket, htainted', hlen⟩ := h
        have ht' := htainted'.symm.trans ht
        have hfuel := (hl.2 (htainted ▸ ht')).1
        have hrun := hrun ht'
        rw [hlen ht', hsocket]
        refine ⟨?_, .inl hsome⟩
        rw [hsend] at hrun ⊢
        omega
      · subst h
        refine ⟨hl.1, fun ht => .inl ?_⟩
        have hcount := (hl.1.2 ht).1.length_send
        have hzero : ¬ 0 < l'.conn.sendBuff.getCount.toNat :=
          fun hpos => hdone (UInt64.lt_iff_toNat_lt.mpr hpos)
        exact List.eq_nil_of_length_eq_zero (by omega)

/-- `do_write()` leaves the packets or sends all of them. -/
theorem known_doWrite (n : Nat) :
    Triple (fun l => Known t m l ∧ Sending (fun _ cells => cells.length = n) l) (doWrite t K cb)
    (fun _ l => Known t m l ∧ Sending (AllOrNone n) l) (Left t .finished) := by
  cases t with
  | tcp =>
    refine (core_doWriteTcp (core_known.and core_sending)).after fun _ l h =>
      ⟨h.1, h.2.imp fun _ _ hn => .inr hn⟩
  | udp => exact known_doWriteUdp n hcb
  | kcp =>
    refine get_real fun l hl => (known_doWriteKcp (by decide) n _).before ?_
    rintro l' rfl
    refine ⟨hl.1, fun ht => ⟨?_, .inr (hl.2 ht)⟩⟩
    rw [(hl.1.2 ht).1.length_send]
    exact Nat.lt_succ_self _

theorem doWrite_known : Keeps (Known t m) (doWrite t K cb) (Left t m) where
  returns {l _ _} h hr := ((known_doWrite hcb l.marks.send.length).returns ⟨h, fun _ => rfl⟩ hr).1
  faults {l _ _} h hr := ((known_doWrite hcb l.marks.send.length).faults ⟨h, fun _ => rfl⟩ hr).of_finished

private theorem known_sendPacket (payload : List UInt8) :
    Keeps (Known t m) (sendPacket t K cb payload) (Left t m) := by
  refine Triple.bind known_newWriter fun w => ?_
  refine Triple.bind (Q := fun w l => Known t m l ∧
    Sending (fun ring cells => ring.Valid ∧ Open w cells) l) ?_ fun w => ?_
  · refine Triple.tryCatch (known_put w payload) fun e => ?_
    refine Triple.bind (Q := fun _ => Known t m) ?_ fun _ => Triple.throw fun _ h => h.left
    exact (known_destroy w).before fun l h => ⟨h.1, h.2.imp fun _ _ hopen => .inr hopen⟩
  refine Triple.bind (Q := fun _ l => Known t m l ∧
    Sending (fun _ cells => cells = [] ∨ Open w cells) l) ?_ fun _ => known_destroy w
  refine Triple.tryCatch (F := Left t .finished) ?_ fun e => ?_
  · exact Triple.bind (known_flush w) fun _ => known_doWrite hcb _
  · refine Triple.bind (Q := fun _ => Left t .finished) ?_ fun _ => Triple.throw fun _ h => h.of_finished
    exact (left_destroy w).relax fun _ h => h.of_finished

omit hcb in
/-- A space query leaves the contents, and shows the room behind them. -/
theorem known_space : Triple (Known (κ := κ) t m) (real (Connection.recv Circle.getContinguiousSpace))
    (fun size l => Known t m l ∧ (l.marks.tainted = false →
      size = Circle.continguiousSpaceOf l.conn.recvBuff.head l.conn.recvBuff.tail
        l.conn.recvBuff.getSize)) (Left t m) := by
  have hmoved {l : Line κ} (hl : Known t m l) {ring : Circle}
    (hring : l.marks.tainted = false → ring.Valid ∧ ring.contents = l.conn.recvBuff.contents) :
      Known t m ⟨{ l.conn with recvBuff := ring }, l.marks⟩ := by
    refine ⟨hl.1, fun ht => ⟨?_, (hl.2 ht).2⟩⟩
    have hinv := (hl.2 ht).1
    obtain ⟨hvalid, hcontents⟩ := hring ht
    exact ⟨hvalid, hinv.recvBytes.trans hcontents.symm, hinv.sendRing, hinv.sendBytes, hinv.front,
      hinv.bare, hinv.recv, hinv.send,
      hinv.block, hinv.parsed, hinv.handed⟩
  refine triple_real (fun {l size c} hl hr => ?_) fun {l fault c} hl hr => ?_
  · obtain ⟨ring, hrun, rfl⟩ := Connection.recv_eq_ok hr
    have hcases (ht : l.marks.tainted = false) : (ring.Valid ∧ ring.contents = l.conn.recvBuff.contents) ∧
        size = Circle.continguiousSpaceOf ring.head ring.tail ring.getSize := by
      rcases Circle.getContinguiousSpace_cases (hl.2 ht).1.recvRing with
        ⟨d, hspace, hvalid, hcontents, -⟩ | ⟨-, hfull⟩
      · obtain ⟨rfl, rfl⟩ := EStateM.Result.ok.inj (hspace.symm.trans hrun)
        exact ⟨⟨hvalid, hcontents⟩, rfl⟩
      · exact nomatch hfull.symm.trans hrun
    exact ⟨hmoved hl fun ht => (hcases ht).1, fun ht => (hcases ht).2⟩
  · obtain ⟨ring, hrun, rfl⟩ := Connection.recv_eq_error hr
    refine (hmoved hl fun ht => ?_).left
    rcases Circle.getContinguiousSpace_cases (hl.2 ht).1.recvRing with ⟨d, hspace, -⟩ | ⟨-, hfull⟩
    · exact nomatch hspace.symm.trans hrun
    · obtain ⟨-, rfl⟩ := EStateM.Result.error.inj (hfull.symm.trans hrun)
      exact ⟨(hl.2 ht).1.recvRing, rfl⟩

omit hcb in
theorem known_doRead : Keeps (Known (κ := κ) t m) (doRead t) (Left t m) := by
  cases t with
  | tcp => exact core_start core_known _
  | udp =>
    refine Triple.bind (known_space.after fun _ _ h => h.1) fun space => ?_
    exact look_real fun l _ => core_start core_known _
  | kcp => exact core_start core_known _

theorem known_connected : Keeps (Known t m) (connected t K cb) (Left t m) := by
  refine look_real fun l _ => Triple.ite (fun _ => ?_) fun _ => Triple.pure fun _ h => h
  refine Triple.bind (core_setState core_known _) fun _ => ?_
  refine Triple.bind (core_note core_known _) fun _ => ?_
  refine Triple.bind (hcb m).1 fun _ => ?_
  refine Triple.bind (core_note core_known _) fun _ => ?_
  refine Triple.bind (core_nonBlocking core_known fun _ h => h.left) fun _ => ?_
  exact Triple.bind known_doRead fun _ => doWrite_known hcb

omit hcb in
/-- A session that begins with what `connect()` must find holds nothing of an earlier one. -/
theorem known_beginSession :
    Triple (fun l : Line κ => Known t m.closed l ∧
      (l.marks.tainted = false → l.conn.socket.kcp.isSome = false)) (beginSession t)
      (fun _ => Known t m.closed) E := by
  refine triple_noting fun l h => ⟨h.1.1, fun ht => ?_⟩
  obtain ⟨htainted, hclean⟩ := Bool.or_eq_false_iff.mp ht
  have hclean : l.marks.clean t = true := by simpa using hclean
  obtain ⟨hfree, hempty⟩ := Bool.and_eq_true_iff.mp hclean
  have hfree : l.marks.busy = false := by simpa using hfree
  obtain ⟨hinv, hmode⟩ := h.1.2 htainted
  have hnone := h.2 htainted
  have hm : m.closed = .free true := by
    have hbusy := h.1.1.symm.trans hfree
    cases m with
    | free swept => rfl
    | inside cells => exact nomatch (show true = false from hbusy)
    | finished => exact nomatch (show true = false from hbusy)
  rw [hm] at hmode ⊢
  have hown : (∀ c ∈ l.marks.recv, c.mark = some l.marks.ended) ∧ ∀ c ∈ l.marks.send,
      c.mark = some l.marks.ended := by
    cases hlive : l.marks.live with
    | true => exact ⟨hinv.recv hlive, hinv.send hlive⟩
    | false =>
      rcases Bool.or_eq_true_iff.mp hempty with htcp | hempty
      · obtain ⟨hrecv, hsend⟩ := hmode rfl (of_decide_eq_true htcp) hlive
        refine ⟨fun c hc => ?_, hsend⟩
        rw [hrecv] at hc
        exact nomatch hc
      · obtain ⟨hrecv, hsend⟩ := Bool.and_eq_true_iff.mp hempty
        refine ⟨fun c hc => ?_, fun c hc => of_decide_eq_true (List.all_eq_true.mp hsend c hc)⟩
        rw [List.isEmpty_iff.mp hrecv] at hc
        exact nomatch hc
  refine ⟨⟨hinv.recvRing, hinv.recvBytes, hinv.sendRing, hinv.sendBytes, hinv.front, hinv.bare,
    fun _ => hown.1, fun _ => hown.2, ?_,
    hinv.parsed, hinv.handed⟩, ?_⟩
  · exact fun _ hsome => absurd hsome (by simp [hnone])
  · exact fun _ _ hlive => nomatch hlive

/-- `connect()` of udp and kcp, after its `close()`. -/
private theorem known_connectDatagram : Keeps (Known t m) (do
      real Connection.openDatagram
      real Connection.nonBlocking
      real Connection.attempt
      real Connection.attempt
      real (Connection.setState .connecting)
      let answer ← real Connection.nextAnswer
      if answer.ec ≠ .success then disconnect t cb
      else
        let ec ← real (Connection.sendDatagram (le32 0))
        if ec = .success then connected t K cb else disconnect t cb) (Left t m) := by
  refine Triple.bind (core_openDatagram core_known fun _ h => h.left) fun _ => ?_
  refine Triple.bind (core_nonBlocking core_known fun _ h => h.left) fun _ => ?_
  refine Triple.bind (core_attempt core_known fun _ h => h.left) fun _ => ?_
  refine Triple.bind (core_attempt core_known fun _ h => h.left) fun _ => ?_
  refine Triple.bind (core_setState core_known _) fun _ => ?_
  refine Triple.bind (core_nextAnswer core_known) fun answer => ?_
  refine Triple.ite (fun _ => known_disconnect hcb) fun _ => ?_
  refine Triple.bind (core_sendDatagram core_known _) fun ec => ?_
  exact Triple.ite (fun _ => known_connected hcb) fun _ => known_disconnect hcb

private theorem known_connect : Keeps (Known t m) (connect t K cb) (Left t m) := by
  have hbegin : Steady (Connection.beginSession : EStateM Fault (Sock Circle κ) Unit) := by
    refine fun b => Triple.look fun s _ => Triple.bind (steady_socketDo ?_ b) fun _ => steady_note _ b
    intro a
    rfl
  refine Triple.bind (core_real core_known hbegin fun _ h => h.left) fun _ => ?_
  refine Triple.bind (known_close hcb) fun _ => ?_
  refine Triple.bind known_beginSession fun _ => ?_
  refine Triple.before (P := Known t m) ?_ fun _ h => h.of_closed
  cases t with
  | tcp =>
    refine Triple.bind (core_setState core_known _) fun _ => ?_
    refine Triple.bind (core_socketDo core_known fun _ => rfl) fun _ => ?_
    exact core_start core_known _
  | udp => exact known_connectDatagram hcb
  | kcp => exact known_connectDatagram hcb

theorem known_perform (calls : List Call) : Keeps (Known t m) (perform t K cb calls) (Left t m) := by
  induction calls with
  | nil => exact Triple.pure fun _ h => h
  | cons call calls ih =>
    cases call with
    | connect => exact Triple.bind (known_connect hcb) fun _ => ih
    | disconnect => exact Triple.bind (known_disconnect hcb) fun _ => ih
    | send payload => exact Triple.bind (known_sendPacket hcb payload) fun _ => ih

omit hcb in
private theorem known_applicationCode {fromRecv : Bool} {body : List Call → Act κ Unit}
    (hbody : ∀ calls, Keeps (Known t m) (body calls) (Left t m)) :
    Keeps (Known t m) (applicationCode fromRecv body) (Left t m) := by
  refine look_real fun l _ => ?_
  cases l.conn.socket.scripts with
  | nil => exact Triple.pure fun _ h => h
  | cons script scripts =>
    refine Triple.bind (core_socketDo core_known fun _ => rfl) fun _ => ?_
    exact Triple.bind (hbody script) fun _ => core_socketDo core_known fun _ => rfl

omit hcb in
theorem callbacks_obedient (fuel : Nat) : Obedient t (callbacks t K fuel) := by
  induction fuel with
  | zero => exact fun m => ⟨Triple.pure fun _ h => h, Triple.pure fun _ h => h⟩
  | succ fuel ih =>
    exact fun m => ⟨known_applicationCode (known_perform ih),
      known_applicationCode (known_perform ih)⟩

omit hcb in
theorem callbacks_onRecv (fuel i : Nat) (r : Reader) :
    Keeps (Known t m) ((callbacks t K fuel).onRecv i r) (Left t m) := by
  cases fuel with
  | zero => exact Triple.pure fun _ h => h
  | succ fuel => exact known_applicationCode (known_perform (callbacks_obedient fuel))

end Calls
end Invariant
end Provenance
end SimpleNetwork
