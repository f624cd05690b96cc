import SimpleNetwork.Asio.Erasure
import SimpleNetwork.Asio.PlainKcp
import SimpleNetwork.Asio.Provenance

/-! The handlers of a connector keep the bytes of its sessions apart, and so does every
run whose steps meet their conditions. -/
namespace SimpleNetwork
open Words Outcome Runs

namespace Provenance
variable {κ : Type} {t : Transport} {K : Ikcp κ} {cb : Callbacks κ} {l l' : Line κ} {E : Line κ → Prop}

abbrev Fine (t : Transport) : Line κ → Prop := Known t (.free false)

abbrev Spilt (t : Transport) : Line κ → Prop := Left t (.free false)

section Receiving

/-- A call on `recv_buff_` that leaves it alone. -/
private theorem still {α : Type} {x : EStateM Fault Circle α}
    (hx : ∀ ring, Keeps (fun c => c = ring) x fun c => c = ring) {P : Line κ → Prop} :
    Keeps P (real (Connection.recv x)) P := by
  refine triple_real (fun hl hr => ?_) fun hl hr => ?_
  · obtain ⟨ring, hrun, rfl⟩ := Connection.recv_eq_ok hr
    obtain rfl := (hx _).returns rfl hrun
    exact hl
  · obtain ⟨ring, hrun, rfl⟩ := Connection.recv_eq_error hr
    obtain rfl := (hx _).faults rfl hrun
    exact hl

private theorem still_peek (ring : Circle) : Keeps (fun c => c = ring) (Circle.read 4 0) fun c => c = ring :=
  Circle.keeps_peekFuel _ 4 0 (by decide)

private theorem still_reader (ring : Circle) :
    Keeps (fun c => c = ring) (Reader.new : EStateM Fault Circle Reader) fun c => c = ring :=
  Triple.bind (still_peek ring) fun _ => Triple.pure fun _ h => h

/-- A packet is removed from the cells it was parsed from, unless the session has ended. -/
private theorem fine_removePacket {cells : List Cell} {size : UInt64} (hsize : size.toNat ≤ cells.length) :
    Triple (fun l : Line κ => Fine t l ∧ (l.marks.tainted = false → l.marks.live → l.marks.recv = cells))
      (following (Connection.recv (Circle.remove size)) fun c g =>
        { g with recv := dropped size c.recvBuff g.recv }) (fun _ => Fine t) E := by
  refine triple_following (fun {l u c} hl hr => ?_) fun _ hr => nomatch hr
  obtain ⟨ring, hrun, rfl⟩ := Connection.recv_eq_ok hr
  refine hl.1.with_recv fun ht hinv => ?_
  by_cases hle : size.toNat ≤ l.marks.recv.length
  · obtain ⟨d, hremove, hvalid, hcontents, -⟩ :=
      Circle.remove_spec hinv.recvRing (n := size)
        (by rw [← hinv.recvBytes, List.length_map]; exact hle)
    obtain ⟨-, rfl⟩ := EStateM.Result.ok.inj (hremove.symm.trans hrun)
    rw [dropped, if_pos hle]
    refine ⟨hvalid, ?_, fun hlive c hc => hinv.recv hlive c (List.mem_of_mem_drop hc)⟩
    rw [hcontents, List.map_drop, hinv.recvBytes]
  · have hdead : ¬ l.marks.live := fun hlive => hle (by rw [hl.2 ht hlive]; exact hsize)
    have hvalid : ring.Valid := by
      cases hrun
      exact ⟨hinv.recvRing.pow, hinv.recvRing.growth, hinv.recvRing.sound.mod_lt _, hinv.recvRing.tail_lt⟩
    rw [dropped, if_neg hle]
    exact ⟨hvalid, map_byte_marked _ _, fun hlive => absurd hlive hdead⟩

/-- What `on_recv` may look at belongs to the session. -/
private theorem fine_show (hl : Fine t l) : Triple (fun l' => l' = l)
    (noting fun c g => { g with parsed := g.parsed ++ [⟨g.session, c.recvBuff.contents, g.recv⟩] })
    (fun _ l' => Fine t l' ∧ l'.marks.recv = l.marks.recv ∧ l'.marks.tainted = l.marks.tainted) E := by
  refine triple_noting ?_
  rintro l rfl
  refine ⟨⟨hl.1, fun ht => ⟨?_, fun hswept => nomatch hswept⟩⟩, rfl, rfl⟩
  have hinv := (hl.2 ht).1
  have hlook : Look.Own ⟨l.marks.session, l.conn.recvBuff.contents, l.marks.recv⟩ :=
    own_look hinv.recvBytes.symm hinv.recv
  exact ⟨hinv.recvRing, hinv.recvBytes, hinv.sendRing, hinv.sendBytes, hinv.front, hinv.bare,
    hinv.recv, hinv.send, hinv.block,
    fun look hmem => mem_snoc_own hinv.parsed hlook hmem, hinv.handed⟩

variable (hrecv : ∀ m i r, Keeps (Known t m) (cb.onRecv i r) (Left t m))
include hrecv

/-- In the session that was going on, `on_recv` leaves `recv_buff_` alone. -/
private theorem fine_onRecv (i : Nat) (r : Reader) (cells : List Cell) :
    Triple (fun l => Fine t l ∧ (l.marks.tainted = false → l.marks.recv = cells))
    (whileBusy (cb.onRecv i r))
    (fun _ l => Fine t l ∧ (l.marks.tainted = false → l.marks.live → l.marks.recv = cells)) (Spilt t) := by
  refine Triple.get fun l hl => ?_
  refine Triple.bind (Q := fun _ => Known t (.inside cells)) (triple_noting ?_) fun _ => ?_
  · rintro l' rfl
    exact ⟨rfl, fun ht => ⟨(hl.1.2 ht).1.aside _ _ _, fun _ => hl.2 ht⟩⟩
  refine Triple.bind ((hrecv _ i r).relax fun _ h ht => ⟨(h ht).1, fun hm => nomatch hm⟩) fun _ =>
    triple_noting fun l' h => ?_
  exact ⟨⟨hl.1.1, fun ht => ⟨(h.2 ht).1.aside _ _ _, fun hswept => nomatch hswept⟩⟩, fun ht => (h.2 ht).2⟩

private theorem fine_onReadRound : Keeps (Fine t) (onReadRound cb) (Spilt t) := by
  refine get_real fun l hl => Triple.ite (fun _ => Triple.pure fun _ h => h ▸ hl) fun _ => ?_
  refine Triple.bind ((still still_peek).relax fun _ h => h ▸ hl.left) fun bytes => ?_
  refine look_real fun l' hl' => ?_
  subst hl'
  refine Triple.ite (fun _ => Triple.pure fun _ h => h ▸ hl) fun hfits => ?_
  refine Triple.bind ((still still_reader).relax fun _ h => h ▸ hl.left) fun reader => ?_
  refine look_real fun _ _ => ?_
  -- where a step has failed its condition, any cells will do
  obtain ⟨cells, hsize, hcells⟩ : ∃ cells : List Cell,
    ((ofLe32 bytes).toUInt64 + 4).toUInt32.toUInt64.toNat ≤ cells.length ∧
      (l'.marks.tainted = false → l'.marks.recv = cells) := by
    by_cases ht : l'.marks.tainted = false
    · refine ⟨l'.marks.recv, ?_, fun _ => rfl⟩
      have hinv := (hl.2 ht).1
      have hlen : l'.marks.recv.length = l'.conn.recvBuff.getCount.toNat := by
        rw [← hinv.recvRing.length_contents, ← hinv.recvBytes, List.length_map]
      rw [hlen]
      exact UInt64.le_iff_toNat_le.mp (UInt64.not_lt.mp hfits)
    · exact ⟨List.replicate _ ⟨0, none⟩, by rw [List.length_replicate], fun h => absurd h ht⟩
  refine Triple.bind (fine_show hl) fun _ => ?_
  refine Triple.bind ((fine_onRecv hrecv _ _ cells).before fun _ h =>
    ⟨h.1, fun ht => h.2.1.trans (hcells (h.2.2.symm.trans ht))⟩) fun _ => ?_
  refine Triple.bind (fine_removePacket hsize) fun _ => ?_
  refine Triple.bind (core_real core_known (fun b => Triple.modify fun _ h => h) fun _ h =>
    h.left) fun _ => ?_
  exact look_real fun _ _ => Triple.pure fun _ h => h

theorem fine_onRead (rounds : Nat) : Keeps (Fine t) (onRead cb rounds) (Spilt t) := by
  induction rounds with
  | zero => exact Triple.throw fun _ h => h.left
  | succ rounds ih =>
    refine Triple.bind (fine_onReadRound hrecv) fun more => ?_
    exact Triple.ite (fun _ => ih) fun _ => Triple.pure fun _ h => h

/-- Data with this mark belongs to the session. -/
def Timely (mark : Mark) (l : Line κ) : Prop :=
  l.marks.tainted = false → l.marks.live → mark = some l.marks.ended

def Room (n : Nat) (l : Line κ) : Prop := l.marks.tainted = false →
  n ≤ (Circle.continguiousSpaceOf l.conn.recvBuff.head l.conn.recvBuff.tail l.conn.recvBuff.getSize).toNat

omit hrecv in
private theorem core_room (n : Nat) : Core (Room (κ := κ) n) where
  conn {l c} hc h ht := by
    have hring : c.recvBuff = l.conn.recvBuff := congrArg Prod.fst hc
    change n ≤ (Circle.continguiousSpaceOf c.recvBuff.head c.recvBuff.tail c.recvBuff.getSize).toNat
    rw [hring]
    exact h ht
  started _ h := h

omit hrecv in
private theorem core_timely (mark : Mark) : Core (Timely (κ := κ) mark) := ⟨fun _ h => h, fun _ h => h⟩

omit hrecv in
/-- Bytes that fit behind the contents arrive. -/
theorem fine_arrive {mark : Marks → Mark} {bytes : List UInt8} {count : UInt64}
    (hcount : count = UInt64.ofNat bytes.length) :
    Triple (fun l : Line κ => Fine t l ∧ Timely (mark l.marks) l ∧ Room bytes.length l)
      (arrive mark bytes count) (fun _ => Fine t) (Spilt t) := by
  subst hcount
  have hfill {l : Line κ} (hl : Fine t l ∧ Timely (mark l.marks) l ∧ Room bytes.length l)
      (ht : l.marks.tainted = false) : ∃ ring, (do
        Connection.recv (Circle.pokeEnd bytes)
        Connection.recv (Circle.written (UInt64.ofNat bytes.length)) :
          EStateM Fault (Sock Circle κ) Unit) l.conn =
          .ok () { l.conn with recvBuff := ring } ∧ ring.Valid ∧
            ring.contents = l.conn.recvBuff.contents ++ bytes := by
    have hinv := (hl.1.2 ht).1
    have hroom := hl.2.2 ht
    rw [hinv.recvRing.toNat_continguiousSpace] at hroom
    obtain ⟨ring, hfill, hvalid, hcontents, -⟩ := Circle.fill_spec hinv.recvRing bytes hroom
    obtain ⟨u, ring', hpoke, hwritten⟩ := bind_eq_ok.mp hfill
    refine ⟨ring, ?_, hvalid, hcontents⟩
    rw [bind_ok (Connection.recv_ok hpoke)]
    exact Connection.recv_ok hwritten
  refine triple_following (fun {l u c} hl hr => ?_) fun {l fault c} hl hr ht => ?_
  · by_cases ht : l.marks.tainted = false
    · obtain ⟨ring, hrun, hvalid, hcontents⟩ := hfill hl ht
      obtain ⟨-, rfl⟩ := EStateM.Result.ok.inj (hrun.symm.trans hr)
      refine hl.1.with_recv fun _ hinv => ⟨hvalid, ?_, fun hlive c hc => ?_⟩
      · rw [List.map_append, hinv.recvBytes, map_byte_marked, hcontents]
      · rcases List.mem_append.mp hc with hc | hc
        · exact hinv.recv hlive c hc
        · exact (mem_marked hc).trans (hl.2.1 ht hlive)
    · exact ⟨hl.1.1, fun h => absurd h ht⟩
  · obtain ⟨ring, hrun, -⟩ := hfill hl ht
    exact nomatch hrun.symm.trans hr

omit hrecv in
private theorem timely_session (l : Line κ) : Timely l.marks.session l :=
  fun _ hlive => by simp [Marks.session, hlive]

omit hrecv in
private theorem fine_space : Triple (Fine (κ := κ) t) (real (Connection.recv Circle.getContinguiousSpace))
    (fun size l => Fine t l ∧ Room size.toNat l) (Spilt t) :=
  known_space.after fun size l h => ⟨h.1, fun ht => by rw [h.2 ht]⟩

omit hrecv in
theorem fine_close (hcb : Obedient t cb) : Keeps (Fine t) (close t cb) (Spilt t) := close_known hcb

private theorem fine_receiveLoop (hcb : Obedient .tcp cb) (htcp : t = .tcp) (rounds fuel : Nat) :
    Keeps (Fine t) (receiveLoop cb rounds fuel) (Spilt t) := by
  subst htcp
  induction fuel with
  | zero => exact Triple.throw fun _ h => h.left
  | succ fuel ih =>
    refine Triple.bind fine_space fun size => Triple.ite (fun _ => Triple.pure fun _ h => h.1) fun _ => ?_
    refine Triple.bind (core_nextAnswer (core_known.and (core_room _))) fun answer => ?_
    refine Triple.ite (fun _ => ?_) fun _ => ?_
    · refine Triple.bind ((fine_arrive rfl).before fun l h => ⟨h.1, timely_session l, fun ht => ?_⟩)
        fun _ => ?_
      · have hword : size.toUInt32.toNat ≤ size.toNat := by
          rw [UInt64.toNat_toUInt32]
          exact Nat.mod_le _ _
        exact Nat.le_trans (Nat.le_trans (List.length_take_le _ _) hword) (h.2 ht)
      · refine Triple.bind (core_note core_known _) fun _ =>
          Triple.bind (fine_onRead hrecv rounds) fun _ => ?_
        split
        · exact ih
        · exact Triple.pure fun _ h => h
        · exact Triple.bind (fine_close hcb) fun _ => Triple.pure fun _ h => h
    · refine Triple.before ?_ fun _ h => h.1
      split
      · exact ih
      · exact Triple.pure fun _ h => h
      · exact Triple.bind (fine_close hcb) fun _ => Triple.pure fun _ h => h

end Receiving

section Sending

/-- The front of the ring is handed over and removed. -/
private theorem fine_handOver {bytes : List UInt8} :
    Triple (fun l : Line κ => Fine .tcp l ∧ Sending (fun ring _ => bytes <+: ring.contents) l)
    (hand bytes >>= fun _ => removeSend (UInt64.ofNat bytes.length)) (fun _ => Fine .tcp) E := by
  refine Triple.pinned fun l hl => ?_
  refine Triple.bind (known_hand hl.1 hl.2) fun _ => Triple.pinned fun l' h => ?_
  obtain ⟨hknown, -, hsend, htainted⟩ := h
  refine (known_removeSend (by decide) hknown fun ht => ?_).after fun _ _ h => h.1
  have hinv := (hl.1.2 (htainted ▸ ht)).1
  have hprefix : bytes.length ≤ l.conn.sendBuff.contents.length := (hl.2 (htainted ▸ ht)).length_le
  rw [← hinv.sendBytes, List.length_map] at hprefix
  rw [hsend]
  refine Nat.le_trans ?_ hprefix
  rw [UInt64.toNat_ofNat']
  exact Nat.mod_le _ _

private theorem fine_sendOnce : Keeps (Fine (κ := κ) .tcp) sendOnce (Spilt .tcp) := by
  refine get_real fun l hl => ?_
  refine Triple.bind ((known_peekRun hl).relax fun l' h ht => ?_) fun bytes => Triple.given fun hbytes => ?_
  · obtain ⟨rfl, htainted⟩ := h
    simp [htainted] at ht
  refine Triple.bind (Q := fun _ l' => Fine .tcp l' ∧
    Sending (fun ring _ => bytes <+: ring.contents) l') ?_ fun answer => ?_
  · refine (core_nextAnswer (core_known.and core_sending)).before ?_
    rintro l' rfl
    refine ⟨hl, fun ht => ?_⟩
    rw [hbytes ht]
    exact List.take_prefix _ _
  refine Triple.ite (fun _ => ?_) fun _ => Triple.pure fun _ h => h.1
  rw [← bind_assoc]
  refine Triple.bind (fine_handOver.before fun l' h =>
    ⟨h.1, h.2.imp fun _ _ h => (List.take_prefix _ _).trans h⟩) fun _ => ?_
  exact Triple.bind (core_note core_known _) fun _ => Triple.pure fun _ h => h

private theorem fine_sendLoop (hcb : Obedient .tcp cb) (fuel : Nat) :
    Keeps (Fine .tcp) (sendLoop cb fuel) (Spilt .tcp) := by
  induction fuel with
  | zero => exact Triple.throw fun _ h => h.left
  | succ fuel ih =>
    refine Triple.bind fine_sendOnce fun ec => ?_
    cases ec with
    | success => exact look_real fun l _ => Triple.ite (fun _ => ih) fun _ => Triple.pure fun _ h => h
    | wouldBlock => exact Triple.pure fun _ h => h
    | operationAborted => exact Triple.bind (fine_close hcb) fun _ => Triple.pure fun _ h => h
    | failure => exact Triple.bind (fine_close hcb) fun _ => Triple.pure fun _ h => h

end Sending

section Handlers

/-- A step that does not look at the session leaves data in time. -/
private theorem timely_watch {α : Type} {mark : Mark} {x : EStateM Fault (Sock Circle κ) α}
    {f : Sock Circle κ → EStateM.Result Fault (Sock Circle κ) α → Marks → Marks}
    (hf : ∀ s r g, (f s r g).tainted = false →
      (f s r g).live → g.tainted = false ∧ g.live ∧
        (f s r g).ended = g.ended) : Keeps (Timely mark) (watch x f) (Timely mark) := by
  refine triple_watch (fun {l a c} hl _ ht hlive => ?_) fun {l e c} hl _ ht hlive => ?_
  · obtain ⟨ht, hlive, hended⟩ := hf _ _ l.marks ht hlive
    exact (hl ht hlive).trans (congrArg some hended.symm)
  · obtain ⟨ht, hlive, hended⟩ := hf _ _ l.marks ht hlive
    exact (hl ht hlive).trans (congrArg some hended.symm)

private theorem timely_following {α : Type} {mark : Mark} {x : EStateM Fault (Sock Circle κ) α}
    {f : Sock Circle κ → Marks → Marks}
    (hf : ∀ c g, (f c g).tainted = false → (f c g).live → g.tainted = false ∧ g.live ∧
      (f c g).ended = g.ended) :
    Keeps (Timely mark) (following x f) (Timely mark) := by
  refine timely_watch fun _ r g ht hlive => ?_
  cases r with
  | ok _ c => exact hf c g ht hlive
  | error _ _ => exact ⟨ht, hlive, rfl⟩

private theorem timely_doWriteKcp {mark : Mark} (fuel : Nat) :
    Keeps (Timely mark) (doWriteKcp K fuel) (Timely mark) := by
  have hwatch {α : Type} {x : EStateM Fault (Sock Circle κ) α} : Keeps (Timely mark) (real x) (Timely mark) :=
    timely_watch fun _ _ _ ht hlive => ⟨ht, hlive, rfl⟩
  induction fuel with
  | zero => exact Triple.throw fun _ h => h
  | succ fuel ih =>
    refine look_real fun l _ => ?_
    cases l.conn.socket.kcp with
    | none => exact Triple.pure fun _ h => h
    | some block =>
      refine Triple.ite (fun _ => ?_) fun _ => Triple.pure fun _ h => h
      refine Triple.bind hwatch fun bytes => ?_
      refine Triple.bind (Q := fun _ => Timely mark) (triple_noting fun _ h => h) fun _ => ?_
      refine Triple.bind hwatch fun _ => ?_
      exact Triple.bind (timely_following fun _ _ ht hlive => ⟨ht, hlive, rfl⟩) fun _ => ih

/-- A datagram at its place: what is stored, and what that makes of the ring. -/
private theorem placed_run {place : UInt64} {bytes : List UInt8} {s c : Sock Circle κ}
    (hs : s.recvBuff.Valid) {u : Unit}
    (hr : (do
      let s ← get
      let stored ← s.recvBuff.data.store place bytes
      modify fun s => { s with recvBuff := { s.recvBuff with data := stored } }
      Connection.recv (Circle.written (UInt64.ofNat bytes.length)) :
        EStateM Fault (Sock Circle κ) Unit) s = .ok u c) :
    ∃ ring, c = { s with recvBuff := ring } ∧ ring.Valid ∧
      (place = s.recvBuff.tail → bytes.length ≤
        (Circle.continguiousSpaceOf s.recvBuff.head s.recvBuff.tail s.recvBuff.getSize).toNat →
        ring.contents = s.recvBuff.contents ++ bytes) := by
  rw [get_bind] at hr
  obtain ⟨stored, s', hstore, hrest⟩ := bind_eq_ok.mp hr
  rw [Data.store] at hstore
  split at hstore
  · rename_i hroom
    cases hstore
    cases hrest
    have hlen := CellRing.length_overwrite hroom
    have hsound : Circle.Sound ⟨⟨CellRing.overwrite s.recvBuff.data.mem place.toNat bytes,
      s.recvBuff.data.maxSize⟩, s.recvBuff.head,
        s.recvBuff.tail⟩ := ⟨hlen.symm ▸ hs.pow, hlen.symm ▸ hs.growth, hlen.symm ▸ hs.head_lt⟩
    refine ⟨_, rfl, ⟨hsound.pow, hsound.growth, hsound.head_lt, hsound.mod_lt _⟩, ?_⟩
    rintro rfl hfits
    rw [hs.toNat_continguiousSpace] at hfits
    obtain ⟨ring, hfill, -, hcontents, -⟩ := Circle.fill_spec hs bytes hfits
    rw [← hcontents]
    rw [Circle.pokeEnd, bind_assoc, get_bind, bind_assoc, bind_ok (Data.store_of_le hroom _)] at hfill
    cases hfill
    rfl
  · cases hstore

/-- A datagram whose receive was started in the session that is going on. -/
private theorem fine_placed {mark : Mark} {place : UInt64} {bytes : List UInt8} (hl : Fine t l)
    (htimely : Timely mark l) :
    Triple (fun l' => l' = l) (placed mark place bytes l.conn.recvBuff) (fun _ => Fine t) (Spilt t) := by
  refine triple_following ?_ ?_
  · rintro l u c rfl hr
    by_cases ht : l.marks.tainted = false
    · have hinv := (hl.2 ht).1
      obtain ⟨ring, rfl, hvalid, hcontents⟩ := placed_run hinv.recvRing hr
      split
      · rename_i hplace
        refine hl.with_recv fun _ _ => ⟨hvalid, ?_, fun hlive c hc => ?_⟩
        · rw [hcontents hplace.1 hplace.2, List.map_append, hinv.recvBytes, map_byte_marked]
        · exact (List.mem_append.mp hc).elim (hinv.recv hlive c) fun hc =>
            (mem_marked hc).trans (htimely ht hlive)
      · refine ⟨hl.1, fun ht' => ?_⟩
        have hdead : l.marks.live = false := (Bool.or_eq_false_iff.mp ht').2
        have hnew : Fine t ⟨{ l.conn with recvBuff := ring },
          { l.marks with recv := marked none ring.contents }⟩ := hl.with_recv fun _ _ =>
          ⟨hvalid, map_byte_marked _ _, fun hlive => absurd hlive (by simp [hdead])⟩
        exact ⟨(hnew.2 ht).1.aside _ _ _, fun hswept => nomatch hswept⟩
    · split
      · exact ⟨hl.1, fun h => absurd h ht⟩
      · exact ⟨hl.1, fun h => absurd (Bool.or_eq_false_iff.mp h).1 ht⟩
  · rintro l fault c rfl hr
    have hsame : c = l.conn := by
      rw [get_bind] at hr
      rcases bind_eq_error.mp hr with hstore | ⟨stored, s', -, hrest⟩
      · rw [Data.store] at hstore
        split at hstore
        · cases hstore
        · cases hstore
          rfl
      · cases hrest
    subst hsame
    exact hl.left

variable (hrecv : ∀ m i r, Keeps (Known t m) (cb.onRecv i r) (Left t m)) (hcb : Obedient t cb)
include hrecv hcb

private theorem fine_handleReceiveUdp (hudp : t = .udp) (rounds : Nat) (mark : Mark)
    (place space : UInt64) (ec : ErrorCode) (data : List UInt8) :
    Triple (fun l : Line κ => Fine t l ∧ (ec = .success → Timely mark l))
      (handleReceiveUdp cb rounds mark place space ec data)
      (fun _ => Fine t) (Spilt t) := by
  subst hudp
  refine Triple.ite (fun _ => (fine_close hcb).before fun _ h => h.1) fun hec => ?_
  refine get_real fun l hl => ?_
  refine Triple.bind (fine_placed hl.1 (hl.2 (not_not.mp hec))) fun _ => ?_
  refine Triple.bind (core_note core_known _) fun _ => ?_
  refine Triple.bind (fine_onRead hrecv rounds) fun _ => ?_
  refine Triple.bind (Q := fun _ => Fine .udp) ?_ fun _ => known_doRead
  refine triple_following (fun {l a c} hl hr => ?_) fun _ hr => nomatch hr
  cases hr
  have hreset : Fine .udp ⟨{ l.conn with recvBuff := l.conn.recvBuff.reset },
    { l.marks with recv := [] }⟩ := hl.with_recv fun _ hinv =>
    ⟨hinv.recvRing.reset.1, hinv.recvRing.reset.2.symm, fun _ c hc => nomatch hc⟩
  exact core_known.conn (by rfl) hreset

omit hrecv in
private theorem fine_handleReceiveKcp (hkcp : t = .kcp) (mark : Mark) (ec : ErrorCode) (data : List UInt8) :
    Triple (fun l : Line κ => Fine t l ∧ (ec = .success → Timely mark l)) (handleReceiveKcp K cb mark ec data)
      (fun _ => Fine t) (Spilt t) := by
  subst hkcp
  have hlast : Triple (fun l : Line κ => Fine .kcp l ∧ Timely mark l) (do
      following (Connection.socketDo fun a =>
        { a with kcp := a.kcp.map fun block => K.input block (data.take Connection.kcpBufferSize.toNat) })
        fun _ g => { g with block := mix mark g.block }
      doRead .kcp) (fun _ => Fine .kcp) (Spilt .kcp) := by
    refine Triple.bind (Q := fun _ => Fine .kcp) ?_ fun _ => known_doRead
    refine triple_following (fun {l a c} hl hr => ?_) fun _ hr => nomatch hr
    cases hr
    refine ⟨hl.1.1, fun ht => ⟨?_, fun hswept => nomatch hswept⟩⟩
    have hinv := (hl.1.2 ht).1
    refine ⟨hinv.recvRing, hinv.recvBytes, hinv.sendRing, hinv.sendBytes, hinv.front,
      fun hne => absurd rfl hne, hinv.recv, hinv.send,
      fun hlive hsome => ?_, hinv.parsed, hinv.handed⟩
    have hsome : l.conn.socket.kcp.isSome := by simpa using hsome
    change mix mark l.marks.block = some l.marks.ended
    rw [mix, hl.2 ht hlive, hinv.block hlive hsome, if_pos rfl]
  refine Triple.ite (fun _ => (fine_close hcb).before fun _ h => h.1) fun hec => ?_
  refine Triple.before (P := fun l => Fine .kcp l ∧ Timely mark l) ?_ fun l h => ⟨h.1, h.2 (not_not.mp hec)⟩
  refine Triple.bind (core_socketDo (core_known.and (core_timely mark)) fun _ => rfl) fun _ => ?_
  refine Triple.bind (core_note (core_known.and (core_timely mark)) _) fun _ => ?_
  refine look_real fun l _ => Triple.ite (fun _ => Triple.pure fun _ h => h.1) fun _ => ?_
  refine Triple.ite (fun _ => ?_) fun _ => hlast
  refine Triple.bind (Q := fun _ l => Fine .kcp l ∧ Timely mark l) ?_ fun _ => ?_
  · refine triple_following (fun {l a c} hl hr => ?_) fun _ hr => nomatch hr
    cases hr
    refine ⟨⟨hl.1.1, fun ht => ⟨?_, fun hswept => nomatch hswept⟩⟩, hl.2⟩
    have hinv := (hl.1.2 ht).1
    exact ⟨hinv.recvRing, hinv.recvBytes, hinv.sendRing, hinv.sendBytes, hinv.front,
      fun hne => absurd rfl hne, hinv.recv, hinv.send,
      fun hlive _ => hl.2 ht hlive, hinv.parsed, hinv.handed⟩
  · have hwrite := (doWrite_known (K := K) (m := .free false) hcb).and
      (look_real fun (l : Line κ) (_ : Timely mark l) => timely_doWriteKcp (K := K) _)
    exact Triple.bind (hwrite.relax fun _ h => h.1) fun _ => hlast

omit hrecv hcb in
private theorem core_hasBlock : Core fun l : Line κ => l.conn.socket.kcp.isSome where
  conn {l c} hc h := by
    have hsome : c.socket.kcp.isSome = l.conn.socket.kcp.isSome :=
      congrArg (fun b : Circle × Circle × Bool => b.2.2) hc
    exact hsome.trans h
  started _ h := h

omit hrecv in
/-- Until a send fails, the control block stays. -/
private theorem fine_output (hkcp : t = .kcp) (datagrams : List (List UInt8)) :
    Keeps (fun l : Line κ => Fine t l ∧ l.conn.socket.kcp.isSome) (output cb datagrams) (Spilt t) := by
  subst hkcp
  induction datagrams with
  | nil => exact Triple.pure fun _ h => h
  | cons bytes rest ih =>
    refine Triple.bind (core_sendDatagram (core_known.and core_hasBlock) bytes) fun ec =>
      Triple.ite (fun _ => ?_) fun _ => ih
    exact Triple.bind ((fine_close hcb).before fun _ h => h.1) fun _ => Triple.throw fun _ h => h.left

omit hrecv hcb in
/-- A control block takes the place of another one. -/
private theorem core_setBlock {G : Line κ → Prop} (hG : Core G) (block : κ) :
    Keeps (fun l => G l ∧ l.conn.socket.kcp.isSome)
    (real (Connection.socketDo fun a => { a with kcp := some block })) E := by
  refine triple_real (fun {l a c} hl hr => ?_) fun _ hr => nomatch hr
  cases hr
  refine ⟨hG.conn ?_ hl.1, rfl⟩
  simp [bufs, hl.2]

theorem fine_update (hK : K.Copies) (hkcp : t = .kcp) (rounds : Nat) (current : UInt32) :
    Keeps (Fine t) (update K cb rounds current) (Spilt t) := by
  refine get_real fun l hl => ?_
  cases hk : l.conn.socket.kcp with
  | none => exact Triple.pure fun _ h => h ▸ hl
  | some block =>
    refine Triple.before (P := fun l => Fine t l ∧ l.conn.socket.kcp.isSome) ?_ ?_
    · refine Triple.bind (fine_output hcb hkcp _) fun _ => ?_
      refine Triple.bind (core_setBlock core_known _) fun _ => ?_
      refine Triple.bind (Q := fun size l => (Fine t l ∧ Room size.toNat l) ∧
        l.conn.socket.kcp.isSome) ?_ fun size => ?_
      · have hblock : Keeps (fun l : Line κ => l.conn.socket.kcp.isSome)
          (real (Connection.recv Circle.getContinguiousSpace))
            fun l => l.conn.socket.kcp.isSome := by
          refine triple_real (fun hl hr => ?_) fun hl hr => ?_
          · obtain ⟨ring, -, rfl⟩ := Connection.recv_eq_ok hr
            exact hl
          · obtain ⟨ring, -, rfl⟩ := Connection.recv_eq_error hr
            exact hl
        exact (fine_space.and hblock).relax fun _ h => h.1
      refine Triple.bind (core_setBlock (core_known.and (core_room _)) _) fun _ => ?_
      refine Triple.ite (fun hpos => ?_) fun _ => Triple.pure fun _ h => h.1.1
      have hcopied := hK (K.update block current).2 size.toUInt32 (Int.le_of_lt hpos)
      have hfits : (K.recv (K.update block current).2 size.toUInt32).2.1.length ≤ size.toNat := by
        refine Nat.le_trans hcopied.2 ?_
        rw [UInt64.toNat_toUInt32]
        exact Nat.mod_le _ _
      have hcount : ofInt (K.recv (K.update block current).2 size.toUInt32).1 =
          UInt64.ofNat (K.recv (K.update block current).2 size.toUInt32).2.1.length := by
        have hlt := size.toNat_lt
        rw [← UInt64.toNat_inj, hcopied.1, toNat_ofInt_natCast (by omega), toNat_ofNat_of_lt (by omega)]
      refine Triple.bind ((fine_arrive hcount).before fun l h =>
        ⟨h.1.1, fun ht hlive => ?_, fun ht => ?_⟩) fun _ => fine_onRead hrecv rounds
      · exact (h.1.1.2 ht).1.block hlive h.2
      · exact Nat.le_trans hfits (h.1.2 ht)
    · rintro l' rfl
      exact ⟨hl, by simp [hk]⟩

/-- Handlers of a datagram that belongs to the session. -/
theorem fine_handle (rounds : Nat) (mark : Mark) (operation : Operation) (ec : ErrorCode)
    (data : List UInt8) :
    Triple (fun l : Line κ => Fine t l ∧ (t ≠ .tcp → ec = .success → Timely mark l))
      (handle t K cb rounds mark operation ec data)
      (fun _ => Fine t) (Spilt t) := by
  have hnothing : Triple (fun l : Line κ => Fine t l ∧ (t ≠ .tcp → ec = .success → Timely mark l))
    (pure () : Act κ Unit)
      (fun _ => Fine t) (Spilt t) := Triple.pure fun _ h => h.1
  cases t with
  | tcp =>
    refine Triple.before (P := Fine .tcp) ?_ fun _ h => h.1
    cases operation with
    | connect => exact Triple.ite (fun _ => known_connected hcb) fun _ => known_disconnect hcb
    | waitRead =>
      refine Triple.ite (fun _ => fine_close hcb) fun _ => look_real fun l _ => ?_
      refine Triple.bind (fine_receiveLoop hrecv hcb rfl rounds _) fun more => ?_
      exact Triple.ite (fun _ => known_doRead) fun _ => Triple.pure fun _ h => h
    | waitWrite =>
      refine Triple.ite (fun _ => fine_close hcb) fun _ => look_real fun l _ => ?_
      refine Triple.bind (fine_sendLoop hcb _) fun more => Triple.ite (fun _ => ?_) fun _ =>
        Triple.pure fun _ h => h
      exact Triple.bind (core_socketDo core_known fun _ => rfl) fun _ => core_doWriteTcp core_known
    | receive place space => exact Triple.pure fun _ h => h
  | udp =>
    cases operation with
    | receive place space =>
      exact (fine_handleReceiveUdp hrecv hcb rfl rounds mark place space ec data).before fun _ h =>
        ⟨h.1, h.2 (by decide)⟩
    | connect => exact hnothing
    | waitRead => exact hnothing
    | waitWrite => exact hnothing
  | kcp =>
    cases operation with
    | receive place space =>
      exact (fine_handleReceiveKcp hcb rfl mark ec data).before fun _ h => ⟨h.1, h.2 (by decide)⟩
    | connect => exact hnothing
    | waitRead => exact hnothing
    | waitWrite => exact hnothing

omit hrecv hcb in
theorem fine_event (hK : K.Copies) (fuel rounds : Nat) (e : ConnectorEvent) :
    Keeps (Fine t) (event t K (callbacks t K fuel) rounds e) (Spilt t) := by
  have hcb : Obedient t (callbacks t K fuel) := callbacks_obedient fuel
  have hrecv : ∀ m i r, Keeps (Known t m) ((callbacks t K fuel).onRecv i r) (Left t m) :=
    fun m => callbacks_onRecv fuel
  cases e with
  | call call => exact known_perform hcb [call]
  | complete i ec data =>
    refine Triple.look fun l _ => ?_
    dsimp only
    cases l.conn.socket.pending[i]? with
    | none => exact Triple.pure fun _ h => h
    | some p =>
      refine Triple.bind ?_ fun _ => fine_handle hrecv hcb rounds _ p.operation ec data
      refine triple_following (fun {l' a c} hl' hr => ?_) fun _ hr => nomatch hr
      cases hr
      refine ⟨⟨hl'.1, fun ht => ?_⟩, fun hne hec ht hlive => ?_⟩
      · obtain ⟨hinv, -⟩ := hl'.2 (Bool.or_eq_false_iff.mp ht).1
        exact ⟨(core_inv.conn (by rfl) hinv).aside _ _ _, fun hswept => nomatch hswept⟩
      · have htimely : l'.marks.timely t ((l.marks.started[i]?).join) ec = true := by
          simpa using (Bool.or_eq_false_iff.mp ht).2
        have hlive : l'.marks.live = true := hlive
        simpa [Marks.timely, Marks.session, hne, hec, hlive] using htimely
  | tick current =>
    exact Triple.ite (fun hkcp => fine_update hrecv hcb hK hkcp rounds current) fun _ =>
      Triple.pure fun _ h => h

end Handlers
section Histories

/-- Between events no code waits, also after an exception. -/
theorem fine_settled (h : Spilt t l) : Fine t (settled l) :=
  ⟨rfl, fun ht => ⟨(core_inv.conn (by rfl) (h ht).1).aside _ _ _, fun hswept => nomatch hswept⟩⟩

private theorem fine_next (hK : K.Copies) (e : ConnectorEvent × Surroundings) (hl : Fine t l) :
    Fine t (next t K l e) := by
  have hevent := fine_event (t := t) hK e.2.scripts.length e.2.rounds e.1
  have hstart : Fine t { l with conn := Connection.surrounded e.2 l.conn } := core_known.conn (by rfl) hl
  unfold next
  cases hr : event t K (callbacks t K e.2.scripts.length) e.2.rounds e.1
    { l with conn := Connection.surrounded e.2 l.conn } with
  | ok _ l' => exact fine_settled (hevent.returns hstart hr).left
  | error _ l' => exact fine_settled (hevent.faults hstart hr)

private theorem fine_connector : Fine t (⟨connector, {}⟩ : Line κ) := by
  obtain ⟨hvalid, hempty⟩ := Circle.loaded_valid [] (by decide)
  refine ⟨rfl,
    fun _ =>
    ⟨⟨hvalid, hempty.symm, hvalid.sound, hempty.symm, fun _ => rfl, fun _ => rfl, ?_, ?_, ?_, ?_,
    ?_⟩, fun hswept => nomatch hswept⟩⟩
  · exact fun hlive => nomatch hlive
  · exact fun hlive => nomatch hlive
  · exact fun hlive => nomatch hlive
  · exact fun look hmem => nomatch hmem
  · exact fun look hmem => nomatch hmem

private theorem fine_history (hK : K.Copies) (es : List (ConnectorEvent × Surroundings)) :
    Fine t (history t K es) := by
  have hfold (l : Line κ) (hl : Fine t l) : Fine t (es.foldl (next t K) l) := by
    induction es generalizing l with
    | nil => exact hl
    | cons e es ih => exact ih _ (fine_next hK e hl)
  exact hfold _ fine_connector

/-- In every run of a connector whose steps meet their conditions, `on_recv` can look
at, and the transport is handed, only bytes of the session that is going on. -/
theorem sessions_never_mix (hK : K.Copies) {s : Sock Circle κ} {es : List (ConnectorEvent × Surroundings)}
    (hrun : Run (Connection.ConnectorStep t K) connector es s)
    (hmet : (history t K es).marks.tainted = false) :
    (history t K es).conn = s ∧ (∀ look ∈ (history t K es).marks.parsed, look.Own) ∧
    ∀ look ∈ (history t K es).marks.handed, look.Own := by
  have hinv := ((fine_history hK es).2 hmet).1
  exact ⟨history_conn hrun, hinv.parsed, hinv.handed⟩

def succeeding : Surroundings := { answers := List.replicate 6 ⟨.success, [], 0⟩, rounds := 2 }

def connecting : ConnectorEvent × Surroundings := (.call .connect, succeeding)

def sending : ConnectorEvent × Surroundings := (.call (.send [7]), {})

/-- The first outstanding receive gets the first message of conversation 1. -/
def arriving (bytes : List UInt8) : ConnectorEvent × Surroundings :=
  (.complete 0 .success (PlainKcp.segment 1 PlainKcp.push 128 0 0 0 bytes), {})

def ticking : ConnectorEvent × Surroundings := (.tick 0, succeeding)

def leaving : ConnectorEvent × Surroundings := (.call .disconnect, {})

def aborting : ConnectorEvent × Surroundings := (.complete 0 .operationAborted [], {})

def emptying : List (ConnectorEvent × Surroundings) :=
  [connecting, arriving [1, 0, 0, 0, 9], sending, ticking, leaving, aborting, connecting,
    arriving [1, 0, 0, 0, 9], sending, ticking]

theorem sessions_never_mix_emptied : ∃ s, Run (Connection.ConnectorStep .kcp plainKcp) connector emptying s ∧
    (history .kcp plainKcp emptying).conn = s ∧ (history .kcp plainKcp emptying).marks.parsed.length = 2 ∧
    (history .kcp plainKcp emptying).marks.handed.length = 2 ∧
    (∀ look ∈ (history .kcp plainKcp emptying).marks.parsed, look.Own) ∧
    ∀ look ∈ (history .kcp plainKcp emptying).marks.handed, look.Own := by
  have hrun : Run (Connection.ConnectorStep .kcp plainKcp) connector emptying _ :=
    Connection.run_of_allEnabled (by decide +kernel)
  obtain ⟨hconn, hown⟩ := sessions_never_mix PlainKcp.copies hrun (by decide +kernel)
  exact ⟨_, hrun, hconn, by decide +kernel, by decide +kernel, hown⟩

/-- A packet is sent before the peer is known; the first datagram comes in the next session. -/
def keeping : List (ConnectorEvent × Surroundings) :=
  [connecting, sending, leaving, aborting, connecting, arriving [5]]

def cutting : List (ConnectorEvent × Surroundings) :=
  [connecting, arriving [1, 0], ticking, leaving, aborting, connecting, arriving [0, 0, 9], ticking]

/-- A kcp session hands over what was appended in the one before, whose peer was
never known; another parses a frame that begins with two bytes of the one before. -/
theorem kcp_sessions_mix :
    (∃ s, Run (Connection.ConnectorStep .kcp plainKcp) connector keeping s ∧
      (history .kcp plainKcp keeping).conn = s ∧
      (history .kcp plainKcp keeping).marks.handed =
        [⟨some 1, [1, 0, 0, 0, 7], marked (some 0) [1, 0, 0, 0, 7]⟩] ∧
      ¬ ∀ look ∈ (history .kcp plainKcp keeping).marks.handed, look.Own) ∧
    ∃ s, Run (Connection.ConnectorStep .kcp plainKcp) connector cutting s ∧
      (history .kcp plainKcp cutting).conn = s ∧
      (history .kcp plainKcp cutting).marks.parsed =
        [⟨some 1, [1, 0, 0, 0, 9], marked (some 0) [1, 0] ++ marked (some 1) [0, 0, 9]⟩] ∧
      ¬ ∀ look ∈ (history .kcp plainKcp cutting).marks.parsed, look.Own := by
  have hkeeping : Run (Connection.ConnectorStep .kcp plainKcp) connector keeping _ :=
    Connection.run_of_allEnabled (by decide +kernel)
  have hcutting : Run (Connection.ConnectorStep .kcp plainKcp) connector cutting _ :=
    Connection.run_of_allEnabled (by decide +kernel)
  exact ⟨⟨_, hkeeping, history_conn hkeeping, by decide +kernel, by decide +kernel⟩,
    _, hcutting, history_conn hcutting, by decide +kernel, by decide +kernel⟩

end Histories
end Provenance
end SimpleNetwork
