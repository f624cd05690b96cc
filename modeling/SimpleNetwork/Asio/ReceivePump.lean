import SimpleNetwork.Asio.Socket
import SimpleNetwork.Buffer.CircleSizes
import SimpleNetwork.Reactor.Framing

/-! The tcp receive pump on a default ring. A stream makes it throw exactly when
it fills the largest ring the buffer may grow to with the front of one packet. -/
namespace SimpleNetwork
open Words

/-- What the largest receive ring holds: 1024 bytes grown four times by four,
less the cell that stays free. -/
def ringLimit : Nat := 262143

/-- A packet that `on_read` takes whole from such a ring. -/
def Passes (q : List UInt8) : Prop := Ready q ∧ 0 < packetSize q ∧ packetSize q ≤ ringLimit

instance (q : List UInt8) : Decidable (Passes q) := inferInstanceAs (Decidable (_ ∧ _))

/-- Packet by packet, as `on_read` measures them, there comes one that is larger
than the ring and of which a ring full is there. -/
inductive Overfills : List UInt8 → Prop
  | here {q : List UInt8} (hsize : ringLimit < packetSize q) (hlen : ringLimit ≤ q.length) : Overfills q
  | later {q : List UInt8} (hp : Passes q) (hrest : Overfills (q.drop (packetSize q))) : Overfills q

/-- There comes one of size zero, which `on_read` delivers for ever. -/
inductive Stalls : List UInt8 → Prop
  | here {q : List UInt8} (hlen : 4 ≤ q.length) (hsize : packetSize q = 0) : Stalls q
  | later {q : List UInt8} (hp : Passes q) (hrest : Stalls (q.drop (packetSize q))) : Stalls q

/-- `on_read` takes packets until what is left has none to take. -/
inductive Walks : List UInt8 → List UInt8 → Prop
  | stop {q : List UInt8} (hq : ¬ Ready q) : Walks q q
  | step {q q' : List UInt8} (hp : Passes q) (hrest : Walks (q.drop (packetSize q)) q') : Walks q q'

private theorem packetSize_append {q : List UInt8} (h4 : 4 ≤ q.length) (later : List UInt8) :
    packetSize (q ++ later) = packetSize q := by
  rw [packetSize, packetSize, declared, declared, List.take_append_of_le_length h4]

section Walk
variable {q q' : List UInt8}

theorem Passes.append (hp : Passes q) (later : List UInt8) : Passes (q ++ later) := by
  obtain ⟨⟨h4, hlen⟩, hpos, hle⟩ := hp
  have hsize := packetSize_append h4 later
  refine ⟨⟨?_, ?_⟩, by rw [hsize]; exact hpos, by rw [hsize]; exact hle⟩
  · simp only [List.length_append]
    omega
  · rw [hsize, List.length_append]
    omega

theorem Passes.drop_append (hp : Passes q) (later : List UInt8) :
    (q ++ later).drop (packetSize (q ++ later)) = q.drop (packetSize q) ++ later := by
  rw [packetSize_append hp.1.1, List.drop_append_of_le_length hp.1.2]

theorem Overfills.append (h : Overfills q) (later : List UInt8) : Overfills (q ++ later) := by
  induction h with
  | @here q hsize hlen =>
    have h4 : 4 ≤ q.length := by
      unfold ringLimit at hlen
      omega
    refine .here (by rw [packetSize_append h4]; exact hsize) ?_
    rw [List.length_append]
    omega
  | later hp _ ih => exact .later (hp.append later) (by rw [hp.drop_append]; exact ih)

theorem Stalls.append (h : Stalls q) (later : List UInt8) : Stalls (q ++ later) := by
  induction h with
  | here hlen hsize =>
    refine .here ?_ (by rw [packetSize_append hlen]; exact hsize)
    rw [List.length_append]
    omega
  | later hp _ ih => exact .later (hp.append later) (by rw [hp.drop_append]; exact ih)

private theorem Passes.overfills_iff (hp : Passes q) : Overfills q ↔ Overfills (q.drop (packetSize q)) := by
  constructor
  · intro h
    cases h with
    | here hsize _ => exact absurd hp.2.2 (Nat.not_le.mpr hsize)
    | later _ hrest => exact hrest
  · exact .later hp

private theorem Passes.stalls_iff (hp : Passes q) : Stalls q ↔ Stalls (q.drop (packetSize q)) := by
  constructor
  · intro h
    cases h with
    | here _ hsize => exact absurd hp.2.1 (by rw [hsize]; exact Nat.lt_irrefl _)
    | later _ hrest => exact hrest
  · exact .later hp

private theorem Stalls.not_overfills (h : Stalls q) : ¬ Overfills q := by
  induction h with
  | here _ hsize =>
    intro hover
    cases hover with
    | here hbig _ => exact absurd hbig (by rw [hsize]; exact Nat.not_lt_zero _)
    | later hp _ => exact absurd hp.2.1 (by rw [hsize]; exact Nat.lt_irrefl _)
  | later hp _ ih => exact fun hover => ih (hp.overfills_iff.mp hover)

private theorem Walks.not_ready (h : Walks q q') : ¬ Ready q' := by
  induction h with
  | stop hq => exact hq
  | step _ _ ih => exact ih

/-- A walk that ran out of bytes goes on when more come. -/
theorem Walks.append {q'' later : List UInt8} (h : Walks q q') (hmore : Walks (q' ++ later) q'') :
    Walks (q ++ later) q'' := by
  induction h with
  | stop => exact hmore
  | step hp _ ih => exact .step (hp.append later) (by rw [hp.drop_append]; exact ih hmore)

private theorem Walks.overfills_iff (h : Walks q q') (later : List UInt8) :
    Overfills (q ++ later) ↔ Overfills (q' ++ later) := by
  induction h with
  | stop => exact Iff.rfl
  | step hp _ ih => rw [(hp.append later).overfills_iff, hp.drop_append, ih]

private theorem Walks.stalls_iff (h : Walks q q') (later : List UInt8) : Stalls (q ++ later) ↔
    Stalls (q' ++ later) := by
  induction h with
  | stop => exact Iff.rfl
  | step hp _ ih => rw [(hp.append later).stalls_iff, hp.drop_append, ih]

/-- The front of one packet overfills the ring as soon as it is as long. -/
theorem overfills_of_not_ready (hq : ¬ Ready q) : Overfills q ↔ ringLimit ≤ q.length := by
  constructor
  · intro h
    cases h with
    | here _ hlen => exact hlen
    | later hp _ => exact absurd hp.1 hq
  · intro hlen
    refine .here ?_ hlen
    unfold Ready at hq
    unfold ringLimit at hlen ⊢
    omega

private theorem not_stalls_of_not_ready (hq : ¬ Ready q) : ¬ Stalls q := by
  intro h
  cases h with
  | here hlen hsize => exact hq ⟨hlen, by rw [hsize]; exact Nat.zero_le _⟩
  | later hp _ => exact hq hp.1

end Walk

/-- An `on_recv` that returns and leaves `recv_buff_` and a part of the socket alone. -/
def QuietKeeping {τ γ : Type} (keep : τ → γ) (onRecv : OnRecv Circle τ) : Prop :=
  ∀ i r s, ∃ s', onRecv i r s = .ok () s' ∧ s'.recvBuff = s.recvBuff ∧ s'.deliveries = s.deliveries ∧
    keep s'.socket = keep s.socket

theorem Quiet.keeping {τ : Type} {onRecv : OnRecv Circle τ} (h : Quiet onRecv) :
    QuietKeeping (fun _ => ()) onRecv := by
  intro i r s
  obtain ⟨s', hrun, hrecv, hdel⟩ := h i r s
  exact ⟨s', hrun, hrecv, hdel, rfl⟩

namespace Circle

def dropPacket (c : Circle) : Circle :=
  { c with head := (c.head + UInt64.ofNat (packetSize c.contents)) % c.getSize }

def drain : Nat → Circle → Option Circle
  | 0, _ => none
  | rounds + 1, c =>
    if Ready c.contents then
      if c.dropPacket.contents = [] then some c.dropPacket else drain rounds c.dropPacket
    else some c

variable {c : Circle}

private theorem dropPacket_spec (h : c.Valid) (hq : Ready c.contents) :
    c.dropPacket.Valid ∧ c.dropPacket.contents = c.contents.drop (packetSize c.contents) ∧
      c.dropPacket.data = c.data := by
  have hsize : (UInt64.ofNat (packetSize c.contents)).toNat = packetSize c.contents :=
    toNat_ofNat_of_lt (by unfold packetSize; omega)
  obtain ⟨d, hrun, hv, hc, hd⟩ := remove_spec h (show (UInt64.ofNat (packetSize c.contents)).toNat ≤ _ by
    rw [hsize]
    exact hq.2)
  cases hrun
  rw [hsize] at hc
  exact ⟨hv, hc, hd⟩

private theorem drain_stalled (rounds : Nat) (h : c.Valid) (h4 : 4 ≤ c.contents.length)
    (hsize : packetSize c.contents = 0) :
    drain rounds c = none := by
  induction rounds generalizing c with
  | zero => rfl
  | succ rounds ih =>
    have hq : Ready c.contents := ⟨h4, by omega⟩
    obtain ⟨hv, hc, -⟩ := dropPacket_spec h hq
    rw [hsize, List.drop_zero] at hc
    have hne : c.dropPacket.contents ≠ [] := by
      intro hnil
      rw [← hc, hnil] at h4
      exact absurd h4 (by decide)
    rw [drain, if_pos hq, if_neg hne]
    exact ih hv (by rw [hc]; exact h4) (by rw [hc]; exact hsize)

/-- With a round for every byte the loop ends, unless it stalls. -/
theorem drain_walks (rounds : Nat) (h : c.Valid) (hlen : c.contents.length ≤ ringLimit)
    (hrounds : c.contents.length < rounds) :
    (Stalls c.contents ∧ drain rounds c = none) ∨
      ∃ d, drain rounds c = some d ∧ d.Valid ∧ d.data = c.data ∧ Walks c.contents d.contents := by
  induction rounds generalizing c with
  | zero => exact absurd hrounds (Nat.not_lt_zero _)
  | succ rounds ih =>
    by_cases hq : Ready c.contents
    · rcases Nat.eq_zero_or_pos (packetSize c.contents) with hzero | hpos
      · exact .inl ⟨.here hq.1 hzero, drain_stalled _ h hq.1 hzero⟩
      · have hp : Passes c.contents := ⟨hq, hpos, Nat.le_trans hq.2 hlen⟩
        obtain ⟨hv, hc, hd⟩ := dropPacket_spec h hq
        rw [drain, if_pos hq]
        by_cases hempty : c.dropPacket.contents = []
        · rw [if_pos hempty]
          refine .inr ⟨_, rfl, hv, hd, .step hp ?_⟩
          rw [← hc, hempty]
          exact .stop (by decide)
        · rw [if_neg hempty]
          have hfit := hq.2
          have hshort : c.dropPacket.contents.length = c.contents.length - packetSize c.contents := by
            rw [hc, List.length_drop]
          rcases ih hv (by omega) (by omega) with ⟨hstall, hnone⟩ | ⟨d, hsome, hvd, hdd, hwalk⟩
          · exact .inl ⟨.later hp (hc ▸ hstall), hnone⟩
          · exact .inr ⟨d, hsome, hvd, hdd.trans hd, .step hp (hc ▸ hwalk)⟩
    · rw [drain, if_neg hq]
      exact .inr ⟨c, rfl, h, rfl, .stop hq⟩

end Circle

section OnRead
variable {τ γ : Type} {keep : τ → γ} {onRecv : OnRecv Circle τ} (hcb : QuietKeeping keep onRecv)
include hcb

private theorem onReadRound_ring {s : Connection Circle τ} (h : s.recvBuff.Valid)
    (hq : Ready s.recvBuff.contents) :
    ∃ s', Connection.onReadRound onRecv s = .ok (decide (s.recvBuff.dropPacket.contents ≠ [])) s' ∧
      s'.recvBuff = s.recvBuff.dropPacket ∧ keep s'.socket = keep s.socket := by
  obtain ⟨t, hrun, hrecv, -, hkeep⟩ := hcb s.deliveries.length ⟨0, 4, declared s.recvBuff.contents⟩ s
  obtain ⟨hv, -, -⟩ := Circle.dropPacket_spec h hq
  have hremove : Connection.recv (Buffer.remove (UInt64.ofNat (packetSize s.recvBuff.contents))) t =
      .ok () { t with recvBuff := s.recvBuff.dropPacket } := Connection.recv_ok (by rw [hrecv]; rfl)
  refine ⟨{ t with
    recvBuff := s.recvBuff.dropPacket
    deliveries := t.deliveries ++
      [⟨⟨0, 4, declared s.recvBuff.contents⟩, s.recvBuff, s.recvBuff.dropPacket⟩] },
    ?_, rfl, hkeep⟩
  have R := circle_reads fun _ => True
  rw [Connection.onReadRound_call R ⟨h, trivial⟩ hq, Outcome.bind_ok hrun, Outcome.bind_ok hremove,
    Outcome.modify_bind,
    Outcome.get_bind, Outcome.pure_run]
  congr 1
  exact Connection.getCount_ne_zero R (s := { t with recvBuff := s.recvBuff.dropPacket }) ⟨hv, trivial⟩

/-- What `on_read` does to the ring, with such a callback. -/
theorem onRead_ring (rounds : Nat) {s : Connection Circle τ} (h : s.recvBuff.Valid) :
    (∀ d, s.recvBuff.drain rounds = some d → ∃ s', Connection.onRead onRecv rounds s = .ok () s' ∧
      s'.recvBuff = d ∧
      keep s'.socket = keep s.socket) ∧
    (s.recvBuff.drain rounds = none → ∃ s', Connection.onRead onRecv rounds s = .error .diverged s') := by
  induction rounds generalizing s with
  | zero => exact ⟨(fun d hd => nomatch hd), fun _ => ⟨s, rfl⟩⟩
  | succ rounds ih =>
    by_cases hq : Ready s.recvBuff.contents
    · obtain ⟨t, hround, hrecv, hkeep⟩ := onReadRound_ring hcb h hq
      obtain ⟨hv, -, -⟩ := Circle.dropPacket_spec h hq
      rw [Circle.drain, if_pos hq, Connection.onRead_round rounds hround]
      by_cases hempty : s.recvBuff.dropPacket.contents = []
      · rw [if_pos hempty, if_neg (by simp [hempty])]
        refine ⟨fun d hd => ⟨t, rfl, ?_, hkeep⟩, fun hd => nomatch hd⟩
        rw [hrecv]
        exact Option.some.inj hd
      · rw [if_neg hempty, if_pos (by simp [hempty]), ← hrecv]
        obtain ⟨hsome, hnone⟩ := ih (s := t) (by rw [hrecv]; exact hv)
        refine ⟨fun d hd => ?_, hnone⟩
        obtain ⟨u, hrun, hd, hk⟩ := hsome d hd
        exact ⟨u, hrun, hd, hk.trans hkeep⟩
    · have hstop : Connection.onReadRound onRecv s = .ok false s :=
        Connection.onReadRound_stop (circle_reads fun _ => True) ⟨h, trivial⟩ hq
      rw [Circle.drain, if_neg hq, Connection.onRead_round rounds hstop]
      exact ⟨fun d hd => ⟨s, rfl, Option.some.inj hd, rfl⟩, fun hd => nomatch hd⟩

end OnRead

theorem Walks.length_le {q q' : List UInt8} (h : Walks q q') : q'.length ≤ q.length := by
  induction h with
  | stop => exact Nat.le_refl _
  | step _ _ ih => exact Nat.le_trans ih (by rw [List.length_drop]; exact Nat.sub_le _ _)

/-- The receive ring between two chunks, after the given stream. -/
structure Held (stream : List UInt8) (c : Circle) : Prop where
  valid : c.Valid
  maxSize : c.data.maxSize = 409600
  size : ∃ i ≤ 4, c.data.mem.length = 1024 * 4 ^ i
  walk : Walks stream c.contents

section Ring
variable {stream : List UInt8} {c : Circle} (h : Held stream c)
include h

theorem Held.size_le : c.data.mem.length ≤ ringLimit + 1 := by
  obtain ⟨i, hi, hsize⟩ := h.size
  have := Nat.pow_le_pow_right (show 0 < 4 by decide) hi
  unfold ringLimit
  omega

theorem Held.length_le : c.contents.length ≤ ringLimit := by
  have := h.valid.length_lt
  have := h.size_le
  omega

/-- The query offers space, and again the same, unless the ring is as full as it gets. -/
theorem Held.space :
    (c.contents.length = ringLimit ∧ Circle.getContinguiousSpace c = .error (.thrown .writeNoSpace) c) ∨
    c.contents.length < ringLimit ∧ ∃ d, Held stream d ∧ d.contents = c.contents ∧ ¬ d.Full ∧
      Circle.getContinguiousSpace c = .ok (Circle.continguiousSpaceOf d.head d.tail d.getSize) d ∧
      Circle.getContinguiousSpace d = .ok (Circle.continguiousSpaceOf d.head d.tail d.getSize) d := by
  obtain ⟨i, hi, hsize⟩ := h.size
  have hlen := h.length_le
  have hmax : c.data.maxSize.toNat = 409600 := by rw [h.maxSize]; rfl
  have hagain (d : Circle) (hv : d.Valid) (hf : ¬ d.Full) :
      Circle.getContinguiousSpace d = .ok (Circle.continguiousSpaceOf d.head d.tail d.getSize) d :=
    Circle.spaceFuel_of_pos fun hz => hf ((Circle.continguiousSpace_eq_zero hv).mp hz)
  by_cases hf : c.Full
  · rcases Nat.lt_or_ge i 4 with hlt | hge
    · have hpow : 4 ^ i ≤ 4 ^ 3 := Nat.pow_le_pow_right (by decide) (by omega)
      have hout := Circle.getContinguiousSpace_outcome h.valid
      revert hout
      generalize Circle.getContinguiousSpace c = result
      intro hout
      cases hout with
      | same hn => exact absurd hf hn
      | @grown d _ hv hc hs hm =>
        have hnf : ¬ d.Full := by
          unfold Circle.Full at hf ⊢
          rw [hc]
          omega
        refine .inr ⟨?_, d, ⟨hv, hm.trans h.maxSize, ⟨i + 1, by omega, ?_⟩, hc ▸ h.walk⟩, hc, hnf,
          rfl, hagain d hv hnf⟩
        · unfold Circle.Full at hf
          unfold ringLimit
          omega
        · rw [hs, hsize, Nat.pow_succ]
          omega
      | refused _ hm =>
        unfold Circle.Full at hf
        omega
    · have hi4 : i = 4 := by omega
      subst hi4
      have hrefused : Circle.getContinguiousSpace c = .error (.thrown .writeNoSpace) c := by
        have hz := (Circle.continguiousSpace_eq_zero h.valid).mpr hf
        rw [Circle.getContinguiousSpace, Circle.spaceFuel, Outcome.get_bind, if_neg (not_not.mpr hz),
          Outcome.bind_error (Circle.expand_refused h.valid (by omega))]
      refine .inl ⟨?_, hrefused⟩
      unfold Circle.Full at hf
      unfold ringLimit
      omega
  · refine .inr ⟨?_, c, h, rfl, hf, hagain c h.valid hf, hagain c h.valid hf⟩
    have hlt := h.valid.length_lt
    have hle := h.size_le
    unfold Circle.Full at hf
    omega

theorem Held.toNat_space_lt : (Circle.continguiousSpaceOf c.head c.tail c.getSize).toNat < 2 ^ 32 := by
  have hle := h.size_le
  unfold ringLimit at hle
  rw [h.valid.toNat_continguiousSpace]
  unfold CellRing.freeRun CellRing.room
  change min (c.data.mem.length - 1 - _) _ < _
  omega

/-- One chunk in the space that was offered, and what `on_read` makes of it. -/
theorem Held.chunk {chunk : List UInt8} {rounds : Nat}
    (hfit : chunk.length ≤ (Circle.continguiousSpaceOf c.head c.tail c.getSize).toNat)
    (hrounds : (stream ++ chunk).length < rounds) :
    ∃ e, (do Circle.pokeEnd chunk; Circle.written (UInt64.ofNat chunk.length) :
      EStateM Fault Circle Unit) c = .ok () e ∧
      e.Valid ∧ ((Stalls (stream ++ chunk) ∧ e.drain rounds = none) ∨
        ∃ c', e.drain rounds = some c' ∧ Held (stream ++ chunk) c') := by
  have hlen := h.walk.length_le
  have hsize := h.size_le
  rw [h.valid.toNat_continguiousSpace] at hfit
  obtain ⟨e, hfill, hv, hc, hs, hm⟩ := Circle.fill_spec h.valid chunk hfit
  have hlt := hv.length_lt
  have hcount : e.contents.length = c.contents.length + chunk.length := by rw [hc, List.length_append]
  rw [List.length_append] at hrounds
  refine ⟨e, hfill, hv, ?_⟩
  rcases Circle.drain_walks rounds hv (by omega) (by omega) with ⟨hstall, hnone⟩ | ⟨d, hsome, hvd, hdd, hwalk⟩
  · exact .inl ⟨(h.walk.stalls_iff chunk).mpr (hc ▸ hstall), hnone⟩
  · refine .inr ⟨d, hsome, hvd, ?_, ?_, h.walk.append (hc ▸ hwalk)⟩
    · rw [hdd, hm, h.maxSize]
    · rw [hdd, hs]
      exact h.size

end Ring

section Pump
variable {κ : Type} {cb : Callbacks Circle κ}

def chunkAnswers (chunks : List (List UInt8)) : List Answer := chunks.map fun chunk => ⟨.success, chunk, 0⟩

def readHandlers (cb : Callbacks Circle κ) (rounds : Nat) : List (List (List UInt8)) →
    EStateM Fault (Sock Circle κ) Unit
  | [] => pure ()
  | chunks :: waits => do
    Connection.socketDo fun a => { a with answers := chunkAnswers chunks }
    Connection.handleWaitRead cb rounds .success
    readHandlers cb rounds waits

/-- An `on_recv` that neither throws nor touches `recv_buff_`. What receives
coming later find is not its choice. -/
def Harmless (onRecv : OnRecv Circle (Asio κ)) : Prop := QuietKeeping Asio.answers onRecv

theorem Harmless.quiet {onRecv : OnRecv Circle (Asio κ)} (h : Harmless onRecv) : Quiet onRecv := by
  intro i r s
  obtain ⟨s', hrun, hrecv, hdel, -⟩ := h i r s
  exact ⟨s', hrun, hrecv, hdel⟩

/-- A round of the receive loop that finds a chunk. -/
theorem receiveLoop_chunk (hcb : Harmless cb.onRecv) {t : Sock Circle κ} {chunk : List UInt8}
    {rest : List Answer}
    {space : UInt64} {d e : Circle} {rounds fuel : Nat}
    (hans : t.socket.answers = ⟨.success, chunk, 0⟩ :: rest)
    (hne : chunk ≠ []) (hquery : Circle.getContinguiousSpace t.recvBuff = .ok space d)
    (hspace : space.toNat < 2 ^ 32)
    (hfit : chunk.length ≤ space.toNat)
    (hfill : (do Circle.pokeEnd chunk; Circle.written (UInt64.ofNat chunk.length) :
    EStateM Fault Circle Unit) d = .ok () e)
    (he : e.Valid) :
    (∀ c, e.drain rounds = some c → ∃ t', Connection.receiveLoop cb rounds (fuel + 1) t =
      Connection.receiveLoop cb rounds fuel t' ∧ t'.recvBuff = c ∧ t'.socket.answers = rest) ∧
    (e.drain rounds = none → ∃ t', Connection.receiveLoop cb rounds (fuel + 1) t = .error .diverged t') := by
  have hword : space.toUInt32.toNat = space.toNat := by
    rw [UInt64.toNat_toUInt32]
    exact Nat.mod_eq_of_lt hspace
  have hpos : 0 < chunk.length := List.length_pos_iff.mpr hne
  have hnonzero : ¬ space.toUInt32 = 0 := by
    intro hz
    rw [hz, UInt32.toNat_zero] at hword
    omega
  have htake : chunk.take space.toUInt32.toNat = chunk := List.take_of_length_le (by omega)
  obtain ⟨u, hnext, hurecv, -, -, husocket⟩ := Connection.nextAnswer_run { t with recvBuff := d }
  obtain ⟨_, f, hpoke, hwritten⟩ := Outcome.bind_eq_ok.mp hfill
  have hpoke' : Connection.recv (Circle.pokeEnd chunk) u = .ok () { u with recvBuff := f } :=
    Connection.recv_ok (by rw [hurecv]; exact hpoke)
  have hwritten' : Connection.recv (Circle.written (UInt64.ofNat chunk.length)) { u with recvBuff := f } =
      .ok () { u with recvBuff := e } := Connection.recv_ok hwritten
  have hhead : t.socket.answers.headD ⟨.wouldBlock, [], 0⟩ = ⟨.success, chunk, 0⟩ := by rw [hans]; rfl
  change Connection.nextAnswer _ = .ok (t.socket.answers.headD ⟨.wouldBlock, [], 0⟩) u at hnext
  rw [hhead] at hnext
  have hround : ∃ v : Sock Circle κ, v.recvBuff = e ∧ v.socket.answers = rest ∧
      Connection.receiveLoop cb rounds (fuel + 1) t =
        (Connection.onRead cb.onRecv rounds >>= fun _ => Connection.receiveLoop cb rounds fuel) v := by
    refine ⟨{ u with
      recvBuff := e
      socket :=
        { u.socket with trace := u.socket.trace ++ [⟨u.socket.session, u.socket.running, .received chunk⟩] } },
      rfl, ?_, ?_⟩
    · change u.socket.answers = rest
      rw [husocket]
      change t.socket.answers.tail = rest
      rw [hans, List.tail_cons]
    · rw [Connection.receiveLoop, Outcome.bind_ok (Connection.recv_ok hquery), if_neg hnonzero,
        Outcome.bind_ok hnext]
      simp only [htake, if_pos hne]
      rw [Outcome.bind_ok hpoke', Outcome.bind_ok hwritten']
      rfl
  obtain ⟨v, hvrecv, hvanswers, hrun⟩ := hround
  obtain ⟨hsome, hnone⟩ := onRead_ring hcb rounds (s := v) (by rw [hvrecv]; exact he)
  rw [hvrecv] at hsome hnone
  constructor
  · intro c hc
    obtain ⟨t', hread, hrecv, hkeep⟩ := hsome c hc
    exact ⟨t', by rw [hrun, Outcome.bind_ok hread], hrecv, hkeep.trans hvanswers⟩
  · intro hd
    obtain ⟨t', hread⟩ := hnone hd
    exact ⟨t', by rw [hrun, Outcome.bind_error hread]⟩

/-- The round that finds nothing. -/
theorem receiveLoop_idle {t : Sock Circle κ} {space : UInt64} {d : Circle} {rounds fuel : Nat}
    (hans : t.socket.answers = []) (hquery : Circle.getContinguiousSpace t.recvBuff = .ok space d) :
    Connection.receiveLoop cb rounds (fuel + 1) t = .ok true { t with recvBuff := d } := by
  rw [Connection.receiveLoop, Outcome.bind_ok (Connection.recv_ok hquery)]
  split
  · rfl
  · have hnext : Connection.nextAnswer { t with recvBuff := d } =
      .ok ⟨.wouldBlock, [], 0⟩ { t with recvBuff := d } := by
      rw [Connection.nextAnswer, Outcome.get_bind, hans]
      rfl
    rw [Outcome.bind_ok hnext]
    simp only [List.take_nil, ne_eq, not_true_eq_false, if_false]
    rfl

/-- The same chunk, received outside of a handler. -/
theorem receive_chunk {onRecv : OnRecv Circle (Asio κ)} (hquiet : Quiet onRecv) {u : Sock Circle κ}
    {chunk : List UInt8}
    {space : UInt64} {d e : Circle} {rounds : Nat}
    (hquery : Circle.getContinguiousSpace u.recvBuff = .ok space d)
    (hfill : (do Circle.pokeEnd chunk; Circle.written (UInt64.ofNat chunk.length) :
    EStateM Fault Circle Unit) d = .ok () e)
    (he : e.Valid) {c : Circle} (hc : e.drain rounds = some c) :
    ∃ u', receive onRecv rounds chunk u = .ok () u' ∧ u'.recvBuff = c := by
  obtain ⟨u', hread, hrecv, -⟩ :=
    (onRead_ring hquiet.keeping rounds (s := { u with recvBuff := e }) he).1 c hc
  refine ⟨u', ?_, hrecv⟩
  rw [receive, Outcome.bind_ok (Connection.recv_ok hquery), Outcome.bind_ok (Connection.recv_ok hfill), hread]

/-- The coming chunks fit a connection that is offered the same space. -/
def Admits (cb : Callbacks Circle κ) (rounds : Nat) (c : Circle) (chunks : List (List UInt8)) : Prop :=
  ∃ u : Sock Circle κ, Circle.getContinguiousSpace u.recvBuff = Circle.getContinguiousSpace c ∧
    Fits cb.onRecv rounds u chunks

/-- How a handler ends after the given stream, with some chunks still to come:
it throws, never returns, or returns with room in the ring. -/
inductive Pumped {α : Type} (cb : Callbacks Circle κ) (rounds : Nat) (stream : List UInt8)
    (coming : List (List UInt8))
    (a : α) : EStateM.Result Fault (Sock Circle κ) α → Prop
  | threw {t : Sock Circle κ} (h : Overfills stream) : Pumped cb rounds stream coming a (.error (.thrown .writeNoSpace) t)
  | hung {t : Sock Circle κ} (h : Stalls stream) : Pumped cb rounds stream coming a (.error .diverged t)
  | waiting {t : Sock Circle κ} (hheld : Held stream t.recvBuff) (hroom : t.recvBuff.contents.length < ringLimit)
      (hfit : Admits cb rounds t.recvBuff coming) : Pumped cb rounds stream coming a (.ok a t)

private theorem receiveLoop_pumps (hcb : Harmless cb.onRecv) {rounds : Nat} {coming : List (List UInt8)}
    (chunks : List (List UInt8)) {t : Sock Circle κ} {stream : List UInt8} {fuel : Nat}
    (hheld : Held stream t.recvBuff)
    (hans : t.socket.answers = chunkAnswers chunks) (hfit : Admits cb rounds t.recvBuff (chunks ++ coming))
    (hrounds : (stream ++ chunks.flatten).length < rounds) (hfuel : chunks.length < fuel) :
    Pumped cb rounds (stream ++ chunks.flatten) coming true (Connection.receiveLoop cb rounds fuel t) := by
  induction chunks generalizing t stream fuel with
  | nil =>
    obtain ⟨fuel, rfl⟩ : ∃ n, fuel = n + 1 := ⟨fuel - 1, by simp only [List.length_nil] at hfuel; omega⟩
    rw [List.flatten_nil, List.append_nil]
    rcases hheld.space with ⟨hfull, hquery⟩ | ⟨hroom, d, hd, hc, hnf, hquery, hagain⟩
    · rw [Connection.receiveLoop, Outcome.bind_error (Connection.recv_error hquery)]
      have hover := (overfills_of_not_ready hheld.walk.not_ready).mpr (Nat.le_of_eq hfull.symm)
      have hiff := hheld.walk.overfills_iff []
      rw [List.append_nil, List.append_nil] at hiff
      exact .threw (hiff.mpr hover)
    · rw [receiveLoop_idle hans hquery]
      obtain ⟨u, hu, hfits⟩ := hfit
      exact .waiting hd (by rw [hc]; exact hroom) ⟨u, by rw [hu, hquery, hagain], hfits⟩
  | cons chunk chunks ih =>
    obtain ⟨fuel, rfl⟩ : ∃ n, fuel = n + 1 := ⟨fuel - 1, by omega⟩
    rw [List.flatten_cons, ← List.append_assoc] at hrounds ⊢
    rcases hheld.space with ⟨hfull, hquery⟩ | ⟨hroom, d, hd, hc, hnf, hquery, hagain⟩
    · rw [Connection.receiveLoop, Outcome.bind_error (Connection.recv_error hquery), List.append_assoc]
      have hover := (overfills_of_not_ready hheld.walk.not_ready).mpr (Nat.le_of_eq hfull.symm)
      exact .threw ((hheld.walk.overfills_iff _).mpr (hover.append _))
    · obtain ⟨u, hu, hne, hsize, hnext⟩ := hfit
      have hle := hsize _ _ (hu.trans hquery)
      obtain ⟨e, hfill, hv, hout⟩ := hd.chunk hle (show _ < rounds by
        rw [List.length_append] at hrounds
        omega)
      obtain ⟨hsome, hnone⟩ := receiveLoop_chunk hcb hans hne hquery hd.toNat_space_lt hle hfill hv
      rcases hout with ⟨hstall, hdrain⟩ | ⟨c, hdrain, hheld'⟩
      · obtain ⟨t', hrun⟩ := hnone hdrain
        rw [hrun]
        exact .hung (hstall.append _)
      · obtain ⟨t', hrun, hrecv, hans'⟩ := hsome c hdrain
        obtain ⟨u', hurun, hurecv⟩ := receive_chunk hcb.quiet (hu.trans hquery) hfill hv hdrain
        rw [hrun]
        refine ih (hrecv ▸ hheld') hans' ⟨u', by rw [hurecv, hrecv], hnext u' hurun⟩ hrounds ?_
        rw [List.length_cons] at hfuel
        omega

private theorem handleWaitRead_pumps (hcb : Harmless cb.onRecv) {rounds : Nat}
    {chunks coming : List (List UInt8)}
    {t : Sock Circle κ} {stream : List UInt8} (hheld : Held stream t.recvBuff)
    (hans : t.socket.answers = chunkAnswers chunks) (hfit : Admits cb rounds t.recvBuff (chunks ++ coming))
    (hrounds : (stream ++ chunks.flatten).length < rounds) :
    Pumped cb rounds (stream ++ chunks.flatten) coming ()
      (Connection.handleWaitRead cb rounds .success t) := by
  have hlen : t.socket.answers.length = chunks.length := by rw [hans, chunkAnswers, List.length_map]
  have hloop := receiveLoop_pumps hcb chunks hheld hans hfit hrounds
    (Nat.lt_succ_of_le (Nat.le_of_eq hlen.symm))
  rw [Connection.handleWaitRead, if_neg (not_not.mpr rfl), Outcome.get_bind]
  revert hloop
  generalize hresult : Connection.receiveLoop cb rounds (t.socket.answers.length + 1) t = result
  intro hloop
  cases hloop with
  | threw h => rw [Outcome.bind_error hresult]; exact .threw h
  | hung h => rw [Outcome.bind_error hresult]; exact .hung h
  | waiting hheld hroom hfit => rw [Outcome.bind_ok hresult]; exact .waiting hheld hroom hfit

/-- The same over all handlers, by induction on their list. -/
theorem readHandlers_pumps (hcb : Harmless cb.onRecv) {rounds : Nat} (waits : List (List (List UInt8)))
    {t : Sock Circle κ} {stream : List UInt8} (hheld : Held stream t.recvBuff)
    (hroom : t.recvBuff.contents.length < ringLimit) (hfit : Admits cb rounds t.recvBuff waits.flatten)
    (hrounds : (stream ++ waits.flatten.flatten).length < rounds) :
    Pumped cb rounds (stream ++ waits.flatten.flatten) [] () (readHandlers cb rounds waits t) := by
  induction waits generalizing t stream with
  | nil =>
    rw [List.flatten_nil, List.flatten_nil, List.append_nil]
    exact .waiting hheld hroom hfit
  | cons chunks waits ih =>
    rw [List.flatten_cons] at hfit
    rw [List.flatten_cons, List.flatten_append, ← List.append_assoc] at hrounds ⊢
    have hhandler := handleWaitRead_pumps hcb
      (t := { t with socket := { t.socket with answers := chunkAnswers chunks } }) hheld rfl hfit (by
        rw [List.length_append] at hrounds
        omega)
    have htape : Connection.socketDo (fun a => { a with answers := chunkAnswers chunks }) t =
        .ok () { t with socket := { t.socket with answers := chunkAnswers chunks } } := rfl
    rw [readHandlers, Outcome.bind_ok htape]
    revert hhandler
    generalize hresult : Connection.handleWaitRead cb rounds .success
      { t with socket := { t.socket with answers := chunkAnswers chunks } } = result
    intro hhandler
    cases hhandler with
    | threw h =>
      rw [Outcome.bind_error hresult]
      exact .threw (h.append _)
    | hung h =>
      rw [Outcome.bind_error hresult]
      exact .hung (h.append _)
    | waiting hheld hroom hfit =>
      rw [Outcome.bind_ok hresult]
      exact ih hheld hroom hfit hrounds

private theorem Held.not_overfills {stream : List UInt8} {c : Circle} (h : Held stream c)
    (hroom : c.contents.length < ringLimit) :
    ¬ Overfills stream ∧ ¬ Stalls stream := by
  have hover := h.walk.overfills_iff []
  have hstall := h.walk.stalls_iff []
  simp only [List.append_nil] at hover hstall
  rw [hover, hstall, overfills_of_not_ready h.walk.not_ready]
  exact ⟨Nat.not_le.mpr hroom, not_stalls_of_not_ready h.walk.not_ready⟩

/-- A default ring of any size it grows to, after `reset`. -/
theorem held_reset {c : Circle} (h : Laddered c.data) : Held [] c.reset := by
  obtain ⟨hmax, i, hi, hlen⟩ := h
  have hpow : c.data.mem.length = 2 ^ (10 + 2 * i) := by rw [hlen, Nat.pow_add, Nat.pow_mul]
  have hv : c.reset.Valid := by
    refine ⟨⟨10 + 2 * i, by omega, hpow⟩, fun j hj => ?_, ?_, ?_⟩
    · refine Nat.le_trans (Nat.le_of_lt hj) ?_
      change c.data.maxSize.toNat ≤ _
      rw [hmax]
      decide
    all_goals exact hpow ▸ Nat.two_pow_pos _
  have hc : c.reset.contents = [] := hv.reset.2
  exact ⟨hv, hmax, ⟨i, hi, hlen⟩, by rw [hc]; exact .stop (by decide)⟩

theorem freshBuffer_laddered : Laddered freshBuffer.data := ⟨rfl, 0, by decide, List.length_replicate⟩

/-- All handlers of a connection that starts with a reset ring. -/
theorem readHandlers_reset (hcb : Harmless cb.onRecv) {s : Sock Circle κ} {c : Circle}
    (hladder : Laddered c.data)
    (hreset : s.recvBuff = c.reset) {waits : List (List (List UInt8))} {rounds : Nat}
    (hrounds : waits.flatten.flatten.length < rounds) (hfit : Fits cb.onRecv rounds s waits.flatten) :
    Pumped cb rounds waits.flatten.flatten [] () (readHandlers cb rounds waits s) := by
  have hheld : Held [] c.reset := held_reset hladder
  have hempty : c.reset.contents = [] := hheld.valid.reset.2
  refine readHandlers_pumps hcb waits (hreset ▸ hheld) ?_ ⟨s, rfl, hfit⟩ hrounds
  rw [hreset, hempty]
  decide

end Pump

/-- For every receive ring that was just reset, every stream and every chunking of it into
read handlers, no exception leaves the tcp receive pump if and only if the stream does not overfill the
ring; and the handlers return if and only if it does not stall `on_read` either. -/
theorem receive_pump_throws_iff {κ : Type} {cb : Callbacks Circle κ} (hcb : Harmless cb.onRecv)
    {s : Sock Circle κ}
    {c : Circle} (hladder : Laddered c.data) (hreset : s.recvBuff = c.reset)
    {waits : List (List (List UInt8))}
    {rounds : Nat} (hrounds : waits.flatten.flatten.length < rounds)
    (hfit : Fits cb.onRecv rounds s waits.flatten) :
    ((∀ fault s', readHandlers cb rounds waits s = .error fault s' → ¬ fault.isException) ↔
      ¬ Overfills waits.flatten.flatten) ∧
    ((∃ s', readHandlers cb rounds waits s = .ok () s') ↔
      ¬ Overfills waits.flatten.flatten ∧ ¬ Stalls waits.flatten.flatten) := by
  have hpumped := readHandlers_reset hcb hladder hreset hrounds hfit
  revert hpumped
  generalize readHandlers cb rounds waits s = result
  intro hpumped
  cases hpumped with
  | threw h =>
    refine ⟨⟨fun hnone => absurd rfl (hnone _ _ rfl), fun hnot => absurd h hnot⟩, ?_,
      fun hnot => absurd h hnot.1⟩
    rintro ⟨_, hok⟩
    cases hok
  | hung h =>
    refine ⟨⟨fun _ => h.not_overfills, fun _ fault s' heq => ?_⟩, ?_, fun hnot => absurd h hnot.2⟩
    · cases heq
      decide
    · rintro ⟨_, hok⟩
      cases hok
  | waiting hheld hroom _ =>
    have hnot := hheld.not_overfills hroom
    exact ⟨⟨fun _ => hnot.1, fun _ fault s' heq => nomatch heq⟩, fun _ => hnot, fun _ => ⟨_, rfl⟩⟩

def unheard {κ : Type} : Callbacks Circle κ := ⟨pure (), pure (), silent⟩

private theorem harmless_unheard {κ : Type} : Harmless (unheard : Callbacks Circle κ).onRecv :=
  fun _ _ s => ⟨s, rfl, rfl, rfl, rfl⟩

def freshSock : Sock Circle Unit := ⟨.connected, freshBuffer, freshBuffer, {}, []⟩

def grownBuffer : Circle := ⟨⟨List.replicate 4096 255, 409600⟩, 1500, 1500⟩

/-- Two packets in two handlers that find them cut inside a prefix and inside a payload. -/
theorem receive_pump_throws_regrown :
    ∃ s', readHandlers unheard 14 [[[2, 0], [0, 0, 42]], [[43, 1], [0, 0, 0], [7]]]
      { freshSock with recvBuff := grownBuffer.reset } =
      .ok () s' := by
  have hladder : Laddered grownBuffer.data := ⟨rfl, 1, by decide, List.length_replicate⟩
  have hfit : Fits (unheard : Callbacks Circle Unit).onRecv 14
      { freshSock with recvBuff := grownBuffer.reset }
      [[2, 0], [0, 0, 42], [43, 1], [0, 0, 0], [7]] := by decide +kernel
  have hwalk : Walks [2, 0, 0, 0, 42, 43, 1, 0, 0, 0, 7] [] :=
    .step (by decide +kernel) (.step (by decide +kernel) (.stop (by decide)))
  refine (receive_pump_throws_iff harmless_unheard hladder rfl (by decide) hfit).2.mpr ⟨?_, ?_⟩
  · change ¬ Overfills ([2, 0, 0, 0, 42, 43, 1, 0, 0, 0, 7] ++ [])
    rw [hwalk.overfills_iff, overfills_of_not_ready (by decide)]
    decide
  · change ¬ Stalls ([2, 0, 0, 0, 42, 43, 1, 0, 0, 0, 7] ++ [])
    rw [hwalk.stalls_iff]
    exact not_stalls_of_not_ready (by decide)

private theorem Circle.spaceFuel_ne_zero {space : Circle → UInt64} {n : UInt64} (fuel : Nat) {c d : Circle}
    (h : spaceFuel space fuel c = .ok n d) : n ≠ 0 := by
  induction fuel generalizing c with
  | zero => cases h
  | succ fuel ih =>
    rw [spaceFuel, Outcome.get_bind] at h
    split at h
    · rename_i hne
      cases h
      exact hne
    · obtain ⟨_, e, -, hrest⟩ := Outcome.bind_eq_ok.mp h
      exact ih hrest

/-- Bytes that come one at a time always fit. -/
theorem fits_bytes {τ : Type} (onRecv : OnRecv Circle τ) (rounds : Nat) (stream : List UInt8)
    (s : Connection Circle τ) :
    Fits onRecv rounds s (stream.map fun byte => [byte]) := by
  induction stream generalizing s with
  | nil => trivial
  | cons byte stream ih =>
    refine ⟨List.cons_ne_nil _ _, fun n c hg => ?_, fun s' _ => ih s'⟩
    have hne := Circle.spaceFuel_ne_zero 64 hg
    exact Nat.pos_of_ne_zero fun hz => hne (UInt64.toNat_inj.mp hz)

/-- A prefix that declares 262144 bytes and, one at a time, enough of them to fill the ring. -/
theorem receive_pump_overfilled :
    let stream : List UInt8 := [0, 0, 4, 0] ++ List.replicate 262139 0
    let waits := [stream.map fun byte => [byte]]
    waits.flatten.flatten = stream ∧
      Fits (unheard : Callbacks Circle Unit).onRecv 262144 freshSock waits.flatten ∧
      ∃ s', readHandlers unheard 262144 waits freshSock = .error (.thrown .writeNoSpace) s' := by
  intro stream waits
  have hflat : waits.flatten = stream.map fun byte => [byte] := by simp [waits]
  have hstream : waits.flatten.flatten = stream := by
    rw [hflat, ← List.flatMap_def, List.flatMap_singleton']
  have hfit : Fits (unheard : Callbacks Circle Unit).onRecv 262144 freshSock waits.flatten := by
    rw [hflat]
    exact fits_bytes _ _ _ _
  have hlen : stream.length = 262143 := by
    rw [List.length_append, List.length_replicate]
    rfl
  have hover : Overfills stream := by
    refine .here ?_ (Nat.le_of_eq hlen.symm)
    rw [packetSize_append (by decide)]
    decide +kernel
  refine ⟨hstream, hfit, ?_⟩
  have hpumped := readHandlers_reset harmless_unheard freshBuffer_laddered rfl
    (by rw [hstream, hlen]; decide) hfit
  rw [hstream] at hpumped
  revert hpumped
  generalize readHandlers unheard 262144 waits freshSock = result
  intro hpumped
  cases hpumped with
  | threw _ => exact ⟨_, rfl⟩
  | hung h => exact absurd hover h.not_overfills
  | waiting hheld hroom _ => exact absurd hover (hheld.not_overfills hroom).1

end SimpleNetwork
