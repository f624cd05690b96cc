import SimpleNetwork.Reactor.OnRead

/-! Received streams of packets. However a stream is cut into chunks, the
receive loop delivers its packets once each and in order. -/
namespace SimpleNetwork
open Words

def encodePacket (payload : List UInt8) : List UInt8 := le32 (UInt32.ofNat payload.length) ++ payload

def encodePackets (packets : List (List UInt8)) : List UInt8 := packets.flatMap encodePacket

@[simp] theorem length_encodePacket (payload : List UInt8) :
    (encodePacket payload).length = payload.length + 4 := by
  simp [encodePacket]
  omega

@[simp] theorem encodePackets_cons (p : List UInt8) (ps : List (List UInt8)) :
    encodePackets (p :: ps) = encodePacket p ++ encodePackets ps := rfl

/-- A strict prefix of the next packet; nothing when there is none. -/
def Incomplete (packets : List (List UInt8)) (q : List UInt8) : Prop :=
  match packets with
  | [] => q = []
  | p :: _ => q <+: encodePacket p ∧ q.length < (encodePacket p).length

/-- The declared length and the bytes a reader covers when it is delivered. -/
def Delivery.packet {β : Type} (contents : β → List UInt8) (d : Delivery β) : Nat × List UInt8 :=
  (d.reader.length.toNat, ((contents d.seen).drop d.reader.tail.toNat).take d.reader.length.toNat)

theorem declared_encoded {q rest more p : List UInt8} (h : q ++ rest = encodePacket p ++ more)
    (h4 : 4 ≤ q.length) : declared q = UInt32.ofNat p.length := by
  have hq : q.take 4 = (q ++ rest).take 4 := (List.take_append_of_le_length h4).symm
  have hp : (encodePacket p ++ more).take 4 = le32 (UInt32.ofNat p.length) := by
    rw [encodePacket, List.append_assoc]
    exact List.take_left' (length_le32 _)
  rw [declared, hq, h, hp, ofLe32_le32]

theorem toNat_declared_encoded {q rest more p : List UInt8} (h : q ++ rest = encodePacket p ++ more)
    (h4 : 4 ≤ q.length) (hp : p.length + 4 < 2 ^ 32) : (declared q).toNat = p.length := by
  rw [declared_encoded h h4, UInt32.toNat_ofNat', Nat.mod_eq_of_lt (by omega)]

theorem packetSize_encoded {q rest more p : List UInt8} (h : q ++ rest = encodePacket p ++ more)
    (h4 : 4 ≤ q.length) (hp : p.length + 4 < 2 ^ 32) : packetSize q = p.length + 4 := by
  have hd := toNat_declared_encoded h h4 hp
  rw [packetSize_of_lt (by omega), hd]

/-- Buffered bytes of a stream either stop inside the first packet or hold all of it. -/
theorem stream_split {q rest p more : List UInt8} (h : q ++ rest = p ++ more) :
    (q.length < p.length ∧ q <+: p) ∨ ∃ q', q = p ++ q' ∧ q' ++ rest = more := by
  rcases List.append_eq_append_iff.mp h with ⟨a, ha, hr⟩ | ⟨b, hb, hm⟩
  · rcases a with _ | ⟨x, a⟩
    · exact Or.inr ⟨[], by simpa using ha.symm, by simpa using hr⟩
    · refine Or.inl ⟨?_, ⟨_, ha.symm⟩⟩
      rw [ha, List.length_append, List.length_cons]
      omega
  · exact Or.inr ⟨b, hb, hm.symm⟩

section Stream
variable {β τ : Type} [Buffer β] {Valid : β → Prop} {contents : β → List UInt8} (R : Reads Valid contents)
  {onRecv : OnRecv β τ} (hquiet : Quiet onRecv)
include R hquiet

/-- One run of `on_read` over the buffered front of a packet stream. The
induction is on the packets; each round either delivers the first one or stops
because it is not all there. -/
theorem onRead_stream (packets : List (List UInt8)) (hp : ∀ p ∈ packets, p.length + 4 < 2 ^ 32)
    {s : Connection β τ} (h : Valid s.recvBuff) (rest : List UInt8)
    (hq : contents s.recvBuff ++ rest = encodePackets packets) (fuel : Nat)
    (hfuel : (contents s.recvBuff).length < fuel) :
    ∃ s' j new, Connection.onRead onRecv fuel s = .ok () s' ∧ Valid s'.recvBuff ∧ j ≤ packets.length ∧
      contents s'.recvBuff ++ rest = encodePackets (packets.drop j) ∧
      Incomplete (packets.drop j) (contents s'.recvBuff) ∧
      s'.deliveries = s.deliveries ++ new ∧
      new.map (Delivery.packet contents) = (packets.take j).map fun p => (p.length, p) := by
  induction packets generalizing s fuel with
  | nil =>
    have hnil : contents s.recvBuff = [] := (List.append_eq_nil_iff.mp hq).1
    obtain ⟨fuel, rfl⟩ : ∃ n, fuel = n + 1 := ⟨fuel - 1, by omega⟩
    have hstop : ¬ Ready (contents s.recvBuff) := by
      rw [hnil]
      decide
    exact ⟨s, 0, [], by rw [Connection.onRead_round fuel (Connection.onReadRound_stop R h hstop)]; rfl, h,
      Nat.le_refl 0, hq, hnil, (List.append_nil _).symm, rfl⟩
  | cons p ps ih =>
    obtain ⟨fuel, rfl⟩ : ∃ n, fuel = n + 1 := ⟨fuel - 1, by omega⟩
    have hpl := hp p List.mem_cons_self
    rw [encodePackets_cons] at hq
    rcases stream_split hq with ⟨hlt, hpre⟩ | ⟨q', hq', hmore⟩
    · have hstop : ¬ Ready (contents s.recvBuff) := fun hr => by
        have := hr.2
        rw [packetSize_encoded hq hr.1 hpl] at this
        rw [length_encodePacket] at hlt
        omega
      exact ⟨s, 0, [], by rw [Connection.onRead_round fuel (Connection.onReadRound_stop R h hstop)]; rfl, h,
        Nat.zero_le _, hq, ⟨hpre, hlt⟩, (List.append_nil _).symm, rfl⟩
    · have hlen : (contents s.recvBuff).length = p.length + 4 + q'.length := by
        rw [hq', List.length_append, length_encodePacket]
      have hsize := packetSize_encoded hq (by omega) hpl
      have hready : Ready (contents s.recvBuff) := ⟨by omega, by omega⟩
      obtain ⟨t, hround, hv, hc, hd⟩ := Connection.onReadRound_quiet R h hquiet hready
      have hct : contents t.recvBuff = q' := by
        rw [hc, hsize, hq', ← length_encodePacket, List.drop_left]
      have hpacket : Delivery.packet contents
          ⟨⟨0, 4, declared (contents s.recvBuff)⟩, s.recvBuff, t.recvBuff⟩ = (p.length, p) := by
        have h4 : (4 : UInt32).toNat = (le32 (UInt32.ofNat p.length)).length := rfl
        simp only [Delivery.packet, toNat_declared_encoded hq (by omega) hpl]
        rw [hq', encodePacket, List.append_assoc, h4, List.drop_left, List.take_left]
      by_cases hempty : q' = []
      · subst hempty
        refine ⟨t, 1, _, ?_, hv, by simp, by rw [hct]; exact hmore, ?_, hd, by simp [hpacket]⟩
        · rw [Connection.onRead_round fuel hround]
          simp [hct]
        · rw [hct]
          cases ps with
          | nil => rfl
          | cons p' ps => exact ⟨List.nil_prefix, by simp⟩
      · obtain ⟨u, j, new, hrun, hu, hj, hstream, hinc, hdel, hmap⟩ :=
          ih (fun p hm => hp p (List.mem_cons_of_mem _ hm)) hv (by rw [hct]; exact hmore)
            fuel (by rw [hct]; omega)
        refine ⟨u, j + 1, ⟨⟨0, 4, declared (contents s.recvBuff)⟩, s.recvBuff, t.recvBuff⟩ :: new, ?_, hu,
          by simpa using hj, hstream, hinc, ?_, ?_⟩
        · rw [Connection.onRead_round fuel hround, hct, decide_eq_true hempty, if_pos rfl, hrun]
        · rw [hdel, hd, List.append_assoc]
          rfl
        · rw [List.map_cons, hpacket, hmap]
          rfl

end Stream
section Receive
variable {τ : Type}

/-- One received chunk: the space query, the bytes stored at `get_end()`, their
announcement, and `on_read`. -/
def receive (onRecv : OnRecv Circle τ) (fuel : Nat) (chunk : List UInt8) :
    EStateM Fault (Connection Circle τ) Unit := do
  let _ ← Connection.recv Circle.getContinguiousSpace
  Connection.recv (do
    Circle.pokeEnd chunk
    Circle.written (UInt64.ofNat chunk.length))
  Connection.onRead onRecv fuel

def receiveAll (onRecv : OnRecv Circle τ) (fuel : Nat) : List (List UInt8) →
    EStateM Fault (Connection Circle τ) Unit
  | [] => pure ()
  | chunk :: chunks => do
    receive onRecv fuel chunk
    receiveAll onRecv fuel chunks

/-- Each chunk is non-empty and at most what the space query returns when it arrives. -/
def Fits (onRecv : OnRecv Circle τ) (fuel : Nat) : Connection Circle τ → List (List UInt8) → Prop
  | _, [] => True
  | s, chunk :: chunks =>
    chunk ≠ [] ∧ (∀ n c, Circle.getContinguiousSpace s.recvBuff = .ok n c → chunk.length ≤ n.toNat) ∧
      ∀ s', receive onRecv fuel chunk s = .ok () s' → Fits onRecv fuel s' chunks

instance decidableFits (onRecv : OnRecv Circle τ) (fuel : Nat) :
    (s : Connection Circle τ) → (chunks : List (List UInt8)) → Decidable (Fits onRecv fuel s chunks)
  | _, [] => .isTrue trivial
  | s, chunk :: chunks =>
    have : Decidable (∀ s', receive onRecv fuel chunk s = .ok () s' → Fits onRecv fuel s' chunks) :=
      have := fun s' => decidableFits onRecv fuel s' chunks
      decidable_of_iff (∀ (_ : Unit) s', receive onRecv fuel chunk s = .ok () s' → Fits onRecv fuel s' chunks)
        ⟨fun h => h (), fun h _ => h⟩
    inferInstanceAs (Decidable (_ ∧ _ ∧ _))

/-- The receive buffer between two chunks: a default ring at one of its growth
sizes, holding the front of an incomplete packet. -/
structure Waiting (packets : List (List UInt8)) (s : Connection Circle τ) : Prop where
  valid : s.recvBuff.Valid
  maxSize : s.recvBuff.data.maxSize = 409600
  size : ∃ i, s.recvBuff.data.mem.length = 1024 * 4 ^ i
  incomplete : Incomplete packets s.recvBuff.contents

theorem Incomplete.length_le {packets : List (List UInt8)} {q : List UInt8}
    (hp : ∀ p ∈ packets, p.length + 4 ≤ 262143) (h : Incomplete packets q) : q.length ≤ 262142 := by
  cases packets with
  | nil =>
    have hq : q = [] := h
    simp [hq]
  | cons p ps =>
    have hlt := h.2
    have := hp p List.mem_cons_self
    rw [length_encodePacket] at hlt
    omega

/-- A ring that waits for the rest of a small packet always has or gets space. -/
theorem Waiting.space {packets : List (List UInt8)} {s : Connection Circle τ}
    (hp : ∀ p ∈ packets, p.length + 4 ≤ 262143) (hw : Waiting packets s) :
    ∃ n c, Circle.getContinguiousSpace s.recvBuff = .ok n c ∧ c.Valid ∧ c.contents = s.recvBuff.contents ∧
      c.data.maxSize = 409600 ∧ (∃ i, c.data.mem.length = 1024 * 4 ^ i) ∧
      n = Circle.continguiousSpaceOf c.head c.tail c.getSize := by
  have hout := Circle.getContinguiousSpace_outcome hw.valid
  revert hout
  generalize hg : Circle.getContinguiousSpace s.recvBuff = result
  intro hout
  obtain ⟨i, hi⟩ := hw.size
  cases hout with
  | same hf => exact ⟨_, _, rfl, hw.valid, rfl, hw.maxSize, ⟨i, hi⟩, rfl⟩
  | grown hf hv hc hs hm =>
    exact ⟨_, _, rfl, hv, hc, hm.trans hw.maxSize, ⟨i + 1, by rw [hs, hi, Nat.pow_succ]; omega⟩, rfl⟩
  | refused hf hm =>
    exfalso
    have hlen := hw.incomplete.length_le hp
    have hmax : s.recvBuff.data.maxSize.toNat = 409600 := by rw [hw.maxSize]; rfl
    unfold Circle.Full at hf
    have h4 : 4 ^ i < 4 ^ 4 := by omega
    have hi4 : i < 4 := (Nat.pow_lt_pow_iff_right (by decide)).mp h4
    have hle : 4 ^ i ≤ 4 ^ 3 := Nat.pow_le_pow_right (by decide) (by omega)
    omega

/-- One chunk delivers the packets it completes and leaves the next one waiting. -/
theorem receive_step {packets : List (List UInt8)} (hp : ∀ p ∈ packets, p.length + 4 ≤ 262143)
    {onRecv : OnRecv Circle τ} (hquiet : Quiet onRecv) {s : Connection Circle τ} (hw : Waiting packets s)
    {chunk rest : List UInt8} (hq : s.recvBuff.contents ++ (chunk ++ rest) = encodePackets packets)
    {fuel : Nat}
    (hfuel : (encodePackets packets).length < fuel)
    (hfit : ∀ n c, Circle.getContinguiousSpace s.recvBuff = .ok n c → chunk.length ≤ n.toNat) :
    ∃ s' j new, receive onRecv fuel chunk s = .ok () s' ∧ j ≤ packets.length ∧ Waiting (packets.drop j) s' ∧
      s'.recvBuff.contents ++ rest = encodePackets (packets.drop j) ∧ s'.deliveries = s.deliveries ++ new ∧
      new.map (Delivery.packet Circle.contents) = (packets.take j).map fun p => (p.length, p) := by
  obtain ⟨n, c, hspace, hv, hc, hmax, ⟨i, hi⟩, hn⟩ := hw.space hp
  obtain ⟨d, hfill, hvd, hcd, hsd, hmd⟩ := Circle.fill_spec hv chunk
    (by rw [← hv.toNat_continguiousSpace, ← hn]; exact hfit n c hspace)
  have hstream : d.contents ++ rest = encodePackets packets := by
    rw [hcd, hc, List.append_assoc]
    exact hq
  have hlen : d.contents.length ≤ (encodePackets packets).length := by
    rw [← hstream, List.length_append]
    omega
  obtain ⟨u, j, new, hrun, hu, hj, hrest, hinc, hdel, hmap⟩ := onRead_stream
    (circle_reads fun data => data.mem.length = 1024 * 4 ^ i ∧ data.maxSize = 409600) hquiet packets
    (fun p hm => by have := hp p hm; omega)
    (s := { s with recvBuff := d }) ⟨hvd, hsd.trans hi, hmd.trans hmax⟩ rest hstream fuel
    (by change d.contents.length < fuel; omega)
  refine ⟨u, j, new, ?_, hj, ⟨hu.1, hu.2.2, ⟨i, hu.2.1⟩, hinc⟩, hrest, hdel, hmap⟩
  unfold receive
  rw [Outcome.bind_ok (Connection.recv_ok hspace), Outcome.bind_ok (Connection.recv_ok hfill)]
  exact hrun

/-- The same over a sequence of chunks, by induction on the sequence. -/
theorem receiveAll_run {packets : List (List UInt8)} (hp : ∀ p ∈ packets, p.length + 4 ≤ 262143)
    {onRecv : OnRecv Circle τ} (hquiet : Quiet onRecv) {s : Connection Circle τ} (hw : Waiting packets s)
    (chunks later : List (List UInt8)) (rest : List UInt8)
    (hq : s.recvBuff.contents ++ (chunks.flatten ++ rest) = encodePackets packets) {fuel : Nat}
    (hfuel : (encodePackets packets).length < fuel) (hfit : Fits onRecv fuel s (chunks ++ later)) :
    ∃ s' j new, receiveAll onRecv fuel chunks s = .ok () s' ∧ j ≤ packets.length ∧
      Waiting (packets.drop j) s' ∧
      s'.recvBuff.contents ++ rest = encodePackets (packets.drop j) ∧ s'.deliveries = s.deliveries ++ new ∧
      new.map (Delivery.packet Circle.contents) = (packets.take j).map fun p => (p.length, p) := by
  induction chunks generalizing packets s with
  | nil => exact ⟨s, 0, [], rfl, Nat.zero_le _, hw, hq, (List.append_nil _).symm, rfl⟩
  | cons chunk chunks ih =>
    rw [List.flatten_cons, List.append_assoc] at hq
    obtain ⟨t, j, new, hrun, hj, hwt, hqt, hdel, hmap⟩ := receive_step hp hquiet hw hq hfuel hfit.2.1
    have hshort : (encodePackets (packets.drop j)).length ≤ (encodePackets packets).length := by
      rw [← List.take_append_drop j packets, encodePackets, encodePackets, List.flatMap_append,
        List.length_append,
        List.take_append_drop]
      omega
    obtain ⟨u, k, new', hrun', hk, hwu, hqu, hdel', hmap'⟩ := ih
      (fun p hm => hp p (List.mem_of_mem_drop hm)) hwt hqt (by omega) (hfit.2.2 t hrun)
    rw [List.length_drop] at hk
    rw [List.drop_drop] at hwu hqu
    refine ⟨u, j + k, new ++ new', ?_, by omega, hwu, hqu, ?_, ?_⟩
    · rw [receiveAll, Outcome.bind_ok hrun, hrun']
    · rw [hdel', hdel, List.append_assoc]
    · rw [List.map_append, hmap, hmap', ← List.map_append, List.take_add]

omit τ in
theorem freshBuffer_valid : freshBuffer.Valid ∧ freshBuffer.contents = [] := by
  rw [← Circle.loaded_nil]
  exact Circle.loaded_valid [] (by decide)

end Receive

/-- Framing does not depend on chunking. For packets of up to 262143 bytes with
their prefix and every admissible cut of their stream, no chunk faults; after
each chunk the packets completed so far have been delivered once, in order and
with their bytes, and the buffer holds the front of the next one; at the end it
is empty. -/
theorem framing_independent_of_chunking {τ : Type} {packets : List (List UInt8)}
    (hp : ∀ p ∈ packets, p.length + 4 ≤ 262143) {onRecv : OnRecv Circle τ} (hquiet : Quiet onRecv)
    {s : Connection Circle τ} (hfresh : s.recvBuff = freshBuffer) (hlog : s.deliveries = [])
    {chunks : List (List UInt8)} (hcut : chunks.flatten = encodePackets packets) {fuel : Nat}
    (hfuel : (encodePackets packets).length < fuel) (hfit : Fits onRecv fuel s chunks) :
    (∀ seen later, chunks = seen ++ later → ∃ s' j, receiveAll onRecv fuel seen s = .ok () s' ∧
      j ≤ packets.length ∧ seen.flatten = encodePackets (packets.take j) ++ s'.recvBuff.contents ∧
      Incomplete (packets.drop j) s'.recvBuff.contents ∧
      s'.deliveries.map (Delivery.packet Circle.contents) = (packets.take j).map fun p => (p.length, p)) ∧
    ∃ s', receiveAll onRecv fuel chunks s = .ok () s' ∧ s'.recvBuff.getCount = 0 ∧
      s'.deliveries.map (Delivery.packet Circle.contents) = packets.map fun p => (p.length, p) := by
  obtain ⟨hv, hc⟩ := freshBuffer_valid
  have hw : Waiting packets s := by
    refine ⟨hfresh ▸ hv, by rw [hfresh]; rfl, ⟨0, by rw [hfresh]; exact List.length_replicate⟩, ?_⟩
    rw [hfresh, hc]
    cases packets with
    | nil => rfl
    | cons p ps => exact ⟨List.nil_prefix, by simp⟩
  have hstart (later : List UInt8) : s.recvBuff.contents ++ later = later := by
    rw [hfresh, hc, List.nil_append]
  constructor
  · rintro seen later rfl
    rw [List.flatten_append] at hcut
    obtain ⟨t, j, new, hrun, hj, hwt, hrest, hdel, hmap⟩ := receiveAll_run hp hquiet hw seen later
      later.flatten (by rw [hstart, hcut]) hfuel hfit
    refine ⟨t, j, hrun, hj, ?_, hwt.incomplete, by rw [hdel, hlog, List.nil_append, hmap]⟩
    refine List.append_cancel_right (?_ : _ ++ later.flatten = _ ++ later.flatten)
    rw [hcut, List.append_assoc, hrest, encodePackets, encodePackets, encodePackets, ← List.flatMap_append,
      List.take_append_drop]
  · obtain ⟨t, j, new, hrun, hj, hwt, hrest, hdel, hmap⟩ := receiveAll_run hp hquiet hw chunks []
      [] (by rw [hstart, hcut, List.append_nil]) hfuel (by rw [List.append_nil]; exact hfit)
    have hdone : packets.drop j = [] := by
      rw [List.append_nil] at hrest
      have hinc := hwt.incomplete
      cases hd : packets.drop j with
      | nil => rfl
      | cons p ps =>
        rw [hd] at hinc hrest
        have hlen := congrArg List.length hrest
        rw [encodePackets_cons, List.length_append] at hlen
        have := hinc.2
        omega
    have hj' : packets.length ≤ j := List.drop_eq_nil_iff.mp hdone
    refine ⟨t, hrun, ?_, by rw [hdel, hlog, List.nil_append, hmap, List.take_of_length_le hj']⟩
    have hinc := hwt.incomplete
    rw [hdone] at hinc
    exact hwt.valid.getCount_eq_zero.mpr hinc

/-- Two packets, one of them empty, cut inside both prefixes and inside the payload. -/
theorem framing_independent_of_two_packets :
    let chunks := [[3, 0], [0, 0, 42], [43, 44, 0], [0], [0, 0]]
    chunks.flatten = encodePackets [[42, 43, 44], []] ∧
      (∀ seen later, chunks = seen ++ later → ∃ (s' : Connection Circle Unit) (j : Nat),
        receiveAll silent 12 seen (received []) = .ok () s' ∧ j ≤ 2 ∧
          s'.deliveries.map (Delivery.packet Circle.contents) =
            ([[42, 43, 44], []].take j).map fun p => (p.length, p)) ∧
      ∃ s' : Connection Circle Unit, receiveAll silent 12 chunks (received []) = .ok () s' ∧
        s'.recvBuff.getCount = 0 ∧
        s'.deliveries.map (Delivery.packet Circle.contents) = [(3, [42, 43, 44]), (0, [])] := by
  intro chunks
  have hcut : chunks.flatten = encodePackets [[42, 43, 44], []] := by decide +kernel
  have hfit : Fits silent 12 (received [] : Connection Circle Unit) chunks := by decide +kernel
  obtain ⟨hseen, hend⟩ := @framing_independent_of_chunking Unit [[42, 43, 44], []]
    (by decide) silent quiet_silent
    (received []) Circle.loaded_nil rfl chunks hcut 12 (by decide +kernel) hfit
  refine ⟨hcut, fun seen later h => ?_, hend⟩
  obtain ⟨s', j, hrun, hj, -, -, hdel⟩ := hseen seen later h
  exact ⟨s', j, hrun, hj, hdel⟩

end SimpleNetwork
