import SimpleNetwork.Reactor.Framing

/-! Values written through one writer and read back with `operator>>`, on a
plain byte queue. Peeking leaves the count of a buffer alone, so the cursor of
a reader never moves. -/
namespace SimpleNetwork
open Words

private theorem queue_reads : Reads (fun q : ByteQueue => q.bytes.length < 2 ^ 64 - 1) ByteQueue.bytes where
  count h := ByteQueue.toNat_getCount (by omega)
  peek h hr := ByteQueue.read_peek _ _ h hr
  remove h hn := ⟨_, ByteQueue.remove_front (by omega) hn, by rw [List.length_drop]; omega, rfl⟩

namespace Writer
variable {q : ByteQueue}

theorem new_queue : (new : EStateM Fault ByteQueue Writer) q =
    .ok ⟨q.getCount.toUInt32, 0⟩ ⟨q.bytes ++ le32 placeholder⟩ := by
  rw [new, Outcome.get_bind, Outcome.bind_ok (a := ()) (ByteQueue.write_append _)]
  rfl

/-- `operator<<` appends the value and counts its bytes. -/
theorem put_queue (w : Writer) (value : List UInt8) :
    w.put value q = .ok ⟨w.head, w.length + UInt32.ofNat value.length⟩ ⟨q.bytes ++ value⟩ := by
  have hadded : ByteQueue.getCount ⟨q.bytes ++ value⟩ - q.getCount = UInt64.ofNat value.length := by
    rw [ByteQueue.getCount, ByteQueue.getCount, List.length_append, UInt64.ofNat_add, UInt64.add_comm,
      UInt64.add_sub_cancel]
  have hlength : (w.length.toUInt64 + UInt64.ofNat value.length).toUInt32 =
      w.length + UInt32.ofNat value.length := by
    rw [UInt64.toUInt32_add, UInt32.toUInt32_toUInt64, UInt64.toUInt32_ofNat']
  rw [put, Outcome.get_bind, Outcome.bind_ok (a := ()) (ByteQueue.write_append _), Outcome.get_bind]
  change EStateM.Result.ok { w with length :=
    (w.length.toUInt64 + (ByteQueue.getCount ⟨q.bytes ++ value⟩ - q.getCount)).toUInt32 } _ = _
  rw [hadded, hlength]

private theorem putAll_queue (w : Writer) (values : List (List UInt8)) :
    w.putAll values q = .ok ⟨w.head, w.length + UInt32.ofNat values.flatten.length⟩
      ⟨q.bytes ++ values.flatten⟩ := by
  induction values generalizing w q with
  | nil => simp [putAll]
  | cons value values ih =>
    rw [putAll, Outcome.bind_ok (put_queue w value), ih]
    simp [UInt32.add_assoc]

/-- `flush()` patches the header when it lies inside the queue. -/
theorem flush_queue (w : Writer) (parent : Option Writer) (h : q.bytes.length < 2 ^ 64 - 1)
    (hw : w.head.toNat + 4 ≤ q.bytes.length) :
    w.flush parent q = .ok (parent.map fun p => { p with length := p.length + w.length + 4 })
      ⟨CellRing.overwrite q.bytes w.head.toNat (le32 w.length)⟩ := by
  have hpatch := ByteQueue.write_patch (le32 w.length) w.head.toUInt64 h
    (by rw [UInt32.toNat_toUInt64]; exact hw)
  rw [UInt32.toNat_toUInt64] at hpatch
  rw [flush, Outcome.bind_ok (a := ()) hpatch]
  rfl

theorem child_queue (parent : Writer) :
    parent.child q = .ok ⟨parent.head + parent.length + 4, 0⟩ ⟨q.bytes ++ le32 placeholder⟩ := by
  rw [child, Outcome.bind_ok (a := ()) (ByteQueue.write_append _)]
  rfl

/-- `~writer()` does nothing when its header lies behind the queue or has been flushed. -/
theorem destroy_settled (w : Writer) (h : q.bytes.length < 2 ^ 64 - 1)
    (hw : q.bytes.length ≤ w.head.toNat ∨
      w.head.toNat + 4 ≤ q.bytes.length ∧ ofLe32 ((q.bytes.drop w.head.toNat).take 4) ≠ placeholder) :
    w.destroy q = .ok () q := by
  have hcount (hlt : q.bytes.length ≤ w.head.toNat) : ¬ Buffer.getCount q > w.head.toUInt64 := by
    change ¬ q.getCount > _
    rw [gt_iff_lt, UInt64.lt_iff_toNat_lt, ByteQueue.toNat_getCount (by omega), UInt32.toNat_toUInt64]
    omega
  rw [destroy, Outcome.get_bind]
  rcases hw with hbehind | ⟨hin, hne⟩
  · rw [if_neg (hcount hbehind)]
    rfl
  · have hread := ByteQueue.read_peek (q := q) 4 w.head.toUInt64 h (by rw [UInt32.toNat_toUInt64]; exact hin)
    rw [UInt32.toNat_toUInt64] at hread
    split
    · rw [Outcome.bind_ok hread]
      change (if ofLe32 ((q.bytes.drop w.head.toNat).take 4) = placeholder then _
        else _ : EStateM _ _ _) _ = _
      rw [if_neg hne]
      rfl
    · rfl

/-- `~writer()` takes back an unflushed packet at the end of the queue. -/
theorem destroy_unflushed (w : Writer) {before body : List UInt8} (hhead : w.head.toNat = before.length)
    (hlength : w.length.toNat = body.length) (h : before.length + (4 + body.length) < 2 ^ 64 - 1) :
    w.destroy (⟨before ++ (le32 placeholder ++ body)⟩ : ByteQueue) = .ok () ⟨before⟩ := by
  have hsize : (before ++ (le32 placeholder ++ body)).length = before.length + (4 + body.length) := by
    rw [List.length_append, List.length_append, length_le32]
  have hcount : Buffer.getCount (⟨before ++ (le32 placeholder ++ body)⟩ : ByteQueue) > w.head.toUInt64 := by
    change ByteQueue.getCount _ > _
    rw [gt_iff_lt, UInt64.lt_iff_toNat_lt, ByteQueue.toNat_getCount (by rw [hsize]; omega),
      UInt32.toNat_toUInt64]
    change w.head.toNat < (before ++ (le32 placeholder ++ body)).length
    omega
  have hread := ByteQueue.read_peek (q := ⟨before ++ (le32 placeholder ++ body)⟩) 4 w.head.toUInt64
    (by rw [hsize]; exact h)
    (by rw [UInt32.toNat_toUInt64, hsize]; change _ + 4 ≤ _; omega)
  rw [UInt32.toNat_toUInt64, show (4 : UInt64).toNat = (le32 placeholder).length from rfl, hhead,
    List.drop_left,
    List.take_left] at hread
  have htaken : (4 + w.length.toUInt64 : UInt64).toNat = 4 + body.length := by
    rw [toNat_add_of_lt, UInt32.toNat_toUInt64, hlength]
    · rfl
    · rw [UInt32.toNat_toUInt64, hlength]
      change 4 + _ < _
      omega
  have hback : Buffer.removeFromBack (4 + w.length.toUInt64)
      (⟨before ++ (le32 placeholder ++ body)⟩ : ByteQueue) = _ :=
    ByteQueue.remove_back (by rw [hsize]; omega) (by rw [htaken, hsize]; omega)
  rw [htaken, hsize, Nat.add_sub_cancel, List.take_left] at hback
  rw [destroy, Outcome.get_bind, if_pos hcount, Outcome.bind_ok hread, ofLe32_le32, if_pos rfl]
  exact hback

end Writer

namespace Reader
variable {q : ByteQueue}

/-- `operator>>` returns the bytes at the cursor and leaves the cursor where it is. -/
theorem get_queue (r : Reader) {size : UInt64} (h : q.bytes.length < 2 ^ 64 - 1)
    (hr : r.tail.toNat + size.toNat ≤ q.bytes.length) :
    r.get size q = .ok ((q.bytes.drop r.tail.toNat).take size.toNat, r) q := by
  have hread := ByteQueue.read_peek size r.tail.toUInt64 h
    (by rw [UInt32.toNat_toUInt64]; exact hr)
  rw [UInt32.toNat_toUInt64] at hread
  have hcursor : (r.tail.toUInt64 + (q.getCount - q.getCount)).toUInt32 = r.tail := by
    rw [UInt64.sub_self, UInt64.add_zero, UInt32.toUInt32_toUInt64]
  rw [get, Outcome.get_bind, Outcome.bind_ok hread, Outcome.get_bind]
  change EStateM.Result.ok
    (_, ({ r with tail := (r.tail.toUInt64 + (q.getCount - q.getCount)).toUInt32 } : Reader)) q = _
  rw [hcursor]

private theorem getAll_queue (r : Reader) (sizes : List UInt64) (h : q.bytes.length < 2 ^ 64 - 1)
    (hr : ∀ size ∈ sizes, r.tail.toNat + size.toNat ≤ q.bytes.length) :
    r.getAll sizes q = .ok (sizes.map fun size => (q.bytes.drop r.tail.toNat).take size.toNat, r) q := by
  induction sizes with
  | nil => rfl
  | cons size sizes ih =>
    have hrest := ih fun n hn => hr n (List.mem_cons_of_mem _ hn)
    rw [getAll, Outcome.bind_ok (get_queue r h (hr size List.mem_cons_self))]
    change ((r.getAll sizes) >>= _) q = _
    rw [Outcome.bind_ok hrest]
    rfl

end Reader

/-- One packet through one writer: open, append the values in order, flush. -/
def pack (values : List (List UInt8)) : EStateM Fault ByteQueue Unit := do
  let w ← Writer.new
  let w ← w.putAll values
  let _ ← w.flush none
  pure ()

/-- An `on_recv` that reads values of the given sizes and keeps them with the
reader's `length()`. -/
def unpack (sizes : List UInt64) : OnRecv ByteQueue (Option (List (List UInt8) × UInt32)) := fun _ r => do
  let (values, r) ← Connection.recv (r.getAll sizes)
  modify fun s => { s with socket := some (values, r.length) }

def arrived (q : ByteQueue) : Connection ByteQueue (Option (List (List UInt8) × UInt32)) :=
  ⟨.connected, q, ⟨[]⟩, none, []⟩

/-- The values come back from the reader that `on_read` builds on the packed
bytes, and its length is the sum of their sizes. -/
def RoundTrips (values : List (List UInt8)) : Prop :=
  ∃ q more s' length, pack values ⟨[]⟩ = .ok () q ∧
    Connection.onReadRound (unpack (values.map fun v => UInt64.ofNat v.length)) (arrived q) = .ok more s' ∧
    s'.socket = some (values, length) ∧ length.toNat = (values.map List.length).sum

private theorem pack_empty {values : List (List UInt8)} (h : values.flatten.length < 2 ^ 32) :
    pack values ⟨[]⟩ = .ok () ⟨encodePacket values.flatten⟩ := by
  have hflush := Writer.flush_queue ⟨0, UInt32.ofNat values.flatten.length⟩ none
    (q := ⟨le32 placeholder ++ values.flatten⟩) (by rw [List.length_append, length_le32]; omega)
    (Nat.le_add_right 4 values.flatten.length |>.trans_eq (by rw [List.length_append, length_le32]))
  rw [pack, Outcome.bind_ok Writer.new_queue, Outcome.bind_ok (Writer.putAll_queue _ values)]
  change ((Writer.flush ⟨0, 0 + UInt32.ofNat values.flatten.length⟩ none : EStateM Fault ByteQueue _) >>= _)
    ⟨([] ++ le32 placeholder) ++ values.flatten⟩ = _
  rw [UInt32.zero_add, List.nil_append, Outcome.bind_ok hflush]
  rfl

/-- What comes back instead: for each value, that many bytes from the front of
the payload. -/
theorem unpack_packed (values : List (List UInt8)) (h : values.flatten.length < 2 ^ 32) :
    ∃ more s', Connection.onReadRound (unpack (values.map fun v => UInt64.ofNat v.length))
        (arrived ⟨encodePacket values.flatten⟩) = .ok more s' ∧
      s'.socket = some (values.map fun v => values.flatten.take v.length,
        UInt32.ofNat values.flatten.length) := by
  have hvalid : (encodePacket values.flatten).length < 2 ^ 64 - 1 := by
    rw [length_encodePacket]
    omega
  have hdeclared : declared (encodePacket values.flatten) = UInt32.ofNat values.flatten.length :=
    declared_encoded (rfl : encodePacket values.flatten ++ [] = encodePacket values.flatten ++ [])
      (by rw [length_encodePacket]; omega)
  have hsize : packetSize (encodePacket values.flatten) ≤ values.flatten.length + 4 := by
    rw [packetSize, hdeclared, UInt32.toNat_ofNat', Nat.mod_eq_of_lt h]
    exact Nat.mod_le _ _
  have hready : Ready (encodePacket values.flatten) := by
    constructor
    all_goals rw [length_encodePacket]
    · omega
    · exact hsize
  have hfits (v : List UInt8) (hv : v ∈ values) : v.length ≤ values.flatten.length :=
    (List.sublist_flatten_of_mem hv).length_le
  have hread := Reader.getAll_queue ⟨0, 4, UInt32.ofNat values.flatten.length⟩
    (values.map fun v => UInt64.ofNat v.length) (q := ⟨encodePacket values.flatten⟩) hvalid (by
      intro size hmem
      obtain ⟨v, hv, rfl⟩ := List.mem_map.mp hmem
      have hl := hfits v hv
      rw [toNat_ofNat_of_lt (by omega), length_encodePacket]
      change 4 + v.length ≤ _
      omega)
  have hvalues : ((values.map fun v => UInt64.ofNat v.length).map fun size =>
      ((encodePacket values.flatten).drop (4 : UInt32).toNat).take size.toNat) =
      values.map fun v => values.flatten.take v.length := by
    rw [List.map_map]
    refine List.map_congr_left fun v hv => ?_
    have hl := hfits v hv
    change ((encodePacket values.flatten).drop (le32 (UInt32.ofNat values.flatten.length)).length).take
      (UInt64.ofNat v.length).toNat = _
    rw [toNat_ofNat_of_lt (by omega), encodePacket, List.drop_left]
  have hcall : unpack (values.map fun v => UInt64.ofNat v.length) 0
    ⟨0, 4, declared (encodePacket values.flatten)⟩
      (arrived ⟨encodePacket values.flatten⟩) = .ok () { arrived ⟨encodePacket values.flatten⟩ with
        socket := some (values.map fun v => values.flatten.take v.length,
          UInt32.ofNat values.flatten.length) } := by
    rw [hdeclared, unpack, Outcome.bind_ok (Connection.recv_ok hread), ← hvalues]
    rfl
  obtain ⟨b, -, -, hround⟩ := Connection.onReadRound_keep queue_reads hvalid hready hcall rfl rfl
  exact ⟨_, _, hround, rfl⟩

/-- A packet round trips exactly when every value is a prefix of the whole
payload and the payload length fits the header. -/
theorem packet_round_trip_iff (values : List (List UInt8)) :
    RoundTrips values ↔ (∀ v ∈ values, v <+: values.flatten) ∧ values.flatten.length < 2 ^ 32 := by
  have hsum : (values.map List.length).sum = values.flatten.length := List.length_flatten.symm
  have hfront (v : List UInt8) : values.flatten.take v.length = v ↔ v <+: values.flatten :=
    eq_comm.trans List.prefix_iff_eq_take.symm
  constructor
  · rintro ⟨q, more, s', length, hpack, hround, hsocket, hlength⟩
    have hlt : values.flatten.length < 2 ^ 32 := by
      rw [← hsum, ← hlength]
      exact length.toNat_lt
    obtain ⟨more', t, hround', hsocket'⟩ := unpack_packed values hlt
    rw [pack_empty hlt] at hpack
    cases hpack
    rw [hround] at hround'
    cases hround'
    rw [hsocket, Option.some_inj, Prod.mk.injEq] at hsocket'
    refine ⟨fun v hv => (hfront v).mp ?_, hlt⟩
    have hmap : values.map (fun v => values.flatten.take v.length) = values.map id := by
      rw [← hsocket'.1, List.map_id]
    exact List.map_inj_left.mp hmap v hv
  · rintro ⟨hvalues, hlt⟩
    obtain ⟨more, t, hround, hsocket⟩ := unpack_packed values hlt
    refine ⟨_, more, t, UInt32.ofNat values.flatten.length, pack_empty hlt, hround, ?_, ?_⟩
    · rw [hsocket]
      have hmap : values.map (fun v => values.flatten.take v.length) = values.map id :=
        List.map_congr_left fun v hv => (hfront v).mpr (hvalues v hv)
      rw [hmap, List.map_id]
    · rw [UInt32.toNat_ofNat', Nat.mod_eq_of_lt hlt, hsum]

/-- Two one-byte values: the second read returns the first value again. -/
theorem round_trip_two_bytes : ¬ RoundTrips [[1], [2]] := by
  rintro ⟨q, more, s', length, hpack, hround, hsocket, -⟩
  have hq : pack [[1], [2]] ⟨[]⟩ = .ok () ⟨encodePacket [1, 2]⟩ := by decide +kernel
  rw [hq] at hpack
  cases hpack
  obtain ⟨more', t, hround', hsocket'⟩ := unpack_packed [[1], [2]] (by decide)
  rw [show encodePacket [[1], [2]].flatten = encodePacket [1, 2] from rfl, hround] at hround'
  cases hround'
  rw [hsocket, Option.some_inj, Prod.mk.injEq] at hsocket'
  exact absurd hsocket'.1 (by decide)

end SimpleNetwork
