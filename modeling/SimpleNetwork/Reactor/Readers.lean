import SimpleNetwork.Reactor.Nested
import SimpleNetwork.Reactor.SendBuffer

/-! Readers inside readers. All cursors are offsets from the front of the buffer;
a child reader moves its parent past the whole child, and is itself moved by its
own children. What is not read yet can be forwarded to another buffer. -/
namespace SimpleNetwork
open Words

/-- Packets side by side. A packet holds packets only or bytes only, and of the
bytes the first value is the one an application reads. -/
inductive Packets where
  | done
  | leaf (value others : List UInt8) (rest : Packets)
  | node (inner rest : Packets)
  deriving DecidableEq, Repr

structure Visit where
  reader : Reader
  value : Option (List UInt8)
  deriving DecidableEq, Repr

namespace Packets

def content : Packets → Content
  | done => .done
  | leaf value others rest => .packet (.value value (.value others .done)) rest.content
  | node inner rest => .packet inner.content rest.content

def encode (packets : Packets) : List UInt8 := packets.content.encode

/-- The readers that the packets need when they start at the given offset: each
header, each length, the first bytes of a leaf, the end of a packet of packets. -/
def visits (place : Nat) : Packets → List Visit
  | done => []
  | leaf value others rest =>
    ⟨⟨UInt32.ofNat place, UInt32.ofNat (place + 4), UInt32.ofNat (value ++ others).length⟩, some value⟩ ::
      rest.visits (place + (4 + (value ++ others).length))
  | node inner rest =>
    ⟨⟨UInt32.ofNat place, UInt32.ofNat (place + (4 + inner.encode.length)),
      UInt32.ofNat inner.encode.length⟩, none⟩ ::
      (inner.visits (place + 4) ++ rest.visits (place + (4 + inner.encode.length)))

@[simp] private theorem encode_done : done.encode = [] := rfl

@[simp] private theorem encode_leaf (value others : List UInt8) (rest : Packets) :
    (leaf value others rest).encode = encodePacket (value ++ others) ++ rest.encode := by
  simp [encode, content, Content.encode]

@[simp] private theorem encode_node (inner rest : Packets) :
    (node inner rest).encode = encodePacket inner.encode ++ rest.encode := rfl

end Packets

namespace Reader
variable {β : Type} [Buffer β]

/-- Depth first: a child reader for each packet, in a leaf one `operator>>`, in
a packet of packets the same again. -/
def walk (r : Reader) : Packets → EStateM Fault β (List Visit × Reader)
  | .done => pure ([], r)
  | .leaf value _ rest => do
    let (child, r) ← r.child
    let (read, child) ← child.get (UInt64.ofNat value.length)
    let (visits, r) ← walk r rest
    pure (⟨child, some read⟩ :: visits, r)
  | .node inner rest => do
    let (child, r) ← r.child
    let (inside, child) ← walk child inner
    let (visits, r) ← walk r rest
    pure (⟨child, none⟩ :: (inside ++ visits), r)

section Walk
variable {Valid : β → Prop} {contents : β → List UInt8} (R : Reads Valid contents) {b : β} (hb : Valid b)
  {r : Reader} {before body after : List UInt8} {place : Nat} (hplace : before.length = place)
  (htail : r.tail = UInt32.ofNat place)
include R hb hplace htail

/-- A child reader of the packet at the cursor. -/
theorem child_reads (hc : contents b = before ++ (encodePacket body ++ after)) (hsmall : place < 2 ^ 32) :
    r.child b = .ok (⟨UInt32.ofNat place, UInt32.ofNat (place + 4), UInt32.ofNat body.length⟩,
      { r with tail := UInt32.ofNat (place + (4 + body.length)) }) b := by
  have hcursor : r.tail.toUInt64.toNat = place := by
    rw [UInt32.toNat_toUInt64, htail, UInt32.toNat_ofNat', Nat.mod_eq_of_lt hsmall]
  have hread := R.peek hb (show r.tail.toUInt64.toNat + (4 : UInt64).toNat ≤ (contents b).length by
    rw [hcursor, hc, List.length_append, List.length_append, length_encodePacket]
    change place + 4 ≤ _
    omega)
  have hheader : ((contents b).drop place).take (4 : UInt64).toNat = le32 (UInt32.ofNat body.length) := by
    rw [hc, ← hplace, List.drop_left, encodePacket, List.append_assoc]
    exact List.take_left' (length_le32 _)
  have hbehind : UInt32.ofNat place + UInt32.ofNat body.length + 4 =
      UInt32.ofNat (place + (4 + body.length)) := by
    rw [UInt32.ofNat_add, UInt32.ofNat_add, UInt32.add_assoc, UInt32.add_comm (UInt32.ofNat body.length)]
    rfl
  rw [hcursor, hheader] at hread
  rw [child, Outcome.bind_ok hread, ofLe32_le32, htail, hbehind, UInt32.ofNat_add place 4]
  rfl

/-- `operator>>` at the cursor. -/
theorem get_reads {value : List UInt8} (hc : contents b = before ++ (value ++ after))
    (hsmall : place + value.length < 2 ^ 32) :
    r.get (UInt64.ofNat value.length) b = .ok (value, r) b := by
  have hcursor : r.tail.toUInt64.toNat = place := by
    rw [UInt32.toNat_toUInt64, htail, UInt32.toNat_ofNat', Nat.mod_eq_of_lt (by omega)]
  have hsize : (UInt64.ofNat value.length).toNat = value.length := toNat_ofNat_of_lt (by omega)
  have hread :=
    R.peek hb (show r.tail.toUInt64.toNat + (UInt64.ofNat value.length).toNat ≤
      (contents b).length by
    rw [hcursor, hsize, hc, List.length_append, List.length_append]
    omega)
  rw [hcursor, hsize, hc, ← hplace, List.drop_left, List.take_left] at hread
  have hstay : (r.tail.toUInt64 + (Buffer.getCount b - Buffer.getCount b)).toUInt32 = r.tail := by
    rw [UInt64.sub_self, UInt64.add_zero, UInt32.toUInt32_toUInt64]
  rw [get, Outcome.get_bind, Outcome.bind_ok hread, Outcome.get_bind, hstay]
  rfl

/-- By induction on the packets; the walk inside a packet starts behind its header,
the walk over the rest behind its end. -/
theorem walk_reads (packets : Packets) (hc : contents b = before ++ (packets.encode ++ after))
    (hsmall : place + packets.encode.length < 2 ^ 32) :
    r.walk packets b = .ok (packets.visits place,
      { r with tail := UInt32.ofNat (place + packets.encode.length) }) b := by
  induction packets generalizing r before after place with
  | done =>
    rw [walk, Packets.encode_done, List.length_nil, Nat.add_zero, ← htail]
    rfl
  | leaf value others rest ih =>
    rw [Packets.encode_leaf, List.length_append, length_encodePacket] at hsmall ⊢
    rw [Packets.encode_leaf, List.append_assoc] at hc
    have hend : place + ((value ++ others).length + 4 + rest.encode.length) =
        place + (4 + (value ++ others).length) + rest.encode.length := by omega
    have hchild := child_reads R hb hplace htail hc (by omega)
    have hinside : contents b = (before ++ le32 (UInt32.ofNat (value ++ others).length)) ++
        (value ++ (others ++ (rest.encode ++ after))) := by
      rw [hc, encodePacket]
      simp only [List.append_assoc]
    have hheader : (before ++ le32 (UInt32.ofNat (value ++ others).length)).length = place + 4 := by
      rw [List.length_append, length_le32, hplace]
    have hvalue :=
      get_reads (r := ⟨UInt32.ofNat place, UInt32.ofNat (place + 4),
        UInt32.ofNat (value ++ others).length⟩)
      R hb hheader rfl hinside (by rw [List.length_append] at hsmall; omega)
    have hbehind : contents b = (before ++ encodePacket (value ++ others)) ++ (rest.encode ++ after) := by
      rw [hc, List.append_assoc]
    have hlong : (before ++ encodePacket (value ++ others)).length =
        place + (4 + (value ++ others).length) := by
      rw [List.length_append, length_encodePacket, hplace, Nat.add_comm 4]
    have hrest :=
      ih hlong (r := { r with tail := UInt32.ofNat (place + (4 + (value ++ others).length)) }) rfl
        hbehind
      (by omega)
    rw [walk, Outcome.bind_ok hchild]
    change (get _ _ >>= _) b = _
    rw [Outcome.bind_ok hvalue]
    change (walk _ rest >>= _) b = _
    rw [Outcome.bind_ok hrest, hend]
    rfl
  | node inner rest ihinner ihrest =>
    rw [Packets.encode_node, List.length_append, length_encodePacket] at hsmall ⊢
    rw [Packets.encode_node, List.append_assoc] at hc
    have hend : place + (inner.encode.length + 4 + rest.encode.length) =
        place + (4 + inner.encode.length) + rest.encode.length := by omega
    have hchild := child_reads R hb hplace htail hc (by omega)
    have hinside : contents b = (before ++ le32 (UInt32.ofNat inner.encode.length)) ++
        (inner.encode ++ (rest.encode ++ after)) := by
      rw [hc, encodePacket]
      simp only [List.append_assoc]
    have hheader : (before ++ le32 (UInt32.ofNat inner.encode.length)).length = place + 4 := by
      rw [List.length_append, length_le32, hplace]
    have hinner :=
      ihinner hheader (r := ⟨UInt32.ofNat place, UInt32.ofNat (place + 4),
        UInt32.ofNat inner.encode.length⟩)
      rfl hinside (by omega)
    rw [Nat.add_assoc place 4] at hinner
    have hbehind : contents b = (before ++ encodePacket inner.encode) ++ (rest.encode ++ after) := by
      rw [hc, List.append_assoc]
    have hlong : (before ++ encodePacket inner.encode).length = place + (4 + inner.encode.length) := by
      rw [List.length_append, length_encodePacket, hplace, Nat.add_comm 4]
    have hrest :=
      ihrest hlong (r := { r with tail := UInt32.ofNat (place + (4 + inner.encode.length)) }) rfl
        hbehind
      (by omega)
    rw [walk, Outcome.bind_ok hchild]
    change (walk _ inner >>= _) b = _
    rw [Outcome.bind_ok hinner]
    change (walk _ rest >>= _) b = _
    rw [Outcome.bind_ok hrest, hend]
    rfl

end Walk
end Reader

/-- One packet at the front of a buffer. -/
inductive PacketTree where
  | leaf (value others : List UInt8)
  | node (inner : Packets)
  deriving DecidableEq, Repr

namespace PacketTree

def packets : PacketTree → Packets
  | leaf value others => .leaf value others .done
  | node inner => .node inner .done

def read {β : Type} [Buffer β] : PacketTree → EStateM Fault β (List Visit)
  | leaf value _ => do
    let r ← Reader.new
    let (read, r) ← r.get (UInt64.ofNat value.length)
    pure [⟨r, some read⟩]
  | node inner => do
    let r ← Reader.new
    let (inside, r) ← r.walk inner
    pure (⟨r, none⟩ :: inside)

end PacketTree

/-- The cursor of a packet of packets ends behind its last child. -/
theorem Packets.visits_end (packets : Packets) (place : Nat) :
    ∀ v ∈ packets.visits place, v.value = none → v.reader.tail = v.reader.head + 4 + v.reader.length := by
  induction packets generalizing place with
  | done => exact fun v hv => nomatch hv
  | leaf value others rest ih =>
    intro v hv
    rcases List.mem_cons.mp hv with rfl | hv
    · exact fun hn => nomatch hn
    · exact ih _ v hv
  | node inner rest ihinner ihrest =>
    intro v hv
    rcases List.mem_cons.mp hv with rfl | hv
    · intro _
      change UInt32.ofNat (place + (4 + inner.encode.length)) = _
      rw [UInt32.ofNat_add, UInt32.ofNat_add, ← UInt32.add_assoc]
      rfl
    · rcases List.mem_append.mp hv with hv | hv
      · exact ihinner _ v hv
      · exact ihrest _ v hv

section Front
variable {β : Type} [Buffer β] {Valid : β → Prop} {contents : β → List UInt8}
  (R : Reads Valid contents) {b : β}
  (hb : Valid b)
include R hb

private theorem Reader.new_reads {body more : List UInt8} (hc : contents b = encodePacket body ++ more) :
    (Reader.new : EStateM Fault β Reader) b = .ok ⟨0, 4, UInt32.ofNat body.length⟩ b := by
  have hread := R.peek hb (show (0 : UInt64).toNat + (4 : UInt64).toNat ≤ (contents b).length by
    rw [hc, List.length_append, length_encodePacket]
    change 0 + 4 ≤ _
    omega)
  have hheader : ((contents b).drop (0 : UInt64).toNat).take (4 : UInt64).toNat =
      le32 (UInt32.ofNat body.length) := by
    rw [hc, encodePacket, List.append_assoc]
    exact List.take_left' (length_le32 _)
  rw [hheader] at hread
  rw [Reader.new, Outcome.bind_ok hread, ofLe32_le32]
  rfl

private theorem PacketTree.read_reads (tree : PacketTree) {more : List UInt8}
    (hc : contents b = tree.packets.encode ++ more)
    (hsmall : tree.packets.encode.length < 2 ^ 32) : tree.read b = .ok (tree.packets.visits 0) b := by
  cases tree with
  | leaf value others =>
    rw [packets, Packets.encode_leaf, Packets.encode_done, List.append_nil] at hc hsmall
    rw [length_encodePacket, List.length_append] at hsmall
    have hinside : contents b = le32 (UInt32.ofNat (value ++ others).length) ++
        (value ++ (others ++ more)) := by
      rw [hc, encodePacket]
      simp only [List.append_assoc]
    have hvalue := Reader.get_reads (r := ⟨0, 4, UInt32.ofNat (value ++ others).length⟩) R hb
      (length_le32 _) rfl hinside
      (by omega)
    rw [read, Outcome.bind_ok (Reader.new_reads R hb hc), Outcome.bind_ok hvalue]
    rfl
  | node inner =>
    rw [packets, Packets.encode_node, Packets.encode_done, List.append_nil] at hc hsmall
    rw [length_encodePacket] at hsmall
    have hinside : contents b = le32 (UInt32.ofNat inner.encode.length) ++ (inner.encode ++ more) := by
      rw [hc, encodePacket, List.append_assoc]
    have hwalk := Reader.walk_reads (r := ⟨0, 4, UInt32.ofNat inner.encode.length⟩) R hb
      (length_le32 _) rfl inner hinside
      (by omega)
    rw [read, Outcome.bind_ok (Reader.new_reads R hb hc), Outcome.bind_ok hwalk]
    simp [packets, Packets.visits]

end Front

/-- Reading a tree of packets from the front of a buffer, depth first: the readers
are those the tree's encoding needs, with its offsets, lengths and first values,
and every packet of packets has been read to its end. -/
theorem nested_readers_decode {c : Circle} (h : c.Valid) (tree : PacketTree) {more : List UInt8}
    (hc : c.contents = tree.packets.encode ++ more) :
    tree.read c = .ok (tree.packets.visits 0) c ∧
      ∀ v ∈ tree.packets.visits 0, v.value = none → v.reader.tail = v.reader.head + 4 + v.reader.length := by
  have hsmall : tree.packets.encode.length < 2 ^ 32 := by
    have hlt := h.length_lt
    have hle := h.size_le
    rw [hc, List.length_append] at hlt
    omega
  exact ⟨tree.read_reads (circle_reads fun _ => True) ⟨h, trivial⟩ hc hsmall, tree.packets.visits_end 0⟩

theorem nested_readers_decode_sample :
    let tree : PacketTree := .node (.leaf [7] [8] (.node (.leaf [9] [] .done) .done))
    let c := Circle.loaded (tree.packets.encode ++ [5])
    tree.packets.encode = [15, 0, 0, 0, 2, 0, 0, 0, 7, 8, 5, 0, 0, 0, 1, 0, 0, 0, 9] ∧
      tree.read c = .ok [⟨⟨0, 19, 15⟩, none⟩, ⟨⟨4, 8, 2⟩, some [7]⟩, ⟨⟨10, 19, 5⟩, none⟩,
        ⟨⟨14, 18, 1⟩, some [9]⟩] c := by
  have hloaded := Circle.loaded_valid
    ((PacketTree.node (.leaf [7] [8] (.node (.leaf [9] [] .done) .done))).packets.encode ++ [5]) (by decide)
  exact ⟨rfl, (nested_readers_decode hloaded.1 _ hloaded.2).1⟩

/-- The reader of a packet that lies in the buffer, its cursor somewhere in the packet. -/
structure Reader.Within (q : List UInt8) (r : Reader) : Prop where
  header : ofLe32 ((q.drop r.head.toNat).take 4) = r.length
  fits : r.head.toNat + 4 + r.length.toNat ≤ q.length
  start_le : r.head.toNat + 4 ≤ r.tail.toNat
  tail_le : r.tail.toNat ≤ r.head.toNat + 4 + r.length.toNat

def Reader.unread (q : List UInt8) (r : Reader) : List UInt8 :=
  (q.drop r.tail.toNat).take (r.head.toNat + 4 + r.length.toNat - r.tail.toNat)

def sendReader (source : ByteQueue) (r : Reader) : EStateM Fault ByteQueue Unit := do
  let w ← Writer.new
  let w ← w.forward source r
  let _ ← w.flush none
  pure ()

/-- `writer << reader` appends the unread bytes and counts them. -/
def Writer.Forwards (w : Writer) (source q : ByteQueue) (r : Reader) : Prop :=
  ∃ w', w.forward source r q = .ok w' ⟨q.bytes ++ r.unread source.bytes⟩ ∧ w'.head = w.head ∧
    w'.length.toNat = w.length.toNat + (r.unread source.bytes).length

section Forward
variable {source q : ByteQueue} {r : Reader} (h : r.Within source.bytes)
include h

private theorem Reader.Within.length_unread :
    (r.unread source.bytes).length = r.head.toNat + 4 + r.length.toNat - r.tail.toNat := by
  have hfits := h.fits
  rw [Reader.unread, List.length_take, List.length_drop]
  omega

/-- Without an offset in front of the packet, the length that is computed is that of the unread bytes. -/
theorem Reader.Within.forward_front (hhead : r.head = 0) (hsource : source.bytes.length < 2 ^ 64)
    (w : Writer) :
    w.forward source r q = .ok ⟨w.head, w.length + UInt32.ofNat (r.unread source.bytes).length⟩
      ⟨q.bytes ++ r.unread source.bytes⟩ := by
  have hzero : r.head.toNat = 0 := by rw [hhead]; rfl
  have hfits := h.fits
  have htail := h.tail_le
  have hrun := SendSide.forward_queue (q := q) w (show r.tail.toNat ≤ r.length.toNat + 4 by omega)
    (show r.length.toNat + 4 ≤ source.bytes.length by omega) hsource
  have hsame : forwardedBytes source r = r.unread source.bytes := by
    rw [forwardedBytes, Reader.unread, SendSide.toNat_forwarded (by omega)]
    congr 1
    omega
  rw [hsame] at hrun
  exact hrun

/-- The writer is counted up by the length of the unread bytes less the offset of the packet. -/
theorem Reader.Within.toNat_counted (w : Writer) :
    ((w.length.toUInt64 + (r.length.toUInt64 + 4 - r.tail.toUInt64)).toUInt32.toNat + r.head.toNat) % 2 ^ 32 =
      (w.length.toNat + (r.unread source.bytes).length) % 2 ^ 32 := by
  have hlen := h.length_unread
  have hstart := h.start_le
  have htail := h.tail_le
  have hw := w.length.toNat_lt
  have hr := r.length.toNat_lt
  have ht := r.tail.toNat_lt
  rw [hlen, UInt64.toNat_toUInt32, UInt64.toNat_add, UInt64.toNat_sub, UInt64.toNat_add]
  simp only [UInt32.toNat_toUInt64]
  change ((w.length.toNat + (2 ^ 64 - r.tail.toNat + (r.length.toNat + 4) % 2 ^ 64) % 2 ^ 64) % 2 ^ 64 % 2 ^ 32 + r.head.toNat) % 2 ^ 32 = _
  omega

/-- A writer that is counted up by the right number reads a packet at the front. -/
theorem Reader.Within.front_of_counted {w : Writer}
    (hcount : (w.length.toUInt64 + (r.length.toUInt64 + 4 - r.tail.toUInt64)).toUInt32.toNat =
      w.length.toNat + (r.unread source.bytes).length) : r.head = 0 := by
  have hmod := h.toNat_counted w
  have hlt := r.head.toNat_lt
  rw [hcount] at hmod
  rw [← UInt32.toNat_inj]
  change r.head.toNat = 0
  omega

private theorem Writer.forwards_iff {w : Writer} (hsource : source.bytes.length < 2 ^ 64)
    (hroom : w.length.toNat + (r.unread source.bytes).length < 2 ^ 32) : w.Forwards source q r ↔
    r.head = 0 := by
  constructor
  · rintro ⟨w', hrun, -, hlength⟩
    obtain ⟨u, q', -, hdone⟩ := Outcome.bind_eq_ok.mp hrun
    obtain ⟨rfl, -⟩ := EStateM.Result.ok.inj hdone
    exact h.front_of_counted hlength
  · intro hhead
    refine ⟨_, h.forward_front hhead hsource w, rfl, ?_⟩
    change (w.length + UInt32.ofNat (r.unread source.bytes).length).toNat = _
    rw [UInt32.toNat_add, UInt32.toNat_ofNat']
    omega

omit h in
/-- Whatever is copied goes behind what was there. -/
theorem ByteQueue.writeFrom_appends {offset count : UInt64} {q' : ByteQueue}
    (hrun : ByteQueue.writeFrom source offset count q = .ok () q') :
    ∃ copied, q'.bytes = q.bytes ++ copied := by
  unfold ByteQueue.writeFrom at hrun
  split at hrun
  · cases hrun
  · cases (ByteQueue.write_append _).symm.trans hrun
    exact ⟨_, rfl⟩

omit h in
private theorem ByteQueue.write_patched {data : List UInt8} {offset : UInt64} {q' : ByteQueue}
    (hoff : offset ≠ noOffset)
    (hrun : ByteQueue.write data offset q = .ok () q') :
    q'.bytes = CellRing.overwrite q.bytes offset.toNat data := by
  rw [ByteQueue.write, Outcome.get_bind, if_neg hoff] at hrun
  split at hrun
  · cases hrun
  · cases hrun
    rfl

private theorem sendReader_iff (hsource : source.bytes.length < 2 ^ 64)
    (hroom : q.bytes.length + 4 + (r.unread source.bytes).length < 2 ^ 32 - 1) :
    sendReader source r q = .ok () ⟨q.bytes ++ encodePacket (r.unread source.bytes)⟩ ↔ r.head = 0 := by
  have hplace : q.getCount.toUInt32.toNat = q.bytes.length := by
    rw [UInt64.toNat_toUInt32, ByteQueue.toNat_getCount (by omega), Nat.mod_eq_of_lt (by omega)]
  rw [sendReader, Outcome.bind_ok Writer.new_queue]
  constructor
  · intro hrun
    obtain ⟨w, q₁, hforward, hflushed⟩ := Outcome.bind_eq_ok.mp hrun
    obtain ⟨u, q₂, hwrite, hdone⟩ := Outcome.bind_eq_ok.mp hforward
    obtain ⟨rfl, rfl⟩ := EStateM.Result.ok.inj hdone
    obtain ⟨copied, hcopied⟩ := ByteQueue.writeFrom_appends hwrite
    obtain ⟨p, q₃, hflush, hlast⟩ := Outcome.bind_eq_ok.mp hflushed
    obtain ⟨-, rfl⟩ := EStateM.Result.ok.inj hlast
    obtain ⟨v, q₄, hpatch, hkept⟩ := Outcome.bind_eq_ok.mp hflush
    obtain ⟨-, rfl⟩ := EStateM.Result.ok.inj hkept
    have hbytes := ByteQueue.write_patched (word_ne_noOffset _) hpatch
    rw [hcopied, UInt32.toNat_toUInt64] at hbytes
    change q.bytes ++ encodePacket _ =
      CellRing.overwrite (q.bytes ++ le32 placeholder ++ copied)
      q.getCount.toUInt32.toNat _ at hbytes
    rw [hplace, List.append_assoc, CellRing.overwrite_append, List.append_assoc,
      List.append_cancel_left_eq, encodePacket] at hbytes
    have hheader := congrArg ofLe32 (List.append_inj_left hbytes rfl)
    rw [ofLe32_le32, ofLe32_le32] at hheader
    refine h.front_of_counted (w := ⟨q.getCount.toUInt32, 0⟩) ((congrArg UInt32.toNat hheader.symm).trans ?_)
    change _ = 0 + _
    rw [UInt32.toNat_ofNat']
    omega
  · intro hhead
    rw [Outcome.bind_ok (h.forward_front hhead hsource _), UInt32.zero_add]
    have hlength : (UInt32.ofNat (r.unread source.bytes).length).toNat = (r.unread source.bytes).length := by
      rw [UInt32.toNat_ofNat']
      omega
    obtain ⟨hflush, -⟩ :=
      Writer.flush_last (c := ⟨q.getCount.toUInt32, UInt32.ofNat (r.unread source.bytes).length⟩)
        none hplace hlength (by omega)
    rw [Outcome.bind_ok hflush]
    rfl

end Forward

/-- Forwarding is right exactly for a packet at the front of its buffer, which is
what a top-level reader reads. The length is taken from the cursor, an offset in
the buffer, as if it were an offset in the packet. -/
theorem forwarding_exact_iff {source q : ByteQueue} {r : Reader} (h : r.Within source.bytes)
    (hsource : source.bytes.length < 2 ^ 64) (w : Writer)
    (hw : w.length.toNat + (r.unread source.bytes).length < 2 ^ 32)
    (hroom : q.bytes.length + 4 + (r.unread source.bytes).length < 2 ^ 32 - 1) :
    (w.Forwards source q r ↔ r.head = 0) ∧
      (sendReader source r q = .ok () ⟨q.bytes ++ encodePacket (r.unread source.bytes)⟩ ↔ r.head = 0) :=
  ⟨Writer.forwards_iff h hsource hw, sendReader_iff h hsource hroom⟩

/-- A top-level reader of three bytes whose cursor is behind the first of them. -/
theorem forwarding_exact_top_level :
    Writer.Forwards ⟨0, 0⟩ ⟨[3, 0, 0, 0, 7, 8, 9, 6]⟩ ⟨[1, 2, 3, 4]⟩ ⟨0, 5, 3⟩ ∧
      sendReader ⟨[3, 0, 0, 0, 7, 8, 9, 6]⟩ ⟨0, 5, 3⟩ ⟨[1]⟩ = .ok () ⟨[1, 2, 0, 0, 0, 8, 9]⟩ := by
  have hwithin : Reader.Within [3, 0, 0, 0, 7, 8, 9, 6] ⟨0, 5, 3⟩ :=
    ⟨by decide, by decide, by decide, by decide⟩
  exact ⟨(forwarding_exact_iff (q := ⟨[1, 2, 3, 4]⟩) hwithin (by decide) ⟨0, 0⟩ (by decide)
    (by decide)).1.mpr rfl,
    (forwarding_exact_iff (q := ⟨[1]⟩) hwithin (by decide) ⟨0, 0⟩ (by decide) (by decide)).2.mpr rfl⟩

/-- A child of two bytes: the length wraps below zero, and the frame that is sent
declares it. -/
theorem forwarding_child :
    (Reader.new >>= Reader.child : EStateM Fault ByteQueue _) ⟨[6, 0, 0, 0, 2, 0, 0, 0, 7, 8]⟩ =
        .ok (⟨4, 8, 2⟩, ⟨0, 10, 6⟩) ⟨[6, 0, 0, 0, 2, 0, 0, 0, 7, 8]⟩ ∧
      Reader.Within [6, 0, 0, 0, 2, 0, 0, 0, 7, 8] ⟨4, 8, 2⟩ ∧
      ¬ Writer.Forwards ⟨0, 0⟩ ⟨[6, 0, 0, 0, 2, 0, 0, 0, 7, 8]⟩ ⟨[255, 255, 255, 255]⟩ ⟨4, 8, 2⟩ ∧
      sendReader ⟨[6, 0, 0, 0, 2, 0, 0, 0, 7, 8]⟩ ⟨4, 8, 2⟩ ⟨[]⟩ = .ok () ⟨[254, 255, 255, 255, 7, 8]⟩ := by
  have hwithin : Reader.Within [6, 0, 0, 0, 2, 0, 0, 0, 7, 8] ⟨4, 8, 2⟩ :=
    ⟨by decide, by decide, by decide, by decide⟩
  refine ⟨by decide +kernel, hwithin, fun hf => ?_, by decide +kernel⟩
  exact absurd ((Writer.forwards_iff hwithin (by decide) (by decide)).mp hf) (by decide)

end SimpleNetwork
