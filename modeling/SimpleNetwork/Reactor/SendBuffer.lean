import SimpleNetwork.Reactor.RoundTrip
import SimpleNetwork.Base.Runs

/-! Writers and drains on one `send_buff_`, taken as a byte queue. The frames
are ghost state: what the writers mean to put on the wire, header by header. -/
namespace SimpleNetwork
open Words Runs

/-- An open writer, and how many bytes had been drained when it was opened. -/
structure OpenWriter where
  writer : Writer
  opened : Nat
  deriving DecidableEq, Repr

/-- A frame as intended: its header, its payload, and its writer while it lives. -/
structure Frame where
  header : UInt32
  payload : List UInt8
  writer : Option OpenWriter
  deriving DecidableEq, Repr

def Frame.bytes (f : Frame) : List UInt8 := le32 f.header ++ f.payload

/-- The header holds the length of the payload, so the frame is flushed. -/
def Frame.Complete (f : Frame) : Prop := f.header.toNat = f.payload.length

instance (f : Frame) : Decidable f.Complete := inferInstanceAs (Decidable (_ = _))

def frameBytes (frames : List Frame) : List UInt8 := frames.flatMap Frame.bytes

/-- The sending side: `send_buff_`, the bytes handed to the transport so far,
and the frames in the order of their headers. -/
structure SendSide where
  queue : ByteQueue := ⟨[]⟩
  out : List UInt8 := []
  frames : List Frame := []
  deriving DecidableEq, Repr

/-- `send(reader&)` is an `openWriter`, a `forward`, a `flush`, drains and a `destroy`. -/
inductive SendEvent where
  | openWriter
  | put (k : Nat) (value : List UInt8)
  | forward (k : Nat) (source : ByteQueue) (reader : Reader)
  | flush (k : Nat)
  | destroy (k : Nat)
  | drain (count : UInt64)

def forwardedBytes (source : ByteQueue) (r : Reader) : List UInt8 :=
  (source.bytes.drop r.tail.toNat).take (r.length.toUInt64 + 4 - r.tail.toUInt64).toNat

namespace SendSide

def Writing (s : SendSide) (k : Nat) (f : Frame) (o : OpenWriter) : Prop :=
  s.frames[k]? = some f ∧ f.writer = some o

/-- One event: the queue changes as the code changes it, the frames as meant. -/
def Step (s : SendSide) : SendEvent → SendSide → Prop
  | .openWriter, s' => ∃ w q, Writer.new s.queue = .ok w q ∧
      s' = { s with queue := q, frames := s.frames ++ [⟨placeholder, [], some ⟨w, s.out.length⟩⟩] }
  | .put k value, s' => ∃ f o w q, s.Writing k f o ∧ o.writer.put value s.queue = .ok w q ∧
      s' = { s with
        queue := q
        frames := s.frames.set k ⟨f.header, f.payload ++ value, some ⟨w, o.opened⟩⟩ }
  | .forward k source r, s' => ∃ f o w q, s.Writing k f o ∧ o.writer.forward source r s.queue = .ok w q ∧
      s' = { s with
        queue := q
        frames := s.frames.set k ⟨f.header, f.payload ++ forwardedBytes source r, some ⟨w, o.opened⟩⟩ }
  | .flush k, s' => ∃ f o p q, s.Writing k f o ∧ o.writer.flush none s.queue = .ok p q ∧
      s' = { s with queue := q, frames := s.frames.set k { f with header := o.writer.length } }
  | .destroy k, s' => ∃ f o q, s.Writing k f o ∧ o.writer.destroy s.queue = .ok () q ∧
      s' = { s with
        queue := q
        frames := if f.header = placeholder then s.frames.eraseIdx k
          else s.frames.set k { f with writer := none } }
  | .drain count, s' => ∃ q, Buffer.remove count s.queue = .ok () q ∧
      s' = { s with queue := q, out := s.out ++ s.queue.bytes.take count.toNat }

/-- Writer `k` was opened behind all drains so far, and its frame is the last. -/
def CanAppend (s : SendSide) (k : Nat) (o : OpenWriter) : Prop :=
  o.opened = s.out.length ∧ k + 1 = s.frames.length

/-- A stale header offset is harmless: it lies behind the queue, or the four
bytes there are not the placeholder. -/
def Harmless (s : SendSide) (w : Writer) : Prop :=
  s.queue.bytes.length ≤ w.head.toNat ∨
    w.head.toNat + 4 ≤ s.queue.bytes.length ∧
      ofLe32 ((s.queue.bytes.drop w.head.toNat).take 4) ≠ placeholder

/-- The discipline under which writers and drains do not interfere. -/
def Allowed (s : SendSide) : SendEvent → Prop
  | .openWriter => s.queue.bytes.length + 4 < 2 ^ 32 - 1
  | .put k value => ∀ f o, s.Writing k f o →
      s.CanAppend k o ∧ s.queue.bytes.length + value.length < 2 ^ 32 - 1
  | .forward k source r => ∀ f o, s.Writing k f o → s.CanAppend k o ∧
      r.tail.toNat ≤ r.length.toNat + 4 ∧ r.length.toNat + 4 ≤ source.bytes.length ∧
        source.bytes.length < 2 ^ 32 ∧
      s.queue.bytes.length + (forwardedBytes source r).length < 2 ^ 32 - 1
  | .flush k => ∀ f o, s.Writing k f o → o.opened = s.out.length
  | .destroy k => ∀ f o, s.Writing k f o →
      if f.header = placeholder then s.CanAppend k o
      else f.Complete ∧ (o.opened = s.out.length ∨ s.Harmless o.writer)
  | .drain count => count.toNat ≤ s.queue.bytes.length ∧
      (count ≠ 0 → ∀ f ∈ s.frames, f.writer.isSome → f.Complete)

/-- What was handed to the transport is a prefix of complete flushed frames. -/
def OnlyComplete (s : SendSide) : Prop :=
  ∃ n, (∀ f ∈ s.frames.take n, f.Complete) ∧ s.out <+: encodePackets ((s.frames.take n).map Frame.payload)

/-- A flush stores the length of the payload in the header of its own frame,
and destroying a flushed writer leaves the queue as it is. -/
def Separate (s : SendSide) : SendEvent → SendSide → Prop
  | .flush k, s' => ∀ f o, s.Writing k f o →
      s.out ++ s'.queue.bytes =
        frameBytes (s.frames.take k) ++ (encodePacket f.payload ++ frameBytes (s.frames.drop (k + 1)))
  | .destroy k, s' => ∀ f o, s.Writing k f o → f.header ≠ placeholder → s'.queue = s.queue
  | _, _ => True

/-- The event names an open writer, if it names one. -/
def Enabled (s : SendSide) : SendEvent → Prop
  | .put k _ | .forward k _ _ | .flush k | .destroy k => ∃ f o, s.Writing k f o
  | .openWriter | .drain _ => True

/-- A step that keeps to the discipline. -/
def AllowedStep (s : SendSide) (e : SendEvent) (s' : SendSide) : Prop := s.Allowed e ∧ s.Step e s'

end SendSide

@[simp] private theorem frameBytes_nil : frameBytes [] = [] := rfl

@[simp] private theorem frameBytes_cons (f : Frame) (fs : List Frame) :
    frameBytes (f :: fs) = f.bytes ++ frameBytes fs := rfl

@[simp] private theorem frameBytes_append (fs gs : List Frame) :
    frameBytes (fs ++ gs) = frameBytes fs ++ frameBytes gs :=
  List.flatMap_append

@[simp] private theorem Frame.length_bytes (f : Frame) : f.bytes.length = 4 + f.payload.length := by
  rw [Frame.bytes, List.length_append, length_le32]

/-- Only the payloads decide where frames lie. -/
theorem length_frameBytes (fs : List Frame) :
    (frameBytes fs).length = (fs.map fun f => 4 + f.payload.length).sum := by
  induction fs with
  | nil => rfl
  | cons f fs ih =>
    rw [frameBytes_cons, List.length_append, Frame.length_bytes, ih, List.map_cons, List.sum_cons]

private theorem frames_split {fs : List Frame} {k : Nat} {f : Frame} (h : fs[k]? = some f) :
    fs = fs.take k ++ f :: fs.drop (k + 1) := by
  obtain ⟨hk, rfl⟩ := List.getElem?_eq_some_iff.mp h
  rw [List.getElem_cons_drop, List.take_append_drop]

private theorem frames_set {fs : List Frame} {k : Nat} {f g : Frame} (h : fs[k]? = some f) :
    fs.set k g = fs.take k ++ g :: fs.drop (k + 1) :=
  List.set_eq_take_append_cons_drop.trans (if_pos (List.getElem?_eq_some_iff.mp h).1)

/-- A new frame in place of an old one moves nothing in front of it, and nothing
at all when the payloads are of one length. -/
theorem length_take_set {fs : List Frame} {j k : Nat} {f g : Frame} (hk : fs[k]? = some f)
    (h : g.payload.length = f.payload.length ∨ j ≤ k) :
    (frameBytes ((fs.set k g).take j)).length = (frameBytes (fs.take j)).length := by
  rcases h with h | h
  · obtain ⟨hlt, rfl⟩ := List.getElem?_eq_some_iff.mp hk
    have hsame : (fs.map fun f => 4 + f.payload.length).set k (4 + g.payload.length) =
        fs.map fun f => 4 + f.payload.length := by
      rw [h, ← List.map_set, List.set_getElem_self]
    rw [length_frameBytes, length_frameBytes, List.map_take, List.map_take, List.map_set, hsame]
  · rw [List.take_set_of_le h]

namespace SendSide
variable {s s' : SendSide} {n k : Nat} {f : Frame} {o : OpenWriter}

/-- A frame is complete unless its writer lives, and the writer knows its frame
as long as nothing was drained since it was opened. -/
structure FrameOk (s : SendSide) (n k : Nat) (f : Frame) : Prop where
  closed : f.writer = none → f.Complete
  opened : ∀ o, f.writer = some o → o.opened ≤ s.out.length
  placed : ∀ o, f.writer = some o → o.opened = s.out.length → n ≤ k ∧
    o.writer.head.toNat + s.out.length = (frameBytes (s.frames.take k)).length ∧
    o.writer.length.toNat = f.payload.length

/-- The bytes drained and queued are the frames, and the first `n` frames are
complete and cover all that was drained. -/
structure Orderly (s : SendSide) (n : Nat) : Prop where
  bytes : s.out ++ s.queue.bytes = frameBytes s.frames
  small : s.queue.bytes.length < 2 ^ 32 - 1
  within : n ≤ s.frames.length
  complete : ∀ f ∈ s.frames.take n, f.Complete
  drained : s.out.length ≤ (frameBytes (s.frames.take n)).length
  frames : ∀ k f, s.frames[k]? = some f → s.FrameOk n k f

/-- Changes behind a frame do not concern it. -/
theorem FrameOk.keep (h : s.FrameOk n k f) (hout : s'.out = s.out)
    (hplace : (frameBytes (s'.frames.take k)).length = (frameBytes (s.frames.take k)).length) :
    s'.FrameOk n k f := by
  refine ⟨h.closed, ?_, ?_⟩
  · rw [hout]
    exact h.opened
  · rw [hout, hplace]
    exact h.placed

/-- A writer opened behind all drains finds its own frame at its offset. -/
theorem Orderly.own_frame (h : s.Orderly n) (hw : s.Writing k f o) (ho : o.opened = s.out.length) :
    ∃ before, frameBytes (s.frames.take k) = s.out ++ before ∧ before.length = o.writer.head.toNat ∧
      s.queue.bytes = before ++ (f.bytes ++ frameBytes (s.frames.drop (k + 1))) := by
  obtain ⟨-, hplace, -⟩ := (h.frames k f hw.1).placed o hw.2 ho
  have hbytes := h.bytes
  rw [frames_split hw.1, frameBytes_append, frameBytes_cons] at hbytes
  have hk : (s.frames.take k ++ f :: s.frames.drop (k + 1)).take k = s.frames.take k := by
    rw [← frames_split hw.1]
  rcases List.append_eq_append_iff.mp hbytes with ⟨before, hbefore, hqueue⟩ | ⟨rest, hrest, -⟩
  · refine ⟨before, hbefore, ?_, hqueue⟩
    rw [hbefore, List.length_append] at hplace
    omega
  · have hlen := congrArg List.length hrest
    rw [List.length_append] at hlen
    have hnil : rest = [] := List.length_eq_zero_iff.mp (by omega)
    rw [hnil, List.append_nil] at hrest
    rw [hrest] at hbytes hplace
    refine ⟨[], by rw [← hrest, List.append_nil], ?_, by simpa using hbytes⟩
    rw [List.length_nil]
    omega

/-- Replacing frame `k`: the frames behind it must not move, and what was drained
must stay covered by complete frames. -/
theorem Orderly.replace (h : s.Orderly n) (hk : s.frames[k]? = some f) {g : Frame} {q : ByteQueue}
    (hbytes : s.out ++ q.bytes = frameBytes (s.frames.set k g)) (hsmall : q.bytes.length < 2 ^ 32 - 1)
    (hspan : g.payload.length = f.payload.length ∨ n ≤ k ∧ k + 1 = s.frames.length)
    (hdone : n ≤ k ∨ g.Complete)
    (hframe : ({ s with queue := q, frames := s.frames.set k g } : SendSide).FrameOk n k g) :
    ({ s with queue := q, frames := s.frames.set k g } : SendSide).Orderly n := by
  have hlt := (List.getElem?_eq_some_iff.mp hk).1
  refine ⟨hbytes, hsmall, ?_, ?_, ?_, ?_⟩
  · change n ≤ (s.frames.set k g).length
    rw [List.length_set]
    exact h.within
  · intro e he
    change e ∈ (s.frames.set k g).take n at he
    rcases hdone with hn | hg
    · rw [List.take_set_of_le hn] at he
      exact h.complete e he
    · rw [List.take_set] at he
      rcases List.mem_or_eq_of_mem_set he with he | rfl
      · exact h.complete e he
      · exact hg
  · change s.out.length ≤ (frameBytes ((s.frames.set k g).take n)).length
    rw [length_take_set hk (hspan.imp_right And.left)]
    exact h.drained
  · intro j e he
    change (s.frames.set k g)[j]? = some e at he
    by_cases hj : j = k
    · subst hj
      rw [List.getElem?_set_self hlt, Option.some_inj] at he
      subst he
      exact hframe
    · rw [List.getElem?_set_ne (Ne.symm hj)] at he
      have hjlt := (List.getElem?_eq_some_iff.mp he).1
      refine (h.frames j e he).keep rfl (length_take_set hk (hspan.imp_right ?_))
      rintro ⟨-, hlast⟩
      omega

/-- An append to the writer of the last frame makes that frame longer. -/
theorem Orderly.append (h : s.Orderly n) (hw : s.Writing k f o) (hc : s.CanAppend k o)
    {value : List UInt8} {w : Writer}
    (hfit : s.queue.bytes.length + value.length < 2 ^ 32 - 1) (hhead : w.head = o.writer.head)
    (hlength : w.length = o.writer.length + UInt32.ofNat value.length) :
    ({ s with
      queue := ⟨s.queue.bytes ++ value⟩
      frames := s.frames.set k ⟨f.header, f.payload ++ value, some ⟨w, o.opened⟩⟩ } :
        SendSide).Orderly n := by
  obtain ⟨ho, hlast⟩ := hc
  obtain ⟨hnk, hplace, hlen⟩ := (h.frames k f hw.1).placed o hw.2 ho
  obtain ⟨before, -, hbefore, hqueue⟩ := h.own_frame hw ho
  have hdrop : s.frames.drop (k + 1) = [] := List.drop_eq_nil_iff.mpr (by omega)
  have hpayload : f.payload.length + value.length < 2 ^ 32 - 1 := by
    have hsize := congrArg List.length hqueue
    rw [List.length_append, List.length_append, Frame.length_bytes] at hsize
    omega
  refine h.replace hw.1 ?_ ?_ (.inr ⟨hnk, hlast⟩) (.inl hnk) ?_
  · rw [← List.append_assoc, h.bytes, frames_set hw.1, hdrop, frameBytes_append]
    conv_lhs => rw [frames_split hw.1, hdrop, frameBytes_append]
    simp [Frame.bytes]
  · rw [List.length_append]
    exact hfit
  · refine ⟨(fun hn => nomatch hn), ?_, ?_⟩
    · rintro _ ⟨⟩
      exact (h.frames k f hw.1).opened o hw.2
    · rintro _ ⟨⟩ _
      refine ⟨hnk, ?_, ?_⟩
      · change w.head.toNat + s.out.length = (frameBytes ((s.frames.set k _).take k)).length
        rw [List.take_set_of_le (Nat.le_refl k), hhead]
        exact hplace
      · change w.length.toNat = (f.payload ++ value).length
        rw [hlength, UInt32.toNat_add, UInt32.toNat_ofNat', hlen, List.length_append]
        omega

/-- A flush of a writer replaces its header in place. -/
theorem Orderly.flush (h : s.Orderly n) (hw : s.Writing k f o) (ho : o.opened = s.out.length) :
    ({ s with
      queue := ⟨CellRing.overwrite s.queue.bytes o.writer.head.toNat (le32 o.writer.length)⟩
      frames := s.frames.set k { f with header := o.writer.length } } : SendSide).Orderly n := by
  have hok := h.frames k f hw.1
  obtain ⟨hnk, hplace, hlen⟩ := hok.placed o hw.2 ho
  obtain ⟨before, hfront, hbefore, hqueue⟩ := h.own_frame hw ho
  have hover : CellRing.overwrite s.queue.bytes o.writer.head.toNat (le32 o.writer.length) =
      before ++ (le32 o.writer.length ++ (f.payload ++ frameBytes (s.frames.drop (k + 1)))) := by
    rw [hqueue, ← hbefore, CellRing.overwrite_append, List.append_assoc, Frame.bytes,
      List.append_assoc, length_le32,
      List.drop_left' (length_le32 _)]
  refine h.replace hw.1 ?_ ?_ (.inl rfl) (.inl hnk) ?_
  · rw [hover, frames_set hw.1, frameBytes_append, hfront, frameBytes_cons, List.append_assoc]
    simp [Frame.bytes]
  · have hsmall := h.small
    rw [hqueue] at hsmall
    rw [hover]
    simpa [Frame.bytes] using hsmall
  · refine ⟨fun _ => hlen, hok.opened, ?_⟩
    intro p hp he
    obtain ⟨hn, hpl, hl⟩ := hok.placed p hp he
    exact ⟨hn, hpl.trans (length_take_set hw.1 (.inr (Nat.le_refl k))).symm, hl⟩

private theorem Orderly.flush_runs (h : s.Orderly n) (hw : s.Writing k f o) (ho : o.opened = s.out.length) :
    o.writer.flush none s.queue =
      .ok none ⟨CellRing.overwrite s.queue.bytes o.writer.head.toNat (le32 o.writer.length)⟩ := by
  obtain ⟨before, -, hbefore, hqueue⟩ := h.own_frame hw ho
  have hsmall := h.small
  apply Writer.flush_queue
  · omega
  · rw [hqueue, List.length_append, List.length_append, Frame.length_bytes]
    omega

/-- A new frame with a placeholder behind all others. -/
theorem Orderly.openWriter (h : s.Orderly n) (hfit : s.queue.bytes.length + 4 < 2 ^ 32 - 1) :
    ({ s with
      queue := ⟨s.queue.bytes ++ le32 placeholder⟩
      frames := s.frames ++ [⟨placeholder, [], some ⟨⟨s.queue.getCount.toUInt32, 0⟩, s.out.length⟩⟩]
        } : SendSide).Orderly
        n := by
  have hwithin := h.within
  have htake (j : Nat) (hj : j ≤ s.frames.length) (fs : List Frame) : (s.frames ++ fs).take j =
      s.frames.take j :=
    List.take_append_of_le_length hj
  refine ⟨?_, ?_, ?_, ?_, ?_, ?_⟩
  · change s.out ++ (s.queue.bytes ++ le32 placeholder) = _
    rw [← List.append_assoc, h.bytes, frameBytes_append]
    simp [Frame.bytes]
  · change (s.queue.bytes ++ le32 placeholder).length < _
    rw [List.length_append, length_le32]
    exact hfit
  · change n ≤ (s.frames ++ [_]).length
    rw [List.length_append]
    omega
  · intro g hg
    rw [htake n hwithin] at hg
    exact h.complete g hg
  · rw [htake n hwithin]
    exact h.drained
  · intro j g hg
    change (s.frames ++ [_])[j]? = some g at hg
    rcases Nat.lt_or_ge j s.frames.length with hj | hj
    · rw [List.getElem?_append_left hj] at hg
      exact (h.frames j g hg).keep rfl (by rw [htake j (by omega)])
    · rw [List.getElem?_append_right hj] at hg
      obtain ⟨hlt, rfl⟩ := List.getElem?_eq_some_iff.mp hg
      have hj' : j = s.frames.length := by
        rw [List.length_singleton] at hlt
        omega
      subst hj'
      simp only [List.getElem_singleton]
      refine ⟨(fun hn => nomatch hn), ?_, ?_⟩
      · rintro _ ⟨⟩
        exact Nat.le_refl _
      · rintro _ ⟨⟩ _
        refine ⟨hwithin, ?_, rfl⟩
        change s.queue.getCount.toUInt32.toNat + s.out.length = (frameBytes ((s.frames ++ [_]).take _)).length
        rw [htake _ (Nat.le_refl _), List.take_length, ← h.bytes, List.length_append, UInt64.toNat_toUInt32,
          ByteQueue.toNat_getCount (by omega), Nat.mod_eq_of_lt (by omega)]
        omega

/-- Taking back the last frame while its header is the placeholder. -/
theorem Orderly.takeBack (h : s.Orderly n) (hw : s.Writing k f o) (hc : s.CanAppend k o) :
    ({ s with
      queue := ⟨s.queue.bytes.take (s.queue.bytes.length - (4 + f.payload.length))⟩
      frames := s.frames.eraseIdx k } : SendSide).Orderly n := by
  obtain ⟨ho, hlast⟩ := hc
  obtain ⟨hnk, -, -⟩ := (h.frames k f hw.1).placed o hw.2 ho
  obtain ⟨before, hfront, -, hqueue⟩ := h.own_frame hw ho
  have hdrop : s.frames.drop (k + 1) = [] := List.drop_eq_nil_iff.mpr (by omega)
  rw [hdrop, frameBytes_nil, List.append_nil] at hqueue
  have hrest : s.queue.bytes.take (s.queue.bytes.length - (4 + f.payload.length)) = before := by
    rw [hqueue, List.length_append, Frame.length_bytes, Nat.add_sub_cancel, List.take_left]
  have herase : s.frames.eraseIdx k = s.frames.take k := by
    rw [List.eraseIdx_eq_take_drop_succ, hdrop, List.append_nil]
  have htake (j : Nat) (hj : j ≤ k) : (s.frames.take k).take j = s.frames.take j := by
    rw [List.take_take, Nat.min_eq_left hj]
  refine ⟨?_, ?_, ?_, ?_, ?_, ?_⟩
  · change s.out ++ s.queue.bytes.take _ = frameBytes (s.frames.eraseIdx k)
    rw [hrest, herase, hfront]
  · change (s.queue.bytes.take _).length < _
    rw [List.length_take]
    have hsmall := h.small
    omega
  · change n ≤ (s.frames.eraseIdx k).length
    rw [herase, List.length_take]
    omega
  · change ∀ f ∈ (s.frames.eraseIdx k).take n, f.Complete
    rw [herase, htake n hnk]
    exact h.complete
  · change s.out.length ≤ (frameBytes ((s.frames.eraseIdx k).take n)).length
    rw [herase, htake n hnk]
    exact h.drained
  · intro j g hg
    change (s.frames.eraseIdx k)[j]? = some g at hg
    rw [herase, List.getElem?_take] at hg
    split at hg
    · rename_i hj
      refine (h.frames j g hg).keep rfl ?_
      change (frameBytes ((s.frames.eraseIdx k).take j)).length = _
      rw [herase, htake j (by omega)]
    · cases hg

/-- Closing a complete frame. -/
theorem Orderly.closeFrame (h : s.Orderly n) (hw : s.Writing k f o) (hf : f.Complete) :
    ({ s with frames := s.frames.set k { f with writer := none } } : SendSide).Orderly n := by
  refine h.replace hw.1 ?_ h.small (.inl rfl) (.inr hf) ?_
  · rw [h.bytes, frames_set hw.1]
    conv_lhs => rw [frames_split hw.1]
    simp [Frame.bytes]
  · exact ⟨fun _ => hf, (fun _ hn => nomatch hn), (fun _ hn => nomatch hn)⟩

/-- A drain when every frame is complete. -/
theorem Orderly.drain (h : s.Orderly n) {m : Nat} (hm : m ≤ s.queue.bytes.length)
    (hall : 0 < m → ∀ f ∈ s.frames, f.writer.isSome → f.Complete) :
    ∃ n', ({ s with queue := ⟨s.queue.bytes.drop m⟩, out := s.out ++ s.queue.bytes.take m } : SendSide).Orderly n' := by
  rcases Nat.eq_zero_or_pos m with rfl | hpos
  · refine ⟨n, ?_⟩
    simp only [List.drop_zero, List.take_zero, List.append_nil]
    exact h
  have hcomplete : ∀ f ∈ s.frames, f.Complete := by
    intro f hf
    obtain ⟨k, hk, rfl⟩ := List.getElem_of_mem hf
    rcases hwr : s.frames[k].writer with _ | o
    · exact (h.frames k _ (List.getElem?_eq_getElem hk)).closed hwr
    · exact hall hpos _ hf (by rw [hwr]; rfl)
  have hlen : (s.out ++ s.queue.bytes.take m).length = s.out.length + m := by
    rw [List.length_append, List.length_take, Nat.min_eq_left hm]
  refine ⟨s.frames.length, ?_, ?_, Nat.le_refl _, ?_, ?_, ?_⟩
  · change s.out ++ s.queue.bytes.take m ++ s.queue.bytes.drop m = frameBytes s.frames
    rw [List.append_assoc, List.take_append_drop]
    exact h.bytes
  · change (s.queue.bytes.drop m).length < _
    rw [List.length_drop]
    have hsmall := h.small
    omega
  · intro f hf
    exact hcomplete f (List.mem_of_mem_take hf)
  · change (s.out ++ s.queue.bytes.take m).length ≤ (frameBytes (s.frames.take s.frames.length)).length
    rw [hlen, List.take_length, ← h.bytes, List.length_append]
    omega
  · intro k f hf
    have hok := h.frames k f hf
    refine ⟨hok.closed, ?_, ?_⟩
    · intro o ho
      have hopened := hok.opened o ho
      change o.opened ≤ (s.out ++ s.queue.bytes.take m).length
      omega
    · intro o ho he
      have hopened := hok.opened o ho
      change o.opened = (s.out ++ s.queue.bytes.take m).length at he
      omega

/-- The header of a fresh flushed frame is not the placeholder, so its writer is harmless. -/
theorem Orderly.harmless (h : s.Orderly n) (hw : s.Writing k f o) (ho : o.opened = s.out.length)
    (hf : f.header ≠ placeholder) : s.Harmless o.writer := by
  obtain ⟨before, -, hbefore, hqueue⟩ := h.own_frame hw ho
  right
  rw [hqueue, ← hbefore, List.drop_left, Frame.bytes, List.append_assoc,
    List.take_left' (length_le32 _), ofLe32_le32]
  refine ⟨?_, hf⟩
  simp only [List.length_append, length_le32]
  omega

/-- Destroying a flushed writer changes nothing. -/
theorem Orderly.destroy_keeps (h : s.Orderly n) (hw : s.Writing k f o)
    (ho : o.opened = s.out.length ∨ s.Harmless o.writer) (hf : f.header ≠ placeholder) :
    o.writer.destroy s.queue = .ok () s.queue := by
  have hsmall := h.small
  apply Writer.destroy_settled o.writer (by omega)
  rcases ho with ho | ho
  · exact h.harmless hw ho hf
  · exact ho

/-- Destroying the last writer while its header is the placeholder takes its frame back. -/
theorem Orderly.destroy_takeBack (h : s.Orderly n) (hw : s.Writing k f o) (hc : s.CanAppend k o)
    (hf : f.header = placeholder) :
    o.writer.destroy s.queue = .ok ()
      ⟨s.queue.bytes.take (s.queue.bytes.length - (4 + f.payload.length))⟩ := by
  obtain ⟨ho, hlast⟩ := hc
  obtain ⟨-, -, hlen⟩ := (h.frames k f hw.1).placed o hw.2 ho
  obtain ⟨before, -, hbefore, hqueue⟩ := h.own_frame hw ho
  have hdrop : s.frames.drop (k + 1) = [] := List.drop_eq_nil_iff.mpr (by omega)
  rw [hdrop, frameBytes_nil, List.append_nil] at hqueue
  have hrest : s.queue.bytes.take (s.queue.bytes.length - (4 + f.payload.length)) = before := by
    rw [hqueue, List.length_append, Frame.length_bytes, Nat.add_sub_cancel, List.take_left]
  have hsmall := h.small
  rw [hqueue, List.length_append, Frame.length_bytes] at hsmall
  have hdestroy := Writer.destroy_unflushed o.writer hbefore.symm hlen (by omega)
  rw [hrest, show s.queue = ⟨s.queue.bytes⟩ from rfl, hqueue, Frame.bytes, hf]
  exact hdestroy

/-- The length that `operator<<(const reader&)` computes. -/
theorem toNat_forwarded {r : Reader} (hr : r.tail.toNat ≤ r.length.toNat + 4) :
    (r.length.toUInt64 + 4 - r.tail.toUInt64).toNat = r.length.toNat + 4 - r.tail.toNat := by
  have hlast : (r.length.toUInt64 + 4 : UInt64).toNat = r.length.toNat + 4 := by
    rw [toNat_add_of_lt, UInt32.toNat_toUInt64]
    · rfl
    · rw [UInt32.toNat_toUInt64]
      have hlt := r.length.toNat_lt
      change _ + 4 < _
      omega
  rw [toNat_sub_of_le (by rw [hlast, UInt32.toNat_toUInt64]; exact hr), hlast, UInt32.toNat_toUInt64]

/-- `operator<<(const reader&)` of a packet that lies inside its own buffer
appends the unread rest. -/
theorem forward_queue {q source : ByteQueue} {r : Reader} (w : Writer)
    (hr : r.tail.toNat ≤ r.length.toNat + 4)
    (hin : r.length.toNat + 4 ≤ source.bytes.length) (hsource : source.bytes.length < 2 ^ 64) :
    w.forward source r q = .ok ⟨w.head, w.length + UInt32.ofNat (forwardedBytes source r).length⟩
      ⟨q.bytes ++ forwardedBytes source r⟩ := by
  have hcount := toNat_forwarded hr
  have hfit : ¬ source.getCount < r.tail.toUInt64 + (r.length.toUInt64 + 4 - r.tail.toUInt64) := by
    rw [ByteQueue.getCount_lt_iff (by omega), toNat_add_of_lt]
    all_goals rw [hcount, UInt32.toNat_toUInt64]
    all_goals omega
  have hbytes : (forwardedBytes source r).length = (r.length.toUInt64 + 4 - r.tail.toUInt64).toNat := by
    rw [forwardedBytes, List.length_take, List.length_drop, hcount]
    omega
  have hwrite : Buffer.writeFrom source r.tail.toUInt64 (r.length.toUInt64 + 4 - r.tail.toUInt64) q =
      .ok () ⟨q.bytes ++ forwardedBytes source r⟩ := by
    change ByteQueue.writeFrom _ _ _ q = _
    rw [ByteQueue.writeFrom, if_neg hfit, forwardedBytes, UInt32.toNat_toUInt64]
    exact ByteQueue.write_append _
  rw [Writer.forward, Outcome.bind_ok hwrite, hbytes]
  change EStateM.Result.ok { w with length := (w.length.toUInt64 + _).toUInt32 } _ = _
  rw [UInt64.toUInt32_add, UInt32.toUInt32_toUInt64]
  congr 3

/-- What an allowed step does to the queue, the frames and the bytes drained. -/
theorem Orderly.step {e : SendEvent} (h : s.Orderly n) (ha : s.Allowed e) (hs : s.Step e s') :
    ∃ n', s'.Orderly n' := by
  have hsmall := h.small
  cases e with
  | openWriter =>
    obtain ⟨w, q, hnew, rfl⟩ := hs
    rw [Writer.new_queue] at hnew
    cases hnew
    exact ⟨n, h.openWriter ha⟩
  | put k value =>
    obtain ⟨f, o, w, q, hw, hput, rfl⟩ := hs
    obtain ⟨hc, hfit⟩ := ha f o hw
    rw [Writer.put_queue] at hput
    cases hput
    exact ⟨n, h.append hw hc hfit rfl rfl⟩
  | forward k source r =>
    obtain ⟨f, o, w, q, hw, hforward, rfl⟩ := hs
    obtain ⟨hc, hr, hin, hsource, hfit⟩ := ha f o hw
    rw [forward_queue o.writer hr hin (by omega)] at hforward
    cases hforward
    exact ⟨n, h.append hw hc hfit rfl rfl⟩
  | flush k =>
    obtain ⟨f, o, p, q, hw, hflush, rfl⟩ := hs
    rw [h.flush_runs hw (ha f o hw)] at hflush
    cases hflush
    exact ⟨n, h.flush hw (ha f o hw)⟩
  | destroy k =>
    obtain ⟨f, o, q, hw, hdestroy, rfl⟩ := hs
    have hk := ha f o hw
    by_cases hf : f.header = placeholder
    · rw [if_pos hf] at hk ⊢
      rw [h.destroy_takeBack hw hk hf] at hdestroy
      cases hdestroy
      exact ⟨n, h.takeBack hw hk⟩
    · rw [if_neg hf] at hk ⊢
      rw [h.destroy_keeps hw hk.2 hf] at hdestroy
      cases hdestroy
      exact ⟨n, h.closeFrame hw hk.1⟩
  | drain count =>
    obtain ⟨q, hdrain, rfl⟩ := hs
    rw [ByteQueue.remove_front (by omega) ha.1] at hdrain
    cases hdrain
    refine h.drain ha.1 fun hpos => ha.2 ?_
    rintro rfl
    exact absurd hpos (by decide)

/-- An allowed event of an open writer goes through. -/
theorem Orderly.runs {e : SendEvent} (h : s.Orderly n) (ha : s.Allowed e) (hs : s.Enabled e) :
    ∃ s', s.Step e s' := by
  have hsmall := h.small
  cases e with
  | openWriter => exact ⟨_, _, _, Writer.new_queue, rfl⟩
  | put k value =>
    obtain ⟨f, o, hw⟩ := hs
    exact ⟨_, f, o, _, _, hw, Writer.put_queue _ _, rfl⟩
  | forward k source r =>
    obtain ⟨f, o, hw⟩ := hs
    obtain ⟨-, hr, hin, hsource, -⟩ := ha f o hw
    exact ⟨_, f, o, _, _, hw, forward_queue _ hr hin (by omega), rfl⟩
  | flush k =>
    obtain ⟨f, o, hw⟩ := hs
    exact ⟨_, f, o, _, _, hw, h.flush_runs hw (ha f o hw), rfl⟩
  | destroy k =>
    obtain ⟨f, o, hw⟩ := hs
    have hk := ha f o hw
    by_cases hf : f.header = placeholder
    · rw [if_pos hf] at hk
      exact ⟨_, f, o, _, hw, h.destroy_takeBack hw hk hf, rfl⟩
    · rw [if_neg hf] at hk
      exact ⟨_, f, o, _, hw, h.destroy_keeps hw hk.2 hf, rfl⟩
  | drain count => exact ⟨_, _, ByteQueue.remove_front (by omega) ha.1, rfl⟩

theorem Writing.unique {g : Frame} {p : OpenWriter} (h : s.Writing k f o) (h' : s.Writing k g p) :
    f = g ∧ o = p := by
  obtain rfl : f = g := Option.some_inj.mp (h.1.symm.trans h'.1)
  exact ⟨rfl, Option.some_inj.mp (h.2.symm.trans h'.2)⟩

private theorem encodePacket_of_complete (h : f.Complete) : f.bytes = encodePacket f.payload := by
  rw [Frame.bytes, encodePacket, ← h, UInt32.ofNat_toNat]

private theorem frameBytes_of_complete {fs : List Frame} (h : ∀ f ∈ fs, f.Complete) :
    frameBytes fs = encodePackets (fs.map Frame.payload) := by
  induction fs with
  | nil => rfl
  | cons f fs ih =>
    rw [frameBytes_cons, List.map_cons, encodePackets_cons, encodePacket_of_complete (h f List.mem_cons_self),
      ih fun g hg => h g (List.mem_cons_of_mem f hg)]

private theorem Orderly.onlyComplete (h : s.Orderly n) : s.OnlyComplete := by
  refine ⟨n, h.complete, ?_⟩
  rw [← frameBytes_of_complete h.complete]
  have hall : s.out <+: frameBytes s.frames := ⟨s.queue.bytes, h.bytes⟩
  have hfirst : frameBytes (s.frames.take n) <+: frameBytes s.frames := by
    refine ⟨frameBytes (s.frames.drop n), ?_⟩
    rw [← frameBytes_append, List.take_append_drop]
  exact List.prefix_of_prefix_length_le hall hfirst h.drained

private theorem Orderly.separate {e : SendEvent} (h : s.Orderly n) (ha : s.Allowed e) (hs : s.Step e s') :
    s.Separate e s' := by
  cases e with
  | flush k =>
    intro f o hw
    obtain ⟨g, p, r, q, hw', hflush, rfl⟩ := hs
    obtain ⟨rfl, rfl⟩ := hw.unique hw'
    have ho := ha f o hw
    obtain ⟨-, -, hlen⟩ := (h.frames k f hw.1).placed o hw.2 ho
    have hdone : ({ f with header := o.writer.length } : Frame).Complete := hlen
    rw [h.flush_runs hw ho] at hflush
    cases hflush
    have hbytes := (h.flush hw ho).bytes
    rw [frames_set hw.1, frameBytes_append, frameBytes_cons, encodePacket_of_complete hdone] at hbytes
    exact hbytes
  | destroy k =>
    intro f o hw hf
    obtain ⟨g, p, q, hw', hdestroy, rfl⟩ := hs
    obtain ⟨rfl, rfl⟩ := hw.unique hw'
    have hk := ha f o hw
    rw [if_neg hf] at hk
    rw [h.destroy_keeps hw hk.2 hf] at hdestroy
    cases hdestroy
    rfl
  | openWriter | put | forward | drain => trivial

private theorem orderly_empty : ({} : SendSide).Orderly 0 := by
  refine ⟨rfl, by decide, Nat.le_refl _, ?_, Nat.le_refl _, ?_⟩
  · intro f hf
    cases hf
  · intro k f hf
    cases hf

private theorem orderly_of_run {es : List SendEvent} (hrun : Run AllowedStep {} es s) : ∃ n, s.Orderly n := by
  refine hrun.invariant (I := fun s => ∃ n, s.Orderly n) ?_ ⟨0, orderly_empty⟩
  rintro s e s' ⟨n, h⟩ ⟨ha, hs⟩
  exact h.step ha hs

/-- Along every run that keeps to the discipline only complete frames are handed
out, writers touch their own frames only, and no step throws. -/
theorem writers_and_drains_separate {es : List SendEvent} (hrun : Run AllowedStep {} es s) :
    s.OnlyComplete ∧ ∀ e, s.Allowed e →
      (s.Enabled e → ∃ s', s.Step e s') ∧ ∀ s', s.Step e s' → s.Separate e s' := by
  obtain ⟨n, h⟩ := orderly_of_run hrun
  refine ⟨h.onlyComplete, ?_⟩
  intro e ha
  exact ⟨h.runs ha, fun s' hs => h.separate ha hs⟩

/-- One packet is built, flushed, drained and its writer destroyed. -/
theorem writers_and_drains_one_packet : ∃ s, Run AllowedStep {}
    [.openWriter, .put 0 [7], .flush 0, .drain 5, .destroy 0] s ∧
    s.out = [1, 0, 0, 0, 7] ∧ s.OnlyComplete := by
  have hrun : Run AllowedStep {} [.openWriter, .put 0 [7], .flush 0, .drain 5, .destroy 0]
      ⟨⟨[]⟩, [1, 0, 0, 0, 7], [⟨1, [7], none⟩]⟩ := by
    refine .cons (u := ⟨⟨[255, 255, 255, 255]⟩, [], [⟨placeholder, [], some ⟨⟨0, 0⟩, 0⟩⟩]⟩)
      ⟨show 0 + 4 < 2 ^ 32 - 1 by decide, ⟨0, 0⟩, _, rfl, rfl⟩ ?_
    refine .cons (u := ⟨⟨[255, 255, 255, 255, 7]⟩, [], [⟨placeholder, [7], some ⟨⟨0, 1⟩, 0⟩⟩]⟩)
      ⟨?_, _, ⟨⟨0, 0⟩, 0⟩, ⟨0, 1⟩, _, ⟨rfl, rfl⟩, rfl, rfl⟩ ?_
    · rintro f o ⟨⟨⟩, ⟨⟩⟩
      exact ⟨⟨rfl, rfl⟩, by decide⟩
    refine .cons (u := ⟨⟨[1, 0, 0, 0, 7]⟩, [], [⟨1, [7], some ⟨⟨0, 1⟩, 0⟩⟩]⟩)
      ⟨?_, _, ⟨⟨0, 1⟩, 0⟩, none, _, ⟨rfl, rfl⟩, rfl, rfl⟩ ?_
    · rintro f o ⟨⟨⟩, ⟨⟩⟩
      rfl
    refine .cons (u := ⟨⟨[]⟩, [1, 0, 0, 0, 7], [⟨1, [7], some ⟨⟨0, 1⟩, 0⟩⟩]⟩)
      ⟨⟨by decide, fun _ => by decide⟩, _, rfl, rfl⟩ ?_
    refine .cons ⟨?_, _, ⟨⟨0, 1⟩, 0⟩, _, ⟨rfl, rfl⟩, rfl, rfl⟩ (.nil _)
    rintro f o ⟨⟨⟩, ⟨⟩⟩
    rw [if_neg (by decide)]
    exact ⟨rfl, .inr (.inl (by decide))⟩
  exact ⟨_, hrun, rfl, (writers_and_drains_separate hrun).1⟩

/-- A received packet is forwarded while a reply is being built: the drain hands
out the placeholder of the reply. -/
theorem forward_drains_placeholder : ∃ s, Run Step {}
    [.openWriter, .openWriter, .forward 1 ⟨[1, 0, 0, 0, 7]⟩ ⟨0, 4, 1⟩, .flush 1, .drain 4] s ∧
      s.out = le32 placeholder ∧ ¬ s.OnlyComplete := by
  refine ⟨⟨⟨[1, 0, 0, 0, 7]⟩, le32 placeholder,
    [⟨placeholder, [], some ⟨⟨0, 0⟩, 0⟩⟩, ⟨1, [7], some ⟨⟨4, 1⟩, 0⟩⟩]⟩, ?_, rfl, ?_⟩
  · refine .cons (u := ⟨⟨[255, 255, 255, 255]⟩, [], [⟨placeholder, [], some ⟨⟨0, 0⟩, 0⟩⟩]⟩)
      ⟨⟨0, 0⟩, _, rfl, rfl⟩ ?_
    refine .cons (u := ⟨⟨[255, 255, 255, 255, 255, 255, 255, 255]⟩, [],
      [⟨placeholder, [], some ⟨⟨0, 0⟩, 0⟩⟩, ⟨placeholder, [], some ⟨⟨4, 0⟩, 0⟩⟩]⟩) ⟨⟨4, 0⟩, _, rfl, rfl⟩ ?_
    refine .cons (u := ⟨⟨[255, 255, 255, 255, 255, 255, 255, 255, 7]⟩, [],
      [⟨placeholder, [], some ⟨⟨0, 0⟩, 0⟩⟩, ⟨placeholder, [7], some ⟨⟨4, 1⟩, 0⟩⟩]⟩)
      ⟨_, ⟨⟨4, 0⟩, 0⟩, ⟨4, 1⟩, _, ⟨rfl, rfl⟩, rfl, rfl⟩ ?_
    refine .cons (u := ⟨⟨[255, 255, 255, 255, 1, 0, 0, 0, 7]⟩, [],
      [⟨placeholder, [], some ⟨⟨0, 0⟩, 0⟩⟩, ⟨1, [7], some ⟨⟨4, 1⟩, 0⟩⟩]⟩)
      ⟨_, ⟨⟨4, 1⟩, 0⟩, none, _, ⟨rfl, rfl⟩, rfl, rfl⟩ ?_
    exact .cons ⟨_, rfl, rfl⟩ (.nil _)
  · rintro ⟨n, hcomplete, hout⟩
    cases n with
    | zero => exact absurd hout (by decide)
    | succ n => exact absurd (hcomplete _ List.mem_cons_self) (by decide)

end SendSide
end SimpleNetwork
