import SimpleNetwork.Reactor.RoundTrip

/-! Packets inside packets. A child writer finds its header from the running
length of its parent, a flush counts the child in the parent, and the destructor
of an unflushed child undoes it. -/
namespace SimpleNetwork
open Words

inductive Content where
  | done
  | value (bytes : List UInt8) (rest : Content)
  | packet (inner rest : Content)
  deriving DecidableEq, Repr

def Content.encode : Content → List UInt8
  | done => []
  | value bytes rest => bytes ++ rest.encode
  | packet inner rest => encodePacket inner.encode ++ rest.encode

/-- What the application does with one writer: append a value, write a child and
flush it, write a child and drop it, destroy a flushed child that still lives. -/
inductive Script where
  | done
  | value (bytes : List UInt8) (rest : Script)
  | keep (inner rest : Script)
  | drop (inner rest : Script)
  | destroy (i : Nat) (rest : Script)
  deriving DecidableEq, Repr

namespace Script

def content : Script → Content
  | done => .done
  | value bytes rest => .value bytes rest.content
  | keep inner rest => .packet inner.content rest.content
  | drop _ rest => rest.content
  | destroy _ rest => rest.content

/-- The most bytes that are in the buffer behind the header at any time. -/
def peak : Script → Nat
  | done => 0
  | value bytes rest => bytes.length + rest.peak
  | keep inner rest => max (4 + inner.peak) (4 + inner.content.encode.length + rest.peak)
  | drop inner rest => max (4 + inner.peak) rest.peak
  | destroy _ rest => rest.peak

private theorem length_le_peak (script : Script) : script.content.encode.length ≤ script.peak := by
  induction script with
  | done => exact Nat.le_refl 0
  | value bytes rest ih =>
    rw [content, Content.encode, List.length_append, peak]
    omega
  | keep inner rest _ ih =>
    rw [content, Content.encode, List.length_append, length_encodePacket, peak]
    omega
  | drop inner rest _ ih =>
    rw [content, peak]
    omega
  | destroy i rest ih => exact ih

end Script

namespace Writer

def destroyAll : List Writer → EStateM Fault ByteQueue Unit
  | [] => pure ()
  | w :: ws => do
    w.destroy
    destroyAll ws

/-- Carry out a script on a writer. The result is the writer and the flushed
children that still live; children of a dropped packet die before it does. -/
def fill (w : Writer) (alive : List Writer) : Script → EStateM Fault ByteQueue (Writer × List Writer)
  | .done => pure (w, alive)
  | .value bytes rest => do
    let w ← w.put bytes
    fill w alive rest
  | .keep inner rest => do
    let c ← w.child
    let (c, inside) ← fill c [] inner
    let p ← c.flush (some w)
    fill (p.getD w) (inside ++ c :: alive) rest
  | .drop inner rest => do
    let c ← w.child
    let (c, inside) ← fill c [] inner
    destroyAll inside
    c.destroy
    fill w alive rest
  | .destroy i rest => do
    match alive[i]? with
    | none => fill w alive rest
    | some c =>
      c.destroy
      fill w (alive.eraseIdx i) rest

/-- One packet: the root writer carries out its script and is flushed last. -/
def packTree (script : Script) : EStateM Fault ByteQueue Unit := do
  let w ← Writer.new
  let (w, alive) ← fill w [] script
  let _ ← w.flush none
  destroyAll alive
  w.destroy

/-- The header of a writer lies `start` bytes before its place in some bytes, and is flushed. -/
def Settled (start : Nat) (bytes : List UInt8) (w : Writer) : Prop :=
  ∃ before header after, bytes = before ++ (le32 header ++ after) ∧ w.head.toNat = start + before.length ∧
    header ≠ placeholder

variable {q : ByteQueue} {w : Writer} {start : Nat} {bytes : List UInt8}

theorem Settled.append (h : Settled start bytes w) (more : List UInt8) : Settled start (bytes ++ more) w := by
  obtain ⟨before, header, after, rfl, hhead, hne⟩ := h
  exact ⟨before, header, after ++ more, by simp, hhead, hne⟩

theorem Settled.behind (h : Settled start bytes w) {front : List UInt8} {first : Nat}
    (hstart : first + front.length = start) :
    Settled first (front ++ bytes) w := by
  obtain ⟨before, header, after, rfl, hhead, hne⟩ := h
  refine ⟨front ++ before, header, after, by simp, ?_, hne⟩
  rw [List.length_append]
  omega

theorem Settled.destroy (h : Settled 0 q.bytes w) (hsmall : q.bytes.length < 2 ^ 64 - 1) :
    w.destroy q = .ok () q := by
  obtain ⟨before, header, after, hq, hhead, hne⟩ := h
  rw [Nat.zero_add] at hhead
  refine destroy_settled w hsmall (.inr ⟨?_, ?_⟩)
  · rw [hq, hhead, List.length_append, List.length_append, length_le32]
    omega
  · rw [hq, hhead, List.drop_left, List.take_left' (length_le32 _), ofLe32_le32]
    exact hne

private theorem destroyAll_settled {ws : List Writer} (h : ∀ w ∈ ws, Settled 0 q.bytes w)
    (hsmall : q.bytes.length < 2 ^ 64 - 1) :
    destroyAll ws q = .ok () q := by
  induction ws with
  | nil => rfl
  | cons w ws ih =>
    rw [destroyAll, Outcome.bind_ok ((h w List.mem_cons_self).destroy hsmall)]
    exact ih fun v hv => h v (List.mem_cons_of_mem w hv)

/-- The writer counts the bytes behind its header up to the end of the queue. -/
def Open (q : ByteQueue) (w : Writer) : Prop := w.head.toNat + 4 + w.length.toNat = q.bytes.length

/-- A child opened behind its parent's bytes finds its header at the end of the queue. -/
theorem Open.child (h : Open q w) (hsmall : q.bytes.length + 4 < 2 ^ 32) :
    ∃ c, w.child q = .ok c ⟨q.bytes ++ le32 placeholder⟩ ∧ c.head.toNat = q.bytes.length ∧ c.length = 0 := by
  refine ⟨_, child_queue w, ?_, rfl⟩
  unfold Open at h
  rw [UInt32.toNat_add, UInt32.toNat_add]
  change ((w.head.toNat + w.length.toNat) % 2 ^ 32 + 4) % 2 ^ 32 = _
  omega

/-- Flushing the last packet of the queue stores its length. -/
theorem flush_last {c : Writer} (parent : Option Writer) {before body : List UInt8}
    (hhead : c.head.toNat = before.length) (hlength : c.length.toNat = body.length)
    (hsmall : before.length + (4 + body.length) < 2 ^ 32 - 1) :
    c.flush parent (⟨before ++ le32 placeholder ++ body⟩ : ByteQueue) =
        .ok (parent.map fun p => { p with length := p.length + c.length + 4 }) ⟨before ++ encodePacket body⟩ ∧
      Settled before.length (encodePacket body) c := by
  have hcode : c.length = UInt32.ofNat body.length := by
    rw [← hlength, UInt32.ofNat_toNat]
  have hlong : (before ++ le32 placeholder ++ body).length = before.length + 4 + body.length := by
    rw [List.length_append, List.length_append, length_le32]
  have hover : CellRing.overwrite (before ++ le32 placeholder ++ body) c.head.toNat (le32 c.length) =
      before ++ encodePacket body := by
    rw [hhead, List.append_assoc, CellRing.overwrite_append, length_le32,
      List.drop_left' (length_le32 _), hcode,
      encodePacket, List.append_assoc]
  have hflush := flush_queue (q := ⟨before ++ le32 placeholder ++ body⟩) c parent
    (by rw [hlong]; omega) (by rw [hlong]; omega)
  rw [hover] at hflush
  refine ⟨hflush, [], c.length, body, ?_, ?_, ?_⟩
  · rw [hcode, encodePacket, List.nil_append]
  · simpa using hhead
  · intro hp
    rw [hp] at hlength
    change 2 ^ 32 - 1 = body.length at hlength
    omega

/-- A flushed child is counted by its parent. -/
theorem Open.flush (h : Open q w) {c : Writer} {body : List UInt8} (hhead : c.head.toNat = q.bytes.length)
    (hlength : c.length.toNat = body.length) (hsmall : q.bytes.length + (4 + body.length) < 2 ^ 32 - 1) :
    ∃ p, c.flush (some w) (⟨q.bytes ++ le32 placeholder ++ body⟩ : ByteQueue) =
        .ok (some p) ⟨q.bytes ++ encodePacket body⟩ ∧
      p.head = w.head ∧ p.length.toNat = w.length.toNat + (encodePacket body).length ∧
      Settled q.bytes.length (encodePacket body) c := by
  obtain ⟨hflush, hsettled⟩ := flush_last (some w) hhead hlength hsmall
  refine ⟨_, hflush, rfl, ?_, hsettled⟩
  unfold Open at h
  change (w.length + c.length + 4).toNat = _
  rw [UInt32.toNat_add, UInt32.toNat_add, length_encodePacket, hlength]
  change ((w.length.toNat + body.length) % 2 ^ 32 + 4) % 2 ^ 32 = _
  omega

/-- Carrying out the script appends the encoding of what it means to write. -/
def Fills (script : Script) : Prop :=
  ∀ (q : ByteQueue) (w : Writer) (alive : List Writer), Open q w → (∀ c ∈ alive, Settled 0 q.bytes c) →
    q.bytes.length + script.peak < 2 ^ 32 - 1 →
    ∃ w' alive', fill w alive script q = .ok (w', alive') ⟨q.bytes ++ script.content.encode⟩ ∧
      w'.head = w.head ∧
      w'.length.toNat = w.length.toNat + script.content.encode.length ∧
      ∀ c ∈ alive', c ∈ alive ∨ Settled q.bytes.length script.content.encode c

/-- A child filled by its script: its placeholder and its content are at the end of the queue. -/
theorem Fills.child {script : Script} (hfills : Fills script) (h : Open q w)
    (hsmall : q.bytes.length + (4 + script.peak) < 2 ^ 32 - 1) :
    ∃ c d inside, w.child q = .ok c ⟨q.bytes ++ le32 placeholder⟩ ∧
      fill c [] script ⟨q.bytes ++ le32 placeholder⟩ =
        .ok (d, inside) ⟨q.bytes ++ le32 placeholder ++ script.content.encode⟩ ∧
      d.head.toNat = q.bytes.length ∧ d.length.toNat = script.content.encode.length ∧
      ∀ e ∈ inside, Settled (q.bytes.length + 4) script.content.encode e := by
  obtain ⟨c, hchild, hhead, hzero⟩ := h.child (by omega)
  have hlong : (q.bytes ++ le32 placeholder).length = q.bytes.length + 4 := by
    rw [List.length_append, length_le32]
  have hlen : c.length.toNat = 0 := by rw [hzero]; rfl
  obtain ⟨d, inside, hrun, hd, hdl, hliving⟩ := hfills ⟨q.bytes ++ le32 placeholder⟩ c []
    (by
      change c.head.toNat + 4 + c.length.toNat = (q.bytes ++ le32 placeholder).length
      omega)
    (fun c hc => nomatch hc) (by
      change (q.bytes ++ le32 placeholder).length + _ < _
      omega)
  refine ⟨c, d, inside, hchild, hrun, by rw [hd, hhead], by rw [hdl, hlen, Nat.zero_add], ?_⟩
  intro e he
  rcases hliving e he with hnil | hs
  · cases hnil
  · change Settled (q.bytes ++ le32 placeholder).length _ e at hs
    rw [hlong] at hs
    exact hs

/-- A child that was flushed and the writers inside it. -/
theorem settled_child {n : Nat} {body : List UInt8} {inside : List Writer} {d : Writer}
    (hinside : ∀ e ∈ inside, Settled (n + 4) body e) (hd : Settled n (encodePacket body) d) :
    ∀ e ∈ inside ++ [d], Settled n (encodePacket body) e := by
  intro e he
  rcases List.mem_append.mp he with he | he
  · exact (hinside e he).behind rfl
  · rw [List.mem_singleton.mp he]
    exact hd

/-- The rest of a script behind bytes that are there already, with the writers
of these bytes among those that still live. -/
theorem Fills.behind {rest : Script} (hrest : Fills rest) (h : Open q w) {w₁ : Writer} {body : List UInt8}
    (hhead : w₁.head = w.head) (hlength : w₁.length.toNat = w.length.toNat + body.length)
    {near alive : List Writer}
    (hnear : ∀ c ∈ near, Settled q.bytes.length body c) (halive : ∀ c ∈ alive, Settled 0 q.bytes c)
    (hsmall : q.bytes.length + (body.length + rest.peak) < 2 ^ 32 - 1) :
    ∃ w' alive', fill w₁ (near ++ alive) rest ⟨q.bytes ++ body⟩ =
      .ok (w', alive') ⟨q.bytes ++ (body ++ rest.content.encode)⟩ ∧
      w'.head = w.head ∧ w'.length.toNat = w.length.toNat + (body ++ rest.content.encode).length ∧
      ∀ c ∈ alive', c ∈ alive ∨ Settled q.bytes.length (body ++ rest.content.encode) c := by
  have hlong : (q.bytes ++ body).length = q.bytes.length + body.length := List.length_append
  have hopen : Open ⟨q.bytes ++ body⟩ w₁ := by
    unfold Open at *
    change w₁.head.toNat + 4 + w₁.length.toNat = (q.bytes ++ body).length
    rw [hhead]
    omega
  have hsettled (c : Writer) (hc : c ∈ near ++ alive) : Settled 0 (q.bytes ++ body) c := by
    rcases List.mem_append.mp hc with hc | hc
    · exact (hnear c hc).behind (Nat.zero_add _)
    · exact (halive c hc).append body
  obtain ⟨w', alive', hrun, hhead', hlen', hliving⟩ :=
    hrest ⟨q.bytes ++ body⟩ w₁ (near ++ alive) hopen hsettled (by
    change (q.bytes ++ body).length + _ < _
    omega)
  refine ⟨w', alive', ?_, hhead'.trans hhead, ?_, fun c hc => ?_⟩
  · rw [hrun, List.append_assoc]
  · rw [hlen', hlength, List.length_append, Nat.add_assoc]
  · rcases hliving c hc with hc | hs
    · rcases List.mem_append.mp hc with hc | hc
      · exact .inr ((hnear c hc).append _)
      · exact .inl hc
    · exact .inr (hs.behind hlong.symm)

theorem Fills.value {rest : Script} (hrest : Fills rest) (bytes : List UInt8) :
    Fills (.value bytes rest) := by
  intro q w alive h halive hsmall
  rw [Script.peak] at hsmall
  have hlength : (w.length + UInt32.ofNat bytes.length).toNat = w.length.toNat + bytes.length := by
    unfold Open at h
    rw [UInt32.toNat_add, UInt32.toNat_ofNat']
    omega
  have hnone : ∀ c ∈ ([] : List Writer), Settled q.bytes.length bytes c := fun c hc => nomatch hc
  have hhead : (Writer.mk w.head (w.length + UInt32.ofNat bytes.length)).head = w.head := rfl
  obtain ⟨w', alive', hrun, hresult⟩ := hrest.behind h hhead hlength hnone halive (by omega)
  refine ⟨w', alive', ?_, hresult⟩
  rw [fill, Outcome.bind_ok (put_queue w bytes)]
  exact hrun

theorem Fills.keep {inner rest : Script} (hinner : Fills inner) (hrest : Fills rest) :
    Fills (.keep inner rest) := by
  intro q w alive h halive hsmall
  rw [Script.peak] at hsmall
  have hfit := inner.length_le_peak
  obtain ⟨c, d, inside, hchild, hrun, hhead, hlength, hinside⟩ := hinner.child h (by omega)
  obtain ⟨p, hflush, hp, hpl, hsettled⟩ := h.flush hhead hlength (by omega)
  obtain ⟨w', alive', hrun', hresult⟩ := hrest.behind h hp hpl (settled_child hinside hsettled) halive (by
    rw [length_encodePacket]
    omega)
  refine ⟨w', alive', ?_, hresult⟩
  rw [fill, Outcome.bind_ok hchild, Outcome.bind_ok hrun]
  change (d.flush (some w) >>= _) _ = _
  rw [Outcome.bind_ok hflush]
  change fill p (inside ++ d :: alive) rest _ = _
  rw [List.append_cons]
  exact hrun'

theorem Fills.drop {inner rest : Script} (hinner : Fills inner) (hrest : Fills rest) :
    Fills (.drop inner rest) := by
  intro q w alive h halive hsmall
  rw [Script.peak] at hsmall
  have hfit := inner.length_le_peak
  obtain ⟨c, d, inside, hchild, hrun, hhead, hlength, hinside⟩ := hinner.child h (by omega)
  have hlong : (q.bytes ++ le32 placeholder ++ inner.content.encode).length =
      q.bytes.length + (4 + inner.content.encode.length) := by
    rw [List.append_assoc, List.length_append, List.length_append, length_le32]
  have hall : destroyAll inside ⟨q.bytes ++ le32 placeholder ++ inner.content.encode⟩ = .ok () _ :=
    destroyAll_settled (fun e he =>
      (hinside e he).behind (by rw [List.length_append, length_le32, Nat.zero_add]))
      (by
        change (q.bytes ++ le32 placeholder ++ inner.content.encode).length < _
        omega)
  have hback := destroy_unflushed d hhead hlength (by omega)
  obtain ⟨w', alive', hrun', hhead', hlen', hliving⟩ := hrest q w alive h halive (by omega)
  refine ⟨w', alive', ?_, hhead', hlen', hliving⟩
  rw [fill, Outcome.bind_ok hchild, Outcome.bind_ok hrun]
  change (destroyAll inside >>= _) _ = _
  rw [Outcome.bind_ok hall, List.append_assoc, Outcome.bind_ok hback, hrun', Script.content]

theorem Fills.destroy {rest : Script} (hrest : Fills rest) (i : Nat) : Fills (.destroy i rest) := by
  intro q w alive h halive hsmall
  rw [Script.peak] at hsmall
  rw [fill, Script.content]
  cases hi : alive[i]? with
  | none => exact hrest q w alive h halive hsmall
  | some c =>
    have hc := halive c (List.mem_of_getElem? hi)
    obtain ⟨w', alive', hrun, hhead, hlen, hliving⟩ := hrest q w (alive.eraseIdx i) h
      (fun c hc => halive c (List.mem_of_mem_eraseIdx hc)) hsmall
    refine ⟨w', alive', ?_, hhead, hlen, ?_⟩
    · change (c.destroy >>= fun _ => fill w (alive.eraseIdx i) rest) q = _
      rw [Outcome.bind_ok (hc.destroy (by omega)), hrun]
    · intro d hd
      exact (hliving d hd).imp_left List.mem_of_mem_eraseIdx

/-- By induction on the script; a child starts it over at the end of the queue. -/
theorem fills (script : Script) : Fills script := by
  induction script with
  | done =>
    intro q w alive _ _ _
    refine ⟨w, alive, ?_, rfl, rfl, fun c hc => .inl hc⟩
    rw [Script.content, Content.encode, List.append_nil]
    rfl
  | value bytes rest ih => exact ih.value bytes
  | keep inner rest ihinner ihrest => exact ihinner.keep ihrest
  | drop inner rest ihinner ihrest => exact ihinner.drop ihrest
  | destroy i rest ih => exact ih.destroy i

end Writer

/-- Nested writers produce the canonical encoding, whatever is dropped on the way. -/
theorem nested_writers_encode (script : Script) (q : ByteQueue)
    (hsmall : q.bytes.length + (4 + script.peak) < 2 ^ 32 - 1) :
    Writer.packTree script q = .ok () ⟨q.bytes ++ encodePacket script.content.encode⟩ := by
  have hfit := script.length_le_peak
  have hhead : (q.getCount.toUInt32).toNat = q.bytes.length := by
    rw [UInt64.toNat_toUInt32, ByteQueue.toNat_getCount (by omega)]
    omega
  have hlong : (q.bytes ++ le32 placeholder).length = q.bytes.length + 4 := by
    rw [List.length_append, length_le32]
  obtain ⟨w, alive, hfill, hw, hlength, hliving⟩ := Writer.fills script ⟨q.bytes ++ le32 placeholder⟩
    ⟨q.getCount.toUInt32, 0⟩ []
    (by
      change (q.getCount.toUInt32).toNat + 4 + 0 = (q.bytes ++ le32 placeholder).length
      omega)
    (fun c hc => nomatch hc)
    (by
      change (q.bytes ++ le32 placeholder).length + _ < _
      omega)
  have hplace : w.head.toNat = q.bytes.length := by rw [hw, hhead]
  have hcount : w.length.toNat = script.content.encode.length := by
    rw [hlength]
    exact Nat.zero_add _
  obtain ⟨hflush, hroot⟩ := Writer.flush_last none hplace hcount (by omega)
  have hdone (e : Writer) (he : e ∈ alive) :
      Writer.Settled 0 (q.bytes ++ encodePacket script.content.encode) e := by
    rcases hliving e he with hnil | hs
    · cases hnil
    · change Writer.Settled (q.bytes ++ le32 placeholder).length _ e at hs
      exact (hs.behind hlong.symm).behind (Nat.zero_add _)
  have hlast : (q.bytes ++ encodePacket script.content.encode).length < 2 ^ 64 - 1 := by
    rw [List.length_append, length_encodePacket]
    omega
  rw [Writer.packTree, Outcome.bind_ok Writer.new_queue, Outcome.bind_ok hfill]
  change (w.flush none >>= _) _ = _
  rw [Outcome.bind_ok hflush, Outcome.bind_ok (Writer.destroyAll_settled hdone hlast)]
  exact Writer.Settled.destroy (hroot.behind (Nat.zero_add _)) hlast

theorem nested_writers_encode_sample :
    let script : Script := .value [1] (.keep (.value [2, 3] (.keep .done (.destroy 0 .done)))
      (.drop (.value [4] (.keep (.value [5] .done) .done)) (.value [6] .done)))
    Writer.packTree script ⟨[9]⟩ = .ok () ⟨[9, 12, 0, 0, 0, 1, 6, 0, 0, 0, 2, 3, 0, 0, 0, 0, 6]⟩ :=
  nested_writers_encode _ ⟨[9]⟩ (by decide)

end SimpleNetwork
