import SimpleNetwork.Reactor.Nested

/-! Writers that are dropped. The buffer is a byte queue of bounded size that may
refuse an append, and the application goes on after a refusal. -/
namespace SimpleNetwork
open Words

/-- A byte queue that refuses an append beyond its size, or before that: the
answers say for each append whether there is space for it. -/
structure LimitedQueue where
  queue : ByteQueue
  maxSize : Nat
  answers : List Bool
  deriving DecidableEq, Repr

namespace LimitedQueue

def onQueue {α : Type} (x : EStateM Fault ByteQueue α) : EStateM Fault LimitedQueue α :=
  Outcome.zoom queue (fun b q => { q with queue := b }) x

private theorem onQueue_ok {α : Type} {x : EStateM Fault ByteQueue α} {q : LimitedQueue} {a : α}
    {b : ByteQueue}
    (h : x q.queue = .ok a b) : onQueue x q = .ok a { q with queue := b } := Outcome.zoom_ok h

def append (data : List UInt8) : EStateM Fault LimitedQueue Unit := do
  let q ← get
  set { q with answers := q.answers.tail }
  if q.answers.headD true ∧ q.queue.bytes.length + data.length ≤
    q.maxSize then onQueue (ByteQueue.write data noOffset)
  else throw (.thrown .writeNoSpace)

instance : Buffer LimitedQueue where
  getCount q := q.queue.getCount
  read count offset := onQueue (ByteQueue.read count offset)
  write data offset := if offset = noOffset then append data else onQueue (ByteQueue.write data offset)
  writeFrom source offset count :=
    if source.queue.getCount < offset + count then throw (.thrown .readNoEnoughSpace)
    else append ((source.queue.bytes.drop offset.toNat).take count.toNat)
  remove count := onQueue (ByteQueue.remove count)
  removeFromBack count := onQueue (ByteQueue.removeFromBack count)
  reset q := { q with queue := ⟨[]⟩ }

end LimitedQueue

namespace Writer

/-- Carry out a script. A value that is refused is left out, a child whose
constructor throws does not come to be; children of a dropped packet die before it does. -/
def attempt (w : Writer) (alive : List Writer) : Script → EStateM Fault LimitedQueue (Writer × List Writer)
  | .done => pure (w, alive)
  | .value bytes rest => do
    let w ← catchAll (w.put bytes) (pure w)
    attempt w alive rest
  | .keep inner rest => do
    match ← catchAll (some <$> w.child) (pure none) with
    | none => attempt w alive rest
    | some c =>
      let (c, inside) ← attempt c [] inner
      let p ← c.flush (some w)
      attempt (p.getD w) (inside ++ c :: alive) rest
  | .drop inner rest => do
    match ← catchAll (some <$> w.child) (pure none) with
    | none => attempt w alive rest
    | some c =>
      let (c, inside) ← attempt c [] inner
      inside.forM destroy
      c.destroy
      attempt w alive rest
  | .destroy i rest => do
    match alive[i]? with
    | none => attempt w alive rest
    | some c =>
      c.destroy
      attempt w (alive.eraseIdx i) rest

/-- A packet that is never flushed. -/
def dropTree (script : Script) : EStateM Fault LimitedQueue Unit := do
  let w ← Writer.new
  let (w, alive) ← attempt w [] script
  alive.forM destroy
  w.destroy

variable {q : LimitedQueue} {w : Writer} {b : ByteQueue}

/-- `~writer()` sees and changes the bytes only. -/
theorem destroy_onQueue (h : w.destroy q.queue = .ok () b) : w.destroy q = .ok () { q with queue := b } := by
  rw [destroy, Outcome.get_bind] at h ⊢
  change (if Buffer.getCount q.queue > w.head.toUInt64 then _ else _ : EStateM _ _ _) q = _
  split at h
  · rename_i hcount
    obtain ⟨bytes, q₁, hread, hrest⟩ := Outcome.bind_eq_ok.mp h
    have hlift : Buffer.read 4 w.head.toUInt64 q = .ok bytes { q with queue := q₁ } :=
      LimitedQueue.onQueue_ok (x := ByteQueue.read 4 w.head.toUInt64) hread
    rw [if_pos hcount, Outcome.bind_ok hlift]
    split at hrest
    · rename_i hheader
      rw [if_pos hheader]
      exact LimitedQueue.onQueue_ok (x := ByteQueue.removeFromBack (4 + w.length.toUInt64))
        (q := { q with queue := q₁ }) hrest
    · rename_i hheader
      cases hrest
      rw [if_neg hheader]
      rfl
  · rename_i hcount
    cases h
    rw [if_neg hcount]
    rfl

private theorem flush_onQueue {parent p : Option Writer} (h : w.flush parent q.queue = .ok p b) :
    w.flush parent q = .ok p { q with queue := b } := by
  obtain ⟨u, q₁, hwrite, hrest⟩ := Outcome.bind_eq_ok.mp h
  obtain ⟨rfl, rfl⟩ := EStateM.Result.ok.inj hrest
  have hlift : Buffer.write (le32 w.length) w.head.toUInt64 q = .ok u { q with queue := q₁ } := by
    change (if w.head.toUInt64 = noOffset then _ else _ : EStateM _ _ _) q = _
    rw [if_neg (word_ne_noOffset _)]
    exact LimitedQueue.onQueue_ok hwrite
  rw [flush, Outcome.bind_ok hlift]
  rfl

/-- An append is carried out, or refused and leaves the bytes alone. -/
theorem append_cases (data : List UInt8) (q : LimitedQueue) : ∃ q' : LimitedQueue, q'.maxSize = q.maxSize ∧
    (Buffer.write data noOffset q = .ok () q' ∧ q'.queue = ⟨q.queue.bytes ++ data⟩ ∧
        q.queue.bytes.length + data.length ≤ q.maxSize ∨
      Buffer.write data noOffset q = .error (.thrown .writeNoSpace) q' ∧ q'.queue = q.queue) := by
  have hstart : Buffer.write data noOffset q = LimitedQueue.append data q := by
    change (if noOffset = noOffset then LimitedQueue.append data else _ : EStateM _ _ _) q = _
    rw [if_pos rfl]
  rw [hstart, LimitedQueue.append, Outcome.get_bind, Outcome.set_bind]
  split
  · rename_i hroom
    refine ⟨{ q with queue := ⟨q.queue.bytes ++ data⟩, answers := q.answers.tail }, rfl,
      .inl ⟨?_, rfl, hroom.2⟩⟩
    exact LimitedQueue.onQueue_ok (ByteQueue.write_append (q := q.queue) data)
  · exact ⟨{ q with answers := q.answers.tail }, rfl, .inr ⟨rfl, rfl⟩⟩

/-- A value is appended and counted, or the writer and the bytes stay as they are. -/
theorem put_cases (w : Writer) (value : List UInt8) (q : LimitedQueue) : ∃ w' q' body,
    catchAll (w.put value) (pure w) q = .ok w' q' ∧ q'.maxSize = q.maxSize ∧
      q'.queue = ⟨q.queue.bytes ++ body⟩ ∧
      w' = ⟨w.head, w.length + UInt32.ofNat body.length⟩ ∧
      (q.queue.bytes.length ≤ q.maxSize → q.queue.bytes.length + body.length ≤ q.maxSize) := by
  obtain ⟨q', hmax, ⟨hwrite, hqueue, hroom⟩ | ⟨hwrite, hqueue⟩⟩ := append_cases value q
  · have hput : w.put value q = .ok ⟨w.head, w.length + UInt32.ofNat value.length⟩ q' := by
      have hplain := put_queue (q := q.queue) w value
      rw [put, Outcome.get_bind, Outcome.bind_ok (a := ()) (ByteQueue.write_append _),
        Outcome.get_bind, ← hqueue] at hplain
      rw [put, Outcome.get_bind, Outcome.bind_ok hwrite, Outcome.get_bind]
      exact congrArg (EStateM.Result.ok · q') (EStateM.Result.ok.inj hplain).1
    exact ⟨_, q', value, catchAll_ok hput, hmax, hqueue, rfl, fun _ => hroom⟩
  · have hput : w.put value q = .error (.thrown .writeNoSpace) q' := by
      rw [put, Outcome.get_bind, Outcome.bind_error hwrite]
    refine ⟨w, q', [], catchAll_exception hput rfl, hmax, ?_, ?_, fun h => h⟩
    · rw [hqueue, List.append_nil]
    · exact (congrArg (Writer.mk w.head) (UInt32.add_zero w.length)).symm

/-- A child is opened behind its parent's bytes, or there is none and the bytes stay as they are. -/
theorem child_cases (h : Open q.queue w) (hmax : q.maxSize < 2 ^ 32 - 1) :
    ∃ child q', catchAll (some <$> w.child) (pure none) q = .ok child q' ∧ q'.maxSize = q.maxSize ∧
      (child = none ∧ q'.queue = q.queue ∨
        ∃ c, child = some c ∧ q'.queue = ⟨q.queue.bytes ++ le32 placeholder⟩ ∧
          c.head.toNat = q.queue.bytes.length ∧
          c.length = 0 ∧ q.queue.bytes.length + 4 ≤ q.maxSize) := by
  obtain ⟨q', hsame, ⟨hwrite, hqueue, hroom⟩ | ⟨hwrite, hqueue⟩⟩ := append_cases (le32 placeholder) q
  · obtain ⟨c, hplain, hhead, hzero⟩ := h.child (by rw [length_le32] at hroom; omega)
    have hchild : w.child q = .ok c q' := by
      rw [child, Outcome.bind_ok (a := ()) (ByteQueue.write_append _)] at hplain
      rw [child, Outcome.bind_ok hwrite]
      exact congrArg (EStateM.Result.ok · q') (EStateM.Result.ok.inj hplain).1
    have hsome : (some <$> w.child) q = .ok (some c) q' := by
      rw [map_eq_pure_bind, Outcome.bind_ok hchild]
      rfl
    exact ⟨_, q', catchAll_ok hsome, hsame, .inr ⟨c, rfl, hqueue, hhead, hzero, hroom⟩⟩
  · have hsome : (some <$> w.child) q = .error (.thrown .writeNoSpace) q' := by
      rw [map_eq_pure_bind, child, bind_assoc, Outcome.bind_error hwrite]
    exact ⟨none, q', catchAll_exception hsome rfl, hsame, .inl ⟨rfl, hqueue⟩⟩

/-- Destroying flushed children changes nothing. -/
theorem forM_destroy {ws : List Writer} (h : ∀ w ∈ ws, Settled 0 q.queue.bytes w)
    (hsmall : q.queue.bytes.length < 2 ^ 64 - 1) : ws.forM destroy q = .ok () q := by
  induction ws with
  | nil => rfl
  | cons w ws ih =>
    change (w.destroy >>= fun _ => ws.forM destroy) q = _
    rw [Outcome.bind_ok (destroy_onQueue ((h w List.mem_cons_self).destroy hsmall))]
    exact ih fun v hv => h v (List.mem_cons_of_mem w hv)

/-- The writer has come to the end of a longer queue, and nothing but bytes of its
own has been appended. -/
structure Grown (q : LimitedQueue) (w : Writer) (q' : LimitedQueue) (w' : Writer)
    (body : List UInt8) : Prop where
  bytes : q'.queue.bytes = q.queue.bytes ++ body
  maxSize : q'.maxSize = q.maxSize
  fits : q'.queue.bytes.length ≤ q.maxSize
  head : w'.head = w.head
  length : w'.length.toNat = w.length.toNat + body.length

/-- Whatever is refused on the way, what has been appended is what the writer has counted. -/
def Attempts (script : Script) : Prop :=
  ∀ (q : LimitedQueue) (w : Writer) (alive : List Writer), Open q.queue w →
    (∀ c ∈ alive, Settled 0 q.queue.bytes c) →
    q.queue.bytes.length ≤ q.maxSize → q.maxSize < 2 ^ 32 - 1 →
    ∃ w' alive' q' body, attempt w alive script q = .ok (w', alive') q' ∧ Grown q w q' w' body ∧
      ∀ c ∈ alive', c ∈ alive ∨ Settled q.queue.bytes.length body c

section Grown
variable {q' q'' : LimitedQueue} {w' w'' : Writer} {body more : List UInt8}

theorem Grown.refl (w : Writer) (hqueue : q'.queue = q.queue) (hmax : q'.maxSize = q.maxSize)
    (hfits : q.queue.bytes.length ≤ q.maxSize) : Grown q w q' w [] := by
  refine ⟨?_, hmax, ?_, rfl, rfl⟩
  · rw [hqueue, List.append_nil]
  · rw [hqueue]
    exact hfits

theorem Grown.trans (h : Grown q w q' w' body) (h' : Grown q' w' q'' w'' more) :
    Grown q w q'' w'' (body ++ more) := by
  refine ⟨?_, h'.maxSize.trans h.maxSize, ?_, h'.head.trans h.head, ?_⟩
  · rw [h'.bytes, h.bytes, List.append_assoc]
  · rw [← h.maxSize]
    exact h'.fits
  · rw [h'.length, h.length, List.length_append, Nat.add_assoc]

theorem Grown.open (h : Grown q w q' w' body) (hopen : Open q.queue w) : Open q'.queue w' := by
  unfold Open at *
  rw [h.bytes, h.head, h.length, List.length_append]
  omega

end Grown

/-- A child filled as far as there was space, or no child. -/
theorem Attempts.child {script : Script} (hattempts : Attempts script) (h : Open q.queue w)
    (hmax : q.maxSize < 2 ^ 32 - 1) :
    (∃ q', catchAll (some <$> w.child) (pure none) q = .ok none q' ∧ q'.queue = q.queue ∧
      q'.maxSize = q.maxSize) ∨
    ∃ c q₁ d inside q₂ body, catchAll (some <$> w.child) (pure none) q = .ok (some c) q₁ ∧
      attempt c [] script q₁ = .ok (d, inside) q₂ ∧
      q₂.queue = ⟨q.queue.bytes ++ le32 placeholder ++ body⟩ ∧ q₂.maxSize = q.maxSize ∧
      q.queue.bytes.length + (4 + body.length) ≤ q.maxSize ∧
      d.head.toNat = q.queue.bytes.length ∧ d.length.toNat = body.length ∧
      ∀ e ∈ inside, Settled (q.queue.bytes.length + 4) body e := by
  obtain ⟨child, q₁, hchild, hsame, ⟨rfl, hqueue⟩ | ⟨c, rfl, hqueue, hhead, hzero, hroom⟩⟩ :=
    child_cases h hmax
  · exact .inl ⟨q₁, hchild, hqueue, hsame⟩
  · have hlong : q₁.queue.bytes.length = q.queue.bytes.length + 4 := by
      rw [hqueue, List.length_append, length_le32]
    have hlen : c.length.toNat = 0 := by rw [hzero]; rfl
    have hopen : Open q₁.queue c := by
      unfold Open
      omega
    obtain ⟨d, inside, q₂, body, hrun, hgrown, hliving⟩ := hattempts q₁ c [] hopen (fun c hc => nomatch hc)
      (by omega) (by omega)
    have hbytes : q₂.queue.bytes = q.queue.bytes ++ le32 placeholder ++ body := by
      rw [hgrown.bytes, hqueue]
    have hfit := hgrown.fits
    rw [hgrown.bytes, List.length_append, hlong, hsame] at hfit
    refine .inr ⟨c, q₁, d, inside, q₂, body, hchild, hrun, ?_, hgrown.maxSize.trans hsame, by omega,
      by rw [hgrown.head, hhead], by rw [hgrown.length, hlen, Nat.zero_add], ?_⟩
    · rw [← hbytes]
    · intro e he
      rcases hliving e he with hnil | hs
      · cases hnil
      · rw [hlong] at hs
        exact hs

/-- The rest of a script behind bytes that are there already, with the writers
of these bytes among those that still live. -/
theorem Attempts.behind {rest : Script} (hrest : Attempts rest) {q₁ : LimitedQueue} {w₁ : Writer}
    {body : List UInt8}
    (hgrown : Grown q w q₁ w₁ body) (h : Open q.queue w) {near alive : List Writer}
    (hnear : ∀ c ∈ near, Settled q.queue.bytes.length body c)
    (halive : ∀ c ∈ alive, Settled 0 q.queue.bytes c)
    (hmax : q.maxSize < 2 ^ 32 - 1) :
    ∃ w' alive' q' more, attempt w₁ (near ++ alive) rest q₁ = .ok (w', alive') q' ∧ Grown q w q' w' more ∧
      ∀ c ∈ alive', c ∈ alive ∨ Settled q.queue.bytes.length more c := by
  have hfits := hgrown.fits
  have hlong : q₁.queue.bytes.length = q.queue.bytes.length + body.length := by
    rw [hgrown.bytes, List.length_append]
  have hsettled (c : Writer) (hc : c ∈ near ++ alive) : Settled 0 q₁.queue.bytes c := by
    rw [hgrown.bytes]
    rcases List.mem_append.mp hc with hc | hc
    · exact (hnear c hc).behind (Nat.zero_add _)
    · exact (halive c hc).append body
  obtain ⟨w', alive', q', more, hrun, hmore, hliving⟩ := hrest q₁ w₁ (near ++ alive) (hgrown.open h) hsettled
    (by rw [hgrown.maxSize]; exact hfits) (by rw [hgrown.maxSize]; exact hmax)
  refine ⟨w', alive', q', body ++ more, hrun, hgrown.trans hmore, fun c hc => ?_⟩
  rcases hliving c hc with hc | hs
  · rcases List.mem_append.mp hc with hc | hc
    · exact .inr ((hnear c hc).append more)
    · exact .inl hc
  · exact .inr (hs.behind hlong.symm)

theorem Attempts.alone {rest : Script} (hrest : Attempts rest) {q₁ : LimitedQueue} {w₁ : Writer}
    {body : List UInt8}
    (hgrown : Grown q w q₁ w₁ body) (h : Open q.queue w) {alive : List Writer}
    (halive : ∀ c ∈ alive, Settled 0 q.queue.bytes c) (hmax : q.maxSize < 2 ^ 32 - 1) :
    ∃ w' alive' q' more, attempt w₁ alive rest q₁ = .ok (w', alive') q' ∧ Grown q w q' w' more ∧
      ∀ c ∈ alive', c ∈ alive ∨ Settled q.queue.bytes.length more c := by
  have hnear : ∀ c ∈ ([] : List Writer), Settled q.queue.bytes.length body c := fun c hc => nomatch hc
  exact hrest.behind hgrown h hnear halive hmax

theorem Attempts.value {rest : Script} (hrest : Attempts rest) (bytes : List UInt8) :
    Attempts (.value bytes rest) := by
  intro q w alive h halive hfits hmax
  obtain ⟨w₁, q₁, body, hput, hsame, hqueue, rfl, hroom⟩ := put_cases w bytes q
  have hfit := hroom hfits
  have hbytes : q₁.queue.bytes = q.queue.bytes ++ body := by rw [hqueue]
  have hgrown : Grown q w q₁ ⟨w.head, w.length + UInt32.ofNat body.length⟩ body := by
    refine ⟨hbytes, hsame, by rw [hbytes, List.length_append]; exact hfit, rfl, ?_⟩
    unfold Open at h
    change (w.length + UInt32.ofNat body.length).toNat = _
    rw [UInt32.toNat_add, UInt32.toNat_ofNat']
    omega
  obtain ⟨w', alive', q', more, hrun, hresult⟩ := hrest.alone hgrown h halive hmax
  refine ⟨w', alive', q', more, ?_, hresult⟩
  rw [attempt, Outcome.bind_ok hput]
  exact hrun

theorem Attempts.keep {inner rest : Script} (hinner : Attempts inner) (hrest : Attempts rest) :
    Attempts (.keep inner rest) := by
  intro q w alive h halive hfits hmax
  rcases hinner.child h hmax with ⟨q₁, hnone, hqueue, hsame⟩ |
    ⟨c, q₁, d, inside, q₂, body, hchild, hrun, hqueue, hsame, hroom, hhead, hlength, hinside⟩
  · obtain ⟨w', alive', q', more, hrun', hresult⟩ :=
      hrest.alone (Grown.refl w hqueue hsame hfits) h halive hmax
    refine ⟨w', alive', q', more, ?_, hresult⟩
    rw [attempt, Outcome.bind_ok hnone]
    exact hrun'
  · obtain ⟨p, hflush, hp, hpl, hsettled⟩ := h.flush hhead hlength (by omega)
    rw [← hqueue] at hflush
    have hgrown : Grown q w { q₂ with queue := ⟨q.queue.bytes ++ encodePacket body⟩ } p
      (encodePacket body) := by
      refine ⟨rfl, hsame, ?_, hp, hpl⟩
      change (q.queue.bytes ++ encodePacket body).length ≤ _
      rw [List.length_append, length_encodePacket]
      omega
    obtain ⟨w', alive', q', more, hrun', hresult⟩ :=
      hrest.behind hgrown h (settled_child hinside hsettled) halive hmax
    refine ⟨w', alive', q', more, ?_, hresult⟩
    rw [attempt, Outcome.bind_ok hchild]
    change (attempt c [] inner >>= _) q₁ = _
    rw [Outcome.bind_ok hrun]
    change (d.flush (some w) >>= _) q₂ = _
    rw [Outcome.bind_ok (flush_onQueue hflush), List.append_cons]
    exact hrun'

theorem Attempts.drop {inner rest : Script} (hinner : Attempts inner) (hrest : Attempts rest) :
    Attempts (.drop inner rest) := by
  intro q w alive h halive hfits hmax
  rcases hinner.child h hmax with ⟨q₁, hnone, hqueue, hsame⟩ |
    ⟨c, q₁, d, inside, q₂, body, hchild, hrun, hqueue, hsame, hroom, hhead, hlength, hinside⟩
  · obtain ⟨w', alive', q', more, hrun', hresult⟩ :=
      hrest.alone (Grown.refl w hqueue hsame hfits) h halive hmax
    refine ⟨w', alive', q', more, ?_, hresult⟩
    rw [attempt, Outcome.bind_ok hnone]
    exact hrun'
  · have hbytes : q₂.queue.bytes = q.queue.bytes ++ le32 placeholder ++ body := by rw [hqueue]
    have hlong : q₂.queue.bytes.length < 2 ^ 64 - 1 := by
      rw [hbytes, List.append_assoc, List.length_append, List.length_append, length_le32]
      omega
    have hall : inside.forM destroy q₂ = .ok () q₂ := by
      refine forM_destroy (fun e he => ?_) hlong
      rw [hbytes]
      exact (hinside e he).behind (by rw [List.length_append, length_le32, Nat.zero_add])
    have hback := destroy_unflushed d hhead hlength (by omega)
    rw [← List.append_assoc, ← hqueue] at hback
    have hgrown : Grown q w { q₂ with queue := ⟨q.queue.bytes⟩ } w [] := Grown.refl w rfl hsame hfits
    obtain ⟨w', alive', q', more, hrun', hresult⟩ := hrest.alone hgrown h halive hmax
    refine ⟨w', alive', q', more, ?_, hresult⟩
    rw [attempt, Outcome.bind_ok hchild]
    change (attempt c [] inner >>= _) q₁ = _
    rw [Outcome.bind_ok hrun]
    change (inside.forM destroy >>= _) q₂ = _
    rw [Outcome.bind_ok hall, Outcome.bind_ok (destroy_onQueue hback)]
    exact hrun'

theorem Attempts.destroy {rest : Script} (hrest : Attempts rest) (i : Nat) : Attempts (.destroy i rest) := by
  intro q w alive h halive hfits hmax
  rw [attempt]
  cases hi : alive[i]? with
  | none => exact hrest q w alive h halive hfits hmax
  | some c =>
    have hc := (halive c (List.mem_of_getElem? hi)).destroy (by omega)
    obtain ⟨w', alive', q', more, hrun, hgrown, hliving⟩ := hrest q w (alive.eraseIdx i) h
      (fun e he => halive e (List.mem_of_mem_eraseIdx he)) hfits hmax
    refine ⟨w', alive', q', more, ?_, hgrown, fun e he => ?_⟩
    · change (c.destroy >>= _) q = _
      rw [Outcome.bind_ok (destroy_onQueue hc)]
      exact hrun
    · exact (hliving e he).imp_left List.mem_of_mem_eraseIdx

/-- By induction on the script, as for a queue that refuses nothing. -/
theorem attempts (script : Script) : Attempts script := by
  induction script with
  | done =>
    intro q w alive _ _ hfits _
    exact ⟨w, alive, q, [], rfl, Grown.refl w rfl rfl hfits, fun c hc => .inl hc⟩
  | value bytes rest ih => exact ih.value bytes
  | keep inner rest ihinner ihrest => exact ihinner.keep ihrest
  | drop inner rest ihinner ihrest => exact ihinner.drop ihrest
  | destroy i rest ih => exact ih.destroy i

/-- The outermost writer comes to be at the end of the queue, or its constructor throws. -/
theorem new_cases (hmax : q.maxSize < 2 ^ 32 - 1) : ∃ q' : LimitedQueue, q'.maxSize = q.maxSize ∧
    ((∃ w, Writer.new q = .ok w q' ∧ q'.queue = ⟨q.queue.bytes ++ le32 placeholder⟩ ∧
        q.queue.bytes.length + 4 ≤ q.maxSize ∧ w.head.toNat = q.queue.bytes.length ∧ w.length = 0) ∨
      (Writer.new q : EStateM.Result Fault LimitedQueue Writer) = .error (.thrown .writeNoSpace) q' ∧
        q'.queue = q.queue) := by
  obtain ⟨q', hsame, ⟨hwrite, hqueue, hroom⟩ | ⟨hwrite, hqueue⟩⟩ := append_cases (le32 placeholder) q
  · rw [length_le32] at hroom
    refine ⟨q', hsame, .inl ⟨⟨q.queue.getCount.toUInt32, 0⟩, ?_, hqueue, hroom, ?_, rfl⟩⟩
    · rw [new, Outcome.get_bind, Outcome.bind_ok hwrite]
      rfl
    · change q.queue.getCount.toUInt32.toNat = _
      rw [UInt64.toNat_toUInt32, ByteQueue.toNat_getCount (by omega), Nat.mod_eq_of_lt (by omega)]
  · refine ⟨q', hsame, .inr ⟨?_, hqueue⟩⟩
    rw [new, Outcome.get_bind, Outcome.bind_error hwrite]

end Writer

/-- Destroying the outermost writer without a flush restores the bytes from before
its construction, whatever was written, kept, dropped or refused in between. Only
its own constructor can throw out of it, and then nothing has changed either. -/
theorem dropped_writer_restores {q : LimitedQueue} (hmax : q.maxSize < 2 ^ 32 - 1) (script : Script) :
    ∃ q', q'.queue = q.queue ∧ (Writer.dropTree script q = .ok () q' ∨
      (Writer.new q : EStateM.Result Fault LimitedQueue Writer) = .error (.thrown .writeNoSpace) q' ∧
        Writer.dropTree script q = .error (.thrown .writeNoSpace) q') := by
  obtain ⟨q₁, hsame, ⟨w, hnew, hqueue, hroom, hhead, hzero⟩ | ⟨hnew, hqueue⟩⟩ := Writer.new_cases hmax
  · have hbytes : q₁.queue.bytes = q.queue.bytes ++ le32 placeholder := by rw [hqueue]
    have hlong : q₁.queue.bytes.length = q.queue.bytes.length + 4 := by
      rw [hbytes, List.length_append, length_le32]
    have hlen : w.length.toNat = 0 := by rw [hzero]; rfl
    have hopen : Writer.Open q₁.queue w := by
      unfold Writer.Open
      omega
    obtain ⟨w', alive, q₂, body, hrun, hgrown, hliving⟩ :=
      Writer.attempts script q₁ w [] hopen (fun c hc => nomatch hc)
      (by omega) (by omega)
    have hfits := hgrown.fits
    have hend : q₂.queue.bytes.length = q.queue.bytes.length + (4 + body.length) := by
      rw [hgrown.bytes, List.length_append, hlong, Nat.add_assoc]
    have hall : alive.forM Writer.destroy q₂ = .ok () q₂ := by
      refine Writer.forM_destroy (fun e he => ?_) (by omega)
      rcases hliving e he with hnil | hs
      · cases hnil
      · rw [hgrown.bytes]
        exact hs.behind (Nat.zero_add _)
    have hback := Writer.destroy_unflushed w' (show w'.head.toNat = q.queue.bytes.length by
      rw [hgrown.head, hhead])
      (by rw [hgrown.length, hlen, Nat.zero_add]) (by omega)
    have hq₂ : q₂.queue = ⟨q.queue.bytes ++ (le32 placeholder ++ body)⟩ := by
      rw [← List.append_assoc, ← hbytes, ← hgrown.bytes]
    rw [← hq₂] at hback
    refine ⟨{ q₂ with queue := q.queue }, rfl, .inl ?_⟩
    rw [Writer.dropTree, Outcome.bind_ok hnew, Outcome.bind_ok hrun]
    change (alive.forM Writer.destroy >>= _) q₂ = _
    rw [Outcome.bind_ok hall]
    exact Writer.destroy_onQueue hback
  · refine ⟨q₁, hqueue, .inr ⟨hnew, ?_⟩⟩
    rw [Writer.dropTree, Outcome.bind_error hnew]

/-- Twenty bytes of space: the second value is refused for its length, the third
append by the buffer; one child is kept and one dropped. -/
theorem dropped_writer_restores_refused :
    ∃ q' : LimitedQueue, q'.queue = ⟨[1, 2]⟩ ∧
      Writer.dropTree
        (.value [3] (.value (List.replicate 30 4)
        (.keep (.value [5] .done) (.drop (.value [6] .done) .done))))
        ⟨⟨[1, 2]⟩, 20, [true, true, true, true, false]⟩ = .ok () q' := by
  obtain ⟨q', hqueue, hrun | ⟨hnew, -⟩⟩ :=
    dropped_writer_restores (q := ⟨⟨[1, 2]⟩, 20, [true, true, true, true, false]⟩)
    (by decide)
    (.value [3] (.value (List.replicate 30 4)
      (.keep (.value [5] .done) (.drop (.value [6] .done) .done))))
  · exact ⟨q', hqueue, hrun⟩
  · have hfine : (Writer.new : EStateM Fault LimitedQueue Writer)
      ⟨⟨[1, 2]⟩, 20, [true, true, true, true, false]⟩ =
        .ok ⟨2, 0⟩ ⟨⟨[1, 2, 255, 255, 255, 255]⟩, 20, [true, true, true, false]⟩ := by decide +kernel
    cases hfine.symm.trans hnew

end SimpleNetwork
