import SimpleNetwork.Base.CellRing
import SimpleNetwork.Base.Outcome
import SimpleNetwork.Base.Words

/-! Storage shared by the buffer types, the errors they throw, and the member
functions of `buffer<type>` that packets and connections call. -/
namespace SimpleNetwork

inductive Error where
  | readNoEnoughSpace
  | writeInvalidOffset
  | writeNoSpace
  | readInvalidOffset
  | removeFromBackNoSpace
  | removeNoSpace
  deriving DecidableEq, Repr

/-- Ways a call can end without returning. Besides thrown errors these are a
socket call refused by asio, an access outside an array, a use of a null or
released object, a call that never returns, and an allocation that failed. -/
inductive Fault where
  | thrown (error : Error)
  | systemError
  | outOfBounds
  | deadBlock
  | diverged
  | badAlloc
  deriving DecidableEq, Repr

def Fault.isException : Fault → Bool
  | thrown _ | systemError | badAlloc => true
  | outOfBounds | deadBlock | diverged => false

/-- A `catch (...)` clause; only exceptions get there. -/
def catchAll {σ α : Type} (x handler : EStateM Fault σ α) : EStateM Fault σ α :=
  tryCatch x fun fault => if fault.isException then handler else throw fault

section CatchAll
variable {σ α : Type} {x handler : EStateM Fault σ α} {s s' : σ}

theorem catchAll_ok {a : α} (h : x s = .ok a s') : catchAll x handler s = .ok a s' := Outcome.tryCatch_ok h

theorem catchAll_exception {fault : Fault} (h : x s = .error fault s') (he : fault.isException) :
    catchAll x handler s = handler s' := by
  rw [catchAll, Outcome.tryCatch_error h, if_pos he]

theorem catchAll_other {fault : Fault} (h : x s = .error fault s') (he : ¬ fault.isException) :
    catchAll x handler s = .error fault s' := by
  rw [catchAll, Outcome.tryCatch_error h, if_neg he]
  rfl

end CatchAll

def Leaves {σ α : Type} (x : EStateM Fault σ α) (s s' : σ) : Prop :=
  (∃ a, x s = .ok a s') ∨ ∃ fault : Fault, x s = .error fault s' ∧ fault.isException

/-- A sequence is left in its first part or in the second. -/
theorem Leaves.of_bind {σ α β : Type} {x : EStateM Fault σ α} {f : α → EStateM Fault σ β} {s s' : σ}
    (h : Leaves (x >>= f) s s') :
    (∃ fault : Fault, x s = .error fault s' ∧ fault.isException) ∨ ∃ a u, x s = .ok a u ∧
    Leaves (f a) u s' := by
  rcases h with ⟨b, hrun⟩ | ⟨fault, hrun, he⟩
  · obtain ⟨a, u, hx, hf⟩ := Outcome.bind_eq_ok.mp hrun
    exact .inr ⟨a, u, hx, .inl ⟨b, hf⟩⟩
  · rcases Outcome.bind_eq_error.mp hrun with hx | ⟨a, u, hx, hf⟩
    · exact .inl ⟨fault, hx, he⟩
    · exact .inr ⟨a, u, hx, .inr ⟨fault, hf, he⟩⟩

/-- `buffer::data`. Fresh storage is indeterminate in the source; zeros stand for it. -/
structure Data where
  mem : List UInt8
  maxSize : UInt64
  deriving DecidableEq, Repr

namespace Data

def new (maxSize defaultSize : UInt64) : Data := ⟨List.replicate defaultSize.toNat 0, maxSize⟩

/-- `new uint8[size]` for storage that grows: requests below 2^62 bytes are assumed to
be met, larger ones to fail. -/
def alloc {σ : Type} (maxSize size : UInt64) : EStateM Fault σ Data :=
  if size.toNat < 2 ^ 62 then pure (new maxSize size) else throw .badAlloc

def getSize (d : Data) : UInt64 := UInt64.ofNat d.mem.length

/-- The size that `array` and `bip` grow to: four times as long, but at most `max_size`. -/
def nextSize (d : Data) : UInt64 := if d.getSize <<< 2 < d.maxSize then d.getSize <<< 2 else d.maxSize

theorem toNat_nextSize {d : Data} (h : d.mem.length < 2 ^ 62) :
    d.nextSize.toNat = min (4 * d.mem.length) d.maxSize.toNat := by
  have hquad : (d.getSize <<< 2).toNat = 4 * d.mem.length := by
    rw [UInt64.toNat_shiftLeft, getSize, Words.toNat_ofNat_of_lt (by omega)]
    change d.mem.length <<< 2 % 2 ^ 64 = _
    rw [Nat.shiftLeft_eq]
    omega
  unfold nextSize
  split
  · rename_i hlt
    have := UInt64.lt_iff_toNat_lt.mp hlt
    omega
  · rename_i hge
    have := mt UInt64.lt_iff_toNat_lt.mpr hge
    omega

/-- Rounds that each grow the array get it to its bound. -/
theorem grown_bound {size bound fuel : Nat} (h : bound ≤ size * 4 ^ (fuel + 1)) :
    bound ≤ min (4 * size) bound * 4 ^ fuel := by
  rcases Nat.le_total (4 * size) bound with hle | hle
  · rw [Nat.min_eq_left hle]
    calc bound ≤ size * 4 ^ (fuel + 1) := h
      _ = 4 * size * 4 ^ fuel := by
        rw [Nat.pow_succ, Nat.mul_comm (4 ^ fuel), ← Nat.mul_assoc, Nat.mul_comm size]
  · rw [Nat.min_eq_right hle]
    exact Nat.le_mul_of_pos_right _ (Nat.pow_pos (by decide))

/-- Growing by `nextSize` gets an array of this size to one of `need` bytes, and the machine can give it. -/
def Reaches (size bound need : Nat) : Prop :=
  size < bound ∧ ∃ j, need ≤ min (size * 4 ^ (j + 1)) bound ∧ min (size * 4 ^ (j + 1)) bound < 2 ^ 62

/-- The first growth, and the ones after it. -/
theorem reaches_step {size bound need : Nat} (hlt : size < bound) (hsmall : min (4 * size) bound < 2 ^ 62) :
    Reaches size bound need ↔ need ≤ min (4 * size) bound ∨ Reaches (min (4 * size) bound) bound need := by
  have hpow (j : Nat) : size * 4 ^ (j + 1) = 4 * size * 4 ^ j := by
    rw [Nat.pow_succ, Nat.mul_comm (4 ^ j), ← Nat.mul_assoc, Nat.mul_comm size]
  have hfour (j : Nat) : 4 * size ≤ 4 * size * 4 ^ j := Nat.le_mul_of_pos_right _ (Nat.pow_pos (by decide))
  constructor
  · rintro ⟨-, j, hj, hreach⟩
    rw [hpow] at hj hreach
    rcases Nat.lt_or_ge (4 * size) bound with hmore | hlast
    · rw [Nat.min_eq_left (Nat.le_of_lt hmore)]
      cases j with
      | zero =>
        rw [Nat.pow_zero, Nat.mul_one] at hj
        exact .inl (Nat.le_trans hj (Nat.min_le_left _ _))
      | succ j => exact .inr ⟨hmore, j, hj, hreach⟩
    · refine .inl ?_
      rw [Nat.min_eq_right hlast]
      exact Nat.le_trans hj (Nat.min_le_right _ _)
  · rintro (hneed | ⟨hmore, j, hj, hreach⟩)
    · refine ⟨hlt, 0, ?_, ?_⟩
      · rw [hpow, Nat.pow_zero, Nat.mul_one]
        exact hneed
      · rw [hpow, Nat.pow_zero, Nat.mul_one]
        exact hsmall
    · have hleft : min (4 * size) bound = 4 * size := by omega
      rw [hleft, ← hpow] at hj hreach
      exact ⟨hlt, j + 1, hj, hreach⟩

/-- Where the first growth is refused, none is reached. -/
theorem not_reaches {size bound need : Nat} (h : size = bound ∨ 2 ^ 62 ≤ min (4 * size) bound) :
    ¬ Reaches size bound need := by
  rintro ⟨hlt, j, -, hreach⟩
  have hpow : size * 4 ^ (j + 1) = 4 * size * 4 ^ j := by
    rw [Nat.pow_succ, Nat.mul_comm (4 ^ j), ← Nat.mul_assoc, Nat.mul_comm size]
  have hfour : 4 * size ≤ 4 * size * 4 ^ j := Nat.le_mul_of_pos_right _ (Nat.pow_pos (by decide))
  omega

/-- What fits the bound is reached if the machine gives arrays of four times its length. -/
theorem reaches_of_le {size bound need : Nat} (hpos : 0 < size) (hlt : size < bound) (hneed : need ≤ bound)
    (hsmall : bound < 2 ^ 62 ∨ 4 * size < 2 ^ 62 ∧ 4 * need < 2 ^ 62) : Reaches size bound need := by
  by_cases hnext : need ≤ min (4 * size) bound
  · exact (reaches_step hlt (by omega)).mpr (.inl hnext)
  · have hleft : min (4 * size) bound = 4 * size := by omega
    refine (reaches_step hlt (by omega)).mpr (.inr ?_)
    rw [hleft]
    exact reaches_of_le (by omega) (by omega) hneed (by omega)
termination_by bound - size

def load {σ : Type} (d : Data) (start count : UInt64) : EStateM Fault σ (List UInt8) :=
  if start.toNat + count.toNat ≤ d.mem.length then
    pure ((d.mem.drop start.toNat).take count.toNat)
  else throw .outOfBounds

theorem alloc_of_lt {σ : Type} {maxSize size : UInt64} (h : size.toNat < 2 ^ 62) (s : σ) :
    alloc maxSize size s = .ok (new maxSize size) s := by
  rw [alloc, if_pos h]
  rfl

theorem alloc_denied {σ : Type} {maxSize size : UInt64} (h : 2 ^ 62 ≤ size.toNat) (s : σ) :
    alloc maxSize size s = .error .badAlloc s := by
  rw [alloc, if_neg (Nat.not_lt.mpr h)]
  rfl

theorem load_of_le {σ : Type} {d : Data} {start count : UInt64}
    (h : start.toNat + count.toNat ≤ d.mem.length) (s : σ) :
    d.load start count s = .ok ((d.mem.drop start.toNat).take count.toNat) s := by
  rw [load, if_pos h]
  rfl

theorem load_past {σ : Type} {d : Data} {start count : UInt64}
    (h : d.mem.length < start.toNat + count.toNat) (s : σ) :
    d.load start count s = .error .outOfBounds s := by
  rw [load, if_neg (Nat.not_le.mpr h)]
  rfl

def store {σ : Type} (d : Data) (start : UInt64) (bytes : List UInt8) : EStateM Fault σ Data :=
  if start.toNat + bytes.length ≤ d.mem.length then
    pure { d with mem := CellRing.overwrite d.mem start.toNat bytes }
  else throw .outOfBounds

theorem store_of_le {σ : Type} {d : Data} {start : UInt64} {bytes : List UInt8}
    (h : start.toNat + bytes.length ≤ d.mem.length) (s : σ) :
    d.store start bytes s = .ok ⟨CellRing.overwrite d.mem start.toNat bytes, d.maxSize⟩ s := by
  rw [store, if_pos h]
  rfl

/-- Bytes of the array behind a pointer, if they are all inside. -/
def bytesAt (d : Data) (start : Option UInt64) (count : UInt64) : Option (List UInt8) :=
  start.bind fun start =>
    if start.toNat + count.toNat ≤
      d.mem.length then some ((d.mem.drop start.toNat).take count.toNat) else none

/-- An append of bytes behind a pointer. They are copied once there is space for
them, and only then does it matter that they are not all inside. -/
def appendAt {σ : Type} (append : List UInt8 → EStateM Fault σ Unit) (d : Data)
    (start : Option UInt64) (count : UInt64) :
    EStateM Fault σ Unit :=
  match d.bytesAt start count with
  | some bytes => append bytes
  | none => do
    append (List.replicate count.toNat 0)
    throw .outOfBounds

theorem appendAt_some {σ : Type} {append : List UInt8 → EStateM Fault σ Unit} {d : Data}
    {start : Option UInt64} {count : UInt64}
    {bytes : List UInt8} (h : d.bytesAt start count = some bytes) :
    appendAt append d start count = append bytes := by
  rw [appendAt, h]

theorem appendAt_none {σ : Type} {append : List UInt8 → EStateM Fault σ Unit} {d : Data}
    {start : Option UInt64} {count : UInt64}
    (h : d.bytesAt start count = none) :
    appendAt append d start count = append (List.replicate count.toNat 0) >>= fun _ =>
      throw .outOfBounds := by
  rw [appendAt, h]

theorem bytesAt_inside {d : Data} {start count : UInt64} (h : start.toNat + count.toNat ≤ d.mem.length) :
    d.bytesAt (some start) count = some ((d.mem.drop start.toNat).take count.toNat) := if_pos h

theorem bytesAt_outside {d : Data} {start : Option UInt64} {count : UInt64}
    (h : ∀ place, start = some place → d.mem.length < place.toNat + count.toNat) : d.bytesAt start
    count = none := by
  cases start with
  | none => rfl
  | some place => exact if_neg (Nat.not_le.mpr (h place rfl))

private theorem length_bytesAt {d : Data} {start : Option UInt64} {count : UInt64} {bytes : List UInt8}
    (h : d.bytesAt start count = some bytes) : bytes.length = count.toNat := by
  cases start with
  | none => cases h
  | some place =>
    rcases Nat.lt_or_ge d.mem.length (place.toNat + count.toNat) with hout | hin
    · rw [bytesAt_outside (fun place' hplace => by cases hplace; exact hout)] at h
      cases h
    · rw [bytesAt_inside hin] at h
      cases h
      rw [List.length_take, List.length_drop]
      omega

/-- Bytes are appended in any case; what comes after them tells whether they were there. -/
theorem appendAt_eq {σ : Type} (append : List UInt8 → EStateM Fault σ Unit) (d : Data)
    (start : Option UInt64) (count : UInt64) :
    ∃ (data : List UInt8) (rest : EStateM Fault σ Unit), data.length = count.toNat ∧
      (rest = pure () ∨ rest = throw .outOfBounds) ∧
        appendAt append d start count = append data >>= fun _ => rest := by
  cases hbytes : d.bytesAt start count with
  | some data =>
    refine ⟨data, pure (), length_bytesAt hbytes, .inl rfl, ?_⟩
    rw [appendAt_some hbytes]
    exact (bind_pure _).symm
  | none => exact ⟨_, _, List.length_replicate, .inr rfl, appendAt_none hbytes⟩

end Data

/-- The offset that selects the consuming read and the appending write. -/
abbrev noOffset : UInt64 := -1

/-- A 32-bit offset is never the reserved one. -/
theorem word_ne_noOffset (offset : UInt32) : offset.toUInt64 ≠ noOffset := by
  intro h
  have hlt := offset.toNat_lt
  have hsame := congrArg UInt64.toNat h
  rw [UInt32.toNat_toUInt64] at hsame
  change offset.toNat = 2 ^ 64 - 1 at hsame
  omega

class Buffer (β : Type) where
  getCount : β → UInt64
  read : (count offset : UInt64) → EStateM Fault β (List UInt8)
  write : (data : List UInt8) → (offset : UInt64) → EStateM Fault β Unit
  writeFrom : (source : β) → (offset count : UInt64) → EStateM Fault β Unit
  remove : (count : UInt64) → EStateM Fault β Unit
  removeFromBack : (count : UInt64) → EStateM Fault β Unit
  reset : β → β

/-- What a transport also calls on the buffer it sends from: the length of the
run at `get_start()` and the bytes behind it. -/
class SendBuffer (β : Type) extends Buffer β where
  getContinguiousCount : β → UInt64
  peekStart : (count : UInt64) → EStateM Fault β (List UInt8)

/-- A plain byte queue: append, peek and patch at an offset, removal at both ends. -/
structure ByteQueue where
  bytes : List UInt8
  deriving DecidableEq, Repr

namespace ByteQueue

def getCount (q : ByteQueue) : UInt64 := UInt64.ofNat q.bytes.length

def read (count offset : UInt64) : EStateM Fault ByteQueue (List UInt8) := do
  let q ← get
  if offset = noOffset then
    if q.getCount < count then throw (.thrown .readInvalidOffset)
    else
      set (ByteQueue.mk (q.bytes.drop count.toNat))
      pure (q.bytes.take count.toNat)
  else if q.getCount < offset + count then throw (.thrown .readInvalidOffset)
  else pure ((q.bytes.drop offset.toNat).take count.toNat)

def write (data : List UInt8) (offset : UInt64) : EStateM Fault ByteQueue Unit := do
  let q ← get
  if offset = noOffset then set (ByteQueue.mk (q.bytes ++ data))
  else if q.getCount < offset + UInt64.ofNat data.length then throw (.thrown .writeInvalidOffset)
  else set (ByteQueue.mk (CellRing.overwrite q.bytes offset.toNat data))

def writeFrom (source : ByteQueue) (offset count : UInt64) : EStateM Fault ByteQueue Unit :=
  if source.getCount < offset + count then throw (.thrown .readNoEnoughSpace)
  else write ((source.bytes.drop offset.toNat).take count.toNat) noOffset

def remove (count : UInt64) : EStateM Fault ByteQueue Unit := do
  let q ← get
  if q.getCount < count then throw (.thrown .removeNoSpace)
  else set (ByteQueue.mk (q.bytes.drop count.toNat))

def removeFromBack (count : UInt64) : EStateM Fault ByteQueue Unit := do
  let q ← get
  if q.getCount < count then throw (.thrown .removeFromBackNoSpace)
  else set (ByteQueue.mk (q.bytes.take (q.bytes.length - count.toNat)))

instance : Buffer ByteQueue where
  getCount := getCount
  read := read
  write := write
  writeFrom := writeFrom
  remove := remove
  removeFromBack := removeFromBack
  reset _ := ⟨[]⟩

variable {q : ByteQueue}

theorem toNat_getCount (h : q.bytes.length < 2 ^ 64) : q.getCount.toNat = q.bytes.length :=
  Words.toNat_ofNat_of_lt h

theorem getCount_lt_iff (h : q.bytes.length < 2 ^ 64) (n : UInt64) : q.getCount < n ↔
    q.bytes.length < n.toNat := by
  rw [UInt64.lt_iff_toNat_lt, toNat_getCount h]

/-- An offset inside a queue of addressable size is not the reserved one. -/
theorem ne_noOffset (offset : UInt64) (h : q.bytes.length < 2 ^ 64 - 1) (ho : offset.toNat ≤ q.bytes.length) :
    offset ≠ noOffset := by
  rintro rfl
  have : noOffset.toNat = 2 ^ 64 - 1 := rfl
  omega

theorem read_peek (count offset : UInt64) (h : q.bytes.length < 2 ^ 64 - 1)
    (hr : offset.toNat + count.toNat ≤ q.bytes.length) :
    Buffer.read count offset q = .ok ((q.bytes.drop offset.toNat).take count.toNat) q := by
  have hoff := ne_noOffset offset h (by omega)
  have hin : ¬ q.getCount < offset + count := by
    rw [getCount_lt_iff (by omega), Words.toNat_add_of_lt (by omega)]
    omega
  simp [Buffer.read, read, hoff, hin]

theorem write_append (data : List UInt8) : Buffer.write data noOffset q = .ok () ⟨q.bytes ++ data⟩ := by
  simp [Buffer.write, write]

theorem write_patch (data : List UInt8) (offset : UInt64) (h : q.bytes.length < 2 ^ 64 - 1)
    (hr : offset.toNat + data.length ≤ q.bytes.length) :
    Buffer.write data offset q = .ok () ⟨CellRing.overwrite q.bytes offset.toNat data⟩ := by
  have hoff := ne_noOffset offset h (by omega)
  have hd : (UInt64.ofNat data.length).toNat = data.length := Words.toNat_ofNat_of_lt (by omega)
  have hin : ¬ q.getCount < offset + UInt64.ofNat data.length := by
    rw [getCount_lt_iff (by omega), Words.toNat_add_of_lt (by omega), hd]
    omega
  simp [Buffer.write, write, hoff, hin]

theorem remove_front {count : UInt64} (h : q.bytes.length < 2 ^ 64) (hr : count.toNat ≤ q.bytes.length) :
    Buffer.remove count q = .ok () ⟨q.bytes.drop count.toNat⟩ := by
  have hin : ¬ q.getCount < count := by
    rw [getCount_lt_iff h]
    omega
  simp [Buffer.remove, remove, hin]

theorem remove_back {count : UInt64} (h : q.bytes.length < 2 ^ 64) (hr : count.toNat ≤ q.bytes.length) :
    Buffer.removeFromBack count q = .ok () ⟨q.bytes.take (q.bytes.length - count.toNat)⟩ := by
  have hin : ¬ q.getCount < count := by
    rw [getCount_lt_iff h]
    omega
  simp [Buffer.removeFromBack, removeFromBack, hin]

end ByteQueue
end SimpleNetwork
