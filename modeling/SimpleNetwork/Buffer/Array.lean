import SimpleNetwork.Buffer.QueueOps

/-! `array`: one run of bytes that is moved to the front or to larger storage
when it reaches the end of its array. -/
namespace SimpleNetwork
open Runs Words Slices

/-- `array`. -/
structure ArrayBuffer where
  data : Data
  head : UInt64
  tail : UInt64
  deriving DecidableEq, Repr

namespace ArrayBuffer

def new (maxSize defaultSize : UInt64) : Except Fault ArrayBuffer :=
  if defaultSize.toNat < 2 ^ 62 then .ok ⟨Data.new maxSize defaultSize, 0, 0⟩ else .error .badAlloc

def reset (a : ArrayBuffer) : ArrayBuffer := { a with head := 0, tail := 0 }

def getCount (a : ArrayBuffer) : UInt64 := a.tail - a.head

def getContinguiousCount (a : ArrayBuffer) : UInt64 := a.getCount

def expand : EStateM Fault ArrayBuffer Unit := do
  let a ← get
  if a.data.getSize = a.data.maxSize then throw (.thrown .writeNoSpace)
  else
    let data ← Data.alloc a.data.maxSize a.data.nextSize
    let bytes ← a.data.load a.head a.getCount
    let data ← data.store 0 bytes
    set { data := data, head := 0, tail := a.tail - a.head : ArrayBuffer }

/-- `get_space()`, with a bound on its recursion. -/
def getSpaceFuel : Nat → EStateM Fault ArrayBuffer UInt64
  | 0 => throw .diverged
  | fuel + 1 => do
    let a ← get
    let space := a.data.getSize - a.getCount
    if space = 0 then
      expand
      getSpaceFuel fuel
    else pure space

def getSpace : EStateM Fault ArrayBuffer UInt64 := getSpaceFuel 64

/-- After an expansion the source returns the count, not the space. -/
def getContinguiousSpace : EStateM Fault ArrayBuffer UInt64 := do
  let a ← get
  let space := a.data.getSize - a.tail
  if space = 0 then
    expand
    return (← get).getContinguiousCount
  else pure space

/-- The `memmove` of `remove()` and `write()`. -/
def compact : EStateM Fault ArrayBuffer Unit := do
  let a ← get
  let bytes ← a.data.load a.head a.getCount
  let data ← a.data.store 0 bytes
  set { data := data, head := 0, tail := a.tail - a.head : ArrayBuffer }

def remove (count : UInt64) : EStateM Fault ArrayBuffer Unit := do
  let a ← get
  if a.getCount < count then throw (.thrown .removeNoSpace)
  else if a.head + count = a.tail then set { a with head := 0, tail := 0 }
  else
    set { a with head := a.head + count }
    compact

def removeFromBack (count : UInt64) : EStateM Fault ArrayBuffer Unit := do
  let a ← get
  if a.getCount < count then throw (.thrown .removeFromBackNoSpace)
  else set { a with tail := a.tail - count }

def read (count offset : UInt64) : EStateM Fault ArrayBuffer (List UInt8) := do
  let peek := offset ≠ noOffset
  let offset := if offset = noOffset then 0 else offset
  let a ← get
  if a.getCount < offset + count then throw (.thrown .readInvalidOffset)
  else
    let bytes ← a.data.load (a.head + offset) count
    if peek then pure bytes
    else
      set { a with head := a.head + count }
      pure bytes

/-- The `memcpy` of an appending `write()`. -/
def place (data : List UInt8) : EStateM Fault ArrayBuffer Unit := do
  let a ← get
  let stored ← a.data.store a.tail data
  set { a with data := stored, tail := a.tail + UInt64.ofNat data.length }

/-- What an appending `write()` does once the run is at the front. -/
def placeInFront (data : List UInt8) : EStateM Fault ArrayBuffer Unit := do
  let space ← getContinguiousSpace
  if space < UInt64.ofNat data.length then throw (.thrown .writeNoSpace) else place data

def tryAppend (data : List UInt8) : EStateM Fault ArrayBuffer Unit := do
  let space ← getContinguiousSpace
  if space < UInt64.ofNat data.length then
    let a ← get
    if a.head ≠ 0 then
      compact
      placeInFront data
    else placeInFront data
  else place data

/-- The loop of `write()`, with a bound on its rounds: a round that goes on has
made the array four times as long or as long as it may get. -/
def appendFuel : Nat → (data : List UInt8) → EStateM Fault ArrayBuffer Unit
  | 0, _ => throw .diverged
  | fuel + 1, data => do
    let done ← catchAll (do tryAppend data; pure true) (do expand; pure false)
    if done then pure () else appendFuel fuel data

def write (data : List UInt8) (offset : UInt64) : EStateM Fault ArrayBuffer Unit := do
  if offset = noOffset then appendFuel 64 data
  else
    let a ← get
    if a.getCount < offset + UInt64.ofNat data.length then throw (.thrown .writeInvalidOffset)
    else
      let stored ← a.data.store (a.head + offset) data
      set { a with data := stored }

def writeFrom (source : ArrayBuffer) (offset count : UInt64) : EStateM Fault ArrayBuffer Unit :=
  if source.getCount < offset + count then throw (.thrown .readNoEnoughSpace)
  else source.data.appendAt (write · noOffset) (some (source.head + offset)) count

/-- The cursors lie in order inside an array that fits its bound and its machine. -/
structure Valid (a : ArrayBuffer) : Prop where
  head_le : a.head.toNat ≤ a.tail.toNat
  tail_le : a.tail.toNat ≤ a.data.mem.length
  size_le : a.data.mem.length ≤ a.data.maxSize.toNat
  pos : 0 < a.data.mem.length
  small : a.data.mem.length < 2 ^ 62

def contents (a : ArrayBuffer) : List UInt8 := slice a.data.mem a.head.toNat (a.tail.toNat - a.head.toNat)

section Specs
variable {a : ArrayBuffer} (h : a.Valid)
include h

theorem Valid.toNat_getSize : a.data.getSize.toNat = a.data.mem.length :=
  toNat_ofNat_of_lt (Nat.lt_trans h.small (by decide))

theorem Valid.toNat_getCount : a.getCount.toNat = a.tail.toNat - a.head.toNat := toNat_sub_of_le h.head_le

/-- Other bytes in as long an array, and other cursors in it. -/
theorem Valid.update {mem : List UInt8} (hlen : mem.length = a.data.mem.length) {head tail : UInt64}
    (hle : head.toNat ≤ tail.toNat) (htail : tail.toNat ≤ a.data.mem.length) :
    Valid ⟨⟨mem, a.data.maxSize⟩, head, tail⟩ :=
  ⟨hle, hlen ▸ htail, hlen ▸ h.size_le, hlen ▸ h.pos, hlen ▸ h.small⟩

theorem Valid.length_contents : a.contents.length = a.tail.toNat - a.head.toNat := by
  have hh := h.head_le
  have ht := h.tail_le
  exact length_slice (by omega)

private theorem Valid.load_contents {σ : Type} (s : σ) :
    a.data.load a.head a.getCount s = .ok a.contents s := by
  have hh := h.head_le
  have ht := h.tail_le
  have hc := h.toNat_getCount
  rw [Data.load_of_le (by omega), hc]
  rfl

/-- The run at the front of some storage that is at least as long. -/
theorem Valid.moved {mem : List UInt8} (hmem : a.tail.toNat - a.head.toNat ≤ mem.length)
    (hsize : mem.length ≤ a.data.maxSize.toNat) (hpos : 0 < mem.length) (hsmall : mem.length < 2 ^ 62) :
    let b : ArrayBuffer := ⟨⟨CellRing.overwrite mem 0 a.contents, a.data.maxSize⟩, 0, a.tail - a.head⟩
    b.Valid ∧ b.contents = a.contents ∧ b.data.mem.length = mem.length := by
  have hlen := h.length_contents
  have htail : (a.tail - a.head).toNat = a.tail.toNat - a.head.toNat := toNat_sub_of_le h.head_le
  have hover : (CellRing.overwrite mem 0 a.contents).length = mem.length :=
    CellRing.length_overwrite (by omega)
  refine ⟨⟨Nat.zero_le _, ?_, ?_, ?_, ?_⟩, ?_, hover⟩
  · change (a.tail - a.head).toNat ≤ (CellRing.overwrite mem 0 a.contents).length
    omega
  · change (CellRing.overwrite mem 0 a.contents).length ≤ a.data.maxSize.toNat
    omega
  · change 0 < (CellRing.overwrite mem 0 a.contents).length
    omega
  · change (CellRing.overwrite mem 0 a.contents).length < _
    omega
  · change slice (CellRing.overwrite mem 0 a.contents) 0 ((a.tail - a.head).toNat - 0) = _
    rw [htail, Nat.sub_zero, ← hlen]
    exact slice_overwrite (by omega)

private theorem compact_spec : ∃ b, compact a = .ok () b ∧ b.Valid ∧ b.contents = a.contents ∧ b.head = 0 ∧
    b.data.mem.length = a.data.mem.length ∧ b.data.maxSize = a.data.maxSize := by
  have hh := h.head_le
  have ht := h.tail_le
  have hlen := h.length_contents
  obtain ⟨hv, hc, hl⟩ := h.moved (show _ ≤ a.data.mem.length by omega) h.size_le h.pos h.small
  refine ⟨_, ?_, hv, hc, rfl, hl, rfl⟩
  have hstore : a.data.store 0 a.contents a =
      .ok ⟨CellRing.overwrite a.data.mem 0 a.contents, a.data.maxSize⟩ a :=
    Data.store_of_le (by change 0 + a.contents.length ≤ _; omega) a
  rw [compact, Outcome.get_bind, Outcome.bind_ok (h.load_contents a), Outcome.bind_ok hstore]
  rfl

theorem Valid.size_eq_max_iff : a.data.getSize = a.data.maxSize ↔
    a.data.mem.length = a.data.maxSize.toNat := by
  rw [← UInt64.toNat_inj, h.toNat_getSize]

theorem expand_refused (hmax : a.data.mem.length = a.data.maxSize.toNat) :
    expand a = .error (.thrown .writeNoSpace) a := by
  rw [expand, Outcome.get_bind]
  exact congrFun (if_pos (h.size_eq_max_iff.mpr hmax)) a

/-- Growth keeps the contents and moves them to the front. -/
theorem expand_spec (hmax : a.data.mem.length < a.data.maxSize.toNat)
    (halloc : min (4 * a.data.mem.length) a.data.maxSize.toNat < 2 ^ 62) :
    ∃ b, expand a = .ok () b ∧ b.Valid ∧ b.contents = a.contents ∧ b.head = 0 ∧
      b.data.mem.length = min (4 * a.data.mem.length) a.data.maxSize.toNat ∧
        b.data.maxSize = a.data.maxSize := by
  have hh := h.head_le
  have ht := h.tail_le
  have hp := h.pos
  have hlen := h.length_contents
  have hgrown := Data.toNat_nextSize h.small
  obtain ⟨size, hsize⟩ : ∃ size, size = a.data.nextSize := ⟨_, rfl⟩
  rw [← hsize] at hgrown
  have hfresh : (List.replicate size.toNat (0 : UInt8)).length = size.toNat := List.length_replicate
  obtain ⟨hv, hc, hl⟩ := h.moved (show _ ≤ (List.replicate size.toNat (0 : UInt8)).length by omega)
    (by omega) (by omega) (by omega)
  refine ⟨_, ?_, hv, hc, rfl, hl.trans (hfresh.trans hgrown), rfl⟩
  have hdata : (Data.alloc a.data.maxSize size : EStateM Fault ArrayBuffer Data) a =
      .ok ⟨List.replicate size.toNat 0, a.data.maxSize⟩ a := Data.alloc_of_lt (by omega) a
  have hstore : (Data.store ⟨List.replicate size.toNat 0, a.data.maxSize⟩ 0 a.contents : EStateM
    Fault ArrayBuffer Data) a =
      .ok ⟨CellRing.overwrite (List.replicate size.toNat 0) 0 a.contents, a.data.maxSize⟩ a :=
    Data.store_of_le
      (by change 0 + a.contents.length ≤ (List.replicate size.toNat (0 : UInt8)).length; omega) a
  have hne : ¬ a.data.getSize = a.data.maxSize := by
    rw [h.size_eq_max_iff]
    omega
  rw [expand, Outcome.get_bind]
  simp only [if_neg hne, ← hsize]
  rw [Outcome.bind_ok hdata, Outcome.bind_ok (h.load_contents a), Outcome.bind_ok hstore]
  rfl

/-- Bytes stored behind the run are part of it. -/
theorem place_spec (data : List UInt8) (hroom : a.tail.toNat + data.length ≤ a.data.mem.length) :
    ∃ b, place data a = .ok () b ∧ b.Valid ∧ b.contents = a.contents ++ data ∧
      b.data.maxSize = a.data.maxSize := by
  have hh := h.head_le
  have hsmall := h.small
  have hover : (CellRing.overwrite a.data.mem a.tail.toNat data).length = a.data.mem.length :=
    CellRing.length_overwrite hroom
  have hcount : (UInt64.ofNat data.length).toNat = data.length := toNat_ofNat_of_lt (by omega)
  have htail : (a.tail + UInt64.ofNat data.length).toNat = a.tail.toNat + data.length := by
    rw [toNat_add_of_lt (by omega), hcount]
  have hstore := Data.store_of_le hroom a
  refine ⟨⟨⟨CellRing.overwrite a.data.mem a.tail.toNat data, a.data.maxSize⟩, a.head,
    a.tail + UInt64.ofNat data.length⟩, ?_, h.update hover (by omega) (by omega), ?_, rfl⟩
  · rw [place, Outcome.get_bind, Outcome.bind_ok hstore]
    rfl
  · change slice (CellRing.overwrite a.data.mem a.tail.toNat data) a.head.toNat
      ((a.tail + UInt64.ofNat data.length).toNat - a.head.toNat) = _
    rw [htail, Nat.sub_add_comm hh]
    exact slice_grow hroom (by omega)

theorem Valid.toNat_space : (a.data.getSize - a.tail).toNat = a.data.mem.length - a.tail.toNat := by
  rw [toNat_sub_of_le (by rw [h.toNat_getSize]; exact h.tail_le), h.toNat_getSize]

theorem getContinguiousSpace_inside (hin : a.tail.toNat < a.data.mem.length) :
    getContinguiousSpace a = .ok (a.data.getSize - a.tail) a := by
  have hne : ¬ a.data.getSize - a.tail = 0 := by
    rw [← UInt64.toNat_inj, h.toNat_space, UInt64.toNat_zero]
    omega
  rw [getContinguiousSpace, Outcome.get_bind]
  exact congrFun (if_neg hne) a

/-- With the tail at the end of the array the query expands, whatever is free before the head. -/
theorem getContinguiousSpace_at_end (hend : a.tail.toNat = a.data.mem.length) :
    getContinguiousSpace a =
      (do expand; return (← get).getContinguiousCount : EStateM Fault ArrayBuffer UInt64) a := by
  have heq : a.data.getSize - a.tail = 0 := by
    rw [← UInt64.toNat_inj, h.toNat_space, UInt64.toNat_zero]
    omega
  rw [getContinguiousSpace, Outcome.get_bind]
  exact congrFun (if_pos heq) a

private theorem Valid.space_lt_iff {data : List UInt8} (hdata : data.length < 2 ^ 64) :
    a.data.getSize - a.tail < UInt64.ofNat data.length ↔ a.data.mem.length < a.tail.toNat + data.length := by
  have ht := h.tail_le
  rw [UInt64.lt_iff_toNat_lt, h.toNat_space, toNat_ofNat_of_lt (by omega)]
  omega

/-- How an attempt to append ends: with the bytes appended, or with the run at
the front of an array that is too short. -/
def Attempt (a : ArrayBuffer) (data : List UInt8) (size : Nat)
    (r : EStateM.Result Fault ArrayBuffer Unit) : Prop :=
  (a.contents.length + data.length ≤ size → ∃ b, r = .ok () b ∧ b.Valid ∧ b.contents = a.contents ++ data ∧
    b.data.maxSize = a.data.maxSize) ∧
  (size < a.contents.length + data.length → ∃ b, r = .error (.thrown .writeNoSpace) b ∧ b.Valid ∧
    b.contents = a.contents ∧ b.data.maxSize = a.data.maxSize ∧ b.data.mem.length = size)

private theorem placeInFront_attempt {data : List UInt8} (hdata : data.length < 2 ^ 64) (hhead : a.head = 0)
    (hin : a.tail.toNat < a.data.mem.length) : Attempt a data a.data.mem.length (placeInFront data a) := by
  have hlen := h.length_contents
  have hzero : a.head.toNat = 0 := by rw [hhead]; rfl
  have hlt := h.space_lt_iff hdata
  rw [placeInFront, Outcome.bind_ok (getContinguiousSpace_inside h hin)]
  constructor
  · intro hfit
    obtain ⟨b, hrun, hv, hc, hm⟩ := place_spec h data (by omega)
    refine ⟨b, ?_, hv, hc, hm⟩
    rw [if_neg (by rw [hlt]; omega), hrun]
  · intro hbig
    refine ⟨a, ?_, h, rfl, rfl, rfl⟩
    rw [if_pos (hlt.mpr (by omega))]
    rfl

/-- With room behind the run the bytes go there or, after a move to the front, behind the moved run. -/
theorem tryAppend_inside {data : List UInt8} (hdata : data.length < 2 ^ 64)
    (hin : a.tail.toNat < a.data.mem.length) : Attempt a data a.data.mem.length (tryAppend data a) := by
  have hlen := h.length_contents
  have hlt := h.space_lt_iff hdata
  rw [tryAppend, Outcome.bind_ok (getContinguiousSpace_inside h hin)]
  by_cases hroom : a.data.mem.length < a.tail.toNat + data.length
  · rw [if_pos (hlt.mpr hroom), Outcome.get_bind]
    by_cases hhead : a.head = 0
    · rw [if_neg (not_not.mpr hhead)]
      exact placeInFront_attempt h hdata hhead hin
    · obtain ⟨b, hrun, hv, hc, hb, hl, hm⟩ := compact_spec h
      have hblen := hv.length_contents
      have hbzero : b.head.toNat = 0 := by rw [hb]; rfl
      have hattempt := placeInFront_attempt hv hdata hb (by rw [hc] at hblen; omega)
      rw [if_pos hhead, Outcome.bind_ok hrun]
      unfold Attempt at hattempt ⊢
      rw [hc, hm, hl] at hattempt
      exact hattempt
  · obtain ⟨b, hrun, hv, hc, hm⟩ := place_spec h data (by omega)
    rw [if_neg (fun hn => hroom (hlt.mp hn)), hrun]
    exact ⟨fun _ => ⟨b, rfl, hv, hc, hm⟩, fun hbig => by omega⟩

omit h in
/-- There is space for as many bytes: behind the run or behind the run at the
front, unless the tail is at the end, or in an array that it grows to. -/
def Admits (a : ArrayBuffer) (count : Nat) : Prop :=
  a.tail.toNat < a.data.mem.length ∧ a.contents.length + count ≤ a.data.mem.length ∨
    Data.Reaches a.data.mem.length a.data.maxSize.toNat (a.contents.length + count)

omit h in
/-- The space query at the end of the array expands it to its bound and admits bytes that do not fit. -/
def Bursts (a : ArrayBuffer) (count : Nat) : Prop :=
  a.tail.toNat = a.data.mem.length ∧ a.data.mem.length < a.data.maxSize.toNat ∧
    a.data.maxSize.toNat < 2 ^ 62 ∧
    count ≤ a.contents.length ∧ a.data.maxSize.toNat < a.contents.length + count

omit h in
/-- How an append ends that does not burst: `admits` says when there is space,
`denied` when the machine may not give it. -/
inductive Settles (a : ArrayBuffer) (data : List UInt8) (admits denied : Prop) :
    EStateM.Result Fault ArrayBuffer Unit → Prop
  | done {b : ArrayBuffer} (hin : admits) (hv : b.Valid) (hc : b.contents = a.contents ++ data)
      (hm : b.data.maxSize = a.data.maxSize) : Settles a data admits denied (.ok () b)
  | refused {fault : Fault} {b : ArrayBuffer} (hfar : ¬ admits)
      (hfault : fault = .thrown .writeNoSpace ∨ fault = .badAlloc ∧ denied) (hv : b.Valid)
        (hc : b.contents = a.contents)
      (hm : b.data.maxSize = a.data.maxSize) : Settles a data admits denied (.error fault b)

omit h in
/-- What holds of another array with the same contents and bound. -/
theorem Settles.moved {b : ArrayBuffer} {data : List UInt8} {admits admits' denied denied' : Prop}
    {result : EStateM.Result Fault ArrayBuffer Unit} (hsettles : Settles b data admits denied result)
    (hc : b.contents = a.contents) (hm : b.data.maxSize = a.data.maxSize) (hadmits : admits ↔ admits')
    (hdenied : denied → denied') : Settles a data admits' denied' result := by
  cases hsettles with
  | done hin hv hc' hm' => exact .done (hadmits.mp hin) hv (by rw [hc', hc]) (hm'.trans hm)
  | refused hfar hfault hv hc' hm' =>
    exact .refused (mt hadmits.mpr hfar) (hfault.imp_right (And.imp_right hdenied)) hv
      (hc'.trans hc) (hm'.trans hm)

/-- The machine denies the array that is asked for. -/
theorem expand_denied (hmax : a.data.mem.length < a.data.maxSize.toNat)
    (halloc : 2 ^ 62 ≤ min (4 * a.data.mem.length) a.data.maxSize.toNat) : expand a = .error .badAlloc a := by
  have hgrown := Data.toNat_nextSize h.small
  have hne : ¬ a.data.getSize = a.data.maxSize := by
    rw [h.size_eq_max_iff]
    omega
  have hdata : (Data.alloc a.data.maxSize a.data.nextSize : EStateM Fault ArrayBuffer Data) a =
      .error .badAlloc a :=
    Data.alloc_denied (by omega) a
  rw [expand, Outcome.get_bind, if_neg hne, Outcome.bind_error hdata]

omit h in
/-- How a round of the loop around an attempt ends: with the bytes appended,
without space, or in an array that has grown. -/
inductive Round (a : ArrayBuffer) (data : List UInt8) (size : Nat) :
    EStateM.Result Fault ArrayBuffer Bool → Prop
  | done {b : ArrayBuffer} (hfit : a.contents.length + data.length ≤ size) (hv : b.Valid) (hc : b.contents = a.contents ++ data)
      (hm : b.data.maxSize = a.data.maxSize) : Round a data size (.ok true b)
  | refused {fault : Fault} {b : ArrayBuffer} (hbig : size < a.contents.length + data.length)
      (hfault : fault = .thrown .writeNoSpace ∧ size = a.data.maxSize.toNat ∨
        fault = .badAlloc ∧ 2 ^ 62 ≤ min (4 * size) a.data.maxSize.toNat)
      (hv : b.Valid) (hc : b.contents = a.contents) (hm : b.data.maxSize = a.data.maxSize) :
        Round a data size (.error fault b)
  | grown {b : ArrayBuffer} (hbig : size < a.contents.length + data.length) (hmax : size < a.data.maxSize.toNat)
      (halloc : min (4 * size) a.data.maxSize.toNat < 2 ^ 62) (hv : b.Valid) (hc : b.contents = a.contents)
      (hm : b.data.maxSize = a.data.maxSize) (hin : b.tail.toNat < b.data.mem.length)
      (hl : b.data.mem.length = min (4 * size) a.data.maxSize.toNat) (hlt : size < b.data.mem.length) :
      Round a data size (.ok false b)

omit h in
/-- One round of the loop around an attempt; if it failed the array grows. -/
theorem round_of_attempt {data : List UInt8} {size : Nat} (hattempt : Attempt a data size (tryAppend data a))
    (hsize : size ≤ a.data.maxSize.toNat) :
    Round a data size (catchAll (do tryAppend data; pure true) (do expand; pure false) a) := by
  obtain ⟨hfits, hfails⟩ := hattempt
  rcases Nat.lt_or_ge size (a.contents.length + data.length) with hbig | hfit
  · obtain ⟨b, hrun, hv, hc, hm, hl⟩ := hfails hbig
    have hcatch : catchAll (do tryAppend data; pure true) (do expand; pure false) a =
        (do expand; pure false : EStateM Fault ArrayBuffer Bool) b :=
      catchAll_exception (Outcome.bind_error hrun) rfl
    rw [hcatch]
    rcases Nat.eq_or_lt_of_le hsize with hlast | hlt
    · rw [Outcome.bind_error (expand_refused hv (by rw [hl, hm]; exact hlast))]
      exact .refused hbig (.inl ⟨rfl, hlast⟩) hv hc hm
    rcases Nat.lt_or_ge (min (4 * size) a.data.maxSize.toNat) (2 ^ 62) with halloc | halloc
    · obtain ⟨b', hexp, hv', hc', hhead, hl', hm'⟩ := expand_spec hv (by rw [hl, hm]; exact hlt)
        (by rw [hl, hm]; exact halloc)
      have hpos := hv.pos
      have htail := hv.tail_le
      have hlen := hv.length_contents
      have hlen' := hv'.length_contents
      have hzero : b'.head.toNat = 0 := by rw [hhead]; rfl
      rw [hl, hm] at hl'
      rw [hc', hlen, hzero] at hlen'
      rw [Outcome.bind_ok hexp]
      exact .grown hbig hlt halloc hv' (hc'.trans hc) (hm'.trans hm) (by omega) hl' (by omega)
    · rw [Outcome.bind_error (expand_denied hv (by rw [hl, hm]; exact hlt) (by rw [hl, hm]; exact halloc))]
      exact .refused hbig (.inr ⟨rfl, halloc⟩) hv hc hm
  · obtain ⟨b, hrun, hv, hc, hm⟩ := hfits hfit
    have hdone : catchAll (do tryAppend data; pure true) (do expand; pure false) a = .ok true b :=
      catchAll_ok (by rw [Outcome.bind_ok hrun]; rfl)
    rw [hdone]
    exact .done hfit hv hc hm

omit h in
/-- One round, and the others in the array that has grown. -/
theorem appendFuel_round {data : List UInt8} {fuel size : Nat} {denied : Prop}
    (hattempt : Attempt a data size (tryAppend data a))
    (hsize : size ≤ a.data.maxSize.toNat)
    (hdenied : size < a.contents.length + data.length → 2 ^ 62 ≤ min (4 * size) a.data.maxSize.toNat → denied)
    (hnext : ∀ b : ArrayBuffer, b.Valid → b.contents = a.contents → b.data.maxSize = a.data.maxSize →
      b.tail.toNat < b.data.mem.length → b.data.mem.length = min (4 * size) a.data.maxSize.toNat →
      size < b.data.mem.length → Settles b data (b.Admits data.length) denied (appendFuel fuel data b)) :
    Settles a data (a.contents.length + data.length ≤ size ∨
      Data.Reaches size a.data.maxSize.toNat (a.contents.length + data.length)) denied
        (appendFuel (fuel + 1) data a) := by
  have hround := round_of_attempt hattempt hsize
  rw [appendFuel]
  cases hrun : catchAll (do tryAppend data; pure true) (do expand; pure false) a with
  | error fault b =>
    rw [hrun] at hround
    rw [Outcome.bind_error hrun]
    cases hround with
    | refused hbig hfault hv hc hm =>
      refine .refused (not_or.mpr ⟨Nat.not_le.mpr hbig,
        Data.not_reaches (hfault.imp And.right And.right)⟩) ?_ hv hc hm
      exact hfault.imp And.left (And.imp_right (hdenied hbig))
  | ok done b =>
    rw [hrun] at hround
    rw [Outcome.bind_ok hrun]
    cases hround with
    | done hfit hv hc hm => exact .done (.inl hfit) hv hc hm
    | grown hbig hmax halloc hv hc hm hin hl hlt =>
      have hadmits : b.Admits data.length ↔ a.contents.length + data.length ≤ size ∨
          Data.Reaches size a.data.maxSize.toNat (a.contents.length + data.length) := by
        rw [Admits, and_iff_right hin, hc, hm, hl, Data.reaches_step hmax halloc,
          or_iff_right (Nat.not_le.mpr hbig)]
      exact (hnext b hv hc hm hin hl hlt).moved hc hm hadmits id

/-- With room behind the run. Each round multiplies the size by four until it is the bound. -/
theorem appendFuel_inside {data : List UInt8} (hdata : data.length < 2 ^ 64)
    (hin : a.tail.toNat < a.data.mem.length)
    {denied : Prop}
    (hdenied : 2 ^ 62 ≤ a.data.maxSize.toNat → 2 ^ 62 ≤ 4 * (a.contents.length + data.length) →
      denied) (fuel : Nat)
    (hfuel : a.data.maxSize.toNat ≤ a.data.mem.length * 4 ^ fuel) :
    Settles a data (a.Admits data.length) denied (appendFuel (fuel + 1) data a) := by
  have hadmits : a.contents.length + data.length ≤ a.data.mem.length ∨
      Data.Reaches a.data.mem.length a.data.maxSize.toNat (a.contents.length + data.length) ↔
        a.Admits data.length := by
    rw [Admits, and_iff_right hin]
  induction fuel generalizing a with
  | zero =>
    refine (appendFuel_round (tryAppend_inside h hdata hin) h.size_le
      (fun _ _ => hdenied (by omega) (by omega)) ?_).moved
      rfl rfl hadmits id
    intro b _ _ _ _ hl hlt
    omega
  | succ fuel ih =>
    refine (appendFuel_round (tryAppend_inside h hdata hin) h.size_le
      (fun _ _ => hdenied (by omega) (by omega)) ?_).moved
      rfl rfl hadmits id
    intro b hv hc hm htail hl hlt
    refine ih hv htail (by rw [hm, hc]; exact hdenied) ?_ (by rw [Admits, and_iff_right htail])
    rw [hm, hl]
    exact Data.grown_bound hfuel

omit h in
/-- The tail is at the end of the array, and the space query that expands there
refuses bytes that would fit or admits bytes that do not. -/
def Misjudged (a : ArrayBuffer) (count : Nat) : Prop :=
  a.tail.toNat = a.data.mem.length ∧
    (a.data.mem.length = a.data.maxSize.toNat ∧ a.contents.length + count ≤ a.data.maxSize.toNat ∨
      a.data.mem.length < a.data.maxSize.toNat ∧ count ≤ a.contents.length ∧
        a.data.maxSize.toNat < a.contents.length + count)

omit h in
instance (a : ArrayBuffer) (count : Nat) : Decidable (a.Misjudged count) :=
  inferInstanceAs (Decidable (_ ∧ _))

omit h in
/-- No array asked for on the way is too large for the machine. -/
def Affordable (a : ArrayBuffer) (count : Nat) : Prop :=
  a.data.maxSize.toNat < 2 ^ 62 ∨ 4 * (a.data.mem.length + count) < 2 ^ 62

/-- At the end of an array that cannot grow the query throws, and so does the handler. -/
theorem round_full (data : List UInt8) (hend : a.tail.toNat = a.data.mem.length) {fault : Fault}
    (hexp : expand a = .error fault a) (he : fault.isException) :
    catchAll (do tryAppend data; pure true) (do expand; pure false) a = .error fault a := by
  have hspace : getContinguiousSpace a = .error fault a := by
    rw [getContinguiousSpace_at_end h hend, Outcome.bind_error hexp]
  have htry : tryAppend data a = .error fault a := by rw [tryAppend, Outcome.bind_error hspace]
  exact (catchAll_exception (Outcome.bind_error htry) he).trans (Outcome.bind_error hexp)

private theorem append_full (data : List UInt8) (hend : a.tail.toNat = a.data.mem.length) {fault : Fault}
    (hexp : expand a = .error fault a) (he : fault.isException) (fuel : Nat) :
    appendFuel (fuel + 1) data a = .error fault a := by
  rw [appendFuel, Outcome.bind_error (round_full h data hend hexp he)]

/-- At the end of an array that may grow the query answers with the count: more
bytes than that are checked again, up to that many are not. -/
theorem tryAppend_grown {data : List UInt8} (hdata : data.length < 2 ^ 64)
    (hend : a.tail.toNat = a.data.mem.length)
    (hmax : a.data.mem.length < a.data.maxSize.toNat)
    (halloc : min (4 * a.data.mem.length) a.data.maxSize.toNat < 2 ^ 62) :
    ∃ b : ArrayBuffer, b.Valid ∧ b.contents = a.contents ∧ b.head = 0 ∧ b.tail.toNat < b.data.mem.length ∧
      b.data.mem.length = min (4 * a.data.mem.length) a.data.maxSize.toNat ∧ b.data.maxSize = a.data.maxSize ∧
      tryAppend data a = if b.contents.length < data.length then placeInFront data b else place data b := by
  obtain ⟨b, hexp, hv, hc, hhead, hl, hm⟩ := expand_spec h hmax halloc
  have hpos := h.pos
  have htail := h.tail_le
  have hlen := h.length_contents
  have hlen' := hv.length_contents
  have hcount := hv.toNat_getCount
  have hzero : b.head.toNat = 0 := by rw [hhead]; rfl
  have hspace : getContinguiousSpace a = .ok b.getCount b := by
    rw [getContinguiousSpace_at_end h hend, Outcome.bind_ok hexp]
    rfl
  have hlt : b.getCount < UInt64.ofNat data.length ↔ b.contents.length < data.length := by
    rw [UInt64.lt_iff_toNat_lt, hcount, hlen', toNat_ofNat_of_lt (by omega)]
  refine ⟨b, hv, hc, hhead, by rw [hc] at hlen'; omega, hl, hm, ?_⟩
  rw [tryAppend, Outcome.bind_ok hspace]
  by_cases hbig : b.contents.length < data.length
  · rw [if_pos (hlt.mpr hbig), if_pos hbig, Outcome.get_bind, if_neg (not_not.mpr hhead)]
  · rw [if_neg (fun hn => hbig (hlt.mp hn)), if_neg hbig]

/-- At the end of an array that may grow the bytes are copied past its end, or
the attempt is one in an array that has grown. -/
theorem tryAppend_at_end {data : List UInt8} (hdata : data.length < 2 ^ 64)
    (hend : a.tail.toNat = a.data.mem.length)
    (hmax : a.data.mem.length < a.data.maxSize.toNat)
    (halloc : min (4 * a.data.mem.length) a.data.maxSize.toNat < 2 ^ 62) :
    (a.Bursts data.length ∧ ∃ b, tryAppend data a = .error .outOfBounds b) ∨
    (¬ a.Bursts data.length ∧ Attempt a data (min (4 * a.data.mem.length) a.data.maxSize.toNat)
      (tryAppend data a)) := by
  obtain ⟨b, hv, hc, hhead, hin, hl, hm, hrun⟩ := tryAppend_grown h hdata hend hmax halloc
  have hpos := h.pos
  have hlen := h.length_contents
  have hblen := hv.length_contents
  have hzero : b.head.toNat = 0 := by rw [hhead]; rfl
  rw [hrun]
  rw [hc] at hblen ⊢
  by_cases hbig : a.contents.length < data.length
  · rw [if_pos hbig]
    refine .inr ⟨fun hbursts => by have := hbursts.2.2.2.1; omega, ?_⟩
    have hattempt := placeInFront_attempt hv hdata hhead hin
    unfold Attempt at hattempt ⊢
    rw [hc, hm, hl] at hattempt
    exact hattempt
  rw [if_neg hbig]
  by_cases hover : a.data.maxSize.toNat < a.contents.length + data.length
  · have hstore : b.data.store b.tail data b = .error .outOfBounds b := by
      rw [Data.store, if_neg (by omega)]
      rfl
    refine .inl ⟨⟨hend, hmax, by omega, by omega, hover⟩, b, ?_⟩
    rw [place, Outcome.get_bind, Outcome.bind_error hstore]
  · refine .inr ⟨fun hbursts => hover hbursts.2.2.2.2, ?_⟩
    obtain ⟨b', hplace, hv', hc', hm'⟩ := place_spec hv data (by omega)
    exact ⟨fun _ => ⟨b', hplace, hv', by rw [hc', hc], hm'.trans hm⟩, fun hshort => by omega⟩

/-- Every append bursts or settles. -/
theorem append_settles (data : List UInt8) (hdata : data.length < 2 ^ 64) :
    (a.Bursts data.length ∧ ∃ b, write data noOffset a = .error .outOfBounds b) ∨
    (¬ a.Bursts data.length ∧
      Settles a data (a.Admits data.length) (¬ a.Affordable data.length) (write data noOffset a)) := by
  have hlen := h.length_contents
  have hpos := h.pos
  have hword := a.data.maxSize.toNat_lt
  have hbound (size : Nat) (hsize : 0 < size) : a.data.maxSize.toNat ≤ size * 4 ^ 62 := by
    have : 1 * 4 ^ 62 ≤ size * 4 ^ 62 := Nat.mul_le_mul_right _ hsize
    omega
  have hlarge (hmax : 2 ^ 62 ≤ a.data.maxSize.toNat)
    (hsize : 2 ^ 62 ≤ 4 * (a.data.mem.length + data.length)) :
      ¬ a.Affordable data.length := by
    rintro (hsmall | hsmall) <;> omega
  rw [write, if_pos rfl]
  rcases Nat.eq_or_lt_of_le h.tail_le with hend | hin
  · have hside : ¬ (a.tail.toNat < a.data.mem.length ∧
        a.contents.length + data.length ≤ a.data.mem.length) := by omega
    rcases Nat.eq_or_lt_of_le h.size_le with hlast | hmax
    · refine .inr ⟨fun hbursts => by have := hbursts.2.1; omega, ?_⟩
      rw [append_full h data hend (expand_refused h hlast) rfl]
      exact .refused (not_or.mpr ⟨hside, Data.not_reaches (.inl hlast)⟩) (.inl rfl) h rfl rfl
    rcases Nat.lt_or_ge (min (4 * a.data.mem.length) a.data.maxSize.toNat) (2 ^ 62) with halloc | halloc
    · rcases tryAppend_at_end h hdata hend hmax halloc with ⟨hbursts, b, hrun⟩ | ⟨hcalm, hattempt⟩
      · have hcatch : catchAll (do tryAppend data; pure true) (do expand; pure false) a =
            .error .outOfBounds b :=
          catchAll_other (Outcome.bind_error hrun) (by decide)
        exact .inl ⟨hbursts, b, by rw [appendFuel, Outcome.bind_error hcatch]⟩
      · refine .inr
          ⟨hcalm, (appendFuel_round hattempt (Nat.min_le_right _ _)
          (fun _ _ => hlarge (by omega) (by omega)) ?_).moved
          rfl rfl ?_ id⟩
        · intro b hv hc hm hin hl hlt
          refine appendFuel_inside hv hdata hin
            (fun hmax hshort => hlarge (by rw [← hm]; exact hmax) ?_) 62 ?_
          · rw [hc] at hshort
            omega
          · rw [hm]
            exact hbound _ hv.pos
        · rw [Admits, or_iff_right hside, Data.reaches_step hmax halloc]
    · refine .inr ⟨fun hbursts => by have := hbursts.2.2.1; omega, ?_⟩
      rw [append_full h data hend (expand_denied h hmax halloc) rfl]
      exact .refused (not_or.mpr ⟨hside, Data.not_reaches (.inr halloc)⟩)
        (.inr ⟨rfl, hlarge (by omega) (by omega)⟩) h rfl rfl
  · exact .inr ⟨fun hbursts => Nat.ne_of_lt hin hbursts.1,
      appendFuel_inside h hdata hin (fun hmax hshort => hlarge hmax (by omega)) 63
        (Nat.le_trans (hbound _ hpos) (Nat.mul_le_mul_left _ (by decide)))⟩

omit h in
/-- An append as a bounded queue makes it: refused exactly when the bytes do not fit the bound. -/
def Exact (a : ArrayBuffer) (data : List UInt8) (r : EStateM.Result Fault ArrayBuffer Unit) : Prop :=
  (a.contents.length + data.length ≤ a.data.maxSize.toNat → ∃ b, r = .ok () b ∧ b.Valid ∧
    b.contents = a.contents ++ data ∧ b.data.maxSize = a.data.maxSize) ∧
  (a.data.maxSize.toNat < a.contents.length + data.length →
    ∃ b, r = .error (.thrown .writeNoSpace) b ∧ b.Valid ∧
    b.contents = a.contents ∧ b.data.maxSize = a.data.maxSize)

/-- What is admitted fits the bound. -/
theorem Valid.fits_of_admits {count : Nat} (hin : a.Admits count) :
    a.contents.length + count ≤ a.data.maxSize.toNat := by
  rcases hin with ⟨-, hfit⟩ | ⟨-, j, hfit, -⟩
  · exact Nat.le_trans hfit h.size_le
  · exact Nat.le_trans hfit (Nat.min_le_right _ _)

/-- What fits the bound is admitted, unless it is misjudged. -/
theorem Valid.admits_of_fits {count : Nat} (hafford : a.Affordable count) (hright : ¬ a.Misjudged count)
    (hfit : a.contents.length + count ≤ a.data.maxSize.toNat) : a.Admits count := by
  have hlen := h.length_contents
  have htail := h.tail_le
  by_cases hroom : a.tail.toNat < a.data.mem.length ∧ a.contents.length + count ≤ a.data.mem.length
  · exact .inl hroom
  rcases Nat.eq_or_lt_of_le h.size_le with hlast | hmax
  · exact absurd ⟨by omega, .inl ⟨hlast, hfit⟩⟩ hright
  · refine .inr (Data.reaches_of_le h.pos hmax hfit ?_)
    rcases hafford with hsmall | hsmall
    · exact .inl hsmall
    · exact .inr ⟨by omega, by omega⟩

/-- Every append that is not misjudged is exact. -/
theorem append_exact {data : List UInt8} (hdata : data.length < 2 ^ 64) (hafford : a.Affordable data.length)
    (hright : ¬ a.Misjudged data.length) : Exact a data (write data noOffset a) := by
  rcases append_settles h data hdata with ⟨⟨hend, hmax, -, hfew, hover⟩, -⟩ | ⟨-, hsettles⟩
  · exact absurd ⟨hend, .inr ⟨hmax, hfew, hover⟩⟩ hright
  revert hsettles
  generalize write data noOffset a = result
  intro hsettles
  cases hsettles with
  | @done b hin hv hc hm =>
    exact ⟨fun _ => ⟨b, rfl, hv, hc, hm⟩, fun hover => absurd (h.fits_of_admits hin) (Nat.not_le.mpr hover)⟩
  | @refused fault b hfar hfault hv hc hm =>
    rcases hfault with rfl | ⟨-, hdenied⟩
    · exact ⟨fun hfit => absurd (h.admits_of_fits hafford hright hfit) hfar, fun _ => ⟨b, rfl, hv, hc, hm⟩⟩
    · exact absurd hafford hdenied

/-- A misjudged append is refused although the bytes fit, or writes past the end of the array. -/
theorem misjudged_not_exact {data : List UInt8} (hdata : data.length < 2 ^ 64)
    (hafford : a.Affordable data.length)
    (hwrong : a.Misjudged data.length) : ¬ Exact a data (write data noOffset a) := by
  have hlen := h.length_contents
  intro hexact
  obtain ⟨hend, ⟨hlast, hfit⟩ | ⟨hmax, hfew, hover⟩⟩ := hwrong
  · obtain ⟨b, hb, -⟩ := hexact.1 hfit
    rw [write, if_pos rfl, append_full h data hend (expand_refused h hlast) rfl] at hb
    cases hb
  · rcases append_settles h data hdata with ⟨-, b, hrun⟩ | ⟨hcalm, -⟩
    · obtain ⟨b', hb', -⟩ := hexact.2 hover
      rw [hrun] at hb'
      cases hb'
    · refine hcalm ⟨hend, hmax, ?_, hfew, hover⟩
      rcases hafford with hsmall | hsmall <;> omega

private theorem append_exact_iff {data : List UInt8} (hdata : data.length < 2 ^ 64)
    (hafford : a.Affordable data.length) :
    Exact a data (write data noOffset a) ↔ ¬ a.Misjudged data.length :=
  ⟨fun hexact hwrong => misjudged_not_exact h hdata hafford hwrong hexact, append_exact h hdata hafford⟩

theorem Valid.count_lt_iff (n : UInt64) : a.getCount < n ↔ a.contents.length < n.toNat := by
  rw [UInt64.lt_iff_toNat_lt, h.toNat_getCount, h.length_contents]

theorem Valid.toNat_forward {k : UInt64} (hk : k.toNat ≤ a.contents.length) :
    (a.head + k).toNat = a.head.toNat + k.toNat := by
  have hlen := h.length_contents
  have hhead := h.head_le
  have htail := h.tail_le
  have hsmall := h.small
  exact toNat_add_of_lt (by omega)

/-- The run without its first bytes. -/
theorem Valid.drop {count : UInt64} (hn : count.toNat ≤ a.contents.length) :
    Valid { a with head := a.head + count } ∧
      contents { a with head := a.head + count } = a.contents.drop count.toNat := by
  have hlen := h.length_contents
  have hhead := h.head_le
  have hforward := h.toNat_forward hn
  refine ⟨h.update rfl (by omega) h.tail_le, ?_⟩
  rw [contents, contents, drop_slice]
  change slice a.data.mem (a.head + count).toNat (a.tail.toNat - (a.head + count).toNat) = _
  rw [hforward, Nat.sub_sub]

theorem remove_spec {count : UInt64} (hn : count.toNat ≤ a.contents.length) :
    ∃ b, remove count a = .ok () b ∧ b.Valid ∧ b.contents = a.contents.drop count.toNat ∧
      b.data.maxSize = a.data.maxSize := by
  have hlen := h.length_contents
  have hhead := h.head_le
  have hforward := h.toNat_forward hn
  have hguard : ¬ a.getCount < count := by
    rw [h.count_lt_iff]
    omega
  obtain ⟨hv, hc⟩ := h.drop hn
  rw [remove, Outcome.get_bind, if_neg hguard]
  by_cases hall : a.head + count = a.tail
  · have hcount : a.tail.toNat = a.head.toNat + count.toNat := by rw [← hall, hforward]
    refine ⟨{ a with head := 0, tail := 0 }, by
      rw [if_pos hall]; rfl, h.update rfl (Nat.le_refl _) (Nat.zero_le _), ?_, rfl⟩
    rw [List.drop_eq_nil_of_le (by omega)]
    exact slice_zero
  · obtain ⟨b, hrun, hv', hc', _, _, hm⟩ := compact_spec hv
    refine ⟨b, ?_, hv', hc'.trans hc, hm⟩
    rw [if_neg hall, Outcome.set_bind, hrun]

theorem removeFromBack_spec {count : UInt64} (hn : count.toNat ≤ a.contents.length) :
    ∃ b, removeFromBack count a = .ok () b ∧ b.Valid ∧
      b.contents = a.contents.take (a.contents.length - count.toNat) ∧ b.data.maxSize = a.data.maxSize := by
  have hlen := h.length_contents
  have hhead := h.head_le
  have htail := h.tail_le
  have hback : (a.tail - count).toNat = a.tail.toNat - count.toNat := toNat_sub_of_le (by omega)
  have hguard : ¬ a.getCount < count := by
    rw [h.count_lt_iff]
    omega
  refine ⟨{ a with tail := a.tail - count }, ?_, h.update rfl (by omega) (by omega), ?_, rfl⟩
  · rw [removeFromBack, Outcome.get_bind, if_neg hguard]
    rfl
  · rw [hlen, contents, contents, take_slice (by omega)]
    change slice a.data.mem a.head.toNat ((a.tail - count).toNat - a.head.toNat) = _
    rw [hback]
    congr 1
    omega

theorem load_spec {offset count : UInt64} (hr : offset.toNat + count.toNat ≤ a.contents.length)
    (s : ArrayBuffer) :
    a.data.load (a.head + offset) count s = .ok ((a.contents.drop offset.toNat).take count.toNat) s := by
  have hlen := h.length_contents
  have hhead := h.head_le
  have htail := h.tail_le
  have hforward := h.toNat_forward (k := offset) (by omega)
  rw [Data.load_of_le (by omega), hforward, contents, drop_slice, take_slice (by omega)]
  rfl

theorem read_consume {count : UInt64} (hn : count.toNat ≤ a.contents.length) :
    ∃ b, read count noOffset a = .ok (a.contents.take count.toNat) b ∧ b.Valid ∧
      b.contents = a.contents.drop count.toNat ∧ b.data.maxSize = a.data.maxSize := by
  obtain ⟨hv, hc⟩ := h.drop hn
  have hguard : ¬ a.getCount < 0 + count := by
    rw [UInt64.zero_add, h.count_lt_iff]
    omega
  have hload := load_spec h (show (0 : UInt64).toNat + count.toNat ≤ _ by rw [UInt64.toNat_zero]; omega) a
  rw [UInt64.toNat_zero, List.drop_zero] at hload
  refine ⟨{ a with head := a.head + count }, ?_, hv, hc, rfl⟩
  simp only [read, if_true, Outcome.get_bind, if_neg hguard]
  rw [Outcome.bind_ok hload]
  rfl

theorem read_past {count offset : UInt64} (hsum : offset.toNat + count.toNat < 2 ^ 64)
    (hr : a.contents.length < offset.toNat + count.toNat) (hoff : offset ≠ noOffset) :
    read count offset a = .error (.thrown .readInvalidOffset) a := by
  have hguard : a.getCount < offset + count := by
    rw [h.count_lt_iff, toNat_add_of_lt hsum]
    exact hr
  simp only [read, if_neg hoff, Outcome.get_bind, if_pos hguard]
  rfl

theorem read_short {count : UInt64} (hr : a.contents.length < count.toNat) :
    read count noOffset a = .error (.thrown .readInvalidOffset) a := by
  have hguard : a.getCount < 0 + count := by
    rw [UInt64.zero_add, h.count_lt_iff]
    exact hr
  simp only [read, if_true, Outcome.get_bind, if_pos hguard]
  rfl

theorem Valid.ne_noOffset {offset : UInt64} (ho : offset.toNat ≤ a.contents.length) : offset ≠ noOffset := by
  rintro rfl
  have hlen := h.length_contents
  have htail := h.tail_le
  have hsmall := h.small
  have : noOffset.toNat = 2 ^ 64 - 1 := rfl
  omega

theorem read_peek {count offset : UInt64} (hr : offset.toNat + count.toNat ≤ a.contents.length) :
    read count offset a = .ok ((a.contents.drop offset.toNat).take count.toNat) a := by
  have hoff : offset ≠ noOffset := h.ne_noOffset (by omega)
  have hlen := h.length_contents
  have htail := h.tail_le
  have hsmall := h.small
  have hguard : ¬ a.getCount < offset + count := by
    rw [h.count_lt_iff, toNat_add_of_lt (by omega)]
    omega
  simp only [read, if_neg hoff, Outcome.get_bind, if_neg hguard]
  rw [Outcome.bind_ok (load_spec h hr a)]
  simp [hoff]

theorem patch_spec {data : List UInt8} {offset : UInt64}
    (hr : offset.toNat + data.length ≤ a.contents.length) :
    ∃ b, write data offset a = .ok () b ∧ b.Valid ∧
      b.contents = CellRing.overwrite a.contents offset.toNat data ∧ b.data.maxSize = a.data.maxSize := by
  have hlen := h.length_contents
  have hhead := h.head_le
  have htail := h.tail_le
  have hsmall := h.small
  have hoff : offset ≠ noOffset := h.ne_noOffset (by omega)
  have hforward := h.toNat_forward (k := offset) (by omega)
  have hcount : (UInt64.ofNat data.length).toNat = data.length := toNat_ofNat_of_lt (by omega)
  have hguard : ¬ a.getCount < offset + UInt64.ofNat data.length := by
    rw [h.count_lt_iff, toNat_add_of_lt (by omega), hcount]
    omega
  have hroom : (a.head + offset).toNat + data.length ≤ a.data.mem.length := by omega
  have hstore := Data.store_of_le hroom a
  refine ⟨⟨⟨CellRing.overwrite a.data.mem (a.head + offset).toNat data, a.data.maxSize⟩, a.head, a.tail⟩, ?_,
    h.update (CellRing.length_overwrite hroom) hhead htail, ?_, rfl⟩
  · rw [write, if_neg hoff, Outcome.get_bind, if_neg hguard, Outcome.bind_ok hstore]
    rfl
  · change slice (CellRing.overwrite a.data.mem (a.head + offset).toNat data) a.head.toNat
      (a.tail.toNat - a.head.toNat) = _
    rw [slice_overwrite_inside hroom (by omega) (by omega) (by omega), hforward, Nat.add_sub_cancel_left]
    rfl

end Specs

def perform : BufferOp → EStateM Fault ArrayBuffer (List UInt8)
  | .append data => do
    write data noOffset
    pure []
  | .patch data offset => do
    write data offset
    pure []
  | .read count => read count noOffset
  | .peek count offset => read count offset
  | .remove count => do
    remove count
    pure []
  | .removeFromBack count => do
    removeFromBack count
    pure []
  | .fill bytes => do
    let _ ← getContinguiousSpace
    place bytes
    pure []
  | .take count => do
    let a ← get
    let bytes ← a.data.load a.head count
    remove count
    pure bytes
  | .reset => do
    modify reset
    pure []

/-- What a caller respects. Appends are not misjudged and get the storage they
ask for, patches and removals stay inside the contents, the end of a peek is a
64-bit number, and a fill goes where the query does not expand. -/
def Allowed (a : ArrayBuffer) : BufferOp → Prop
  | .append data => data.length < 2 ^ 63 ∧ a.Affordable data.length ∧ ¬ a.Misjudged data.length
  | .patch data offset => offset.toNat + data.length ≤ a.getCount.toNat
  | .read _ => True
  | .peek count offset => offset ≠ noOffset ∧ offset.toNat + count.toNat < 2 ^ 64
  | .remove count => count ≤ a.getCount
  | .removeFromBack count => count ≤ a.getCount
  | .fill bytes => a.tail.toNat < a.data.mem.length ∧ a.tail.toNat + bytes.length ≤ a.data.mem.length
  | .take count => count ≤ a.getContinguiousCount
  | .reset => True

def model (maxSize : UInt64) : BufferModel ArrayBuffer where
  perform := perform
  Allowed := Allowed
  Valid a := a.Valid ∧ a.data.maxSize = maxSize
  contents := contents

/-- Every allowed call does what the queue does. -/
theorem model_refines (maxSize : UInt64) : (model maxSize).Refines := by
  constructor
  rintro a op ⟨h, rfl⟩ hallowed
  have hcount : a.getCount.toNat = a.contents.length := h.toNat_getCount.trans h.length_contents.symm
  cases op with
  | append data =>
    obtain ⟨hdata, hafford, hright⟩ := hallowed
    obtain ⟨hfits, hrefused⟩ := append_exact h (Nat.lt_trans hdata (by decide)) hafford hright
    change BufferModel.Simulated _ _ a ((write data noOffset >>= fun _ => pure []) a)
    rcases Nat.lt_or_ge a.data.maxSize.toNat (a.contents.length + data.length) with hbig | hfit
    · obtain ⟨b, hrun, hv, hc, hm⟩ := hrefused hbig
      rw [Outcome.bind_error hrun]
      exact .error rfl ⟨hv, hm⟩ ⟨.inl rfl, hc⟩
    · obtain ⟨b, hrun, hv, hc, hm⟩ := hfits hfit
      rw [Outcome.bind_ok hrun]
      exact .ok ⟨hv, hm⟩ ⟨rfl, hc⟩
  | patch data offset =>
    obtain ⟨b, hrun, hv, hc, hm⟩ := patch_spec h (show offset.toNat + data.length ≤ _ from hcount ▸ hallowed)
    change BufferModel.Simulated _ _ a ((write data offset >>= fun _ => pure []) a)
    rw [Outcome.bind_ok hrun]
    exact .ok ⟨hv, hm⟩ ⟨rfl, hc⟩
  | read count =>
    change BufferModel.Simulated _ _ a (read count noOffset a)
    rcases Nat.lt_or_ge a.contents.length count.toNat with hlt | hle
    · rw [read_short h hlt]
      exact .error rfl ⟨h, rfl⟩ ⟨rfl, hlt, rfl⟩
    · obtain ⟨b, hrun, hv, hc, hm⟩ := read_consume h hle
      rw [hrun]
      exact .ok ⟨hv, hm⟩ ⟨hle, rfl, hc⟩
  | peek count offset =>
    change BufferModel.Simulated _ _ a (read count offset a)
    rcases Nat.lt_or_ge a.contents.length (offset.toNat + count.toNat) with hlt | hle
    · rw [read_past h hallowed.2 hlt hallowed.1]
      exact .error rfl ⟨h, rfl⟩ ⟨rfl, hlt, rfl⟩
    · rw [read_peek h hle]
      exact .ok ⟨h, rfl⟩ ⟨hle, rfl, rfl⟩
  | remove count =>
    obtain ⟨b, hrun, hv, hc, hm⟩ := remove_spec h (hcount ▸ UInt64.le_iff_toNat_le.mp hallowed)
    change BufferModel.Simulated _ _ a ((remove count >>= fun _ => pure []) a)
    rw [Outcome.bind_ok hrun]
    exact .ok ⟨hv, hm⟩ ⟨rfl, hc⟩
  | removeFromBack count =>
    obtain ⟨b, hrun, hv, hc, hm⟩ := removeFromBack_spec h (hcount ▸ UInt64.le_iff_toNat_le.mp hallowed)
    change BufferModel.Simulated _ _ a ((removeFromBack count >>= fun _ => pure []) a)
    rw [Outcome.bind_ok hrun]
    exact .ok ⟨hv, hm⟩ ⟨rfl, hc⟩
  | fill bytes =>
    obtain ⟨hin, hroom⟩ := hallowed
    obtain ⟨b, hrun, hv, hc, hm⟩ := place_spec h bytes hroom
    change BufferModel.Simulated _ _ a
      ((getContinguiousSpace >>= fun _ => place bytes >>= fun _ => pure []) a)
    rw [Outcome.bind_ok (getContinguiousSpace_inside h hin), Outcome.bind_ok hrun]
    exact .ok ⟨hv, hm⟩ ⟨rfl, hc⟩
  | take count =>
    have hle : count.toNat ≤ a.contents.length := hcount ▸ UInt64.le_iff_toNat_le.mp hallowed
    have hload := load_spec h (show (0 : UInt64).toNat + count.toNat ≤ _ by rw [UInt64.toNat_zero]; omega) a
    rw [UInt64.add_zero, UInt64.toNat_zero, List.drop_zero] at hload
    obtain ⟨b, hrun, hv, hc, hm⟩ := remove_spec h hle
    change BufferModel.Simulated _ _ a
      ((a.data.load a.head count >>= fun bytes => remove count >>= fun _ => pure bytes) a)
    rw [Outcome.bind_ok hload, Outcome.bind_ok hrun]
    exact .ok ⟨hv, hm⟩ ⟨rfl, hc⟩
  | reset => exact .ok ⟨h.update rfl (Nat.le_refl _) (Nat.zero_le _), rfl⟩ ⟨rfl, @slice_zero _ a.data.mem 0⟩

theorem new_valid {maxSize defaultSize : UInt64} {a : ArrayBuffer} (hnew : new maxSize defaultSize = .ok a)
    (hpos : 0 < defaultSize.toNat) (hle : defaultSize ≤ maxSize) :
    (model maxSize).Valid a ∧ a.contents = [] := by
  rw [new] at hnew
  split at hnew
  · rename_i hsmall
    cases hnew
    have hlen : (List.replicate defaultSize.toNat (0 : UInt8)).length = defaultSize.toNat :=
      List.length_replicate
    refine ⟨⟨⟨Nat.le_refl _, Nat.zero_le _, ?_, ?_, ?_⟩, rfl⟩, slice_zero⟩
    · exact hlen ▸ UInt64.le_iff_toNat_le.mp hle
    · exact hlen ▸ hpos
    · exact hlen ▸ hsmall
  · cases hnew

/-- Every allowed call makes a step of the run; in particular patches in range return. -/
theorem allowed_steps {a : ArrayBuffer} (h : a.Valid) {op : BufferOp} (hallowed : a.Allowed op) :
    ∃ reply b, (model a.data.maxSize).Step a (op, reply) b := by
  have hv : (model a.data.maxSize).Valid a := ⟨h, rfl⟩
  by_cases hpatch : ∃ data offset, op = .patch data offset
  · obtain ⟨data, offset, rfl⟩ := hpatch
    have hcount : a.getCount.toNat = a.contents.length := h.toNat_getCount.trans h.length_contents.symm
    obtain ⟨b, hrun, _⟩ := patch_spec h (show offset.toNat + data.length ≤ _ from hcount ▸ hallowed)
    refine ⟨.ok [], b, hallowed, ?_, fun _ _ _ => ⟨[], rfl⟩⟩
    change (write data offset >>= fun _ => pure []) a = _
    rw [Outcome.bind_ok hrun]
    rfl
  · obtain ⟨reply, b, hreply⟩ := (model_refines _).ends hv hallowed
    exact ⟨reply, b, hallowed, hreply, fun data offset hop => absurd ⟨data, offset, hop⟩ hpatch⟩

end ArrayBuffer

open ArrayBuffer in
/-- Over every run of allowed calls the array holds what a byte queue holds, and
its cursors stay in order inside an array within the bound; every allowed call
returns or throws, so no copy leaves the array. Appends are exact, in any state
reached, exactly when they are not misjudged. -/
theorem array_refines_bounded_queue {maxSize defaultSize : UInt64} {start a : ArrayBuffer}
    {es : List BufferEvent}
    (hnew : ArrayBuffer.new maxSize defaultSize = .ok start) (hpos : 0 < defaultSize.toNat)
    (hle : defaultSize ≤ maxSize)
    (hrun : Run (ArrayBuffer.model maxSize).Step start es a) :
    (a.head.toNat ≤ a.tail.toNat ∧ a.tail.toNat ≤ a.data.mem.length ∧ a.data.mem.length ≤ maxSize.toNat ∧
      a.data.maxSize = maxSize) ∧
    Run OnQueue [] es a.contents ∧
    (∀ op, a.Allowed op → ∃ reply b, (ArrayBuffer.model maxSize).Step a (op, reply) b) ∧
    ∀ data, data.length < 2 ^ 63 → a.Affordable data.length →
      (Exact a data (ArrayBuffer.write data noOffset a) ↔ ¬ a.Misjudged data.length) := by
  obtain ⟨hstart, hempty⟩ := new_valid hnew hpos hle
  obtain ⟨⟨hv, rfl⟩, hqueue⟩ := (model_refines maxSize).run hstart hrun
  change Run OnQueue start.contents es a.contents at hqueue
  rw [hempty] at hqueue
  exact ⟨⟨hv.head_le, hv.tail_le, hv.size_le, rfl⟩, hqueue, fun op hallowed => allowed_steps hv hallowed,
    fun data hdata hafford => append_exact_iff hv (Nat.lt_trans hdata (by decide)) hafford⟩

/-- One byte, written and read back, in an array that may not grow. -/
theorem array_refines_bounded_queue_two :
    ∃ a, Run (ArrayBuffer.model 2).Step ⟨Data.new 2 2, 0, 0⟩ [(.append [7], .ok []), (.read 1, .ok [7])] a ∧
      Run OnQueue [] [(.append [7], .ok []), (.read 1, .ok [7])] a.contents := by
  have hrun : Run (ArrayBuffer.model 2).Step ⟨Data.new 2 2, 0, 0⟩ [(.append [7], .ok []), (.read 1, .ok [7])]
      ⟨⟨[7, 0], 2⟩, 1, 1⟩ :=
    .cons (show (ArrayBuffer.model 2).Step _ _ ⟨⟨[7, 0], 2⟩, 0, 1⟩ from
      ⟨⟨by decide, .inl (by decide), by decide⟩, by decide +kernel, fun _ _ hop => nomatch hop⟩)
      (.cons ⟨trivial, by decide +kernel, fun _ _ hop => nomatch hop⟩ (.nil _))
  exact ⟨_, hrun, (array_refines_bounded_queue (show ArrayBuffer.new 2 2 = .ok _ from rfl)
    (by decide) (by decide) hrun).2.1⟩

/-- Two bytes fill an array of two. If it may grow to three, two more are copied
past its end; if it may not grow and one is consumed, one more is refused
although it fits. -/
theorem array_append_misjudged :
    (∃ start a b, ArrayBuffer.new 3 2 = .ok start ∧
      Run (ArrayBuffer.model 3).Step start [(.append [7, 8], .ok [])] a ∧
      ArrayBuffer.write [9, 10] noOffset a = .error .outOfBounds b) ∧
    ∃ start a, ArrayBuffer.new 2 2 = .ok start ∧
      Run (ArrayBuffer.model 2).Step start [(.append [7, 8], .ok []), (.read 1, .ok [7])] a ∧
      a.getCount + 1 ≤ 2 ∧ ArrayBuffer.write [9] noOffset a = .error (.thrown .writeNoSpace) a := by
  constructor
  · exact ⟨_, ⟨⟨[7, 8], 3⟩, 0, 2⟩, ⟨⟨[7, 8, 0], 3⟩, 0, 2⟩, rfl,
      .cons ⟨⟨by decide, .inl (by decide), by decide⟩, by
        decide +kernel, fun _ _ hop => nomatch hop⟩ (.nil _),
      by decide +kernel⟩
  · exact ⟨_, ⟨⟨[7, 8], 2⟩, 1, 2⟩, rfl, .cons (show (ArrayBuffer.model 2).Step _ _ ⟨⟨[7, 8], 2⟩, 0, 2⟩ from
      ⟨⟨by decide, .inl (by decide), by decide⟩, by decide +kernel, fun _ _ hop => nomatch hop⟩)
      (.cons ⟨trivial, by decide +kernel, fun _ _ hop => nomatch hop⟩ (.nil _)), by decide, by decide +kernel⟩

end SimpleNetwork
