import Mathlib.Logic.Relation
import SimpleNetwork.Base.Slices
import SimpleNetwork.Base.Triple
import SimpleNetwork.Buffer.CircleSpec

/-! `circle::write` call by call. A call measures its piece with the free-space
helper, from the end of the contents round to the place it writes to, and not
from that place to the physical end. The pieces of one write therefore grow: each
is as long as all free cells and pieces before it together. -/
namespace SimpleNetwork
open Words Outcome

namespace Circle

/-- Copy one piece to the given offset; what is left goes into the next call. -/
def placeStep (data : List UInt8) (offset : UInt64) :
    EStateM Fault Circle (Option (List UInt8 × UInt64)) := do
  let c ← get
  let head := (c.head + offset) % c.getSize
  let writeCount := sizeMin (continguiousSpaceOf head c.tail c.getSize) (UInt64.ofNat data.length)
  let stored ← c.data.store head (data.take writeCount.toNat)
  set { c with data := stored }
  if UInt64.ofNat data.length - writeCount = 0 then pure none
  else pure (some (data.drop writeCount.toNat, offset + writeCount))

/-- One call of `write`, up to its recursive call. -/
def writeStep (data : List UInt8) (offset : UInt64) :
    EStateM Fault Circle (Option (List UInt8 × UInt64)) := do
  if offset ≠ noOffset then
    let c ← get
    if c.getCount < offset + UInt64.ofNat data.length then throw (.thrown .writeInvalidOffset)
    else placeStep data offset
  else
    let space ← getSpace
    if space < UInt64.ofNat data.length then
      expand
      pure (some (data, offset))
    else
      let c ← get
      written (UInt64.ofNat data.length)
      placeStep data c.getCount

/-- The recursive call of `write`. -/
def resume (fuel : Nat) : Option (List UInt8 × UInt64) → EStateM Fault Circle Unit
  | none => pure ()
  | some (data, offset) => writeFuel fuel data offset

theorem writeFuel_succ (fuel : Nat) (data : List UInt8) (offset : UInt64) :
    writeFuel (fuel + 1) data offset = writeStep data offset >>= resume fuel := by
  have hplace (offset : UInt64) : (do
      let c ← get
      let head := (c.head + offset) % c.getSize
      let writeCount := sizeMin (continguiousSpaceOf head c.tail c.getSize) (UInt64.ofNat data.length)
      let stored ← c.data.store head (data.take writeCount.toNat)
      set { c with data := stored }
      if UInt64.ofNat data.length - writeCount = 0 then pure ()
      else writeFuel fuel (data.drop writeCount.toNat) (offset + writeCount) : EStateM Fault Circle Unit) =
      placeStep data offset >>= resume fuel := by
    simp only [placeStep, bind_assoc]
    refine bind_congr fun c => bind_congr fun stored => bind_congr fun _ => ?_
    split <;> rfl
  rw [writeFuel, writeStep]
  split
  · rw [bind_assoc]
    refine bind_congr fun c => ?_
    split
    · rfl
    · exact hplace offset
  · rw [bind_assoc]
    refine bind_congr fun space => ?_
    split
    · rw [bind_assoc]
      rfl
    · rw [bind_assoc]
      refine bind_congr fun c => ?_
      rw [bind_assoc]
      exact bind_congr fun _ => hplace _

def cell (c : Circle) (offset : Nat) : Nat := CellRing.wrap c.data.mem.length (c.head.toNat + offset)

def Live (c : Circle) (place : Nat) : Prop := ∃ k < c.contents.length, c.cell k = place

def behind (c : Circle) (offset : Nat) : Nat := c.contents.length - offset

/-- The piece of one call: free cells from the end of the contents round to the
place, at most those before the physical end, and at most what is left to write. -/
def piece (c : Circle) (offset count : Nat) : Nat :=
  min (min (c.data.mem.length - 1 - c.behind offset) (c.data.mem.length - c.tail.toNat)) count

def placed (c : Circle) (offset : Nat) (bytes : List UInt8) : Circle :=
  { c with data := ⟨CellRing.overwrite c.data.mem (c.cell offset) bytes, c.data.maxSize⟩ }

section Place
variable {c : Circle} (h : c.Valid)
include h

private theorem Valid.toNat_writePiece {offset count : UInt64} (ho : offset.toNat ≤ c.contents.length) :
    (sizeMin (continguiousSpaceOf ((c.head + offset) % c.getSize) c.tail c.getSize) count).toNat =
      c.piece offset.toNat count.toNat := by
  obtain ⟨c', hr, hv, hc, hd⟩ := remove_spec h ho
  have hrun := hv.toNat_endRun
  cases hr
  rw [hc, List.length_drop] at hrun
  rw [toNat_sizeMin, piece, behind]
  exact congrArg (min · count.toNat) hrun

/-- Bytes stored over live ones, before the physical end. -/
theorem Valid.patched {offset : Nat} {bytes : List UInt8} (hr : offset + bytes.length ≤ c.contents.length)
    (hfit : c.cell offset + bytes.length ≤ c.data.mem.length) :
    (c.placed offset bytes).Valid ∧
    (c.placed offset bytes).contents = CellRing.overwrite c.contents offset bytes := by
  have hlen : (CellRing.overwrite c.data.mem (c.cell offset) bytes).length = c.data.mem.length :=
    CellRing.length_overwrite hfit
  have hv : (c.placed offset bytes).Valid := by
    constructor
    · simpa only [placed, hlen] using h.pow
    · simpa only [placed, hlen] using h.growth
    · simpa only [placed, hlen] using h.head_lt
    · simpa only [placed, hlen] using h.tail_lt
  refine ⟨hv, ?_⟩
  have hring : CellRing.wrap (c.ring h).size ((c.ring h).head + offset) + bytes.length ≤
      (c.ring h).size := hfit
  have hpatch : ring _ hv = (c.ring h).patch offset bytes hring := rfl
  rw [hv.contents_eq, hpatch, CellRing.toList_patch _ _ _ (by rw [h.count_eq]; exact hr), h.contents_eq]

private theorem placeStep_overruns {data : List UInt8} {offset : UInt64}
    (hr : offset.toNat + data.length ≤ c.contents.length)
    (hover : c.data.mem.length < c.cell offset.toNat + c.piece offset.toNat data.length) :
    placeStep data offset c = .error .outOfBounds c := by
  have hl := h.size_le
  have hlt := h.length_lt
  have hcount := toNat_ofNat_of_lt (n := data.length) (by omega)
  have hw : (sizeMin (continguiousSpaceOf ((c.head + offset) % c.getSize) c.tail c.getSize)
      (UInt64.ofNat data.length)).toNat = _ :=
    h.toNat_writePiece (by omega)
  rw [hcount] at hw
  have hindex : ((c.head + offset) % c.getSize).toNat = c.cell offset.toNat := toNat_index h (by omega)
  have hpiece : c.piece offset.toNat data.length ≤ data.length := Nat.min_le_right _ _
  rw [placeStep, get_bind, Data.store, if_neg]
  · rfl
  · rw [hindex, hw, List.length_take, Nat.min_eq_left hpiece]
    omega

private theorem placeStep_fits {data : List UInt8} {offset : UInt64}
    (hr : offset.toNat + data.length ≤ c.contents.length)
    (hfit : c.cell offset.toNat + c.piece offset.toNat data.length ≤ c.data.mem.length) :
    placeStep data offset c = .ok
      (if c.piece offset.toNat data.length = data.length then none
        else some (data.drop (c.piece offset.toNat data.length),
          offset + UInt64.ofNat (c.piece offset.toNat data.length)))
      (c.placed offset.toNat (data.take (c.piece offset.toNat data.length))) := by
  have hl := h.size_le
  have hlt := h.length_lt
  have hcount := toNat_ofNat_of_lt (n := data.length) (by omega)
  have hw : (sizeMin (continguiousSpaceOf ((c.head + offset) % c.getSize) c.tail c.getSize)
      (UInt64.ofNat data.length)).toNat = _ :=
    h.toNat_writePiece (by omega)
  rw [hcount] at hw
  have hindex : ((c.head + offset) % c.getSize).toNat = c.cell offset.toNat := toNat_index h (by omega)
  have hpiece : c.piece offset.toNat data.length ≤ data.length := Nat.min_le_right _ _
  have hword : sizeMin (continguiousSpaceOf ((c.head + offset) % c.getSize) c.tail c.getSize)
    (UInt64.ofNat data.length) =
      UInt64.ofNat (c.piece offset.toNat data.length) := by
    rw [← UInt64.toNat_inj, hw, toNat_ofNat_of_lt (by omega)]
  have hrest : UInt64.ofNat data.length - UInt64.ofNat (c.piece offset.toNat data.length) = 0 ↔
      c.piece offset.toNat data.length = data.length := by
    rw [← UInt64.toNat_inj, toNat_sub_of_le
      (by rw [hcount, toNat_ofNat_of_lt (by omega)]; exact hpiece), hcount,
      toNat_ofNat_of_lt (by omega), UInt64.toNat_zero]
    omega
  have hstored : c.data.store ((c.head + offset) % c.getSize)
    (data.take (c.piece offset.toNat data.length)) c =
      .ok ⟨CellRing.overwrite c.data.mem (c.cell offset.toNat)
        (data.take (c.piece offset.toNat data.length)), c.data.maxSize⟩ c := by
    rw [Data.store_of_le (by rw [hindex, List.length_take, Nat.min_eq_left hpiece]; exact hfit), hindex]
  rw [placeStep, get_bind]
  simp only [hword, toNat_ofNat_of_lt (show c.piece offset.toNat data.length < 2 ^ 64 by omega)]
  rw [bind_ok hstored, set_bind]
  split
  · rename_i hz
    rw [if_pos (hrest.mp hz)]
    rfl
  · rename_i hz
    rw [if_neg (mt hrest.mpr hz)]
    rfl

end Place

/-- A write of `count` bytes at `place`, with `behind` bytes from there to the end
of the contents, copies past the physical end: it crosses the end, and no number
of pieces ends exactly there. -/
def Overruns (size place behind count : Nat) : Prop :=
  size < place + count ∧ 0 < size - 1 - behind ∧ ∀ k, (2 ^ k - 1) * (size - 1 - behind) ≠ size - place

section Pieces
variable {size place tail behind count : Nat}

/-- Each piece is one more than the pieces before it and the free cells together. -/
theorem pieces_succ (k free : Nat) : (2 ^ (k + 1) - 1) * free = (2 ^ k - 1) * (2 * free) + free := by
  have hpos := Nat.two_pow_pos k
  obtain ⟨n, hn⟩ : ∃ n, 2 ^ k = n + 1 := ⟨2 ^ k - 1, by omega⟩
  rw [Nat.pow_succ, hn]
  have hsum : (n + 1) * 2 - 1 = 2 * n + 1 := by omega
  rw [hsum, Nat.add_sub_cancel]
  ring

private theorem le_pieces {k free : Nat} (hk : k ≠ 0) : free ≤ (2 ^ k - 1) * free := by
  have hpos : 2 ≤ 2 ^ k := Nat.le_self_pow hk 2
  exact Nat.le_mul_of_pos_left free (by omega)

variable (hplace : place < size) (htail : tail < size)
  (hbehind : behind = if place ≤ tail then tail - place else tail + size - place) (hcount : count ≤ behind)
include hplace htail hbehind hcount

omit hplace in
/-- A write that does not come round the end is safe. -/
theorem not_overruns_straight (hle : place ≤ tail) : ¬ Overruns size place behind count := by
  rw [if_pos hle] at hbehind
  exact fun hover => absurd hover.1 (by omega)

omit hcount in
private theorem overruns_now (hover : size < place + min (min (size - 1 - behind) (size - tail)) count) :
    Overruns size place behind count := by
  have hwrapped : tail < place := by
    refine Nat.lt_of_not_le fun hle => ?_
    rw [if_pos hle] at hbehind
    omega
  rw [if_neg (by omega)] at hbehind
  refine ⟨by omega, by omega, fun k => ?_⟩
  cases k with
  | zero => omega
  | succ k =>
    have hle : size - 1 - behind ≤ (2 ^ (k + 1) - 1) * (size - 1 - behind) := le_pieces (by omega)
    omega

/-- After a piece that fits, the rest of the write is in the same case. -/
theorem overruns_next (hfree : 0 < size - 1 - behind)
    (hfit : place + min (min (size - 1 - behind) (size - tail)) count ≤ size)
    (hmore : min (min (size - 1 - behind) (size - tail)) count < count) :
    Overruns size place behind count ↔
      Overruns size (CellRing.wrap size (place + min (min (size - 1 - behind) (size - tail)) count))
        (behind - min (min (size - 1 - behind) (size - tail)) count)
        (count - min (min (size - 1 - behind) (size - tail)) count) := by
  rcases Nat.lt_or_ge tail place with hwrapped | hle
  · rw [if_neg (by omega)] at hbehind
    have hpiece : min (min (size - 1 - behind) (size - tail)) count = size - 1 - behind := by omega
    rw [hpiece] at hfit hmore ⊢
    obtain ⟨free, hf⟩ : ∃ n, n = size - 1 - behind := ⟨_, rfl⟩
    rw [← hf] at hfree hfit hmore ⊢
    have hfree' : size - 1 - (behind - free) = 2 * free := by omega
    unfold Overruns
    rw [hfree', ← hf]
    rcases Nat.lt_or_ge (place + free) size with hinside | hend
    · rw [CellRing.wrap, if_pos hinside]
      constructor
      · rintro ⟨hcross, -, hnever⟩
        refine ⟨by omega, by omega, fun k hk => hnever (k + 1) ?_⟩
        rw [pieces_succ]
        omega
      · rintro ⟨hcross, -, hnever⟩
        refine ⟨by omega, hfree, fun k hk => ?_⟩
        cases k with
        | zero => omega
        | succ k =>
          rw [pieces_succ] at hk
          exact hnever k (by omega)
    · rw [CellRing.wrap, if_neg (by omega)]
      constructor
      · rintro ⟨-, -, hnever⟩
        exact absurd (show (2 ^ 1 - 1) * free = size - place by omega) (hnever 1)
      · rintro ⟨hcross, -, -⟩
        omega
  · have hstraight := not_overruns_straight htail hbehind hcount hle
    rw [if_pos hle] at hbehind
    refine iff_of_false hstraight fun hover => ?_
    have hcross := hover.1
    rw [CellRing.wrap, if_pos (by omega)] at hcross
    omega

omit hplace htail hbehind hcount in
private theorem not_overruns_last (hfit : place + count ≤ size) : ¬ Overruns size place behind count :=
  fun hover => absurd hover.1 (by omega)

end Pieces

section Geometry
variable {c : Circle} (h : c.Valid) {offset : Nat} (ho : offset ≤ c.contents.length)
include h ho

theorem Valid.cell_lt : c.cell offset < c.data.mem.length := by
  have hlt := h.length_lt
  have hh := h.head_lt
  exact CellRing.wrap_lt (by omega)

private theorem Valid.behind_eq : c.behind offset =
    if c.cell offset ≤ c.tail.toNat then c.tail.toNat - c.cell offset
      else c.tail.toNat + c.data.mem.length - c.cell offset := by
  have hlt := h.length_lt
  have hh := h.head_lt
  have hcount : c.contents.length = (c.ring h).count := h.count_eq.symm
  have htail := (c.ring h).tail_eq
  rw [← hcount] at htail
  change c.tail.toNat = CellRing.wrap c.data.mem.length (c.head.toNat + c.contents.length) at htail
  unfold behind cell
  rw [htail]
  unfold CellRing.wrap
  split <;> split <;> split <;> omega

omit ho in
theorem Valid.cell_add {n : Nat} (hn : offset + n ≤ c.contents.length) :
    c.cell (offset + n) = CellRing.wrap c.data.mem.length (c.cell offset + n) := by
  have hlt := h.length_lt
  have hh := h.head_lt
  unfold cell CellRing.wrap
  split <;> split <;> split <;> omega

end Geometry

/-- How a write at an offset ends: it recurs for ever on a ring that is full from
there on, it copies past the physical end, or it replaces the bytes. -/
inductive PatchEnds (c : Circle) (data : List UInt8) (offset : Nat) : EStateM.Result Fault Circle Unit → Prop
  | stuck (hne : data ≠ []) (hfull : c.behind offset + 1 = c.data.mem.length) : PatchEnds c data offset (.error .diverged c)
  | overrun {c' : Circle} (hover : Overruns c.data.mem.length (c.cell offset) (c.behind offset) data.length) :
      PatchEnds c data offset (.error .outOfBounds c')
  | done {c' : Circle} (hsafe : ¬ Overruns c.data.mem.length (c.cell offset) (c.behind offset) data.length)
      (hfree : data = [] ∨ c.behind offset + 1 ≠ c.data.mem.length) (hv : c'.Valid)
      (hc : c'.contents = CellRing.overwrite c.contents offset data) (hhead : c'.head = c.head)
        (htail : c'.tail = c.tail)
      (hsize : c'.data.mem.length = c.data.mem.length) (hmax : c'.data.maxSize = c.data.maxSize)
      (hframe : ∀ k, ¬ c.Live k → c'.data.mem[k]? = c.data.mem[k]?) : PatchEnds c data offset (.ok () c')

section Patch

private theorem placed_nil (c : Circle) (offset : Nat) : c.placed offset [] = c := by
  simp [placed, CellRing.overwrite]

variable {c : Circle} (h : c.Valid)
include h

theorem Valid.ne_noOffset {offset : UInt64} (ho : offset.toNat ≤ c.contents.length) : offset ≠ noOffset := by
  have hl := h.size_le
  have hlt := h.length_lt
  rintro rfl
  have : noOffset.toNat = 2 ^ 64 - 1 := rfl
  omega

private theorem writeStep_patch {data : List UInt8} {offset : UInt64}
    (hr : offset.toNat + data.length ≤ c.contents.length) :
    writeStep data offset c = placeStep data offset c := by
  have hl := h.size_le
  have hlt := h.length_lt
  have hcount := toNat_ofNat_of_lt (n := data.length) (by omega)
  have hguard : ¬ c.getCount < offset + UInt64.ofNat data.length := by
    rw [UInt64.lt_iff_toNat_lt, toNat_add_of_lt (by omega), ← h.length_contents, hcount]
    omega
  rw [writeStep, if_pos (h.ne_noOffset (by omega)), get_bind, if_neg hguard]

omit h in
/-- A call that calls itself as it was called never returns. -/
theorem writeFuel_stuck {data : List UInt8} {offset : UInt64}
    (hcall : writeStep data offset c = .ok (some (data, offset)) c)
    (fuel : Nat) : writeFuel fuel data offset c = .error .diverged c := by
  induction fuel with
  | zero => rfl
  | succ fuel ih =>
    rw [writeFuel_succ, bind_ok hcall]
    exact ih

/-- On a ring that is full from the offset on, the call copies nothing and calls itself as it was called. -/
theorem placeStep_stuck {data : List UInt8} {offset : UInt64}
    (hr : offset.toNat + data.length ≤ c.contents.length)
    (hne : data ≠ []) (hfull : c.behind offset.toNat + 1 = c.data.mem.length) :
    placeStep data offset c = .ok (some (data, offset)) c := by
  have hcell := h.cell_lt (show offset.toNat ≤ c.contents.length by omega)
  have hpos := List.length_pos_iff.mpr hne
  have hzero : c.piece offset.toNat data.length = 0 := by
    unfold piece
    omega
  rw [placeStep_fits h hr (by omega), hzero, if_neg (by omega), List.take_zero, placed_nil, List.drop_zero]
  simp

private theorem place_stuck {data : List UInt8} {offset : UInt64}
    (hr : offset.toNat + data.length ≤ c.contents.length)
    (hne : data ≠ []) (hfull : c.behind offset.toNat + 1 = c.data.mem.length) (fuel : Nat) :
    (placeStep data offset >>= resume fuel) c = .error .diverged c := by
  rw [bind_ok (placeStep_stuck h hr hne hfull)]
  exact writeFuel_stuck ((writeStep_patch h hr).trans (placeStep_stuck h hr hne hfull)) fuel

/-- The rest of a write after a piece of `n` bytes: a call on the ring with that piece in place. -/
structure Rest (c : Circle) (data : List UInt8) (offset : UInt64) (n : Nat) : Prop where
  valid : (c.placed offset.toNat (data.take n)).Valid
  bytes : (c.placed offset.toNat (data.take n)).contents =
    CellRing.overwrite c.contents offset.toNat (data.take n)
  size : (c.placed offset.toNat (data.take n)).data.mem.length = c.data.mem.length
  moved : (offset + UInt64.ofNat n).toNat = offset.toNat + n
  inside : (offset + UInt64.ofNat n).toNat + (data.drop n).length ≤
    (c.placed offset.toNat (data.take n)).contents.length
  next : (c.placed offset.toNat (data.take n)).cell (offset + UInt64.ofNat n).toNat =
    CellRing.wrap c.data.mem.length (c.cell offset.toNat + n)
  left : (c.placed offset.toNat (data.take n)).behind (offset + UInt64.ofNat n).toNat =
    c.behind offset.toNat - n
  frame : ∀ k, ¬ c.Live k → (c.placed offset.toNat (data.take n)).data.mem[k]? = c.data.mem[k]?

omit h in
theorem Rest.live_iff {data : List UInt8} {offset : UInt64} {n : Nat} (hrest : Rest c data offset n)
    (hr : offset.toNat + (data.take n).length ≤ c.contents.length) (k : Nat) :
    (c.placed offset.toNat (data.take n)).Live k ↔ c.Live k := by
  have hlen : (c.placed offset.toNat (data.take n)).contents.length = c.contents.length := by
    rw [hrest.bytes, CellRing.length_overwrite hr]
  unfold Live cell
  rw [hlen, hrest.size]
  rfl

theorem Valid.rest {data : List UInt8} {offset : UInt64} {n : Nat}
    (hr : offset.toNat + data.length ≤ c.contents.length)
    (hn : n ≤ data.length) (hfit : c.cell offset.toNat + n ≤ c.data.mem.length) : Rest c data offset n := by
  have hlt := h.length_lt
  have hl := h.size_le
  have htake : (data.take n).length = n := by rw [List.length_take, Nat.min_eq_left hn]
  obtain ⟨hv, hc⟩ : (c.placed offset.toNat (data.take n)).Valid ∧ _ := h.patched (by omega) (by omega)
  have hsize : (c.placed offset.toNat (data.take n)).data.mem.length = c.data.mem.length :=
    CellRing.length_overwrite (by omega)
  have hoff : (offset + UInt64.ofNat n).toNat = offset.toNat + n := by
    rw [toNat_add_of_lt (by rw [toNat_ofNat_of_lt (by omega)]; omega), toNat_ofNat_of_lt (by omega)]
  have hlen : (c.placed offset.toNat (data.take n)).contents.length = c.contents.length := by
    rw [hc]
    exact CellRing.length_overwrite (by omega)
  refine ⟨hv, hc, hsize, hoff, ?_, ?_, ?_, fun k hdead => ?_⟩
  · rw [hoff, hlen, List.length_drop]
    omega
  · rw [hoff, ← h.cell_add (by omega)]
    unfold cell
    rw [hsize]
    rfl
  · rw [behind, hlen, hoff, behind]
    omega
  · change (CellRing.overwrite c.data.mem (c.cell offset.toNat) (data.take n))[k]? = _
    rw [CellRing.getElem?_overwrite (by omega), if_neg]
    rintro ⟨hlo, hhi⟩
    refine hdead ⟨offset.toNat + (k - c.cell offset.toNat), by omega, ?_⟩
    rw [h.cell_add (by omega), CellRing.wrap, if_pos (by omega)]
    omega

/-- Unless the ring is full from the offset on, a piece is not empty. -/
theorem Valid.piece_pos {data : List UInt8} {offset : Nat}
    (hr : offset + data.length ≤ c.contents.length) (hne : data ≠ [])
    (hroom : c.behind offset + 1 ≠ c.data.mem.length) : 0 < c.piece offset data.length := by
  have hlt := h.length_lt
  have htail := h.tail_lt
  have hpos := List.length_pos_iff.mpr hne
  have hbehind : c.behind offset = c.contents.length - offset := rfl
  unfold piece
  omega

omit h in
private theorem place_ends (fuel : Nat) {c : Circle} (h : c.Valid) {data : List UInt8} {offset : UInt64}
    (hr : offset.toNat + data.length ≤ c.contents.length) (hfuel : data.length ≤ fuel) :
    PatchEnds c data offset.toNat ((placeStep data offset >>= resume fuel) c) := by
  induction fuel generalizing c data offset with
  | zero =>
    obtain rfl := List.eq_nil_of_length_eq_zero (Nat.le_zero.mp hfuel)
    have hcell := h.cell_lt (show offset.toNat ≤ c.contents.length by simpa using hr)
    have hzero : c.piece offset.toNat ([] : List UInt8).length = 0 := Nat.min_zero _
    have hstep := placeStep_fits h hr (by omega)
    rw [hzero, List.take_zero, placed_nil, List.length_nil, if_pos rfl] at hstep
    rw [bind_ok hstep]
    refine .done (not_overruns_last (by simp; omega)) (.inl rfl) h ?_ rfl rfl rfl rfl fun _ _ => rfl
    simp [CellRing.overwrite]
  | succ fuel ih =>
    have ho : offset.toNat ≤ c.contents.length := by omega
    have hlt := h.length_lt
    have hcell := h.cell_lt ho
    have hgeometry := h.behind_eq ho
    have hbehind : c.behind offset.toNat = c.contents.length - offset.toNat := rfl
    by_cases hstuck : data ≠ [] ∧ c.behind offset.toNat + 1 = c.data.mem.length
    · rw [place_stuck h hr hstuck.1 hstuck.2]
      exact .stuck hstuck.1 hstuck.2
    have hfree : data = [] ∨ c.behind offset.toNat + 1 ≠ c.data.mem.length := by
      by_cases hne : data = []
      · exact .inl hne
      · exact .inr fun hfull => hstuck ⟨hne, hfull⟩
    rcases Nat.lt_or_ge c.data.mem.length
      (c.cell offset.toNat + c.piece offset.toNat data.length) with hover | hfit
    · rw [bind_error (placeStep_overruns h hr hover)]
      exact .overrun (overruns_now hcell h.tail_lt hgeometry hover)
    obtain ⟨n, hn⟩ : ∃ n, n = c.piece offset.toNat data.length := ⟨_, rfl⟩
    have hle : n ≤ data.length := hn ▸ Nat.min_le_right _ _
    have hstep := placeStep_fits h hr hfit
    rw [← hn] at hstep hfit
    have hrest := h.rest hr hle hfit
    rw [bind_ok hstep]
    by_cases hall : n = data.length
    · rw [if_pos hall]
      refine .done (not_overruns_last (by omega)) hfree hrest.valid ?_ rfl rfl hrest.size rfl hrest.frame
      rw [hrest.bytes, hall, List.take_length]
    · rw [if_neg hall]
      have hne : data ≠ [] := fun hnil => hall (by rw [hnil] at hle ⊢; exact Nat.le_zero.mp hle)
      have hroom := hfree.resolve_left hne
      have hpos : 0 < n := hn ▸ h.piece_pos hr hne hroom
      have hends := ih hrest.valid hrest.inside (by rw [List.length_drop]; omega)
      have hnext := overruns_next hcell h.tail_lt hgeometry
        (show data.length ≤ c.behind offset.toNat by omega) (by omega)
        (by rw [← piece, ← hn]; omega) (by rw [← piece, ← hn]; omega)
      rw [← piece, ← hn, ← hrest.next, ← hrest.left, ← List.length_drop, ← hrest.size] at hnext
      have hrun : (resume (fuel + 1) (some (data.drop n, offset + UInt64.ofNat n)))
        (c.placed offset.toNat (data.take n)) =
          (placeStep (data.drop n) (offset + UInt64.ofNat n) >>= resume fuel)
            (c.placed offset.toNat (data.take n)) := by
        change writeFuel (fuel + 1) _ _ _ = _
        rw [writeFuel_succ]
        exact bind_of_eq (writeStep_patch hrest.valid hrest.inside)
      rw [hrun]
      revert hends
      generalize (placeStep (data.drop n) (offset + UInt64.ofNat n) >>= resume fuel)
        (c.placed offset.toNat (data.take n)) = result
      intro hends
      cases hends with
      | stuck _ hfull => exact absurd hfull (by rw [hrest.left, hrest.size]; omega)
      | overrun hover => exact .overrun (hrest.size ▸ hnext.mpr hover)
      | done hsafe _ hv' hc' hhead' htail' hsize' hmax' hframe' =>
        refine .done (fun hover => hsafe (hnext.mp (hrest.size ▸ hover))) hfree hv' ?_ hhead' htail'
          (hsize'.trans hrest.size) hmax'
          fun k hdead =>
            (hframe' k (mt (hrest.live_iff (by rw [List.length_take]; omega) k).mp hdead)).trans
            (hrest.frame k hdead)
        have htake : (data.take n).length = n := by rw [List.length_take, Nat.min_eq_left hle]
        have hpieces : CellRing.overwrite
            (CellRing.overwrite c.contents offset.toNat (data.take n)) _ (data.drop n) = _ :=
          Slices.overwrite_pieces _ _ (by rw [htake, List.length_drop]; omega)
        rw [htake, List.take_append_drop] at hpieces
        rw [hc', hrest.bytes, hrest.moved]
        exact hpieces

end Patch

section Append

/-- The ring after `written(n)`, before the bytes are there. -/
def announced (c : Circle) (n : UInt64) : Circle := { c with tail := (c.tail + n) % c.getSize }

/-- An append for which every call is made as the one before: it fills an empty
ring, or one that it has grown, to the last cell. -/
def AppendStuck (c : Circle) (count : Nat) : Prop :=
  0 < count ∧ c.contents = [] ∧
    ∃ j, count + 1 = c.data.mem.length * 4 ^ j ∧ (j = 0 ∨ c.data.mem.length * 4 ^ j < c.data.maxSize.toNat)

/-- An append without growth that copies past the physical end. -/
def AppendOverruns (c : Circle) (count : Nat) : Prop :=
  c.contents.length + count < c.data.mem.length ∧ Overruns c.data.mem.length c.tail.toNat count count

/-- How an append ends. Only a refused growth is an exception, and it changes nothing that is live. -/
inductive AppendEnds (c : Circle) (data : List UInt8) : EStateM.Result Fault Circle Unit → Prop
  | refused {c' : Circle} (hsafe : ¬ c.AppendOverruns data.length) (hfree : ¬ c.AppendStuck data.length) (hv : c'.Valid)
      (hc : c'.contents = c.contents) : AppendEnds c data (.error (.thrown .writeNoSpace) c')
  | stuck {c' : Circle} (hstuck : c.AppendStuck data.length) : AppendEnds c data (.error .diverged c')
  | overrun {c' : Circle} (hover : c.AppendOverruns data.length) : AppendEnds c data (.error .outOfBounds c')
  | done {c' : Circle} (hsafe : ¬ c.AppendOverruns data.length) (hfree : ¬ c.AppendStuck data.length) (hv : c'.Valid)
      (hc : c'.contents = c.contents ++ data) : AppendEnds c data (.ok () c')

/-- An append for which the ring is large enough, or may get so. -/
def Admits (c : Circle) (count : Nat) : Prop :=
  ∃ j, c.contents.length + count < c.data.mem.length * 4 ^ j ∧
    (j = 0 ∨ c.data.mem.length * 4 ^ j < c.data.maxSize.toNat)

/-- An append of `more` bytes after one of `count` bytes that copies past the physical end. -/
def OverrunsAfter (c : Circle) (count more : Nat) : Prop :=
  c.contents.length + (count + more) < c.data.mem.length ∧
    Overruns c.data.mem.length (c.cell (c.contents.length + count)) more more

structure Extended (c : Circle) (count : Nat) (c' : Circle) : Prop where
  admits : c.Admits count
  next : ∀ more, 0 < more → (c'.Admits more ↔ c.Admits (count + more))
  overruns : ∀ more, c'.AppendOverruns more ↔ c.OverrunsAfter count more

inductive AppendSettles (c : Circle) (data : List UInt8) : EStateM.Result Fault Circle Unit → Prop
  | refused {c' : Circle} (hfar : 0 < data.length → ¬ c.Admits data.length) (hv : c'.Valid)
      (hc : c'.contents = c.contents) : AppendSettles c data (.error (.thrown .writeNoSpace) c')
  | stuck {c' : Circle} (hstuck : c.AppendStuck data.length) : AppendSettles c data (.error .diverged c')
  | overrun {c' : Circle} (hover : c.AppendOverruns data.length) : AppendSettles c data (.error .outOfBounds c')
  | done {c' : Circle} (hsafe : ¬ c.AppendOverruns data.length) (hfree : ¬ c.AppendStuck data.length) (hv : c'.Valid)
      (hc : c'.contents = c.contents ++ data) (hext : c.Extended data.length c') :
        AppendSettles c data (.ok () c')

theorem admits_of_stuck {c : Circle} {count : Nat} (h : c.AppendStuck count) : c.Admits count := by
  obtain ⟨-, hnil, j, hj, hreach⟩ := h
  refine ⟨j, ?_, hreach⟩
  rw [hnil, List.length_nil]
  omega

theorem admits_of_overruns {c : Circle} {count : Nat} (h : c.AppendOverruns count) : c.Admits count := by
  refine ⟨0, ?_, .inl rfl⟩
  rw [Nat.pow_zero, Nat.mul_one]
  exact h.1

theorem not_overruns_zero {size place : Nat} (h : place < size) : ¬ Overruns size place 0 0 := by
  rintro ⟨hcross, -⟩
  omega

theorem AppendSettles.ends {c : Circle} (h : c.Valid) {data : List UInt8}
    {result : EStateM.Result Fault Circle Unit}
    (hsettles : AppendSettles c data result) : AppendEnds c data result := by
  cases hsettles with
  | refused hfar hv hc =>
    refine .refused (fun hover => ?_) (fun hstuck => hfar hstuck.1 (admits_of_stuck hstuck)) hv hc
    have htail := h.tail_lt
    have hcross := hover.2.1
    exact hfar (by omega) (admits_of_overruns hover)
  | stuck hstuck => exact .stuck hstuck
  | overrun hover => exact .overrun hover
  | done hsafe hfree hv hc _ => exact .done hsafe hfree hv hc

variable {c : Circle} (h : c.Valid)
include h

theorem Valid.announced {n : UInt64} (hn : c.contents.length + n.toNat < c.data.mem.length) :
    (c.announced n).Valid ∧ (c.announced n).contents.length = c.contents.length + n.toNat ∧
      (c.announced n).contents.take c.contents.length = c.contents := by
  have hs := h.toNat_getSize
  have hl := h.size_le
  have ht := h.tail_lt
  have hh := h.head_lt
  have htail : (c.announced n).tail.toNat = CellRing.wrap c.data.mem.length (c.tail.toNat + n.toNat) := by
    change ((c.tail + n) % c.getSize).toNat = _
    rw [UInt64.toNat_mod, toNat_add_of_lt (by omega), hs, CellRing.wrap_eq_mod (by omega)]
  have hv : (c.announced n).Valid := by
    refine ⟨h.pow, h.growth, h.head_lt, ?_⟩
    rw [htail]
    exact CellRing.wrap_lt (n := c.data.mem.length) (by omega)
  have hcount : (c.announced n).contents.length = c.contents.length + n.toNat := by
    have hold : c.contents.length = if c.head.toNat ≤ c.tail.toNat then c.tail.toNat - c.head.toNat
        else c.tail.toNat + c.data.mem.length - c.head.toNat := h.count_eq.symm
    have hnew : (c.announced n).contents.length = if c.head.toNat ≤
      (c.announced n).tail.toNat then (c.announced n).tail.toNat - c.head.toNat
        else (c.announced n).tail.toNat + c.data.mem.length - c.head.toNat := hv.count_eq.symm
    rcases Nat.lt_or_ge (c.tail.toNat + n.toNat) c.data.mem.length with hin | hover
    · rw [CellRing.wrap, if_pos hin] at htail
      split at hold <;> split at hnew <;> omega
    · rw [CellRing.wrap, if_neg (by omega)] at htail
      split at hold <;> split at hnew <;> omega
  refine ⟨hv, hcount, ?_⟩
  have hlen := hv.length_contents
  have hlen' := h.length_contents
  change (((c.data.mem.drop c.head.toNat ++ c.data.mem).take (c.announced n).getCount.toNat).take
    c.contents.length) = _
  rw [List.take_take, Nat.min_eq_left (by omega), hlen']
  rfl

/-- An append that fits, at the capacity the ring has. -/
theorem append_placed {data : List UInt8}
    (hfits : c.contents.length + data.length < c.data.mem.length) {fuel : Nat}
    (hfuel : data.length ≤ fuel) :
    PatchEnds (c.announced (UInt64.ofNat data.length)) data c.contents.length
      ((placeStep data c.getCount >>= resume fuel) (c.announced (UInt64.ofNat data.length))) := by
  have hl := h.size_le
  have hcount : (UInt64.ofNat data.length).toNat = data.length := toNat_ofNat_of_lt (by omega)
  obtain ⟨hv, hlen, -⟩ := h.announced (n := UInt64.ofNat data.length) (by omega)
  have hends : PatchEnds _ data c.getCount.toNat _ :=
    place_ends fuel hv (by rw [hlen, hcount, h.length_contents]) hfuel
  rw [← h.length_contents] at hends
  exact hends

private theorem Valid.cell_end : c.cell c.contents.length = c.tail.toNat := by
  have htail := (c.ring h).tail_eq
  rw [h.count_eq] at htail
  exact htail.symm

omit h in
theorem quadrupled_pow (n j : Nat) : n * 4 ^ (j + 1) = 4 * n * 4 ^ j := by
  rw [Nat.pow_succ]
  ring

omit h in
theorem one_le_pow_four (j : Nat) : 1 ≤ 4 ^ j := Nat.one_le_pow _ _ (by decide)

omit h in
/-- What an append that fits leaves to the next one. -/
theorem extended_of_fits {count : Nat} {c' : Circle} (hfits : c.contents.length + count < c.data.mem.length)
    (hlen : c'.contents.length = c.contents.length + count) (hsize : c'.data.mem.length = c.data.mem.length)
    (hmax : c'.data.maxSize = c.data.maxSize) (htail : c'.tail.toNat = c.cell (c.contents.length + count)) :
    c.Extended count c' := by
  refine ⟨⟨0, by rwa [Nat.pow_zero, Nat.mul_one], .inl rfl⟩, fun more _ => ?_, fun more => ?_⟩
  · rw [Admits, Admits, hlen, hsize, hmax, Nat.add_assoc]
  · rw [AppendOverruns, OverrunsAfter, hlen, hsize, htail, Nat.add_assoc]

private theorem append_fits {data : List UInt8}
    (hfits : c.contents.length + data.length < c.data.mem.length) {fuel : Nat}
    (hfuel : data.length ≤ fuel) :
    AppendSettles c data ((placeStep data c.getCount >>= resume fuel)
      (c.announced (UInt64.ofNat data.length))) := by
  have hl := h.size_le
  have hcount : (UInt64.ofNat data.length).toNat = data.length := toNat_ofNat_of_lt (by omega)
  obtain ⟨hv, hlen, htake⟩ := h.announced (n := UInt64.ofNat data.length) (by omega)
  rw [hcount] at hlen
  have hends := append_placed h hfits hfuel
  have hbehind : (c.announced (UInt64.ofNat data.length)).behind c.contents.length = data.length := by
    rw [behind, hlen]
    omega
  have hcell : (c.announced (UInt64.ofNat data.length)).cell c.contents.length = c.tail.toNat := h.cell_end
  have hsize : (c.announced (UInt64.ofNat data.length)).data.mem.length = c.data.mem.length := rfl
  have hsafe (hnot : ¬ Overruns c.data.mem.length c.tail.toNat data.length data.length) :
      ¬ c.AppendOverruns data.length :=
    fun hover => hnot hover.2
  revert hends
  generalize (placeStep data c.getCount >>= resume fuel) (c.announced (UInt64.ofNat data.length)) = result
  intro hends
  cases hends with
  | stuck hne hfull =>
    rw [hbehind, hsize] at hfull
    refine .stuck ⟨List.length_pos_iff.mpr hne, List.eq_nil_of_length_eq_zero (by omega), 0, ?_, .inl rfl⟩
    rw [Nat.pow_zero, Nat.mul_one, hfull]
  | overrun hover =>
    rw [hbehind, hcell, hsize] at hover
    exact .overrun ⟨hfits, hover⟩
  | @done c' hnot hfree hv' hc' _ htail' hsize' hmax' =>
    rw [hbehind, hcell, hsize] at hnot
    rw [hbehind, hsize] at hfree
    have hlen' : c'.contents.length = c.contents.length + data.length := by
      rw [hc', CellRing.length_overwrite (by omega), hlen]
    refine .done (hsafe hnot) ?_ hv' ?_ (extended_of_fits hfits hlen' (hsize'.trans hsize) hmax' ?_)
    · rintro ⟨hpos, -, j, hj, -⟩
      have hfour := one_le_pow_four j
      have hle : c.data.mem.length * 1 ≤ c.data.mem.length * 4 ^ j := Nat.mul_le_mul_left _ hfour
      refine hfree.elim (fun hnil => ?_) fun hroom => hroom (by omega)
      rw [hnil] at hpos
      exact Nat.lt_irrefl _ hpos
    · rw [hc', CellRing.overwrite, htake, List.drop_of_length_le (by omega), List.append_nil]
    · rw [htail']
      exact (hv.cell_end.symm.trans (congrArg (c.announced (UInt64.ofNat data.length)).cell hlen)).trans rfl

omit h in
/-- Growth puts the contents at the start of the array. -/
theorem expand_head : Triple (fun _ => True) expand (fun _ c => c.head = 0) (fun _ => True) := by
  unfold expand
  refine Triple.look fun c _ => Triple.ite (fun _ => Triple.throw fun _ h => h) fun _ => ?_
  have hany {x : EStateM Fault Circle (List UInt8)} : Triple (fun _ => True) x (fun _ _ => True)
      (fun _ => True) :=
    ⟨fun _ _ => trivial, fun _ _ => trivial⟩
  have hstore {x : EStateM Fault Circle Data} : Triple (fun _ => True) x (fun _ _ => True) (fun _ => True) :=
    ⟨fun _ _ => trivial, fun _ _ => trivial⟩
  refine Triple.bind hstore fun fresh => Triple.bind hany fun first => Triple.bind hstore fun fresh => ?_
  refine Triple.ite (fun _ => Triple.modify fun _ _ => rfl) fun _ => ?_
  exact Triple.bind hany fun second => Triple.bind hstore fun fresh => Triple.modify fun _ _ => rfl

omit h in
private theorem unfit_of_pos {count : Nat}
    (hunfit : c.data.mem.length ≤ c.contents.length + count ∨ c.Full) (hpos : 0 < count) :
    c.data.mem.length ≤ c.contents.length + count := by
  refine hunfit.elim id fun hfull => ?_
  unfold Full at hfull
  omega

section Grown
variable {d : Circle} {count : Nat} (hc : d.contents = c.contents)
  (hsize : d.data.mem.length = 4 * c.data.mem.length)
  (hmax : d.data.maxSize = c.data.maxSize) (hgrew : 4 * c.data.mem.length < c.data.maxSize.toNat)
  (hunfit : c.data.mem.length ≤ c.contents.length + count ∨ c.Full)
include hc hsize hmax hgrew hunfit

omit h in
private theorem appendStuck_grown : c.AppendStuck count ↔ d.AppendStuck count := by
  have hpow (j : Nat) : d.data.mem.length * 4 ^ j = c.data.mem.length * 4 ^ (j + 1) := by
    rw [hsize, quadrupled_pow]
  constructor
  · rintro ⟨hpos, hnil, j, hj, hreach⟩
    refine ⟨hpos, hc.trans hnil, ?_⟩
    have hbig := unfit_of_pos hunfit hpos
    rw [hnil, List.length_nil, Nat.zero_add] at hbig
    cases j with
    | zero => omega
    | succ j =>
      exact ⟨j, by
        rw [hpow]; exact hj,
        .inr (by rw [hpow, hmax]; exact hreach.resolve_left (Nat.succ_ne_zero j))⟩
  · rintro ⟨hpos, hnil, j, hj, hreach⟩
    refine ⟨hpos, hc.symm.trans hnil, j + 1, by rw [← hpow]; exact hj, .inr ?_⟩
    rw [← hpow, ← hmax]
    refine hreach.elim (fun hzero => ?_) id
    rw [hzero, Nat.pow_zero, Nat.mul_one, hsize, hmax]
    exact hgrew

omit h in
private theorem admits_grown (hpos : 0 < count) : c.Admits count ↔ d.Admits count := by
  have hpow (j : Nat) : d.data.mem.length * 4 ^ j = c.data.mem.length * 4 ^ (j + 1) := by
    rw [hsize, quadrupled_pow]
  have hbig := unfit_of_pos hunfit hpos
  constructor
  · rintro ⟨j, hj, hreach⟩
    cases j with
    | zero =>
      rw [Nat.pow_zero, Nat.mul_one] at hj
      omega
    | succ j =>
      exact ⟨j, by
        rw [hc, hpow]; exact hj,
        .inr (by rw [hpow, hmax]; exact hreach.resolve_left (Nat.succ_ne_zero j))⟩
  · rintro ⟨j, hj, hreach⟩
    refine ⟨j + 1, by rw [← hc, ← hpow]; exact hj, .inr ?_⟩
    rw [← hpow, ← hmax]
    refine hreach.elim (fun hzero => ?_) id
    rw [hzero, Nat.pow_zero, Nat.mul_one, hsize, hmax]
    exact hgrew

omit hc hmax hgrew in
/-- A ring that had to grow has its contents at the start, and the next append does not come round the end. -/
theorem not_overrunsAfter_grown (hhead : d.head = 0) (more : Nat) :
    ¬ c.OverrunsAfter count more ∧ ¬ d.OverrunsAfter count more := by
  constructor
  · rintro ⟨hfits, hcross, -⟩
    rcases hunfit with hbig | hfull
    · omega
    · unfold Full at hfull
      have hcell := h.cell_lt (show c.contents.length + count ≤ c.contents.length by omega)
      omega
  · rintro ⟨hfits, hcross, -⟩
    rw [cell, hhead, UInt64.toNat_zero, Nat.zero_add, CellRing.wrap, if_pos (by omega)] at hcross
    omega

/-- An append that was not settled at the first capacity goes on at the next. -/
theorem AppendSettles.of_grown {data : List UInt8} (hcount : count = data.length)
    {result : EStateM.Result Fault Circle Unit}
    (hv : d.Valid) (hhead : d.head = 0) (hends : AppendSettles d data result) :
    AppendSettles c data result := by
  subst hcount
  have hstuck := appendStuck_grown hc hsize hmax hgrew hunfit
  have hadmits (more : Nat) (hpos : 0 < data.length + more) : c.Admits (data.length + more) ↔
      d.Admits (data.length + more) :=
    admits_grown hc hsize hmax hgrew (hunfit.imp_left fun hle => by omega) hpos
  have hnever := not_overrunsAfter_grown h hsize hunfit hhead
  cases hends with
  | refused hfar hv' hc' => exact .refused (fun hpos => mt (hadmits 0 hpos).mp (hfar hpos)) hv' (hc'.trans hc)
  | stuck hs => exact .stuck (hstuck.mpr hs)
  | overrun hover =>
    have hend := hv.cell_end
    rw [cell, hhead, UInt64.toNat_zero, Nat.zero_add, CellRing.wrap, if_pos hv.length_lt] at hend
    exact absurd hover.2.1 (by have := hover.1; omega)
  | done _ hfree hv' hc' hext =>
    refine .done ?_ (mt hstuck.mp hfree) hv' (by rw [hc', hc]) ⟨?_, fun more hpos => ?_, fun more => ?_⟩
    · rintro ⟨hfits, hcross, -, -⟩
      have htail := h.tail_lt
      have := unfit_of_pos hunfit (by omega)
      omega
    · rcases Nat.eq_zero_or_pos data.length with hzero | hpos
      · rw [hzero]
        exact ⟨0, by rw [Nat.pow_zero, Nat.mul_one]; exact h.length_lt, .inl rfl⟩
      · exact (hadmits 0 hpos).mpr hext.admits
    · rw [hext.next more hpos, hadmits more (by omega)]
    · rw [hext.overruns more]
      exact iff_of_false (hnever more).2 (hnever more).1

end Grown

private theorem getSpace_notFull (hnotfull : ¬ c.Full) :
    getSpace c = .ok (countOf (c.tail + 1) c.head c.getSize) c := by
  have hout := getSpace_outcome h
  revert hout
  generalize getSpace c = result
  intro hout
  cases hout with
  | same _ => rfl
  | grown hfull => exact absurd hfull hnotfull
  | refused hfull => exact absurd hfull hnotfull

private theorem Valid.toNat_getSpace :
    (countOf (c.tail + 1) c.head c.getSize).toNat = c.data.mem.length - 1 - c.contents.length := by
  rw [h.toNat_space, CellRing.room, h.count_eq]
  rfl

/-- The space query of a full ring grows it or is refused. -/
theorem getSpace_full (hfull : c.Full) :
    (∃ d, getSpace c = .ok (countOf (d.tail + 1) d.head d.getSize) d ∧ d.Valid ∧ d.contents = c.contents ∧
      d.data.mem.length = 4 * c.data.mem.length ∧ d.data.maxSize = c.data.maxSize ∧ d.head = 0 ∧
      4 * c.data.mem.length < c.data.maxSize.toNat) ∨
    getSpace c = .error (.thrown .writeNoSpace) c ∧ c.data.maxSize.toNat ≤ 4 * c.data.mem.length := by
  have hrun : getSpace c = (expand >>= fun _ =>
      spaceFuel (fun c => countOf (c.tail + 1) c.head c.getSize) 63) c := by
    rw [getSpace, spaceFuel, get_bind, if_neg (not_not.mpr ((space_eq_zero h).mpr hfull))]
  rw [hrun]
  rcases Nat.lt_or_ge (4 * c.data.mem.length) c.data.maxSize.toNat with hgrew | hmax
  · obtain ⟨d, hexpand, hv, hc, hsize, hmax⟩ := expand_spec h hgrew
    have hlt := h.length_lt
    have hpos : countOf (d.tail + 1) d.head d.getSize ≠ 0 := by
      rw [Ne, space_eq_zero hv, Full, hc, hsize]
      omega
    rw [bind_ok hexpand, spaceFuel_of_pos hpos]
    exact .inl ⟨d, rfl, hv, hc, hsize, hmax, expand_head.returns trivial hexpand, hgrew⟩
  · rw [bind_error (expand_refused h hmax)]
    exact .inr ⟨rfl, hmax⟩

omit h in
theorem writeStep_append {data : List UInt8} {space : UInt64} {d : Circle}
    (hspace : getSpace c = .ok space d) :
    writeStep data noOffset c =
      if space < UInt64.ofNat data.length then (expand >>= fun _ => pure (some (data, noOffset))) d
      else placeStep data d.getCount (d.announced (UInt64.ofNat data.length)) := by
  rw [writeStep, if_neg (not_not.mpr rfl), bind_ok hspace]
  split
  · rfl
  · rw [get_bind]
    exact bind_ok rfl

/-- A ring that would have to grow and may not. -/
theorem append_refused {data : List UInt8} (hmax : c.data.maxSize.toNat ≤ 4 * c.data.mem.length)
    (hunfit : c.data.mem.length ≤ c.contents.length + data.length ∨ c.Full) :
    AppendSettles c data (.error (.thrown .writeNoSpace) c) := by
  refine .refused ?_ h rfl
  rintro hpos ⟨j, hj, hreach⟩
  have hbig := unfit_of_pos hunfit hpos
  cases j with
  | zero =>
    rw [Nat.pow_zero, Nat.mul_one] at hj
    omega
  | succ j =>
    have hfour := one_le_pow_four j
    have hle : 4 * c.data.mem.length * 1 ≤ 4 * c.data.mem.length * 4 ^ j := Nat.mul_le_mul_left _ hfour
    have hgrow := hreach.resolve_left (Nat.succ_ne_zero j)
    rw [quadrupled_pow] at hgrow
    omega

/-- Every append ends in one of these ways, given a call for every byte and every growth. -/
theorem append_settles (e : Nat) {data : List UInt8} (hdata : data.length < 2 ^ 64) {fuel : Nat}
    (hfuel : data.length + e < fuel)
    (he : 2 ^ 30 < c.data.mem.length * 4 ^ e) : AppendSettles c data (writeFuel fuel data noOffset c) := by
  induction e generalizing c fuel with
  | zero =>
    have hl := h.size_le
    omega
  | succ e ih =>
    obtain ⟨f, rfl⟩ : ∃ f, fuel = f + 1 := ⟨fuel - 1, by omega⟩
    rw [writeFuel_succ]
    have hcount : (UInt64.ofNat data.length).toNat = data.length := toNat_ofNat_of_lt hdata
    have hat (d : Circle) (hv : d.Valid) (hnotfull : ¬ d.Full)
      (hd : 2 ^ 30 < d.data.mem.length * 4 ^ (e + 1)) :
        AppendSettles d data ((writeStep data noOffset >>= resume f) d) := by
      have hspace := getSpace_notFull hv hnotfull
      have hroom := hv.toNat_getSpace
      have hlt := hv.length_lt
      have hstep : writeStep data noOffset d = _ := writeStep_append hspace
      by_cases hshort : countOf (d.tail + 1) d.head d.getSize < UInt64.ofNat data.length
      · rw [if_pos hshort] at hstep
        rw [UInt64.lt_iff_toNat_lt, hcount, hroom] at hshort
        rw [bind_of_eq hstep, bind_assoc]
        rcases Nat.lt_or_ge (4 * d.data.mem.length) d.data.maxSize.toNat with hgrew | hmax
        · obtain ⟨d', hexpand, hv', hc', hsize', hmax'⟩ := expand_spec hv hgrew
          rw [bind_ok hexpand]
          have hends : AppendSettles d' data (writeFuel f data noOffset d') :=
            ih hv' (by omega) (by rw [hsize', ← quadrupled_pow]; exact hd)
          exact AppendSettles.of_grown hv hc' hsize' hmax' hgrew (.inl (by omega)) rfl hv'
            (expand_head.returns trivial hexpand) hends
        · rw [bind_error (expand_refused hv hmax)]
          exact append_refused hv hmax (.inl (by omega))
      · rw [if_neg hshort] at hstep
        rw [UInt64.lt_iff_toNat_lt, hcount, hroom] at hshort
        rw [bind_of_eq hstep]
        exact append_fits hv (by omega) (by omega)
    by_cases hfull : c.Full
    · rcases getSpace_full h hfull with ⟨d, hspace, hv, hc, hsize, hmax, hhead, hgrew⟩ | ⟨hspace, hmax⟩
      · have hlt := h.length_lt
        have hd : ¬ d.Full := by
          unfold Full
          rw [hc, hsize]
          omega
        have hsame : writeStep data noOffset c = writeStep data noOffset d :=
          (writeStep_append hspace).trans (writeStep_append (getSpace_notFull hv hd)).symm
        have hends := hat d hv hd (by rw [hsize, Nat.mul_assoc]; omega)
        rw [bind_of_eq hsame]
        exact AppendSettles.of_grown h hc hsize hmax hgrew (.inr hfull) rfl hv hhead hends
      · have hstep : writeStep data noOffset c = .error (.thrown .writeNoSpace) c := by
          rw [writeStep, if_neg (not_not.mpr rfl), bind_error hspace]
        rw [bind_error hstep]
        exact append_refused h hmax (.inr hfull)
    · exact hat c h hfull he

/-- Every append, as `write` makes it. -/
theorem write_append_settles (data : List UInt8) (hdata : data.length < 2 ^ 64) :
    AppendSettles c data (write data noOffset c) := by
  refine append_settles h 16 hdata (by omega) ?_
  have hpos : 1 ≤ c.data.mem.length := Nat.lt_of_le_of_lt (Nat.zero_le _) h.head_lt
  calc 2 ^ 30 < 1 * 4 ^ 16 := by decide
    _ ≤ c.data.mem.length * 4 ^ 16 := Nat.mul_le_mul_right _ hpos

theorem write_append_ends {data : List UInt8} (hdata : data.length < 2 ^ 64) :
    AppendEnds c data (write data noOffset c) :=
  (write_append_settles h data hdata).ends h

/-- Every patch inside the contents, as `write` makes it. -/
theorem write_patch_ends {data : List UInt8} {offset : UInt64}
    (hr : offset.toNat + data.length ≤ c.contents.length) :
    PatchEnds c data offset.toNat (write data offset c) := by
  rw [write, writeFuel_succ, bind_of_eq (writeStep_patch h hr)]
  exact place_ends _ h hr (by omega)

end Append

private theorem not_appendOverruns_of_stuck {c : Circle} {count : Nat} (h : c.AppendStuck count) :
    ¬ c.AppendOverruns count := by
  rintro ⟨hfits, -, hfree, -⟩
  obtain ⟨-, -, j, hj, -⟩ := h
  have hfour := one_le_pow_four j
  have hle : c.data.mem.length * 1 ≤ c.data.mem.length * 4 ^ j := Nat.mul_le_mul_left _ hfour
  omega

/-- What an append is to do: the bytes follow the contents, and no byte is stored outside the array. -/
def Appended (c : Circle) (data : List UInt8) : EStateM.Result Fault Circle Unit → Prop
  | .ok _ c' => c'.contents = c.contents ++ data
  | .error fault _ => fault ≠ .outOfBounds

/-- What a patch is to do. -/
def Patched (c : Circle) (data : List UInt8) (offset : Nat) : EStateM.Result Fault Circle Unit → Prop
  | .ok _ c' => c'.contents = CellRing.overwrite c.contents offset data ∧ c'.getCount = c.getCount
  | .error fault _ => fault ≠ .outOfBounds

end Circle

/-- An append and a patch do what they are to do unless they come round the
physical end and none of their pieces stops there. -/
theorem circle_write_exact_iff {c : Circle} (h : c.Valid) {data : List UInt8} (hdata : data.length < 2 ^ 64) :
    (c.Appended data (Circle.write data noOffset c) ↔ ¬ c.AppendOverruns data.length) ∧
    ∀ offset : UInt64, offset.toNat + data.length ≤ c.getCount.toNat →
      (c.Patched data offset.toNat (Circle.write data offset c) ↔
        ¬ Circle.Overruns c.data.mem.length (c.cell offset.toNat) (c.behind offset.toNat) data.length) := by
  constructor
  · have hends := Circle.write_append_ends h hdata
    revert hends
    generalize Circle.write data noOffset c = result
    intro hends
    cases hends with
    | refused hsafe _ _ _ => exact iff_of_true (fun he => nomatch he) hsafe
    | stuck hstuck => exact iff_of_true (fun he => nomatch he) (Circle.not_appendOverruns_of_stuck hstuck)
    | overrun hover => exact iff_of_false (fun hnot => hnot rfl) (not_not.mpr hover)
    | done hsafe _ _ hc => exact iff_of_true hc hsafe
  · intro offset hr
    rw [← h.length_contents] at hr
    have hends := Circle.write_patch_ends h hr
    revert hends
    generalize Circle.write data offset c = result
    intro hends
    cases hends with
    | stuck hne hfull => exact iff_of_true (fun he => nomatch he) fun hover => absurd hover.2.1 (by omega)
    | overrun hover => exact iff_of_false (fun hnot => hnot rfl) (not_not.mpr hover)
    | done hsafe _ hv hc _ _ _ _ _ =>
      refine iff_of_true ⟨hc, ?_⟩ hsafe
      rw [← UInt64.toNat_inj, ← hv.length_contents, hc, CellRing.length_overwrite hr, h.length_contents]

def seamRing : Circle := ⟨⟨List.replicate 8 0, 100⟩, 6, 6⟩

theorem seamRing_valid : seamRing.Valid := by
  refine ⟨⟨3, by decide, rfl⟩, fun j hj => ?_, by decide, by decide⟩
  have hj : 8 * 4 ^ j < 100 := hj
  change 8 * 4 ^ j ≤ 2 ^ 30
  omega

/-- Five bytes across the end: the first piece stops there. -/
theorem circle_write_exact_five :
    seamRing.Appended [1, 2, 3, 4, 5] (Circle.write [1, 2, 3, 4, 5] noOffset seamRing) := by
  refine (circle_write_exact_iff seamRing_valid (by decide)).1.mpr fun hover => ?_
  exact hover.2.2.2 1 (by decide)

/-- Four bytes across the end: the first piece is three bytes long, and two fit. -/
theorem circle_write_overruns : seamRing.Valid ∧ Circle.write [1, 2, 3, 4] noOffset seamRing =
      .error .outOfBounds { seamRing with tail := 2 } ∧
    ¬ seamRing.Appended [1, 2, 3, 4] (Circle.write [1, 2, 3, 4] noOffset seamRing) := by
  have hwrite : Circle.write [1, 2, 3, 4] noOffset seamRing =
      .error .outOfBounds { seamRing with tail := 2 } := by decide +kernel
  refine ⟨seamRing_valid, hwrite, ?_⟩
  rw [hwrite]
  exact fun hnot => hnot rfl

/-- A capacity, now and after growth, that the free-space helper can compute with. -/
def Circle.FitsInt (c : Circle) : Prop :=
  c.data.mem.length ≤ 2 ^ 30 ∧ ∀ j, c.data.mem.length * 4 ^ j < c.data.maxSize.toNat →
    c.data.mem.length * 4 ^ j ≤ 2 ^ 30

/-- A call of `circle::write`. -/
structure WriteCall where
  ring : Circle
  data : List UInt8
  offset : UInt64

namespace WriteCall
open SimpleNetwork.Circle

/-- The call makes the second one as its recursive call. -/
def Calls (x y : WriteCall) : Prop := writeStep x.data x.offset x.ring = .ok (some (y.data, y.offset)) y.ring

/-- Bytes have been copied, or the ring has been grown. -/
def Advances (x y : WriteCall) : Prop :=
  y.data.length < x.data.length ∨ y.data = x.data ∧ x.ring.data.mem.length < y.ring.data.mem.length

/-- Some number of nested calls is enough. -/
def Ends (x : WriteCall) : Prop := ∃ fuel, ∀ c, writeFuel fuel x.data x.offset x.ring ≠ .error .diverged c

/-- An append that fills a ring from empty to full, or a patch at the front of a full ring. -/
def Stuck (x : WriteCall) : Prop :=
  (x.offset = noOffset ∧ x.ring.AppendStuck x.data.length) ∨
    (x.offset ≠ noOffset ∧ x.data ≠ [] ∧ x.ring.behind x.offset.toNat + 1 = x.ring.data.mem.length)

/-- An append, or a patch inside the contents. -/
def InPlace (x : WriteCall) : Prop :=
  x.offset = noOffset ∨ x.offset.toNat + x.data.length ≤ x.ring.contents.length

def Proper (x : WriteCall) : Prop := x.ring.Valid ∧ x.data.length < 2 ^ 64 ∧ x.InPlace

variable {x y : WriteCall}

/-- More nested calls do not change an outcome. -/
theorem writeFuel_more {fuel : Nat} {data : List UInt8} {offset : UInt64} {c : Circle}
    (hends : ∀ c', writeFuel fuel data offset c ≠ .error .diverged c') :
    writeFuel (fuel + 1) data offset c = writeFuel fuel data offset c := by
  induction fuel generalizing data offset c with
  | zero => exact absurd rfl (hends c)
  | succ fuel ih =>
    rw [writeFuel_succ (fuel + 1)]
    rw [writeFuel_succ fuel] at hends ⊢
    cases hstep : writeStep data offset c with
    | error e c' => rw [bind_error hstep, bind_error hstep]
    | ok next c' =>
      rw [bind_ok hstep] at hends ⊢
      rw [bind_ok hstep]
      cases next with
      | none => rfl
      | some call => exact ih hends

private theorem writeFuel_add {fuel : Nat} {data : List UInt8} {offset : UInt64} {c : Circle}
    (hends : ∀ c', writeFuel fuel data offset c ≠ .error .diverged c') (n : Nat) :
    writeFuel (fuel + n) data offset c = writeFuel fuel data offset c := by
  induction n with
  | zero => rfl
  | succ n ih =>
    rw [← ih] at hends
    exact (writeFuel_more hends).trans ih

private theorem Proper.ends_iff (h : x.Proper) : x.Ends ↔ ¬ x.Stuck := by
  obtain ⟨hv, hdata, hplace⟩ := h
  constructor
  · rintro ⟨fuel, hends⟩ hstuck
    have hsame := writeFuel_add hends (x.data.length + 64)
    rw [← hsame] at hends
    rcases hstuck with ⟨happend, hstuck⟩ | ⟨hpatch, hne, hfull⟩
    · have hpos : 1 ≤ x.ring.data.mem.length := Nat.lt_of_le_of_lt (Nat.zero_le _) hv.head_lt
      have hout : AppendEnds x.ring x.data
          (writeFuel (fuel + (x.data.length + 64)) x.data x.offset x.ring) := by
        rw [happend]
        exact (append_settles hv 16 hdata (by omega)
          (Nat.lt_of_lt_of_le (by decide) (Nat.mul_le_mul_right (4 ^ 16) hpos))).ends hv
      revert hends hout
      generalize writeFuel (fuel + (x.data.length + 64)) x.data x.offset x.ring = result
      intro hends hout
      cases hout with
      | refused _ hfree => exact hfree hstuck
      | stuck => exact hends _ rfl
      | overrun hover => exact not_appendOverruns_of_stuck hstuck hover
      | done _ hfree => exact hfree hstuck
    · have hr := hplace.resolve_left hpatch
      rw [← Nat.add_assoc, writeFuel_succ, bind_of_eq (writeStep_patch hv hr)] at hends
      exact hends _ (place_stuck hv hr hne hfull _)
  · intro hfree
    refine ⟨x.data.length + 64, fun c hdiverged => hfree ?_⟩
    by_cases happend : x.offset = noOffset
    · have hout := write_append_ends hv hdata
      rw [happend] at hdiverged
      rw [write, hdiverged] at hout
      cases hout with
      | stuck hstuck => exact .inl ⟨happend, hstuck⟩
    · have hout := write_patch_ends hv (hplace.resolve_left happend)
      rw [write, hdiverged] at hout
      cases hout with
      | stuck hne hfull => exact .inr ⟨happend, hne, hfull⟩

/-- A piece that is not the last leaves a proper call that is not stuck. -/
theorem advances_placed {c : Circle} (h : c.Valid) {data : List UInt8} {offset : UInt64}
    (hdata : data.length < 2 ^ 64)
    (hr : offset.toNat + data.length ≤ c.contents.length)
    (hfree : data ≠ [] → c.behind offset.toNat + 1 ≠ c.data.mem.length)
    (hcall : placeStep data offset c = .ok (some (y.data, y.offset)) y.ring) :
    y.Proper ∧ ¬ y.Stuck ∧ y.data.length < data.length := by
  rcases Nat.lt_or_ge c.data.mem.length
    (c.cell offset.toNat + c.piece offset.toNat data.length) with hover | hfit
  · rw [placeStep_overruns h hr hover] at hcall
    cases hcall
  obtain ⟨n, hn⟩ : ∃ n, n = c.piece offset.toNat data.length := ⟨_, rfl⟩
  have hle : n ≤ data.length := hn ▸ Nat.min_le_right _ _
  rw [placeStep_fits h hr hfit, ← hn] at hcall
  rw [← hn] at hfit
  split at hcall
  · cases hcall
  · rename_i hmore
    have hne : data ≠ [] := fun hnil => hmore (by rw [hnil] at hle ⊢; exact Nat.le_zero.mp hle)
    have hpos : 0 < n := hn ▸ h.piece_pos hr hne (hfree hne)
    have hrest := h.rest hr hle hfit
    have hlt := h.length_lt
    obtain ⟨hnext, hring⟩ := EStateM.Result.ok.inj hcall
    obtain ⟨hdata', hoffset'⟩ := Prod.mk.inj (Option.some.inj hnext)
    rw [Proper, InPlace, Stuck, ← hdata', ← hoffset', ← hring, List.length_drop]
    refine ⟨⟨hrest.valid, by omega, .inr ?_⟩, ?_, by omega⟩
    · rw [← List.length_drop]
      exact hrest.inside
    · have hinside := hrest.inside
      rintro (⟨happend, -⟩ | ⟨-, -, hfull⟩)
      · exact hrest.valid.ne_noOffset (by omega) happend
      · rw [hrest.left, hrest.size] at hfull
        unfold behind at hfull
        omega

private theorem advances_append {d : Circle} (hv : d.Valid) (hnotfull : ¬ d.Full)
    {data : List UInt8} (hdata : data.length < 2 ^ 64)
    (hfree : ¬ d.AppendStuck data.length)
    (hcall : writeStep data noOffset d = .ok (some (y.data, y.offset)) y.ring) :
    y.Proper ∧ ¬ y.Stuck ∧ (y.data.length < data.length ∨ y.data = data ∧
      d.data.mem.length < y.ring.data.mem.length) := by
  have hcount : (UInt64.ofNat data.length).toNat = data.length := toNat_ofNat_of_lt hdata
  have hlt := hv.length_lt
  have hroom := hv.toNat_getSpace
  rw [writeStep_append (getSpace_notFull hv hnotfull)] at hcall
  split at hcall
  · rename_i hshort
    rw [UInt64.lt_iff_toNat_lt, hcount, hroom] at hshort
    rcases Nat.lt_or_ge (4 * d.data.mem.length) d.data.maxSize.toNat with hgrew | hmax
    · obtain ⟨d', hexpand, hv', hc', hsize', hmax'⟩ := expand_spec hv hgrew
      rw [bind_ok hexpand] at hcall
      obtain ⟨hnext, hring⟩ := EStateM.Result.ok.inj hcall
      obtain ⟨hdata', hoffset'⟩ := Prod.mk.inj (Option.some.inj hnext)
      rw [Proper, InPlace, Stuck, ← hdata', ← hoffset', ← hring]
      refine ⟨⟨hv', hdata, .inl rfl⟩, ?_, .inr ⟨rfl, by rw [hsize']; omega⟩⟩
      rintro (⟨-, hstuck⟩ | ⟨hpatch, -⟩)
      · exact hfree ((appendStuck_grown hc' hsize' hmax' hgrew (.inl (by omega))).mpr hstuck)
      · exact hpatch rfl
    · rw [bind_error (expand_refused hv hmax)] at hcall
      cases hcall
  · rename_i hfits
    rw [UInt64.lt_iff_toNat_lt, hcount, hroom] at hfits
    obtain ⟨hv', hlen, -⟩ := hv.announced (n := UInt64.ofNat data.length) (by omega)
    rw [hcount] at hlen
    have hoffset := hv.length_contents
    have hroom' (hne : data ≠ []) : (d.announced (UInt64.ofNat data.length)).behind d.getCount.toNat + 1 ≠
        (d.announced (UInt64.ofNat data.length)).data.mem.length := by
      intro hfull
      have hsize : (d.announced (UInt64.ofNat data.length)).data.mem.length = d.data.mem.length := rfl
      rw [behind, hlen, ← hoffset, hsize] at hfull
      have hpos := List.length_pos_iff.mpr hne
      refine hfree ⟨hpos, List.eq_nil_of_length_eq_zero (by omega), 0, ?_, .inl rfl⟩
      rw [Nat.pow_zero, Nat.mul_one, ← hfull, Nat.add_sub_cancel_left]
    obtain ⟨hproper, hfree', hless⟩ := advances_placed hv' hdata (by omega) hroom' hcall
    exact ⟨hproper, hfree', .inl hless⟩

theorem Proper.advances (h : x.Proper) (hfree : ¬ x.Stuck) (hcall : x.Calls y) :
    y.Proper ∧ ¬ y.Stuck ∧ x.Advances y := by
  obtain ⟨hv, hdata, hplace⟩ := h
  by_cases happend : x.offset = noOffset
  · have hfree : ¬ x.ring.AppendStuck x.data.length := fun hstuck => hfree (.inl ⟨happend, hstuck⟩)
    rw [Calls, happend] at hcall
    by_cases hfull : x.ring.Full
    · rcases getSpace_full hv hfull with ⟨d, hspace, hv', hc, hsize, hmax, -, hgrew⟩ | ⟨hspace, -⟩
      · have hlt := hv.length_lt
        have hd : ¬ d.Full := by
          unfold Full
          rw [hc, hsize]
          omega
        rw [writeStep_append hspace, ← writeStep_append (getSpace_notFull hv' hd)] at hcall
        obtain ⟨hproper, hfree', hmore⟩ := advances_append hv' hd hdata
          (mt (appendStuck_grown hc hsize hmax hgrew (.inr hfull)).mpr hfree) hcall
        exact ⟨hproper, hfree', hmore.imp_right fun hmore => ⟨hmore.1, by omega⟩⟩
      · rw [writeStep, if_neg (not_not.mpr rfl), bind_error hspace] at hcall
        cases hcall
    · exact advances_append hv hfull hdata hfree hcall
  · have hr := hplace.resolve_left happend
    rw [Calls, writeStep_patch hv hr] at hcall
    obtain ⟨hproper, hfree', hless⟩ :=
      advances_placed hv hdata hr (fun hne hfull => hfree (.inr ⟨happend, hne, hfull⟩)) hcall
    exact ⟨hproper, hfree', .inl hless⟩

end WriteCall

/-- On any ring, a patch that the helper gives no space calls itself as it was called. -/
private theorem writeStep_starved {c : Circle} {data : List UInt8} {offset : UInt64}
    (hpatch : offset ≠ noOffset)
    (hroom : ¬ c.getCount < offset + UInt64.ofNat data.length) (hne : UInt64.ofNat data.length ≠ 0)
    (hnone : Circle.continguiousSpaceOf ((c.head + offset) % c.getSize) c.tail c.getSize = 0)
    (hinside : ((c.head + offset) % c.getSize).toNat ≤ c.data.mem.length) :
    Circle.writeStep data offset c = .ok (some (data, offset)) c := by
  have hzero : sizeMin 0 (UInt64.ofNat data.length) = 0 := by
    rw [← UInt64.toNat_inj, toNat_sizeMin]
    exact Nat.zero_min _
  have hstore : c.data.store ((c.head + offset) % c.getSize) [] c = .ok c.data c := by
    rw [Data.store_of_le (by simpa using hinside)]
    simp [CellRing.overwrite]
  rw [Circle.writeStep, if_pos hpatch, get_bind, if_neg hroom, Circle.placeStep, get_bind, hnone, hzero]
  change (c.data.store _ [] >>= _) c = _
  rw [bind_ok hstore, UInt64.sub_zero, if_neg hne, UInt64.add_zero]
  rfl

section Wide
variable {mem : List UInt8} (hlen : mem.length = 2 ^ 32)
include hlen

private theorem wide_count : Circle.getCount ⟨⟨mem, 4294967296⟩, 2, 0⟩ = 4294967294 := by
  change Circle.countOf 2 0 (UInt64.ofNat mem.length) = _
  rw [hlen]
  decide

/-- A byte at the front of a ring of 2^32 cells, all but two of them live. The helper finds
no space: of 2^32 - 1 the `int` keeps -1, and one more is 0. -/
private theorem wide_calls : WriteCall.Calls ⟨⟨⟨mem, 4294967296⟩, 2, 0⟩, [7], 0⟩
    ⟨⟨⟨mem, 4294967296⟩, 2, 0⟩, [7], 0⟩ := by
  have hsize : Circle.getSize ⟨⟨mem, 4294967296⟩, 2, 0⟩ = 4294967296 := congrArg UInt64.ofNat hlen
  refine writeStep_starved (show (0 : UInt64) ≠ noOffset by decide) ?_
    (show UInt64.ofNat 1 ≠ 0 by decide) ?_ ?_
  · rw [wide_count hlen]
    exact (by decide : ¬ (4294967294 : UInt64) < 0 + 1)
  · rw [hsize]
    exact (by decide : Circle.continguiousSpaceOf ((2 + 0) % 4294967296) 0 4294967296 = 0)
  · rw [hsize]
    change ((2 + 0) % 4294967296 : UInt64).toNat ≤ mem.length
    rw [hlen]
    decide

private theorem wide_not_stuck : ¬ WriteCall.Stuck ⟨⟨⟨mem, 4294967296⟩, 2, 0⟩, [7], 0⟩ := by
  rintro (⟨happend, -⟩ | ⟨-, -, hfull⟩)
  · exact absurd happend (show (0 : UInt64) ≠ noOffset by decide)
  · have hle : Circle.behind ⟨⟨mem, 4294967296⟩, 2, 0⟩ 0 ≤
        (Circle.getCount ⟨⟨mem, 4294967296⟩, 2, 0⟩).toNat :=
      Nat.le_trans (Nat.sub_le _ _) (List.length_take_le _ _)
    have hfull : Circle.behind ⟨⟨mem, 4294967296⟩, 2, 0⟩ 0 + 1 = mem.length := hfull
    rw [wide_count hlen] at hle
    have hcount : (4294967294 : UInt64).toNat = 4294967294 := rfl
    omega

end Wide

end SimpleNetwork
