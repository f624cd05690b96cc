import Mathlib.Tactic.Ring
import SimpleNetwork.Buffer.Circle

/-! What the ring's member functions do on valid states, in terms of the queue
of live bytes. Every later proof about a circle goes through these statements. -/
namespace SimpleNetwork
open Words

namespace Circle

/-- Power-of-two capacity, now and at every size growth can reach at most
2^30, and both cursors inside the array. -/
structure Valid (c : Circle) : Prop where
  pow : ∃ k ≤ 30, c.data.mem.length = 2 ^ k
  growth : ∀ j, c.data.mem.length * 4 ^ j < c.data.maxSize.toNat → c.data.mem.length * 4 ^ j ≤ 2 ^ 30
  head_lt : c.head.toNat < c.data.mem.length
  tail_lt : c.tail.toNat < c.data.mem.length

/-- The live bytes in queue order. -/
def contents (c : Circle) : List UInt8 :=
  (c.data.mem.drop c.head.toNat ++ c.data.mem).take c.getCount.toNat

def ring (c : Circle) (h : c.Valid) : CellRing UInt8 :=
  ⟨c.data.mem, c.head.toNat, c.tail.toNat, h.head_lt, h.tail_lt⟩

section Arithmetic
variable {head tail size : UInt64} {k : Nat}

/-- The masked difference is the distance from head to tail around the ring. -/
theorem toNat_countOf (hs : size.toNat = 2 ^ k) (hh : head.toNat ≤ size.toNat)
    (ht : tail.toNat < size.toNat) :
    (countOf head tail size).toNat =
      if head.toNat ≤ tail.toNat then tail.toNat - head.toNat
      else tail.toNat + size.toNat - head.toNat := by
  have hk : k < 64 := (Nat.pow_lt_pow_iff_right (by decide)).mp (hs ▸ size.toNat_lt)
  have hp : (2 : Nat) ^ 64 = 2 ^ k * 2 ^ (64 - k) := by rw [← Nat.pow_add]; congr 1; omega
  have hq : 0 < 2 ^ (64 - k) := Nat.two_pow_pos _
  rw [countOf, toNat_and_pred hs]
  split
  · rw [toNat_sub_of_le ‹_›, Nat.mod_eq_of_lt (by omega)]
  · obtain ⟨m, hm⟩ : ∃ m, 2 ^ (64 - k) = m + 1 := ⟨2 ^ (64 - k) - 1, by omega⟩
    rw [hm, Nat.mul_succ] at hp
    have he : (tail - head).toNat = (tail.toNat + size.toNat - head.toNat) + 2 ^ k * m := by
      have := head.toNat_lt
      rw [UInt64.toNat_sub, Nat.mod_eq_of_lt (by omega)]
      omega
    rw [he, Nat.add_mul_mod_self_left, Nat.mod_eq_of_lt (by omega)]

theorem toNat_continguiousCountOf (hk : k ≤ 30) (hs : size.toNat = 2 ^ k)
    (hh : head.toNat < size.toNat) (ht : tail.toNat < size.toNat) :
    (continguiousCountOf head tail size).toNat =
      min (countOf head tail size).toNat (size.toNat - head.toNat) := by
  have hsize : 2 ^ k ≤ 2 ^ 30 := Nat.pow_le_pow_right (by decide) hk
  have hsub : (size - head).toNat = size.toNat - head.toNat := toNat_sub_of_le (Nat.le_of_lt hh)
  have hlast : toInt (size - head) = ((size.toNat - head.toNat : Nat) : Int) := by
    rw [toInt_of_lt (by omega), hsub]
  have hn : ((tail + ofInt ((size.toNat - head.toNat : Nat) : Int)) &&& (size - 1)).toNat =
      (countOf head tail size).toNat := by
    have ho := toNat_ofInt_natCast (n := size.toNat - head.toNat) (by omega)
    rw [toNat_and_pred hs, toNat_add_of_lt (by omega), ho, toNat_countOf hs (by omega) ht, ← hs,
      CellRing.wrap_eq_mod (by omega)]
    unfold CellRing.wrap
    split <;> split <;> omega
  have hc : (countOf head tail size).toNat < size.toNat := by
    rw [toNat_countOf hs (by omega) ht]
    split <;> omega
  simp only [continguiousCountOf, hlast]
  rw [toInt_of_lt (by rw [hn]; omega), hn]
  split
  · rw [toNat_ofInt_natCast (by omega)]
    omega
  · rw [toNat_ofInt_natCast (by omega)]
    omega

private theorem toNat_continguiousSpaceOf (hk : k ≤ 30) (hs : size.toNat = 2 ^ k)
    (hh : head.toNat < size.toNat) (ht : tail.toNat < size.toNat) :
    (continguiousSpaceOf head tail size).toNat =
      min (size.toNat - 1 - (countOf head tail size).toNat) (size.toNat - tail.toNat) := by
  have hsize : 2 ^ k ≤ 2 ^ 30 := Nat.pow_le_pow_right (by decide) hk
  have hpred : (size - 1).toNat = size.toNat - 1 := toNat_pred (by omega)
  have hsub : (size - 1 - tail).toNat = size.toNat - 1 - tail.toNat := by
    rw [toNat_sub_of_le (by omega), hpred]
  have hlast : toInt (size - 1 - tail) = ((size.toNat - 1 - tail.toNat : Nat) : Int) := by
    rw [toInt_of_lt (by omega), hsub]
  have hn : ((ofInt ((size.toNat - 1 - tail.toNat : Nat) : Int) + head) &&& (size - 1)).toNat =
      size.toNat - 1 - (countOf head tail size).toNat := by
    have ho := toNat_ofInt_natCast (n := size.toNat - 1 - tail.toNat) (by omega)
    rw [toNat_and_pred hs, toNat_add_of_lt (by omega), ho, toNat_countOf hs (by omega) ht, ← hs,
      CellRing.wrap_eq_mod (by omega)]
    unfold CellRing.wrap
    split <;> split <;> omega
  simp only [continguiousSpaceOf, hlast]
  rw [toInt_of_lt (by rw [hn]; omega), hn]
  split
  · rw [toNat_ofInt_natCast (by omega)]
    omega
  · have he : ((size.toNat - 1 - tail.toNat : Nat) : Int) + 1 =
        ((size.toNat - tail.toNat : Nat) : Int) := by omega
    rw [he, toNat_ofInt_natCast (by omega)]
    omega

end Arithmetic

section Queries
variable {c : Circle} (h : c.Valid)
include h

theorem Valid.size_le : c.data.mem.length ≤ 2 ^ 30 := by
  obtain ⟨k, hk, hp⟩ := h.pow
  rw [hp]
  exact Nat.pow_le_pow_right (by decide) hk

theorem Valid.toNat_getSize : c.getSize.toNat = c.data.mem.length :=
  toNat_ofNat_of_lt (Nat.lt_of_le_of_lt h.size_le (by decide))

theorem Valid.size_pow : ∃ k ≤ 30, c.getSize.toNat = 2 ^ k := by
  obtain ⟨k, hk, hp⟩ := h.pow
  exact ⟨k, hk, h.toNat_getSize.trans hp⟩

theorem Valid.toNat_getCount : c.getCount.toNat = (c.ring h).count := by
  obtain ⟨k, hk, hp⟩ := h.size_pow
  have hs := h.toNat_getSize
  have hh := h.head_lt
  have ht := h.tail_lt
  rw [getCount, toNat_countOf hp (by omega) (by omega), hs]
  rfl

theorem Valid.contents_eq : c.contents = (c.ring h).toList := by
  rw [contents, h.toNat_getCount]
  rfl

theorem Valid.length_contents : c.contents.length = c.getCount.toNat := by
  rw [h.contents_eq, CellRing.length_toList, h.toNat_getCount]

theorem Valid.length_lt : c.contents.length < c.data.mem.length := by
  rw [h.contents_eq, CellRing.length_toList]
  exact (c.ring h).count_lt

theorem Valid.count_eq : (c.ring h).count = c.contents.length := by
  rw [h.contents_eq, CellRing.length_toList]

theorem Valid.getCount_eq_zero : c.getCount = 0 ↔ c.contents = [] := by
  rw [← UInt64.toNat_inj, ← h.length_contents, UInt64.toNat_zero, List.length_eq_zero_iff]

private theorem Valid.toNat_getContinguiousCount : c.getContinguiousCount.toNat = (c.ring h).liveRun := by
  obtain ⟨k, hk, hp⟩ := h.size_pow
  have hs := h.toNat_getSize
  have hh := h.head_lt
  have ht := h.tail_lt
  have hc := h.toNat_getCount
  rw [getCount] at hc
  rw [getContinguiousCount, toNat_continguiousCountOf hk hp (by omega) (by omega), hc, hs]
  rfl

theorem Valid.toNat_continguiousSpace :
    (continguiousSpaceOf c.head c.tail c.getSize).toNat = (c.ring h).freeRun := by
  obtain ⟨k, hk, hp⟩ := h.size_pow
  have hs := h.toNat_getSize
  have hh := h.head_lt
  have ht := h.tail_lt
  have hc := h.toNat_getCount
  rw [getCount] at hc
  rw [toNat_continguiousSpaceOf hk hp (by omega) (by omega), hc, hs]
  rfl

theorem Valid.toNat_space : (countOf (c.tail + 1) c.head c.getSize).toNat = (c.ring h).room := by
  obtain ⟨k, hk, hp⟩ := h.size_pow
  have hs := h.toNat_getSize
  have hl := h.size_le
  have hh := h.head_lt
  have ht := h.tail_lt
  have h1 : (c.tail + 1).toNat = c.tail.toNat + 1 := toNat_succ (by omega)
  rw [toNat_countOf hp (by omega) (by omega), h1, hs]
  unfold CellRing.room CellRing.count CellRing.size ring
  dsimp only
  split <;> split <;> omega

end Queries

/-- The first block stored in fresh storage. -/
theorem store_fresh {σ : Type} (c : σ) (maxSize size : UInt64) (bytes : List UInt8)
    (hb : bytes.length ≤ size.toNat) :
    (Data.new maxSize size).store 0 bytes c =
      .ok ⟨bytes ++ List.replicate (size.toNat - bytes.length) 0, maxSize⟩ c := by
  rw [Data.store, if_pos (by simpa [Data.new] using hb)]
  simp [Data.new, CellRing.overwrite]

/-- A further block stored right behind the first. -/
theorem store_behind {σ : Type} (c : σ) (maxSize start : UInt64) (front back bytes : List UInt8)
    (hs : start.toNat = front.length) (hb : bytes.length ≤ back.length) :
    (Data.mk (front ++ back) maxSize).store start bytes c =
      .ok ⟨front ++ bytes ++ back.drop bytes.length, maxSize⟩ c := by
  rw [Data.store, if_pos (by rw [hs, List.length_append]; omega), hs, CellRing.overwrite_append]
  rfl

section Updates
variable {c : Circle} (h : c.Valid)
include h

theorem Valid.reset : (c.reset).Valid ∧ (c.reset).contents = [] := by
  have hpos : 0 < c.data.mem.length := Nat.lt_of_le_of_lt (Nat.zero_le _) h.head_lt
  have hv : (c.reset).Valid := ⟨h.pow, h.growth, hpos, hpos⟩
  refine ⟨hv, ?_⟩
  rw [hv.contents_eq, CellRing.toList_eq_nil_iff]
  simp [CellRing.count, ring, Circle.reset]

theorem remove_spec {n : UInt64} (hn : n.toNat ≤ c.contents.length) :
    ∃ c', remove n c = .ok () c' ∧ c'.Valid ∧ c'.contents = c.contents.drop n.toNat ∧ c'.data = c.data := by
  have hs := h.toNat_getSize
  have hl := h.size_le
  have hlt := h.length_lt
  have hh := h.head_lt
  have hcount : n.toNat ≤ (c.ring h).count := by rw [h.count_eq]; exact hn
  have hhead : ((c.head + n) % c.getSize).toNat = ((c.ring h).advance n.toNat hcount).head := by
    rw [UInt64.toNat_mod, toNat_add_of_lt (by omega), hs, CellRing.wrap_eq_mod (by omega)]
    rfl
  have hv : Valid { c with head := (c.head + n) % c.getSize } :=
    ⟨h.pow, h.growth, by rw [hhead]; exact ((c.ring h).advance n.toNat hcount).head_lt, h.tail_lt⟩
  refine ⟨_, rfl, hv, ?_, rfl⟩
  have hr : ring _ hv = (c.ring h).advance n.toNat hcount := by
    simp only [ring, CellRing.advance, hhead]
  rw [hv.contents_eq, hr, CellRing.toList_advance, h.contents_eq]

/-- Filling the offered window and announcing the bytes appends them. -/
theorem fill_spec (bytes : List UInt8) (hb : bytes.length ≤ (c.ring h).freeRun) :
    ∃ c', (pokeEnd bytes >>= fun _ => written (UInt64.ofNat bytes.length)) c = .ok () c' ∧ c'.Valid ∧
      c'.contents = c.contents ++ bytes ∧ c'.data.mem.length = c.data.mem.length ∧
      c'.data.maxSize = c.data.maxSize := by
  have hs := h.toNat_getSize
  have hl := h.size_le
  have ht := h.tail_lt
  have hfit : c.tail.toNat + bytes.length ≤ c.data.mem.length := by
    have : (c.ring h).freeRun ≤ c.data.mem.length - c.tail.toNat := Nat.min_le_right _ _
    omega
  have hlen : (CellRing.overwrite c.data.mem c.tail.toNat bytes).length = c.data.mem.length :=
    CellRing.length_overwrite hfit
  have hrun : (pokeEnd bytes >>= fun _ => written (UInt64.ofNat bytes.length)) c = .ok ()
      ⟨{ c.data with mem := CellRing.overwrite c.data.mem c.tail.toNat bytes }, c.head,
        (c.tail + UInt64.ofNat bytes.length) % c.getSize⟩ := by
    simp [pokeEnd, written, Data.store, hfit, getSize, Data.getSize, hlen, bind, EStateM.bind]
  have htail : ((c.tail + UInt64.ofNat bytes.length) % c.getSize).toNat =
      ((c.ring h).fill bytes hb).tail := by
    have hn := toNat_ofNat_of_lt (n := bytes.length) (by omega)
    rw [UInt64.toNat_mod, toNat_add_of_lt (by omega), hs, hn, CellRing.wrap_eq_mod (by omega)]
    rfl
  have hv : Valid ⟨{ c.data with mem := CellRing.overwrite c.data.mem c.tail.toNat bytes }, c.head,
        (c.tail + UInt64.ofNat bytes.length) % c.getSize⟩ := by
    refine ⟨?_, ?_, ?_, ?_⟩
    · rw [hlen]; exact h.pow
    · rw [hlen]; exact h.growth
    · rw [hlen]; exact h.head_lt
    · rw [htail]; exact ((c.ring h).fill bytes hb).tail_lt
  refine ⟨_, hrun, hv, ?_, hlen, rfl⟩
  have hr : ring _ hv = (c.ring h).fill bytes hb := by
    simp only [ring, CellRing.fill, htail]
  rw [hv.contents_eq, hr, CellRing.toList_fill, h.contents_eq]

/-- A contiguous load inside the live range returns queue bytes. -/
theorem load_spec {σ : Type} (s : σ) (start : UInt64) (k : Nat) (count : UInt64) {n : Nat}
    (hn : count.toNat = n)
    (hstart : start.toNat = CellRing.wrap c.data.mem.length (c.head.toNat + k))
    (hk : k + n ≤ c.contents.length) (hfit : start.toNat + n ≤ c.data.mem.length) :
    c.data.load start count s = .ok ((c.contents.drop k).take n) s := by
  have hslice := (c.ring h).slice_eq k n (by rw [h.count_eq]; exact hk) (by
    change CellRing.wrap c.data.mem.length (c.head.toNat + k) + n ≤ c.data.mem.length
    omega)
  rw [Data.load_of_le (by omega), h.contents_eq, ← hslice, hn, hstart]
  rfl

/-- The run at `get_start()` ends with the live bytes or with the array. -/
theorem Valid.toNat_startRun :
    c.getContinguiousCount.toNat = min c.contents.length (c.data.mem.length - c.head.toNat) := by
  rw [h.toNat_getContinguiousCount, CellRing.liveRun, h.count_eq]
  rfl

/-- The window at `get_end()` ends with the free bytes or with the array. -/
theorem Valid.toNat_endRun : (continguiousSpaceOf c.head c.tail c.getSize).toNat =
    min (c.data.mem.length - 1 - c.contents.length) (c.data.mem.length - c.tail.toNat) := by
  rw [h.toNat_continguiousSpace, CellRing.freeRun, CellRing.room, h.count_eq]
  rfl

theorem peekStart_spec {count : UInt64} (hn : count.toNat ≤ c.getContinguiousCount.toNat) :
    peekStart count c = .ok (c.contents.take count.toNat) c := by
  have hh := h.head_lt
  have hrun := h.toNat_startRun
  have hload := load_spec h c c.head 0 count rfl (by rw [Nat.add_zero, CellRing.wrap, if_pos hh])
    (by omega) (by omega)
  rw [List.drop_zero] at hload
  exact hload

/-- Removing and reading address the same cell. -/
theorem toNat_index {k : UInt64} (hk : k.toNat ≤ c.contents.length) :
    ((c.head + k) % c.getSize).toNat = CellRing.wrap c.data.mem.length (c.head.toNat + k.toNat) := by
  have hs := h.toNat_getSize
  have hl := h.size_le
  have hlt := h.length_lt
  have hh := h.head_lt
  rw [UInt64.toNat_mod, toNat_add_of_lt (by omega), hs, CellRing.wrap_eq_mod (by omega)]

theorem Valid.toNat_quadruple : (c.getSize <<< 2).toNat = 4 * c.data.mem.length := by
  have hl := h.size_le
  have h2 : (2 : UInt64).toNat % 64 = 2 := rfl
  rw [UInt64.toNat_shiftLeft, h2, h.toNat_getSize, Nat.shiftLeft_eq, Nat.mod_eq_of_lt (by omega)]
  omega

theorem expand_refused (hmax : c.data.maxSize.toNat ≤ 4 * c.data.mem.length) :
    expand c = .error (.thrown .writeNoSpace) c := by
  have hge : c.getSize <<< 2 ≥ c.data.maxSize :=
    UInt64.le_iff_toNat_le.mpr (by rw [h.toNat_quadruple]; exact hmax)
  simp [expand, hge]

/-- The contents at the start of an array four times as large. -/
theorem Valid.regrown (hmax : 4 * c.data.mem.length < c.data.maxSize.toNat) {pad : List UInt8}
    (hpad : c.contents.length + pad.length = 4 * c.data.mem.length) :
    (Circle.mk ⟨c.contents ++ pad, c.data.maxSize⟩ 0 c.getCount).Valid ∧
      (Circle.mk ⟨c.contents ++ pad, c.data.maxSize⟩ 0 c.getCount).contents = c.contents := by
  obtain ⟨k, hk, hp⟩ := h.pow
  have hlt := h.length_lt
  have hlen := h.length_contents
  have hv : (Circle.mk ⟨c.contents ++ pad, c.data.maxSize⟩ 0 c.getCount).Valid := by
    refine ⟨⟨k + 2, ?_, ?_⟩, ?_, ?_, ?_⟩
    · have hg := h.growth 1 (by omega)
      have h30 : 2 ^ (k + 2) ≤ 2 ^ 30 := by rw [Nat.pow_add]; omega
      exact (Nat.pow_le_pow_iff_right (by decide)).mp h30
    · rw [List.length_append, hpad, hp, Nat.pow_add]; omega
    · intro j
      have hj : 4 * c.data.mem.length * 4 ^ j = c.data.mem.length * 4 ^ (j + 1) := by rw [Nat.pow_succ]; ring
      rw [List.length_append, hpad, hj]
      exact h.growth (j + 1)
    · rw [List.length_append, UInt64.toNat_zero]; omega
    · rw [List.length_append, ← hlen]; omega
  refine ⟨hv, ?_⟩
  have hr : ring _ hv = (c.ring h).regrow pad (by omega) := by
    simp only [ring, CellRing.regrow, h.toNat_getCount, UInt64.toNat_zero, h.contents_eq]
  rw [hv.contents_eq, hr, CellRing.toList_regrow, h.contents_eq]

/-- The piece that growth copies first: the live run up to the physical end. -/
theorem Valid.toNat_firstPiece : (sizeMin c.getContinguiousCount c.getCount).toNat =
    min c.contents.length (c.data.mem.length - c.head.toNat) := by
  have hlive : (c.ring h).liveRun = min c.contents.length (c.data.mem.length - c.head.toNat) := by
    rw [← h.count_eq]
    rfl
  rw [toNat_sizeMin, h.toNat_getContinguiousCount, hlive, h.length_contents]
  omega

theorem expand_spec (hmax : 4 * c.data.mem.length < c.data.maxSize.toNat) :
    ∃ c', expand c = .ok () c' ∧ c'.Valid ∧ c'.contents = c.contents ∧
      c'.data.mem.length = 4 * c.data.mem.length ∧ c'.data.maxSize = c.data.maxSize := by
  have hlt := h.length_lt
  have hlen := h.length_contents
  have hhl := h.head_lt
  have hguard : ¬ c.getSize <<< 2 ≥ c.data.maxSize := fun hge => by
    have := UInt64.le_iff_toNat_le.mp hge
    rw [h.toNat_quadruple] at this
    omega
  have hpl : c.contents.length + (List.replicate (4 * c.data.mem.length - c.contents.length)
    (0 : UInt8)).length =
      4 * c.data.mem.length := by rw [List.length_replicate]; omega
  obtain ⟨hv, hcont⟩ := h.regrown hmax hpl
  refine ⟨_, ?_, hv, hcont, by rw [List.length_append, hpl], rfl⟩
  obtain ⟨readCount, hr⟩ : ∃ n, n = sizeMin c.getContinguiousCount c.getCount := ⟨_, rfl⟩
  have hrn := h.toNat_firstPiece
  rw [← hr] at hrn
  have hrem : (c.getCount - readCount).toNat = c.contents.length - readCount.toNat := by
    rw [toNat_sub_of_le (by omega), hlen]
  have hfirst : c.data.load c.head readCount c = .ok (c.contents.take readCount.toNat) c := by
    have := load_spec h c c.head 0 readCount rfl
      (by rw [Nat.add_zero, CellRing.wrap, if_pos hhl]) (by omega) (by omega)
    simpa using this
  have hstore := store_fresh c c.data.maxSize (c.getSize <<< 2) (c.contents.take readCount.toNat)
    (by rw [h.toNat_quadruple, List.length_take]; omega)
  have hdata : (Data.alloc c.data.maxSize (c.getSize <<< 2) : EStateM Fault Circle Data) c =
      .ok (Data.new c.data.maxSize (c.getSize <<< 2)) c := by
    have hl := h.size_le
    exact Data.alloc_of_lt (by rw [h.toNat_quadruple]; omega) c
  simp only [expand, Outcome.get_bind, if_neg hguard, ← hr]
  rw [Outcome.bind_ok hdata, Outcome.bind_ok hfirst, Outcome.bind_ok hstore]
  split
  · rename_i hz
    have hall : readCount.toNat = c.contents.length := by
      have := congrArg UInt64.toNat hz
      rw [hrem, UInt64.toNat_zero] at this
      omega
    rw [hall, List.take_length, h.toNat_quadruple]
    rfl
  · have hindex := toNat_index h (k := readCount) (by omega)
    have hwrap : CellRing.wrap c.data.mem.length (c.head.toNat + readCount.toNat) +
        (c.contents.length - readCount.toNat) ≤ c.data.mem.length := by
      unfold CellRing.wrap
      split <;> omega
    have hsecond := load_spec h c _ readCount.toNat _ hrem hindex (by omega) (by rw [hindex]; exact hwrap)
    have htake : (c.contents.drop readCount.toNat).take (c.contents.length - readCount.toNat) =
        c.contents.drop readCount.toNat := List.take_of_length_le (Nat.le_of_eq List.length_drop)
    have hbehind := store_behind c c.data.maxSize readCount (c.contents.take readCount.toNat)
      (List.replicate ((c.getSize <<< 2).toNat - (c.contents.take readCount.toNat).length) 0)
      (c.contents.drop readCount.toNat)
      (by rw [List.length_take]; omega)
      (by rw [List.length_drop, List.length_replicate, List.length_take, h.toNat_quadruple]; omega)
    rw [Outcome.bind_ok hsecond, htake, Outcome.bind_ok hbehind, List.take_append_drop, List.drop_replicate,
      List.length_take, List.length_drop, h.toNat_quadruple]
    have hfill : 4 * c.data.mem.length - min readCount.toNat c.contents.length -
        (c.contents.length - readCount.toNat) = 4 * c.data.mem.length - c.contents.length := by omega
    rw [hfill]
    rfl

end Updates

/-- A space query that sees a positive figure returns it and changes nothing. -/
theorem spaceFuel_of_pos {space : Circle → UInt64} {fuel : Nat} {c : Circle} (hp : space c ≠ 0) :
    spaceFuel space (fuel + 1) c = .ok (space c) c := by
  simp [spaceFuel, hp]

/-- A full ring: every cell but the reserved one is live. -/
def Full (c : Circle) : Prop := c.contents.length + 1 = c.data.mem.length

instance (c : Circle) : Decidable c.Full := inferInstanceAs (Decidable (_ = _))

/-- Outcome of a space query on a valid ring. Growth happens only when the ring
is full, keeps the contents, and leaves a ring that is not full; a refused
growth leaves the ring as it was. -/
inductive SpaceOutcome (space : Circle → UInt64) (c : Circle) : EStateM.Result Fault Circle UInt64 → Prop
  | same (hf : ¬ c.Full) : SpaceOutcome space c (.ok (space c) c)
  | grown {c' : Circle} (hf : c.Full) (hv : c'.Valid) (hc : c'.contents = c.contents)
      (hs : c'.data.mem.length = 4 * c.data.mem.length) (hm : c'.data.maxSize = c.data.maxSize)
      (hlt : 4 * c.data.mem.length < c.data.maxSize.toNat) : SpaceOutcome space c (.ok (space c') c')
  | refused (hf : c.Full) (hm : c.data.maxSize.toNat ≤ 4 * c.data.mem.length) :
      SpaceOutcome space c (.error (.thrown .writeNoSpace) c)

private theorem spaceFuel_outcome {space : Circle → UInt64} (fuel : Nat)
    (hspace : ∀ {c : Circle}, c.Valid → (space c = 0 ↔ c.Full)) {c : Circle} (h : c.Valid) :
    SpaceOutcome space c (spaceFuel space (fuel + 2) c) := by
  by_cases hf : c.Full
  · have hz := (hspace h).mpr hf
    have hrun : spaceFuel space (fuel + 2) c = (expand >>= fun _ => spaceFuel space (fuel + 1)) c := by
      rw [spaceFuel, Outcome.get_bind, if_neg (not_not.mpr hz)]
    rw [hrun]
    rcases Nat.lt_or_ge (4 * c.data.mem.length) c.data.maxSize.toNat with hm | hm
    · obtain ⟨c', he, hv, hc, hs, hmx⟩ := expand_spec h hm
      have hnf : ¬ c'.Full := by
        have := h.length_lt
        unfold Full
        rw [hc, hs]
        omega
      have hp : space c' ≠ 0 := fun h0 => hnf ((hspace hv).mp h0)
      rw [Outcome.bind_ok he, spaceFuel_of_pos hp]
      exact .grown hf hv hc hs hmx hm
    · rw [Outcome.bind_error (expand_refused h hm)]
      exact .refused hf hm
  · have hp : space c ≠ 0 := fun h0 => hf ((hspace h).mp h0)
    rw [spaceFuel_of_pos hp]
    exact .same hf

theorem continguiousSpace_eq_zero {c : Circle} (h : c.Valid) :
    continguiousSpaceOf c.head c.tail c.getSize = 0 ↔ c.Full := by
  have hlt := h.length_lt
  have ht := h.tail_lt
  rw [← UInt64.toNat_inj, h.toNat_continguiousSpace, UInt64.toNat_zero]
  unfold CellRing.freeRun CellRing.room Full
  rw [h.count_eq]
  change min (c.data.mem.length - 1 - c.contents.length) (c.data.mem.length - c.tail.toNat) = 0 ↔ _
  omega

theorem space_eq_zero {c : Circle} (h : c.Valid) :
    countOf (c.tail + 1) c.head c.getSize = 0 ↔ c.Full := by
  have hlt := h.length_lt
  rw [← UInt64.toNat_inj, h.toNat_space, UInt64.toNat_zero]
  unfold CellRing.room Full
  rw [h.count_eq]
  change c.data.mem.length - 1 - c.contents.length = 0 ↔ _
  omega

theorem getContinguiousSpace_outcome {c : Circle} (h : c.Valid) :
    SpaceOutcome (fun c => continguiousSpaceOf c.head c.tail c.getSize) c (getContinguiousSpace c) :=
  spaceFuel_outcome 62 continguiousSpace_eq_zero h

/-- Either the query returns the window of a ring with the same contents, the
same ring unless it was full, or the ring is full and cannot grow. -/
theorem getContinguiousSpace_cases {c : Circle} (h : c.Valid) :
    (∃ d : Circle, getContinguiousSpace c = .ok (continguiousSpaceOf d.head d.tail d.getSize) d ∧ d.Valid ∧
      d.contents = c.contents ∧ (¬ c.Full → d = c)) ∨
    c.Full ∧ getContinguiousSpace c = .error (.thrown .writeNoSpace) c := by
  have hout := getContinguiousSpace_outcome h
  revert hout
  generalize getContinguiousSpace c = result
  intro hout
  cases hout with
  | same hf => exact Or.inl ⟨c, rfl, h, rfl, fun _ => rfl⟩
  | grown hf hv hc _ _ => exact Or.inl ⟨_, rfl, hv, hc, fun hn => absurd hf hn⟩
  | refused hf _ => exact Or.inr ⟨hf, rfl⟩

theorem getSpace_outcome {c : Circle} (h : c.Valid) :
    SpaceOutcome (fun c => countOf (c.tail + 1) c.head c.getSize) c (getSpace c) :=
  spaceFuel_outcome 62 space_eq_zero h

section Read
variable {c : Circle} (h : c.Valid)
include h

/-- The piece one round of `read` copies: the live run from the read position,
cut at the requested count. -/
theorem Valid.toNat_readPiece (offset count : UInt64) (ho : offset.toNat ≤ c.contents.length) :
    (sizeMin (continguiousCountOf ((c.head + offset) % c.getSize) c.tail c.getSize) count).toNat =
      min (min (c.contents.length - offset.toNat)
        (c.data.mem.length - CellRing.wrap c.data.mem.length (c.head.toNat + offset.toNat))) count.toNat := by
  obtain ⟨c', hr, hv, hc, hd⟩ := remove_spec h ho
  have hrun := hv.toNat_getContinguiousCount
  cases hr
  have hindex := toNat_index h ho
  have hcount := hv.count_eq
  rw [hc, List.length_drop] at hcount
  unfold CellRing.liveRun at hrun
  rw [hcount] at hrun
  rw [toNat_sizeMin, ← hindex]
  exact congrArg (min · count.toNat) hrun

/-- A peeking read in range returns the requested slice and changes nothing. -/
theorem readFuel_peek (fuel : Nat) (count offset : UInt64) (hfuel : count.toNat < fuel)
    (hr : offset.toNat + count.toNat ≤ c.contents.length) :
    readFuel fuel count offset true c = .ok ((c.contents.drop offset.toNat).take count.toNat) c := by
  induction fuel generalizing count offset with
  | zero => omega
  | succ fuel ih =>
    have hlt := h.length_lt
    have hl := h.size_le
    have hh := h.head_lt
    have hno : offset ≠ noOffset := by
      rintro rfl
      have : noOffset.toNat = 2 ^ 64 - 1 := rfl
      omega
    have hsum : (offset + count).toNat = offset.toNat + count.toNat := toNat_add_of_lt (by omega)
    have hguard : ¬ c.getCount < offset + count := fun hlt' => by
      have := UInt64.lt_iff_toNat_lt.mp hlt'
      rw [← h.length_contents, hsum] at this
      omega
    obtain ⟨piece, hp⟩ : ∃ n, n = sizeMin
        (continguiousCountOf ((c.head + offset) % c.getSize) c.tail c.getSize) count :=
      ⟨_, rfl⟩
    have hpn := h.toNat_readPiece offset count (by omega)
    rw [← hp] at hpn
    have hindex := toNat_index h (k := offset) (by omega)
    have hwl := CellRing.wrap_lt (n := c.data.mem.length) (i := c.head.toNat + offset.toNat) (by omega)
    have hload := load_spec h c _ offset.toNat piece rfl hindex (by omega) (by omega)
    have hrem : (count - piece).toNat = count.toNat - piece.toNat := toNat_sub_of_le (by omega)
    simp only [readFuel, if_neg hno, Outcome.get_bind, if_neg hguard, ← hp]
    rw [Outcome.bind_ok hload]
    simp only [if_true, Outcome.set_bind]
    split
    · rename_i hz
      have hall : piece.toNat = count.toNat := by
        have := congrArg UInt64.toNat hz
        rw [hrem, UInt64.toNat_zero] at this
        omega
      rw [hall]
      rfl
    · rename_i hz
      have hne : count.toNat - piece.toNat ≠ 0 := fun h0 => hz (UInt64.toNat_inj.mp (hrem.trans h0))
      have hsp : (offset + piece).toNat = offset.toNat + piece.toNat := toNat_add_of_lt (by omega)
      have hstep := ih (count - piece) (offset + piece) (by omega) (by omega)
      rw [Outcome.bind_ok hstep, hsp, hrem, Outcome.pure_run]
      congr 1
      rw [← List.drop_drop, ← List.take_append_drop piece.toNat
        ((c.contents.drop offset.toNat).take count.toNat),
        List.take_take, List.drop_take]
      congr 2
      omega

end Read

/-- A consuming read in range returns the front of the queue and drops it. The
first round comes with the reserved offset, later rounds with offset zero. -/
theorem readFuel_consume (fuel : Nat) {c : Circle} (h : c.Valid) (count offset : UInt64) (peek : Bool)
    (hmode : offset = noOffset ∨ offset = 0 ∧ peek = false) (hfuel : count.toNat < fuel)
    (hr : count.toNat ≤ c.contents.length) :
    ∃ c', readFuel fuel count offset peek c = .ok (c.contents.take count.toNat) c' ∧ c'.Valid ∧
      c'.contents = c.contents.drop count.toNat ∧ c'.data = c.data := by
  induction fuel generalizing c count offset peek with
  | zero => omega
  | succ fuel ih =>
    have hpeek : (if offset = noOffset then false else peek) = false := by
      rcases hmode with rfl | ⟨rfl, rfl⟩ <;> simp
    have hoff : (if offset = noOffset then 0 else offset) = 0 := by
      rcases hmode with rfl | ⟨rfl, rfl⟩ <;> simp
    have h0 : (0 : UInt64).toNat = 0 := UInt64.toNat_zero
    have hguard : ¬ c.getCount < 0 + count := fun hlt' => by
      have := UInt64.lt_iff_toNat_lt.mp hlt'
      rw [← h.length_contents, UInt64.zero_add] at this
      omega
    obtain ⟨piece, hp⟩ : ∃ n, n = sizeMin
        (continguiousCountOf ((c.head + 0) % c.getSize) c.tail c.getSize) count :=
      ⟨_, rfl⟩
    have hpn := h.toNat_readPiece 0 count (by rw [h0]; omega)
    rw [← hp, h0, Nat.add_zero, Nat.sub_zero] at hpn
    have hindex := toNat_index h (k := 0) (by rw [h0]; omega)
    rw [h0, Nat.add_zero] at hindex
    have hhl := h.head_lt
    have hwrap : CellRing.wrap c.data.mem.length c.head.toNat = c.head.toNat := if_pos hhl
    rw [hwrap] at hpn
    have hload := load_spec h c _ 0 piece rfl (by rw [Nat.add_zero]; exact hindex)
      (by omega) (by rw [hindex, hwrap]; omega)
    obtain ⟨c', hrun, hv, hc, hd⟩ := remove_spec h (n := piece) (by omega)
    have hstate : { c with head := (c.head + piece) % c.getSize } = c' := by
      injection hrun
    have hrem : (count - piece).toNat = count.toNat - piece.toNat := toNat_sub_of_le (by omega)
    simp only [readFuel, hpeek, hoff, Outcome.get_bind, if_neg hguard, ← hp]
    rw [Outcome.bind_ok hload]
    simp only [Bool.false_eq_true, if_false, Outcome.set_bind, hstate, List.drop_zero]
    split
    · rename_i hz
      have hall : piece.toNat = count.toNat := by
        have := congrArg UInt64.toNat hz
        rw [hrem, h0] at this
        omega
      exact ⟨c', by rw [hall]; rfl, hv, by rw [hc, hall], hd⟩
    · rename_i hz
      have hne : count.toNat - piece.toNat ≠ 0 := fun hn => hz (UInt64.toNat_inj.mp (hrem.trans hn))
      have hcl : c'.contents.length = c.contents.length - piece.toNat := by rw [hc, List.length_drop]
      obtain ⟨c'', hrun', hv', hc', hd'⟩ := ih hv (count - piece) 0 false
        (Or.inr ⟨rfl, rfl⟩) (by omega) (by omega)
      refine ⟨c'', ?_, hv', ?_, hd'.trans hd⟩
      · rw [Outcome.bind_ok hrun', Outcome.pure_run, hrem, hc]
        congr 1
        rw [← List.take_append_drop piece.toNat (c.contents.take count.toNat), List.take_take, List.drop_take]
        congr 2
        omega
      · rw [hc', hc, List.drop_drop, hrem]
        congr 1
        omega

/-- `read(data, count, offset)` with an offset in range. -/
theorem read_peek {c : Circle} (h : c.Valid) {count offset : UInt64}
    (hr : offset.toNat + count.toNat ≤ c.contents.length) :
    read count offset c = .ok ((c.contents.drop offset.toNat).take count.toNat) c :=
  readFuel_peek h _ count offset (Nat.lt_succ_self _) hr

/-- `read(data, count, -1)` with enough bytes. -/
theorem read_consume {c : Circle} (h : c.Valid) {count : UInt64} (hr : count.toNat ≤ c.contents.length) :
    ∃ c', read count noOffset c = .ok (c.contents.take count.toNat) c' ∧ c'.Valid ∧
      c'.contents = c.contents.drop count.toNat ∧ c'.data = c.data :=
  readFuel_consume _ h count noOffset true (Or.inl rfl) (Nat.lt_succ_self _) hr

/-- A fresh `buffer<>` into which fewer than 1024 bytes have been received. -/
def loaded (bytes : List UInt8) : Circle :=
  ⟨⟨bytes ++ List.replicate (1024 - bytes.length) 0, 409600⟩, 0, UInt64.ofNat bytes.length⟩

theorem loaded_valid (bytes : List UInt8) (hb : bytes.length < 1024) :
    (loaded bytes).Valid ∧ (loaded bytes).contents = bytes := by
  have hlen : (loaded bytes).data.mem.length = 1024 := by
    simp [loaded]
    omega
  have htail : (loaded bytes).tail.toNat = bytes.length := toNat_ofNat_of_lt (by omega)
  have hv : (loaded bytes).Valid := by
    refine ⟨⟨10, by decide, hlen⟩, fun j hj => ?_, ?_, ?_⟩
    · have hm : (loaded bytes).data.maxSize.toNat = 409600 := rfl
      omega
    · rw [hlen]
      exact (by decide : (0 : UInt64).toNat < 1024)
    · omega
  refine ⟨hv, ?_⟩
  have hcount : (loaded bytes).getCount.toNat = bytes.length := by
    rw [hv.toNat_getCount, CellRing.count]
    change (if 0 ≤ (loaded bytes).tail.toNat then (loaded bytes).tail.toNat - 0 else _) = _
    rw [if_pos (Nat.zero_le _), htail, Nat.sub_zero]
  rw [contents, hcount]
  change ((bytes ++ List.replicate (1024 - bytes.length) 0).drop 0 ++ _).take bytes.length = bytes
  rw [List.drop_zero, List.append_assoc, List.take_left]

theorem loaded_nil : loaded [] = freshBuffer := rfl

end Circle
end SimpleNetwork
