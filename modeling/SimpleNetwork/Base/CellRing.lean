import Mathlib.Data.List.Basic
import Mathlib.Tactic.Common

/-! Rings of cells with two cursors. One cell always stays unused, so equal
cursors mean an empty ring; every live range is at most two contiguous pieces. -/
namespace CellRing
variable {α : Type*}

/-- Replace the cells from position `i` on by the given block. -/
def overwrite (cells : List α) (i : Nat) (block : List α) : List α :=
  cells.take i ++ block ++ cells.drop (i + block.length)

@[simp] theorem overwrite_nil (cells : List α) (i : Nat) : overwrite cells i [] = cells := by
  rw [overwrite, List.append_nil, List.length_nil, Nat.add_zero, List.take_append_drop]

theorem length_overwrite {cells block : List α} {i : Nat} (h : i + block.length ≤ cells.length) :
    (overwrite cells i block).length = cells.length := by
  simp only [overwrite, List.length_append, List.length_take, List.length_drop]
  omega

theorem getElem?_overwrite {cells block : List α} {i : Nat} (h : i + block.length ≤ cells.length) (j : Nat) :
    (overwrite cells i block)[j]? =
      if i ≤ j ∧ j < i + block.length then block[j - i]? else cells[j]? := by
  have ht : (cells.take i).length = i := by rw [List.length_take]; omega
  unfold overwrite
  rw [List.append_assoc]
  rcases Nat.lt_or_ge j i with hj | hj
  · rw [List.getElem?_append_left (by omega), List.getElem?_take, if_pos hj, if_neg (by omega)]
  · rw [List.getElem?_append_right (by omega), ht]
    rcases Nat.lt_or_ge (j - i) block.length with hb | hb
    · rw [List.getElem?_append_left hb, if_pos (by omega)]
    · rw [List.getElem?_append_right hb, List.getElem?_drop, if_neg (by omega)]
      congr 1
      omega

theorem overwrite_append (front back block : List α) :
    overwrite (front ++ back) front.length block = front ++ block ++ back.drop block.length := by
  simp [overwrite, List.drop_append]

end CellRing

/-- A ring of cells. The two bounds travel with the value, so a ring whose
cursors left the array cannot be written down. -/
structure CellRing (α : Type*) where
  cells : List α
  head : Nat
  tail : Nat
  head_lt : head < cells.length
  tail_lt : tail < cells.length

namespace CellRing
variable {α : Type*} (r : CellRing α)

def size : Nat := r.cells.length

/-- Reduce an index that lies at most one revolution past the end. -/
def wrap (n i : Nat) : Nat := if i < n then i else i - n

def count : Nat := if r.head ≤ r.tail then r.tail - r.head else r.tail + r.size - r.head

/-- Cells that can still be filled while one cell stays unused. -/
def room : Nat := r.size - 1 - r.count

def liveRun : Nat := min r.count (r.size - r.head)

def freeRun : Nat := min r.room (r.size - r.tail)

def toList : List α := (r.cells.drop r.head ++ r.cells).take r.count

theorem size_pos : 0 < r.size := Nat.lt_of_le_of_lt (Nat.zero_le _) r.head_lt

theorem count_lt : r.count < r.size := by
  have hh := r.head_lt
  have ht := r.tail_lt
  unfold count size
  split <;> omega

theorem room_add_count : r.room + r.count = r.size - 1 := by
  have := r.count_lt
  unfold room
  omega

@[simp] theorem length_toList : r.toList.length = r.count := by
  have h := r.count_lt
  have hh := r.head_lt
  unfold size at h
  simp only [toList, List.length_take, List.length_append, List.length_drop]
  omega

theorem wrap_lt {n i : Nat} (h : i < 2 * n) : wrap n i < n := by
  unfold wrap
  split <;> omega

theorem wrap_eq_mod {n i : Nat} (h : i < 2 * n) : i % n = wrap n i := by
  unfold wrap
  split
  · exact Nat.mod_eq_of_lt ‹_›
  · rw [Nat.mod_eq_sub_mod (by omega), Nat.mod_eq_of_lt (by omega)]

/-- The live cells in queue order, read at their physical places. -/
theorem getElem?_toList (i : Nat) :
    r.toList[i]? = if i < r.count then r.cells[wrap r.size (r.head + i)]? else none := by
  have hh := r.head_lt
  have hc := r.count_lt
  unfold toList wrap size at *
  rw [List.getElem?_take]
  split
  · rcases Nat.lt_or_ge i (r.cells.length - r.head) with hi | hi
    · rw [List.getElem?_append_left (by simpa using hi), List.getElem?_drop, if_pos (by omega)]
    · rw [List.getElem?_append_right (by simpa using hi), List.length_drop, if_neg (by omega)]
      congr 1
      omega
  · rfl

theorem toList_eq_nil_iff : r.toList = [] ↔ r.count = 0 := by
  rw [← List.length_eq_zero_iff, length_toList]

/-- The cursors differ by the count, up to one revolution. -/
theorem tail_eq : r.tail = wrap r.size (r.head + r.count) := by
  have hh := r.head_lt
  have ht := r.tail_lt
  unfold wrap count size
  split <;> split <;> omega

def advance (n : Nat) (h : n ≤ r.count) : CellRing α where
  cells := r.cells
  head := wrap r.size (r.head + n)
  tail := r.tail
  head_lt := by
    have := r.head_lt
    have := r.count_lt
    exact wrap_lt (by unfold size at *; omega)
  tail_lt := r.tail_lt

@[simp] theorem size_advance (n : Nat) (h : n ≤ r.count) : (r.advance n h).size = r.size := rfl

theorem count_advance (n : Nat) (h : n ≤ r.count) : (r.advance n h).count = r.count - n := by
  have hh := r.head_lt
  have ht := r.tail_lt
  revert h
  unfold advance count wrap size
  intro h
  dsimp only at *
  split at h <;> split <;> split <;> omega

theorem toList_advance (n : Nat) (h : n ≤ r.count) : (r.advance n h).toList = r.toList.drop n := by
  have hc := count_advance r n h
  have hl := r.count_lt
  have hh := r.head_lt
  apply List.ext_getElem?
  intro i
  rw [getElem?_toList, List.getElem?_drop, getElem?_toList, hc, size_advance]
  rcases Nat.lt_or_ge i (r.count - n) with hi | hi
  · rw [if_pos hi, if_pos (by omega)]
    congr 1
    unfold advance wrap size at *
    dsimp only
    split <;> split <;> split <;> omega
  · rw [if_neg (by omega), if_neg (by omega)]

def fill (block : List α) (h : block.length ≤ r.freeRun) : CellRing α where
  cells := overwrite r.cells r.tail block
  head := r.head
  tail := wrap r.size (r.tail + block.length)
  head_lt := by
    have := r.head_lt
    have := r.tail_lt
    rw [length_overwrite (by unfold freeRun size at h; omega)]
    assumption
  tail_lt := by
    have ht := r.tail_lt
    rw [length_overwrite (by unfold freeRun size at h; omega)]
    exact wrap_lt (by unfold freeRun size at *; omega)

theorem size_fill (block : List α) (h : block.length ≤ r.freeRun) : (r.fill block h).size = r.size := by
  have := r.tail_lt
  exact length_overwrite (by unfold freeRun size at h; omega)

theorem count_fill (block : List α) (h : block.length ≤ r.freeRun) :
    (r.fill block h).count = r.count + block.length := by
  have hh := r.head_lt
  have ht := r.tail_lt
  have hs := size_fill r block h
  unfold count
  rw [hs]
  unfold fill wrap freeRun room count size at *
  dsimp only
  split at h <;> split <;> split <;> omega

/-- The free window lies inside the array and meets no live cell. -/
theorem freeRun_window (i j : Nat) (hi : i < r.freeRun) (hj : j < r.count) :
    r.tail + i < r.size ∧ r.tail + i ≠ wrap r.size (r.head + j) := by
  have hh := r.head_lt
  have ht := r.tail_lt
  unfold freeRun room count wrap size at *
  split at hi <;> split at hj <;> split <;> omega

theorem toList_fill (block : List α) (h : block.length ≤ r.freeRun) :
    (r.fill block h).toList = r.toList ++ block := by
  have hc := count_fill r block h
  have hs := size_fill r block h
  have hb : r.tail + block.length ≤ r.cells.length := by
    have := r.tail_lt
    unfold freeRun size at h
    omega
  apply List.ext_getElem?
  intro i
  rw [getElem?_toList, hc, hs]
  have hcell : (r.fill block h).cells = overwrite r.cells r.tail block := rfl
  have hhead : (r.fill block h).head = r.head := rfl
  rw [hcell, hhead, getElem?_overwrite hb]
  have hroom : block.length ≤ r.room := Nat.le_trans h (Nat.min_le_left _ _)
  have hsum := r.room_add_count
  have hh := r.head_lt
  have ht := r.tail_eq
  have htl := r.tail_lt
  have hpos := r.size_pos
  rcases Nat.lt_or_ge i r.count with hi | hi
  · rw [if_pos (by omega), List.getElem?_append_left (by simpa using hi), getElem?_toList, if_pos hi, if_neg]
    rintro ⟨hlo, hhi⟩
    have hw := freeRun_window r (wrap r.size (r.head + i) - r.tail) i (by omega) hi
    omega
  · rw [List.getElem?_append_right (by simpa using hi), length_toList]
    rcases Nat.lt_or_ge i (r.count + block.length) with hib | hib
    · have hw : wrap r.size (r.head + i) = r.tail + (i - r.count) := by
        rw [ht]
        unfold wrap size at *
        split <;> split <;> split at ht <;> omega
      rw [if_pos hib, hw, if_pos (by omega), Nat.add_sub_cancel_left]
    · rw [if_neg (by omega), List.getElem?_eq_none (by omega)]

/-- A contiguous piece of the live range is a slice of the array. -/
theorem slice_eq (k n : Nat) (hk : k + n ≤ r.count) (hn : wrap r.size (r.head + k) + n ≤ r.size) :
    (r.cells.drop (wrap r.size (r.head + k))).take n = (r.toList.drop k).take n := by
  have hl := r.count_lt
  have hh := r.head_lt
  apply List.ext_getElem?
  intro i
  rw [List.getElem?_take, List.getElem?_take]
  rcases Nat.lt_or_ge i n with hi | hi
  · rw [if_pos hi, if_pos hi, List.getElem?_drop, List.getElem?_drop, getElem?_toList, if_pos (by omega)]
    congr 1
    revert hn
    unfold wrap size at *
    split <;> split <;> omega
  · rw [if_neg (by omega), if_neg (by omega)]

/-- Replace live cells from the `k`-th on, where they do not cross the physical end. -/
def patch (k : Nat) (block : List α) (hn : wrap r.size (r.head + k) + block.length ≤ r.size) :
    CellRing α where
  cells := overwrite r.cells (wrap r.size (r.head + k)) block
  head := r.head
  tail := r.tail
  head_lt := by rw [length_overwrite hn]; exact r.head_lt
  tail_lt := by rw [length_overwrite hn]; exact r.tail_lt

theorem size_patch (k : Nat) (block : List α) (hn : wrap r.size (r.head + k) + block.length ≤ r.size) :
    (r.patch k block hn).size = r.size := length_overwrite hn

theorem count_patch (k : Nat) (block : List α) (hn : wrap r.size (r.head + k) + block.length ≤ r.size) :
    (r.patch k block hn).count = r.count := by
  unfold count
  rw [size_patch]
  rfl

theorem toList_patch (k : Nat) (block : List α) (hk : k + block.length ≤ r.count)
    (hn : wrap r.size (r.head + k) + block.length ≤ r.size) :
    (r.patch k block hn).toList = overwrite r.toList k block := by
  have hl := r.count_lt
  have hh := r.head_lt
  have hcells : (r.patch k block hn).cells = overwrite r.cells (wrap r.size (r.head + k)) block := rfl
  have hhead : (r.patch k block hn).head = r.head := rfl
  apply List.ext_getElem?
  intro i
  rw [getElem?_toList, count_patch, size_patch, hcells, hhead, getElem?_overwrite hn,
    getElem?_overwrite (by rw [length_toList]; exact hk), getElem?_toList]
  rcases Nat.lt_or_ge i r.count with hi | hi
  · rw [if_pos hi, if_pos hi]
    have hplace : wrap r.size (r.head + k) ≤ wrap r.size (r.head + i) ∧
        wrap r.size (r.head + i) < wrap r.size (r.head + k) + block.length ↔
          k ≤ i ∧ i < k + block.length := by
      revert hn
      unfold wrap size at *
      split <;> split <;> omega
    by_cases hin : k ≤ i ∧ i < k + block.length
    · rw [if_pos (hplace.mpr hin), if_pos hin]
      congr 1
      revert hn
      unfold wrap size at *
      split <;> split <;> omega
    · rw [if_neg (mt hplace.mp hin), if_neg hin]
  · rw [if_neg (by omega), if_neg (by omega), if_neg (by omega)]

def regrow (pad : List α) (h : 0 < pad.length) : CellRing α where
  cells := r.toList ++ pad
  head := 0
  tail := r.count
  head_lt := by simp; omega
  tail_lt := by simp; omega

theorem count_regrow (pad : List α) (h : 0 < pad.length) : (r.regrow pad h).count = r.count := by
  simp [count, regrow]

theorem toList_regrow (pad : List α) (h : 0 < pad.length) : (r.regrow pad h).toList = r.toList := by
  have hl := r.length_toList
  have he : (r.regrow pad h).toList = (r.toList ++ pad ++ (r.toList ++ pad)).take r.count := by
    rw [toList, count_regrow]
    rfl
  rw [he, ← hl, List.append_assoc, List.take_left]

end CellRing
