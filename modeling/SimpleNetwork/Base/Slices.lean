import SimpleNetwork.Base.CellRing

/-! Runs of cells inside a longer list, cut at both ends, joined, and seen
through a block written over the list. -/
namespace Slices
open CellRing (overwrite)
variable {α : Type*} {cells block : List α} {i j n : Nat}

def slice (cells : List α) (i n : Nat) : List α := (cells.drop i).take n

theorem getElem?_slice (k : Nat) : (slice cells i n)[k]? = if k < n then cells[i + k]? else none := by
  rw [slice, List.getElem?_take]
  split
  · rw [List.getElem?_drop]
  · rfl

theorem length_slice (h : i + n ≤ cells.length) : (slice cells i n).length = n := by
  rw [slice, List.length_take, List.length_drop]
  omega

@[simp] theorem slice_zero : slice cells i 0 = [] := List.take_zero

@[simp] theorem slice_nil : slice ([] : List α) i n = [] := by simp [slice]

theorem take_slice {k : Nat} (h : k ≤ n) : (slice cells i n).take k = slice cells i k := by
  rw [slice, List.take_take, Nat.min_eq_left h, slice]

theorem drop_slice (k : Nat) : (slice cells i n).drop k = slice cells (i + k) (n - k) := by
  rw [slice, List.drop_take, List.drop_drop, slice]

/-- Adjacent runs. -/
theorem slice_append (m : Nat) : slice cells i n ++ slice cells (i + n) m = slice cells i (n + m) := by
  rw [slice, slice, slice, List.take_add, List.drop_drop]

section Overwrite
variable (h : i + block.length ≤ cells.length)
include h

theorem slice_overwrite : slice (overwrite cells i block) i block.length = block := by
  apply List.ext_getElem?
  intro k
  rw [getElem?_slice, CellRing.getElem?_overwrite h]
  by_cases hk : k < block.length
  · rw [if_pos hk, if_pos (by omega)]
    congr 1
    omega
  · rw [if_neg hk, List.getElem?_eq_none (by omega)]

/-- A run that the block does not touch. -/
theorem slice_overwrite_of_disjoint (hj : j + n ≤ i ∨ i + block.length ≤ j) :
    slice (overwrite cells i block) j n = slice cells j n := by
  apply List.ext_getElem?
  intro k
  rw [getElem?_slice, getElem?_slice, CellRing.getElem?_overwrite h]
  by_cases hk : k < n
  · rw [if_pos hk, if_pos hk, if_neg (by omega)]
  · rw [if_neg hk, if_neg hk]

/-- A run that the block lies inside. -/
theorem slice_overwrite_inside (hi : j ≤ i) (hn : i + block.length ≤ j + n) (hj : j + n ≤ cells.length) :
    slice (overwrite cells i block) j n = overwrite (slice cells j n) (i - j) block := by
  have hlen := length_slice hj
  apply List.ext_getElem?
  intro k
  rw [getElem?_slice, CellRing.getElem?_overwrite h, CellRing.getElem?_overwrite (by omega), getElem?_slice]
  by_cases hk : k < n
  · rw [if_pos hk, if_pos hk]
    by_cases hin : i ≤ j + k ∧ j + k < i + block.length
    · rw [if_pos hin, if_pos (by omega)]
      congr 1
      omega
    · rw [if_neg hin, if_neg (by omega)]
  · rw [if_neg hk, if_neg hk, if_neg (by omega)]

/-- A run grown by a block written right behind it. -/
theorem slice_grow (hn : j + n = i) :
    slice (overwrite cells i block) j (n + block.length) = slice cells j n ++ block := by
  rw [← slice_append, slice_overwrite_of_disjoint h (.inl (by omega)), hn, slice_overwrite h]

end Overwrite

/-- A block in two pieces, the second right behind the first. -/
theorem overwrite_pieces (front back : List α) (h : i + (front.length + back.length) ≤ cells.length) :
    overwrite (overwrite cells i front) (i + front.length) back = overwrite cells i (front ++ back) := by
  have hlen : (overwrite cells i front).length = cells.length := CellRing.length_overwrite (by omega)
  apply List.ext_getElem?
  intro k
  rw [CellRing.getElem?_overwrite (by omega), CellRing.getElem?_overwrite (by omega),
    CellRing.getElem?_overwrite (by rw [List.length_append]; exact h), List.length_append]
  by_cases hback : i + front.length ≤ k ∧ k < i + front.length + back.length
  · rw [if_pos hback, if_pos (by omega), List.getElem?_append_right (by omega), Nat.sub_add_eq]
  · rw [if_neg hback]
    by_cases hfront : i ≤ k ∧ k < i + front.length
    · rw [if_pos hfront, if_pos (by omega), List.getElem?_append_left (by omega)]
    · rw [if_neg hfront, if_neg (by omega)]

/-- A block over a shorter one. -/
theorem overwrite_over {old : List α} (hold : old.length ≤ block.length)
    (h : i + block.length ≤ cells.length) :
    overwrite (overwrite cells i old) i block = overwrite cells i block := by
  have hlen : (overwrite cells i old).length = cells.length := CellRing.length_overwrite (by omega)
  apply List.ext_getElem?
  intro k
  rw [CellRing.getElem?_overwrite (by omega), CellRing.getElem?_overwrite (by omega),
    CellRing.getElem?_overwrite h]
  by_cases hk : i ≤ k ∧ k < i + block.length
  · rw [if_pos hk, if_pos hk]
  · rw [if_neg hk, if_neg hk, if_neg (by omega)]

/-- A block inside the first of two joined lists. -/
theorem overwrite_append_left (back : List α) (h : i + block.length ≤ cells.length) :
    overwrite (cells ++ back) i block = overwrite cells i block ++ back := by
  rw [overwrite, overwrite, List.take_append_of_le_length (by omega), List.drop_append_of_le_length h]
  simp

/-- A block inside the second of two joined lists. -/
theorem overwrite_append_right (front : List α) :
    overwrite (front ++ cells) (front.length + i) block = front ++ overwrite cells i block := by
  rw [overwrite, overwrite, List.take_length_add_append, Nat.add_assoc, List.drop_length_add_append]
  simp

end Slices
