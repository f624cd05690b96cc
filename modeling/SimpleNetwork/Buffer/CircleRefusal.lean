import SimpleNetwork.Buffer.CircleQueue
import SimpleNetwork.Buffer.CircleWrite

/-! Appends to rings of any power of two that end in an exception. Above 2^31
cells the run helpers, which compute in `int`, may send the first growth outside
the array; whatever they answer, growth that returns has kept the contents. -/
namespace SimpleNetwork
open Outcome Words Slices

namespace Circle

/-- A ring of a power of two of cells, as many as a machine can hold, with both cursors inside. -/
structure PowerOfTwo (c : Circle) : Prop where
  pow : ∃ k, c.data.mem.length = 2 ^ k
  small : c.data.mem.length < 2 ^ 62
  head_lt : c.head.toNat < c.data.mem.length
  tail_lt : c.tail.toNat < c.data.mem.length

theorem Valid.powerOfTwo {c : Circle} (h : c.Valid) : c.PowerOfTwo := by
  obtain ⟨k, -, hp⟩ := h.pow
  have hle := h.size_le
  exact ⟨⟨k, hp⟩, by omega, h.head_lt, h.tail_lt⟩

/-- The live bytes do not cross the physical end, or the run helpers measure them. -/
def Measured (c : Circle) : Prop := c.head.toNat ≤ c.tail.toNat ∨ c.data.mem.length ≤ 2 ^ 31

def firstCopy (c : Circle) : Nat := (sizeMin c.getContinguiousCount c.getCount).toNat

/-- Both copies of `expand()` read from inside the array. -/
def CopiesInside (c : Circle) : Prop :=
  c.head.toNat + c.firstCopy ≤ c.data.mem.length ∧
    (c.head.toNat + c.firstCopy) % c.data.mem.length + (c.contents.length - c.firstCopy) ≤ c.data.mem.length

instance (c : Circle) : Decidable c.CopiesInside := inferInstanceAs (Decidable (_ ∧ _))

/-- `expand()` is refused at the bound or stays inside the array. -/
def GrowsInside (c : Circle) : Prop := c.data.maxSize.toNat ≤ 4 * c.data.mem.length ∨ c.CopiesInside

instance (c : Circle) : Decidable c.GrowsInside := inferInstanceAs (Decidable (_ ∨ _))

structure Quadrupled (c c' : Circle) : Prop where
  valid : c'.PowerOfTwo
  contents_eq : c'.contents = c.contents
  size_eq : c'.data.mem.length = 4 * c.data.mem.length
  maxSize_eq : c'.data.maxSize = c.data.maxSize
  head_eq : c'.head = 0
  size_lt : 4 * c.data.mem.length < c.data.maxSize.toNat

section Counts
variable {c : Circle} (h : c.PowerOfTwo)
include h

theorem PowerOfTwo.toNat_getSize : c.getSize.toNat = c.data.mem.length :=
  toNat_ofNat_of_lt (Nat.lt_trans h.small (by decide))

theorem PowerOfTwo.toNat_getCount : c.getCount.toNat =
    if c.head.toNat ≤ c.tail.toNat then c.tail.toNat - c.head.toNat
    else c.tail.toNat + c.data.mem.length - c.head.toNat := by
  obtain ⟨k, hp⟩ := h.pow
  have hs := h.toNat_getSize
  have hh := h.head_lt
  have ht := h.tail_lt
  rw [← hs]
  exact toNat_countOf (hs.trans hp) (by omega) (by omega)

theorem PowerOfTwo.length_contents : c.contents.length = c.getCount.toNat := by
  have hcount := h.toNat_getCount
  have hh := h.head_lt
  have ht := h.tail_lt
  rw [contents, List.length_take, List.length_append, List.length_drop]
  split at hcount <;> omega

theorem PowerOfTwo.length_lt : c.contents.length < c.data.mem.length := by
  have hcount := h.toNat_getCount
  have hh := h.head_lt
  have ht := h.tail_lt
  rw [h.length_contents]
  split at hcount <;> omega

theorem PowerOfTwo.toNat_space :
    (countOf (c.tail + 1) c.head c.getSize).toNat = c.data.mem.length - 1 - c.contents.length := by
  obtain ⟨k, hp⟩ := h.pow
  have hs := h.toNat_getSize
  have hh := h.head_lt
  have ht := h.tail_lt
  have hsmall := h.small
  have hcount := h.toNat_getCount
  have hnext : (c.tail + 1).toNat = c.tail.toNat + 1 := toNat_succ (by omega)
  rw [toNat_countOf (hs.trans hp) (by omega) (by omega), h.length_contents, hs, hnext]
  split at hcount <;> split <;> omega

theorem PowerOfTwo.toNat_quadruple : (c.getSize <<< 2).toNat = 4 * c.data.mem.length := by
  have hsmall := h.small
  have h2 : (2 : UInt64).toNat % 64 = 2 := rfl
  rw [UInt64.toNat_shiftLeft, h2, h.toNat_getSize, Nat.shiftLeft_eq, Nat.mod_eq_of_lt (by omega)]
  omega

/-- The ring with more bytes announced. -/
theorem PowerOfTwo.announced {n : UInt64} (hn : c.contents.length + n.toNat < c.data.mem.length) :
    (c.announced n).PowerOfTwo ∧ (c.announced n).getCount.toNat = c.contents.length + n.toNat := by
  have hh := h.head_lt
  have ht := h.tail_lt
  have hsmall := h.small
  have hcount := h.toNat_getCount
  have hlen := h.length_contents
  have htail : (c.announced n).tail.toNat = (c.tail.toNat + n.toNat) % c.data.mem.length := by
    change ((c.tail + n) % c.getSize).toNat = _
    rw [UInt64.toNat_mod, h.toNat_getSize, toNat_add_of_lt (by omega)]
  have hv : (c.announced n).PowerOfTwo := ⟨h.pow, hsmall, hh, by rw [htail]; exact Nat.mod_lt _ (by omega)⟩
  refine ⟨hv, ?_⟩
  rw [hv.toNat_getCount, htail, CellRing.wrap_eq_mod (by omega)]
  change (if c.head.toNat ≤ _ then _ - c.head.toNat else _ + c.data.mem.length - c.head.toNat) = _
  unfold CellRing.wrap
  split at hcount <;> split <;> split <;> omega

/-- The piece that growth copies first goes up to the physical end at most, if the helpers measure it. -/
theorem PowerOfTwo.firstPiece (hm : c.Measured) :
    c.head.toNat + (sizeMin c.getContinguiousCount c.getCount).toNat ≤ c.data.mem.length ∧
      (c.tail.toNat < c.head.toNat →
        c.head.toNat + (sizeMin c.getContinguiousCount c.getCount).toNat = c.data.mem.length) := by
  obtain ⟨k, hp⟩ := h.pow
  have hs := h.toNat_getSize
  have hh := h.head_lt
  have ht := h.tail_lt
  have hcount := h.toNat_getCount
  rw [toNat_sizeMin]
  rcases Nat.lt_or_ge c.tail.toNat c.head.toNat with hwrap | hin
  · rw [if_neg (by omega)] at hcount
    have hsize : c.data.mem.length ≤ 2 ^ 31 := hm.resolve_left (by omega)
    have hsub : (c.getSize - c.head).toNat = c.data.mem.length - c.head.toNat := by
      rw [toNat_sub_of_le (by omega), hs]
    have hlast : toInt (c.getSize - c.head) = ((c.data.mem.length - c.head.toNat : Nat) : Int) := by
      rw [toInt_of_lt (by omega), hsub]
    have hn : ((c.tail + ofInt ((c.data.mem.length - c.head.toNat : Nat) : Int)) &&& (c.getSize - 1)).toNat =
        c.getCount.toNat := by
      have ho := toNat_ofInt_natCast (n := c.data.mem.length - c.head.toNat) (by omega)
      rw [toNat_and_pred (hs.trans hp), toNat_add_of_lt (by omega), ho, ← hp, Nat.mod_eq_of_lt (by omega)]
      omega
    have hrun : c.getContinguiousCount.toNat = c.data.mem.length - c.head.toNat := by
      simp only [getContinguiousCount, continguiousCountOf, hlast]
      rw [toInt_of_lt (by rw [hn]; omega), hn]
      split
      · omega
      · exact toNat_ofInt_natCast (by omega)
    have hmin : min c.getContinguiousCount.toNat c.getCount.toNat = c.data.mem.length - c.head.toNat := by
      rw [hrun, hcount]
      exact Nat.min_eq_left (Nat.sub_le_sub_right (Nat.le_add_left _ _) _)
    rw [hmin]
    exact ⟨Nat.le_of_eq (Nat.add_sub_cancel' (Nat.le_of_lt hh)),
      fun _ => Nat.add_sub_cancel' (Nat.le_of_lt hh)⟩
  · rw [if_pos hin] at hcount
    omega

/-- The two pieces of the live bytes, wherever the first one ends. -/
theorem PowerOfTwo.pieces {n : Nat} (hn : n ≤ c.contents.length)
    (hfirst : c.head.toNat + n ≤ c.data.mem.length)
    (hsecond : (c.head.toNat + n) % c.data.mem.length + (c.contents.length - n) ≤ c.data.mem.length) :
    slice c.data.mem c.head.toNat n ++
      slice c.data.mem ((c.head.toNat + n) % c.data.mem.length) (c.contents.length - n) = c.contents := by
  have hsplit : c.contents = ((c.data.mem.drop c.head.toNat ++ c.data.mem).take n) ++
      ((c.data.mem.drop c.head.toNat ++ c.data.mem).drop n).take (c.contents.length - n) := by
    rw [← List.take_add, Nat.add_sub_cancel' hn, h.length_contents]
    rfl
  refine Eq.trans ?_ hsplit.symm
  congr 1
  · rw [List.take_append_of_le_length (by rw [List.length_drop]; omega)]
    rfl
  · rw [List.drop_append_of_le_length (by rw [List.length_drop]; omega), List.drop_drop, slice]
    rcases Nat.eq_or_lt_of_le hfirst with hend | hin
    · rw [hend, Nat.mod_self, List.drop_length]
      rfl
    · rw [Nat.mod_eq_of_lt hin] at hsecond ⊢
      rw [List.take_append_of_le_length (by rw [List.length_drop]; omega)]

/-- A ring with these contents at the front of four times as many cells. -/
theorem PowerOfTwo.quadrupled {mem : List UInt8} (hmem : mem.length = 4 * c.data.mem.length)
    (hlt : 4 * c.data.mem.length < c.data.maxSize.toNat) (hsmall : 4 * c.data.mem.length < 2 ^ 62)
    (hc : slice mem 0 c.contents.length = c.contents) :
    Quadrupled c ⟨⟨mem, c.data.maxSize⟩, 0, c.getCount⟩ := by
  obtain ⟨k, hp⟩ := h.pow
  have hlen := h.length_contents
  have hfits := h.length_lt
  have hv : PowerOfTwo ⟨⟨mem, c.data.maxSize⟩, 0, c.getCount⟩ := by
    refine ⟨⟨k + 2, ?_⟩, ?_, ?_, ?_⟩
    · change mem.length = 2 ^ (k + 2)
      rw [Nat.pow_add, ← hp]
      omega
    · exact hmem ▸ hsmall
    · change 0 < mem.length
      omega
    · change c.getCount.toNat < mem.length
      omega
  refine ⟨hv, ?_, hmem, rfl, rfl, hlt⟩
  have hcount := hv.toNat_getCount
  change _ = if 0 ≤ c.getCount.toNat then c.getCount.toNat - 0 else _ at hcount
  rw [if_pos (Nat.zero_le _)] at hcount
  rw [contents, hcount, Nat.sub_zero, ← hlen]
  change (mem ++ mem).take c.contents.length = _
  rw [List.take_append_of_le_length (by omega)]
  exact hc

/-- How growth ends: refused at the bound, denied by the machine, outside the
array because of what the run helper says, or with the contents kept. -/
inductive Growth (c : Circle) : EStateM.Result Fault Circle Unit → Prop
  | refused (hmax : c.data.maxSize.toNat ≤ 4 * c.data.mem.length) : Growth c (.error (.thrown .writeNoSpace) c)
  | denied (hlt : 4 * c.data.mem.length < c.data.maxSize.toNat) (hlarge : 2 ^ 62 ≤ 4 * c.data.mem.length) :
      Growth c (.error .badAlloc c)
  | outside (hun : ¬ c.CopiesInside) : Growth c (.error .outOfBounds c)
  | grown {c' : Circle} (hin : c.CopiesInside) (hg : Quadrupled c c') : Growth c (.ok () c')

private theorem PowerOfTwo.le_quadruple_iff : c.getSize <<< 2 ≥ c.data.maxSize ↔
    c.data.maxSize.toNat ≤ 4 * c.data.mem.length := by
  rw [ge_iff_le, UInt64.le_iff_toNat_le, h.toNat_quadruple]

theorem PowerOfTwo.expand_refused (hmax : c.data.maxSize.toNat ≤ 4 * c.data.mem.length) :
    expand c = .error (.thrown .writeNoSpace) c := by
  rw [expand, get_bind, if_pos (h.le_quadruple_iff.mpr hmax)]
  exact throw_run _ _

theorem PowerOfTwo.expand_unaffordable (hlt : 4 * c.data.mem.length < c.data.maxSize.toNat)
    (hlarge : 2 ^ 62 ≤ 4 * c.data.mem.length) : expand c = .error .badAlloc c := by
  have hdata : (Data.alloc c.data.maxSize (c.getSize <<< 2) : EStateM Fault Circle Data) c =
      .error .badAlloc c :=
    Data.alloc_denied (by rw [h.toNat_quadruple]; exact hlarge) c
  rw [expand, get_bind, if_neg (mt h.le_quadruple_iff.mp (Nat.not_le.mpr hlt)), bind_error hdata]

/-- Runs that the helpers measure are copied from inside the array. -/
theorem PowerOfTwo.copiesInside (hm : c.Measured) : c.CopiesInside := by
  obtain ⟨n, hn⟩ : ∃ n, n = c.firstCopy := ⟨_, rfl⟩
  obtain ⟨hfirst, hwrap⟩ := h.firstPiece hm
  change c.head.toNat + c.firstCopy ≤ _ at hfirst
  change _ → c.head.toNat + c.firstCopy = _ at hwrap
  rw [CopiesInside, ← hn]
  rw [← hn] at hfirst hwrap
  refine ⟨hfirst, ?_⟩
  have hlen := h.length_contents
  have hcount := h.toNat_getCount
  have hh := h.head_lt
  have ht := h.tail_lt
  rcases Nat.eq_or_lt_of_le hfirst with hend | hin
  · rw [hend, Nat.mod_self]
    split at hcount <;> omega
  · rw [Nat.mod_eq_of_lt hin]
    split at hcount <;> omega

/-- The first piece at the front of the new array and the second behind it. -/
theorem PowerOfTwo.quadrupled_pieces {fresh : List UInt8} (hfresh : fresh.length = 4 * c.data.mem.length)
    (hlt : 4 * c.data.mem.length < c.data.maxSize.toNat) (hsmall : 4 * c.data.mem.length < 2 ^ 62) {n : Nat}
    (hn : n ≤ c.contents.length) (hfirst : c.head.toNat + n ≤ c.data.mem.length)
    (hsecond : (c.head.toNat + n) % c.data.mem.length + (c.contents.length - n) ≤ c.data.mem.length) :
    Quadrupled c ⟨⟨CellRing.overwrite (CellRing.overwrite fresh 0 (slice c.data.mem c.head.toNat n)) n
      (slice c.data.mem ((c.head.toNat + n) % c.data.mem.length) (c.contents.length - n)),
        c.data.maxSize⟩, 0, c.getCount⟩ := by
  have hpieces := h.pieces hn hfirst hsecond
  have hfits := h.length_lt
  obtain ⟨front, hfront⟩ : ∃ front, front = slice c.data.mem c.head.toNat n := ⟨_, rfl⟩
  obtain ⟨back, hback⟩ : ∃ back,
      back = slice c.data.mem ((c.head.toNat + n) % c.data.mem.length) (c.contents.length - n) :=
    ⟨_, rfl⟩
  have hfrontlen : front.length = n := by rw [hfront, length_slice hfirst]
  have hbacklen : back.length = c.contents.length - n := by rw [hback, length_slice hsecond]
  have hstored : (CellRing.overwrite fresh 0 front).length = fresh.length :=
    CellRing.length_overwrite (by omega)
  have hslice : slice (CellRing.overwrite fresh 0 front) 0 n = front := by
    rw [← hfrontlen]
    exact slice_overwrite (by omega)
  rw [← hfront, ← hback] at hpieces ⊢
  refine h.quadrupled ((CellRing.length_overwrite (by omega)).trans (hstored.trans hfresh)) hlt hsmall ?_
  rw [show c.contents.length = n + back.length by
    omega, slice_grow (by omega) (Nat.zero_add _), hslice, hpieces]

theorem growth : Growth c (expand c) := by
  have hquad := h.toNat_quadruple
  have hlen := h.length_contents
  have hfits := h.length_lt
  have hs := h.toNat_getSize
  have hsmall' := h.small
  have hh := h.head_lt
  rcases Nat.lt_or_ge (4 * c.data.mem.length) c.data.maxSize.toNat with hlt | hmax
  swap
  · rw [h.expand_refused hmax]
    exact .refused hmax
  rcases Nat.lt_or_ge (4 * c.data.mem.length) (2 ^ 62) with hsmall | hlarge
  swap
  · rw [h.expand_unaffordable hlt hlarge]
    exact .denied hlt hlarge
  obtain ⟨fresh, hfresh⟩ : ∃ fresh, fresh = List.replicate (c.getSize <<< 2).toNat (0 : UInt8) := ⟨_, rfl⟩
  have hfreshlen : fresh.length = 4 * c.data.mem.length := by rw [hfresh, List.length_replicate, hquad]
  have hdata : (Data.alloc c.data.maxSize (c.getSize <<< 2) : EStateM Fault Circle Data) c =
      .ok ⟨fresh, c.data.maxSize⟩ c := by
    rw [Data.alloc_of_lt (by omega), hfresh]
    rfl
  obtain ⟨n, hn⟩ : ∃ n, n = sizeMin c.getContinguiousCount c.getCount := ⟨_, rfl⟩
  have hcopy : c.firstCopy = n.toNat := congrArg UInt64.toNat hn.symm
  have hle : n.toNat ≤ c.contents.length := by
    rw [hn, toNat_sizeMin, hlen]
    exact Nat.min_le_right _ _
  have hrest : (c.getCount - n).toNat = c.contents.length - n.toNat := by
    rw [toNat_sub_of_le (by omega), hlen]
  have hplace : ((c.head + n) % c.getSize).toNat = (c.head.toNat + n.toNat) % c.data.mem.length := by
    rw [UInt64.toNat_mod, hs, toNat_add_of_lt (by omega)]
  simp only [expand, get_bind, if_neg (mt h.le_quadruple_iff.mp (Nat.not_le.mpr hlt)), ← hn]
  rw [bind_ok hdata]
  rcases Nat.lt_or_ge c.data.mem.length (c.head.toNat + n.toNat) with hout | hfirst
  · rw [bind_error (Data.load_past hout c)]
    exact .outside fun hin => absurd (hcopy ▸ hin.1) (Nat.not_le.mpr hout)
  obtain ⟨front, hfront⟩ : ∃ front, front = slice c.data.mem c.head.toNat n.toNat := ⟨_, rfl⟩
  have hfrontlen : front.length = n.toNat := by rw [hfront, length_slice hfirst]
  have hload : (c.data.load c.head n : EStateM Fault Circle _) c = .ok front c := by
    rw [Data.load_of_le hfirst, hfront]
    rfl
  have hstore : (Data.store ⟨fresh, c.data.maxSize⟩ 0 front : EStateM Fault Circle Data) c =
      .ok ⟨CellRing.overwrite fresh 0 front, c.data.maxSize⟩ c :=
    Data.store_of_le (by change 0 + front.length ≤ fresh.length; omega) c
  rw [bind_ok hload, bind_ok hstore]
  by_cases hall : c.getCount - n = 0
  · have hzero : c.contents.length - n.toNat = 0 := by rw [← hrest, hall]; rfl
    have hgrown := h.quadrupled_pieces hfreshlen hlt hsmall hle hfirst
      (by rw [hzero]; exact Nat.le_of_lt (Nat.mod_lt _ (by omega)))
    rw [hzero, slice_zero, CellRing.overwrite_nil, ← hfront] at hgrown
    rw [if_pos hall]
    refine .grown ⟨hcopy ▸ hfirst, ?_⟩ hgrown
    rw [hcopy, hzero]
    exact Nat.le_of_lt (Nat.mod_lt _ (by omega))
  rw [if_neg hall]
  rcases Nat.lt_or_ge c.data.mem.length
    ((c.head.toNat + n.toNat) % c.data.mem.length + (c.contents.length - n.toNat))
    with hout | hsecond
  · rw [bind_error (Data.load_past (by rw [hplace, hrest]; exact hout) c)]
    exact .outside fun hin => absurd (hcopy ▸ hin.2) (Nat.not_le.mpr hout)
  obtain ⟨back, hback⟩ : ∃ back, back = slice c.data.mem ((c.head.toNat + n.toNat) % c.data.mem.length)
    (c.contents.length - n.toNat) := ⟨_, rfl⟩
  have hbacklen : back.length = c.contents.length - n.toNat := by rw [hback, length_slice hsecond]
  have hload' : (c.data.load ((c.head + n) % c.getSize) (c.getCount - n) : EStateM Fault Circle _)
      c = .ok back c := by
    rw [Data.load_of_le (by rw [hplace, hrest]; exact hsecond), hplace, hrest, hback]
    rfl
  have hstored : (CellRing.overwrite fresh 0 front).length = fresh.length :=
    CellRing.length_overwrite (by omega)
  have hstore' : (Data.store ⟨CellRing.overwrite fresh 0 front, c.data.maxSize⟩ n back : EStateM
    Fault Circle Data) c =
      .ok ⟨CellRing.overwrite (CellRing.overwrite fresh 0 front) n.toNat back, c.data.maxSize⟩ c :=
    Data.store_of_le (by change _ ≤ (CellRing.overwrite fresh 0 front).length; omega) c
  have hgrown := h.quadrupled_pieces hfreshlen hlt hsmall hle hfirst hsecond
  rw [← hfront, ← hback] at hgrown
  rw [bind_ok hload', bind_ok hstore']
  exact .grown ⟨hcopy ▸ hfirst, hcopy ▸ hsecond⟩ hgrown

end Counts

/-- Other bytes in the same array. -/
theorem PowerOfTwo.withMem {c : Circle} (h : c.PowerOfTwo) {mem : List UInt8}
    (hlen : mem.length = c.data.mem.length) :
    PowerOfTwo { c with data := ⟨mem, c.data.maxSize⟩ } ∧
      getCount { c with data := ⟨mem, c.data.maxSize⟩ } = c.getCount := by
  obtain ⟨k, hp⟩ := h.pow
  refine ⟨⟨⟨k, hlen.trans hp⟩, Nat.lt_of_le_of_lt (Nat.le_of_eq hlen) h.small,
    Nat.lt_of_lt_of_le h.head_lt (Nat.le_of_eq hlen.symm),
      Nat.lt_of_lt_of_le h.tail_lt (Nat.le_of_eq hlen.symm)⟩, ?_⟩
  change countOf c.head c.tail (UInt64.ofNat mem.length) = _
  rw [hlen]
  rfl

/-- Bytes have been copied and the cursors are where they were, or a copy went outside the array. -/
theorem placeStep_cases {c : Circle} (h : c.PowerOfTwo) {data : List UInt8}
    (hdata : data.length < 2 ^ 64) (offset : UInt64) :
    (∃ c', placeStep data offset c = .error .outOfBounds c') ∨
    ∃ (n : UInt64) (c' : Circle), n.toNat ≤ data.length ∧ c'.PowerOfTwo ∧ c'.getCount = c.getCount ∧
      (placeStep data offset c = .ok none c' ∨
        placeStep data offset c = .ok (some (data.drop n.toNat, offset + n)) c') := by
  obtain ⟨n, hn⟩ : ∃ n, n = sizeMin (continguiousSpaceOf ((c.head + offset) % c.getSize) c.tail c.getSize)
    (UInt64.ofNat data.length) := ⟨_, rfl⟩
  have hle : n.toNat ≤ data.length := by
    rw [hn, toNat_sizeMin, toNat_ofNat_of_lt hdata]
    exact Nat.min_le_right _ _
  rcases Nat.lt_or_ge c.data.mem.length
    (((c.head + offset) % c.getSize).toNat + (data.take n.toNat).length) with hout | hin
  · have hstore : (c.data.store ((c.head + offset) % c.getSize)
      (data.take n.toNat) : EStateM Fault Circle Data) c =
        .error .outOfBounds c := by
      rw [Data.store, if_neg (by omega)]
      rfl
    refine .inl ⟨c, ?_⟩
    rw [placeStep, get_bind]
    simp only [← hn]
    exact bind_error hstore
  · have hstore := Data.store_of_le hin c
    have hstep : placeStep data offset c =
        (if UInt64.ofNat data.length - n = 0 then pure none else pure (some (data.drop n.toNat, offset + n)) :
          EStateM Fault Circle (Option (List UInt8 × UInt64)))
        { c with data := ⟨CellRing.overwrite c.data.mem ((c.head + offset) % c.getSize).toNat (data.take n.toNat), c.data.maxSize⟩ } := by
      rw [placeStep, get_bind]
      simp only [← hn]
      rw [bind_ok hstore, set_bind]
    obtain ⟨hv, hcount⟩ := h.withMem (CellRing.length_overwrite hin)
    refine .inr ⟨n, _, hle, hv, hcount, ?_⟩
    rw [hstep]
    by_cases hall : UInt64.ofNat data.length - n = 0
    · rw [if_pos hall]
      exact .inl rfl
    · rw [if_neg hall]
      exact .inr rfl

/-- A write inside the contents never ends in an exception. -/
theorem writeFuel_inside {data : List UInt8} (fuel : Nat) {c : Circle} (h : c.PowerOfTwo) {offset : UInt64}
    (hin : offset.toNat + data.length ≤ c.getCount.toNat) {fault : Fault} {c' : Circle}
    (hrun : writeFuel fuel data offset c = .error fault c') : ¬ fault.isException := by
  induction fuel generalizing data offset c with
  | zero =>
    cases hrun
    decide
  | succ fuel ih =>
    have hlen := h.length_contents
    have hlt := h.length_lt
    have hsmall := h.small
    have hcount : (UInt64.ofNat data.length).toNat = data.length := toNat_ofNat_of_lt (by omega)
    have hne : offset ≠ noOffset := by
      rintro rfl
      have : noOffset.toNat = 2 ^ 64 - 1 := rfl
      omega
    have hguard : ¬ c.getCount < offset + UInt64.ofNat data.length := by
      rw [UInt64.lt_iff_toNat_lt, toNat_add_of_lt (by omega), hcount]
      omega
    have hstep : writeStep data offset c = placeStep data offset c := by
      rw [writeStep, if_pos hne, get_bind, if_neg hguard]
    rw [writeFuel_succ, bind_of_eq hstep] at hrun
    rcases placeStep_cases h (show data.length < 2 ^ 64 by omega) offset with
      ⟨d, hplace⟩ | ⟨n, d, hn, hd, hcd, hplace | hplace⟩
    · rw [bind_error hplace] at hrun
      cases hrun
      decide
    · rw [bind_ok hplace] at hrun
      cases hrun
    · rw [bind_ok hplace] at hrun
      refine ih hd ?_ hrun
      rw [hcd, toNat_add_of_lt (by omega), List.length_drop]
      omega

/-- How an append fails: the ring may not grow any more, or the machine denies the growth. -/
structure Refused (c : Circle) (count : Nat) (fault : Fault) (c' : Circle) : Prop where
  valid : c'.PowerOfTwo
  contents_eq : c'.contents = c.contents
  cause : fault = .thrown .writeNoSpace ∧ ¬ c.Admits count ∨ fault = .badAlloc ∧ 2 ^ 62 < c.data.maxSize.toNat

section Refusals
variable {c d : Circle}

/-- A ring that is too short and may not grow. -/
theorem not_admits_of_bound {count : Nat} (hmax : c.data.maxSize.toNat ≤ 4 * c.data.mem.length)
    (hunfit : c.data.mem.length ≤ c.contents.length + count) : ¬ c.Admits count := by
  rintro ⟨j, hj, hreach⟩
  cases j with
  | zero =>
    rw [Nat.pow_zero, Nat.mul_one] at hj
    omega
  | succ j =>
    have hfour := one_le_pow_four j
    have hle : 4 * c.data.mem.length * 1 ≤ 4 * c.data.mem.length * 4 ^ j := Nat.mul_le_mul_left _ hfour
    have hgrow := hreach.resolve_left (Nat.succ_ne_zero j)
    rw [quadrupled_pow] at hgrow
    omega

/-- Growth does not change what a ring that is too short admits. -/
theorem Quadrupled.admits_iff (hg : Quadrupled c d) {count : Nat}
    (hunfit : c.data.mem.length ≤ c.contents.length + count) :
    d.Admits count ↔ c.Admits count := by
  have hpow (j : Nat) : d.data.mem.length * 4 ^ j = c.data.mem.length * 4 ^ (j + 1) := by
    rw [hg.size_eq, quadrupled_pow]
  have hlt := hg.size_lt
  unfold Admits
  rw [hg.contents_eq, hg.maxSize_eq]
  constructor
  · rintro ⟨j, hj, hreach⟩
    rw [hpow] at hj hreach
    refine ⟨j + 1, hj, .inr ?_⟩
    rcases hreach with rfl | hreach
    · rw [quadrupled_pow]
      omega
    · exact hreach
  · rintro ⟨j, hj, hreach⟩
    cases j with
    | zero =>
      rw [Nat.pow_zero, Nat.mul_one] at hj
      omega
    | succ j =>
      rw [← hpow] at hj hreach
      exact ⟨j, hj, .inr (hreach.resolve_left (Nat.succ_ne_zero j))⟩

private theorem Refused.of_quadrupled (hg : Quadrupled c d) {count : Nat}
    (hunfit : c.data.mem.length ≤ c.contents.length + count)
    {fault : Fault} {c' : Circle} (hr : Refused d count fault c') : Refused c count fault c' where
  valid := hr.valid
  contents_eq := hr.contents_eq.trans hg.contents_eq
  cause := by
    have hcause := hr.cause
    rw [hg.admits_iff hunfit, hg.maxSize_eq] at hcause
    exact hcause

private theorem not_full_of_quadrupled (h : c.PowerOfTwo) (hg : Quadrupled c d) : ¬ d.Full := by
  have hlt := h.length_lt
  have hsize := hg.size_eq
  unfold Full
  rw [hg.contents_eq, hsize]
  omega

variable (h : c.PowerOfTwo)
include h

private theorem PowerOfTwo.space_eq_zero_iff : countOf (c.tail + 1) c.head c.getSize = 0 ↔ c.Full := by
  have hlt := h.length_lt
  rw [← UInt64.toNat_inj, h.toNat_space, UInt64.toNat_zero]
  unfold Full
  omega

private theorem PowerOfTwo.getSpace_free (hfree : ¬ c.Full) :
    getSpace c = .ok (countOf (c.tail + 1) c.head c.getSize) c :=
  spaceFuel_of_pos (mt h.space_eq_zero_iff.mp hfree)

/-- With no free cell the space query grows the ring first. -/
theorem PowerOfTwo.getSpace_full (hfull : c.Full) :
    getSpace c = (expand >>= fun _ => spaceFuel (fun c => countOf (c.tail + 1) c.head c.getSize) 63) c := by
  rw [getSpace, spaceFuel, get_bind, if_neg (not_not.mpr (h.space_eq_zero_iff.mpr hfull))]

private theorem PowerOfTwo.quadrupled_of_expand (hexp : expand c = .ok () d) : Quadrupled c d := by
  have hgrowth := growth h
  rw [hexp] at hgrowth
  cases hgrowth with
  | grown _ hg => exact hg

/-- Growth that fails leaves the ring alone. -/
theorem PowerOfTwo.expand_fails {fault : Fault} (hexp : expand c = .error fault d) : d = c ∧
    (fault = .thrown .writeNoSpace ∧ c.data.maxSize.toNat ≤ 4 * c.data.mem.length ∨
      fault = .badAlloc ∧ 4 * c.data.mem.length < c.data.maxSize.toNat ∧ 2 ^ 62 ≤ 4 * c.data.mem.length ∨
      fault = .outOfBounds ∧ ¬ c.CopiesInside) := by
  have hgrowth := growth h
  rw [hexp] at hgrowth
  cases hgrowth with
  | refused hmax => exact ⟨rfl, .inl ⟨rfl, hmax⟩⟩
  | denied hlt hlarge => exact ⟨rfl, .inr (.inl ⟨rfl, hlt, hlarge⟩)⟩
  | outside hun => exact ⟨rfl, .inr (.inr ⟨rfl, hun⟩)⟩

private theorem PowerOfTwo.refused_of_expand {count : Nat}
    (hunfit : c.data.mem.length ≤ c.contents.length + count) {fault : Fault}
    (hexp : expand c = .error fault d) (he : fault.isException) : Refused c count fault d := by
  obtain ⟨rfl, ⟨rfl, hmax⟩ | ⟨rfl, hlt, hlarge⟩ | ⟨rfl, -⟩⟩ := h.expand_fails hexp
  · exact ⟨h, rfl, .inl ⟨rfl, not_admits_of_bound hmax hunfit⟩⟩
  · exact ⟨h, rfl, .inr ⟨rfl, by omega⟩⟩
  · exact absurd he (by decide)

/-- An append to a full ring is one to the ring that it grows to. -/
theorem PowerOfTwo.writeStep_full (hfull : c.Full) (data : List UInt8) :
    (∃ fault d, expand c = .error fault d ∧ writeStep data noOffset c = .error fault d) ∨
    ∃ d, expand c = .ok () d ∧ writeStep data noOffset c = writeStep data noOffset d := by
  have hspace := h.getSpace_full hfull
  cases hexp : expand c with
  | error fault d =>
    rw [bind_error hexp] at hspace
    refine .inl ⟨fault, d, rfl, ?_⟩
    rw [writeStep, if_neg (not_not.mpr rfl), bind_error hspace]
  | ok _ d =>
    have hg := h.quadrupled_of_expand hexp
    have hfree := not_full_of_quadrupled h hg
    rw [bind_ok hexp, spaceFuel_of_pos (mt hg.valid.space_eq_zero_iff.mp hfree)] at hspace
    exact .inr ⟨d, rfl, (writeStep_append hspace).trans
      (writeStep_append (hg.valid.getSpace_free hfree)).symm⟩

/-- An append to a ring with a free cell grows it first, or places the bytes. -/
theorem PowerOfTwo.writeStep_free (hfree : ¬ c.Full) {data : List UInt8} (hdata : data.length < 2 ^ 64) :
    (c.data.mem.length ≤ c.contents.length + data.length ∧
      writeStep data noOffset c = (expand >>= fun _ => pure (some (data, noOffset))) c) ∨
    (c.contents.length + data.length < c.data.mem.length ∧
      writeStep data noOffset c = placeStep data c.getCount (c.announced (UInt64.ofNat data.length))) := by
  have hlt := h.length_lt
  have hspace := h.toNat_space
  have hcount : (UInt64.ofNat data.length).toNat = data.length := toNat_ofNat_of_lt hdata
  rw [writeStep_append (h.getSpace_free hfree)]
  by_cases hshort : countOf (c.tail + 1) c.head c.getSize < UInt64.ofNat data.length
  · rw [if_pos hshort]
    rw [UInt64.lt_iff_toNat_lt, hcount, hspace] at hshort
    exact .inl ⟨by omega, rfl⟩
  · rw [if_neg hshort]
    rw [UInt64.lt_iff_toNat_lt, hcount, hspace] at hshort
    unfold Full at hfree
    exact .inr ⟨by omega, rfl⟩

/-- Bytes that are announced are placed without an exception. -/
theorem PowerOfTwo.place_silent {data : List UInt8}
    (hfits : c.contents.length + data.length < c.data.mem.length) (fuel : Nat)
    {fault : Fault} (hrun : (placeStep data c.getCount >>= resume fuel)
      (c.announced (UInt64.ofNat data.length)) = .error fault d) :
    ¬ fault.isException := by
  have hsmall := h.small
  have hlen := h.length_contents
  have hcount : (UInt64.ofNat data.length).toNat = data.length := toNat_ofNat_of_lt (by omega)
  obtain ⟨hv, hgrown⟩ := h.announced (n := UInt64.ofNat data.length) (by omega)
  rcases placeStep_cases hv (show data.length < 2 ^ 64 by omega) c.getCount with
    ⟨e, hplace⟩ | ⟨n, e, hn, he, hce, hplace | hplace⟩
  · rw [bind_error hplace] at hrun
    cases hrun
    decide
  · rw [bind_ok hplace] at hrun
    exact nomatch hrun
  · rw [bind_ok hplace] at hrun
    refine writeFuel_inside fuel he ?_ hrun
    rw [hce, toNat_add_of_lt (by omega), List.length_drop]
    omega

end Refusals

/-- An append that throws has changed nothing that is live, and could not be made. -/
theorem writeFuel_refused {data : List UInt8} (hdata : data.length < 2 ^ 64)
    (hpos : 0 < data.length) (fuel : Nat)
    {c : Circle} (h : c.PowerOfTwo) {fault : Fault} {c' : Circle}
    (hrun : writeFuel fuel data noOffset c = .error fault c')
    (he : fault.isException) : Refused c data.length fault c' := by
  induction fuel generalizing c with
  | zero =>
    cases hrun
    exact absurd he (by decide)
  | succ fuel ih =>
    have hfree (d : Circle) (hd : d.PowerOfTwo) (hroom : ¬ d.Full)
        (hrun : (writeStep data noOffset >>= resume fuel) d = .error fault c') :
          Refused d data.length fault c' := by
      rcases hd.writeStep_free hroom hdata with ⟨hunfit, hstep⟩ | ⟨hfits, hstep⟩
      · rw [bind_of_eq hstep, bind_assoc] at hrun
        cases hexp : expand d with
        | error fault' e =>
          rw [bind_error hexp] at hrun
          cases hrun
          exact hd.refused_of_expand hunfit hexp he
        | ok _ e =>
          have hg := hd.quadrupled_of_expand hexp
          rw [bind_ok hexp] at hrun
          exact .of_quadrupled hg hunfit (ih hg.valid hrun)
      · rw [bind_of_eq hstep] at hrun
        exact absurd he (hd.place_silent hfits fuel hrun)
    rw [writeFuel_succ] at hrun
    by_cases hfull : c.Full
    · have hunfit : c.data.mem.length ≤ c.contents.length + data.length := by
        unfold Full at hfull
        omega
      rcases h.writeStep_full hfull data with ⟨fault', d, hexp, hstep⟩ | ⟨d, hexp, hstep⟩
      · rw [bind_error hstep] at hrun
        cases hrun
        exact h.refused_of_expand hunfit hexp he
      · have hg := h.quadrupled_of_expand hexp
        rw [bind_of_eq hstep] at hrun
        exact .of_quadrupled hg hunfit (hfree d hg.valid (not_full_of_quadrupled h hg) hrun)
    · exact hfree c h hfull hrun

/-- An append that no growth makes room for throws, if the first growth stays inside the array. -/
theorem writeFuel_throws {data : List UInt8} (hdata : data.length < 2 ^ 64) (fuel : Nat)
    {c : Circle} (h : c.PowerOfTwo) (hmax : c.data.maxSize.toNat ≤ 2 ^ 62) (hm : c.GrowsInside)
    (hfar : ¬ c.Admits data.length)
    (hfuel : c.contents.length + data.length < c.data.mem.length + fuel) :
    ∃ c', writeFuel fuel data noOffset c = .error (.thrown .writeNoSpace) c' := by
  have hunfit (d : Circle) (hno : ¬ d.Admits data.length) : d.data.mem.length ≤
      d.contents.length + data.length := by
    by_contra hfits
    refine hno ⟨0, ?_, .inl rfl⟩
    rw [Nat.pow_zero, Nat.mul_one]
    omega
  have hfails {d e : Circle} (hd : d.PowerOfTwo) (hmax : d.data.maxSize.toNat ≤ 2 ^ 62)
    (hm : d.GrowsInside) {fault : Fault}
      (hexp : expand d = .error fault e) : fault = .thrown .writeNoSpace := by
    rcases hm with hbound | hin
    · cases (hd.expand_refused hbound).symm.trans hexp
      rfl
    obtain ⟨-, ⟨rfl, -⟩ | ⟨-, hlt, hlarge⟩ | ⟨-, hun⟩⟩ := hd.expand_fails hexp
    · rfl
    · omega
    · exact absurd hin hun
  have hfront {d e : Circle} (hg : Quadrupled d e) : e.GrowsInside := by
    refine .inr (hg.valid.copiesInside (.inl ?_))
    rw [hg.head_eq]
    exact Nat.zero_le _
  induction fuel generalizing c with
  | zero =>
    have hle := hunfit c hfar
    omega
  | succ fuel ih =>
    have hfree (d : Circle) (hd : d.PowerOfTwo) (hmax : d.data.maxSize.toNat ≤ 2 ^ 62) (hm : d.GrowsInside)
        (hfar : ¬ d.Admits data.length)
          (hfuel : d.contents.length + data.length < d.data.mem.length + (fuel + 1))
        (hroom : ¬ d.Full) : ∃ c', (writeStep data noOffset >>= resume fuel) d =
          .error (.thrown .writeNoSpace) c' := by
      have hle := hunfit d hfar
      have hpos := hd.head_lt
      rcases hd.writeStep_free hroom hdata with ⟨-, hstep⟩ | ⟨hfits, -⟩
      · rw [bind_of_eq hstep, bind_assoc]
        cases hexp : expand d with
        | error fault e =>
          rw [bind_error hexp, hfails hd hmax hm hexp]
          exact ⟨e, rfl⟩
        | ok _ e =>
          have hg := hd.quadrupled_of_expand hexp
          rw [bind_ok hexp]
          refine ih hg.valid (by rw [hg.maxSize_eq]; exact hmax) (hfront hg)
            (by rw [hg.admits_iff hle]; exact hfar) ?_
          rw [hg.contents_eq, hg.size_eq]
          omega
      · omega
    rw [writeFuel_succ]
    by_cases hfull : c.Full
    · have hle := hunfit c hfar
      rcases h.writeStep_full hfull data with ⟨fault, d, hexp, hstep⟩ | ⟨d, hexp, hstep⟩
      · rw [bind_error hstep, hfails h hmax hm hexp]
        exact ⟨d, rfl⟩
      · have hg := h.quadrupled_of_expand hexp
        rw [bind_of_eq hstep]
        refine hfree d hg.valid (by rw [hg.maxSize_eq]; exact hmax) (hfront hg)
          (by rw [hg.admits_iff hle]; exact hfar) ?_
          (not_full_of_quadrupled h hg)
        rw [hg.contents_eq, hg.size_eq]
        omega
    · exact hfree c h hmax hm hfar hfuel hfull

/-- An append that needs a growth which leaves the array leaves it. -/
theorem PowerOfTwo.write_outside {c : Circle} (h : c.PowerOfTwo) (hmax : c.data.maxSize.toNat ≤ 2 ^ 62)
    (hout : ¬ c.GrowsInside) {data : List UInt8} (hdata : data.length < 2 ^ 64)
    (hunfit : c.data.mem.length ≤ c.contents.length + data.length) :
    write data noOffset c = .error .outOfBounds c := by
  obtain ⟨hlt, hcopies⟩ := not_or.mp hout
  have hexp : expand c = .error .outOfBounds c := by
    have hgrowth := growth h
    revert hgrowth
    generalize expand c = result
    intro hgrowth
    cases hgrowth with
    | refused hbound => exact absurd hbound hlt
    | denied _ hlarge => omega
    | outside _ => rfl
    | grown hin _ => exact absurd hin hcopies
  rw [write, writeFuel_succ]
  by_cases hfull : c.Full
  · rcases h.writeStep_full hfull data with ⟨fault, d, hfail, hstep⟩ | ⟨d, hgrown, -⟩
    · cases hexp.symm.trans hfail
      exact bind_error hstep
    · cases hexp.symm.trans hgrown
  · rcases h.writeStep_free hfull hdata with ⟨-, hstep⟩ | ⟨hfits, -⟩
    · rw [bind_of_eq hstep, bind_assoc, bind_error hexp]
    · omega

end Circle
end SimpleNetwork
