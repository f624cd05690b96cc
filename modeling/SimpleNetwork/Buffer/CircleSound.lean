import SimpleNetwork.Buffer.CircleFrame
import SimpleNetwork.Buffer.CircleSpec

/-! Rings after any calls. `remove_from_back` can leave the write cursor outside
the array, so only the storage and the read cursor are sure; the masked counts
see the write cursor modulo the size. -/
namespace SimpleNetwork
open Outcome Words

namespace Circle

/-- What every member function keeps, also when it throws. -/
structure Sound (c : Circle) : Prop where
  pow : ∃ k ≤ 30, c.data.mem.length = 2 ^ k
  growth : ∀ j, c.data.mem.length * 4 ^ j < c.data.maxSize.toNat → c.data.mem.length * 4 ^ j ≤ 2 ^ 30
  head_lt : c.head.toNat < c.data.mem.length

theorem Valid.sound {c : Circle} (h : c.Valid) : c.Sound := ⟨h.pow, h.growth, h.head_lt⟩

/-- The ring with its write cursor moved back into the array. -/
def normal (c : Circle) : Circle := { c with tail := c.tail % c.getSize }

theorem remove_normal (c : Circle) (count : UInt64) :
    remove count c.normal = .ok () (normal { c with head := (c.head + count) % c.getSize }) := rfl

section Counts
variable {c : Circle} (h : c.Sound)
include h

theorem Sound.toNat_getSize : c.getSize.toNat = c.data.mem.length := by
  obtain ⟨k, hk, hp⟩ := h.pow
  have hle : 2 ^ k ≤ 2 ^ 30 := Nat.pow_le_pow_right (by decide) hk
  exact toNat_ofNat_of_lt (by omega)

theorem Sound.mod_lt (x : UInt64) : (x % c.getSize).toNat < c.data.mem.length := by
  rw [UInt64.toNat_mod, h.toNat_getSize]
  exact Nat.mod_lt _ (Nat.lt_of_le_of_lt (Nat.zero_le _) h.head_lt)

theorem Sound.normal_valid : c.normal.Valid := ⟨h.pow, h.growth, h.head_lt, h.mod_lt c.tail⟩

/-- A word and its remainder look alike under the mask, whatever is added to them. -/
theorem Sound.mask_add (x y : UInt64) :
    (x % c.getSize + y) &&& (c.getSize - 1) = (x + y) &&& (c.getSize - 1) := by
  obtain ⟨k, hk, hp⟩ := h.pow
  have hs : c.getSize.toNat = 2 ^ k := h.toNat_getSize.trans hp
  have hd : 2 ^ k ∣ 2 ^ 64 := Nat.pow_dvd_pow 2 (by omega)
  rw [← UInt64.toNat_inj, toNat_and_pred hs, toNat_and_pred hs, UInt64.toNat_add, UInt64.toNat_add,
    UInt64.toNat_mod, hs,
    Nat.mod_mod_of_dvd _ hd, Nat.mod_mod_of_dvd _ hd, Nat.mod_add_mod]

theorem Sound.getCount_normal : c.normal.getCount = c.getCount := by
  change (c.tail % c.getSize - c.head) &&& (c.getSize - 1) = (c.tail - c.head) &&& (c.getSize - 1)
  rw [UInt64.sub_eq_add_neg (c.tail % c.getSize), UInt64.sub_eq_add_neg c.tail, h.mask_add]

theorem Sound.getContinguiousCount_normal : c.normal.getContinguiousCount = c.getContinguiousCount := by
  change continguiousCountOf c.head (c.tail % c.getSize) c.getSize =
    continguiousCountOf c.head c.tail c.getSize
  simp only [continguiousCountOf, h.mask_add]

/-- The run at `get_start()` lies inside the array and is not empty unless the ring is. -/
theorem Sound.toNat_startRun :
    c.getContinguiousCount.toNat = min c.getCount.toNat (c.data.mem.length - c.head.toNat) := by
  have hv := h.normal_valid
  rw [← h.getContinguiousCount_normal, ← h.getCount_normal, hv.toNat_startRun, hv.length_contents]
  rfl

theorem Sound.peekStart_run : ∃ bytes, peekStart c.getContinguiousCount c = .ok bytes c := by
  have hrun := h.toNat_startRun
  have hhead := h.head_lt
  rw [peekStart, get_bind, Data.load_of_le (by omega)]
  exact ⟨_, rfl⟩

/-- Removing the run leaves fewer bytes. -/
theorem Sound.remove_run (hpos : 0 < c.getCount.toNat) :
    ∃ c', remove c.getContinguiousCount c = .ok () c' ∧ c'.Sound ∧ c'.getCount.toNat < c.getCount.toNat := by
  have hv := h.normal_valid
  have hrun := h.toNat_startRun
  have hhead := h.head_lt
  have hlen := hv.length_contents
  rw [h.getCount_normal] at hlen
  obtain ⟨d, hremove, hd, hcd, hdata⟩ := remove_spec hv (n := c.getContinguiousCount) (by omega)
  have hsound : Sound { c with head := (c.head + c.getContinguiousCount) % c.getSize } :=
    ⟨h.pow, h.growth, h.mod_lt _⟩
  refine ⟨_, rfl, hsound, ?_⟩
  have hnormal := (EStateM.Result.ok.inj (hremove.symm.trans (remove_normal c _))).2
  rw [← hsound.getCount_normal, ← hnormal, ← hd.length_contents, hcd, List.length_drop]
  omega

end Counts

section Keeps

theorem sound_remove (count : UInt64) : Keeps Sound (remove count) Sound :=
  Triple.modify fun _ h => ⟨h.pow, h.growth, h.mod_lt _⟩

/-- A ring four times as large. -/
theorem Sound.quadrupled {c d : Circle} (h : c.Sound) (hfit : c.getSize <<< 2 < c.data.maxSize)
    (hsize : d.data.mem.length = (c.getSize <<< 2).toNat) (hmax : d.data.maxSize = c.data.maxSize)
    (hhead : d.head = 0) :
    d.Sound := by
  have hquad : (c.getSize <<< 2).toNat = 4 * c.data.mem.length := h.normal_valid.toNat_quadruple
  obtain ⟨k, hk, hp⟩ := h.pow
  have hlt : 4 * c.data.mem.length < c.data.maxSize.toNat := by
    rw [← hquad, ← UInt64.lt_iff_toNat_lt]
    exact hfit
  have hgrown := h.growth 1 (by omega)
  have hpow : d.data.mem.length = 2 ^ (k + 2) := by
    rw [hsize, hquad, hp, Nat.pow_add]
    omega
  refine ⟨⟨k + 2, ?_, hpow⟩, fun j hj => ?_, ?_⟩
  · refine (Nat.pow_le_pow_iff_right (a := 2) (by decide)).mp ?_
    omega
  · have hstep : d.data.mem.length * 4 ^ j = c.data.mem.length * 4 ^ (j + 1) := by
      rw [hsize, hquad, Nat.pow_succ]
      ring
    rw [hstep]
    refine h.growth (j + 1) ?_
    rw [← hstep, ← hmax]
    exact hj
  · rw [hhead, hpow]
    exact Nat.two_pow_pos _

theorem sound_lasting : Lasting Sound where
  stored {c data} h hlen hmax := by
    refine ⟨?_, ?_, ?_⟩
    · exact hlen ▸ h.pow
    · exact hlen ▸ hmax ▸ h.growth
    · exact hlen ▸ h.head_lt
  moved _ h := ⟨h.pow, h.growth, h.head_lt⟩
  grown h hfit hlen hmax hhead := h.quadrupled hfit hlen hmax hhead

theorem sound_readFuel (fuel : Nat) (count offset : UInt64) (peek : Bool) :
    Keeps Sound (readFuel fuel count offset peek) Sound :=
  keeps_readFuel (fun n h => ⟨h.pow, h.growth, h.mod_lt n⟩) fuel count offset peek

end Keeps

/-- A ring whose read cursor is at the start of the array, so that the live bytes
lie in one run. -/
def Flat (c : Circle) : Prop := c.Sound ∧ c.head = 0

section Flat
variable {c : Circle}

theorem Flat.getContinguiousCount (h : c.Flat) : c.getContinguiousCount = c.getCount := by
  have hrun := h.1.toNat_startRun
  have hv := h.1.normal_valid
  have hlt := hv.length_lt
  rw [hv.length_contents, h.1.getCount_normal] at hlt
  change c.getCount.toNat < c.data.mem.length at hlt
  rw [h.2] at hrun
  rw [← UInt64.toNat_inj, hrun]
  exact Nat.min_eq_left (Nat.le_of_lt hlt)

/-- The run at `get_start()` is all there is. -/
theorem Flat.peekStart (h : c.Flat) : peekStart c.getCount c = .ok c.contents c := by
  have hv := h.1.normal_valid
  have hlt := hv.length_lt
  rw [hv.length_contents, h.1.getCount_normal] at hlt
  change c.getCount.toNat < c.data.mem.length at hlt
  have hzero : c.head.toNat = 0 := by rw [h.2]; rfl
  rw [Circle.peekStart, Outcome.get_bind, Data.load_of_le (by omega), contents, hzero, List.drop_zero,
    List.take_append_of_le_length (by omega)]

theorem Flat.reset (h : c.Flat) : c.reset.Flat ∧ c.reset.contents = [] := by
  have hpos : 0 < c.data.mem.length := Nat.lt_of_le_of_lt (Nat.zero_le _) h.1.head_lt
  have hsound : c.reset.Sound := ⟨h.1.pow, h.1.growth, hpos⟩
  refine ⟨⟨hsound, rfl⟩, ?_⟩
  have hcount : c.reset.getCount = 0 := by
    change (0 - 0) &&& (c.getSize - 1) = 0
    simp
  rw [contents, hcount]
  rfl

theorem front_lasting : Lasting fun c => c.head = 0 := ⟨fun h _ _ => h, fun _ h => h, fun _ _ _ _ h => h⟩

theorem flat_lasting : Lasting Flat := sound_lasting.and front_lasting

theorem flat_read (word : UInt32) : Keeps Flat (read 4 word.toUInt64) Flat := by
  refine keeps_peekFuel _ 4 word.toUInt64 ?_
  have hlt := word.toNat_lt
  rw [UInt32.toNat_toUInt64]
  change _ + 4 < _
  omega

end Flat
end Circle
end SimpleNetwork
