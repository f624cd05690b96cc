import SimpleNetwork.Buffer.BipQueue

/-! Reads and writes of `bip` at an offset. A read that starts inside region B
copies the front of region B, and a write over both regions that leans on region A
takes its own 64-bit difference for a lack of space. -/
namespace SimpleNetwork
open Words Slices

namespace Bip

/-- A peek that starts behind the front of region B gets the front of region B, and the bytes there are others. -/
def Misreads (b : Bip) (offset count : Nat) : Prop :=
  b.regionACount.toNat < offset ∧
    b.regionB.take count ≠ (b.regionB.drop (offset - b.regionACount.toNat)).take count

section Ranges
variable {b : Bip} (h : b.Valid) {count offset : UInt64}
include h

/-- A read that starts behind region A copies from the front of region B. -/
theorem copyOut_behind (hoff : b.regionACount.toNat < offset.toNat)
    (hr : offset.toNat + count.toNat ≤ b.contents.length) :
    b.copyOut count offset b = .ok (b.regionB.take count.toNat) b := by
  have hlen := h.length_contents
  have hout : ¬ (b.regionACount > 0 ∧ ¬ b.regionACount < offset) :=
    fun hin => hin.2 (UInt64.lt_iff_toNat_lt.mpr hoff)
  obtain ⟨fromA, hfrom⟩ : ∃ fromA, fromA = if b.regionACount > 0 ∧ ¬ b.regionACount < offset
    then sizeMin (b.regionACount - offset) count else 0 := ⟨_, rfl⟩
  have hzero : fromA = 0 := by rw [hfrom, if_neg hout]
  have hrest : (count - fromA).toNat = count.toNat := by rw [hzero, UInt64.sub_zero]
  have hfront : (copyIf (b.regionACount > 0 ∧ ¬ b.regionACount < offset)
    (b.data.load (b.regionAStart + offset) fromA) :
      EStateM Fault Bip _) b = .ok [] b := by
    rw [copyIf, if_neg hout]
    rfl
  have hback : (copyIf (count - fromA > 0)
    (b.loadAt b.regionBStart (count - fromA)) : EStateM Fault Bip _) b =
      .ok (b.regionB.take count.toNat) b := by
    unfold copyIf
    split
    · rw [loadAt_regionB h b (by omega), hrest]
    · rename_i hnone
      have hnil := mt UInt64.lt_iff_toNat_lt.mpr hnone
      rw [UInt64.toNat_zero, hrest] at hnil
      rw [show count.toNat = 0 by omega, List.take_zero]
      rfl
  subst hfrom
  simp only [copyOut]
  rw [Outcome.bind_ok hfront, Outcome.bind_ok hback]
  rfl

/-- What a peek in range returns. -/
theorem read_inRange (hr : offset.toNat + count.toNat ≤ b.contents.length) :
    read count offset b = .ok (if b.regionACount.toNat < offset.toNat then b.regionB.take count.toNat
      else (b.contents.drop offset.toNat).take count.toNat) b := by
  have hlen := h.length_contents
  have ha := h.a_le
  have hb := h.b_le
  have hsmall := h.small
  split
  · rename_i hoff
    have hno : offset ≠ noOffset := h.ne_noOffset (by omega)
    have hguard : ¬ b.getCount < offset + count := by
      rw [h.count_lt_iff, toNat_add_of_lt (by omega)]
      omega
    simp only [read, if_neg hno, Outcome.get_bind, if_neg hguard]
    rw [Outcome.bind_ok (copyOut_behind h hoff hr), if_pos hno]
    rfl
  · rename_i hoff
    exact read_peek h (by omega) hr

end Ranges
end Bip

/-- A peek in range never changes the buffer, and it returns the bytes asked for
unless it starts inside region B and the front of region B is not the same there. -/
theorem bip_peek_exact_iff {b : Bip} (h : b.Valid) {count offset : UInt64}
    (hr : offset.toNat + count.toNat ≤ b.contents.length) :
    Bip.read count offset b = .ok ((b.contents.drop offset.toNat).take count.toNat) b ↔
      ¬ b.Misreads offset.toNat count.toNat := by
  have hla := h.length_regionA
  rw [Bip.read_inRange h hr]
  split
  · rename_i hoff
    have hdrop : b.contents.drop offset.toNat = b.regionB.drop (offset.toNat - b.regionACount.toNat) := by
      rw [Bip.contents, List.drop_append, List.drop_eq_nil_of_le (by omega), hla, List.nil_append]
    rw [hdrop, Bip.Misreads, and_iff_right hoff, not_not]
    constructor
    · intro heq
      exact (EStateM.Result.ok.inj heq).1
    · intro heq
      rw [heq]
  · rename_i hoff
    exact iff_of_true rfl fun hmis => hoff hmis.1

/-- Region A is 1, 2 in the second half of the array and region B is 3, 4 in the first half. -/
def twoRegions : Bip := ⟨⟨[3, 4, 1, 2], 4⟩, 2, 2, some 0, 2⟩

theorem twoRegions_valid : twoRegions.Valid where
  a_le := by decide
  b_le := by decide
  b_start start hs := (Option.some.inj hs).symm
  closed hn := nomatch hn
  opened _ hzero := absurd hzero (by decide)
  empty hzero := absurd hzero (by decide)
  size_le := by decide
  pos := by decide
  small := by decide

theorem bip_peek_across : Bip.read 2 1 twoRegions = .ok [2, 3] twoRegions :=
  (bip_peek_exact_iff twoRegions_valid (by decide)).mpr fun hmis => absurd hmis.1 (by decide)

/-- The last byte is 4. -/
theorem bip_peek_front_of_B : twoRegions.Valid ∧
    (3 : UInt64).toNat + (1 : UInt64).toNat ≤ twoRegions.contents.length ∧
    Bip.read 1 3 twoRegions = .ok [3] twoRegions ∧ (twoRegions.contents.drop 3).take 1 = [4] :=
  ⟨twoRegions_valid, by decide⟩

/-- A patch in range replaces its bytes where they are and grows nothing, unless it
straddles the regions and has more bytes for region A than for region B. -/
theorem bip_patch_in_place_iff {b : Bip} (h : b.Valid) {data : List UInt8} {offset : UInt64}
    (hin : offset.toNat + data.length ≤ b.contents.length) :
    (∃ b', Bip.write data offset b = .ok () b' ∧ Bip.Replaced b offset.toNat data b') ↔
      ¬ (b.Straddled offset.toNat data.length ∧ b.LeansOnA offset.toNat data.length) := by
  constructor
  · rintro ⟨b', hrun, hr⟩ ⟨hover, hleans⟩
    rw [Bip.write_inRange h hin] at hrun
    rcases Bip.writeFuel_across_wrapped h 62 hover hleans hin with
      ⟨b₂, hrun', -, -, -, hlt⟩ | ⟨fault, b₂, hrun', -⟩
    · cases hrun.symm.trans hrun'
      exact Nat.ne_of_gt hlt hr.size_eq
    · exact nomatch hrun.symm.trans hrun'
  · exact Bip.write_replaced h hin

theorem bip_patch_in_place_even : ∃ b', Bip.write [7, 8] 1 twoRegions = .ok () b' ∧
    Bip.Replaced twoRegions 1 [7, 8] b' :=
  (bip_patch_in_place_iff twoRegions_valid (by decide)).mpr fun hwraps =>
    absurd hwraps.2 (by unfold Bip.LeansOnA; decide)

/-- Two bytes in region A and one in region B, in an array that may not grow. -/
theorem bip_patch_refused : twoRegions.Valid ∧
    (0 : UInt64).toNat + [7, 8, 9].length ≤ twoRegions.contents.length ∧
    Bip.write [7, 8, 9] 0 twoRegions =
      .error (.thrown .writeNoSpace) { twoRegions with data := ⟨[3, 4, 7, 8], 4⟩ } :=
  ⟨twoRegions_valid, by decide⟩

end SimpleNetwork
