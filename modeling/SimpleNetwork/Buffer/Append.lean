import SimpleNetwork.Buffer.ArrayAppend
import SimpleNetwork.Buffer.BipAppend
import SimpleNetwork.Buffer.CircleAppend

/-! Buffer-to-buffer appends of the three buffer types, as the writers of packets make them. -/
namespace SimpleNetwork

/-- A ring of eight cells. -/
theorem ring_valid {d : Data} {head tail : UInt64} (hsize : d.mem.length = 8) (hmax : d.maxSize = 8)
    (hhead : head.toNat < 8)
    (htail : tail.toNat < 8) : Circle.Valid ⟨d, head, tail⟩ := by
  refine ⟨⟨3, by decide, hsize⟩, fun j hj => ?_, hsize ▸ hhead, hsize ▸ htail⟩
  change d.mem.length * 4 ^ j < d.maxSize.toNat at hj
  have hbound : d.maxSize.toNat = 8 := by rw [hmax]; rfl
  change d.mem.length * 4 ^ j ≤ 2 ^ 30
  omega

def splitBip : Bip := ⟨⟨[4, 5, 3, 0], 4⟩, 2, 1, some 0, 2⟩

private theorem splitBip_valid : splitBip.Valid where
  a_le := by decide
  b_le := by decide
  b_start _ hstart := (Option.some.inj hstart).symm
  closed hnone := nomatch hnone
  opened _ hzero := absurd hzero (by decide)
  empty hzero := absurd hzero (by decide)
  size_le := by decide
  pos := by decide
  small := by decide

end SimpleNetwork
