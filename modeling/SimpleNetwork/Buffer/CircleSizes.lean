import SimpleNetwork.Buffer.CircleFrame

/-! How large a ring can get. Only `expand` gives it another array, so a property
of the size and the maximum that survives `expand` survives every call. -/
namespace SimpleNetwork
open Outcome Words

/-- The sizes of a default ring: 1024 bytes made four times as large, at most four times. -/
def Ladder (n : Nat) (max : UInt64) : Prop := max = 409600 ∧ ∃ i ≤ 4, n = 1024 * 4 ^ i

theorem Ladder.le {n : Nat} {max : UInt64} (h : Ladder n max) : n ≤ 262144 := by
  obtain ⟨-, i, hi, rfl⟩ := h
  have hpow : 4 ^ i ≤ 4 ^ 4 := Nat.pow_le_pow_right (by decide) hi
  omega

/-- An array of such a size. -/
def Laddered (d : Data) : Prop := Ladder d.mem.length d.maxSize

namespace Circle

def Sized (P : Nat → UInt64 → Prop) (c : Circle) : Prop := P c.data.mem.length c.data.maxSize

def Grows (P : Nat → UInt64 → Prop) : Prop :=
  ∀ {n max}, P n max → UInt64.ofNat n <<< 2 < max → P (UInt64.ofNat n <<< 2).toNat max

theorem sized_lasting {P : Nat → UInt64 → Prop} (hgrow : Grows P) : Lasting (Sized P) where
  stored {c data} h hlen hmax := by
    change P data.mem.length data.maxSize
    rw [hlen, hmax]
    exact h
  moved _ h := h
  grown {c d} h hfit hlen hmax _ := by
    change P d.data.mem.length d.data.maxSize
    rw [hlen, hmax]
    exact hgrow h hfit

theorem grows_ladder : Grows Ladder := by
  intro n max h hfit
  have hle := h.le
  obtain ⟨rfl, i, hi, rfl⟩ := h
  have htwo : (2 : UInt64).toNat % 64 = 2 := rfl
  have hmax : (409600 : UInt64).toNat = 409600 := rfl
  have hquad : (UInt64.ofNat (1024 * 4 ^ i) <<< 2).toNat = 1024 * 4 ^ (i + 1) := by
    rw [UInt64.toNat_shiftLeft, htwo, toNat_ofNat_of_lt (by omega), Nat.shiftLeft_eq,
      Nat.mod_eq_of_lt (by omega), Nat.pow_succ 4]
    omega
  rw [UInt64.lt_iff_toNat_lt, hquad, hmax] at hfit
  refine ⟨rfl, i + 1, Nat.lt_of_not_le fun hge => ?_, hquad⟩
  have hpow : 4 ^ 5 ≤ 4 ^ (i + 1) := Nat.pow_le_pow_right (by decide) (by omega)
  omega

end Circle
end SimpleNetwork
