import Mathlib.Algebra.Group.Nat.Defs
import Mathlib.Tactic.Common

/-! Fixed-width words: sizes, their conversions to `int` and back, and the
four-byte little-endian image of a 32-bit word. -/
namespace Words

theorem toNat_add_of_lt {a b : UInt64} (h : a.toNat + b.toNat < 2 ^ 64) :
    (a + b).toNat = a.toNat + b.toNat := by
  rw [UInt64.toNat_add, Nat.mod_eq_of_lt h]

theorem toNat_sub_of_le {a b : UInt64} (h : b.toNat ≤ a.toNat) :
    (a - b).toNat = a.toNat - b.toNat := by
  have ha := a.toNat_lt
  rw [UInt64.toNat_sub]
  omega

/-- A sum past 2^64 that comes back to `n` or less. -/
def WrapsPast (n a b : Nat) : Prop := 2 ^ 64 ≤ a + b ∧ a + b - 2 ^ 64 ≤ n

theorem lt_add_iff {n a b : UInt64} : n < a + b ↔ n.toNat < a.toNat + b.toNat ∧
    ¬ WrapsPast n.toNat a.toNat b.toNat := by
  unfold WrapsPast
  have hn := n.toNat_lt
  have ha := a.toNat_lt
  have hb := b.toNat_lt
  rw [UInt64.lt_iff_toNat_lt, UInt64.toNat_add]
  omega

def sizeMin (a b : UInt64) : UInt64 := if b < a then b else a

theorem toNat_sizeMin (a b : UInt64) : (sizeMin a b).toNat = min a.toNat b.toNat := by
  unfold sizeMin
  split
  · exact (Nat.min_eq_right (Nat.le_of_lt (UInt64.lt_iff_toNat_lt.mp ‹_›))).symm
  · exact (Nat.min_eq_left (Nat.le_of_not_lt (fun h => ‹¬ _› (UInt64.lt_iff_toNat_lt.mpr h)))).symm

theorem toNat_ofNat_of_lt {n : Nat} (h : n < 2 ^ 64) : (UInt64.ofNat n).toNat = n := by
  rw [UInt64.toNat_ofNat', Nat.mod_eq_of_lt h]

theorem toNat_pred {s : UInt64} (h : 0 < s.toNat) : (s - 1).toNat = s.toNat - 1 :=
  toNat_sub_of_le (b := 1) h

theorem toNat_succ {s : UInt64} (h : s.toNat < 2 ^ 63) : (s + 1).toNat = s.toNat + 1 :=
  toNat_add_of_lt (b := 1) (Nat.lt_of_le_of_lt h (by decide))

/-- A number whose remainder is at least `n` keeps its quotient when `n` is taken off. -/
theorem sub_mod_of_le {a n p : Nat} (h : n ≤ a % p) : (a - n) % p = a % p - n := by
  have hdiv := Nat.mod_add_div a p
  rcases Nat.eq_zero_or_pos p with rfl | hp
  · simp
  · have hlt := Nat.mod_lt a hp
    have hsplit : a - n = (a % p - n) + p * (a / p) := by omega
    rw [hsplit, Nat.add_mul_mod_self_left, Nat.mod_eq_of_lt (by omega)]

/-- Masking by a power of two less one is reduction modulo that power. -/
theorem toNat_and_pred {a s : UInt64} {k : Nat} (hs : s.toNat = 2 ^ k) :
    (a &&& (s - 1)).toNat = a.toNat % 2 ^ k := by
  have hpos : 0 < 2 ^ k := Nat.two_pow_pos k
  rw [UInt64.toNat_and, toNat_pred (by omega), hs, Nat.and_two_pow_sub_one_eq_mod]

/-- Conversion of a size to a 32-bit `int`: reduction to the signed range. -/
def toInt (x : UInt64) : Int := (x.toNat : Int).bmod (2 ^ 32)

/-- Conversion of an `int` back to a size: sign extension. -/
def ofInt (i : Int) : UInt64 := UInt64.ofInt i

theorem toInt_of_lt {x : UInt64} (h : x.toNat < 2 ^ 31) : toInt x = x.toNat := by
  unfold toInt
  rw [Int.bmod_def]
  split <;> omega

theorem toNat_ofInt_natCast {n : Nat} (h : n < 2 ^ 64) : (ofInt n).toNat = n := by
  have hn : ((n : Int) % 2 ^ 64).toNat = n := by omega
  rw [ofInt, UInt64.ofInt, hn, toNat_ofNat_of_lt h]

/-- The four bytes of a word as a little-endian machine stores them. -/
def le32 (x : UInt32) : List UInt8 :=
  [x.toUInt8, (x >>> 8).toUInt8, (x >>> 16).toUInt8, (x >>> 24).toUInt8]

/-- The word that four stored bytes denote. -/
def ofLe32 : List UInt8 → UInt32
  | [a, b, c, d] => a.toUInt32 + (b.toUInt32 <<< 8) + (c.toUInt32 <<< 16) + (d.toUInt32 <<< 24)
  | _ => 0

@[simp] theorem length_le32 (x : UInt32) : (le32 x).length = 4 := rfl

@[simp] theorem ofLe32_le32 (x : UInt32) : ofLe32 (le32 x) = x := by
  have hx := x.toNat_lt
  rw [← UInt32.toNat_inj]
  simp [le32, ofLe32, Nat.shiftLeft_eq, Nat.shiftRight_eq_div_pow]
  omega

end Words
