import SimpleNetwork.Buffer.CircleAppend
import SimpleNetwork.Buffer.CircleRefusal

/-! Reads and writes of `circle` whose range passes the check because its end is
past 2^64. A read goes on from piece to piece until its offset comes back to zero,
and meets the reserved offset on the way if a piece ends just there. -/
namespace SimpleNetwork
open Words Outcome

namespace Circle

def around (c : Circle) (offset : Nat) : Nat :=
  (c.tail.toNat + (c.data.mem.length - (c.head.toNat + offset) % c.data.mem.length)) % c.data.mem.length

/-- A piece of the read ends at the reserved offset, and one byte more than there is would then be consumed. -/
def Recovers (c : Circle) (offset count : Nat) : Prop :=
  offset + count - 2 ^ 64 = c.contents.length ∧
    (offset + c.run offset + 1 = 2 ^ 64 ∨ offset + c.around offset + 1 = 2 ^ 64)

section Walk
variable {c : Circle} (h : c.Valid)
include h

private theorem Valid.run_eq (offset : Nat) :
    c.run offset = min (c.around offset) (c.data.mem.length - (c.head.toNat + offset) % c.data.mem.length) ∧
      (c.run offset = 0 → c.around offset = 0) := by
  have hhead := h.head_lt
  have hplace : (c.head.toNat + offset) % c.data.mem.length < c.data.mem.length := Nat.mod_lt _ (by omega)
  refine ⟨rfl, fun hzero => ?_⟩
  change min (c.around offset) _ = 0 at hzero
  omega

private theorem Valid.around_eq (offset : Nat) : c.around offset =
    if (c.head.toNat + offset) % c.data.mem.length ≤ c.tail.toNat
      then c.tail.toNat - (c.head.toNat + offset) % c.data.mem.length
      else c.tail.toNat + c.data.mem.length - (c.head.toNat + offset) % c.data.mem.length := by
  have htail := h.tail_lt
  have hplace : (c.head.toNat + offset) % c.data.mem.length < c.data.mem.length := Nat.mod_lt _ (by omega)
  rw [around, CellRing.wrap_eq_mod (by omega), CellRing.wrap]
  split <;> split <;> omega

/-- Behind a piece that ends before the write cursor the next one goes there. -/
theorem Valid.run_next (offset : Nat) : c.run (offset + c.run offset) = c.around (offset + c.run offset) ∧
    c.run offset + c.around (offset + c.run offset) = c.around offset := by
  have htail := h.tail_lt
  have hrun := (h.run_eq offset).1
  have hnext := (h.run_eq (offset + c.run offset)).1
  have haround := h.around_eq offset
  have hthere := h.around_eq (offset + c.run offset)
  have hplace : (c.head.toNat + offset) % c.data.mem.length < c.data.mem.length := Nat.mod_lt _ (by omega)
  have hmoved : (c.head.toNat + (offset + c.run offset)) % c.data.mem.length =
      CellRing.wrap c.data.mem.length ((c.head.toNat + offset) % c.data.mem.length + c.run offset) := by
    rw [← CellRing.wrap_eq_mod (by omega), Nat.mod_add_mod, Nat.add_assoc]
  rw [hmoved] at hnext hthere
  revert hrun hnext haround hthere hplace
  generalize c.run (offset + c.run offset) = next, c.around (offset + c.run offset) = there, c.run offset = n
  generalize c.around offset = way, (c.head.toNat + offset) % c.data.mem.length = place
  unfold CellRing.wrap
  intro hrun hnext haround hthere hplace
  split at haround <;> split at hthere <;> split at hthere <;> split at hnext <;> omega

variable {count offset : UInt64}

/-- One call of a peeking read that passes the check. -/
theorem readFuel_step (fuel : Nat) (hoff : offset ≠ noOffset) (hguard : ¬ c.getCount < offset + count) :
    ∃ (bytes : List UInt8) (n : UInt64), n.toNat = min (c.run offset.toNat) count.toNat ∧
      readFuel (fuel + 1) count offset true c =
        (if count - n = 0 then pure bytes
          else readFuel fuel (count - n) (offset + n) true >>= fun rest =>
            pure (bytes ++ rest) : EStateM Fault Circle _) c := by
  have hhead := h.head_lt
  obtain ⟨n, hn⟩ : ∃ n, n = sizeMin
      (continguiousCountOf ((c.head + offset) % c.getSize) c.tail c.getSize) count := ⟨_, rfl⟩
  have hpiece := h.toNat_piece offset count
  have hplace := h.toNat_place offset
  have hlt : (c.head.toNat + offset.toNat) % c.data.mem.length < c.data.mem.length := Nat.mod_lt _ (by omega)
  have hrun := (h.run_eq offset.toNat).1
  rw [← hn] at hpiece
  refine ⟨(c.data.mem.drop ((c.head + offset) % c.getSize).toNat).take n.toNat, n, hpiece, ?_⟩
  have hload : (c.data.load ((c.head + offset) % c.getSize) n : EStateM Fault Circle _) c =
      .ok ((c.data.mem.drop ((c.head + offset) % c.getSize).toNat).take n.toNat) c :=
    Data.load_of_le (by omega) c
  simp only [readFuel, if_neg hoff, get_bind, if_neg hguard, ← hn]
  rw [bind_ok hload]
  rfl

/-- At the write cursor a read of free cells makes no progress. -/
theorem readFuel_stuck (fuel : Nat) (hoff : offset ≠ noOffset) (hguard : ¬ c.getCount < offset + count)
    (hpos : count ≠ 0) (hrun : c.run offset.toNat = 0) :
    readFuel fuel count offset true c = .error .diverged c := by
  induction fuel with
  | zero => exact throw_run _ _
  | succ fuel ih =>
    obtain ⟨bytes, n, hn, hstep⟩ := readFuel_step h fuel hoff hguard
    have hzero : n = 0 := by
      rw [← UInt64.toNat_inj, hn, hrun, Nat.zero_min]
      rfl
    rw [hstep, hzero, UInt64.sub_zero, UInt64.add_zero, if_neg hpos]
    exact bind_pure_eq_error.mpr ih

/-- A consuming read of more than there is. -/
theorem readFuel_short (fuel : Nat) (hshort : c.contents.length < count.toNat) :
    readFuel (fuel + 1) count noOffset true c = .error (.thrown .readInvalidOffset) c := by
  have hguard : c.getCount < 0 + count := by
    rw [UInt64.zero_add, UInt64.lt_iff_toNat_lt, ← h.length_contents]
    exact hshort
  rw [readFuel, if_pos rfl, if_pos rfl, get_bind, if_pos hguard]
  exact throw_run _ _

/-- A read past 2^64 is refused in the end only if it meets the reserved offset. -/
theorem readFuel_wrapped (fuel : Nat) (hfuel : count.toNat < fuel) (hoff : offset ≠ noOffset)
    (hpast : WrapsPast c.contents.length offset.toNat count.toNat) :
    readFuel fuel count offset true c = .error (.thrown .readInvalidOffset) c ↔
      c.Recovers offset.toNat count.toNat := by
  induction fuel generalizing count offset with
  | zero => omega
  | succ fuel ih =>
    obtain ⟨hwrap, hback⟩ := hpast
    have hsize := h.size_le
    have hlt := h.length_lt
    have hoffset := offset.toNat_lt
    have hreserved : offset.toNat + 1 ≠ 2 ^ 64 :=
      fun hlast => hoff (UInt64.toNat_inj.mp (by change _ = 2 ^ 64 - 1; omega))
    have hguard : ¬ c.getCount < offset + count := by
      rw [lt_add_iff, ← h.length_contents]
      exact fun hin => hin.2 ⟨hwrap, hback⟩
    have hpos : count ≠ 0 := fun hzero => by
      rw [hzero, UInt64.toNat_zero] at hwrap
      omega
    obtain ⟨hrun, hnone⟩ := h.run_eq offset.toNat
    obtain ⟨hnext, hsum⟩ := h.run_next offset.toNat
    rcases Nat.eq_zero_or_pos (c.run offset.toNat) with hzero | hsome
    · rw [readFuel_stuck h _ hoff hguard hpos hzero]
      have hround := hnone hzero
      refine iff_of_false nofun ?_
      rintro ⟨-, hend | hend⟩ <;> omega
    obtain ⟨bytes, n, hn, hstep⟩ := readFuel_step h fuel hoff hguard
    rw [hstep]
    rcases Nat.lt_or_ge (c.run offset.toNat) count.toNat with hmore | hall
    swap
    · have hzero : count - n = 0 := by
        rw [← UInt64.toNat_inj, toNat_sub_of_le (by omega), UInt64.toNat_zero]
        omega
      rw [if_pos hzero]
      refine iff_of_false nofun ?_
      rintro ⟨-, hend | hend⟩ <;> omega
    have hrest : (count - n).toNat = count.toNat - c.run offset.toNat := by
      rw [toNat_sub_of_le (by omega)]
      omega
    have hne : count - n ≠ 0 := fun hzero => by
      rw [hzero, UInt64.toNat_zero] at hrest
      omega
    rw [if_neg hne, bind_pure_eq_error]
    rcases Nat.lt_trichotomy (offset.toNat + c.run offset.toNat + 1) (2 ^ 64) with hbefore | hend | hpast
    · have hmoved : (offset + n).toNat = offset.toNat + c.run offset.toNat := by
        rw [toNat_add_of_lt (by omega)]
        omega
      have hoff' : offset + n ≠ noOffset := fun heq => by
        rw [heq] at hmoved
        change 2 ^ 64 - 1 = _ at hmoved
        omega
      have hends : (offset + n).toNat + (count - n).toNat = offset.toNat + count.toNat := by
        rw [hmoved, hrest]
        omega
      have hpast : WrapsPast c.contents.length (offset + n).toNat (count - n).toNat := by
        rw [WrapsPast, hends]
        exact ⟨hwrap, hback⟩
      rw [ih (by omega) hoff' hpast]
      unfold Recovers
      rw [hends, hmoved, hnext, or_self, Nat.add_assoc offset.toNat, hsum]
      refine and_congr_right fun _ => ⟨.inr, fun hend => hend.resolve_left (Nat.ne_of_lt hbefore)⟩
    · have hmoved : offset + n = noOffset := by
        rw [← UInt64.toNat_inj, toNat_add_of_lt (by omega)]
        change _ = 2 ^ 64 - 1
        omega
      rw [hmoved]
      rcases Nat.eq_or_lt_of_le hback with hlast | hinside
      · obtain ⟨fuel, rfl⟩ : ∃ m, fuel = m + 1 := ⟨fuel - 1, by omega⟩
        exact iff_of_true (readFuel_short h fuel (by omega)) ⟨hlast, .inl hend⟩
      · obtain ⟨c', hread, -⟩ := readFuel_consume fuel h (count - n) noOffset true (.inl rfl)
          (by omega) (by omega)
        rw [hread]
        refine iff_of_false nofun fun hr => ?_
        have hlast := hr.1
        omega
    · have hmoved : (offset + n).toNat = offset.toNat + c.run offset.toNat - 2 ^ 64 := by
        rw [UInt64.toNat_add]
        omega
      rw [readFuel_peek h fuel (count - n) (offset + n) (by omega) (by omega)]
      refine iff_of_false nofun ?_
      rintro ⟨-, hend | hend⟩ <;> omega

end Walk

/-- A write that passes the check is never refused as one that does not. -/
theorem writeFuel_guarded (fuel : Nat) {c : Circle} (h : c.PowerOfTwo) {data : List UInt8}
    (hdata : data.length < 2 ^ 64)
    {offset : UInt64} (hguard : ¬ c.getCount < offset + UInt64.ofNat data.length) (c' : Circle) :
    writeFuel fuel data offset c ≠ .error (.thrown .writeInvalidOffset) c' := by
  induction fuel generalizing data offset c with
  | zero =>
    intro hrun
    cases hrun
  | succ fuel ih =>
    have hcount : (UInt64.ofNat data.length).toNat = data.length := toNat_ofNat_of_lt hdata
    intro hrun
    by_cases hoff : offset = noOffset
    · subst hoff
      have hlen := h.length_contents
      have hlt := h.length_lt
      have hsmall := h.small
      have hpos : 0 < data.length := by
        rw [lt_add_iff, WrapsPast, hcount] at hguard
        change ¬ (_ < 2 ^ 64 - 1 + _ ∧ ¬ (_ ≤ 2 ^ 64 - 1 + _ ∧ _)) at hguard
        omega
      rcases (writeFuel_refused hdata hpos _ h hrun rfl).cause with ⟨hfault, -⟩ | ⟨hfault, -⟩
      · cases hfault
      · cases hfault
    · have hstep : writeStep data offset c = placeStep data offset c := by
        rw [writeStep, if_pos hoff, get_bind, if_neg hguard]
      rw [writeFuel_succ, bind_of_eq hstep] at hrun
      rcases placeStep_cases h hdata offset with ⟨d, hplace⟩ | ⟨n, d, hn, hd, hcd, hplace | hplace⟩
      · rw [bind_error hplace] at hrun
        cases hrun
      · rw [bind_ok hplace] at hrun
        cases hrun
      · rw [bind_ok hplace] at hrun
        have hrest : UInt64.ofNat (data.drop n.toNat).length = UInt64.ofNat data.length - n := by
          rw [← UInt64.toNat_inj, toNat_sub_of_le (by omega), hcount, List.length_drop,
            toNat_ofNat_of_lt (by omega)]
        refine ih hd (by rw [List.length_drop]; omega) ?_ hrun
        rw [hcd, hrest, UInt64.add_assoc, UInt64.add_comm n, UInt64.sub_add_cancel]
        exact hguard

end Circle
end SimpleNetwork
