import SimpleNetwork.Buffer.Array

/-! `array::write(const array&, ...)`: one append of the range. A range whose end
does not fit 64 bits passes the check, and an append may write past the array. -/
namespace SimpleNetwork
open Words Slices Outcome

namespace ArrayBuffer

/-- When an append from another buffer takes all of the range or nothing. One
that passes the check because its end wraps needs that there is no space for it. -/
structure TakesWhole (dst source : ArrayBuffer) (offset count : Nat) : Prop where
  inside : offset + count ≤ source.contents.length → ¬ dst.Bursts count
  wrapped : 2 ^ 64 ≤ offset + count → offset + count ≤ 2 ^ 64 + source.contents.length →
    ¬ dst.Admits count ∧ ¬ dst.Bursts count

section Source
variable {source : ArrayBuffer} (hs : source.Valid) {offset count : UInt64}
include hs

theorem writeFrom_refused (hr : source.contents.length < (offset.toNat + count.toNat) % 2 ^ 64)
    (dst : ArrayBuffer) :
    writeFrom source offset count dst = .error (.thrown .readNoEnoughSpace) dst := by
  have hguard : source.getCount < offset + count := by
    rw [hs.count_lt_iff, UInt64.toNat_add]
    exact hr
  rw [writeFrom, if_pos hguard]
  rfl

private theorem writeFrom_passed (hr : (offset.toNat + count.toNat) % 2 ^ 64 ≤ source.contents.length) :
    writeFrom source offset count =
      source.data.appendAt (write · noOffset) (some (source.head + offset)) count := by
  have hguard : ¬ source.getCount < offset + count := by
    rw [hs.count_lt_iff, UInt64.toNat_add]
    exact Nat.not_lt.mpr hr
  rw [writeFrom, if_neg hguard]

theorem writeFrom_inside (hr : offset.toNat + count.toNat ≤ source.contents.length) :
    writeFrom source offset count =
      write ((source.contents.drop offset.toNat).take count.toNat) noOffset := by
  have hlen := hs.length_contents
  have hhead := hs.head_le
  have htail := hs.tail_le
  have hsmall := hs.small
  have hforward := hs.toNat_forward (k := offset) (by omega)
  have hbytes : source.data.bytesAt (some (source.head + offset)) count =
      some ((source.contents.drop offset.toNat).take count.toNat) := by
    rw [Data.bytesAt_inside (by omega), hforward, contents, drop_slice, take_slice (by omega)]
    rfl
  rw [writeFrom_passed hs (by omega), Data.appendAt_some hbytes]

end Source

/-- An append of bytes behind a pointer is refused, bursts, or leaves the contents longer or breaks off. -/
theorem appendAt_kept {dst : ArrayBuffer} (h : dst.Valid) (source : Data) (start : Option UInt64)
    (count : UInt64) :
    (¬ dst.Admits count.toNat ∧ ¬ dst.Bursts count.toNat ∧ ∃ (fault : Fault) (b : ArrayBuffer),
      source.appendAt (write · noOffset) start count dst = .error fault b ∧ fault.isException ∧
        b.contents = dst.contents) ∨
    ((dst.Admits count.toNat ∨ dst.Bursts count.toNat) ∧
      ∀ (fault : Fault) (b : ArrayBuffer),
        source.appendAt (write · noOffset) start count dst = .error fault b →
        ¬ fault.isException) := by
  obtain ⟨data, rest, hlen, hrest, hrun⟩ :=
    Data.appendAt_eq (write · noOffset : List UInt8 → EStateM Fault ArrayBuffer Unit)
    source start count
  rw [hrun, ← hlen]
  rcases append_settles h data (by rw [hlen]; exact count.toNat_lt) with
    ⟨hbursts, b, hwrite⟩ | ⟨hcalm, hsettles⟩
  · refine .inr ⟨.inr hbursts, fun fault b' herror => ?_⟩
    rw [bind_error hwrite] at herror
    cases herror
    exact Bool.false_ne_true
  · cases hwrite : write data noOffset dst with
    | error fault b =>
      rw [hwrite] at hsettles
      cases hsettles with
      | refused hfar hfault _ hc _ =>
        have hspace : fault.NoSpace := hfault.imp_right And.left
        exact .inl ⟨hfar, hcalm, fault, b, bind_error hwrite, hspace.isException, hc⟩
    | ok u b =>
      rw [hwrite] at hsettles
      cases hsettles with
      | done hin _ _ _ =>
        refine .inr ⟨.inl hin, fun fault b' herror => ?_⟩
        rw [bind_ok hwrite] at herror
        rcases hrest with rfl | rfl
        · cases herror
        · cases herror
          exact Bool.false_ne_true

/-- An append from another buffer takes all of the range or nothing exactly under this condition. -/
theorem takesWhole_iff {dst source : ArrayBuffer} (h : dst.Valid) (hs : source.Valid)
    {offset count : UInt64} :
    AllOrNothing contents dst source.contents offset.toNat count.toNat (writeFrom source offset count dst) ↔
      dst.TakesWhole source offset.toNat count.toNat := by
  have hlen := hs.length_contents
  have htail := hs.tail_le
  have hsmall := hs.small
  have hword := offset.toNat_lt
  have hword' := count.toNat_lt
  rcases Nat.lt_or_ge source.contents.length ((offset.toNat + count.toNat) % 2 ^ 64) with hrefused | hpassed
  · rw [writeFrom_refused hs hrefused]
    exact iff_of_true ⟨rfl, rfl⟩ ⟨fun hin => by omega, fun hwrap hr => by omega⟩
  rcases Nat.lt_or_ge (offset.toNat + count.toNat) (2 ^ 64) with hnowrap | hwrap
  · have hin : offset.toNat + count.toNat ≤ source.contents.length := by omega
    have hcount : ((source.contents.drop offset.toNat).take count.toNat).length = count.toNat := by
      rw [List.length_take, List.length_drop]
      omega
    have hwhole : dst.TakesWhole source offset.toNat count.toNat ↔ ¬ dst.Bursts count.toNat :=
      ⟨fun hwhole => hwhole.inside hin, fun hcalm => ⟨fun _ => hcalm, fun hwrap => by omega⟩⟩
    rw [hwhole, writeFrom_inside hs hin]
    rcases append_settles h ((source.contents.drop offset.toNat).take count.toNat) (by omega) with
      ⟨hbursts, b, hrun⟩ | ⟨hcalm, hsettles⟩
    · rw [hcount] at hbursts
      rw [hrun]
      exact iff_of_false (fun hall => nomatch hall.1) (not_not.mpr hbursts)
    · rw [hcount] at hcalm
      refine iff_of_true ?_ hcalm
      revert hsettles
      generalize write ((source.contents.drop offset.toNat).take count.toNat) noOffset dst = result
      intro hsettles
      cases hsettles with
      | done _ _ hc _ => exact ⟨.inr hin, hc⟩
      | @refused fault _ _ hfault _ hc _ =>
        have hspace : fault.NoSpace := hfault.imp_right And.left
        exact ⟨hspace.isException, hc⟩
  · have hr : offset.toNat + count.toNat ≤ 2 ^ 64 + source.contents.length := by omega
    have hout : ¬ (count.toNat = 0 ∨ offset.toNat + count.toNat ≤ source.contents.length) := by omega
    have hwhole : dst.TakesWhole source offset.toNat count.toNat ↔ ¬ dst.Admits count.toNat ∧
        ¬ dst.Bursts count.toNat :=
      ⟨fun hwhole => hwhole.wrapped hwrap hr, fun hboth => ⟨fun hin => by omega, fun _ _ => hboth⟩⟩
    rw [hwhole, writeFrom_passed hs hpassed]
    rcases appendAt_kept h source.data (some (source.head + offset)) count with
      ⟨hfar, hcalm, fault, b, hrun, he, hc⟩ | ⟨hbad, hbreaks⟩
    · rw [hrun]
      exact iff_of_true ⟨he, hc⟩ ⟨hfar, hcalm⟩
    · refine iff_of_false (fun hall => ?_) fun hboth => hbad.elim hboth.1 hboth.2
      revert hall
      cases hrun : source.data.appendAt (write · noOffset) (some (source.head + offset)) count dst with
      | ok u b => exact fun hall => hout hall.1
      | error fault b => exact fun hall => hbreaks fault b hrun hall.1

end ArrayBuffer
end SimpleNetwork
