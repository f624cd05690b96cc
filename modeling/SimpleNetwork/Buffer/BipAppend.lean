import SimpleNetwork.Buffer.BipQueue

/-! `bip::write(const bip&, ...)`: one append for each region of the source. The
second append may be refused after the first, and a range whose end does not fit
64 bits passes the check. -/
namespace SimpleNetwork
open Words Slices Outcome

namespace Bip

/-- When an append from another buffer takes all of the range or nothing. A
range over both regions needs space for the second part where there is space for
the first. A range that passes the check because its end wraps needs that there
is no space for its first part. -/
structure TakesWhole (dst source : Bip) (offset count : Nat) : Prop where
  inside : offset + count ≤ source.contents.length → offset < source.regionACount.toNat →
    source.regionACount.toNat - offset < count → dst.Admits (source.regionACount.toNat - offset) →
      dst.Admits count ∨ dst.Straddles (source.regionACount.toNat - offset)
        (count - (source.regionACount.toNat - offset))
  wrapped : 2 ^ 64 ≤ offset + count → offset + count ≤ 2 ^ 64 + source.contents.length →
    ¬ dst.Admits (if offset < source.regionACount.toNat then source.regionACount.toNat - offset else count) ∧
      ¬ dst.Overflows
        (if offset < source.regionACount.toNat then source.regionACount.toNat - offset else count)

def thenAppend (back : List UInt8) : EStateM Fault Bip Unit :=
  if back = [] then pure () else write back noOffset

section Source
variable {source : Bip} (hs : source.Valid) {offset count : UInt64}
include hs

theorem writeFrom_refused (hr : source.contents.length < (offset.toNat + count.toNat) % 2 ^ 64) (dst : Bip) :
    writeFrom source offset count dst = .error (.thrown .readNoEnoughSpace) dst := by
  have hguard : source.getCount < offset + count := by
    rw [hs.count_lt_iff, UInt64.toNat_add]
    exact hr
  rw [writeFrom, if_pos hguard]
  rfl

theorem Valid.passes (hr : (offset.toNat + count.toNat) % 2 ^ 64 ≤ source.contents.length) :
    ¬ source.getCount < offset + count := by
  rw [hs.count_lt_iff, UInt64.toNat_add]
  exact Nat.not_lt.mpr hr

private theorem bytesAt_regionA {n : UInt64} (hin : offset.toNat + n.toNat ≤ source.regionACount.toNat) :
    source.data.bytesAt (some (source.regionAStart + offset)) n =
      some ((source.regionA.drop offset.toNat).take n.toNat) := by
  have ha := hs.a_le
  have hsmall := hs.small
  have hplace : (source.regionAStart + offset).toNat = source.regionAStart.toNat + offset.toNat :=
    toNat_add_of_lt (by omega)
  rw [Data.bytesAt_inside (by omega), hplace, regionA, drop_slice, take_slice (by omega)]
  rfl

private theorem bytesAt_regionB (start : Option UInt64) (skipped : UInt64) {n : UInt64} (hpos : 0 < n.toNat)
    (hstart : ∀ place, source.regionBStart = some place → start = some (place + skipped))
    (hin : skipped.toNat + n.toNat ≤ source.regionBCount.toNat) :
    source.data.bytesAt start n = some ((source.regionB.drop skipped.toNat).take n.toNat) := by
  have ha := hs.a_le
  have hb := hs.b_le
  have hopen : source.regionBStart = some 0 :=
    hs.open_cases.elim (fun hnone => absurd (hs.closed hnone) (by omega)) And.left
  have hplace : (0 + skipped).toNat = skipped.toNat := by rw [UInt64.zero_add]
  rw [hstart 0 hopen, Data.bytesAt_inside (by omega), hplace, hs.regionB_eq, drop_slice,
    take_slice (by omega), Nat.zero_add]
  rfl

/-- A range that begins in region A or where it ends: the part in region A comes first. -/
theorem writeFrom_inA (hr : (offset.toNat + count.toNat) % 2 ^ 64 ≤ source.contents.length)
    (hsome : 0 < source.regionACount.toNat) (hle : offset.toNat ≤ source.regionACount.toNat) :
    ∃ n : UInt64, n.toNat = min (source.regionACount.toNat - offset.toNat) count.toNat ∧
      (count - n).toNat = count.toNat - n.toNat ∧
      writeFrom source offset count =
        write ((source.regionA.drop offset.toNat).take n.toNat) noOffset >>= fun _ =>
        if 0 < (count - n).toNat then source.data.appendAt (write · noOffset) source.regionBStart
          (count - n) else pure () := by
  obtain ⟨n, hn⟩ : ∃ n, n = sizeMin (source.regionACount - offset) count := ⟨_, rfl⟩
  have hnn : n.toNat = min (source.regionACount.toNat - offset.toNat) count.toNat := by
    rw [hn, toNat_sizeMin, toNat_sub_of_le hle]
  have hregion : source.regionACount > 0 ∧ ¬ source.regionACount < offset := by
    rw [gt_iff_lt, UInt64.lt_iff_toNat_lt, UInt64.lt_iff_toNat_lt, UInt64.toNat_zero]
    exact ⟨hsome, Nat.not_lt.mpr hle⟩
  refine ⟨n, hnn, toNat_sub_of_le (by omega), ?_⟩
  rw [writeFrom, if_neg (hs.passes hr), if_pos hregion]
  simp only [← hn, gt_iff_lt, UInt64.lt_iff_toNat_lt, UInt64.toNat_zero]
  rw [Data.appendAt_some (bytesAt_regionA hs (by omega))]

/-- Any other range is looked for behind region B's start. -/
theorem writeFrom_outA (hr : (offset.toNat + count.toNat) % 2 ^ 64 ≤ source.contents.length)
    (hout : source.regionACount.toNat = 0 ∨ source.regionACount.toNat < offset.toNat) :
    writeFrom source offset count = if 0 < count.toNat then source.data.appendAt (write · noOffset)
      (source.regionBStart.map (· + if source.regionACount > 0 then offset - source.regionACount
        else offset)) count
      else pure () := by
  have hregion : ¬ (source.regionACount > 0 ∧ ¬ source.regionACount < offset) := by
    rw [gt_iff_lt, UInt64.lt_iff_toNat_lt, UInt64.lt_iff_toNat_lt, UInt64.toNat_zero]
    omega
  rw [writeFrom, if_neg (hs.passes hr), if_neg hregion]
  simp only [gt_iff_lt, UInt64.lt_iff_toNat_lt, UInt64.toNat_zero]

/-- The part of a range in region A and the part in region B. -/
theorem contents_range (offset count : Nat) : (source.contents.drop offset).take count =
    (source.regionA.drop offset).take count ++
      (source.regionB.drop (offset - source.regionACount.toNat)).take
        (count - (source.regionACount.toNat - offset)) := by
  rw [contents, List.drop_append, List.take_append, List.length_drop, hs.length_regionA]

/-- In range the appends are of the parts of the range in the two regions. -/
theorem writeFrom_inside {dst : Bip} (h : dst.Valid)
    (hr : offset.toNat + count.toNat ≤ source.contents.length) :
    ∃ front back : List UInt8, front.length = min (source.regionACount.toNat - offset.toNat) count.toNat ∧
      front ++ back = (source.contents.drop offset.toNat).take count.toNat ∧
      writeFrom source offset count dst = (write front noOffset >>= fun _ => thenAppend back) dst := by
  have hla := hs.length_regionA
  have hlb := hs.length_regionB
  have hlen := hs.length_contents
  have hempty := hs.empty
  have hb := hs.b_le
  by_cases hin : 0 < source.regionACount.toNat ∧ offset.toNat ≤ source.regionACount.toNat
  · obtain ⟨hsome, hle⟩ := hin
    obtain ⟨n, hn, hrest, hrun⟩ :=
      writeFrom_inA hs (show (offset.toNat + count.toNat) % 2 ^ 64 ≤ _ by omega) hsome hle
    refine ⟨(source.regionA.drop offset.toNat).take n.toNat,
      source.regionB.take (count - n).toNat, ?_, ?_, ?_⟩
    · rw [List.length_take, List.length_drop]
      omega
    · rw [contents_range hs, Nat.sub_eq_zero_of_le hle, List.drop_zero, hrest, hn]
      congr 1
      · rw [← hla, ← List.length_drop, Nat.min_comm, ← List.take_eq_take_min]
      · congr 1
        omega
    · rw [hrun]
      refine congrFun (bind_congr fun _ => ?_) dst
      rw [thenAppend]
      by_cases hmore : 0 < (count - n).toNat
      · have hbytes := bytesAt_regionB hs source.regionBStart 0 hmore
          (fun place hplace => by rw [hplace, UInt64.add_zero]) (by rw [UInt64.toNat_zero]; omega)
        have hne : source.regionB.take (count - n).toNat ≠ [] := by
          rw [← List.length_pos_iff, List.length_take]
          omega
        rw [if_pos hmore, if_neg hne, Data.appendAt_some hbytes]
        rfl
      · have hnil : source.regionB.take (count - n).toNat = [] := by
          rw [Nat.eq_zero_of_not_pos hmore, List.take_zero]
        rw [if_neg hmore, if_pos hnil]
  · refine ⟨[], (source.contents.drop offset.toNat).take count.toNat, ?_, rfl, ?_⟩
    · rw [List.length_nil]
      omega
    · rw [writeFrom_outA hs (by omega) (by omega), bind_ok (append_nil h), thenAppend]
      by_cases hmore : 0 < count.toNat
      · have hsome : source.regionACount > 0 := by
          rw [gt_iff_lt, UInt64.lt_iff_toNat_lt, UInt64.toNat_zero]
          omega
        have hthere : (offset - source.regionACount).toNat =
            offset.toNat - source.regionACount.toNat := toNat_sub_of_le (by omega)
        have hbytes := bytesAt_regionB hs (source.regionBStart.map (· + (offset - source.regionACount)))
          (offset - source.regionACount) hmore (fun place hplace => by rw [hplace]; rfl) (by omega)
        have hpart : (source.contents.drop offset.toNat).take count.toNat =
            (source.regionB.drop (offset - source.regionACount).toNat).take count.toNat := by
          rw [contents, List.drop_append, List.drop_of_length_le (by omega), List.nil_append, hla, hthere]
        have hne : (source.contents.drop offset.toNat).take count.toNat ≠ [] := by
          rw [← List.length_pos_iff, List.length_take, List.length_drop]
          omega
        simp only [if_pos hsome]
        rw [if_pos hmore, if_neg hne, Data.appendAt_some hbytes, hpart]
      · have hnil : (source.contents.drop offset.toNat).take count.toNat = [] := by
          rw [Nat.eq_zero_of_not_pos hmore, List.take_zero]
        rw [if_neg hmore, if_pos hnil]

section Wrapped
variable (hwrap : 2 ^ 64 ≤ offset.toNat + count.toNat)
  (hr : offset.toNat + count.toNat ≤ 2 ^ 64 + source.contents.length)
include hwrap hr

/-- A range whose end wraps and that begins behind region A: none of its bytes is looked for inside the array. -/
theorem writeFrom_behind {dst : Bip} (h : dst.Valid) (hout : source.regionACount.toNat ≤ offset.toNat) :
    writeFrom source offset count dst =
      (write (List.replicate count.toNat 0) noOffset >>= fun _ =>
        throw .outOfBounds : EStateM Fault Bip Unit) dst := by
  have ha := hs.a_le
  have hb := hs.b_le
  have hsmall := hs.small
  have hlen := hs.length_contents
  have hword := offset.toNat_lt
  have hempty := hs.empty
  have hmore : 0 < count.toNat := by omega
  by_cases hin : 0 < source.regionACount.toNat ∧ offset.toNat ≤ source.regionACount.toNat
  · obtain ⟨n, hn, hrest, hrun⟩ :=
      writeFrom_inA hs (show (offset.toNat + count.toNat) % 2 ^ 64 ≤ _ by omega) hin.1 hin.2
    have hzero : n.toNat = 0 := by omega
    have hall : count - n = count := by
      rw [← UInt64.toNat_inj, hrest, hzero]
      rfl
    have hback : source.data.bytesAt source.regionBStart count = none :=
      Data.bytesAt_outside fun place _ => by omega
    rw [hrun, hzero, List.take_zero, bind_ok (append_nil h), hall, if_pos hmore, Data.appendAt_none hback]
  · have hback : source.data.bytesAt
        (source.regionBStart.map (· + if source.regionACount > 0 then offset - source.regionACount
          else offset)) count = none := by
      refine Data.bytesAt_outside fun place hplace => ?_
      obtain ⟨start, hstart, rfl⟩ := Option.map_eq_some_iff.mp hplace
      have hsome : 0 < source.regionACount.toNat :=
        hs.open_cases.elim (fun hnone => nomatch hnone.symm.trans hstart) And.right
      have hpos : source.regionACount > 0 := UInt64.lt_iff_toNat_lt.mpr hsome
      have hthere : (offset - source.regionACount).toNat =
          offset.toNat - source.regionACount.toNat := toNat_sub_of_le hout
      rw [hs.b_start start hstart, if_pos hpos, UInt64.zero_add, hthere]
      omega
    rw [writeFrom_outA hs (by omega) (by omega), if_pos hmore, Data.appendAt_none hback]

/-- A range whose end wraps and that begins in region A: the part in region A comes first. -/
theorem writeFrom_across (dst : Bip) (hin : offset.toNat < source.regionACount.toNat) :
    ∃ front : List UInt8, front.length = source.regionACount.toNat - offset.toNat ∧
      ∃ n, 0 < n ∧ n < 2 ^ 64 ∧ writeFrom source offset count dst = (write front noOffset >>= fun _ =>
        write (List.replicate n 0) noOffset >>= fun _ =>
          throw .outOfBounds : EStateM Fault Bip Unit) dst := by
  have ha := hs.a_le
  have hb := hs.b_le
  have hsmall := hs.small
  have hla := hs.length_regionA
  have hlen := hs.length_contents
  obtain ⟨n, hn, hrest, hrun⟩ :=
    writeFrom_inA hs (show (offset.toNat + count.toNat) % 2 ^ 64 ≤ _ by omega) (by omega) (by omega)
  have hback : source.data.bytesAt source.regionBStart (count - n) = none :=
    Data.bytesAt_outside fun place _ => by omega
  refine ⟨(source.regionA.drop offset.toNat).take n.toNat, ?_, (count - n).toNat, by
    omega, (count - n).toNat_lt, ?_⟩
  · rw [List.length_take, List.length_drop]
    omega
  · rw [hrun, if_pos (by omega), Data.appendAt_none hback]

end Wrapped

end Source

section Whole
variable {dst : Bip} (h : dst.Valid)
include h

/-- An append of bytes that are not there is refused for want of space, or breaks the promise. -/
theorem misplaced_settles {n : Nat} (hpos : 0 < n) (hn : n < 2 ^ 64) :
    (¬ dst.Admits n ∧ ¬ dst.Overflows n ∧ ∃ (fault : Fault) (b : Bip),
      (write (List.replicate n 0) noOffset >>= fun _ => throw .outOfBounds : EStateM Fault Bip Unit)
        dst = .error fault b ∧
        fault.NoSpace ∧ b.contents = dst.contents) ∨
    (dst.Admits n ∨ dst.Overflows n) ∧ ∃ b : Bip,
      (write (List.replicate n 0) noOffset >>= fun _ => throw .outOfBounds : EStateM Fault Bip Unit)
        dst = .error .outOfBounds b := by
  have hlen : (List.replicate n (0 : UInt8)).length = n := List.length_replicate
  have hsettles := append_settles h (List.replicate n 0) (by omega) (by omega)
  cases hwrite : write (List.replicate n 0) noOffset dst with
  | ok u b =>
    rw [hwrite] at hsettles
    cases hsettles with
    | done hin _ _ _ _ =>
      rw [hlen] at hin
      exact .inr ⟨.inl hin, b, bind_ok hwrite⟩
  | error fault b =>
    rw [hwrite] at hsettles
    cases hsettles with
    | refused hfar hin hfault _ hc _ =>
      rw [hlen] at hfar hin
      exact .inl ⟨hfar, hin, fault, b, bind_error hwrite, hfault.noSpace, hc⟩
    | overrun hover =>
      rw [hlen] at hover
      exact .inr ⟨.inr hover, b, bind_error hwrite⟩

private theorem not_overflows {n : Nat} (hn : n < 2 ^ 63) : ¬ dst.Overflows n := by
  have ha := h.a_le
  have hb := h.b_le
  have hsmall := h.small
  rintro ⟨-, hwrap⟩
  omega

/-- One append is all or nothing. -/
theorem single_whole (data : List UInt8) (hdata : data.length < 2 ^ 63) :
    (∃ b, write data noOffset dst = .ok () b ∧ b.Valid ∧ b.contents = dst.contents ++ data) ∨
    ∃ (fault : Fault) (b : Bip), write data noOffset dst = .error fault b ∧ fault.isException ∧
      b.contents = dst.contents := by
  rcases append_spec h hdata with ⟨b, hrun, hv, hc, -⟩ | ⟨fault, b, hrun, hfault, hv, hc, -⟩
  · exact .inl ⟨b, hrun, hv, hc⟩
  · exact .inr ⟨fault, b, hrun, hfault.isException, hc⟩

/-- Two appends are, unless the second is refused after the first. -/
theorem pair_whole {front back bytes : List UInt8} {offset count : Nat} (hin : offset + count ≤ bytes.length)
    (hjoin : front ++ back = (bytes.drop offset).take count) (hsmall : front.length + back.length < 2 ^ 63) :
    AllOrNothing contents dst bytes offset count ((write front noOffset >>= fun _ => thenAppend back) dst) ↔
      (0 < front.length → 0 < back.length → dst.Admits front.length →
        dst.Admits (front.length + back.length) ∨ dst.Straddles front.length back.length) := by
  rcases Nat.eq_zero_or_pos front.length with hzero | hpos
  · have hnil := List.eq_nil_of_length_eq_zero hzero
    subst hnil
    rw [List.nil_append] at hjoin
    rw [bind_ok (append_nil h), thenAppend]
    refine iff_of_true ?_ fun hpos => absurd hpos (Nat.lt_irrefl 0)
    by_cases hback : back = []
    · rw [if_pos hback]
      exact ⟨.inr hin, by rw [← hjoin, hback, List.append_nil]⟩
    · rw [if_neg hback]
      rcases single_whole h back (by omega) with ⟨b, hrun, -, hc⟩ | ⟨fault, b, hrun, hfault, hc⟩
      · rw [hrun]
        exact ⟨.inr hin, by rw [hc, hjoin]⟩
      · rw [hrun]
        exact ⟨hfault, hc⟩
  · have hsettles := append_settles h front (by omega) hpos
    cases hwrite : write front noOffset dst with
    | error fault b =>
      rw [hwrite] at hsettles
      rw [bind_error hwrite]
      cases hsettles with
      | refused hfar _ hfault _ hc _ =>
        exact iff_of_true ⟨hfault.noSpace.isException, hc⟩ fun _ _ hadmits => absurd hadmits hfar
      | overrun hover => exact absurd hover (not_overflows h (by omega))
    | ok u b =>
      rw [hwrite] at hsettles
      rw [bind_ok hwrite, thenAppend]
      cases hsettles with
      | done hfits hv hc _ hnext =>
        by_cases hback : back = []
        · rw [if_pos hback]
          refine iff_of_true ⟨.inr hin, ?_⟩ fun _ hmore => ?_
          · rw [hc, ← hjoin, hback, List.append_nil]
          · rw [hback] at hmore
            exact absurd hmore (Nat.lt_irrefl 0)
        · rw [if_neg hback]
          have hmore := List.length_pos_iff.mpr hback
          have hsettles' := append_settles hv back (by omega) hmore
          revert hsettles'
          generalize write back noOffset b = result
          intro hsettles'
          cases hsettles' with
          | refused hfar _ _ _ hc' _ =>
            refine iff_of_false (fun hall => ?_) fun hcond =>
              hfar ((hnext _ hmore).mpr (hcond hpos hmore hfits))
            have hsame := congrArg List.length (hc'.symm.trans hall.2)
            rw [hc, List.length_append] at hsame
            omega
          | overrun hover => exact absurd hover (not_overflows hv (by omega))
          | done hfits' _ hc' _ _ =>
            refine iff_of_true ⟨.inr hin, ?_⟩ fun _ _ _ => (hnext _ hmore).mp hfits'
            rw [hc', hc, List.append_assoc, hjoin]

section Source
variable {source : Bip} (hs : source.Valid) {offset count : UInt64}
include hs

private theorem whole_inside (hr : offset.toNat + count.toNat ≤ source.contents.length) :
    AllOrNothing contents dst source.contents offset.toNat count.toNat (writeFrom source offset count dst) ↔
      dst.TakesWhole source offset.toNat count.toNat := by
  have ha := hs.a_le
  have hb := hs.b_le
  have hsmall := hs.small
  have hlen := hs.length_contents
  obtain ⟨front, back, hfront, hjoin, hrun⟩ := writeFrom_inside hs h hr
  have hsum := congrArg List.length hjoin
  rw [List.length_append, List.length_take, List.length_drop] at hsum
  rw [hrun, pair_whole h hr hjoin (by omega)]
  constructor
  · intro hcond
    refine ⟨fun _ hfirst hrest hadmits => ?_, fun hwrap => by omega⟩
    have heq : front.length = source.regionACount.toNat - offset.toNat := by omega
    have hback : back.length = count.toNat - (source.regionACount.toNat - offset.toNat) := by omega
    have hall := hcond (by omega) (by omega) (by rw [heq]; exact hadmits)
    rw [hback, heq, Nat.add_sub_cancel' (Nat.le_of_lt hrest)] at hall
    exact hall
  · intro hwhole hfirst hrest hadmits
    have heq : front.length = source.regionACount.toNat - offset.toNat := by omega
    have hback : back.length = count.toNat - (source.regionACount.toNat - offset.toNat) := by omega
    have hall := hwhole.inside hr (by omega) (by omega) (by rw [← heq]; exact hadmits)
    rw [hback, heq, Nat.add_sub_cancel' (by omega)]
    exact hall

/-- Whatever is appended of a range that is not in the source breaks the promise. -/
theorem whole_wrapped (hwrap : 2 ^ 64 ≤ offset.toNat + count.toNat)
    (hr : offset.toNat + count.toNat ≤ 2 ^ 64 + source.contents.length) {n : Nat}
    (hn : n = if offset.toNat < source.regionACount.toNat then
      source.regionACount.toNat - offset.toNat else count.toNat) :
    AllOrNothing contents dst source.contents offset.toNat count.toNat (writeFrom source offset count dst) ↔
      ¬ dst.Admits n ∧ ¬ dst.Overflows n := by
  have ha := hs.a_le
  have hsmall := hs.small
  have hword := offset.toNat_lt
  have hword' := count.toNat_lt
  by_cases hin : offset.toNat < source.regionACount.toNat
  · obtain ⟨front, hfront, m, hm, hm', hrun⟩ := writeFrom_across hs hwrap hr dst hin
    rw [if_pos hin, ← hfront] at hn
    rw [hrun, hn]
    have hsettles := append_settles h front (by omega) (by omega)
    cases hwrite : write front noOffset dst with
    | error fault b =>
      rw [hwrite] at hsettles
      rw [bind_error hwrite]
      cases hsettles with
      | refused hfar hno hfault _ hc _ => exact iff_of_true ⟨hfault.noSpace.isException, hc⟩ ⟨hfar, hno⟩
      | overrun hover => exact iff_of_false (fun hall => nomatch hall.1) fun hboth => hboth.2 hover
    | ok u b =>
      rw [hwrite] at hsettles
      rw [bind_ok hwrite]
      cases hsettles with
      | done hfits hv hc _ _ =>
        refine iff_of_false (fun hall => ?_) fun hboth => hboth.1 hfits
        rcases misplaced_settles hv hm hm' with ⟨-, -, fault, b', hrest, -, hc'⟩ | ⟨-, b', hrest⟩
        · rw [hrest] at hall
          have hsame := congrArg List.length (hc'.symm.trans hall.2)
          rw [hc, List.length_append] at hsame
          omega
        · rw [hrest] at hall
          exact nomatch hall.1
  · rw [if_neg hin] at hn
    rw [writeFrom_behind hs hwrap hr h (Nat.not_lt.mp hin), hn]
    rcases misplaced_settles h (show 0 < count.toNat by omega) hword' with
      ⟨hfar, hno, fault, b, hrun, hfault, hc⟩ | ⟨hbad, b, hrun⟩
    · rw [hrun]
      exact iff_of_true ⟨hfault.isException, hc⟩ ⟨hfar, hno⟩
    · rw [hrun]
      exact iff_of_false (fun hall => nomatch hall.1) fun hboth => hbad.elim hboth.1 hboth.2

/-- An append from another buffer takes all of the range or nothing exactly under this condition. -/
theorem takesWhole_iff :
    AllOrNothing contents dst source.contents offset.toNat count.toNat (writeFrom source offset count dst) ↔
      dst.TakesWhole source offset.toNat count.toNat := by
  have ha := hs.a_le
  have hb := hs.b_le
  have hsmall := hs.small
  have hlen := hs.length_contents
  rcases Nat.lt_or_ge source.contents.length ((offset.toNat + count.toNat) % 2 ^ 64) with hrefused | hpassed
  · rw [writeFrom_refused hs hrefused]
    exact iff_of_true ⟨rfl, rfl⟩ ⟨fun hin => by omega, fun hwrap hr => by omega⟩
  rcases Nat.lt_or_ge (offset.toNat + count.toNat) (2 ^ 64) with hword | hwrap
  · exact whole_inside h hs (by omega)
  · have hword := offset.toNat_lt
    have hword' := count.toNat_lt
    rw [whole_wrapped h hs hwrap (by omega) rfl]
    exact ⟨fun hboth => ⟨fun hin => by omega, fun _ _ => hboth⟩,
      fun hwhole => hwhole.wrapped hwrap (by omega)⟩

end Source

end Whole

end Bip
end SimpleNetwork
