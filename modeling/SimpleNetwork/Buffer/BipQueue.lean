import SimpleNetwork.Buffer.BipSpec

/-! The writes of `bip`, and its refinement of a byte queue over whole runs. -/
namespace SimpleNetwork
open Runs Words Slices

namespace Bip

/-- How an append ends: the bytes are the last of the contents, or there is no space for them. -/
def Appended (b : Bip) (data : List UInt8) (r : EStateM.Result Fault Bip Unit) : Prop :=
  (∃ b', r = .ok () b' ∧ b'.Valid ∧ b'.contents = b.contents ++ data ∧ b'.data.maxSize = b.data.maxSize) ∨
  ∃ (fault : Fault) (b' : Bip), r = .error fault b' ∧ fault.NoSpace ∧ b'.Valid ∧ b'.contents = b.contents ∧
    b'.data.maxSize = b.data.maxSize

private theorem writeA_behind {b : Bip} (data : List UInt8) {offset : UInt64}
    (hoff : b.regionACount.toNat ≤ offset.toNat) :
    writeA data offset b = .ok 0 b := by
  have hguard : ¬ b.regionACount > offset := by
    rw [gt_iff_lt, UInt64.lt_iff_toNat_lt]
    omega
  rw [writeA, Outcome.get_bind, if_neg hguard]
  rfl

/-- The bytes fit where the next append puts them. -/
def RoomNow (b : Bip) (count : Nat) : Prop :=
  if b.regionBStart = none then
    if b.regionAStart.toNat < b.data.mem.length - b.regionAStart.toNat - b.regionACount.toNat
    then count ≤ b.data.mem.length - b.regionAStart.toNat - b.regionACount.toNat
    else count ≤ b.regionAStart.toNat
  else b.regionBCount.toNat + count ≤ b.regionAStart.toNat

/-- The bytes fit now or after growth. -/
def Admits (b : Bip) (count : Nat) : Prop :=
  b.RoomNow count ∨ Data.Reaches b.data.mem.length b.data.maxSize.toNat (b.contents.length + count)

/-- The first bytes leave less room behind region A than there is before it, so
the next ones open region B and fit there. -/
def Straddles (b : Bip) (count more : Nat) : Prop :=
  b.regionBStart = none ∧ b.regionAStart.toNat <
    b.data.mem.length - b.regionAStart.toNat - b.regionACount.toNat ∧
    count ≤ b.data.mem.length - b.regionAStart.toNat - b.regionACount.toNat ∧
    b.data.mem.length - b.regionAStart.toNat - b.regionACount.toNat ≤ b.regionAStart.toNat + count ∧
    more ≤ b.regionAStart.toNat

/-- The new count of region B is beyond 64 bits. -/
def Overflows (b : Bip) (count : Nat) : Prop := b.regionBStart ≠ none ∧ 2 ^ 64 ≤ b.regionBCount.toNat + count

theorem RoomNow.mono {b : Bip} {m n : Nat} (h : b.RoomNow n) (hle : m ≤ n) : b.RoomNow m := by
  unfold RoomNow at h ⊢
  split_ifs at h ⊢ <;> omega

structure Stored (b : Bip) (data : List UInt8) (b' : Bip) : Prop where
  valid : b'.Valid
  contents_eq : b'.contents = b.contents ++ data
  size_eq : b'.data.mem.length = b.data.mem.length
  maxSize_eq : b'.data.maxSize = b.data.maxSize
  room : ∀ more, 0 < more → (b'.RoomNow more ↔ b.RoomNow (data.length + more) ∨ b.Straddles data.length more)

/-- The array may not grow any more, or the machine has no array as long as the bound allows. -/
def Denies (b : Bip) (fault : Fault) : Prop :=
  fault = .thrown .writeNoSpace ∨ fault = .badAlloc ∧ 2 ^ 62 ≤ b.data.maxSize.toNat

theorem Denies.noSpace {b : Bip} {fault : Fault} (h : b.Denies fault) : fault.NoSpace := h.imp_right And.left

inductive AppendSettles (b : Bip) (data : List UInt8) : EStateM.Result Fault Bip Unit → Prop
  | refused {fault : Fault} {b' : Bip} (hfar : ¬ b.Admits data.length) (hin : ¬ b.Overflows data.length) (hfault : b.Denies fault)
      (hv : b'.Valid) (hc : b'.contents = b.contents) (hm : b'.data.maxSize = b.data.maxSize) :
      AppendSettles b data (.error fault b')
  | overrun {b' : Bip} (hover : b.Overflows data.length) : AppendSettles b data (.error .outOfBounds b')
  | done {b' : Bip} (hin : b.Admits data.length) (hv : b'.Valid) (hc : b'.contents = b.contents ++ data)
      (hm : b'.data.maxSize = b.data.maxSize)
      (hnext : ∀ more, 0 < more → (b'.Admits more ↔ b.Admits (data.length + more) ∨
        b.Straddles data.length more)) :
      AppendSettles b data (.ok () b')

section Append
variable {b : Bip} (h : b.Valid) {data : List UInt8} (hdata : data.length < 2 ^ 64) (hpos : 0 < data.length)
  {offset : UInt64} (hoffset : offset.toNat = b.contents.length)
include h hdata hpos hoffset

/-- The bytes of an append go behind region B when it is open. -/
theorem writeRest_open (hopen : b.regionBStart = some 0) (ha : 0 < b.regionACount.toNat)
    (hin : b.regionBCount.toNat + data.length < 2 ^ 64) :
    (b.RoomNow data.length ∧ ∃ b', writeRest data offset (UInt64.ofNat data.length) b = .ok () b' ∧
      Stored b data b') ∨
    ¬ b.RoomNow data.length ∧ writeRest data offset (UInt64.ofNat data.length) b =
      .error (.thrown .writeNoSpace) b := by
  have hale := h.a_le
  have hble := h.b_le
  have hsmall := h.small
  have hlen := h.length_contents
  have hbspace := h.toNat_getBSpace hopen
  have hcount : (UInt64.ofNat data.length).toNat = data.length := toNat_ofNat_of_lt hdata
  have hroom (n : Nat) : b.RoomNow n ↔ b.regionBCount.toNat + n ≤ b.regionAStart.toNat := by
    rw [RoomNow, if_neg (by rw [hopen]; nofun)]
  have hbehind : offset - b.regionACount = b.regionBCount := by
    rw [← UInt64.toNat_inj, toNat_sub_of_le (by omega)]
    omega
  have hsum : (b.regionBCount + UInt64.ofNat data.length).toNat = b.regionBCount.toNat + data.length := by
    rw [toNat_add_of_lt (by omega), hcount]
  have hmax : sizeMax b.regionBCount (offset - b.regionACount + UInt64.ofNat data.length) =
      b.regionBCount + UInt64.ofNat data.length := by
    rw [hbehind, sizeMax, if_pos]
    rw [UInt64.lt_iff_toNat_lt]
    omega
  have hdiff : (b.regionBCount + UInt64.ofNat data.length - b.regionBCount).toNat = data.length := by
    rw [toNat_sub_of_le (by omega), hsum]
    omega
  have hguard : b.getBSpace < b.regionBCount + UInt64.ofNat data.length - b.regionBCount ↔
      b.regionAStart.toNat < b.regionBCount.toNat + data.length := by
    rw [UInt64.lt_iff_toNat_lt, hdiff, hbspace]
    omega
  rw [hroom, writeRest, Outcome.get_bind]
  simp only [hopen, hmax]
  by_cases hfull : b.regionAStart.toNat < b.regionBCount.toNat + data.length
  · rw [if_pos (hguard.mpr hfull)]
    exact .inr ⟨by omega, rfl⟩
  · obtain ⟨hstore, hv, hc⟩ := h.growB ha hcount (by omega) (.inr (by rw [hopen]; nofun))
    rw [if_neg (fun hn => hfull (hguard.mp hn))]
    simp only [ne_eq, not_true_eq_false, if_false, hbehind, UInt64.zero_add]
    rw [Outcome.bind_ok hstore]
    refine .inl ⟨by omega, _, rfl, hv, hc, CellRing.length_overwrite (by omega), rfl, fun more _ => ?_⟩
    have hnot : ¬ b.Straddles data.length more := fun hs => nomatch hopen.symm.trans hs.1
    rw [RoomNow, if_neg nofun, hroom, or_iff_left hnot]
    change (b.regionBCount + UInt64.ofNat data.length).toNat + more ≤ _ ↔ _
    rw [hsum, Nat.add_assoc]

/-- A count of region B beyond 64 bits passes the space check, and the copy does not fit. -/
theorem writeRest_overflow (hover : b.Overflows data.length) :
    writeRest data offset (UInt64.ofNat data.length) b = .error .outOfBounds b := by
  have hale := h.a_le
  have hble := h.b_le
  have hsmall := h.small
  have hlen := h.length_contents
  have hopen : b.regionBStart = some 0 := h.open_cases.elim (fun hnone => absurd hnone hover.1) And.left
  have hcount : (UInt64.ofNat data.length).toNat = data.length := toNat_ofNat_of_lt hdata
  have hwrap := hover.2
  have hbehind : offset - b.regionACount = b.regionBCount := by
    rw [← UInt64.toNat_inj, toNat_sub_of_le (by omega)]
    omega
  have hmax : sizeMax b.regionBCount (b.regionBCount + UInt64.ofNat data.length) = b.regionBCount := by
    rw [sizeMax, if_neg]
    rw [UInt64.lt_iff_toNat_lt, UInt64.toNat_add, hcount]
    omega
  have hguard : ¬ b.getBSpace < b.regionBCount - b.regionBCount := by
    rw [UInt64.sub_self, UInt64.lt_iff_toNat_lt]
    exact Nat.not_lt_zero _
  have hstore : (b.data.store b.regionBCount data : EStateM Fault Bip Data) b = .error .outOfBounds b := by
    rw [Data.store, if_neg (by omega)]
    rfl
  rw [writeRest, Outcome.get_bind]
  simp only [hopen, hbehind, hmax, if_neg hguard, ne_eq, not_true_eq_false, if_false, UInt64.zero_add]
  exact Outcome.bind_error hstore

omit hoffset in
/-- With region B closed they go behind region A or open region B, where there is more room. -/
theorem writeRest_closed (hnone : b.regionBStart = none) :
    (b.RoomNow data.length ∧ ∃ b', writeRest data offset (UInt64.ofNat data.length) b = .ok () b' ∧
      Stored b data b') ∨
    ¬ b.RoomNow data.length ∧ writeRest data offset (UInt64.ofNat data.length) b =
      .error (.thrown .writeNoSpace) b := by
  have hale := h.a_le
  have hsmall := h.small
  have hclosed := h.closed hnone
  have haspace := h.toNat_getASpace
  have hcount : (UInt64.ofNat data.length).toNat = data.length := toNat_ofNat_of_lt hdata
  have hzero : b.regionBCount = 0 := UInt64.toNat_inj.mp hclosed
  have hmore : b.getASpace > b.getSpaceBeforeA ↔
      b.regionAStart.toNat < b.data.mem.length - b.regionAStart.toNat - b.regionACount.toNat := by
    rw [gt_iff_lt, UInt64.lt_iff_toNat_lt, haspace]
    rfl
  have hroom (n : Nat) : b.RoomNow n ↔
      if b.regionAStart.toNat < b.data.mem.length - b.regionAStart.toNat - b.regionACount.toNat
      then n ≤ b.data.mem.length - b.regionAStart.toNat - b.regionACount.toNat
        else n ≤ b.regionAStart.toNat := by
    rw [RoomNow, if_pos hnone]
  rw [hroom, writeRest, Outcome.get_bind]
  simp only [hnone, UInt64.sub_self, UInt64.toNat_zero, List.drop_zero]
  by_cases hbehind : b.getASpace > b.getSpaceBeforeA
  · rw [if_pos hbehind, if_pos (hmore.mp hbehind)]
    rw [hmore] at hbehind
    by_cases hfull : b.getASpace < UInt64.ofNat data.length
    · rw [if_pos hfull]
      rw [UInt64.lt_iff_toNat_lt] at hfull
      exact .inr ⟨by omega, rfl⟩
    · have hfits := mt UInt64.lt_iff_toNat_lt.mpr hfull
      obtain ⟨hstore, hv, hc⟩ := h.growA hnone hcount (by omega)
      have hplace : (b.regionAStart + b.regionACount).toNat = b.regionAStart.toNat + b.regionACount.toNat :=
        toNat_add_of_lt (by omega)
      have hsum : (b.regionACount + UInt64.ofNat data.length).toNat = b.regionACount.toNat + data.length := by
        rw [toNat_add_of_lt (by omega), hcount]
      have hsame : (CellRing.overwrite b.data.mem
          (b.regionAStart + b.regionACount).toNat data).length = b.data.mem.length :=
        CellRing.length_overwrite (by omega)
      rw [if_neg hfull, Outcome.bind_ok hstore]
      simp only [hnone] at hv hc
      refine .inl ⟨by omega, _, rfl, hv, hc, hsame, rfl, fun more hmorepos => ?_⟩
      rw [RoomNow, if_pos rfl, hroom, if_pos hbehind, Straddles]
      simp only [hsum, hsame, hnone, true_and]
      split_ifs <;> omega
  · rw [if_neg hbehind, if_neg (mt hmore.mpr hbehind)]
    rw [hmore] at hbehind
    by_cases hfull : b.getSpaceBeforeA < UInt64.ofNat data.length
    · rw [if_pos hfull]
      rw [UInt64.lt_iff_toNat_lt] at hfull
      unfold getSpaceBeforeA at hfull
      exact .inr ⟨by omega, rfl⟩
    · have hfits : data.length ≤ b.regionAStart.toNat := by
        have := mt UInt64.lt_iff_toNat_lt.mpr hfull
        unfold getSpaceBeforeA at this
        omega
      have ha : 0 < b.regionACount.toNat := by
        by_contra hnot
        have := h.empty (by omega)
        omega
      obtain ⟨hstore, hv, hc⟩ := h.growB ha hcount (by omega) (.inl (by omega))
      have hfront := (congrArg (fun start => b.data.store start data b) hzero.symm).trans hstore
      have hsum : (b.regionBCount + UInt64.ofNat data.length).toNat = data.length := by
        rw [hzero, UInt64.zero_add, hcount]
      rw [if_neg hfull, hcount, List.take_length, Outcome.bind_ok hfront]
      refine .inl ⟨hfits, _, rfl, hv, hc, CellRing.length_overwrite (by omega), rfl, fun more _ => ?_⟩
      have hnot : ¬ b.Straddles data.length more := fun hs => hbehind hs.2.1
      rw [RoomNow, if_neg nofun, hroom, if_neg hbehind, or_iff_left hnot]
      change (b.regionBCount + UInt64.ofNat data.length).toNat + more ≤ _ ↔ _
      rw [hsum]

private theorem writeRest_settles :
    (b.RoomNow data.length ∧ ∃ b', writeRest data offset (UInt64.ofNat data.length) b = .ok () b' ∧
      Stored b data b') ∨
    (¬ b.RoomNow data.length ∧ ¬ b.Overflows data.length ∧
      writeRest data offset (UInt64.ofNat data.length) b = .error (.thrown .writeNoSpace) b) ∨
    b.Overflows data.length ∧ writeRest data offset (UInt64.ofNat data.length) b = .error .outOfBounds b := by
  rcases h.open_cases with hnone | ⟨hopen, ha⟩
  · rcases writeRest_closed h hdata hpos hnone with hdone | ⟨hroom, hrun⟩
    · exact .inl hdone
    · exact .inr (.inl ⟨hroom, fun hover => hover.1 hnone, hrun⟩)
  · by_cases hover : b.Overflows data.length
    · exact .inr (.inr ⟨hover, writeRest_overflow h hdata hpos hoffset hover⟩)
    · have hin : b.regionBCount.toNat + data.length < 2 ^ 64 := by
        by_contra hnot
        exact hover ⟨by rw [hopen]; nofun, by omega⟩
      rcases writeRest_open h hdata hpos hoffset hopen ha hin with hdone | ⟨hroom, hrun⟩
      · exact .inl hdone
      · exact .inr (.inl ⟨hroom, hover, hrun⟩)

/-- A round of an append is the last one, grows the array, or finds that it cannot. -/
theorem writeRound_append :
    (b.RoomNow data.length ∧ ∃ b', writeRound data offset b = .ok false b' ∧ Stored b data b') ∨
    (¬ b.RoomNow data.length ∧ ¬ b.Overflows data.length ∧
      ((∃ b', writeRound data offset b = .ok true b' ∧ Regrown b b') ∨
      ∃ fault : Fault, writeRound data offset b = .error fault b ∧ b.Denies fault ∧
        ∀ need, ¬ Data.Reaches b.data.mem.length b.data.maxSize.toNat need)) ∨
    b.Overflows data.length ∧ writeRound data offset b = .error .outOfBounds b := by
  have hlen := h.length_contents
  have hcount : (UInt64.ofNat data.length).toNat = data.length := toNat_ofNat_of_lt hdata
  have hsome : UInt64.ofNat data.length > 0 := by
    rw [gt_iff_lt, UInt64.lt_iff_toNat_lt, hcount]
    exact hpos
  rw [writeRound, Outcome.bind_ok (writeA_behind data (by omega))]
  simp only [UInt64.sub_zero, if_pos hsome]
  rcases writeRest_settles h hdata hpos hoffset with
    ⟨hroom, b', hrun, hstored⟩ | ⟨hroom, hin, hrun⟩ | ⟨hover, hrun⟩
  · exact .inl ⟨hroom, b', catchAll_ok (by rw [Outcome.bind_ok hrun]; rfl), hstored⟩
  · have hcatch : catchAll (do writeRest data offset (UInt64.ofNat data.length); pure false)
      (do expand; pure true) b =
        (do expand; pure true : EStateM Fault Bip Bool) b := catchAll_exception (Outcome.bind_error hrun) rfl
    rw [hcatch]
    refine .inr (.inl ⟨hroom, hin, ?_⟩)
    rcases Nat.eq_or_lt_of_le h.size_le with hmax | hmax
    · exact .inr ⟨_, Outcome.bind_error (expand_refused h hmax), .inl rfl,
        fun _ => Data.not_reaches (.inl hmax)⟩
    · rcases Nat.lt_or_ge (min (4 * b.data.mem.length) b.data.maxSize.toNat) (2 ^ 62) with halloc | halloc
      · obtain ⟨b', hexp, hg⟩ := expand_spec h hmax halloc
        exact .inl ⟨b', by rw [Outcome.bind_ok hexp]; rfl, hg⟩
      · exact .inr ⟨_, Outcome.bind_error (expand_unaffordable h hmax halloc), .inr ⟨rfl, by omega⟩,
          fun _ => Data.not_reaches (.inr halloc)⟩
  · exact .inr (.inr ⟨hover, catchAll_other (Outcome.bind_error hrun) (by decide)⟩)

end Append

section Grown
variable {b b' : Bip} (hg : Regrown b b') (h : b.Valid)
include hg

/-- All free room of a regrown buffer is behind region A. -/
theorem Regrown.roomNow {count : Nat} (hpos : 0 < count) : b'.RoomNow count ↔
    b.contents.length + count ≤ b'.data.mem.length := by
  have hale := hg.valid.a_le
  have hlen := hg.valid.length_contents
  have hclosed := hg.valid.closed hg.b_start
  have hstart : b'.regionAStart.toNat = 0 := by rw [hg.a_start]; rfl
  rw [hg.contents_eq] at hlen
  rw [RoomNow, if_pos hg.b_start]
  split_ifs <;> omega

include h in
theorem Regrown.admits {count : Nat} (hpos : 0 < count) (hroom : ¬ b.RoomNow count) :
    b.Admits count ↔ b'.Admits count := by
  have hsize := hg.size_eq
  have hlt := hg.size_lt
  have hsmall := hg.valid.small
  have hbound := h.size_le
  rw [Admits, Admits, or_iff_right hroom, Data.reaches_step (by omega) (by omega), hg.roomNow hpos,
    hg.contents_eq, hg.maxSize_eq,
    ← hsize]

include h in
/-- What an append in the regrown buffer leaves is what it leaves in the old one. -/
theorem AppendSettles.of_regrown {data : List UInt8} (hpos : 0 < data.length)
    (hroom : ¬ b.RoomNow data.length)
    (hin : ¬ b.Overflows data.length) {r : EStateM.Result Fault Bip Unit} (happ : AppendSettles b' data r) :
    AppendSettles b data r := by
  have hadmits (more : Nat) : b.Admits (data.length + more) ↔ b'.Admits (data.length + more) :=
    hg.admits h (by omega) fun hmore => hroom (hmore.mono (Nat.le_add_right _ _))
  have hzero : b'.regionAStart.toNat = 0 := by rw [hg.a_start]; rfl
  cases happ with
  | refused hfar _ hfault hv hc hm =>
    exact .refused (mt (hadmits 0).mp hfar) hin
      (hfault.imp_right (And.imp_right (hg.maxSize_eq ▸ id))) hv (hc.trans hg.contents_eq)
      (hm.trans hg.maxSize_eq)
  | overrun hover => exact absurd hg.b_start hover.1
  | done hfits hv hc hm hnext =>
    refine .done ((hadmits 0).mpr hfits) hv (by rw [hc, hg.contents_eq])
      (hm.trans hg.maxSize_eq) fun more hmore => ?_
    have hno : ¬ b.Straddles data.length more := by
      rintro ⟨hnone, hbehind, hfit, -, -⟩
      rw [RoomNow, if_pos hnone, if_pos hbehind] at hroom
      exact hroom hfit
    have hno' : ¬ b'.Straddles data.length more := by
      rintro ⟨-, -, -, -, hbefore⟩
      omega
    rw [hnext more hmore, or_iff_left hno', or_iff_left hno, hadmits]

end Grown

/-- One round of an append and the rest of them. -/
theorem writeFuel_round {data : List UInt8} (hdata : data.length < 2 ^ 64) (hpos : 0 < data.length)
    {fuel : Nat}
    {b : Bip} (h : b.Valid) {offset : UInt64} (hoffset : offset.toNat = b.contents.length)
    (hnext : ∀ b', Regrown b b' → AppendSettles b' data (writeFuel fuel data offset b')) :
    AppendSettles b data (writeFuel (fuel + 1) data offset b) := by
  rw [writeFuel]
  rcases writeRound_append h hdata hpos hoffset with
    ⟨hroom, b', hrun, hstored⟩ | ⟨hroom, hin, ⟨b', hrun, hg⟩ | ⟨fault, hrun, hfault, hno⟩⟩ | ⟨hover, hrun⟩
  · rw [Outcome.bind_ok hrun]
    refine .done (.inl hroom) hstored.valid hstored.contents_eq hstored.maxSize_eq fun more hmore => ?_
    rw [Admits, Admits, hstored.room more hmore, hstored.size_eq, hstored.maxSize_eq,
      hstored.contents_eq, List.length_append,
      Nat.add_assoc, or_right_comm]
  · rw [Outcome.bind_ok hrun]
    exact (hnext b' hg).of_regrown hg h hpos hroom hin
  · rw [Outcome.bind_error hrun]
    exact .refused (fun hadmits => hadmits.elim hroom (hno _)) hin hfault h rfl rfl
  · rw [Outcome.bind_error hrun]
    exact .overrun hover

/-- Each round of an append multiplies the size by four until it is the bound. -/
theorem writeFuel_append {data : List UInt8} (hdata : data.length < 2 ^ 64) (hpos : 0 < data.length)
    (fuel : Nat)
    {b : Bip} (h : b.Valid) {offset : UInt64} (hoffset : offset.toNat = b.contents.length)
    (hfuel : b.data.maxSize.toNat ≤ b.data.mem.length * 4 ^ fuel) :
    AppendSettles b data (writeFuel (fuel + 1) data offset b) := by
  induction fuel generalizing b with
  | zero =>
    refine writeFuel_round hdata hpos h hoffset fun b' hg => ?_
    have hlt := hg.size_lt
    have heq := hg.size_eq
    omega
  | succ fuel ih =>
    refine writeFuel_round hdata hpos h hoffset fun b' hg => ?_
    refine ih hg.valid (by rw [hg.contents_eq]; exact hoffset) ?_
    rw [hg.maxSize_eq, hg.size_eq]
    exact Data.grown_bound hfuel

theorem writeRound_nil {b : Bip} (h : b.Valid) {offset : UInt64}
    (hoffset : offset.toNat = b.contents.length) :
    writeRound [] offset b = .ok false b := by
  rw [writeRound, Outcome.bind_ok (writeA_behind [] (by rw [hoffset, h.length_contents]; omega))]
  rfl

theorem append_nil {b : Bip} (h : b.Valid) : write [] noOffset b = .ok () b := by
  rw [write, Outcome.get_bind, if_pos rfl, writeFuel, Outcome.bind_ok (writeRound_nil h h.toNat_getCount)]
  rfl

theorem append_settles {b : Bip} (h : b.Valid) (data : List UInt8) (hdata : data.length < 2 ^ 64)
    (hpos : 0 < data.length) :
    AppendSettles b data (write data noOffset b) := by
  have hword := b.data.maxSize.toNat_lt
  have hsize := h.pos
  rw [write, Outcome.get_bind, if_pos rfl]
  refine writeFuel_append hdata hpos 63 h h.toNat_getCount ?_
  have : 1 * 4 ^ 63 ≤ b.data.mem.length * 4 ^ 63 := Nat.mul_le_mul_right _ hsize
  omega

theorem append_spec {b : Bip} (h : b.Valid) {data : List UInt8} (hdata : data.length < 2 ^ 63) :
    Appended b data (write data noOffset b) := by
  have hale := h.a_le
  have hble := h.b_le
  have hsmall := h.small
  rcases Nat.eq_zero_or_pos data.length with hzero | hpos
  · rw [List.eq_nil_of_length_eq_zero hzero]
    exact .inl ⟨b, append_nil h, h, (List.append_nil _).symm, rfl⟩
  · have hsettles := append_settles h data (by omega) hpos
    revert hsettles
    generalize write data noOffset b = result
    intro hsettles
    cases hsettles with
    | refused _ _ hfault hv hc hm => exact .inr ⟨_, _, rfl, hfault.noSpace, hv, hc, hm⟩
    | overrun hover =>
      have hwrap := hover.2
      omega
    | done _ hv hc hm _ => exact .inl ⟨_, rfl, hv, hc, hm⟩

/-- Other bytes in the same array. -/
theorem Valid.withMem {b : Bip} (h : b.Valid) {mem : List UInt8} (hlen : mem.length = b.data.mem.length) :
    Valid { b with data := ⟨mem, b.data.maxSize⟩ } where
  a_le := Nat.le_trans h.a_le (Nat.le_of_eq hlen.symm)
  b_le := h.b_le
  b_start := h.b_start
  closed := h.closed
  opened hopen hzero := by
    change mem.length - _ - _ < _
    rw [hlen]
    exact h.opened hopen hzero
  empty := h.empty
  size_le := Nat.le_trans (Nat.le_of_eq hlen) h.size_le
  pos := Nat.lt_of_lt_of_le h.pos (Nat.le_of_eq hlen.symm)
  small := Nat.lt_of_le_of_lt (Nat.le_of_eq hlen) h.small

def Live (b : Bip) (k : Nat) : Prop :=
  b.regionAStart.toNat ≤ k ∧ k < b.regionAStart.toNat + b.regionACount.toNat ∨ k < b.regionBCount.toNat

/-- A buffer with bytes of its contents replaced where they are. -/
structure Replaced (b : Bip) (offset : Nat) (data : List UInt8) (b' : Bip) : Prop where
  valid : b'.Valid
  places : b' = { b with data := ⟨b'.data.mem, b.data.maxSize⟩ }
  size_eq : b'.data.mem.length = b.data.mem.length
  contents_eq : b'.contents = CellRing.overwrite b.contents offset data
  frame : ∀ k, ¬ b.Live k → b'.data.mem[k]? = b.data.mem[k]?

namespace Replaced
variable {b b' b'' : Bip} {offset place : Nat} {data front back : List UInt8}

private theorem regionACount_eq (hr : Replaced b offset data b') : b'.regionACount = b.regionACount := by
  rw [hr.places]

private theorem regionBStart_eq (hr : Replaced b offset data b') : b'.regionBStart = b.regionBStart := by
  rw [hr.places]

private theorem regionBCount_eq (hr : Replaced b offset data b') : b'.regionBCount = b.regionBCount := by
  rw [hr.places]

theorem maxSize_eq (hr : Replaced b offset data b') : b'.data.maxSize = b.data.maxSize := by
  rw [hr.places]

theorem live_iff (hr : Replaced b offset data b') (k : Nat) : b'.Live k ↔ b.Live k := by
  rw [hr.places]
  rfl

/-- Two stores that together replace one run of bytes. -/
theorem andThen (hr : Replaced b offset front b') (hr' : Replaced b' place back b'')
    (hc : CellRing.overwrite (CellRing.overwrite b.contents offset front) place back =
      CellRing.overwrite b.contents offset data) :
    Replaced b offset data b'' where
  valid := hr'.valid
  places := by
    have hsame := hr'.places
    rw [hr.places] at hsame
    exact hsame
  size_eq := hr'.size_eq.trans hr.size_eq
  contents_eq := by rw [hr'.contents_eq, hr.contents_eq, hc]
  frame k hdead := (hr'.frame k (mt (hr.live_iff k).mp hdead)).trans (hr.frame k hdead)

end Replaced

section Patch
variable {b : Bip} (h : b.Valid) {data : List UInt8} {offset : UInt64}
include h

/-- Bytes stored inside one of the regions. -/
theorem Valid.replaced {bytes : List UInt8} {place : UInt64} {start : Nat}
    (hroom : place.toNat + bytes.length ≤ b.data.mem.length)
    (hlive : ∀ k, place.toNat ≤ k → k < place.toNat + bytes.length → b.Live k)
    (hc : contents { b with data := ⟨CellRing.overwrite b.data.mem place.toNat bytes, b.data.maxSize⟩ } =
      CellRing.overwrite b.contents start bytes) :
    let b' : Bip := { b with data := ⟨CellRing.overwrite b.data.mem place.toNat bytes, b.data.maxSize⟩ }
    b.data.store place bytes b = .ok b'.data b ∧ Replaced b start bytes b' := by
  refine ⟨Data.store_of_le hroom b, h.withMem (CellRing.length_overwrite hroom), rfl,
    CellRing.length_overwrite hroom, hc, ?_⟩
  intro k hdead
  change (CellRing.overwrite b.data.mem place.toNat bytes)[k]? = _
  rw [CellRing.getElem?_overwrite hroom, if_neg fun hin => hdead (hlive k hin.1 hin.2)]

/-- Bytes stored over a part of region A. -/
theorem Valid.patchA {bytes : List UInt8} (hin : offset.toNat + bytes.length ≤ b.regionACount.toNat) :
    let b' : Bip := { b with
      data := ⟨CellRing.overwrite b.data.mem (b.regionAStart + offset).toNat bytes, b.data.maxSize⟩ }
    b.data.store (b.regionAStart + offset) bytes b = .ok b'.data b ∧ Replaced b offset.toNat bytes b' := by
  have ha := h.a_le
  have hb := h.b_le
  have hsmall := h.small
  have hla := h.length_regionA
  have hplace : (b.regionAStart + offset).toNat = b.regionAStart.toNat + offset.toNat :=
    toNat_add_of_lt (by omega)
  have hroom : (b.regionAStart + offset).toNat + bytes.length ≤ b.data.mem.length := by omega
  refine h.replaced hroom (fun k hlo hhi => .inl ⟨by omega, by omega⟩) ?_
  have hfront : slice (CellRing.overwrite b.data.mem (b.regionAStart + offset).toNat bytes)
    b.regionAStart.toNat
      b.regionACount.toNat = CellRing.overwrite b.regionA offset.toNat bytes := by
    rw [slice_overwrite_inside hroom (by omega) (by omega) ha, hplace, Nat.add_sub_cancel_left]
    rfl
  have hback : slice (CellRing.overwrite b.data.mem (b.regionAStart + offset).toNat bytes)
    (b.regionBStart.getD 0).toNat
      b.regionBCount.toNat = b.regionB :=
    slice_overwrite_of_disjoint hroom (.inl (by rw [h.toNat_start]; omega))
  change slice _ _ _ ++ slice _ _ _ = _
  rw [hfront, hback, contents, overwrite_append_left _ (by omega)]

/-- Bytes stored over a part of region B. -/
theorem Valid.patchB {bytes : List UInt8} {place : UInt64}
    (hin : place.toNat + bytes.length ≤ b.regionBCount.toNat) :
    let b' : Bip := { b with data := ⟨CellRing.overwrite b.data.mem place.toNat bytes, b.data.maxSize⟩ }
    b.data.store place bytes b = .ok b'.data b ∧
      Replaced b (b.regionACount.toNat + place.toNat) bytes b' := by
  have ha := h.a_le
  have hb := h.b_le
  have hla := h.length_regionA
  have hroom : place.toNat + bytes.length ≤ b.data.mem.length := by omega
  refine h.replaced hroom (fun k _ hhi => .inr (by omega)) ?_
  have hfront : slice (CellRing.overwrite b.data.mem place.toNat bytes) b.regionAStart.toNat
    b.regionACount.toNat =
      b.regionA := slice_overwrite_of_disjoint hroom (.inr (by omega))
  have hback : slice (CellRing.overwrite b.data.mem place.toNat bytes) (b.regionBStart.getD 0).toNat
      b.regionBCount.toNat = CellRing.overwrite b.regionB place.toNat bytes := by
    rw [h.toNat_start, slice_overwrite_inside hroom (Nat.zero_le _) (by omega) (by omega),
      Nat.sub_zero, h.regionB_eq]
  change slice _ _ _ ++ slice _ _ _ = _
  rw [hfront, hback, contents, ← hla, overwrite_append_right]

/-- The part of a write that falls into region A. -/
theorem writeA_inside (hdata : data.length < 2 ^ 63) (hoff : offset.toNat < b.regionACount.toNat) :
    ∃ (inA : UInt64) (b' : Bip), writeA data offset b = .ok inA b' ∧
      inA.toNat = min (b.regionACount.toNat - offset.toNat) data.length ∧
      Replaced b offset.toNat (data.take inA.toNat) b' := by
  have hcount : (UInt64.ofNat data.length).toNat = data.length := toNat_ofNat_of_lt (by omega)
  have hguard : b.regionACount > offset := UInt64.lt_iff_toNat_lt.mpr hoff
  obtain ⟨inA, hinA⟩ : ∃ inA, inA = sizeMin (b.regionACount - offset) (UInt64.ofNat data.length) := ⟨_, rfl⟩
  have hinAn : inA.toNat = min (b.regionACount.toNat - offset.toNat) data.length := by
    rw [hinA, toNat_sizeMin, toNat_sub_of_le (by omega), hcount]
  obtain ⟨hstore, hr⟩ := h.patchA (show offset.toNat + (data.take inA.toNat).length ≤ _ by
    rw [List.length_take]; omega)
  refine ⟨inA, _, ?_, hinAn, hr⟩
  rw [writeA, Outcome.get_bind, if_pos hguard, ← hinA, Outcome.bind_ok hstore]
  rfl

/-- How a patch in range ends: made in full, or in an exception on the way. -/
def Patched (b : Bip) (data : List UInt8) (offset : UInt64) (r : EStateM.Result Fault Bip Unit) : Prop :=
  (∃ b', r = .ok () b' ∧ b'.Valid ∧ b'.contents = CellRing.overwrite b.contents offset.toNat data ∧
    b'.data.maxSize = b.data.maxSize) ∨
  ∃ (fault : Fault) (b' : Bip), r = .error fault b' ∧ fault.isException

omit h in
private theorem Patched.of_replaced {r : EStateM.Result Fault Bip Unit}
    (hr : ∃ b', r = .ok () b' ∧ Replaced b offset.toNat data b') : Patched b data offset r := by
  obtain ⟨b', hrun, hr⟩ := hr
  exact .inl ⟨b', hrun, hr.valid, hr.contents_eq, hr.maxSize_eq⟩

/-- A patch of region A alone takes one round. -/
theorem writeFuel_insideA (fuel : Nat) (hdata : data.length < 2 ^ 63)
    (hoff : offset.toNat < b.regionACount.toNat)
    (hin : offset.toNat + data.length ≤ b.regionACount.toNat) :
    ∃ b', writeFuel (fuel + 1) data offset b = .ok () b' ∧ Replaced b offset.toNat data b' := by
  obtain ⟨inA, b', hrun, hinA, hr⟩ := writeA_inside h hdata hoff
  have hcount : (UInt64.ofNat data.length).toNat = data.length := toNat_ofNat_of_lt (by omega)
  have hall : inA = UInt64.ofNat data.length := by
    rw [← UInt64.toNat_inj, hinA, hcount]
    omega
  have hround : writeRound data offset b = .ok false b' := by
    rw [writeRound, Outcome.bind_ok hrun]
    simp only [hall, UInt64.sub_self]
    rfl
  refine ⟨b', ?_, ?_⟩
  · rw [writeFuel, Outcome.bind_ok hround]
    rfl
  · rw [hall, hcount, List.take_length] at hr
    exact hr

/-- Bytes stored over a part of region B by the `try` block. -/
theorem writeRest_inside (hopen : b.regionBStart = some 0) {place : UInt64} {bytes : List UInt8}
    {remain : UInt64}
    (hplace : (if remain ≠ UInt64.ofNat data.length then 0 else 0 + (offset - b.regionACount)) = place)
    (hbytes : (if remain ≠ UInt64.ofNat data.length then data.drop
      (UInt64.ofNat data.length - remain).toNat else data) = bytes)
    (hle : (offset - b.regionACount + remain).toNat ≤ b.regionBCount.toNat)
    (hin : place.toNat + bytes.length ≤ b.regionBCount.toNat) :
    ∃ b', writeRest data offset remain b = .ok () b' ∧
      Replaced b (b.regionACount.toNat + place.toNat) bytes b' := by
  obtain ⟨hstore, hr⟩ := h.patchB hin
  have hmax : sizeMax b.regionBCount (offset - b.regionACount + remain) = b.regionBCount := by
    rw [sizeMax, if_neg]
    rw [UInt64.lt_iff_toNat_lt]
    omega
  have hguard : ¬ b.getBSpace < b.regionBCount - b.regionBCount := by
    rw [UInt64.sub_self, UInt64.lt_iff_toNat_lt, UInt64.toNat_zero]
    omega
  refine ⟨_, ?_, hr⟩
  rw [writeRest, Outcome.get_bind]
  simp only [hopen, hmax, if_neg hguard, hplace, hbytes]
  rw [Outcome.bind_ok hstore]
  rfl

/-- A patch that starts behind region A. -/
theorem writeFuel_behindA (fuel : Nat) (hoff : b.regionACount.toNat ≤ offset.toNat)
    (hin : offset.toNat + data.length ≤ b.contents.length) :
    ∃ b', writeFuel (fuel + 1) data offset b = .ok () b' ∧ Replaced b offset.toNat data b' := by
  have ha := h.a_le
  have hb := h.b_le
  have hsmall := h.small
  have hlen := h.length_contents
  have hcount : (UInt64.ofNat data.length).toNat = data.length := toNat_ofNat_of_lt (by omega)
  have hbehind : (offset - b.regionACount).toNat = offset.toNat - b.regionACount.toNat := toNat_sub_of_le hoff
  have hA := writeA_behind (b := b) data hoff
  rcases Nat.eq_zero_or_pos data.length with hzero | hpos
  · have hnil := List.eq_nil_of_length_eq_zero hzero
    subst hnil
    have hround : writeRound [] offset b = .ok false b := by
      rw [writeRound, Outcome.bind_ok hA]
      rfl
    refine ⟨b, ?_, h, rfl, rfl, ?_, fun _ _ => rfl⟩
    · rw [writeFuel, Outcome.bind_ok hround]
      rfl
    · simp [CellRing.overwrite]
  · have hopen : b.regionBStart = some 0 := by
      rcases h.open_cases with hnone | ⟨hopen, -⟩
      · have := h.closed hnone
        omega
      · exact hopen
    have hend : (offset - b.regionACount + UInt64.ofNat data.length).toNat ≤ b.regionBCount.toNat := by
      rw [toNat_add_of_lt (by omega)]
      omega
    obtain ⟨b', hrun, hr⟩ := writeRest_inside h hopen (if_neg (not_not.mpr rfl))
      (if_neg (not_not.mpr rfl)) hend
      (by rw [UInt64.zero_add]; omega)
    have hsome : UInt64.ofNat data.length > 0 := by
      rw [gt_iff_lt, UInt64.lt_iff_toNat_lt, hcount]
      exact hpos
    have hround : writeRound data offset b = .ok false b' := by
      rw [writeRound, Outcome.bind_ok hA]
      simp only [UInt64.sub_zero, if_pos hsome]
      exact catchAll_ok (by rw [Outcome.bind_ok hrun]; rfl)
    refine ⟨b', ?_, ?_⟩
    · rw [writeFuel, Outcome.bind_ok hround]
      rfl
    · rw [UInt64.zero_add, hbehind, Nat.add_sub_cancel' hoff] at hr
      exact hr

/-- The unsigned difference of a patch with more bytes in region A than in region B looks like a lack of space. -/
theorem writeRest_wrapped (hopen : b.regionBStart = some 0) {remain : UInt64}
    (hoff : offset.toNat + remain.toNat < b.regionACount.toNat)
    (hremain : remain.toNat ≤ b.regionBCount.toNat) :
    writeRest data offset remain b = .error (.thrown .writeNoSpace) b := by
  have ha := h.a_le
  have hb := h.b_le
  have hsmall := h.small
  have hbspace := h.toNat_getBSpace hopen
  have hwrap : (offset - b.regionACount + remain).toNat =
      2 ^ 64 + offset.toNat + remain.toNat - b.regionACount.toNat := by
    rw [UInt64.toNat_add, UInt64.toNat_sub]
    omega
  have hmax : sizeMax b.regionBCount (offset - b.regionACount + remain) =
      offset - b.regionACount + remain := by
    rw [sizeMax, if_pos]
    rw [UInt64.lt_iff_toNat_lt]
    omega
  have hguard : b.getBSpace < offset - b.regionACount + remain - b.regionBCount := by
    rw [UInt64.lt_iff_toNat_lt, toNat_sub_of_le (by omega)]
    omega
  rw [writeRest, Outcome.get_bind]
  simp only [hopen, hmax, if_pos hguard]
  rfl

/-- A patch that starts in region A and ends in region B. -/
def Straddled (b : Bip) (offset count : Nat) : Prop :=
  offset < b.regionACount.toNat ∧ b.regionACount.toNat < offset + count

/-- More of its bytes fall into region A than into region B. -/
def LeansOnA (b : Bip) (offset count : Nat) : Prop :=
  offset + count - b.regionACount.toNat < b.regionACount.toNat - offset

omit h in
theorem Straddled.isOpen (h : b.Valid) {count : Nat} (hover : b.Straddled offset.toNat count)
    (hin : offset.toNat + count ≤ b.contents.length) : b.regionBStart = some 0 := by
  have hlen := h.length_contents
  have hpast := hover.2
  rcases h.open_cases with hnone | ⟨hopen, -⟩
  · have := h.closed hnone
    omega
  · exact hopen

/-- With as many bytes for region B the patch takes one round. -/
theorem writeFuel_across (fuel : Nat) (hover : b.Straddled offset.toNat data.length)
    (hfits : ¬ b.LeansOnA offset.toNat data.length) (hin : offset.toNat + data.length ≤ b.contents.length) :
    ∃ b', writeFuel (fuel + 1) data offset b = .ok () b' ∧ Replaced b offset.toNat data b' := by
  have ha := h.a_le
  have hb := h.b_le
  have hsmall := h.small
  have hlen := h.length_contents
  obtain ⟨hoff, hpast⟩ := hover
  unfold LeansOnA at hfits
  have hcount : (UInt64.ofNat data.length).toNat = data.length := toNat_ofNat_of_lt (by omega)
  obtain ⟨inA, b₁, hrun, hinA, hr⟩ := writeA_inside h (show data.length < 2 ^ 63 by omega) hoff
  have hac := congrArg UInt64.toNat hr.regionACount_eq
  have hbc := congrArg UInt64.toNat hr.regionBCount_eq
  have hopen : b₁.regionBStart = some 0 := hr.regionBStart_eq.trans (Straddled.isOpen h ⟨hoff, hpast⟩ hin)
  have hremain : (UInt64.ofNat data.length - inA).toNat = data.length - inA.toNat := by
    rw [toNat_sub_of_le (by omega), hcount]
  have hsome : UInt64.ofNat data.length - inA > 0 := by
    rw [gt_iff_lt, UInt64.lt_iff_toNat_lt, hremain, UInt64.toNat_zero]
    omega
  have hfront : (data.take inA.toNat).length = inA.toNat := by
    rw [List.length_take]
    omega
  have hback : (offset - b₁.regionACount + (UInt64.ofNat data.length - inA)).toNat =
      data.length - inA.toNat - inA.toNat := by
    rw [UInt64.toNat_add, UInt64.toNat_sub, hremain, hac]
    omega
  have hne : UInt64.ofNat data.length - inA ≠ UInt64.ofNat data.length := by
    intro heq
    have := congrArg UInt64.toNat heq
    omega
  have hdrop : (UInt64.ofNat data.length - (UInt64.ofNat data.length - inA)).toNat = inA.toNat := by
    rw [toNat_sub_of_le (by omega)]
    omega
  obtain ⟨b₂, hrest, hr'⟩ := writeRest_inside hr.valid hopen (if_pos hne) (if_pos hne)
    (by rw [hback, hbc]; omega) (by rw [UInt64.toNat_zero, hdrop, List.length_drop, hbc]; omega)
  have hround : writeRound data offset b = .ok false b₂ := by
    rw [writeRound, Outcome.bind_ok hrun]
    simp only [if_pos hsome]
    exact catchAll_ok (by rw [Outcome.bind_ok hrest]; rfl)
  refine ⟨b₂, ?_, hr.andThen hr' ?_⟩
  · rw [writeFuel, Outcome.bind_ok hround]
    rfl
  · rw [hdrop, UInt64.toNat_zero, Nat.add_zero, hac,
      show b.regionACount.toNat = offset.toNat + (data.take inA.toNat).length by omega,
      overwrite_pieces _ _ (by rw [List.length_drop, hfront]; omega), List.take_append_drop]

/-- With fewer the first round stores the bytes of region A and grows the array, and the second one patches region A alone. -/
theorem writeFuel_across_wrapped (fuel : Nat) (hover : b.Straddled offset.toNat data.length)
    (hleans : b.LeansOnA offset.toNat data.length) (hin : offset.toNat + data.length ≤ b.contents.length) :
    (∃ b', writeFuel (fuel + 2) data offset b = .ok () b' ∧ b'.Valid ∧
      b'.contents = CellRing.overwrite b.contents offset.toNat data ∧ b'.data.maxSize = b.data.maxSize ∧
      b.data.mem.length < b'.data.mem.length) ∨
    ∃ (fault : Fault) (b' : Bip), writeFuel (fuel + 2) data offset b = .error fault b' ∧ fault.NoSpace ∧
      ∃ stored, Replaced b offset.toNat stored b' := by
  have ha := h.a_le
  have hb := h.b_le
  have hsmall := h.small
  have hlen := h.length_contents
  obtain ⟨hoff, hpast⟩ := hover
  unfold LeansOnA at hleans
  have hcount : (UInt64.ofNat data.length).toNat = data.length := toNat_ofNat_of_lt (by omega)
  have hdata : data.length < 2 ^ 63 := by omega
  obtain ⟨inA, b₁, hrun, hinA, hr⟩ := writeA_inside h hdata hoff
  have hac := congrArg UInt64.toNat hr.regionACount_eq
  have hbc := congrArg UInt64.toNat hr.regionBCount_eq
  have hc := hr.contents_eq
  have hopen : b₁.regionBStart = some 0 := hr.regionBStart_eq.trans (Straddled.isOpen h ⟨hoff, hpast⟩ hin)
  have hremain : (UInt64.ofNat data.length - inA).toNat = data.length - inA.toNat := by
    rw [toNat_sub_of_le (by omega), hcount]
  have hsome : UInt64.ofNat data.length - inA > 0 := by
    rw [gt_iff_lt, UInt64.lt_iff_toNat_lt, hremain, UInt64.toNat_zero]
    omega
  have hfront : (data.take inA.toNat).length = inA.toNat := by
    rw [List.length_take]
    omega
  have hrest : writeRest data offset (UInt64.ofNat data.length - inA) b₁ =
      .error (.thrown .writeNoSpace) b₁ :=
    writeRest_wrapped hr.valid hopen (by omega) (by omega)
  have hround : writeRound data offset b = (do expand; pure true : EStateM Fault Bip Bool) b₁ := by
    rw [writeRound, Outcome.bind_ok hrun]
    simp only [if_pos hsome]
    exact catchAll_exception (Outcome.bind_error hrest) rfl
  rcases expand_cases hr.valid with ⟨b₂, hexp, hg⟩ | ⟨fault, hexp, hfault⟩
  · have hall := hg.valid.length_contents
    rw [hg.valid.closed hg.b_start, hg.contents_eq, hc, CellRing.length_overwrite (by omega)] at hall
    obtain ⟨b₃, hlast, hr'⟩ := writeFuel_insideA hg.valid fuel hdata
      (show offset.toNat < b₂.regionACount.toNat by omega) (by omega)
    refine .inl ⟨b₃, ?_, hr'.valid, ?_, hr'.maxSize_eq.trans (hg.maxSize_eq.trans hr.maxSize_eq), ?_⟩
    · have hmore : writeRound data offset b = .ok true b₂ := by
        rw [hround, Outcome.bind_ok hexp]
        rfl
      rw [writeFuel, Outcome.bind_ok hmore]
      exact hlast
    · rw [hr'.contents_eq, hg.contents_eq, hc]
      exact overwrite_over (by rw [hfront]; omega) hin
    · rw [hr'.size_eq, ← hr.size_eq]
      exact hg.size_lt
  · refine .inr ⟨fault, b₁, ?_, hfault, _, hr⟩
    have hthrown : writeRound data offset b = .error fault b₁ := hround.trans (Outcome.bind_error hexp)
    rw [writeFuel, Outcome.bind_error hthrown]

theorem write_inRange (hin : offset.toNat + data.length ≤ b.contents.length) :
    write data offset b = writeFuel 64 data offset b := by
  have ha := h.a_le
  have hb := h.b_le
  have hsmall := h.small
  have hlen := h.length_contents
  have hne : offset ≠ noOffset := h.ne_noOffset (by omega)
  have hguard : ¬ b.getCount < offset + UInt64.ofNat data.length := by
    rw [h.count_lt_iff, toNat_add_of_lt (by rw [toNat_ofNat_of_lt (by omega)]; omega),
      toNat_ofNat_of_lt (by omega)]
    omega
  rw [write, Outcome.get_bind, if_neg hne, if_neg hguard]

/-- A patch is made in place unless it straddles the regions and leans on region A. -/
theorem write_replaced (hin : offset.toNat + data.length ≤ b.contents.length)
    (hfits : ¬ (b.Straddled offset.toNat data.length ∧ b.LeansOnA offset.toNat data.length)) :
    ∃ b', write data offset b = .ok () b' ∧ Replaced b offset.toNat data b' := by
  have ha := h.a_le
  have hb := h.b_le
  have hsmall := h.small
  have hlen := h.length_contents
  rw [write_inRange h hin]
  rcases Nat.lt_or_ge offset.toNat b.regionACount.toNat with hoff | hoff
  · rcases Nat.lt_or_ge b.regionACount.toNat (offset.toNat + data.length) with hover | hinA
    · exact writeFuel_across h 63 ⟨hoff, hover⟩ (fun hleans => hfits ⟨⟨hoff, hover⟩, hleans⟩) hin
    · exact writeFuel_insideA h 63 (by omega) hoff hinA
  · exact writeFuel_behindA h 63 hoff hin

theorem patch_spec (hin : offset.toNat + data.length ≤ b.contents.length) :
    Patched b data offset (write data offset b) := by
  by_cases hwraps : b.Straddled offset.toNat data.length ∧ b.LeansOnA offset.toNat data.length
  · rw [write_inRange h hin]
    rcases writeFuel_across_wrapped h 62 hwraps.1 hwraps.2 hin with
      ⟨b', hrun, hv, hc, hm, -⟩ | ⟨fault, b', hrun, hfault, -⟩
    · exact .inl ⟨b', hrun, hv, hc, hm⟩
    · exact .inr ⟨fault, b', hrun, hfault.isException⟩
  · exact .of_replaced (write_replaced h hin hwraps)

end Patch

/-- What a caller respects. Patches and removals stay inside the contents, a fill
inside the space that the query offers and a take inside the first run of bytes;
a peek starts in region A, and its end is a 64-bit number. -/
def Allowed (b : Bip) : BufferOp → Prop
  | .append data => data.length < 2 ^ 63
  | .patch data offset => offset.toNat + data.length ≤ b.getCount.toNat
  | .read _ => True
  | .peek count offset => offset.toNat ≤ b.regionACount.toNat ∧ offset.toNat + count.toNat < 2 ^ 64
  | .remove count => count ≤ b.getCount
  | .removeFromBack count => count ≤ b.getCount
  | .fill bytes => ∀ space b', getContinguiousSpace b = .ok space b' → bytes.length ≤ space.toNat
  | .take count => count ≤ b.getContinguiousCount
  | .reset => True

def model (maxSize : UInt64) : BufferModel Bip where
  perform := perform
  Allowed := Allowed
  Valid b := b.Valid ∧ b.data.maxSize = maxSize
  contents := contents

section Calls
variable {b : Bip} (h : b.Valid)
include h

private theorem append_simulated {data : List UInt8} (hdata : data.length < 2 ^ 63) :
    (model b.data.maxSize).Simulated (.append data) b (perform (.append data) b) := by
  change BufferModel.Simulated _ _ b ((write data noOffset >>= fun _ => pure []) b)
  rcases append_spec h hdata with ⟨b', hrun, hv, hc, hm⟩ | ⟨fault, b', hrun, hfault, hv, hc, hm⟩
  · rw [Outcome.bind_ok hrun]
    exact .ok ⟨hv, hm⟩ ⟨rfl, hc⟩
  · rw [Outcome.bind_error hrun]
    exact .error hfault.isException ⟨hv, hm⟩ ⟨hfault, hc⟩

private theorem patch_simulated {data : List UInt8} {offset : UInt64}
    (hin : offset.toNat + data.length ≤ b.contents.length) :
    (model b.data.maxSize).Simulated (.patch data offset) b (perform (.patch data offset) b) := by
  change BufferModel.Simulated _ _ b ((write data offset >>= fun _ => pure []) b)
  rcases patch_spec h hin with ⟨b', hrun, hv, hc, hm⟩ | ⟨fault, b', hrun, hfault⟩
  · rw [Outcome.bind_ok hrun]
    exact .ok ⟨hv, hm⟩ ⟨rfl, hc⟩
  · rw [Outcome.bind_error hrun]
    exact .patch rfl hfault

theorem read_simulated (count : UInt64) :
    (model b.data.maxSize).Simulated (.read count) b (perform (.read count) b) := by
  change BufferModel.Simulated _ _ b (read count noOffset b)
  rcases Nat.lt_or_ge b.contents.length count.toNat with hlt | hle
  · rw [read_short h hlt]
    exact .error rfl ⟨h, rfl⟩ ⟨rfl, hlt, rfl⟩
  · obtain ⟨b', hrun, hv, hc, hd⟩ := read_consume h hle
    rw [hrun]
    exact .ok ⟨hv, congrArg Data.maxSize hd⟩ ⟨hle, rfl, hc⟩

theorem peek_simulated {count offset : UInt64} (hoff : offset.toNat ≤ b.regionACount.toNat)
    (hsum : offset.toNat + count.toNat < 2 ^ 64) :
    (model b.data.maxSize).Simulated (.peek count offset) b (perform (.peek count offset) b) := by
  have hlen := h.length_contents
  change BufferModel.Simulated _ _ b (read count offset b)
  rcases Nat.lt_or_ge b.contents.length (offset.toNat + count.toNat) with hlt | hle
  · rw [read_past h hsum hlt (h.ne_noOffset (by omega))]
    exact .error rfl ⟨h, rfl⟩ ⟨rfl, hlt, rfl⟩
  · rw [read_peek h hoff hle]
    exact .ok ⟨h, rfl⟩ ⟨hle, rfl, rfl⟩

theorem fill_simulated {bytes : List UInt8}
    (hspace : ∀ space b', getContinguiousSpace b = .ok space b' → bytes.length ≤ space.toNat) :
    (model b.data.maxSize).Simulated (.fill bytes) b (perform (.fill bytes) b) := by
  change BufferModel.Simulated _ _ b ((getContinguiousSpace >>= fun _ => pokeEnd bytes >>= fun _ =>
    written (UInt64.ofNat bytes.length) >>= fun _ => pure []) b)
  rcases getContinguiousSpace_cases h with
    ⟨space, b₁, hquery, hv, hc, hm, hroom⟩ | ⟨fault, b', hquery, hfault, hv, hc, hm⟩
  · obtain ⟨b₂, hfill, hv', hc', hm'⟩ := fill_spec hv (Room.mono hroom (hspace space b₁ hquery))
    obtain ⟨_, b₃, hpoke, hwritten⟩ := Outcome.bind_eq_ok.mp hfill
    rw [Outcome.bind_ok hquery, Outcome.bind_ok hpoke, Outcome.bind_ok hwritten]
    exact .ok ⟨hv', hm'.trans hm⟩ ⟨rfl, hc'.trans (congrArg (· ++ bytes) hc)⟩
  · rw [Outcome.bind_error hquery]
    exact .error hfault.isException ⟨hv, hm⟩ ⟨hfault, hc⟩

theorem take_simulated {count : UInt64} (hle : count ≤ b.getContinguiousCount) :
    (model b.data.maxSize).Simulated (.take count) b (perform (.take count) b) := by
  obtain ⟨hload, hcount⟩ := loadAt_start h hle
  obtain ⟨b', hrun, hv, hc, hd⟩ := remove_spec h hcount
  change BufferModel.Simulated _ _ b
    ((b.loadAt b.getStart count >>= fun bytes => remove count >>= fun _ => pure bytes) b)
  rw [Outcome.bind_ok hload, Outcome.bind_ok hrun]
  exact .ok ⟨hv, congrArg Data.maxSize hd⟩ ⟨rfl, hc⟩

end Calls

/-- Every allowed call does what the queue does. -/
theorem model_refines (maxSize : UInt64) : (model maxSize).Refines := by
  constructor
  rintro b op ⟨h, rfl⟩ hallowed
  have hcount := h.toNat_getCount
  cases op with
  | append data => exact append_simulated h hallowed
  | patch data offset => exact patch_simulated h (hcount ▸ hallowed)
  | read count => exact read_simulated h count
  | peek count offset => exact peek_simulated h hallowed.1 hallowed.2
  | remove count =>
    obtain ⟨b', hrun, hv, hc, hd⟩ := remove_spec h (hcount ▸ UInt64.le_iff_toNat_le.mp hallowed)
    change BufferModel.Simulated _ _ b ((remove count >>= fun _ => pure []) b)
    rw [Outcome.bind_ok hrun]
    exact .ok ⟨hv, congrArg Data.maxSize hd⟩ ⟨rfl, hc⟩
  | removeFromBack count =>
    obtain ⟨b', hrun, hv, hc, hd⟩ := removeFromBack_spec h (hcount ▸ UInt64.le_iff_toNat_le.mp hallowed)
    change BufferModel.Simulated _ _ b ((removeFromBack count >>= fun _ => pure []) b)
    rw [Outcome.bind_ok hrun]
    exact .ok ⟨hv, congrArg Data.maxSize hd⟩ ⟨rfl, hc⟩
  | fill bytes => exact fill_simulated h hallowed
  | take count => exact take_simulated h hallowed
  | reset =>
    refine .ok ⟨.single (Nat.zero_le _) (fun _ => rfl) h.size_le h.pos h.small, rfl⟩ ⟨rfl, ?_⟩
    exact (contents_single b.data 0 0).trans slice_zero

theorem new_valid {maxSize defaultSize : UInt64} {b : Bip} (hnew : new maxSize defaultSize = .ok b)
    (hpos : 0 < defaultSize.toNat) (hle : defaultSize ≤ maxSize) : (model maxSize).Valid b ∧
    b.contents = [] := by
  rw [new] at hnew
  split at hnew
  · rename_i hsmall
    cases hnew
    have hlen : (List.replicate defaultSize.toNat (0 : UInt8)).length = defaultSize.toNat :=
      List.length_replicate
    refine ⟨⟨.single (Nat.zero_le _) (fun _ => rfl) ?_ ?_ ?_, rfl⟩, (contents_single _ 0 0).trans slice_zero⟩
    · exact hlen ▸ UInt64.le_iff_toNat_le.mp hle
    · exact hlen ▸ hpos
    · exact hlen ▸ hsmall
  · cases hnew

end Bip

/-- Over every run of allowed calls region A followed by region B holds what a
byte queue holds, and the regions lie apart inside the array; every allowed call
returns or throws, so no copy leaves the array. -/
theorem bip_refines_queue {maxSize defaultSize : UInt64} {start b : Bip} {es : List BufferEvent}
    (hnew : Bip.new maxSize defaultSize = .ok start) (hpos : 0 < defaultSize.toNat)
    (hle : defaultSize ≤ maxSize)
    (hrun : Run (Bip.model maxSize).Step start es b) :
    b.regionAStart.toNat + b.regionACount.toNat ≤ b.data.mem.length ∧
    (∀ place, b.regionBStart = some place → place.toNat + b.regionBCount.toNat ≤ b.data.mem.length ∧
      place.toNat + b.regionBCount.toNat ≤ b.regionAStart.toNat) ∧
    (b.regionACount = 0 → b.regionBCount = 0 ∧ b.regionAStart = 0) ∧
    Run OnQueue [] es (b.regionA ++ b.regionB) ∧
    ∀ op, b.Allowed op → ∃ reply b', BufferModel.Replies (Bip.perform op b) reply b' := by
  obtain ⟨hstart, hempty⟩ := Bip.new_valid hnew hpos hle
  obtain ⟨hv, hqueue⟩ := (Bip.model_refines maxSize).run hstart hrun
  change Run OnQueue start.contents es b.contents at hqueue
  rw [hempty] at hqueue
  have ha := hv.1.a_le
  have hb := hv.1.b_le
  refine ⟨ha, ?_, ?_, hqueue, fun op hallowed => (Bip.model_refines maxSize).ends hv hallowed⟩
  · intro place hplace
    rw [hv.1.b_start place hplace, UInt64.toNat_zero]
    omega
  · intro hzero
    have hat := hv.1.empty (congrArg UInt64.toNat hzero)
    exact ⟨UInt64.toNat_inj.mp (Nat.eq_zero_of_le_zero (hat ▸ hb)), UInt64.toNat_inj.mp hat⟩

/-- A write behind a region A that leaves too little room opens region B; a read takes both. -/
theorem bip_refines_queue_wrapped :
    let es : List BufferEvent := [(.append [1, 2, 3], .ok []), (.read 2, .ok [1, 2]),
      (.append [4, 5], .ok []),
      (.take 1, .ok [3]), (.fill [6], .ok [])]
    ∃ b, Run (Bip.model 8).Step ⟨Data.new 8 4, 0, 0, none, 0⟩ es b ∧
      Run OnQueue [] es (b.regionA ++ b.regionB) := by
  intro es
  have hrun : Run (Bip.model 8).Step ⟨Data.new 8 4, 0, 0, none, 0⟩ es ⟨⟨[4, 5, 6, 0], 8⟩, 0, 3, none, 0⟩ := by
    refine .cons (u := ⟨⟨[1, 2, 3, 0], 8⟩, 0, 3, none, 0⟩)
      ⟨by change (3 : Nat) < _; decide, by decide +kernel, fun _ _ hop => nomatch hop⟩ ?_
    refine .cons (u := ⟨⟨[1, 2, 3, 0], 8⟩, 2, 1, none, 0⟩) ⟨trivial, by
      decide +kernel, fun _ _ hop => nomatch hop⟩ ?_
    refine .cons (u := ⟨⟨[4, 5, 3, 0], 8⟩, 2, 1, some 0, 2⟩)
      ⟨by change (2 : Nat) < _; decide, by decide +kernel, fun _ _ hop => nomatch hop⟩ ?_
    refine .cons (u := ⟨⟨[4, 5, 3, 0], 8⟩, 0, 2, none, 0⟩)
      ⟨by change (1 : UInt64) ≤ 1; decide, by decide +kernel, fun _ _ hop => nomatch hop⟩ ?_
    refine .cons (u := ⟨⟨[4, 5, 6, 0], 8⟩, 0, 3, none, 0⟩) ⟨?_, by
      decide +kernel, fun _ _ hop => nomatch hop⟩ (.nil _)
    intro space b' hspace
    have hfound : Bip.getContinguiousSpace ⟨⟨[4, 5, 3, 0], 8⟩, 0, 2, none, 0⟩ =
        .ok 2 ⟨⟨[4, 5, 3, 0], 8⟩, 0, 2, none, 0⟩ := by
      decide +kernel
    rw [hfound] at hspace
    cases hspace
    decide
  exact ⟨_, hrun, (bip_refines_queue (show Bip.new 8 4 = .ok _ from rfl) (by decide)
    (by decide) hrun).2.2.2.1⟩

end SimpleNetwork
