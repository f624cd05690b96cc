import SimpleNetwork.Buffer.Bip

/-! `bip` refines a byte queue: region A's bytes followed by region B's are the
queue's, and the regions never collide. -/
namespace SimpleNetwork
open Runs Words Slices

namespace Bip

/-- Region A lies inside the array and region B, at its start, before region A.
An empty A is at the start of the array, and a B that is open but empty has more
room than there is behind A. -/
structure Valid (b : Bip) : Prop where
  a_le : b.regionAStart.toNat + b.regionACount.toNat ≤ b.data.mem.length
  b_le : b.regionBCount.toNat ≤ b.regionAStart.toNat
  b_start : ∀ start, b.regionBStart = some start → start = 0
  closed : b.regionBStart = none → b.regionBCount.toNat = 0
  opened : b.regionBStart ≠ none → b.regionBCount.toNat = 0 →
    b.data.mem.length - b.regionAStart.toNat - b.regionACount.toNat < b.regionAStart.toNat
  empty : b.regionACount.toNat = 0 → b.regionAStart.toNat = 0
  size_le : b.data.mem.length ≤ b.data.maxSize.toNat
  pos : 0 < b.data.mem.length
  small : b.data.mem.length < 2 ^ 62

def regionA (b : Bip) : List UInt8 := slice b.data.mem b.regionAStart.toNat b.regionACount.toNat

def regionB (b : Bip) : List UInt8 := slice b.data.mem (b.regionBStart.getD 0).toNat b.regionBCount.toNat

def contents (b : Bip) : List UInt8 := b.regionA ++ b.regionB

/-- One region at a place in an array. -/
theorem Valid.single {data : Data} {start count : UInt64} (hin : start.toNat + count.toNat ≤ data.mem.length)
    (hempty : count.toNat = 0 → start.toNat = 0) (hle : data.mem.length ≤ data.maxSize.toNat)
    (hpos : 0 < data.mem.length) (hsmall : data.mem.length < 2 ^ 62) :
    Valid ⟨data, start, count, none, 0⟩ where
  a_le := hin
  b_le := Nat.zero_le _
  b_start _ hs := nomatch hs
  closed _ := rfl
  opened hopen := absurd rfl hopen
  empty := hempty
  size_le := hle
  pos := hpos
  small := hsmall

theorem contents_single (data : Data) (start count : UInt64) :
    contents ⟨data, start, count, none, 0⟩ = slice data.mem start.toNat count.toNat := List.append_nil _

section Specs
variable {b : Bip} (h : b.Valid)
include h

theorem Valid.toNat_start : (b.regionBStart.getD 0).toNat = 0 := by
  cases hb : b.regionBStart with
  | none => rfl
  | some start =>
    rw [h.b_start start hb]
    rfl

theorem Valid.regionB_eq : b.regionB = slice b.data.mem 0 b.regionBCount.toNat := by
  rw [regionB, h.toNat_start]

theorem Valid.length_regionA : b.regionA.length = b.regionACount.toNat := length_slice h.a_le

theorem Valid.length_regionB : b.regionB.length = b.regionBCount.toNat := by
  have ha := h.a_le
  have hb := h.b_le
  rw [h.regionB_eq]
  exact length_slice (by omega)

theorem Valid.length_contents : b.contents.length = b.regionACount.toNat + b.regionBCount.toNat := by
  rw [contents, List.length_append, h.length_regionA, h.length_regionB]

theorem Valid.toNat_getSize : b.data.getSize.toNat = b.data.mem.length :=
  toNat_ofNat_of_lt (Nat.lt_trans h.small (by decide))

theorem Valid.toNat_getCount : b.getCount.toNat = b.contents.length := by
  have ha := h.a_le
  have hb := h.b_le
  have hs := h.small
  rw [h.length_contents, getCount, toNat_add_of_lt (by omega)]

theorem Valid.toNat_getASpace :
    b.getASpace.toNat = b.data.mem.length - b.regionAStart.toNat - b.regionACount.toNat := by
  have ha := h.a_le
  have hs := h.toNat_getSize
  have hsub : (b.data.getSize - b.regionAStart).toNat = b.data.mem.length - b.regionAStart.toNat := by
    rw [toNat_sub_of_le (by omega), hs]
  rw [getASpace, toNat_sub_of_le (by omega), hsub]

theorem Valid.toNat_getBSpace (hopen : b.regionBStart = some 0) :
    b.getBSpace.toNat = b.regionAStart.toNat - b.regionBCount.toNat := by
  have hb := h.b_le
  rw [getBSpace, hopen]
  change (b.regionAStart - 0 - b.regionBCount).toNat = _
  rw [UInt64.sub_zero, toNat_sub_of_le hb]

/-- An open region B starts where the array does, behind a region A that is not empty. -/
theorem Valid.open_cases : b.regionBStart = none ∨ b.regionBStart = some 0 ∧ 0 < b.regionACount.toNat := by
  cases hb : b.regionBStart with
  | none => exact .inl rfl
  | some start =>
    have hstart := h.b_start start hb
    subst hstart
    refine .inr ⟨rfl, ?_⟩
    by_contra hzero
    have ha := h.empty (by omega)
    have hle := h.b_le
    have := h.opened (by rw [hb]; nofun) (by omega)
    omega

theorem Valid.count_lt_iff (n : UInt64) : b.getCount < n ↔ b.contents.length < n.toNat := by
  rw [UInt64.lt_iff_toNat_lt, h.toNat_getCount]

theorem Valid.size_eq_max_iff : b.data.getSize = b.data.maxSize ↔
    b.data.mem.length = b.data.maxSize.toNat := by
  rw [← UInt64.toNat_inj, h.toNat_getSize]

private theorem load_regionA {σ : Type} (s : σ) :
    copyIf (b.regionACount > 0) (b.data.load b.regionAStart b.regionACount) s = .ok b.regionA s := by
  have ha := h.a_le
  unfold copyIf
  split
  · exact Data.load_of_le ha s
  · rename_i hzero
    have : b.regionACount.toNat = 0 := by
      have := mt UInt64.lt_iff_toNat_lt.mpr hzero
      rw [UInt64.toNat_zero] at this
      omega
    rw [regionA, this, slice_zero]
    rfl

/-- The front of region B. -/
theorem loadAt_regionB {σ : Type} (s : σ) {count : UInt64} (hn : count.toNat ≤ b.regionBCount.toNat) :
    b.loadAt b.regionBStart count s = .ok (b.regionB.take count.toNat) s := by
  have ha := h.a_le
  have hb := h.b_le
  rcases h.open_cases with hnone | ⟨hopen, -⟩
  · have hzero : count.toNat = 0 := by
      have := h.closed hnone
      omega
    rw [hnone, loadAt]
    change (if count = 0 then pure [] else throw .outOfBounds : EStateM Fault σ (List UInt8)) s = _
    rw [if_pos (UInt64.toNat_inj.mp hzero), hzero]
    rfl
  · rw [hopen, loadAt]
    change b.data.load 0 count s = _
    rw [Data.load_of_le (by change 0 + _ ≤ _; omega), h.regionB_eq, take_slice hn]
    rfl

private theorem load_regionB (s : Bip) :
    copyIf ((if b.regionACount > 0 then b.getCount - b.regionACount else b.getCount) > 0)
      (b.loadAt b.regionBStart b.regionBCount) s = .ok b.regionB s := by
  have hlen := h.length_contents
  have hcount := h.toNat_getCount
  have hlb := h.length_regionB
  have hload := loadAt_regionB h s (Nat.le_refl b.regionBCount.toNat)
  rw [List.take_of_length_le (by omega)] at hload
  have hrest : (if b.regionACount > 0 then b.getCount - b.regionACount
      else b.getCount).toNat = b.regionBCount.toNat := by
    split
    · rw [toNat_sub_of_le (by omega)]
      omega
    · rename_i hzero
      have := mt UInt64.lt_iff_toNat_lt.mpr hzero
      rw [UInt64.toNat_zero] at this
      omega
  rw [copyIf]
  by_cases hnone : (if b.regionACount > 0 then b.getCount - b.regionACount else b.getCount) > 0
  · rw [if_pos hnone, hload]
  · rw [if_neg hnone]
    have hzero := mt UInt64.lt_iff_toNat_lt.mpr hnone
    rw [hrest, UInt64.toNat_zero] at hzero
    rw [List.eq_nil_of_length_eq_zero (by omega : b.regionB.length = 0)]
    rfl

theorem expand_refused (hmax : b.data.mem.length = b.data.maxSize.toNat) :
    expand b = .error (.thrown .writeNoSpace) b := by
  rw [expand, Outcome.get_bind]
  exact congrFun (if_pos (h.size_eq_max_iff.mpr hmax)) b

theorem expand_unaffordable (hmax : b.data.mem.length < b.data.maxSize.toNat)
    (halloc : 2 ^ 62 ≤ min (4 * b.data.mem.length) b.data.maxSize.toNat) : expand b = .error .badAlloc b := by
  have hne : ¬ b.data.getSize = b.data.maxSize := by
    rw [h.size_eq_max_iff]
    omega
  have hdata : (Data.alloc b.data.maxSize b.data.nextSize : EStateM Fault Bip Data) b = .error .badAlloc b :=
    Data.alloc_denied (by rw [Data.toNat_nextSize h.small]; omega) b
  rw [expand, Outcome.get_bind, if_neg hne, Outcome.bind_error hdata]

/-- A buffer with the same bytes in one region at the start of a longer array. -/
structure Regrown (b b' : Bip) : Prop where
  valid : b'.Valid
  contents_eq : b'.contents = b.contents
  a_start : b'.regionAStart = 0
  b_start : b'.regionBStart = none
  maxSize_eq : b'.data.maxSize = b.data.maxSize
  size_eq : b'.data.mem.length = min (4 * b.data.mem.length) b.data.maxSize.toNat
  size_lt : b.data.mem.length < b'.data.mem.length

theorem expand_spec (hmax : b.data.mem.length < b.data.maxSize.toNat)
    (halloc : min (4 * b.data.mem.length) b.data.maxSize.toNat < 2 ^ 62) :
    ∃ b', expand b = .ok () b' ∧ Regrown b b' := by
  have ha := h.a_le
  have hb := h.b_le
  have hpos := h.pos
  have hla := h.length_regionA
  have hlb := h.length_regionB
  have hcount := h.toNat_getCount
  have hlen := h.length_contents
  obtain ⟨size, hsize⟩ : ∃ size, size = b.data.nextSize := ⟨_, rfl⟩
  have hgrown := Data.toNat_nextSize h.small
  rw [← hsize] at hgrown
  obtain ⟨fresh, hfresh⟩ : ∃ fresh, fresh = List.replicate size.toNat (0 : UInt8) := ⟨_, rfl⟩
  have hfreshlen : fresh.length = size.toNat := by rw [hfresh, List.length_replicate]
  have hlen1 : (CellRing.overwrite fresh 0 b.regionA).length = fresh.length :=
    CellRing.length_overwrite (by omega)
  have hlen2 : (CellRing.overwrite
    (CellRing.overwrite fresh 0 b.regionA) b.regionACount.toNat b.regionB).length =
      fresh.length := (CellRing.length_overwrite (by omega)).trans hlen1
  have hdata : (Data.alloc b.data.maxSize size : EStateM Fault Bip Data) b =
      .ok ⟨fresh, b.data.maxSize⟩ b := by
    rw [Data.alloc_of_lt (by omega), hfresh]
    rfl
  have hstore1 : (Data.store ⟨fresh, b.data.maxSize⟩ 0 b.regionA : EStateM Fault Bip Data) b =
      .ok ⟨CellRing.overwrite fresh 0 b.regionA, b.data.maxSize⟩ b :=
    Data.store_of_le (by change 0 + _ ≤ fresh.length; omega) b
  have hstore2 : (Data.store ⟨CellRing.overwrite fresh 0 b.regionA, b.data.maxSize⟩ b.regionACount b.regionB :
      EStateM Fault Bip Data) b = .ok
        ⟨CellRing.overwrite (CellRing.overwrite fresh 0 b.regionA) b.regionACount.toNat
        b.regionB, b.data.maxSize⟩ b :=
    Data.store_of_le (by change _ ≤ (CellRing.overwrite fresh 0 b.regionA).length; omega) b
  have hback := load_regionB h b
  have hne : ¬ b.data.getSize = b.data.maxSize := by
    rw [h.size_eq_max_iff]
    omega
  refine ⟨⟨⟨CellRing.overwrite (CellRing.overwrite fresh 0 b.regionA) b.regionACount.toNat
    b.regionB, b.data.maxSize⟩,
    0, b.getCount, none, 0⟩, ?_, .single ?_ (fun _ => rfl) ?_ ?_ ?_, ?_, rfl, rfl, rfl, ?_, ?_⟩
  · rw [expand, Outcome.get_bind, if_neg hne, ← hsize, Outcome.bind_ok hdata,
      Outcome.bind_ok (load_regionA h b),
      Outcome.bind_ok hstore1, Outcome.bind_ok hback, Outcome.bind_ok hstore2]
    rfl
  · change 0 + b.getCount.toNat ≤
      (CellRing.overwrite (CellRing.overwrite fresh 0 b.regionA) b.regionACount.toNat
      b.regionB).length
    omega
  · exact Nat.le_trans (Nat.le_of_eq hlen2) (by change fresh.length ≤ b.data.maxSize.toNat; omega)
  · exact Nat.lt_of_lt_of_le (by omega) (Nat.le_of_eq hlen2.symm)
  · exact Nat.lt_of_le_of_lt (Nat.le_of_eq hlen2) (by omega)
  · rw [contents_single, hcount, hlen, ← hlb]
    change slice (CellRing.overwrite _ _ _) 0 _ = _
    rw [slice_grow (by omega) (Nat.zero_add _), ← hla, slice_overwrite (by omega)]
    rfl
  · exact hlen2.trans (hfreshlen.trans hgrown)
  · exact Nat.lt_of_lt_of_le (by omega) (Nat.le_of_eq hlen2.symm)

/-- Growing succeeds, is refused at the bound, or asks for more than the machine has. -/
theorem expand_cases : (∃ b', expand b = .ok () b' ∧ Regrown b b') ∨
    ∃ fault : Fault, expand b = .error fault b ∧ fault.NoSpace := by
  rcases Nat.eq_or_lt_of_le h.size_le with hmax | hmax
  · exact .inr ⟨_, expand_refused h hmax, .inl rfl⟩
  · rcases Nat.lt_or_ge (min (4 * b.data.mem.length) b.data.maxSize.toNat) (2 ^ 62) with halloc | halloc
    · exact .inl (expand_spec h hmax halloc)
    · exact .inr ⟨_, expand_unaffordable h hmax halloc, .inr rfl⟩

/-- Bytes stored behind region A belong to it. -/
theorem Valid.growA (hnone : b.regionBStart = none) {bytes : List UInt8} {count : UInt64}
    (hcount : count.toNat = bytes.length)
    (hroom : b.regionAStart.toNat + b.regionACount.toNat + bytes.length ≤ b.data.mem.length) :
    let b' : Bip := { b with
      data := ⟨CellRing.overwrite b.data.mem (b.regionAStart + b.regionACount).toNat bytes, b.data.maxSize⟩
      regionACount := b.regionACount + count }
    (b.data.store (b.regionAStart + b.regionACount) bytes b = .ok b'.data b) ∧ b'.Valid ∧
      b'.contents = b.contents ++ bytes := by
  have hsmall := h.small
  have hclosed := h.closed hnone
  have hend : (b.regionAStart + b.regionACount).toNat = b.regionAStart.toNat + b.regionACount.toNat :=
    toNat_add_of_lt (by omega)
  have hsum : (b.regionACount + count).toNat = b.regionACount.toNat + bytes.length := by
    rw [toNat_add_of_lt (by omega), hcount]
  have hlen : (CellRing.overwrite b.data.mem (b.regionAStart + b.regionACount).toNat bytes).length =
      b.data.mem.length :=
    CellRing.length_overwrite (by omega)
  refine ⟨Data.store_of_le (by omega) b,
    ⟨?_, h.b_le, h.b_start, h.closed, fun hopen => absurd hnone hopen, ?_,
    Nat.le_trans (Nat.le_of_eq hlen) h.size_le, Nat.lt_of_lt_of_le h.pos (Nat.le_of_eq hlen.symm),
    Nat.lt_of_le_of_lt (Nat.le_of_eq hlen) hsmall⟩, ?_⟩
  · change b.regionAStart.toNat + (b.regionACount + count).toNat ≤
      (CellRing.overwrite b.data.mem (b.regionAStart + b.regionACount).toNat bytes).length
    omega
  · intro hzero
    change (b.regionACount + count).toNat = 0 at hzero
    exact h.empty (by omega)
  · have hback : b.regionB = [] := by rw [h.regionB_eq, hclosed, slice_zero]
    have hgrow : slice (CellRing.overwrite b.data.mem (b.regionAStart + b.regionACount).toNat bytes)
      b.regionAStart.toNat
        (b.regionACount + count).toNat = b.regionA ++ bytes := by
      rw [hsum, slice_grow (by omega) hend.symm]
      rfl
    change slice _ _ _ ++ slice _ _ b.regionBCount.toNat = b.regionA ++ b.regionB ++ bytes
    rw [hgrow, hclosed, slice_zero, hback, List.append_nil, List.append_nil]

/-- Bytes stored behind region B, which may be opened for them. -/
theorem Valid.growB (hpos : 0 < b.regionACount.toNat) {bytes : List UInt8} {count : UInt64}
    (hcount : count.toNat = bytes.length) (hroom : b.regionBCount.toNat + bytes.length ≤ b.regionAStart.toNat)
    (hopen : bytes.length ≠ 0 ∨ b.regionBStart ≠ none) :
    let b' : Bip := { b with
      data := ⟨CellRing.overwrite b.data.mem b.regionBCount.toNat bytes, b.data.maxSize⟩
      regionBStart := some 0
      regionBCount := b.regionBCount + count }
    (b.data.store b.regionBCount bytes b = .ok b'.data b) ∧ b'.Valid ∧ b'.contents = b.contents ++ bytes := by
  have ha := h.a_le
  have hsmall := h.small
  have hsum : (b.regionBCount + count).toNat = b.regionBCount.toNat + bytes.length := by
    rw [toNat_add_of_lt (by omega), hcount]
  have hlen : (CellRing.overwrite b.data.mem b.regionBCount.toNat bytes).length = b.data.mem.length :=
    CellRing.length_overwrite (by omega)
  refine ⟨Data.store_of_le (by omega) b,
    ⟨Nat.le_trans ha (Nat.le_of_eq hlen.symm), ?_, fun start hs => (Option.some.inj hs).symm,
    (fun hn => nomatch hn), ?_, h.empty, Nat.le_trans (Nat.le_of_eq hlen) h.size_le,
    Nat.lt_of_lt_of_le h.pos (Nat.le_of_eq hlen.symm), Nat.lt_of_le_of_lt (Nat.le_of_eq hlen) hsmall⟩, ?_⟩
  · exact Nat.le_trans (Nat.le_of_eq hsum) hroom
  · intro _ hzero
    change (b.regionBCount + count).toNat = 0 at hzero
    change (CellRing.overwrite b.data.mem b.regionBCount.toNat bytes).length - _ - _ < _
    rw [hlen]
    exact h.opened (hopen.resolve_left (by omega)) (by omega)
  · have hfront : slice (CellRing.overwrite b.data.mem b.regionBCount.toNat bytes) b.regionAStart.toNat
        b.regionACount.toNat = b.regionA := slice_overwrite_of_disjoint (by omega) (.inr hroom)
    have hgrow : slice (CellRing.overwrite b.data.mem b.regionBCount.toNat bytes) 0
      (b.regionBCount + count).toNat =
        b.regionB ++ bytes := by
      rw [hsum, slice_grow (by omega) (Nat.zero_add _), h.regionB_eq]
    change slice _ _ _ ++ slice _ (0 : UInt64).toNat _ = b.regionA ++ b.regionB ++ bytes
    rw [hfront, UInt64.toNat_zero, hgrow, List.append_assoc]

def Room (b : Bip) (n : Nat) : Prop :=
  if b.regionBStart = none then b.regionAStart.toNat + b.regionACount.toNat + n ≤ b.data.mem.length
  else b.regionBCount.toNat + n ≤ b.regionAStart.toNat

omit h in
theorem Room.mono {m n : Nat} (hroom : b.Room n) (hle : m ≤ n) : b.Room m := by
  unfold Room at hroom ⊢
  split at hroom
  · rename_i hnone
    rw [if_pos hnone]
    omega
  · rename_i hopen
    rw [if_neg hopen]
    omega

/-- Bytes stored at `get_end()` and announced are the last of the contents. -/
theorem fill_spec {bytes : List UInt8} (hroom : b.Room bytes.length) :
    ∃ b', (do pokeEnd bytes; written (UInt64.ofNat bytes.length) : EStateM Fault Bip Unit) b =
      .ok () b' ∧ b'.Valid ∧
      b'.contents = b.contents ++ bytes ∧ b'.data.maxSize = b.data.maxSize := by
  have ha := h.a_le
  have hsmall := h.small
  unfold Room at hroom
  rcases h.open_cases with hnone | ⟨hopen, hpos⟩
  · rw [if_pos hnone] at hroom
    obtain ⟨hstore, hv, hc⟩ := h.growA hnone (toNat_ofNat_of_lt (by omega)) hroom
    have hend : b.getEnd = b.regionAStart + b.regionACount := by rw [getEnd, hnone]
    have hpoke : pokeEnd bytes b = .ok () { b with
        data := ⟨CellRing.overwrite b.data.mem (b.regionAStart + b.regionACount).toNat bytes,
          b.data.maxSize⟩ } := by
      rw [pokeEnd, Outcome.get_bind, hend, Outcome.bind_ok hstore]
      rfl
    refine ⟨_, ?_, hv, hc, rfl⟩
    rw [Outcome.bind_ok hpoke]
    change EStateM.Result.ok () (if b.regionBStart.isSome then _ else _) = _
    rw [if_neg (by rw [hnone]; nofun)]
  · rw [if_neg (by rw [hopen]; nofun)] at hroom
    obtain ⟨hstore, hv, hc⟩ := h.growB hpos (toNat_ofNat_of_lt (by omega)) hroom (.inr (by rw [hopen]; nofun))
    have hend : b.getEnd = b.regionBCount := by
      rw [getEnd, hopen]
      exact UInt64.zero_add _
    have hpoke : pokeEnd bytes b = .ok () { b with
        data := ⟨CellRing.overwrite b.data.mem b.regionBCount.toNat bytes, b.data.maxSize⟩ } := by
      rw [pokeEnd, Outcome.get_bind, hend, Outcome.bind_ok hstore]
      rfl
    refine ⟨_, ?_, hv, hc, rfl⟩
    rw [Outcome.bind_ok hpoke]
    change EStateM.Result.ok () (if b.regionBStart.isSome then _ else _) = _
    rw [if_pos (by rw [hopen]; rfl)]
    simp only [hopen]

theorem Valid.openB : b.openB.Valid ∧ b.openB.contents = b.contents ∧ b.openB.data = b.data := by
  unfold Bip.openB
  split
  · rename_i hopen
    have hzero : b.regionBCount.toNat = 0 := congrArg UInt64.toNat hopen.1
    have hlt := UInt64.lt_iff_toNat_lt.mp hopen.2
    rw [h.toNat_getASpace] at hlt
    refine ⟨⟨h.a_le, h.b_le, fun start hs => (Option.some.inj hs).symm, (fun hn => nomatch hn),
      fun _ _ => hlt, h.empty,
      h.size_le, h.pos, h.small⟩, ?_, rfl⟩
    change b.regionA ++ slice _ _ b.regionBCount.toNat = b.regionA ++ slice _ _ b.regionBCount.toNat
    rw [hzero, slice_zero, slice_zero]
  · exact ⟨h, rfl, rfl⟩

/-- The space that the query offers is there. -/
theorem Valid.room : b.Room b.continguiousSpace.toNat := by
  have ha := h.a_le
  have hb := h.b_le
  have haspace := h.toNat_getASpace
  unfold Room continguiousSpace
  rcases h.open_cases with hnone | ⟨hopen, -⟩
  · have hzero : ¬ b.regionBCount ≠ 0 := not_not.mpr (UInt64.toNat_inj.mp (h.closed hnone))
    rw [if_pos hnone, if_neg hzero]
    omega
  · have hbspace := h.toNat_getBSpace hopen
    have hne : b.regionBStart ≠ none := by rw [hopen]; nofun
    rw [if_neg hne]
    split
    · omega
    · rename_i hzero
      have hz : b.regionBCount.toNat = 0 := congrArg UInt64.toNat (not_not.mp hzero)
      have := h.opened hne hz
      omega

theorem getContinguiousSpaceFuel_found (fuel : Nat) (hspace : b.openB.continguiousSpace ≠ 0) :
    getContinguiousSpaceFuel (fuel + 1) b = .ok b.openB.continguiousSpace b.openB ∧ b.openB.Valid ∧
      b.openB.contents = b.contents ∧ b.openB.data.maxSize = b.data.maxSize ∧
      b.openB.Room b.openB.continguiousSpace.toNat := by
  obtain ⟨hv, hc, hd⟩ := h.openB
  refine ⟨?_, hv, hc, by rw [hd], hv.room⟩
  rw [getContinguiousSpaceFuel, Outcome.modify_bind, Outcome.get_bind, if_pos hspace]
  rfl

/-- After growing there is space behind region A. -/
theorem Regrown.space {b' : Bip} (hg : Regrown b b') : b'.openB.continguiousSpace ≠ 0 := by
  have hv := hg.valid
  have hlen := hv.length_contents
  have hlt := hg.size_lt
  have ha := h.a_le
  have hb := h.b_le
  have hcontents := h.length_contents
  have hstart : b'.regionAStart.toNat = 0 := by rw [hg.a_start]; rfl
  have hzero := hv.closed hg.b_start
  have haspace := hv.toNat_getASpace
  have hsame : b'.openB = b' := by
    unfold Bip.openB
    refine if_neg fun hopen => ?_
    have := UInt64.lt_iff_toNat_lt.mp hopen.2
    unfold getSpaceBeforeA at this
    omega
  rw [hg.contents_eq] at hlen
  intro hnone
  have hspace := congrArg UInt64.toNat hnone
  rw [hsame, continguiousSpace, if_neg (not_not.mpr (UInt64.toNat_inj.mp hzero)), haspace,
    UInt64.toNat_zero] at hspace
  omega

/-- The query offers space that is there, after growing if it has to, or is refused. -/
theorem getContinguiousSpace_cases :
    (∃ n b', getContinguiousSpace b = .ok n b' ∧ b'.Valid ∧ b'.contents = b.contents ∧
      b'.data.maxSize = b.data.maxSize ∧ b'.Room n.toNat) ∨
    ∃ (fault : Fault) (b' : Bip), getContinguiousSpace b = .error fault b' ∧ fault.NoSpace ∧ b'.Valid ∧
      b'.contents = b.contents ∧ b'.data.maxSize = b.data.maxSize := by
  by_cases hspace : b.openB.continguiousSpace ≠ 0
  · exact .inl ⟨_, _, getContinguiousSpaceFuel_found h 63 hspace⟩
  · obtain ⟨hv, hc, hd⟩ := h.openB
    rw [getContinguiousSpace, getContinguiousSpaceFuel, Outcome.modify_bind, Outcome.get_bind, if_neg hspace]
    rcases expand_cases hv with ⟨b', hexp, hg⟩ | ⟨fault, hexp, hfault⟩
    · obtain ⟨hfound, hv', hc', hm', hroom⟩ :=
        getContinguiousSpaceFuel_found hg.valid 62 (Regrown.space hv hg)
      refine .inl ⟨_, _, ?_, hv', hc'.trans (hg.contents_eq.trans hc), ?_, hroom⟩
      · rw [Outcome.bind_ok hexp, hfound]
      · rw [hm', hg.maxSize_eq, hd]
    · refine .inr ⟨fault, b.openB, ?_, hfault, hv, hc, by rw [hd]⟩
      rw [Outcome.bind_error hexp]

omit h in
private theorem toNat_taken (n count : UInt64) :
    (if n > 0 then sizeMin n count else 0).toNat = min n.toNat count.toNat := by
  split
  · exact toNat_sizeMin _ _
  · rename_i hzero
    have := mt UInt64.lt_iff_toNat_lt.mpr hzero
    rw [UInt64.toNat_zero] at this
    change 0 = _
    omega

/-- Cursor updates that stay in region A. -/
theorem advance_inside {count : UInt64} (hlt : count.toNat < b.regionACount.toNat) :
    let b' : Bip := { b with regionAStart := b.regionAStart + count, regionACount := b.regionACount - count }
    advance count b = .ok () b' ∧ b'.Valid ∧ b'.contents = b.contents.drop count.toNat := by
  have ha := h.a_le
  have hb := h.b_le
  have hsmall := h.small
  have hfrom : (if b.regionACount > 0 then sizeMin b.regionACount count else 0) = count := by
    rw [← UInt64.toNat_inj, toNat_taken]
    omega
  have hstart : (b.regionAStart + count).toNat = b.regionAStart.toNat + count.toNat :=
    toNat_add_of_lt (by omega)
  have hcount : (b.regionACount - count).toNat = b.regionACount.toNat - count.toNat :=
    toNat_sub_of_le (by omega)
  have hne : ¬ b.regionACount - count = 0 := by
    rw [← UInt64.toNat_inj, hcount, UInt64.toNat_zero]
    omega
  refine ⟨?_, ⟨?_, ?_, h.b_start, h.closed, ?_, ?_, h.size_le, h.pos, hsmall⟩, ?_⟩
  · rw [advance, Outcome.get_bind]
    simp only [hfrom, UInt64.sub_self]
    simp only [gt_iff_lt, UInt64.lt_irrefl, if_false, if_neg hne]
    rfl
  · change (b.regionAStart + count).toNat + (b.regionACount - count).toNat ≤ b.data.mem.length
    omega
  · change b.regionBCount.toNat ≤ (b.regionAStart + count).toNat
    omega
  · intro hopen hzero
    have := h.opened hopen hzero
    change b.data.mem.length - (b.regionAStart + count).toNat - (b.regionACount - count).toNat <
      (b.regionAStart + count).toNat
    omega
  · intro hzero
    change (b.regionACount - count).toNat = 0 at hzero
    omega
  · have hla := h.length_regionA
    change slice b.data.mem (b.regionAStart + count).toNat (b.regionACount - count).toNat ++
      b.regionB = (b.regionA ++ b.regionB).drop _
    rw [List.drop_append_of_le_length (by omega), regionA, drop_slice, hstart, hcount]

/-- Cursor updates that use up region A: what is left of region B takes its place. -/
theorem advance_past {count : UInt64} (hge : b.regionACount.toNat ≤ count.toNat)
    (hle : count.toNat ≤ b.contents.length) :
    ∃ b', advance count b = .ok () b' ∧ b'.Valid ∧ b'.contents = b.contents.drop count.toNat ∧
      b'.data = b.data := by
  have ha := h.a_le
  have hb := h.b_le
  have hla := h.length_regionA
  have hlb := h.length_regionB
  have hlen := h.length_contents
  have hfrom : (if b.regionACount > 0 then sizeMin b.regionACount count else 0) = b.regionACount := by
    rw [← UInt64.toNat_inj, toNat_taken]
    omega
  obtain ⟨rest, hrest⟩ : ∃ rest, rest = count - b.regionACount := ⟨_, rfl⟩
  have hrestn : rest.toNat = count.toNat - b.regionACount.toNat := by rw [hrest, toNat_sub_of_le hge]
  have hback : (b.regionBCount - rest).toNat = b.regionBCount.toNat - rest.toNat := toNat_sub_of_le (by omega)
  have hdrop : b.contents.drop count.toNat = b.regionB.drop rest.toNat := by
    rw [contents, List.drop_append, List.drop_eq_nil_of_le (by omega), hla, hrestn]
    rfl
  have hmoved : (if rest > 0 then { b with
        regionAStart := b.regionAStart + b.regionACount
        regionACount := 0
        regionBStart := b.regionBStart.map (· + rest)
        regionBCount := b.regionBCount - rest }
      else { b with regionAStart := b.regionAStart + b.regionACount, regionACount := 0 } : Bip) = { b with
        regionAStart := b.regionAStart + b.regionACount
        regionACount := 0
        regionBStart := b.regionBStart.map (· + rest)
        regionBCount := b.regionBCount - rest } := by
    split
    · rfl
    · rename_i hnone
      have hzero : rest = 0 := by
        have := mt UInt64.lt_iff_toNat_lt.mpr hnone
        rw [UInt64.toNat_zero] at this
        exact UInt64.toNat_inj.mp (Nat.eq_zero_of_not_pos this)
      simp [hzero]
  rw [advance, Outcome.get_bind]
  simp only [hfrom, ← hrest, UInt64.sub_self, hmoved, if_true]
  by_cases hend : b.regionBCount - rest = 0
  · have hgone : b.regionBCount.toNat - rest.toNat = 0 := by rw [← hback, hend]; rfl
    refine ⟨⟨b.data, 0, 0, none, 0⟩, ?_,
      .single (Nat.zero_le _) (fun _ => rfl) h.size_le h.pos h.small, ?_, rfl⟩
    · rw [if_pos hend, hend]
      rfl
    · rw [contents_single, hdrop, List.drop_eq_nil_of_le (by omega)]
      exact slice_zero
  · have hopen : b.regionBStart = some 0 := by
      rcases h.open_cases with hnone | ⟨hopen, -⟩
      · have hzero := h.closed hnone
        refine absurd (UInt64.toNat_inj.mp ?_) hend
        rw [hback, hzero, Nat.zero_sub]
        rfl
      · exact hopen
    refine ⟨⟨b.data, rest, b.regionBCount - rest, none, 0⟩, ?_,
      .single ?_ ?_ h.size_le h.pos h.small, ?_, rfl⟩
    · rw [if_neg hend, hopen]
      change EStateM.Result.ok () (Bip.mk b.data (0 + rest) _ none 0) = _
      rw [UInt64.zero_add]
    · omega
    · intro hzero
      exact absurd (UInt64.toNat_inj.mp hzero) hend
    · rw [contents_single, hdrop, h.regionB_eq, drop_slice, Nat.zero_add, hback]

private theorem advance_spec {count : UInt64} (hle : count.toNat ≤ b.contents.length) :
    ∃ b', advance count b = .ok () b' ∧ b'.Valid ∧ b'.contents = b.contents.drop count.toNat ∧
      b'.data = b.data := by
  rcases Nat.lt_or_ge count.toNat b.regionACount.toNat with hlt | hge
  · obtain ⟨hrun, hv, hc⟩ := advance_inside h hlt
    exact ⟨_, hrun, hv, hc, rfl⟩
  · exact advance_past h hge hle

theorem remove_spec {count : UInt64} (hle : count.toNat ≤ b.contents.length) :
    ∃ b', remove count b = .ok () b' ∧ b'.Valid ∧ b'.contents = b.contents.drop count.toNat ∧
      b'.data = b.data := by
  obtain ⟨b', hrun, hv, hc, hd⟩ := advance_spec h hle
  refine ⟨b', ?_, hv, hc, hd⟩
  rw [remove, Outcome.get_bind, if_neg (by rw [h.count_lt_iff]; omega), hrun]

/-- A read from a place in region A on goes on at the front of region B. -/
theorem copyOut_spec {count offset : UInt64} (hoff : offset.toNat ≤ b.regionACount.toNat)
    (hr : offset.toNat + count.toNat ≤ b.contents.length) :
    b.copyOut count offset b = .ok ((b.contents.drop offset.toNat).take count.toNat) b := by
  have ha := h.a_le
  have hsmall := h.small
  have hla := h.length_regionA
  have hlb := h.length_regionB
  have hlen := h.length_contents
  obtain ⟨fromA, hfrom⟩ : ∃ fromA, fromA = if b.regionACount > 0 ∧ ¬ b.regionACount < offset
    then sizeMin (b.regionACount - offset) count else 0 := ⟨_, rfl⟩
  have hfromn : fromA.toNat = min (b.regionACount.toNat - offset.toNat) count.toNat := by
    rw [hfrom]
    split
    · rw [toNat_sizeMin, toNat_sub_of_le hoff]
    · rename_i hout
      have : b.regionACount.toNat = 0 := by
        by_contra hpos
        refine hout ⟨UInt64.lt_iff_toNat_lt.mpr (by rw [UInt64.toNat_zero]; omega), fun hlt => ?_⟩
        have := UInt64.lt_iff_toNat_lt.mp hlt
        omega
      change 0 = _
      omega
  have hrest : (count - fromA).toNat = count.toNat - fromA.toNat := toNat_sub_of_le (by omega)
  have hplace : (b.regionAStart + offset).toNat = b.regionAStart.toNat + offset.toNat :=
    toNat_add_of_lt (by omega)
  have hfront : (copyIf (b.regionACount > 0 ∧ ¬ b.regionACount < offset)
    (b.data.load (b.regionAStart + offset) fromA) :
      EStateM Fault Bip _) b = .ok ((b.regionA.drop offset.toNat).take fromA.toNat) b := by
    unfold copyIf
    split
    · rw [Data.load_of_le (by omega), hplace, regionA, drop_slice, take_slice (by omega)]
      rfl
    · rename_i hout
      rw [if_neg hout] at hfrom
      rw [hfrom, UInt64.toNat_zero, List.take_zero]
      rfl
  have hback : (copyIf (count - fromA > 0)
    (b.loadAt b.regionBStart (count - fromA)) : EStateM Fault Bip _) b =
      .ok (b.regionB.take (count - fromA).toNat) b := by
    unfold copyIf
    split
    · exact loadAt_regionB h b (by omega)
    · rename_i hnone
      have := mt UInt64.lt_iff_toNat_lt.mpr hnone
      rw [UInt64.toNat_zero] at this
      rw [show (count - fromA).toNat = 0 by omega, List.take_zero]
      rfl
  have hjoin : (b.regionA.drop offset.toNat).take fromA.toNat ++ b.regionB.take (count - fromA).toNat =
      (b.contents.drop offset.toNat).take count.toNat := by
    rw [contents, List.drop_append_of_le_length (by omega), List.take_append, List.length_drop, hla, hrest]
    congr 1
    · rcases Nat.le_total count.toNat (b.regionACount.toNat - offset.toNat) with hle | hle
      · rw [show fromA.toNat = count.toNat by omega]
      · rw [List.take_of_length_le (by rw [List.length_drop]; omega),
          List.take_of_length_le (by rw [List.length_drop]; omega)]
    · congr 1
      omega
  subst hfrom
  simp only [copyOut]
  rw [Outcome.bind_ok hfront, Outcome.bind_ok hback, hjoin]
  rfl

theorem Valid.ne_noOffset {offset : UInt64} (ho : offset.toNat ≤ b.contents.length) : offset ≠ noOffset := by
  rintro rfl
  have hlen := h.length_contents
  have ha := h.a_le
  have hb := h.b_le
  have hsmall := h.small
  have : noOffset.toNat = 2 ^ 64 - 1 := rfl
  omega

theorem read_peek {count offset : UInt64} (hoff : offset.toNat ≤ b.regionACount.toNat)
    (hr : offset.toNat + count.toNat ≤ b.contents.length) :
    read count offset b = .ok ((b.contents.drop offset.toNat).take count.toNat) b := by
  have hno : offset ≠ noOffset := h.ne_noOffset (by omega)
  have hlen := h.length_contents
  have ha := h.a_le
  have hb := h.b_le
  have hsmall := h.small
  have hguard : ¬ b.getCount < offset + count := by
    rw [h.count_lt_iff, toNat_add_of_lt (by omega)]
    omega
  simp only [read, if_neg hno, Outcome.get_bind, if_neg hguard]
  rw [Outcome.bind_ok (copyOut_spec h hoff hr), if_pos hno]
  rfl

theorem read_past {count offset : UInt64} (hsum : offset.toNat + count.toNat < 2 ^ 64)
    (hr : b.contents.length < offset.toNat + count.toNat) (hoff : offset ≠ noOffset) :
    read count offset b = .error (.thrown .readInvalidOffset) b := by
  have hguard : b.getCount < offset + count := by
    rw [h.count_lt_iff, toNat_add_of_lt hsum]
    exact hr
  simp only [read, if_neg hoff, Outcome.get_bind, if_pos hguard]
  rfl

theorem read_consume {count : UInt64} (hr : count.toNat ≤ b.contents.length) :
    ∃ b', read count noOffset b = .ok (b.contents.take count.toNat) b' ∧ b'.Valid ∧
      b'.contents = b.contents.drop count.toNat ∧ b'.data = b.data := by
  have hguard : ¬ b.getCount < 0 + count := by
    rw [UInt64.zero_add, h.count_lt_iff]
    omega
  have hcopy : b.copyOut count 0 b = .ok ((b.contents.drop (0 : UInt64).toNat).take count.toNat) b :=
    copyOut_spec h (Nat.zero_le _) (by rw [UInt64.toNat_zero, Nat.zero_add]; exact hr)
  obtain ⟨b', hrun, hv, hc, hd⟩ := advance_spec h hr
  rw [UInt64.toNat_zero, List.drop_zero] at hcopy
  refine ⟨b', ?_, hv, hc, hd⟩
  simp only [read, if_true, Outcome.get_bind, if_neg hguard]
  rw [Outcome.bind_ok hcopy, if_neg (not_not.mpr rfl), Outcome.bind_ok hrun]
  rfl

theorem read_short {count : UInt64} (hr : b.contents.length < count.toNat) :
    read count noOffset b = .error (.thrown .readInvalidOffset) b := by
  have hguard : b.getCount < 0 + count := by
    rw [UInt64.zero_add, h.count_lt_iff]
    exact hr
  simp only [read, if_true, Outcome.get_bind, if_pos hguard]
  rfl

/-- What lies behind `get_start()` is the front of the contents. -/
theorem loadAt_start {count : UInt64} (hn : count ≤ b.getContinguiousCount) :
    (b.loadAt b.getStart count : EStateM Fault Bip _) b = .ok (b.contents.take count.toNat) b ∧
      count.toNat ≤ b.contents.length := by
  have ha := h.a_le
  have hla := h.length_regionA
  have hlen := h.length_contents
  have hle := UInt64.le_iff_toNat_le.mp hn
  unfold getContinguiousCount at hle
  unfold getStart
  by_cases hzero : b.regionACount = 0
  · rw [if_neg (not_not.mpr hzero)] at hle ⊢
    have hnil : b.regionA = [] := by
      rw [regionA, hzero]
      exact slice_zero
    refine ⟨?_, by omega⟩
    rw [loadAt_regionB h b hle, contents, hnil]
    rfl
  · rw [if_pos hzero] at hle ⊢
    refine ⟨?_, by omega⟩
    rw [loadAt, Data.load_of_le (by omega), contents, List.take_append_of_le_length (by omega),
      regionA, take_slice hle]
    rfl

/-- Removal from the back that stays in region B. -/
theorem removeFromBack_inside {count : UInt64} (hlt : count.toNat < b.regionBCount.toNat) :
    let b' : Bip := { b with regionBCount := b.regionBCount - count }
    removeFromBack count b = .ok () b' ∧ b'.Valid ∧
      b'.contents = b.contents.take (b.contents.length - count.toNat) := by
  have hb := h.b_le
  have hla := h.length_regionA
  have hlen := h.length_contents
  have hguard : ¬ b.getCount < count := by
    rw [h.count_lt_iff]
    omega
  have hfrom : (if b.regionBCount > 0 then sizeMin b.regionBCount count else 0) = count := by
    rw [← UInt64.toNat_inj, toNat_taken]
    omega
  have hback : (b.regionBCount - count).toNat = b.regionBCount.toNat - count.toNat :=
    toNat_sub_of_le (by omega)
  have hne : ¬ b.regionBCount - count = 0 := by
    rw [← UInt64.toNat_inj, hback, UInt64.toNat_zero]
    omega
  refine ⟨?_, ⟨h.a_le, ?_, h.b_start, ?_, ?_, h.empty, h.size_le, h.pos, h.small⟩, ?_⟩
  · rw [removeFromBack, Outcome.get_bind, if_neg hguard]
    simp only [hfrom, UInt64.sub_self]
    simp only [gt_iff_lt, UInt64.lt_irrefl, if_false, if_neg hne]
    rfl
  · change (b.regionBCount - count).toNat ≤ b.regionAStart.toNat
    omega
  · intro hnone
    have := h.closed hnone
    omega
  · intro _ hzero
    change (b.regionBCount - count).toNat = 0 at hzero
    omega
  · change b.regionA ++ slice _ _ (b.regionBCount - count).toNat = (b.regionA ++ b.regionB).take _
    rw [hback, List.take_append, List.take_of_length_le (by omega), regionB, take_slice (by omega)]
    congr 2
    omega

/-- Removal of the whole of region B and some of region A. -/
theorem removeFromBack_past {count : UInt64} (hge : b.regionBCount.toNat ≤ count.toNat)
    (hle : count.toNat ≤ b.contents.length) :
    ∃ b', removeFromBack count b = .ok () b' ∧ b'.Valid ∧
      b'.contents = b.contents.take (b.contents.length - count.toNat) ∧ b'.data = b.data := by
  have ha := h.a_le
  have hla := h.length_regionA
  have hlen := h.length_contents
  have hguard : ¬ b.getCount < count := by
    rw [h.count_lt_iff]
    omega
  have hfrom : (if b.regionBCount > 0 then sizeMin b.regionBCount count else 0) = b.regionBCount := by
    rw [← UInt64.toNat_inj, toNat_taken]
    omega
  obtain ⟨rest, hrest⟩ : ∃ rest, rest = count - b.regionBCount := ⟨_, rfl⟩
  have hrestn : rest.toNat = count.toNat - b.regionBCount.toNat := by rw [hrest, toNat_sub_of_le hge]
  have hleft : (b.regionACount - rest).toNat = b.regionACount.toNat - rest.toNat := toNat_sub_of_le (by omega)
  have hmoved : (if rest > 0 then
      { b with regionACount := b.regionACount - sizeMin b.regionACount rest, regionBCount := 0 }
      else { b with regionBCount := 0 } : Bip) =
        { b with regionACount := b.regionACount - rest, regionBCount := 0 } := by
    split
    · have hmin : sizeMin b.regionACount rest = rest := by
        rw [← UInt64.toNat_inj, toNat_sizeMin]
        omega
      rw [hmin]
    · rename_i hnone
      have hzero : rest = 0 := by
        have := mt UInt64.lt_iff_toNat_lt.mpr hnone
        rw [UInt64.toNat_zero] at this
        exact UInt64.toNat_inj.mp (Nat.eq_zero_of_not_pos this)
      simp [hzero]
  have htake : b.contents.take (b.contents.length - count.toNat) =
      slice b.data.mem b.regionAStart.toNat (b.regionACount - rest).toNat := by
    rw [show b.contents.length - count.toNat = (b.regionACount - rest).toNat by omega, contents,
      List.take_append_of_le_length (by omega), regionA, take_slice (by omega)]
  rw [removeFromBack, Outcome.get_bind, if_neg hguard]
  simp only [hfrom, ← hrest, UInt64.sub_self, hmoved, if_true]
  by_cases hend : b.regionACount - rest = 0
  · refine ⟨⟨b.data, 0, 0, none, 0⟩, ?_,
      .single (Nat.zero_le _) (fun _ => rfl) h.size_le h.pos h.small, ?_, rfl⟩
    · rw [if_pos hend, hend]
      rfl
    · rw [contents_single, htake, hend]
      exact slice_zero.trans slice_zero.symm
  · refine ⟨⟨b.data, b.regionAStart, b.regionACount - rest, none, 0⟩, ?_,
      .single (by omega) ?_ h.size_le h.pos h.small, ?_, rfl⟩
    · rw [if_neg hend]
      rfl
    · intro hzero
      exact absurd (UInt64.toNat_inj.mp hzero) hend
    · rw [contents_single, htake]

theorem removeFromBack_spec {count : UInt64} (hle : count.toNat ≤ b.contents.length) :
    ∃ b', removeFromBack count b = .ok () b' ∧ b'.Valid ∧
      b'.contents = b.contents.take (b.contents.length - count.toNat) ∧ b'.data = b.data := by
  rcases Nat.lt_or_ge count.toNat b.regionBCount.toNat with hlt | hge
  · obtain ⟨hrun, hv, hc⟩ := removeFromBack_inside h hlt
    exact ⟨_, hrun, hv, hc, rfl⟩
  · exact removeFromBack_past h hge hle

end Specs
end Bip
end SimpleNetwork
