import SimpleNetwork.Buffer.Array
import SimpleNetwork.Buffer.BipSpec

/-! The space queries of `bip` and `array` against the gap behind `get_end()`. -/
namespace SimpleNetwork
open Words

namespace Bip

/-- Free bytes from `get_end()` to the end of the gap it points into. -/
def gap (b : Bip) : Nat :=
  match b.regionBStart with
  | some start => b.regionAStart.toNat - (start.toNat + b.regionBCount.toNat)
  | none => b.data.mem.length - (b.regionAStart.toNat + b.regionACount.toNat)

def gapBehind (b : Bip) : Nat := b.data.mem.length - b.regionAStart.toNat - b.regionACount.toNat

/-- The gap the query is to report: the one behind region B, or with an empty
region B the larger one of those behind and before region A. -/
def usableGap (b : Bip) : Nat :=
  if b.regionBCount = 0 then max b.gapBehind b.regionAStart.toNat else b.gap

/-- The query moves the write position to the start of the array. -/
def TurnsBack (b : Bip) : Prop := b.regionBCount = 0 ∧ b.gapBehind < b.regionAStart.toNat

instance (b : Bip) : Decidable b.TurnsBack := inferInstanceAs (Decidable (_ ∧ _))

/-- A query that reports the gap `get_end()` points into, and grows the array or
gives up only when the usable gap is empty. -/
def Reports (b : Bip) : EStateM.Result Fault Bip UInt64 → Prop
  | .ok space b' => space.toNat = b'.gap ∧ b'.Valid ∧ b'.contents = b.contents ∧
      if b.usableGap = 0 then b.data.mem.length < b'.data.mem.length else b'.gap = b.usableGap ∧
        b'.data = b.data
  | .error fault b' => fault.NoSpace ∧ b.usableGap = 0 ∧ b'.Valid ∧ b'.contents = b.contents

section Query
variable {b : Bip} (h : b.Valid)
include h

private theorem Valid.opens_iff : b.regionBCount = 0 ∧ b.getASpace < b.getSpaceBeforeA ↔ b.TurnsBack := by
  rw [UInt64.lt_iff_toNat_lt, h.toNat_getASpace]
  rfl

/-- Elsewhere the number computed is the length of the gap. -/
theorem Valid.space_eq_gap (hstays : ¬ b.TurnsBack) : b.continguiousSpace.toNat = b.gap ∧
    b.usableGap = b.gap := by
  have haspace := h.toNat_getASpace
  unfold continguiousSpace usableGap gap
  rcases h.open_cases with hnone | ⟨hopen, -⟩
  · have hzero : b.regionBCount = 0 := UInt64.toNat_inj.mp (h.closed hnone)
    have hbehind : b.regionAStart.toNat ≤ b.gapBehind := by
      by_contra hnot
      exact hstays ⟨hzero, by omega⟩
    rw [if_neg (not_not.mpr hzero), if_pos hzero, hnone]
    unfold gapBehind at hbehind ⊢
    constructor <;> simp only <;> omega
  · have hbspace := h.toNat_getBSpace hopen
    have hsome : ¬ b.regionBCount = 0 := fun hzero =>
      hstays ⟨hzero, h.opened (by rw [hopen]; nofun) (congrArg UInt64.toNat hzero)⟩
    rw [if_pos hsome, if_neg hsome, hopen, hbspace]
    refine ⟨?_, rfl⟩
    change _ = b.regionAStart.toNat - (0 + b.regionBCount.toNat)
    rw [Nat.zero_add]

omit h in
/-- Region B of a regrown buffer stays closed. -/
theorem Regrown.stays {b' : Bip} (hg : Regrown b b') : ¬ b'.TurnsBack := by
  have hstart : b'.regionAStart.toNat = 0 := by rw [hg.a_start]; rfl
  rintro ⟨-, hlt⟩
  omega

/-- The query in an array that has just grown. -/
theorem Regrown.query (fuel : Nat) {b' : Bip} (hg : Regrown b b') :
    getContinguiousSpaceFuel (fuel + 1) b' = .ok b'.continguiousSpace b' := by
  have hsame : b'.openB = b' := if_neg (mt hg.valid.opens_iff.mp hg.stays)
  have hfound := (getContinguiousSpaceFuel_found hg.valid fuel (Regrown.space h hg)).1
  rw [hsame] at hfound
  exact hfound

private theorem query_stays (hstays : ¬ b.TurnsBack) : Reports b (getContinguiousSpace b) := by
  have hsame : b.openB = b := if_neg (mt h.opens_iff.mp hstays)
  obtain ⟨hspace, husable⟩ := h.space_eq_gap hstays
  rw [getContinguiousSpace, getContinguiousSpaceFuel, Outcome.modify_bind, hsame, Outcome.get_bind]
  by_cases hfound : b.continguiousSpace ≠ 0
  · have hne : ¬ b.usableGap = 0 := by
      rw [husable, ← hspace]
      exact fun hzero => hfound (UInt64.toNat_inj.mp hzero)
    rw [if_pos hfound]
    refine ⟨hspace, h, rfl, ?_⟩
    rw [if_neg hne]
    exact ⟨husable.symm, rfl⟩
  · have hzero : b.usableGap = 0 := by
      rw [husable, ← hspace, not_not.mp hfound]
      rfl
    rw [if_neg hfound]
    rcases expand_cases h with ⟨b', hexp, hg⟩ | ⟨fault, hexp, hfault⟩
    · rw [Outcome.bind_ok hexp, hg.query h 62]
      refine ⟨(hg.valid.space_eq_gap hg.stays).1, hg.valid, hg.contents_eq, ?_⟩
      rw [if_pos hzero]
      exact hg.size_lt
    · rw [Outcome.bind_error hexp]
      exact ⟨hfault, hzero, h, rfl⟩

/-- The gap behind region A is reported for a write position before it, and an
empty one makes the array grow although there is room before region A. -/
theorem query_turnsBack (hback : b.TurnsBack) : ¬ Reports b (getContinguiousSpace b) := by
  obtain ⟨hzero, hlt⟩ := hback
  obtain ⟨hv, -, hd⟩ := h.openB
  have hopen : b.openB = { b with regionBStart := some 0 } := if_pos (h.opens_iff.mpr ⟨hzero, hlt⟩)
  have hspace : b.openB.continguiousSpace.toNat = b.gapBehind := by
    rw [hopen, continguiousSpace, if_neg (not_not.mpr hzero)]
    exact h.toNat_getASpace
  have husable : b.regionAStart.toNat ≤ b.usableGap := by
    rw [usableGap, if_pos hzero]
    omega
  have hne : ¬ b.usableGap = 0 := by omega
  by_cases hfound : b.openB.continguiousSpace ≠ 0
  · have hrun : getContinguiousSpace b = _ := (getContinguiousSpaceFuel_found h 63 hfound).1
    rw [hrun]
    rintro ⟨hgap, -⟩
    have hbefore : b.openB.gap = b.regionAStart.toNat := by
      rw [hopen, gap, hzero]
      exact Nat.sub_zero _
    omega
  · rw [getContinguiousSpace, getContinguiousSpaceFuel, Outcome.modify_bind, Outcome.get_bind, if_neg hfound]
    rcases expand_cases hv with ⟨b', hexp, hg⟩ | ⟨fault, hexp, -⟩
    · have hmore := hg.size_lt
      rw [hd] at hmore
      rw [Outcome.bind_ok hexp, hg.query hv 62]
      rintro ⟨-, -, -, hkept⟩
      rw [if_neg hne] at hkept
      rw [hkept.2] at hmore
      exact Nat.lt_irrefl _ hmore
    · rw [Outcome.bind_error hexp]
      rintro ⟨-, hnone, -⟩
      exact hne hnone

end Query
end Bip

/-- The query of `bip` reports the gap that `get_end()` points into exactly when
it does not open region B. -/
theorem bip_space_query_iff {b : Bip} (h : b.Valid) : b.Reports (Bip.getContinguiousSpace b) ↔
    ¬ b.TurnsBack :=
  ⟨fun hreports hback => Bip.query_turnsBack h hback hreports, Bip.query_stays h⟩

def thirdByte : Bip := ⟨⟨[0, 0, 7, 0], 4⟩, 2, 1, none, 0⟩

private theorem thirdByte_valid : thirdByte.Valid :=
  .single (by decide) (fun hzero => absurd hzero (by decide)) (by decide) (by decide) (by decide)

/-- One byte at the first place. -/
theorem bip_space_query_first : Bip.Reports ⟨⟨[7, 0, 0, 0], 4⟩, 0, 1, none, 0⟩
    (Bip.getContinguiousSpace ⟨⟨[7, 0, 0, 0], 4⟩, 0, 1, none, 0⟩) :=
  (bip_space_query_iff (.single (by decide) (fun hzero => absurd hzero (by decide)) (by decide)
    (by decide) (by decide))).mpr
    (by decide)

/-- Two bytes are free at the write position after the query, and one is reported. -/
theorem bip_space_query_short : thirdByte.Valid ∧
    Bip.getContinguiousSpace thirdByte = .ok 1 { thirdByte with regionBStart := some 0 } ∧
    Bip.gap { thirdByte with regionBStart := some 0 } = 2 :=
  ⟨thirdByte_valid, by decide⟩

namespace ArrayBuffer

def getEnd (a : ArrayBuffer) : UInt64 := a.tail

def pokeEnd (bytes : List UInt8) : EStateM Fault ArrayBuffer Unit := do
  let a ← get
  let data ← a.data.store a.getEnd bytes
  set { a with data := data }

def written (count : UInt64) : EStateM Fault ArrayBuffer Unit :=
  modify fun a => { a with tail := a.tail + count }

def fill (bytes : List UInt8) : EStateM Fault ArrayBuffer Unit := do
  pokeEnd bytes
  written (UInt64.ofNat bytes.length)

/-- A query that reports the room behind the tail of the array it leaves, and room for what is stored there. -/
def Offers (a : ArrayBuffer) : EStateM.Result Fault ArrayBuffer UInt64 → Prop
  | .ok space a' =>
    space.toNat = a'.data.mem.length - a'.tail.toNat ∧ 0 < space.toNat ∧ a'.contents = a.contents ∧
      ∀ bytes : List UInt8, bytes.length ≤ space.toNat →
        ∃ a'', fill bytes a' = .ok () a'' ∧ a''.Valid ∧ a''.contents = a.contents ++ bytes
  | .error _ _ => True

/-- The tail is at the end of an array that can grow, and the contents are not half of the grown array. -/
def CountsForSpace (a : ArrayBuffer) : Prop :=
  a.tail.toNat = a.data.mem.length ∧ a.data.mem.length < a.data.maxSize.toNat ∧
    min (4 * a.data.mem.length) a.data.maxSize.toNat < 2 ^ 62 ∧
    2 * a.contents.length ≠ min (4 * a.data.mem.length) a.data.maxSize.toNat

instance (a : ArrayBuffer) : Decidable a.CountsForSpace := inferInstanceAs (Decidable (_ ∧ _))

section Query
variable {a : ArrayBuffer} (h : a.Valid)

private theorem fill_eq_place (bytes : List UInt8) : fill bytes a = place bytes a := by
  rw [fill, place, Outcome.get_bind, pokeEnd, bind_assoc, Outcome.get_bind, bind_assoc]
  rfl

include h

/-- Room behind the tail takes what is stored in it. -/
theorem offers_of_space {b : ArrayBuffer} (hc : a.contents = b.contents) {space : UInt64}
    (hspace : space.toNat = a.data.mem.length - a.tail.toNat) (hpos : 0 < space.toNat) :
    Offers b (.ok space a) := by
  refine ⟨hspace, hpos, hc, fun bytes hroom => ?_⟩
  obtain ⟨a', hplace, hv, hc', -⟩ := place_spec h bytes (by omega)
  exact ⟨a', (fill_eq_place bytes).trans hplace, hv, by rw [hc', hc]⟩

private theorem query_at_end (hend : a.tail.toNat = a.data.mem.length) :
    (Offers a (getContinguiousSpace a) ↔ ¬ a.CountsForSpace) := by
  have hlen := h.length_contents
  rw [getContinguiousSpace_at_end h hend]
  rcases Nat.eq_or_lt_of_le h.size_le with hlast | hmax
  · rw [Outcome.bind_error (expand_refused h hlast)]
    exact iff_of_true trivial fun hcounts => absurd hlast (Nat.ne_of_lt hcounts.2.1)
  rcases Nat.lt_or_ge (min (4 * a.data.mem.length) a.data.maxSize.toNat) (2 ^ 62) with halloc | halloc
  · obtain ⟨b, hexp, hv, hc, hhead, hl, -⟩ := expand_spec h hmax halloc
    have hzero : b.head.toNat = 0 := by rw [hhead]; rfl
    have hblen := hv.length_contents
    have hcount := hv.toNat_getCount
    have hpos := hv.pos
    rw [hc] at hblen
    rw [Outcome.bind_ok hexp]
    change Offers a (.ok b.getCount b) ↔ _
    constructor
    · rintro ⟨hspace, -⟩ hcounts
      have hhalf := hcounts.2.2.2
      omega
    · intro hnot
      have hhalf : 2 * a.contents.length = min (4 * a.data.mem.length) a.data.maxSize.toNat := by
        by_contra hne
        exact hnot ⟨hend, hmax, halloc, hne⟩
      exact offers_of_space hv hc (by omega) (by omega)
  · rw [Outcome.bind_error (expand_denied h hmax halloc)]
    exact iff_of_true trivial fun hcounts => absurd hcounts.2.2.1 (Nat.not_lt.mpr halloc)

end Query
end ArrayBuffer

/-- The query of `array` offers the room behind the tail exactly when it does
not answer with the count after growing. -/
theorem array_space_query_iff {a : ArrayBuffer} (h : a.Valid) :
    a.Offers (ArrayBuffer.getContinguiousSpace a) ↔ ¬ a.CountsForSpace := by
  rcases Nat.eq_or_lt_of_le h.tail_le with hend | hin
  · exact ArrayBuffer.query_at_end h hend
  · rw [ArrayBuffer.getContinguiousSpace_inside h hin]
    have hspace := h.toNat_space
    exact iff_of_true (ArrayBuffer.offers_of_space h rfl hspace (by omega)) fun hcounts =>
      Nat.ne_of_lt hin hcounts.1

/-- Two bytes in an array of two that may grow to four: half of it. -/
theorem array_space_query_half :
    ArrayBuffer.Offers ⟨⟨[1, 2], 4⟩, 0, 2⟩ (ArrayBuffer.getContinguiousSpace ⟨⟨[1, 2], 4⟩, 0, 2⟩) :=
  (array_space_query_iff ⟨by decide, by decide, by decide, by decide, by decide⟩).mpr (by decide)

/-- The same bytes, and the array grows to three: two bytes are offered and there is room for one. -/
theorem array_space_query_long : ArrayBuffer.Valid ⟨⟨[1, 2], 3⟩, 0, 2⟩ ∧
    ArrayBuffer.getContinguiousSpace ⟨⟨[1, 2], 3⟩, 0, 2⟩ = .ok 2 ⟨⟨[1, 2, 0], 3⟩, 0, 2⟩ ∧
    ArrayBuffer.fill [3, 4] ⟨⟨[1, 2, 0], 3⟩, 0, 2⟩ = .error .outOfBounds ⟨⟨[1, 2, 0], 3⟩, 0, 2⟩ :=
  ⟨⟨by decide, by decide, by decide, by decide, by decide⟩, by decide⟩

end SimpleNetwork
