import Mathlib.Order.Lattice.Nat
import SimpleNetwork.Buffer.Array
import SimpleNetwork.Buffer.BipQueue
import SimpleNetwork.Buffer.CircleRefusal

/-! What the three buffer types refuse: appends that do not fit, and removals of
more than there is. -/
namespace SimpleNetwork
open Words

namespace Circle

/-- A capacity that multiplying by four gets to while it stays below the bound. -/
def Capacity (c : Circle) (size : Nat) : Prop :=
  ∃ j, size = c.data.mem.length * 4 ^ j ∧ (j = 0 ∨ size < c.data.maxSize.toNat)

private theorem exists_greatest_capacity (c : Circle) : ∃ size, IsGreatest {size | c.Capacity size} size := by
  have hnonempty : {size | c.Capacity size}.Nonempty := ⟨_, 0, (Nat.mul_one _).symm, .inl rfl⟩
  have hbounded : BddAbove {size | c.Capacity size} := by
    refine ⟨max c.data.mem.length c.data.maxSize.toNat, ?_⟩
    rintro size ⟨j, rfl, rfl | hlt⟩
    · rw [Nat.pow_zero, Nat.mul_one]
      exact Nat.le_max_left _ _
    · exact Nat.le_trans (Nat.le_of_lt hlt) (Nat.le_max_right _ _)
  exact ⟨_, Nat.sSup_mem hnonempty hbounded, fun _ hsize => le_csSup hbounded hsize⟩

/-- The ring admits what leaves a cell free in its largest capacity. -/
theorem admits_iff_of_greatest {c : Circle} {size : Nat}
    (hsize : IsGreatest {size | c.Capacity size} size) (count : Nat) :
    c.Admits count ↔ c.contents.length + count < size := by
  constructor
  · rintro ⟨j, hfits, hreach⟩
    exact Nat.lt_of_lt_of_le hfits (hsize.2 ⟨j, rfl, hreach⟩)
  · intro hfits
    obtain ⟨j, hj, hreach⟩ := hsize.1
    rw [hj] at hfits hreach
    exact ⟨j, hfits, hreach⟩

section Append
variable {c : Circle} (h : c.PowerOfTwo) {data : List UInt8} (hpos : 0 < data.length)
  (hdata : data.length < 2 ^ 64)
include h hpos hdata

/-- An append that throws could not be made in any capacity. -/
theorem not_admits_of_throws {fault : Fault} {c' : Circle} (hmax : c.data.maxSize.toNat < 2 ^ 62)
    (hrun : write data noOffset c = .error fault c') (he : fault.isException) : ¬ c.Admits data.length := by
  rcases (writeFuel_refused hdata hpos _ h hrun he).cause with ⟨-, hfar⟩ | ⟨-, hlarge⟩
  · exact hfar
  · omega

/-- It throws exactly when no capacity admits the bytes, unless a growth leaves the array. -/
theorem throws_iff (hmax : c.data.maxSize.toNat < 2 ^ 62) :
    ((∃ fault c', write data noOffset c = .error fault c' ∧ fault.isException) ↔ ¬ c.Admits data.length) ↔
      c.Admits data.length ∨ c.GrowsInside := by
  constructor
  · intro hexact
    by_contra hbad
    obtain ⟨hfar, hout⟩ := not_or.mp hbad
    obtain ⟨fault, c', hrun, he⟩ := hexact.mpr hfar
    have hunfit : c.data.mem.length ≤ c.contents.length + data.length := by
      by_contra hfits
      refine hfar ⟨0, ?_, .inl rfl⟩
      rw [Nat.pow_zero, Nat.mul_one]
      omega
    cases (h.write_outside (by omega) hout hdata hunfit).symm.trans hrun
    exact absurd he (by decide)
  · rintro (hadmits | hin)
    · refine iff_of_false ?_ (not_not.mpr hadmits)
      rintro ⟨fault, c', hrun, he⟩
      exact not_admits_of_throws h hpos hdata hmax hrun he hadmits
    · constructor
      · rintro ⟨fault, c', hrun, he⟩
        exact not_admits_of_throws h hpos hdata hmax hrun he
      · intro hfar
        have hlt := h.length_lt
        obtain ⟨c', hrun⟩ := writeFuel_throws hdata (data.length + 64) h (by omega) hin hfar (by omega)
        exact ⟨_, c', hrun, rfl⟩

end Append
end Circle

/-- What an append that throws leaves: the space error and the contents, in a valid buffer. -/
structure FailedAppend {β : Type} (valid : β → Prop) (contents : β → List UInt8) (getCount : β → UInt64)
    (b : β) (fault : Fault) (b' : β) : Prop where
  error_eq : fault = .thrown .writeNoSpace
  contents_eq : contents b' = contents b
  getCount_eq : getCount b' = getCount b
  valid_after : valid b'

namespace Circle

/-- What is asked of an append to a ring: if it throws, the contents stay, and it
throws exactly when the bytes and a free cell do not fit the largest capacity. -/
def FailsCleanly (c : Circle) (data : List UInt8) : Prop :=
  (∀ fault c', write data noOffset c = .error fault c' → fault.isException →
    FailedAppend PowerOfTwo contents getCount c fault c') ∧
  ∃ size, IsGreatest {size | c.Capacity size} size ∧
    ((∃ fault c', write data noOffset c = .error fault c' ∧ fault.isException) ↔
      size - 1 < c.getCount.toNat + data.length)

variable {c : Circle} (h : c.PowerOfTwo) {data : List UInt8} (hpos : 0 < data.length)
  (hdata : data.length < 2 ^ 64)
  (hmax : c.data.maxSize.toNat < 2 ^ 62)
include h hpos hdata hmax

private theorem failedAppend {fault : Fault} {c' : Circle}
    (hrun : write data noOffset c = .error fault c') (he : fault.isException) :
    FailedAppend PowerOfTwo contents getCount c fault c' := by
  have hr := writeFuel_refused hdata hpos _ h hrun he
  refine ⟨?_, hr.contents_eq, ?_, hr.valid⟩
  · rcases hr.cause with ⟨hfault, -⟩ | ⟨-, hlarge⟩
    · exact hfault
    · omega
  · rw [← UInt64.toNat_inj, ← hr.valid.length_contents, ← h.length_contents, hr.contents_eq]

private theorem failsCleanly_iff : c.FailsCleanly data ↔ c.Admits data.length ∨ c.GrowsInside := by
  have hexact {size : Nat} (hsize : IsGreatest {size | c.Capacity size} size) :
      ¬ c.Admits data.length ↔ size - 1 < c.getCount.toNat + data.length := by
    have hroom : c.data.mem.length ≤ size := hsize.2 ⟨0, (Nat.mul_one _).symm, .inl rfl⟩
    have hlt := h.length_lt
    rw [admits_iff_of_greatest hsize, h.length_contents]
    omega
  rw [← throws_iff h hpos hdata hmax]
  constructor
  · rintro ⟨-, size, hsize, hthrows⟩
    rw [hthrows, hexact hsize]
  · intro hthrows
    obtain ⟨size, hsize⟩ := c.exists_greatest_capacity
    exact ⟨fun fault c' => failedAppend h hpos hdata hmax, size, hsize, hthrows.trans (hexact hsize)⟩

end Circle

namespace Bip
variable {b : Bip} (h : b.Valid) {data : List UInt8} (hpos : 0 < data.length) (hdata : data.length < 2 ^ 64)
  (hmax : b.data.maxSize.toNat < 2 ^ 62)
include h hpos hdata hmax

private theorem failedAppend {fault : Fault} {b' : Bip}
    (hrun : write data noOffset b = .error fault b') (he : fault.isException) :
    FailedAppend Valid contents getCount b fault b' := by
  have hsettles := append_settles h data hdata hpos
  rw [hrun] at hsettles
  cases hsettles with
  | refused _ _ hfault hv hc _ =>
    refine ⟨?_, hc, ?_, hv⟩
    · rcases hfault with hfault | ⟨-, hlarge⟩
      · exact hfault
      · omega
    · rw [← UInt64.toNat_inj, hv.toNat_getCount, h.toNat_getCount, hc]
  | overrun _ => exact absurd he (by decide)

end Bip

namespace ArrayBuffer
variable {a : ArrayBuffer} (h : a.Valid) {data : List UInt8} (hdata : data.length < 2 ^ 64)
  (hmax : a.data.maxSize.toNat < 2 ^ 62)
include h hdata hmax

private theorem failedAppend {fault : Fault} {a' : ArrayBuffer}
    (hrun : write data noOffset a = .error fault a') (he : fault.isException) :
    FailedAppend Valid contents getCount a fault a' := by
  rcases append_settles h data hdata with ⟨-, b, hburst⟩ | ⟨-, hsettles⟩
  · rw [hrun] at hburst
    cases hburst
    exact absurd he (by decide)
  · rw [hrun] at hsettles
    cases hsettles with
    | refused _ hfault hv hc _ =>
      refine ⟨?_, hc, ?_, hv⟩
      · rcases hfault with hfault | ⟨-, hdear⟩
        · exact hfault
        · exact absurd (.inl hmax) hdear
      · rw [← UInt64.toNat_inj, hv.toNat_getCount, h.toNat_getCount, ← hv.length_contents,
          ← h.length_contents, hc]

end ArrayBuffer

/-- Where `max_size` leaves no growth for the machine to deny, an append that throws
leaves the contents as they were, and a ring throws exactly when it must, unless the
bytes fit no capacity and its first growth copies from outside the array. -/
theorem failed_append_iff {data : List UInt8} (hpos : 0 < data.length) (hdata : data.length < 2 ^ 64) :
    (∀ c : Circle, c.PowerOfTwo → c.data.maxSize.toNat < 2 ^ 62 →
      (c.FailsCleanly data ↔ c.Admits data.length ∨ c.GrowsInside)) ∧
    (∀ b : Bip, b.Valid → b.data.maxSize.toNat < 2 ^ 62 →
      ∀ fault b', Bip.write data noOffset b = .error fault b' →
      fault.isException → FailedAppend Bip.Valid Bip.contents Bip.getCount b fault b') ∧
    ∀ a : ArrayBuffer, a.Valid → a.data.maxSize.toNat < 2 ^ 62 →
      ∀ fault a', ArrayBuffer.write data noOffset a = .error fault a' → fault.isException →
        FailedAppend ArrayBuffer.Valid ArrayBuffer.contents ArrayBuffer.getCount a fault a' :=
  ⟨fun _ h hmax => Circle.failsCleanly_iff h hpos hdata hmax,
    fun _ h hmax _ _ => Bip.failedAppend h hpos hdata hmax,
    fun _ h hmax _ _ => ArrayBuffer.failedAppend h hdata hmax⟩

/-- A byte more for full buffers that may not grow. -/
theorem failed_append_iff_full :
    (FailedAppend Circle.PowerOfTwo Circle.contents Circle.getCount ⟨⟨[1, 2, 3, 0], 8⟩, 0, 3⟩
      (.thrown .writeNoSpace)
        ⟨⟨[1, 2, 3, 0], 8⟩, 0, 3⟩ ∧
      ∃ size, IsGreatest {size | Circle.Capacity ⟨⟨[1, 2, 3, 0], 8⟩, 0, 3⟩ size} size ∧ size - 1 < 3 + 1) ∧
    FailedAppend Bip.Valid Bip.contents Bip.getCount ⟨⟨[1, 2], 2⟩, 0, 2, none, 0⟩ (.thrown .writeNoSpace)
      ⟨⟨[1, 2], 2⟩, 0, 2, none, 0⟩ ∧
    FailedAppend ArrayBuffer.Valid ArrayBuffer.contents ArrayBuffer.getCount ⟨⟨[1, 2], 2⟩, 0, 2⟩
      (.thrown .writeNoSpace)
      ⟨⟨[1, 2], 2⟩, 0, 2⟩ := by
  have hc : Circle.PowerOfTwo ⟨⟨[1, 2, 3, 0], 8⟩, 0, 3⟩ := ⟨⟨2, by decide⟩, by decide, by decide, by decide⟩
  have hb : Bip.Valid ⟨⟨[1, 2], 2⟩, 0, 2, none, 0⟩ :=
    .single (by decide) (fun hzero => absurd hzero (by decide)) (by decide) (by decide) (by decide)
  have ha : ArrayBuffer.Valid ⟨⟨[1, 2], 2⟩, 0, 2⟩ := ⟨by decide, by decide, by decide, by decide, by decide⟩
  have hrun : Circle.write [4] noOffset ⟨⟨[1, 2, 3, 0], 8⟩, 0, 3⟩ =
      .error (.thrown .writeNoSpace) ⟨⟨[1, 2, 3, 0], 8⟩, 0, 3⟩ := by
    decide +kernel
  obtain ⟨hcircle, hbip, harray⟩ := failed_append_iff (show 0 < [(4 : UInt8)].length by decide) (by decide)
  obtain ⟨hkeeps, size, hsize, hiff⟩ := (hcircle _ hc (by decide)).mpr (.inr (.inl (by decide)))
  exact ⟨⟨hkeeps _ _ hrun rfl, size, hsize, hiff.mp ⟨_, _, hrun, rfl⟩⟩,
    hbip _ hb (by decide) _ _ (by decide +kernel) rfl,
    harray _ ha (by decide) _ _ (by decide +kernel) rfl⟩

section Wide
variable {mem : List UInt8} (hlen : mem.length = 2 ^ 32)
include hlen

/-- 2^31 + 1 bytes across the end of a ring of 2^32 cells. Its first run is measured as longer than any array. -/
theorem wide_valid : Circle.PowerOfTwo ⟨⟨mem, 17179869185⟩, 2147483648, 1⟩ := by
  refine ⟨⟨32, hlen⟩, ?_, ?_, ?_⟩
  · change mem.length < 2 ^ 62
    omega
  · change 2147483648 < mem.length
    omega
  · change 1 < mem.length
    omega

private theorem wide_getCount : Circle.getCount ⟨⟨mem, 17179869185⟩, 2147483648, 1⟩ = 2147483649 := by
  change Circle.countOf 2147483648 1 (UInt64.ofNat mem.length) = _
  rw [hlen]
  decide

private theorem wide_growsOutside : ¬ Circle.GrowsInside ⟨⟨mem, 17179869185⟩, 2147483648, 1⟩ := by
  have hfirst : Circle.firstCopy ⟨⟨mem, 17179869185⟩, 2147483648, 1⟩ = 2147483649 := by
    rw [Circle.firstCopy, wide_getCount hlen]
    change (sizeMin (Circle.continguiousCountOf 2147483648 1 (UInt64.ofNat mem.length)) 2147483649).toNat = _
    rw [hlen]
    decide
  rintro (hbound | ⟨hin, -⟩)
  · change 17179869185 ≤ 4 * mem.length at hbound
    omega
  · rw [hfirst] at hin
    change 2147483648 + 2147483649 ≤ mem.length at hin
    omega

private theorem wide_capacity {size : Nat}
    (h : Circle.Capacity ⟨⟨mem, 17179869185⟩, 2147483648, 1⟩ size) : size ≤ 2 ^ 34 := by
  obtain ⟨j, hj, rfl | hlt⟩ := h
  · change size = mem.length * 4 ^ 0 at hj
    omega
  · change size < 17179869185 at hlt
    omega

end Wide

/-- 2^34 bytes for a ring of 2^32 cells fit no capacity. The ring copies from outside its array and does not throw. -/
theorem failed_append_outside : ∃ (c : Circle) (data : List UInt8), c.PowerOfTwo ∧
    c.data.mem.length = 2 ^ 32 ∧
    c.data.maxSize = 17179869185 ∧ data.length = 2 ^ 34 ∧
      (∀ size, c.Capacity size → size - 1 < c.getCount.toNat + data.length) ∧
    Circle.write data noOffset c = .error .outOfBounds c ∧ ¬ c.FailsCleanly data := by
  obtain ⟨mem, hlen⟩ : ∃ mem : List UInt8, mem.length = 2 ^ 32 :=
    ⟨List.replicate (2 ^ 32) 0, List.length_replicate⟩
  obtain ⟨data, hdata⟩ : ∃ data : List UInt8, data.length = 2 ^ 34 :=
    ⟨List.replicate (2 ^ 34) 0, List.length_replicate⟩
  have h := wide_valid hlen
  have hmust (size : Nat) (hsize : Circle.Capacity ⟨⟨mem, 17179869185⟩, 2147483648, 1⟩ size) :
      size - 1 < (Circle.getCount ⟨⟨mem, 17179869185⟩, 2147483648, 1⟩).toNat + data.length := by
    have hle := wide_capacity hlen hsize
    omega
  have hunfit : mem.length ≤ (Circle.contents
      ⟨⟨mem, 17179869185⟩, 2147483648, 1⟩).length + data.length := by omega
  have hrun := h.write_outside (show (17179869185 : UInt64).toNat ≤ 2 ^ 62 by decide)
    (wide_growsOutside hlen) (by omega) hunfit
  refine ⟨_, data, h, hlen, rfl, hdata, hmust, hrun, ?_⟩
  rintro ⟨-, size, hsize, hthrows⟩
  obtain ⟨fault, c', hthrown, he⟩ := hthrows.mpr (hmust size hsize.1)
  cases hrun.symm.trans hthrown
  exact absurd he (by decide)

/-- Calls that take bytes away. -/
inductive Removal where
  | remove
  | removeFromBack
  deriving DecidableEq, Repr

/-- `buffer<type>`, for each type that it is instantiated with. -/
inductive TypedBuffer where
  | circle (c : Circle)
  | bip (b : Bip)
  | array (a : ArrayBuffer)
  deriving DecidableEq, Repr

namespace TypedBuffer

def getCount : TypedBuffer → UInt64
  | circle c => c.getCount
  | bip b => b.getCount
  | array a => a.getCount

def lift {β : Type} (wrap : β → TypedBuffer) : EStateM.Result Fault β Unit →
    EStateM.Result Fault TypedBuffer Unit
  | .ok _ b => .ok () (wrap b)
  | .error fault b => .error fault (wrap b)

def perform (removal : Removal) (count : UInt64) : TypedBuffer → EStateM.Result Fault TypedBuffer Unit
  | circle c => lift circle (match removal with
    | .remove => Circle.remove count c
    | .removeFromBack => Circle.removeFromBack count c)
  | bip b => lift bip (match removal with
    | .remove => Bip.remove count b
    | .removeFromBack => Bip.removeFromBack count b)
  | array a => lift array (match removal with
    | .remove => ArrayBuffer.remove count a
    | .removeFromBack => ArrayBuffer.removeFromBack count a)

/-- The removal throws and leaves the buffer as it is. -/
def Refuses (buffer : TypedBuffer) (removal : Removal) (count : UInt64) : Prop :=
  ∃ error, buffer.perform removal count = .error (.thrown error) buffer

/-- Removals that check the count: those of `array`, and `remove` of `bip`. -/
def Checks (removal : Removal) : TypedBuffer → Prop
  | circle _ => False
  | bip _ => removal = .remove
  | array _ => True

end TypedBuffer

/-- Removing more than there is is refused exactly by the removals that check the count. -/
theorem over_removal_refused_iff {buffer : TypedBuffer} {count : UInt64}
    (hover : buffer.getCount < count) (removal : Removal) :
    buffer.Refuses removal count ↔ buffer.Checks removal := by
  cases buffer with
  | circle c =>
    cases removal with
    | remove =>
      refine iff_of_false ?_ id
      rintro ⟨_, hrun⟩
      cases hrun
    | removeFromBack =>
      refine iff_of_false ?_ id
      rintro ⟨_, hrun⟩
      change TypedBuffer.lift _ (Circle.removeFromBack count c) = _ at hrun
      rw [Circle.removeFromBack_run] at hrun
      cases hrun
  | bip b =>
    have hguard : b.getCount < count := hover
    cases removal with
    | remove =>
      have hrun : Bip.remove count b = .error (.thrown .removeNoSpace) b := by
        rw [Bip.remove, Outcome.get_bind, if_pos hguard]
        exact Outcome.throw_run _ _
      exact iff_of_true ⟨_, congrArg (TypedBuffer.lift .bip) hrun⟩ rfl
    | removeFromBack =>
      have hrun : Bip.removeFromBack count b = .ok () b := by
        rw [Bip.removeFromBack, Outcome.get_bind, if_pos hguard]
        exact Outcome.pure_run _ _
      refine iff_of_false ?_ ?_
      · rintro ⟨_, hthrown⟩
        cases (congrArg (TypedBuffer.lift .bip) hrun).symm.trans hthrown
      · rintro ⟨⟩
  | array a =>
    have hguard : a.getCount < count := hover
    cases removal with
    | remove =>
      have hrun : ArrayBuffer.remove count a = .error (.thrown .removeNoSpace) a := by
        rw [ArrayBuffer.remove, Outcome.get_bind, if_pos hguard]
        exact Outcome.throw_run _ _
      exact iff_of_true ⟨_, congrArg (TypedBuffer.lift .array) hrun⟩ trivial
    | removeFromBack =>
      have hrun : ArrayBuffer.removeFromBack count a = .error (.thrown .removeFromBackNoSpace) a := by
        rw [ArrayBuffer.removeFromBack, Outcome.get_bind, if_pos hguard]
        exact Outcome.throw_run _ _
      exact iff_of_true ⟨_, congrArg (TypedBuffer.lift .array) hrun⟩ trivial

/-- Two bytes from an array that holds one. -/
theorem over_removal_refused_array : TypedBuffer.Refuses (.array ⟨⟨[1, 0], 2⟩, 0, 1⟩) .removeFromBack 2 :=
  (over_removal_refused_iff (by decide) .removeFromBack).mpr trivial

/-- Removed from the back of a bip buffer they are ignored, and a ring of eight cells then counts seven bytes. -/
theorem over_removal_accepted :
    TypedBuffer.perform .removeFromBack 2 (.bip ⟨⟨[1, 0], 2⟩, 0, 1, none, 0⟩) =
      .ok () (.bip ⟨⟨[1, 0], 2⟩, 0, 1, none, 0⟩) ∧
    TypedBuffer.perform .remove 2 (.circle ⟨⟨[1, 0, 0, 0, 0, 0, 0, 0], 8⟩, 0, 1⟩) =
      .ok () (.circle ⟨⟨[1, 0, 0, 0, 0, 0, 0, 0], 8⟩, 2, 1⟩) ∧
    Circle.getCount ⟨⟨[1, 0, 0, 0, 0, 0, 0, 0], 8⟩, 2, 1⟩ = 7 := by decide +kernel

end SimpleNetwork
