import SimpleNetwork.Base.Footprint
import SimpleNetwork.Buffer.Array
import SimpleNetwork.Buffer.BipRanges
import SimpleNetwork.Buffer.CircleRanges

/-! The range checks of reads and writes at an offset. Each compares the count
with a 64-bit sum, which a range near the end of the numbers gets past. -/
namespace SimpleNetwork
open Outcome Words Slices

def Fault.InvalidOffset (fault : Fault) : Prop :=
  fault = .thrown .readInvalidOffset ∨ fault = .thrown .writeInvalidOffset

instance : DecidablePred Fault.InvalidOffset := fun _ => inferInstanceAs (Decidable (_ ∨ _))

/-- A buffer type as its range checks see it: an array, and the places in it that hold the contents. -/
structure Ranged (β : Type) where
  getCount : β → UInt64
  read : (count offset : UInt64) → EStateM Fault β (List UInt8)
  write : (data : List UInt8) → (offset : UInt64) → EStateM Fault β Unit
  Valid : β → Prop
  contents : β → List UInt8
  mem : β → List UInt8
  withMem : List UInt8 → β → β
  Live : β → Nat → Prop

namespace Ranged
variable {β : Type} (M : Ranged β) (b : β)

/-- The array with other bytes at live places only. -/
def KeepsDead (b' : β) : Prop := ∃ mem, b' = M.withMem mem b ∧ AgreesOn (¬ M.Live b ·) (M.mem b) mem

def Moved (data : List UInt8) (offset : Nat) (b' : β) : Prop :=
  (M.mem b).length < (M.mem b').length ∧ M.Valid b' ∧
    M.contents b' = CellRing.overwrite (M.contents b) offset data

def StaysLive (data : List UInt8) (offset : Nat) : EStateM.Result Fault β Unit → Prop
  | .ok _ b' => M.KeepsDead b b' ∨ M.Moved b data offset b'
  | .error fault b' => ¬ fault.InvalidOffset ∧ fault ≠ .outOfBounds ∧ M.KeepsDead b b'

/-- A read is refused and changes nothing exactly when its range leaves the
contents, and returns the same bytes whatever is at places that are not live. -/
def ReadsExactly (count offset : UInt64) : Prop :=
  if (M.getCount b).toNat < offset.toNat + count.toNat then M.read count offset b =
    .error (.thrown .readInvalidOffset) b
  else ∃ bytes, ∀ mem, AgreesOn (M.Live b) (M.mem b) mem →
    M.read count offset (M.withMem mem b) = .ok bytes (M.withMem mem b)

/-- A write is refused and changes nothing exactly when its range leaves the
contents, and changes nothing but live bytes otherwise. -/
def WritesExactly (data : List UInt8) (offset : UInt64) : Prop :=
  if (M.getCount b).toNat < offset.toNat + data.length then M.write data offset b =
    .error (.thrown .writeInvalidOffset) b
  else M.StaysLive b data offset.toNat (M.write data offset b)

section Exact
variable {M b} {count offset : UInt64} {data : List UInt8}

/-- What a read does in range, at the check, and behind it. -/
theorem readsExactly_iff {recovers : Prop}
    (hin : offset.toNat + count.toNat ≤ (M.getCount b).toNat →
      ∃ bytes, ∀ mem, AgreesOn (M.Live b) (M.mem b) mem →
        M.read count offset (M.withMem mem b) = .ok bytes (M.withMem mem b))
    (hrefused : M.getCount b < offset + count → M.read count offset b = .error (.thrown .readInvalidOffset) b)
    (hpast : WrapsPast (M.getCount b).toNat offset.toNat count.toNat →
      (M.read count offset b = .error (.thrown .readInvalidOffset) b ↔ recovers)) :
    M.ReadsExactly b count offset ↔ (WrapsPast (M.getCount b).toNat offset.toNat count.toNat → recovers) := by
  have hcount := (M.getCount b).toNat_lt
  unfold ReadsExactly
  split
  · rename_i hout
    by_cases hwraps : WrapsPast (M.getCount b).toNat offset.toNat count.toNat
    · rw [hpast hwraps]
      exact ⟨fun hr _ => hr, fun hr => hr hwraps⟩
    · exact iff_of_true (hrefused (lt_add_iff.mpr ⟨hout, hwraps⟩)) fun hyes => absurd hyes hwraps
  · rename_i hnot
    refine iff_of_true (hin (Nat.le_of_not_lt hnot)) fun hwraps => ?_
    have hlong := hwraps.1
    omega

private theorem writesExactly_iff {safe : Prop} (hdata : data.length < 2 ^ 64)
    (hin : offset.toNat + data.length ≤ (M.getCount b).toNat →
      (M.StaysLive b data offset.toNat (M.write data offset b) ↔ safe))
    (hrefused : M.getCount b < offset + UInt64.ofNat data.length →
      M.write data offset b = .error (.thrown .writeInvalidOffset) b)
    (hpast : ¬ M.getCount b < offset + UInt64.ofNat data.length →
      M.write data offset b ≠ .error (.thrown .writeInvalidOffset) b) :
    M.WritesExactly b data offset ↔ ¬ WrapsPast (M.getCount b).toNat offset.toNat data.length ∧
      (offset.toNat + data.length ≤ (M.getCount b).toNat → safe) := by
  have hcount := (M.getCount b).toNat_lt
  rw [lt_add_iff, toNat_ofNat_of_lt hdata] at hrefused hpast
  unfold WritesExactly
  split
  · rename_i hout
    by_cases hwraps : WrapsPast (M.getCount b).toNat offset.toNat data.length
    · exact iff_of_false (hpast fun hguard => hguard.2 hwraps) fun hboth => hboth.1 hwraps
    · exact iff_of_true (hrefused ⟨hout, hwraps⟩) ⟨hwraps, fun hle => absurd hout (Nat.not_lt.mpr hle)⟩
  · rename_i hnot
    have hle := Nat.le_of_not_lt hnot
    rw [hin hle]
    refine ⟨fun hsafe => ⟨fun hwraps => ?_, fun _ => hsafe⟩, fun hboth => hboth.2 hle⟩
    have hlong := hwraps.1
    omega

end Exact
end Ranged

section Copies
variable {σ : Type}

private theorem avoids_load (d : Data) (start count : UInt64) :
    Avoids Fault.InvalidOffset (d.load start count : EStateM Fault σ _) :=
  .ite (fun _ => .pure _) fun _ => .throw (by decide)

private theorem avoids_store (d : Data) (start : UInt64) (bytes : List UInt8) :
    Avoids Fault.InvalidOffset (d.store start bytes : EStateM Fault σ _) :=
  .ite (fun _ => .pure _) fun _ => .throw (by decide)

private theorem avoids_alloc (maxSize size : UInt64) :
    Avoids Fault.InvalidOffset (Data.alloc maxSize size : EStateM Fault σ _) :=
  .ite (fun _ => .pure _) fun _ => .throw (by decide)

private theorem avoids_catchAll {α : Type} {x handler : EStateM Fault σ α} (hx : Avoids Fault.InvalidOffset x)
    (hh : Avoids Fault.InvalidOffset handler) : Avoids Fault.InvalidOffset (catchAll x handler) :=
  .tryCatch fun _ ⟨_, _, hr⟩ => .ite (fun _ => hh) fun _ => .throw (hx _ _ _ hr)

end Copies

namespace ArrayBuffer

def ranged : Ranged ArrayBuffer where
  getCount := getCount
  read := read
  write := write
  Valid := Valid
  contents := contents
  mem a := a.data.mem
  withMem mem a := { a with data := ⟨mem, a.data.maxSize⟩ }
  Live a k := a.head.toNat ≤ k ∧ k < a.tail.toNat

section Guards
variable {a : ArrayBuffer} {count offset : UInt64} {data : List UInt8} (hoff : offset ≠ noOffset)
include hoff

theorem read_refused (hguard : a.getCount < offset + count) :
    read count offset a = .error (.thrown .readInvalidOffset) a := by
  rw [read, if_neg hoff, get_bind, if_pos hguard]
  exact throw_run _ _

private theorem read_passed (hguard : ¬ a.getCount < offset + count) (a' : ArrayBuffer) :
    read count offset a ≠ .error (.thrown .readInvalidOffset) a' := by
  intro hrun
  rw [read, if_neg hoff, get_bind, if_neg hguard] at hrun
  exact (avoids_load _ _ _).bind
    (fun _ => .ite (fun _ => .pure _) fun _ => .bind (.set _) fun _ => .pure _) _ _ _ hrun
    (.inl rfl)

private theorem write_refused (hguard : a.getCount < offset + UInt64.ofNat data.length) :
    write data offset a = .error (.thrown .writeInvalidOffset) a := by
  rw [write, if_neg hoff, get_bind, if_pos hguard]
  exact throw_run _ _

private theorem write_passed (hguard : ¬ a.getCount < offset + UInt64.ofNat data.length) (a' : ArrayBuffer) :
    write data offset a ≠ .error (.thrown .writeInvalidOffset) a' := by
  intro hrun
  rw [write, if_neg hoff, get_bind, if_neg hguard] at hrun
  exact (avoids_store _ _ _).bind (fun _ => .set _) _ _ _ hrun (.inr rfl)

end Guards

section Checks
variable {a : ArrayBuffer} (h : a.Valid) {count offset : UInt64} {data : List UInt8}
include h

/-- The same contents whatever is outside them. -/
theorem Valid.withMem {mem : List UInt8} (hagree : AgreesOn (ranged.Live a) a.data.mem mem) :
    (ranged.withMem mem a).Valid ∧ (ranged.withMem mem a).contents = a.contents := by
  have hhead := h.head_le
  refine ⟨h.update hagree.length_eq hhead h.tail_le, hagree.slice_eq fun k hlo hhi => ⟨hlo, ?_⟩⟩
  change k < a.head.toNat + (a.tail.toNat - a.head.toNat) at hhi
  omega

private theorem reads_inside (hin : offset.toNat + count.toNat ≤ a.getCount.toNat) : ∃ bytes, ∀ mem,
    AgreesOn (ranged.Live a) a.data.mem mem →
      read count offset (ranged.withMem mem a) = .ok bytes (ranged.withMem mem a) := by
  refine ⟨(a.contents.drop offset.toNat).take count.toNat, fun mem hagree => ?_⟩
  obtain ⟨hv, hc⟩ := h.withMem hagree
  rw [h.toNat_getCount, ← h.length_contents, ← hc] at hin
  rw [read_peek hv hin, hc]

private theorem writes_inside (hin : offset.toNat + data.length ≤ a.getCount.toNat) :
    ranged.StaysLive a data offset.toNat (write data offset a) := by
  rw [h.toNat_getCount] at hin
  have hlen := h.length_contents
  have hhead := h.head_le
  have htail := h.tail_le
  have hsmall := h.small
  have hoff : offset ≠ noOffset := h.ne_noOffset (by omega)
  have hforward := h.toNat_forward (k := offset) (by omega)
  have hguard : ¬ a.getCount < offset + UInt64.ofNat data.length := by
    rw [lt_add_iff, toNat_ofNat_of_lt (by omega), h.toNat_getCount]
    omega
  have hroom : (a.head + offset).toNat + data.length ≤ a.data.mem.length := by omega
  rw [write, if_neg hoff, get_bind, if_neg hguard, bind_ok (Data.store_of_le hroom a)]
  refine .inl ⟨_, rfl, .overwrite hroom fun k hlo hhi hdead => hdead ⟨?_, ?_⟩⟩ <;> omega

private theorem reads_exactly_iff (hoff : offset ≠ noOffset) :
    ranged.ReadsExactly a count offset ↔ ¬ WrapsPast a.getCount.toNat offset.toNat count.toNat :=
  Ranged.readsExactly_iff (reads_inside h) (read_refused hoff) fun hwraps =>
    iff_of_false (read_passed hoff (fun hlt => (lt_add_iff.mp hlt).2 hwraps) a) id

private theorem writes_exactly_iff (hoff : offset ≠ noOffset) (hdata : data.length < 2 ^ 64) :
    ranged.WritesExactly a data offset ↔ ¬ WrapsPast a.getCount.toNat offset.toNat data.length := by
  refine (Ranged.writesExactly_iff hdata (fun hin => iff_of_true (writes_inside h hin) trivial)
    (write_refused hoff)
    fun hguard => write_passed hoff hguard a).trans ?_
  exact and_iff_left fun _ => trivial

end Checks
end ArrayBuffer

namespace Bip

def ranged : Ranged Bip where
  getCount := getCount
  read := read
  write := write
  Valid := Valid
  contents := contents
  mem b := b.data.mem
  withMem mem b := { b with data := ⟨mem, b.data.maxSize⟩ }
  Live := Live

section Guards
variable {b : Bip} {count offset : UInt64} {data : List UInt8}

private theorem avoids_loadAt {σ : Type} (b : Bip) (start : Option UInt64) (count : UInt64) :
    Avoids Fault.InvalidOffset (b.loadAt start count : EStateM Fault σ _) := by
  cases start with
  | none => exact .ite (fun _ => .pure _) fun _ => .throw (by decide)
  | some start => exact avoids_load _ _ _

private theorem avoids_copyIf {σ : Type} {p : Prop} [Decidable p] {copy : EStateM Fault σ (List UInt8)}
    (h : Avoids Fault.InvalidOffset copy) : Avoids Fault.InvalidOffset (copyIf p copy) :=
  .ite (fun _ => h) fun _ => .pure _

private theorem avoids_copyOut (b : Bip) (count offset : UInt64) :
    Avoids Fault.InvalidOffset (b.copyOut count offset) :=
  .bind (avoids_copyIf (avoids_load _ _ _)) fun _ =>
    .bind (avoids_copyIf (avoids_loadAt _ _ _)) fun _ => .pure _

private theorem avoids_expand : Avoids Fault.InvalidOffset expand :=
  .get fun _ => .ite (fun _ => .throw (by decide)) fun _ =>
    .bind (avoids_alloc _ _) fun _ => .bind (avoids_copyIf (avoids_load _ _ _)) fun _ =>
      .bind (avoids_store _ _ _) fun _ =>
      .bind (avoids_copyIf (avoids_loadAt _ _ _)) fun _ => .bind (avoids_store _ _ _) fun _ => .set _

private theorem avoids_writeRest (data : List UInt8) (offset remain : UInt64) :
    Avoids Fault.InvalidOffset (writeRest data offset remain) := by
  have hrefused : Avoids Fault.InvalidOffset (throw (.thrown .writeNoSpace) : EStateM Fault Bip Unit) :=
    .throw (by decide)
  refine .get fun b => ?_
  cases b.regionBStart with
  | some start => exact .ite (fun _ => hrefused) fun _ => .bind (avoids_store _ _ _) fun _ => .set _
  | none =>
    refine .ite (fun _ => .ite (fun _ => hrefused) fun _ => ?_) fun _ => .ite (fun _ => hrefused) fun _ => ?_
    · exact .bind (avoids_store _ _ _) fun _ => .set _
    · exact .bind (avoids_store _ _ _) fun _ => .set _

private theorem avoids_writeRound (data : List UInt8) (offset : UInt64) :
    Avoids Fault.InvalidOffset (writeRound data offset) := by
  have hfront : Avoids Fault.InvalidOffset (writeA data offset) :=
    .get fun _ => .ite (fun _ => .bind (avoids_store _ _ _) fun _ => .bind (.set _) fun _ =>
      .pure _) fun _ => .pure _
  refine .bind hfront fun inA => .ite (fun _ => avoids_catchAll ?_ ?_) fun _ => .pure _
  · exact .bind (avoids_writeRest _ _ _) fun _ => .pure _
  · exact .bind avoids_expand fun _ => .pure _

private theorem avoids_writeFuel (fuel : Nat) (data : List UInt8) (offset : UInt64) :
    Avoids Fault.InvalidOffset (writeFuel fuel data offset) := by
  induction fuel with
  | zero => exact .throw (by decide)
  | succ fuel ih => exact .bind (avoids_writeRound data offset) fun _ => .ite (fun _ => ih) fun _ => .pure _

variable (hoff : offset ≠ noOffset)
include hoff

theorem read_refused (hguard : b.getCount < offset + count) :
    read count offset b = .error (.thrown .readInvalidOffset) b := by
  rw [read, if_neg hoff, get_bind, if_pos hguard]
  exact throw_run _ _

private theorem read_passed (hguard : ¬ b.getCount < offset + count) (b' : Bip) :
    read count offset b ≠ .error (.thrown .readInvalidOffset) b' := by
  intro hrun
  simp only [read, if_neg hoff, get_bind, if_neg hguard, if_pos hoff] at hrun
  exact (avoids_copyOut _ _ _).bind (fun _ => .pure _) _ _ _ hrun (.inl rfl)

private theorem write_refused (hguard : b.getCount < offset + UInt64.ofNat data.length) :
    write data offset b = .error (.thrown .writeInvalidOffset) b := by
  rw [write, get_bind, if_neg hoff, if_pos hguard]
  exact throw_run _ _

private theorem write_passed (hguard : ¬ b.getCount < offset + UInt64.ofNat data.length) (b' : Bip) :
    write data offset b ≠ .error (.thrown .writeInvalidOffset) b' := by
  intro hrun
  rw [write, get_bind, if_neg hoff, if_neg hguard] at hrun
  exact avoids_writeFuel _ _ _ _ _ _ hrun (.inr rfl)

end Guards

section Checks
variable {b : Bip} (h : b.Valid) {count offset : UInt64} {data : List UInt8}
include h

private theorem reads_inside (hin : offset.toNat + count.toNat ≤ b.getCount.toNat) : ∃ bytes, ∀ mem,
    AgreesOn (ranged.Live b) b.data.mem mem →
      read count offset (ranged.withMem mem b) = .ok bytes (ranged.withMem mem b) := by
  rw [h.toNat_getCount] at hin
  refine ⟨if b.regionACount.toNat < offset.toNat then b.regionB.take count.toNat
    else (b.contents.drop offset.toNat).take count.toNat, fun mem hagree => ?_⟩
  have hv : (ranged.withMem mem b).Valid := h.withMem hagree.length_eq
  have hfront : (ranged.withMem mem b).regionA = b.regionA := hagree.slice_eq fun k hlo hhi => .inl ⟨hlo, hhi⟩
  have hback : (ranged.withMem mem b).regionB = b.regionB := by
    rw [hv.regionB_eq, h.regionB_eq]
    refine hagree.slice_eq fun k _ hhi => .inr ?_
    rw [Nat.zero_add] at hhi
    exact hhi
  have hc : (ranged.withMem mem b).contents = b.contents := by rw [contents, hfront, hback, contents]
  rw [read_inRange hv (by rw [hc]; exact hin), hback, hc]
  rfl

omit h in
private theorem Replaced.keepsDead {b' : Bip} {start : Nat} (hr : Replaced b start data b') :
    ranged.KeepsDead b b' :=
  ⟨b'.data.mem, hr.places, hr.size_eq, hr.frame⟩

private theorem writes_inside (hin : offset.toNat + data.length ≤ b.getCount.toNat) :
    ranged.StaysLive b data offset.toNat (write data offset b) := by
  rw [h.toNat_getCount] at hin
  by_cases hleans : b.Straddled offset.toNat data.length ∧ b.LeansOnA offset.toNat data.length
  · rw [write_inRange h hin]
    rcases writeFuel_across_wrapped h 62 hleans.1 hleans.2 hin with
      ⟨b', hrun, hv, hc, -, hlt⟩ | ⟨fault, b', hrun, hfault, _, hr⟩
    · rw [hrun]
      exact .inr ⟨hlt, hv, hc⟩
    · rw [hrun]
      exact ⟨avoids_writeFuel _ _ _ _ _ _ hrun, by rcases hfault with rfl | rfl <;> nofun, hr.keepsDead⟩
  · obtain ⟨b', hrun, hr⟩ := write_replaced h hin hleans
    rw [hrun]
    exact .inl hr.keepsDead

private theorem reads_exactly_iff (hoff : offset ≠ noOffset) :
    ranged.ReadsExactly b count offset ↔ ¬ WrapsPast b.getCount.toNat offset.toNat count.toNat :=
  Ranged.readsExactly_iff (reads_inside h) (read_refused hoff) fun hwraps =>
    iff_of_false (read_passed hoff (fun hlt => (lt_add_iff.mp hlt).2 hwraps) b) id

private theorem writes_exactly_iff (hoff : offset ≠ noOffset) (hdata : data.length < 2 ^ 64) :
    ranged.WritesExactly b data offset ↔ ¬ WrapsPast b.getCount.toNat offset.toNat data.length := by
  refine (Ranged.writesExactly_iff hdata (fun hin => iff_of_true (writes_inside h hin) trivial)
    (write_refused hoff)
    fun hguard => write_passed hoff hguard b).trans ?_
  exact and_iff_left fun _ => trivial

end Checks
end Bip

namespace Circle

def ranged : Ranged Circle where
  getCount := getCount
  read := read
  write := write
  Valid := Valid
  contents := contents
  mem c := c.data.mem
  withMem mem c := { c with data := ⟨mem, c.data.maxSize⟩ }
  Live := Live

section Guards
variable {c : Circle} {count offset : UInt64} {data : List UInt8} (hoff : offset ≠ noOffset)
include hoff

theorem read_refused (hguard : c.getCount < offset + count) :
    read count offset c = .error (.thrown .readInvalidOffset) c := by
  rw [read, readFuel, if_neg hoff, if_neg hoff, get_bind, if_pos hguard]
  exact throw_run _ _

private theorem write_refused (hguard : c.getCount < offset + UInt64.ofNat data.length) :
    write data offset c = .error (.thrown .writeInvalidOffset) c := by
  rw [write, writeFuel_succ]
  refine bind_error ?_
  rw [writeStep, if_pos hoff, get_bind, if_pos hguard]
  exact throw_run _ _

end Guards

section Checks
variable {c : Circle} (h : c.Valid) {count offset : UInt64} {data : List UInt8}
include h

/-- The same contents whatever is in the free cells. -/
theorem Valid.withMem {mem : List UInt8} (hagree : AgreesOn c.Live c.data.mem mem) :
    (ranged.withMem mem c).Valid ∧ (ranged.withMem mem c).contents = c.contents := by
  have hlen := hagree.length_eq
  have hv : (ranged.withMem mem c).Valid := by
    refine ⟨?_, ?_, Nat.lt_of_lt_of_eq h.head_lt hlen.symm, Nat.lt_of_lt_of_eq h.tail_lt hlen.symm⟩
    · obtain ⟨k, hk, hp⟩ := h.pow
      exact ⟨k, hk, hlen.trans hp⟩
    · change ∀ j, mem.length * 4 ^ j < c.data.maxSize.toNat → mem.length * 4 ^ j ≤ 2 ^ 30
      rw [hlen]
      exact h.growth
  have hsize : (ring _ hv).size = (c.ring h).size := hlen
  have hcount : (ring _ hv).count = (c.ring h).count := by
    unfold CellRing.count
    rw [hsize]
    rfl
  refine ⟨hv, ?_⟩
  rw [hv.contents_eq, h.contents_eq]
  apply List.ext_getElem?
  intro k
  rw [CellRing.getElem?_toList, CellRing.getElem?_toList, hcount, hsize]
  split
  · rename_i hk
    rw [h.count_eq] at hk
    exact hagree.cell_eq _ ⟨k, hk, rfl⟩
  · rfl

private theorem reads_inside (hin : offset.toNat + count.toNat ≤ c.getCount.toNat) : ∃ bytes, ∀ mem,
    AgreesOn (ranged.Live c) c.data.mem mem →
      read count offset (ranged.withMem mem c) = .ok bytes (ranged.withMem mem c) := by
  refine ⟨(c.contents.drop offset.toNat).take count.toNat, fun mem hagree => ?_⟩
  obtain ⟨hv, hc⟩ := h.withMem hagree
  rw [← h.length_contents, ← hc] at hin
  rw [read_peek hv hin, hc]

private theorem writes_inside_iff (hin : offset.toNat + data.length ≤ c.getCount.toNat) :
    ranged.StaysLive c data offset.toNat (write data offset c) ↔
      ¬ Overruns c.data.mem.length (c.cell offset.toNat) (c.behind offset.toNat) data.length := by
  rw [← h.length_contents] at hin
  have hends := write_patch_ends h hin
  revert hends
  generalize write data offset c = result
  intro hends
  cases hends with
  | stuck _ hfull =>
    refine iff_of_true ⟨(by decide : ¬ Fault.InvalidOffset .diverged), nofun, c.data.mem, rfl,
      .refl _⟩ fun hover => ?_
    have hfree := hover.2.1
    omega
  | overrun hover => exact iff_of_false (fun hstays => hstays.2.1 rfl) (not_not.mpr hover)
  | @done c' hsafe _ _ _ hhead htail hsize hmax hframe =>
    refine iff_of_true (.inl ⟨c'.data.mem, ?_, hsize, hframe⟩) hsafe
    change c' = ⟨⟨c'.data.mem, c.data.maxSize⟩, c.head, c.tail⟩
    rw [← hhead, ← htail, ← hmax]

private theorem reads_exactly_iff (hoff : offset ≠ noOffset) : ranged.ReadsExactly c count offset ↔
    (WrapsPast c.getCount.toNat offset.toNat count.toNat → c.Recovers offset.toNat count.toNat) := by
  refine Ranged.readsExactly_iff (reads_inside h) (read_refused hoff) fun hwraps => ?_
  change WrapsPast c.getCount.toNat offset.toNat count.toNat at hwraps
  rw [← h.length_contents] at hwraps
  exact readFuel_wrapped h _ (Nat.lt_succ_self _) hoff hwraps

private theorem writes_exactly_iff (hoff : offset ≠ noOffset) (hdata : data.length < 2 ^ 64) :
    ranged.WritesExactly c data offset ↔
    ¬ WrapsPast c.getCount.toNat offset.toNat data.length ∧ (offset.toNat + data.length ≤ c.getCount.toNat →
      ¬ Overruns c.data.mem.length (c.cell offset.toNat) (c.behind offset.toNat) data.length) :=
  Ranged.writesExactly_iff hdata (writes_inside_iff h) (write_refused hoff) fun hguard =>
    writeFuel_guarded _ h.powerOfTwo hdata hguard c

end Checks
end Circle

end SimpleNetwork
