import SimpleNetwork.Buffer.CircleSound
import SimpleNetwork.Buffer.CircleWrite

/-! What the functions of a ring do to its contents when its write cursor may be outside of
the array, where `remove_from_back` can leave it. The ring with the cursor moved back
has the same contents, and the next append does the same to both. -/
namespace SimpleNetwork
open Outcome Words

namespace Circle
variable {c : Circle} (h : c.Sound)

section Contents
include h

theorem Sound.contents_normal : c.normal.contents = c.contents := by
  rw [contents, contents, h.getCount_normal]
  rfl

theorem Sound.length_contents : c.contents.length = c.getCount.toNat := by
  rw [← h.contents_normal, h.normal_valid.length_contents, h.getCount_normal]

/-- Bytes behind `get_start()`, up to the physical end. -/
theorem Sound.peekStart_contents :
    peekStart c.getContinguiousCount c = .ok (c.contents.take c.getContinguiousCount.toNat) c := by
  have hrun := h.getContinguiousCount_normal
  have hpeek : peekStart c.getContinguiousCount c.normal =
      .ok (c.normal.contents.take c.getContinguiousCount.toNat) c.normal :=
    peekStart_spec h.normal_valid (Nat.le_of_eq (by rw [hrun]))
  rw [peekStart, get_bind] at hpeek ⊢
  have hload : c.data.load c.head c.getContinguiousCount c.normal =
      .ok (c.normal.contents.take c.getContinguiousCount.toNat) c.normal := hpeek
  rw [Data.load] at hload ⊢
  split at hload
  · rename_i hroom
    rw [if_pos hroom, ← h.contents_normal, ← (EStateM.Result.ok.inj hload).1]
    rfl
  · cases hload

/-- Removing no more than there is drops it from the front. -/
theorem Sound.remove_contents {count : UInt64} (hcount : count.toNat ≤ c.contents.length) :
    Circle.contents { c with head := (c.head + count) % c.getSize } = c.contents.drop count.toNat := by
  have hsound : Sound { c with head := (c.head + count) % c.getSize } := ⟨h.pow, h.growth, h.mod_lt _⟩
  obtain ⟨d, hremove, -, hcd, -⟩ :=
    remove_spec h.normal_valid (n := count) (by rw [h.contents_normal]; exact hcount)
  rw [← hsound.contents_normal, ← h.contents_normal, ← hcd]
  rw [remove_normal] at hremove
  rw [(EStateM.Result.ok.inj hremove).2]

omit h in
/-- With another write cursor the contents end somewhere else. -/
theorem contents_back {tail : UInt64} (hle : (countOf c.head tail c.getSize).toNat ≤ c.contents.length) :
    Circle.contents { c with tail := tail } = c.contents.take (countOf c.head tail c.getSize).toNat := by
  have hshort : (countOf c.head tail c.getSize).toNat ≤ c.getCount.toNat :=
    Nat.le_trans hle (List.length_take_le _ _)
  rw [contents, contents, List.take_take, Nat.min_eq_left hshort]
  rfl

end Contents

section Strays

/-- As many pieces as there are cells pass every place. -/
instance (size place behind count : Nat) : Decidable (Overruns size place behind count) :=
  decidable_of_iff (size < place + count ∧ 0 < size - 1 - behind ∧
      ∀ k < size - place + 1, (2 ^ k - 1) * (size - 1 - behind) ≠ size - place) <| by
    refine and_congr_right fun _ => and_congr_right fun hfree => ⟨fun h k => ?_, fun h k _ => h k⟩
    rcases Nat.lt_or_ge k (size - place + 1) with hk | hk
    · exact h k hk
    · have hpow : k < 2 ^ k := Nat.lt_two_pow_self
      have hle : (2 ^ k - 1) * 1 ≤ (2 ^ k - 1) * (size - 1 - behind) := Nat.mul_le_mul_left _ hfree
      omega

instance (c : Circle) (count : Nat) : Decidable (c.AppendOverruns count) :=
  inferInstanceAs (Decidable (_ ∧ _))

instance (c : Circle) (count : Nat) : Decidable (c.AppendStuck count) :=
  decidable_of_iff (0 < count ∧ c.contents = [] ∧ ∃ j < count + 1, count + 1 = c.data.mem.length * 4 ^ j ∧
      (j = 0 ∨ c.data.mem.length * 4 ^ j < c.data.maxSize.toNat)) <| by
    refine and_congr_right fun _ => and_congr_right fun _ =>
      ⟨fun ⟨j, _, h⟩ => ⟨j, h⟩, fun ⟨j, h⟩ => ⟨j, ?_, h⟩⟩
    have hpow : j < 4 ^ j := Nat.lt_pow_self (by decide)
    have hpos : 0 < c.data.mem.length := Nat.pos_of_ne_zero fun hz => by
      rw [hz, Nat.zero_mul] at h
      exact absurd h.1 (Nat.succ_ne_zero _)
    have hle : 1 * 4 ^ j ≤ c.data.mem.length * 4 ^ j := Nat.mul_le_mul_right _ hpos
    omega

/-- The appends that leave the array or never return. -/
def Strays (c : Circle) (count : Nat) : Prop := c.normal.AppendOverruns count ∨ c.normal.AppendStuck count

/-- The patches inside the contents that do. -/
def StraysAt (c : Circle) (offset count : Nat) : Prop :=
  Overruns c.data.mem.length (c.cell offset) (c.behind offset) count ∨ 0 < count ∧
    c.behind offset + 1 = c.data.mem.length

instance (c : Circle) (count : Nat) : Decidable (c.Strays count) := inferInstanceAs (Decidable (_ ∨ _))

instance (c : Circle) (offset count : Nat) : Decidable (c.StraysAt offset count) :=
  inferInstanceAs (Decidable (_ ∨ _))

end Strays

/-- How an append ends. It has no other fault than a refused growth unless it strays. -/
inductive Appending (c : Circle) (data : List UInt8) : EStateM.Result Fault Circle Unit → Prop
  | done {c' : Circle} (hsafe : ¬ c.Strays data.length) (hv : c'.Valid) (hc : c'.contents = c.contents ++ data) :
      Appending c data (.ok () c')
  | refused {c' : Circle} (hsafe : ¬ c.Strays data.length) (hs : c'.Sound) (hc : c'.contents = c.contents) :
      Appending c data (.error (.thrown .writeNoSpace) c')
  | astray {fault : Fault} {c' : Circle} (hstray : c.Strays data.length) (hfault : ¬ fault.isException) :
      Appending c data (.error fault c')

/-- The same outcome from the ring and from the one with its cursor moved back, or a fault
that leaves both as they were, or, before the cursor is moved, a value that does. -/
private inductive Follows {α : Type} (c : Circle) (moved : Bool) : EStateM.Result Fault Circle α →
    EStateM.Result Fault Circle α → Prop
  | same (r : EStateM.Result Fault Circle α) : Follows c moved r r
  | stays (a : α) (h : moved = false) : Follows c moved (.ok a c) (.ok a c.normal)
  | fails (fault : Fault) : Follows c moved (.error fault c) (.error fault c.normal)

section Blind

private def Blind {α : Type} (x : EStateM Fault Circle α) : Prop :=
  (∃ a, ∀ c, x c = .ok a c) ∨ ∃ fault, ∀ c, x c = .error fault c

private theorem blind_load (d : Data) (start count : UInt64) : Blind (d.load start count) := by
  unfold Data.load
  split
  · exact .inl ⟨_, fun _ => rfl⟩
  · exact .inr ⟨_, fun _ => rfl⟩

private theorem blind_store (d : Data) (start : UInt64) (bytes : List UInt8) :
    Blind (d.store start bytes) := by
  unfold Data.store
  split
  · exact .inl ⟨_, fun _ => rfl⟩
  · exact .inr ⟨_, fun _ => rfl⟩

private theorem blind_alloc (maxSize size : UInt64) : Blind (Data.alloc maxSize size) := by
  unfold Data.alloc
  split
  · exact .inl ⟨_, fun _ => rfl⟩
  · exact .inr ⟨_, fun _ => rfl⟩

private theorem follows_blind {α β : Type} {x : EStateM Fault Circle α} (hx : Blind x)
    {f : α → EStateM Fault Circle β}
    {moved : Bool} (hf : ∀ a, Follows c moved (f a c) (f a c.normal)) : Follows c moved
    ((x >>= f) c) ((x >>= f) c.normal) := by
  obtain ⟨a, ha⟩ | ⟨fault, hfault⟩ := hx
  · rw [bind_ok (ha c), bind_ok (ha c.normal)]
    exact hf a
  · rw [bind_error (hfault c), bind_error (hfault c.normal)]
    exact .fails fault

end Blind

section Appends
variable {moved : Bool}

private theorem follows_ite {α : Type} {p : Prop} [Decidable p] {x y : EStateM Fault Circle α}
    (hx : Follows c moved (x c) (x c.normal))
    (hy : Follows c moved (y c) (y c.normal)) :
    Follows c moved ((if p then x else y) c) ((if p then x else y) c.normal) := by
  split
  · exact hx
  · exact hy

/-- What goes on from the same outcome goes on alike. -/
private theorem Follows.bind {α β : Type} {x : EStateM Fault Circle α}
    {f : α → EStateM Fault Circle β} (hx : Follows c false (x c) (x c.normal))
    (hf : ∀ a, Follows c moved (f a c) (f a c.normal)) : Follows c moved ((x >>= f) c)
    ((x >>= f) c.normal) := by
  generalize hr : x c = r at hx
  generalize hr' : x c.normal = r' at hx
  cases hx with
  | same r =>
    rw [bind_of_eq (hr.trans hr'.symm)]
    exact .same _
  | stays a _ =>
    rw [bind_ok hr, bind_ok hr']
    exact hf a
  | fails fault =>
    rw [bind_error hr, bind_error hr']
    exact .fails fault

private theorem follows_set (d : Circle) :
    Follows c moved ((set d : EStateM Fault Circle PUnit) c)
    ((set d : EStateM Fault Circle PUnit) c.normal) :=
  .same _

include h

private theorem follows_expand : Follows c moved (expand c) (expand c.normal) := by
  rw [expand, get_bind, get_bind, h.getCount_normal, h.getContinguiousCount_normal]
  refine follows_ite (.fails _) ?_
  refine follows_blind (blind_alloc _ _) fun fresh => follows_blind (blind_load _ _ _) fun first => ?_
  refine follows_blind (blind_store _ _ _) fun stored => follows_ite (follows_set _) ?_
  exact follows_blind (blind_load _ _ _) fun second => follows_blind (blind_store _ _ _) fun _ =>
    follows_set _

/-- The mask does not see a multiple of the size that is taken away. -/
private theorem mask_sub (x y : UInt64) :
    (y - x % c.getSize) &&& (c.getSize - 1) = (y - x) &&& (c.getSize - 1) := by
  obtain ⟨k, hk, hp⟩ := h.pow
  have hs : c.getSize.toNat = 2 ^ k := h.toNat_getSize.trans hp
  have hd : 2 ^ k ∣ 2 ^ 64 := Nat.pow_dvd_pow 2 (by omega)
  have hx := x.toNat_lt
  have hmod := Nat.mod_add_div x.toNat (2 ^ k)
  have hsplit : 2 ^ 64 - x.toNat % 2 ^ k + y.toNat =
      2 ^ 64 - x.toNat + y.toNat + 2 ^ k * (x.toNat / 2 ^ k) := by omega
  rw [← UInt64.toNat_inj, toNat_and_pred hs, toNat_and_pred hs, UInt64.toNat_sub, UInt64.toNat_sub,
    UInt64.toNat_mod, hs,
    Nat.mod_mod_of_dvd _ hd, Nat.mod_mod_of_dvd _ hd, hsplit, Nat.add_mul_mod_self_left]

private theorem space_normal :
    countOf (c.normal.tail + 1) c.normal.head c.normal.getSize = countOf (c.tail + 1) c.head c.getSize := by
  have hsub (x : UInt64) : c.head - (x + 1) = c.head - 1 - x := by
    rw [UInt64.sub_eq_add_neg, UInt64.sub_eq_add_neg, UInt64.sub_eq_add_neg, UInt64.neg_add,
      UInt64.sub_eq_add_neg, UInt64.add_assoc,
      UInt64.add_comm (-x)]
  calc countOf (c.tail % c.getSize + 1) c.head c.getSize
    _ = (c.head - 1 - c.tail % c.getSize) &&& (c.getSize - 1) := by rw [countOf, hsub]
    _ = (c.head - 1 - c.tail) &&& (c.getSize - 1) := mask_sub h _ _
    _ = countOf (c.tail + 1) c.head c.getSize := by rw [countOf, hsub]

private theorem follows_getSpace : Follows c false (getSpace c) (getSpace c.normal) := by
  have hfuel (fuel : Nat) : Follows c false
    (spaceFuel (fun c => countOf (c.tail + 1) c.head c.getSize) fuel c)
      (spaceFuel (fun c => countOf (c.tail + 1) c.head c.getSize) fuel c.normal) := by
    induction fuel with
    | zero => exact .fails _
    | succ fuel ih =>
      rw [spaceFuel, get_bind, get_bind, space_normal h]
      exact follows_ite (.stays _ rfl) ((follows_expand h).bind fun _ => ih)
  exact hfuel 64

/-- Bytes that are announced bring the write cursor back. -/
private theorem announced_normal (n : UInt64) : c.normal.announced n = c.announced n := by
  have hs := h.toNat_getSize
  have htail : (c.tail % c.getSize + n) % c.getSize = (c.tail + n) % c.getSize := by
    obtain ⟨k, hk, hp⟩ := h.pow
    have hd : 2 ^ k ∣ 2 ^ 64 := Nat.pow_dvd_pow 2 (by omega)
    rw [← UInt64.toNat_inj, UInt64.toNat_mod, UInt64.toNat_mod, UInt64.toNat_add, UInt64.toNat_add,
      UInt64.toNat_mod, hs, hp,
      Nat.mod_mod_of_dvd _ hd, Nat.mod_mod_of_dvd _ hd, Nat.mod_add_mod]
  change Circle.mk c.data c.head ((c.tail % c.getSize + n) % c.getSize) = _
  rw [htail]
  rfl

private theorem follows_write (data : List UInt8) :
    Follows c true (write data noOffset c) (write data noOffset c.normal) := by
  have hfuel (fuel : Nat) : Follows c true (writeFuel fuel data noOffset c)
      (writeFuel fuel data noOffset c.normal) := by
    induction fuel with
    | zero => exact .fails _
    | succ fuel ih =>
      rw [writeFuel_succ, writeStep, if_neg (not_not.mpr rfl), bind_assoc]
      refine (follows_getSpace h).bind fun space => ?_
      by_cases hshort : space < UInt64.ofNat data.length
      · rw [if_pos hshort, bind_assoc]
        exact (follows_expand h).bind fun _ => ih
      · rw [if_neg hshort, bind_assoc, get_bind, get_bind, h.getCount_normal]
        have hsame : written (UInt64.ofNat data.length) c = written (UInt64.ofNat data.length) c.normal := by
          change EStateM.Result.ok () (c.announced _) = EStateM.Result.ok () (c.normal.announced _)
          rw [announced_normal h]
        rw [bind_assoc, bind_of_eq hsame]
        exact .same _
  exact hfuel _

/-- Every append ends so, wherever the write cursor is. -/
theorem Sound.write_appending {data : List UInt8} (hdata : data.length < 2 ^ 64) :
    Appending c data (write data noOffset c) := by
  have hends := write_append_ends h.normal_valid hdata
  have hfollows := follows_write h data
  generalize write data noOffset c = r at hfollows
  generalize write data noOffset c.normal = r' at hfollows hends
  cases hends with
  | refused hsafe hfree hv hc =>
    have hnot : ¬ c.Strays data.length := not_or.mpr ⟨hsafe, hfree⟩
    cases hfollows with
    | same => exact .refused hnot hv.sound (hc.trans h.contents_normal)
    | fails => exact .refused hnot h rfl
  | stuck hstuck =>
    cases hfollows with
    | same => exact .astray (.inr hstuck) (by decide)
    | fails => exact .astray (.inr hstuck) (by decide)
  | overrun hover =>
    cases hfollows with
    | same => exact .astray (.inl hover) (by decide)
    | fails => exact .astray (.inl hover) (by decide)
  | done hsafe hfree hv hc =>
    cases hfollows with
    | same => exact .done (not_or.mpr ⟨hsafe, hfree⟩) hv (hc.trans (congrArg (· ++ data) h.contents_normal))
    | stays _ hstays => cases hstays

end Appends
end Circle
end SimpleNetwork
