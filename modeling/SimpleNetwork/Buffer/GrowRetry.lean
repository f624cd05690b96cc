import SimpleNetwork.Base.Retries
import SimpleNetwork.Buffer.Array
import SimpleNetwork.Buffer.BipQueue

/-! The loops of `bip` and `array` that grow and try again, with no bound on
their rounds. -/
namespace SimpleNetwork
open Words Retries

/-- A type of buffers whose array grows up to its bound. -/
structure Storage (β : Type) where
  data : β → Data
  contents : β → List UInt8
  Valid : β → Prop
  pos : ∀ b, Valid b → 0 < (data b).mem.length
  size_le : ∀ b, Valid b → (data b).mem.length ≤ (data b).maxSize.toNat

/-- A call that returns or throws `ERROR_WRITE_NO_SPACE`. -/
def ReturnsOrRefuses {α β : Type} : EStateM.Result Fault β α → Prop
  | .ok _ _ => True
  | .error fault _ => fault = .thrown .writeNoSpace

namespace Storage
variable {α β : Type} (S : Storage β)

/-- A longer array within the bound, with the same contents. -/
structure Grew (b b' : β) : Prop where
  valid : S.Valid b'
  contents_eq : S.contents b' = S.contents b
  maxSize_eq : (S.data b').maxSize = (S.data b).maxSize
  size_lt : (S.data b).mem.length < (S.data b').mem.length
  size_le : (S.data b').mem.length ≤ (S.data b).maxSize.toNat
  size_ge : min (4 * (S.data b).mem.length) (S.data b).maxSize.toNat ≤ (S.data b').mem.length

/-- With these contents another round starts only after a growth. -/
def GrowsFor (bytes : List UInt8) (round : EStateM Fault β (Option α)) : Prop :=
  ∀ b b', S.Valid b → S.contents b = bytes → round b = .ok none b' → S.Grew b b'

/-- A call is the loop of these rounds, it ends, and each retry follows a growth. -/
def Ends (round : EStateM Fault β (Option α)) (call : EStateM Fault β α) (b : β) : Prop :=
  ∃ retries, Loop round b retries (call b) ∧ (b :: retries).IsChain S.Grew

/-- An `expand()` grows, or throws at the bound or for want of memory. -/
def Expands (expand : EStateM Fault β Unit) : Prop :=
  ∀ b, S.Valid b → (∃ b', expand b = .ok () b' ∧ S.Grew b b') ∨
    ∃ fault : Fault, expand b = .error fault b ∧ fault.isException ∧
      (fault = .thrown .writeNoSpace ∨ fault = .badAlloc ∧ 2 ^ 62 ≤ (S.data b).maxSize.toNat)

variable {S} {round : EStateM Fault β (Option α)} {expand : EStateM Fault β Unit} {b : β}

private theorem Grew.of_same {a b' : β} (hg : S.Grew a b') (hc : S.contents a = S.contents b)
    (hd : S.data a = S.data b) : S.Grew b b' where
  valid := hg.valid
  contents_eq := hg.contents_eq.trans hc
  maxSize_eq := hd ▸ hg.maxSize_eq
  size_lt := hd ▸ hg.size_lt
  size_le := hd ▸ hg.size_le
  size_ge := hd ▸ hg.size_ge

/-- A round that grows and tries again. -/
theorem Expands.grew (he : S.Expands expand) (h : S.Valid b) {b' : β}
    (hrun : (expand >>= fun _ => pure none : EStateM Fault β (Option α)) b = .ok none b') : S.Grew b b' := by
  rcases he b h with ⟨b'', hexp, hg⟩ | ⟨fault, hexp, -⟩
  · rw [Outcome.bind_ok hexp] at hrun
    cases hrun
    exact hg
  · rw [Outcome.bind_error hexp] at hrun
    cases hrun

/-- A call that grows and returns after that. -/
theorem Expands.returnsOrRefuses (he : S.Expands expand) (h : S.Valid b)
    (hmax : (S.data b).maxSize.toNat < 2 ^ 62)
    {f : Unit → EStateM Fault β α} (hf : ∀ b', expand b = .ok () b' → S.Grew b b' →
      ∃ n c, f () b' = .ok n c) :
    ReturnsOrRefuses ((expand >>= f) b) := by
  rcases he b h with ⟨b', hexp, hg⟩ | ⟨fault, hexp, -, hfault | ⟨-, hlarge⟩⟩
  · obtain ⟨n, c, hreturns⟩ := hf b' hexp hg
    rw [Outcome.bind_ok hexp, hreturns]
    trivial
  · rw [Outcome.bind_error hexp]
    exact hfault
  · omega

/-- Growing by four gets to the bound in fewer rounds than sizes have bits. -/
theorem ends_of_grows (hgrows : S.GrowsFor (S.contents b) round) (h : S.Valid b) :
    S.Ends round (bounded .diverged round 64) b := by
  have hpos := S.pos b h
  have hword := (S.data b).maxSize.toNat_lt
  have hbound : (S.data b).maxSize.toNat ≤ (S.data b).mem.length * 4 ^ 63 := by
    have : 1 * 4 ^ 63 ≤ (S.data b).mem.length * 4 ^ 63 := Nat.mul_le_mul_right _ hpos
    omega
  let left (n : Nat) (b' : β) : Prop := (S.Valid b' ∧ S.contents b' = S.contents b) ∧
    (S.data b').maxSize.toNat ≤ (S.data b').mem.length * 4 ^ n
  have hlast (b' b'' : β) (hb : left 0 b') : round b' ≠ .ok none b'' := by
    intro hrun
    have hg := hgrows b' b'' hb.1.1 hb.1.2 hrun
    have hlt := hg.size_lt
    have hle := hg.size_le
    have hfull := hb.2
    omega
  have hmore (n : Nat) (b' b'' : β) (hb : left (n + 1) b') (hrun : round b' = .ok none b'') : left n b'' := by
    have hg := hgrows b' b'' hb.1.1 hb.1.2 hrun
    refine ⟨⟨hg.valid, hg.contents_eq.trans hb.1.2⟩, ?_⟩
    rw [hg.maxSize_eq]
    exact Nat.le_trans (Data.grown_bound hb.2) (Nat.mul_le_mul_right _ hg.size_ge)
  obtain ⟨retries, r, hloop, hlen⟩ := loop_ends hlast hmore (show left 63 b from ⟨⟨h, rfl⟩, hbound⟩)
  refine ⟨retries, ?_, hloop.chain (I := fun b' => S.Valid b' ∧ S.contents b' = S.contents b)
    (fun b' b'' hb hrun => ?_) ⟨h, rfl⟩⟩
  · rw [hloop.bounded_eq (Nat.lt_succ_of_le hlen)]
    exact hloop
  · have hg := hgrows b' b'' hb.1 hb.2 hrun
    exact ⟨⟨hg.valid, hg.contents_eq.trans hb.2⟩, hg⟩

end Storage

namespace Bip

def storage : Storage Bip := ⟨data, contents, Valid, fun _ h => h.pos, fun _ h => h.size_le⟩

/-- One call of `get_space()` up to its recursive call. -/
def spaceRound : EStateM Fault Bip (Option UInt64) := do
  let b ← get
  let space := b.data.getSize - b.getCount
  if space ≠ 0 then pure (some space)
  else
    expand
    pure none

/-- One call of `get_continguious_space()` up to its recursive call. -/
def continguiousSpaceRound : EStateM Fault Bip (Option UInt64) := do
  modify openB
  let b ← get
  if b.continguiousSpace ≠ 0 then pure (some b.continguiousSpace)
  else
    expand
    pure none

/-- One round of the loop of an appending `write()`; `offset` is `get_count()` at the call. -/
def appendRound (data : List UInt8) (offset : UInt64) : EStateM Fault Bip (Option Unit) := do
  let retry ← writeRound data offset
  pure (if retry then none else some ())

private theorem getSpaceFuel_eq (fuel : Nat) : getSpaceFuel fuel = bounded .diverged spaceRound fuel := by
  induction fuel with
  | zero => rfl
  | succ fuel ih =>
    rw [getSpaceFuel, bounded, ← ih, spaceRound, bind_assoc]
    refine bind_congr fun b => ?_
    by_cases hspace : b.data.getSize - b.getCount ≠ 0
    · simp only [if_pos hspace, pure_bind]
    · simp only [if_neg hspace, bind_assoc, pure_bind]

private theorem getContinguiousSpaceFuel_eq (fuel : Nat) :
    getContinguiousSpaceFuel fuel = bounded .diverged continguiousSpaceRound fuel := by
  induction fuel with
  | zero => rfl
  | succ fuel ih =>
    rw [getContinguiousSpaceFuel, bounded, ← ih, continguiousSpaceRound, bind_assoc]
    refine bind_congr fun _ => ?_
    rw [bind_assoc]
    refine bind_congr fun b => ?_
    by_cases hspace : b.continguiousSpace ≠ 0
    · simp only [if_pos hspace, pure_bind]
    · simp only [if_neg hspace, bind_assoc, pure_bind]

private theorem writeFuel_eq (data : List UInt8) (offset : UInt64) (fuel : Nat) :
    writeFuel fuel data offset = bounded .diverged (appendRound data offset) fuel := by
  induction fuel with
  | zero => rfl
  | succ fuel ih =>
    rw [writeFuel, bounded, appendRound, bind_assoc]
    refine bind_congr fun retry => ?_
    rw [pure_bind, ih]
    cases retry <;> rfl

/-- What `expand()` does is a growth. -/
theorem Regrown.grew {b b' : Bip} (hg : Regrown b b') : storage.Grew b b' where
  valid := hg.valid
  contents_eq := hg.contents_eq
  maxSize_eq := hg.maxSize_eq
  size_lt := hg.size_lt
  size_le := Nat.le_trans (Nat.le_of_eq hg.size_eq) (Nat.min_le_right _ _)
  size_ge := Nat.le_of_eq hg.size_eq.symm

private theorem expand_expands : storage.Expands expand := by
  intro b h
  change b.Valid at h
  rcases Nat.eq_or_lt_of_le h.size_le with hmax | hmax
  · exact .inr ⟨_, expand_refused h hmax, rfl, .inl rfl⟩
  rcases Nat.lt_or_ge (min (4 * b.data.mem.length) b.data.maxSize.toNat) (2 ^ 62) with halloc | halloc
  · obtain ⟨b', hexp, hg⟩ := expand_spec h hmax halloc
    exact .inl ⟨b', hexp, hg.grew⟩
  · exact .inr ⟨_, expand_unaffordable h hmax halloc, rfl,
      .inr ⟨rfl, Nat.le_trans halloc (Nat.min_le_right _ _)⟩⟩

section Loops
variable {b : Bip}

private theorem spaceRound_grows (bytes : List UInt8) : storage.GrowsFor bytes spaceRound := by
  intro b b' h _ hrun
  rw [spaceRound, Outcome.get_bind] at hrun
  by_cases hspace : b.data.getSize - b.getCount ≠ 0
  · simp only [if_pos hspace] at hrun
    cases hrun
  · simp only [if_neg hspace] at hrun
    exact expand_expands.grew h hrun

private theorem continguiousSpaceRound_grows (bytes : List UInt8) :
    storage.GrowsFor bytes continguiousSpaceRound := by
  intro b b' h _ hrun
  obtain ⟨hv, hc, hd⟩ := h.openB
  rw [continguiousSpaceRound, Outcome.modify_bind, Outcome.get_bind] at hrun
  by_cases hspace : b.openB.continguiousSpace ≠ 0
  · rw [if_pos hspace] at hrun
    cases hrun
  · rw [if_neg hspace] at hrun
    exact (expand_expands.grew hv hrun).of_same hc hd

private theorem appendRound_grows {data : List UInt8} (hdata : data.length < 2 ^ 64)
    {offset : UInt64} {bytes : List UInt8}
    (hoffset : offset.toNat = bytes.length) : storage.GrowsFor bytes (appendRound data offset) := by
  intro b b' h hc hrun
  obtain ⟨retry, b'', hround, hretry⟩ := Outcome.bind_eq_ok.mp hrun
  change b.contents = bytes at hc
  rw [← hc] at hoffset
  rcases Nat.eq_zero_or_pos data.length with hzero | hpos
  · rw [List.eq_nil_of_length_eq_zero hzero, writeRound_nil h hoffset] at hround
    cases hround
    cases hretry
  · rcases writeRound_append h hdata hpos hoffset with
      ⟨-, c, hdone, -⟩ | ⟨-, -, ⟨c, hmore, hg⟩ | ⟨fault, hfail, -⟩⟩ | ⟨-, hfail⟩
    · rw [hdone] at hround
      cases hround
      cases hretry
    · rw [hmore] at hround
      cases hround
      cases hretry
      exact hg.grew
    · rw [hfail] at hround
      cases hround
    · rw [hfail] at hround
      cases hround

/-- The loops of the three calls. -/
theorem space_ends (h : b.Valid) : storage.Ends spaceRound getSpace b := by
  rw [getSpace, getSpaceFuel_eq]
  exact Storage.ends_of_grows (spaceRound_grows _) h

private theorem continguiousSpace_ends (h : b.Valid) :
    storage.Ends continguiousSpaceRound getContinguiousSpace b := by
  rw [getContinguiousSpace, getContinguiousSpaceFuel_eq]
  exact Storage.ends_of_grows (continguiousSpaceRound_grows _) h

private theorem append_ends (h : b.Valid) {data : List UInt8} (hdata : data.length < 2 ^ 64) :
    storage.Ends (appendRound data b.getCount) (write data noOffset) b := by
  obtain ⟨retries, hloop, hchain⟩ := Storage.ends_of_grows (appendRound_grows hdata h.toNat_getCount) h
  rw [← writeFuel_eq] at hloop
  refine ⟨retries, ?_, hchain⟩
  rw [write, Outcome.get_bind, if_pos rfl]
  exact hloop

private theorem space_settles (h : b.Valid) (hmax : b.data.maxSize.toNat < 2 ^ 62) :
    ReturnsOrRefuses (getSpace b) := by
  have hgrown (b' : Bip) (hg : storage.Grew b b') : b'.data.getSize - b'.getCount ≠ 0 := by
    have hlt : b.data.mem.length < b'.data.mem.length := hg.size_lt
    have hv : b'.Valid := hg.valid
    have hlen := h.length_contents
    have ha := h.a_le
    have hb := h.b_le
    have hcount := hv.toNat_getCount
    have hsize := hv.toNat_getSize
    rw [show b'.contents = b.contents from hg.contents_eq] at hcount
    intro hzero
    have hnone := congrArg UInt64.toNat hzero
    rw [toNat_sub_of_le (by omega), UInt64.toNat_zero] at hnone
    omega
  rw [getSpace, getSpaceFuel, Outcome.get_bind]
  by_cases hspace : b.data.getSize - b.getCount ≠ 0
  · simp only [if_pos hspace]
    trivial
  · simp only [if_neg hspace]
    refine expand_expands.returnsOrRefuses h hmax fun b' _ hg => ?_
    rw [getSpaceFuel, Outcome.get_bind]
    simp only [if_pos (hgrown b' hg)]
    exact ⟨_, _, rfl⟩

private theorem continguiousSpace_settles (h : b.Valid) (hmax : b.data.maxSize.toNat < 2 ^ 62) :
    ReturnsOrRefuses (getContinguiousSpace b) := by
  obtain ⟨hv, -, hd⟩ := h.openB
  rw [getContinguiousSpace, getContinguiousSpaceFuel, Outcome.modify_bind, Outcome.get_bind]
  by_cases hspace : b.openB.continguiousSpace ≠ 0
  · rw [if_pos hspace]
    trivial
  · rw [if_neg hspace]
    refine expand_expands.returnsOrRefuses hv
      (show b.openB.data.maxSize.toNat < 2 ^ 62 from hd ▸ hmax) fun b' hexp _ => ?_
    rcases expand_cases hv with ⟨b'', hexp', hg⟩ | ⟨fault, hexp', -⟩
    · cases hexp.symm.trans hexp'
      exact ⟨_, _, (getContinguiousSpaceFuel_found hg.valid 62 (Regrown.space hv hg)).1⟩
    · cases hexp.symm.trans hexp'

/-- An append whose count of region B is beyond 64 bits copies past the array. -/
theorem append_overflow (h : b.Valid) {data : List UInt8} (hdata : data.length < 2 ^ 64)
    (hover : b.Overflows data.length) :
    write data noOffset b = .error .outOfBounds b := by
  have ha := h.a_le
  have hsmall := h.small
  have hwrap := hover.2
  have hb := h.b_le
  have hcount := h.toNat_getCount
  rw [write, Outcome.get_bind, if_pos rfl, writeFuel]
  rcases writeRound_append h hdata (by omega) hcount with ⟨hroom, -⟩ | ⟨-, hin, -⟩ | ⟨-, hrun⟩
  · rw [RoomNow, if_neg hover.1] at hroom
    omega
  · exact absurd hover hin
  · exact Outcome.bind_error hrun

private theorem append_returnsOrRefuses_iff (h : b.Valid) (hmax : b.data.maxSize.toNat < 2 ^ 62)
    {data : List UInt8}
    (hdata : data.length < 2 ^ 64) : ReturnsOrRefuses (write data noOffset b) ↔
    ¬ b.Overflows data.length := by
  constructor
  · intro hends hover
    rw [append_overflow h hdata hover] at hends
    cases hends
  intro hin
  rcases Nat.eq_zero_or_pos data.length with hzero | hpos
  · rw [List.eq_nil_of_length_eq_zero hzero, append_nil h]
    trivial
  · have hsettles := append_settles h data hdata hpos
    cases hwrite : write data noOffset b with
    | ok u b' => trivial
    | error fault b' =>
      rw [hwrite] at hsettles
      cases hsettles with
      | refused _ _ hfault _ _ _ =>
        rcases hfault with hfault | ⟨-, hlarge⟩
        · exact hfault
        · omega
      | overrun hover => exact absurd hover hin

end Loops
end Bip

namespace ArrayBuffer

def storage : Storage ArrayBuffer := ⟨data, contents, Valid, fun _ h => h.pos, fun _ h => h.size_le⟩

/-- One call of `get_space()` up to its recursive call. -/
def spaceRound : EStateM Fault ArrayBuffer (Option UInt64) := do
  let a ← get
  let space := a.data.getSize - a.getCount
  if space = 0 then
    expand
    pure none
  else pure (some space)

def appendRound (data : List UInt8) : EStateM Fault ArrayBuffer (Option Unit) := do
  let done ← catchAll (do tryAppend data; pure true) (do expand; pure false)
  pure (if done then some () else none)

private theorem getSpaceFuel_eq (fuel : Nat) : getSpaceFuel fuel = bounded .diverged spaceRound fuel := by
  induction fuel with
  | zero => rfl
  | succ fuel ih =>
    rw [getSpaceFuel, bounded, ← ih, spaceRound, bind_assoc]
    refine bind_congr fun a => ?_
    by_cases hspace : a.data.getSize - a.getCount = 0
    · simp only [if_pos hspace, bind_assoc, pure_bind]
    · simp only [if_neg hspace, pure_bind]

private theorem appendFuel_eq (data : List UInt8) (fuel : Nat) :
    appendFuel fuel data = bounded .diverged (appendRound data) fuel := by
  induction fuel with
  | zero => rfl
  | succ fuel ih =>
    rw [appendFuel, bounded, ← ih, appendRound, bind_assoc]
    refine bind_congr fun done => ?_
    rw [pure_bind]
    cases done <;> rfl

private theorem expand_expands : storage.Expands expand := by
  intro a h
  change a.Valid at h
  have hpos := h.pos
  rcases Nat.eq_or_lt_of_le h.size_le with hlast | hmax
  · exact .inr ⟨_, expand_refused h hlast, rfl, .inl rfl⟩
  rcases Nat.lt_or_ge (min (4 * a.data.mem.length) a.data.maxSize.toNat) (2 ^ 62) with halloc | halloc
  · obtain ⟨a', hexp, hv, hc, -, hl, hm⟩ := expand_spec h hmax halloc
    refine .inl ⟨a', hexp, hv, hc, hm, ?_, ?_, Nat.le_of_eq hl.symm⟩
    · change a.data.mem.length < a'.data.mem.length
      omega
    · change a'.data.mem.length ≤ a.data.maxSize.toNat
      omega
  · exact .inr ⟨_, expand_denied h hmax halloc, rfl, .inr ⟨rfl, Nat.le_trans halloc (Nat.min_le_right _ _)⟩⟩

private theorem spaceRound_grows (bytes : List UInt8) : storage.GrowsFor bytes spaceRound := by
  intro a a' h _ hrun
  rw [spaceRound, Outcome.get_bind] at hrun
  by_cases hspace : a.data.getSize - a.getCount = 0
  · simp only [if_pos hspace] at hrun
    exact expand_expands.grew h hrun
  · simp only [if_neg hspace] at hrun
    cases hrun

section Loops
variable {a : ArrayBuffer}

/-- A round that leaves another one to try, in an array that was at least as long before. -/
theorem Round.grew {data : List UInt8} {size : Nat} {a' : ArrayBuffer}
    (hround : Round a data size (.ok false a'))
    (hsize : a.data.mem.length ≤ size) : storage.Grew a a' := by
  cases hround with
  | grown _ hmax _ hv hc hm _ hl hlt =>
    refine ⟨hv, hc, hm, Nat.lt_of_le_of_lt hsize hlt, ?_, ?_⟩
    · change a'.data.mem.length ≤ a.data.maxSize.toNat
      omega
    · change min (4 * a.data.mem.length) a.data.maxSize.toNat ≤ a'.data.mem.length
      omega

variable (h : a.Valid)
include h

/-- At the end of the array the query has grown it before anything is tried again. -/
theorem grew_at_end {data : List UInt8} (hdata : data.length < 2 ^ 64)
    (hend : a.tail.toNat = a.data.mem.length)
    {a' : ArrayBuffer} (hrun : catchAll (do tryAppend data; pure true) (do expand; pure false) a =
      .ok false a') :
    storage.Grew a a' := by
  rcases Nat.eq_or_lt_of_le h.size_le with hlast | hmax
  · cases hrun.symm.trans (round_full h data hend (expand_refused h hlast) rfl)
  rcases Nat.lt_or_ge (min (4 * a.data.mem.length) a.data.maxSize.toNat) (2 ^ 62) with halloc | halloc
  · rcases tryAppend_at_end h hdata hend hmax halloc with ⟨-, b, htry⟩ | ⟨-, hattempt⟩
    · cases hrun.symm.trans (catchAll_other (Outcome.bind_error htry) (by decide))
    · have hround := round_of_attempt hattempt (Nat.min_le_right _ _)
      rw [hrun] at hround
      exact hround.grew (by omega)
  · cases hrun.symm.trans (round_full h data hend (expand_denied h hmax halloc) rfl)

private theorem grew_of_round {data : List UInt8} (hdata : data.length < 2 ^ 64) {a' : ArrayBuffer}
    (hrun : catchAll (do tryAppend data; pure true) (do expand; pure false) a = .ok false a') :
    storage.Grew a a' := by
  rcases Nat.eq_or_lt_of_le h.tail_le with hend | hin
  · exact grew_at_end h hdata hend hrun
  · have hround := round_of_attempt (tryAppend_inside h hdata hin) h.size_le
    rw [hrun] at hround
    exact hround.grew (Nat.le_refl _)

omit h in
private theorem appendRound_grows {data : List UInt8} (hdata : data.length < 2 ^ 64) (bytes : List UInt8) :
    storage.GrowsFor bytes (appendRound data) := by
  intro a a' h _ hrun
  obtain ⟨done, b, hround, hdone⟩ := Outcome.bind_eq_ok.mp hrun
  cases done with
  | true => cases hdone
  | false =>
    cases hdone
    exact grew_of_round h hdata hround

/-- The loops of `get_space()` and of an appending `write()`. -/
theorem space_ends : storage.Ends spaceRound getSpace a := by
  rw [getSpace, getSpaceFuel_eq]
  exact Storage.ends_of_grows (spaceRound_grows _) h

private theorem append_ends {data : List UInt8} (hdata : data.length < 2 ^ 64) :
    storage.Ends (appendRound data) (write data noOffset) a := by
  rw [write, if_pos rfl, appendFuel_eq]
  exact Storage.ends_of_grows (appendRound_grows hdata _) h

private theorem space_settles (hmax : a.data.maxSize.toNat < 2 ^ 62) : ReturnsOrRefuses (getSpace a) := by
  have hgrown (a' : ArrayBuffer) (hg : storage.Grew a a') : ¬ a'.data.getSize - a'.getCount = 0 := by
    have hlt : a.data.mem.length < a'.data.mem.length := hg.size_lt
    have hv : a'.Valid := hg.valid
    have hlen := h.length_contents
    have htail := h.tail_le
    have hlen' := hv.length_contents
    have hcount := hv.toNat_getCount
    have hsize := hv.toNat_getSize
    rw [show a'.contents = a.contents from hg.contents_eq] at hlen'
    intro hzero
    have hnone := congrArg UInt64.toNat hzero
    rw [toNat_sub_of_le (by omega), UInt64.toNat_zero] at hnone
    omega
  rw [getSpace, getSpaceFuel, Outcome.get_bind]
  by_cases hspace : a.data.getSize - a.getCount = 0
  · simp only [if_pos hspace]
    refine expand_expands.returnsOrRefuses h hmax fun a' _ hg => ?_
    rw [getSpaceFuel, Outcome.get_bind]
    simp only [if_neg (hgrown a' hg)]
    exact ⟨_, _, rfl⟩
  · simp only [if_neg hspace]
    trivial

/-- The other space query calls nothing again: it grows once at most. -/
theorem continguiousSpace_settles (hmax : a.data.maxSize.toNat < 2 ^ 62) :
    ReturnsOrRefuses (getContinguiousSpace a) := by
  rw [getContinguiousSpace, Outcome.get_bind]
  by_cases hspace : a.data.getSize - a.tail = 0
  · simp only [if_pos hspace]
    exact expand_expands.returnsOrRefuses h hmax fun a' _ _ => ⟨_, _, rfl⟩
  · simp only [if_neg hspace]
    trivial

private theorem append_returnsOrRefuses_iff (hmax : a.data.maxSize.toNat < 2 ^ 62)
    {data : List UInt8} (hdata : data.length < 2 ^ 64) :
    ReturnsOrRefuses (write data noOffset a) ↔ ¬ a.Bursts data.length := by
  rcases append_settles h data hdata with ⟨hbursts, a', hrun⟩ | ⟨hcalm, hsettles⟩
  · rw [hrun]
    exact iff_of_false (fun hends => nomatch hends) (not_not.mpr hbursts)
  · refine iff_of_true ?_ hcalm
    cases hwrite : write data noOffset a with
    | ok u a' => trivial
    | error fault a' =>
      rw [hwrite] at hsettles
      cases hsettles with
      | refused _ hfault _ _ _ =>
        rcases hfault with hfault | ⟨-, hdear⟩
        · exact hfault
        · exact absurd (.inl hmax) hdear

end Loops
end ArrayBuffer

/-- The loops that grow and try again end, every retry in a longer array. Where
`max_size` leaves no growth for the machine to deny, the calls return or throw
`ERROR_WRITE_NO_SPACE`, but for the appends that pass a check they should not. -/
theorem grow_retry_ends_iff {b : Bip} (hb : b.Valid) (hbip : b.data.maxSize.toNat < 2 ^ 62)
    {a : ArrayBuffer} (ha : a.Valid)
    (harray : a.data.maxSize.toNat < 2 ^ 62) {data : List UInt8} (hdata : data.length < 2 ^ 64) :
    ((Bip.storage.Ends Bip.spaceRound Bip.getSpace b ∧ ReturnsOrRefuses (Bip.getSpace b)) ∧
      (Bip.storage.Ends Bip.continguiousSpaceRound Bip.getContinguiousSpace b ∧
        ReturnsOrRefuses (Bip.getContinguiousSpace b)) ∧
      (Bip.storage.Ends (Bip.appendRound data b.getCount) (Bip.write data noOffset) b ∧
        ReturnsOrRefuses (Bip.write data noOffset b) ↔ ¬ b.Overflows data.length)) ∧
    (ArrayBuffer.storage.Ends ArrayBuffer.spaceRound ArrayBuffer.getSpace a ∧
      ReturnsOrRefuses (ArrayBuffer.getSpace a)) ∧
      ReturnsOrRefuses (ArrayBuffer.getContinguiousSpace a) ∧
      (ArrayBuffer.storage.Ends (ArrayBuffer.appendRound data) (ArrayBuffer.write data noOffset) a ∧
        ReturnsOrRefuses (ArrayBuffer.write data noOffset a) ↔ ¬ a.Bursts data.length) := by
  refine ⟨⟨⟨Bip.space_ends hb, Bip.space_settles hb hbip⟩,
    ⟨Bip.continguiousSpace_ends hb, Bip.continguiousSpace_settles hb hbip⟩, ?_⟩,
    ⟨ArrayBuffer.space_ends ha, ArrayBuffer.space_settles ha harray⟩,
      ArrayBuffer.continguiousSpace_settles ha harray, ?_⟩
  · rw [and_iff_right (Bip.append_ends hb hdata)]
    exact Bip.append_returnsOrRefuses_iff hb hbip hdata
  · rw [and_iff_right (ArrayBuffer.append_ends ha hdata)]
    exact ArrayBuffer.append_returnsOrRefuses_iff ha harray hdata

/-- Full arrays that grow once for the bytes of an append. -/
theorem grow_retry_ends_iff_full :
    (Bip.storage.Ends (Bip.appendRound [3, 4, 5] (Bip.getCount ⟨⟨[1, 2], 8⟩, 0, 2, none, 0⟩))
      (Bip.write [3, 4, 5] noOffset)
        ⟨⟨[1, 2], 8⟩, 0, 2, none, 0⟩ ∧
          ReturnsOrRefuses (Bip.write [3, 4, 5] noOffset ⟨⟨[1, 2], 8⟩, 0, 2, none, 0⟩)) ∧
    ArrayBuffer.storage.Ends (ArrayBuffer.appendRound [3, 4, 5])
      (ArrayBuffer.write [3, 4, 5] noOffset) ⟨⟨[1, 2], 8⟩, 0, 2⟩ ∧
      ReturnsOrRefuses (ArrayBuffer.write [3, 4, 5] noOffset ⟨⟨[1, 2], 8⟩, 0, 2⟩) := by
  have hb : Bip.Valid ⟨⟨[1, 2], 8⟩, 0, 2, none, 0⟩ :=
    .single (by decide) (fun hzero => absurd hzero (by decide)) (by decide) (by decide) (by decide)
  have ha : ArrayBuffer.Valid ⟨⟨[1, 2], 8⟩, 0, 2⟩ := ⟨by decide, by decide, by decide, by decide, by decide⟩
  obtain ⟨⟨-, -, hbip⟩, -, -, harray⟩ :=
    grow_retry_ends_iff hb (by decide) ha (by decide) (show [3, 4, 5].length < 2 ^ 64 by decide)
  exact ⟨hbip.mpr fun hover => hover.1 rfl, harray.mpr fun hbursts => absurd hbursts.2.2.2.1 (by decide)⟩

/-- Two more bytes for a full array of two that may grow to three: it takes its count
for its space, and the copy leaves the array. -/
theorem grow_retry_bursts :
    (∃ a, ArrayBuffer.new 3 2 = .ok a ∧ ArrayBuffer.write [1, 2] noOffset a = .ok () ⟨⟨[1, 2], 3⟩, 0, 2⟩) ∧
    ArrayBuffer.Valid ⟨⟨[1, 2], 3⟩, 0, 2⟩ ∧
    (∃ a, ArrayBuffer.write [3, 4] noOffset ⟨⟨[1, 2], 3⟩, 0, 2⟩ = .error .outOfBounds a) ∧
    ¬ ReturnsOrRefuses (ArrayBuffer.write [3, 4] noOffset ⟨⟨[1, 2], 3⟩, 0, 2⟩) := by
  have hrun : ArrayBuffer.write [3, 4] noOffset ⟨⟨[1, 2], 3⟩, 0, 2⟩ =
      .error .outOfBounds ⟨⟨[1, 2, 0], 3⟩, 0, 2⟩ := by decide +kernel
  refine ⟨⟨⟨⟨[0, 0], 3⟩, 0, 0⟩, by decide +kernel, by decide +kernel⟩,
    ⟨by decide, by decide, by decide, by decide, by decide⟩,
    ⟨_, hrun⟩, ?_⟩
  rw [hrun]
  exact fun hends => nomatch hends

end SimpleNetwork
