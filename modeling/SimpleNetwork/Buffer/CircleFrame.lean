import SimpleNetwork.Base.Triple
import SimpleNetwork.Buffer.Circle

/-! What the calls of a ring keep. A property that survives other bytes, another write
cursor and the growth of `expand` survives every call that does not remove. -/
namespace SimpleNetwork
open Outcome Words

namespace Data
variable {σ : Type} {P : σ → Prop}

private theorem keeps_load (d : Data) (start count : UInt64) : Keeps P (d.load start count) P :=
  Triple.ite (fun _ => Triple.pure fun _ h => h) fun _ => Triple.throw fun _ h => h

/-- A store keeps the sizes of the array it stores into. -/
theorem keeps_store (d : Data) (start : UInt64) (bytes : List UInt8) :
    Triple P (d.store start bytes)
      (fun stored s => P s ∧ stored.mem.length = d.mem.length ∧ stored.maxSize = d.maxSize) P :=
  Triple.ite (fun hroom => Triple.pure fun _ h => ⟨h, CellRing.length_overwrite hroom, rfl⟩)
    fun _ => Triple.throw fun _ h => h

private theorem keeps_alloc (maxSize size : UInt64) :
    Triple P (alloc maxSize size) (fun fresh s => P s ∧ fresh = new maxSize size) P :=
  Triple.ite (fun _ => Triple.pure fun _ h => ⟨h, rfl⟩) fun _ => Triple.throw fun _ h => h

end Data

namespace Circle

/-- A property that other bytes, another write cursor and a larger array leave true. -/
structure Lasting (P : Circle → Prop) : Prop where
  stored : ∀ {c : Circle} {data : Data}, P c → data.mem.length = c.data.mem.length →
    data.maxSize = c.data.maxSize → P { c with data := data }
  moved : ∀ {c : Circle} (tail : UInt64), P c → P { c with tail := tail }
  grown : ∀ {c d : Circle}, P c → c.getSize <<< 2 < c.data.maxSize →
    d.data.mem.length = (c.getSize <<< 2).toNat →
    d.data.maxSize = c.data.maxSize → d.head = 0 → P d

section Lasting
variable {P Q : Circle → Prop} (h : Lasting P)
include h

theorem Lasting.and (h' : Lasting Q) : Lasting fun c => P c ∧ Q c where
  stored hc hlen hmax := ⟨h.stored hc.1 hlen hmax, h'.stored hc.2 hlen hmax⟩
  moved tail hc := ⟨h.moved tail hc.1, h'.moved tail hc.2⟩
  grown hc hfit hlen hmax hhead := ⟨h.grown hc.1 hfit hlen hmax hhead, h'.grown hc.2 hfit hlen hmax hhead⟩

theorem Lasting.removeFromBack (count : UInt64) : Keeps P (removeFromBack count) P :=
  Triple.modify fun _ hc => h.moved _ hc

theorem Lasting.written (count : UInt64) : Keeps P (written count) P := Triple.modify fun _ hc => h.moved _ hc

theorem Lasting.expand : Keeps P expand P := by
  unfold Circle.expand
  refine Triple.get fun c hc => Triple.ite (fun _ => Triple.throw fun _ hd => hd ▸ hc) fun hfit => ?_
  refine Triple.before (P := P) ?_ fun _ hd => hd ▸ hc
  have hdone (fresh : Data) (hlen : fresh.mem.length = (Data.new c.data.maxSize (c.getSize <<< 2)).mem.length)
      (hmax : fresh.maxSize = c.data.maxSize) :
        Keeps P (set (Circle.mk fresh 0 c.getCount) : EStateM Fault Circle PUnit) P := by
    refine Triple.modify fun _ _ => h.grown hc (UInt64.not_le.mp hfit) ?_ hmax rfl
    rw [hlen]
    exact List.length_replicate
  refine Triple.bind (Data.keeps_alloc _ _) fun fresh => Triple.given fun halloc => ?_
  subst halloc
  refine Triple.bind (Data.keeps_load _ _ _) fun first => ?_
  refine Triple.bind (Data.keeps_store _ _ _) fun fresh => Triple.given fun hfresh => ?_
  refine Triple.ite (fun _ => hdone fresh hfresh.1 hfresh.2) fun _ => ?_
  refine Triple.bind (Data.keeps_load _ _ _) fun second => ?_
  refine Triple.bind (Data.keeps_store _ _ _) fun stored => Triple.given fun hstored => ?_
  exact hdone stored (hstored.1.trans hfresh.1) (hstored.2.trans hfresh.2)

theorem Lasting.spaceFuel (space : Circle → UInt64) (fuel : Nat) : Keeps P (spaceFuel space fuel) P := by
  induction fuel with
  | zero => exact Triple.throw fun _ hc => hc
  | succ fuel ih =>
    refine Triple.look fun c _ => Triple.ite (fun _ => Triple.pure fun _ hc => hc) fun _ => ?_
    exact Triple.bind h.expand fun _ => ih

theorem Lasting.pokeEnd (bytes : List UInt8) : Keeps P (pokeEnd bytes) P := by
  refine Triple.look fun c hc => Triple.bind (Data.keeps_store _ _ _) fun stored =>
    Triple.given fun hstored => ?_
  exact Triple.modify fun _ _ => h.stored hc hstored.1 hstored.2

theorem Lasting.writeFuel (fuel : Nat) (data : List UInt8) (offset : UInt64) :
    Keeps P (writeFuel fuel data offset) P := by
  induction fuel generalizing data offset with
  | zero => exact Triple.throw fun _ hc => hc
  | succ fuel ih =>
    have hplace (offset : UInt64) : Keeps P (do
        let c ← get
        let head := (c.head + offset) % c.getSize
        let writeCount := sizeMin (continguiousSpaceOf head c.tail c.getSize) (UInt64.ofNat data.length)
        let stored ← c.data.store head (data.take writeCount.toNat)
        set { c with data := stored }
        if UInt64.ofNat data.length - writeCount = 0 then pure ()
        else Circle.writeFuel fuel (data.drop writeCount.toNat) (offset + writeCount) :
          EStateM Fault Circle Unit) P := by
      refine Triple.look fun c hc => Triple.bind (Data.keeps_store _ _ _) fun stored =>
        Triple.given fun hstored => ?_
      refine Triple.bind (Q := fun _ => P)
        (Triple.modify fun _ _ => h.stored hc hstored.1 hstored.2) fun _ => ?_
      exact Triple.ite (fun _ => Triple.pure fun _ hc => hc) fun _ => ih _ _
    unfold Circle.writeFuel
    refine Triple.ite (fun _ => ?_) fun _ => ?_
    · exact Triple.look fun c _ => Triple.ite (fun _ => Triple.throw fun _ hc => hc) fun _ => hplace offset
    · refine Triple.bind (h.spaceFuel _ _) fun space => Triple.ite (fun _ => ?_) fun _ => ?_
      · exact Triple.bind h.expand fun _ => ih _ _
      · exact Triple.look fun c _ => Triple.bind (h.written _) fun _ => hplace c.getCount

theorem Lasting.write (data : List UInt8) (offset : UInt64) : Keeps P (write data offset) P :=
  h.writeFuel _ _ _

theorem Lasting.writeFrom (source : Circle) (offset count : UInt64) :
    Keeps P (writeFrom source offset count) P := by
  have hloop (fuel : Nat) (offset count : UInt64) : Keeps P (writeFromFuel fuel source offset count) P := by
    induction fuel generalizing offset count with
    | zero => exact Triple.throw fun _ hc => hc
    | succ fuel ih =>
      unfold writeFromFuel
      refine Triple.ite (fun _ => Triple.pure fun _ hc => hc) fun _ => ?_
      refine Triple.bind (Data.keeps_load _ _ _) fun bytes => Triple.bind (h.write _ _) fun _ => ?_
      exact Triple.ite (fun _ => Triple.pure fun _ hc => hc) fun _ => ih _ _
  exact hloop _ offset count

end Lasting

section Reads
variable {P : Circle → Prop}

theorem keeps_peekStart (count : UInt64) : Keeps P (peekStart count) P :=
  Triple.look fun _ _ => Data.keeps_load _ _ _

/-- A read moves at most the read cursor. -/
theorem keeps_readFuel (hmoved : ∀ {c : Circle} (n : UInt64), P c →
      P { c with head := n % c.getSize }) (fuel : Nat) (count offset : UInt64)
    (peek : Bool) : Keeps P (readFuel fuel count offset peek) P := by
  induction fuel generalizing count offset peek with
  | zero => exact Triple.throw fun _ hc => hc
  | succ fuel ih =>
    unfold readFuel
    refine Triple.look fun c hc => Triple.ite (fun _ => Triple.throw fun _ hc => hc) fun _ => ?_
    refine Triple.bind (Data.keeps_load _ _ _) fun bytes => ?_
    have hstate (peek : Bool) (n : UInt64) : P (if peek then c else { c with head := n % c.getSize }) := by
      cases peek with
      | true => exact hc
      | false => exact hmoved n hc
    refine Triple.bind (Q := fun _ => P) (Triple.modify fun _ _ => hstate _ _) fun _ => ?_
    refine Triple.ite (fun _ => Triple.pure fun _ hc => hc) fun _ => ?_
    exact Triple.bind (ih _ _ _) fun rest => Triple.pure fun _ hc => hc

/-- Peeking at an offset that stays away from the reserved one changes nothing. -/
theorem keeps_peekFuel (fuel : Nat) (count offset : UInt64) (h : offset.toNat + count.toNat < 2 ^ 63) :
    Keeps P (readFuel fuel count offset true) P := by
  induction fuel generalizing count offset with
  | zero => exact Triple.throw fun _ hc => hc
  | succ fuel ih =>
    have hoff : offset ≠ noOffset := by
      rintro rfl
      have : noOffset.toNat = 2 ^ 64 - 1 := rfl
      omega
    unfold readFuel
    rw [if_neg hoff, if_neg hoff]
    refine Triple.get fun c hc => Triple.ite (fun _ => Triple.throw fun _ hd => hd ▸ hc) fun _ => ?_
    refine Triple.bind (Q := fun _ c' => c' = c)
      ((Data.keeps_load _ _ _).relax fun _ hd => hd ▸ hc) fun bytes => ?_
    refine Triple.bind (Q := fun _ => P) (Triple.modify fun _ _ => hc) fun _ => ?_
    refine Triple.ite (fun _ => Triple.pure fun _ hc => hc) fun _ => ?_
    have hpiece : (sizeMin (continguiousCountOf ((c.head + offset) % c.getSize) c.tail c.getSize)
        count).toNat ≤ count.toNat := by
      rw [toNat_sizeMin]
      exact Nat.min_le_right _ _
    refine Triple.bind (ih _ _ ?_) fun rest => Triple.pure fun _ hc => hc
    rw [if_pos rfl, toNat_add_of_lt (by omega), toNat_sub_of_le hpiece]
    omega

end Reads
end Circle
end SimpleNetwork
