import SimpleNetwork.Base.Runs
import SimpleNetwork.Base.Slices
import SimpleNetwork.Buffer.Basic

/-! The calls made on a growing buffer, and what a byte queue does when they are
made on it. A buffer type that simulates the queue call by call refines it. -/
namespace SimpleNetwork
open Runs Words

/-- Calls on a buffer. `read` consumes, `peek` does not; a fill stores bytes at
`get_end()` after a space query, a take copies bytes from `get_start()` and
removes them. -/
inductive BufferOp where
  | append (data : List UInt8)
  | patch (data : List UInt8) (offset : UInt64)
  | read (count : UInt64)
  | peek (count offset : UInt64)
  | remove (count : UInt64)
  | removeFromBack (count : UInt64)
  | fill (bytes : List UInt8)
  | take (count : UInt64)
  | reset
  deriving DecidableEq, Repr

/-- A call with its reply: the bytes it returned or the exception it ended in. -/
abbrev BufferEvent := BufferOp × Except Fault (List UInt8)

/-- Space was refused, or could not be had. -/
def Fault.NoSpace (fault : Fault) : Prop := fault = .thrown .writeNoSpace ∨ fault = .badAlloc

theorem Fault.NoSpace.isException {fault : Fault} (h : fault.NoSpace) : fault.isException := by
  rcases h with rfl | rfl <;> rfl

/-- What a call does to a byte queue. Space may be refused; then nothing changes. -/
def OnQueue (q : List UInt8) (e : BufferEvent) (q' : List UInt8) : Prop :=
  match e with
  | (.append data, .ok out) => out = [] ∧ q' = q ++ data
  | (.patch data offset, .ok out) => out = [] ∧ q' = CellRing.overwrite q offset.toNat data
  | (.read count, .ok out) => count.toNat ≤ q.length ∧ out = q.take count.toNat ∧ q' = q.drop count.toNat
  | (.peek count offset, .ok out) =>
    offset.toNat + count.toNat ≤ q.length ∧ out = (q.drop offset.toNat).take count.toNat ∧ q' = q
  | (.remove count, .ok out) => out = [] ∧ q' = q.drop count.toNat
  | (.removeFromBack count, .ok out) => out = [] ∧ q' = q.take (q.length - count.toNat)
  | (.fill bytes, .ok out) => out = [] ∧ q' = q ++ bytes
  | (.take count, .ok out) => out = q.take count.toNat ∧ q' = q.drop count.toNat
  | (.reset, .ok out) => out = [] ∧ q' = []
  | (.append _, .error fault) => fault.NoSpace ∧ q' = q
  | (.fill _, .error fault) => fault.NoSpace ∧ q' = q
  | (.read count, .error fault) => fault = .thrown .readInvalidOffset ∧ q.length < count.toNat ∧ q' = q
  | (.peek count offset, .error fault) =>
    fault = .thrown .readInvalidOffset ∧ q.length < offset.toNat + count.toNat ∧ q' = q
  | (_, .error _) => False

/-- What a buffer-to-buffer append is to do: the whole range follows the old
contents, or an exception leaves them as they were. -/
def AllOrNothing {β : Type} (contents : β → List UInt8) (dst : β) (source : List UInt8) (offset count : Nat) :
    EStateM.Result Fault β Unit → Prop
  | .ok _ b =>
    (count = 0 ∨ offset + count ≤ source.length) ∧
      contents b = contents dst ++ (source.drop offset).take count
  | .error fault b => fault.isException ∧ contents b = contents dst

/-- The calls of one buffer type, when each may be made, and what it holds. -/
structure BufferModel (β : Type) where
  perform : BufferOp → EStateM Fault β (List UInt8)
  Allowed : β → BufferOp → Prop
  Valid : β → Prop
  contents : β → List UInt8

namespace BufferModel
variable {β : Type} (M : BufferModel β)

/-- How a call ended. An access outside the array or a call that never returns has no reply. -/
def Replies (r : EStateM.Result Fault β (List UInt8)) (reply : Except Fault (List UInt8)) (b : β) : Prop :=
  match reply with
  | .ok bytes => r = .ok bytes b
  | .error fault => fault.isException ∧ r = .error fault b

instance [DecidableEq β] (r : EStateM.Result Fault β (List UInt8))
    (reply : Except Fault (List UInt8)) (b : β) :
    Decidable (Replies r reply b) :=
  match reply with
  | .ok _ => inferInstanceAs (Decidable (_ = _))
  | .error _ => inferInstanceAs (Decidable (_ ∧ _))

/-- One call. A patch that ends in an exception is left out: it may have been made in part. -/
def Step (b : β) (e : BufferEvent) (b' : β) : Prop :=
  M.Allowed b e.1 ∧ Replies (M.perform e.1 b) e.2 b' ∧ ∀ data offset, e.1 = .patch data offset →
    ∃ out, e.2 = .ok out

/-- The call ended in a valid state and as the queue prescribes. -/
inductive Simulated (op : BufferOp) (b : β) : EStateM.Result Fault β (List UInt8) → Prop
  | ok {bytes : List UInt8} {b' : β} (hv : M.Valid b') (hq : OnQueue (M.contents b) (op, .ok bytes) (M.contents b')) :
      Simulated op b (.ok bytes b')
  | error {fault : Fault} {b' : β} (he : fault.isException) (hv : M.Valid b')
      (hq : OnQueue (M.contents b) (op, .error fault) (M.contents b')) : Simulated op b (.error fault b')
  | patch {data : List UInt8} {offset : UInt64} {fault : Fault} {b' : β} (hop : op = .patch data offset)
      (he : fault.isException) : Simulated op b (.error fault b')

/-- Every allowed call is simulated by the queue. -/
structure Refines : Prop where
  simulated : ∀ {b op}, M.Valid b → M.Allowed b op → M.Simulated op b (M.perform op b)

variable {M} (h : M.Refines)
include h

theorem Refines.step {b b' : β} {e : BufferEvent} (hv : M.Valid b) (hstep : M.Step b e b') :
    M.Valid b' ∧ OnQueue (M.contents b) e (M.contents b') := by
  obtain ⟨op, reply⟩ := e
  obtain ⟨ha, hr, hpatch⟩ := hstep
  have hsim := h.simulated hv ha
  cases reply with
  | ok bytes =>
    change M.perform op b = _ at hr
    rw [hr] at hsim
    cases hsim with
    | ok hv hq => exact ⟨hv, hq⟩
  | error fault =>
    obtain ⟨-, hr⟩ := hr
    change M.perform op b = _ at hr
    rw [hr] at hsim
    cases hsim with
    | error he hv hq => exact ⟨hv, hq⟩
    | patch hop he =>
      obtain ⟨out, hout⟩ := hpatch _ _ hop
      cases hout

/-- Every allowed call returns or ends in an exception. -/
theorem Refines.ends {b : β} {op : BufferOp} (hv : M.Valid b) (ha : M.Allowed b op) :
    ∃ reply b', Replies (M.perform op b) reply b' := by
  have hsim := h.simulated hv ha
  revert hsim
  generalize hg : M.perform op b = result
  intro hsim
  cases hsim with
  | @ok bytes b' _ _ => exact ⟨.ok bytes, b', rfl⟩
  | @error fault b' he _ _ => exact ⟨.error fault, b', he, rfl⟩
  | @patch _ _ fault b' _ he => exact ⟨.error fault, b', he, rfl⟩

/-- Over whole runs the buffer holds what the queue holds after the same calls with the same replies. -/
theorem Refines.run {b b' : β} {es : List BufferEvent} (hv : M.Valid b) (hrun : Run M.Step b es b') :
    M.Valid b' ∧ Run OnQueue (M.contents b) es (M.contents b') := by
  obtain ⟨q, hq, hv', rfl⟩ : ∃ q, Run OnQueue (M.contents b) es q ∧ M.Valid b' ∧ M.contents b' = q :=
    hrun.simulate (R := fun b q => M.Valid b ∧ M.contents b = q) (fun {b e b' q} hr hs => by
      obtain ⟨hv, rfl⟩ := hr
      obtain ⟨hv', hq⟩ := h.step hv hs
      exact ⟨M.contents b', hq, hv', rfl⟩) ⟨hv, rfl⟩
  exact ⟨hv', hq⟩

end BufferModel
end SimpleNetwork
