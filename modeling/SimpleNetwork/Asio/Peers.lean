import SimpleNetwork.Asio.Socket
import Mathlib.Data.List.Infix
import Mathlib.Logic.Relation

/-! Two KCP control blocks of one conversation, with the history of what has gone through
them, over a network that may lose, repeat and reorder datagrams. -/
namespace SimpleNetwork
open Words Relation

/-- A control block with the messages that `ikcp_send` was offered and those that it took, the
messages that `ikcp_recv` handed out, and the datagrams passed to the output callback. -/
structure Peer (κ : Type) where
  block : κ
  offered : List (List UInt8) := []
  accepted : List (List UInt8) := []
  handed : List (List UInt8) := []
  datagrams : List (List UInt8) := []
  deriving DecidableEq, Repr

structure Peer.Alike {κ : Type} (p p' : Peer κ) : Prop where
  offered : p'.offered = p.offered
  accepted : p'.accepted = p.accepted
  handed : p'.handed = p.handed

namespace Ikcp
variable {κ : Type} (K : Ikcp κ)

def recorded : Ikcp (Peer κ) where
  create conv := { block := K.create conv }
  input p data := { p with block := K.input p.block data }
  send p bytes :=
    let (result, block) := K.send p.block bytes
    (result, { p with
      block := block
      offered := p.offered ++ [bytes]
      accepted := if 0 ≤ result then p.accepted ++ [bytes] else p.accepted })
  update p current :=
    let (datagrams, block) := K.update p.block current
    (datagrams, { p with block := block, datagrams := p.datagrams ++ datagrams })
  recv p size :=
    let (count, bytes, block) := K.recv p.block size
    (count, bytes, { p with block := block, handed := if 0 ≤ count then p.handed ++ [bytes] else p.handed })

/-- One call of the library. It is sent a message with bytes in it, and fed a datagram that has been heard. -/
inductive PeerStep (heard : List (List UInt8)) : Peer κ → Peer κ → Prop
  | send (p : Peer κ) {bytes : List UInt8} (h : bytes ≠ []) : PeerStep heard p (K.recorded.send p bytes).2
  | input (p : Peer κ) {data : List UInt8} (h : data ∈ heard) : PeerStep heard p (K.recorded.input p data)
  | update (p : Peer κ) (current : UInt32) : PeerStep heard p (K.recorded.update p current).2
  | recv (p : Peer κ) (size : UInt32) : PeerStep heard p (K.recorded.recv p size).2.2

/-- One call at one of two peers, which hears what the other has output. -/
def PairStep (q q' : Bool → Peer κ) : Prop := ∃ i, K.PeerStep (q !i).datagrams (q i) (q' i) ∧ q' (!i) = q (!i)

/-- What two control blocks of a conversation can come to. -/
def Conversed (conv : UInt32) (q : Bool → Peer κ) : Prop :=
  ReflTransGen K.PairStep (fun _ => K.recorded.create conv) q

/-- `ikcp_recv` copies a message that fits into the room it is offered. -/
def Copies : Prop := ∀ block size, 0 ≤ (K.recv block size).1 →
  (K.recv block size).1 = (K.recv block size).2.1.length ∧ (K.recv block size).2.1.length ≤ size.toNat

/-- What the library promises of a conversation: messages arrive in order and at most once,
and a datagram begins with the number of the conversation and is no longer than the
default mtu. -/
structure Promises : Prop where
  copies : K.Copies
  ordered : ∀ {conv q}, K.Conversed conv q → ∀ i, (q i).handed <+: (q !i).accepted
  labelled : ∀ {conv q}, K.Conversed conv q → ∀ i, ∀ d ∈ (q i).datagrams, d.take 4 = le32 conv ∧
    d.length ≤ 1400

/-- A block that has taken no message and heard nothing has nothing to output. -/
def Silent : Prop := ∀ {conv q}, K.Conversed conv q → ∀ i, (q i).accepted = [] →
    (q !i).datagrams = [] → (q i).datagrams = []

variable {K} {heard more : List (List UInt8)} {p p' : Peer κ}

private theorem send_accepted (p : Peer κ) (bytes : List UInt8) :
    (K.recorded.send p bytes).2.accepted = p.accepted ++ [bytes] ∨
    (K.recorded.send p bytes).2.accepted = p.accepted := by
  simp only [recorded]
  split
  · exact .inl rfl
  · exact .inr rfl

theorem recv_recorded (heard : List (List UInt8)) {size : UInt32} {count : Int} {bytes : List UInt8}
    (hr : K.recorded.recv p size = (count, bytes, p')) :
    K.PeerStep heard p p' ∧ p.Alike { p' with handed := p.handed } ∧ p'.datagrams = p.datagrams ∧
      p'.handed = (if 0 ≤ count then p.handed ++ [bytes] else p.handed) ∧
      count = (K.recv p.block size).1 ∧ bytes = (K.recv p.block size).2.1 := by
  have hstep : K.PeerStep heard p (K.recorded.recv p size).2.2 := .recv p size
  rw [hr] at hstep
  obtain ⟨rfl, rfl, rfl⟩ : _ ∧ _ ∧ _ := by simpa only [recorded, Prod.mk.injEq] using hr
  exact ⟨hstep, ⟨rfl, rfl, rfl⟩, rfl, rfl, rfl, rfl⟩

/-- A call takes nothing out of the history. -/
theorem PeerStep.datagrams (h : K.PeerStep heard p p') : p.datagrams <+: p'.datagrams := by
  cases h with
  | update current => exact List.prefix_append _ _
  | _ => exact List.prefix_rfl

theorem PeerStep.accepted (h : K.PeerStep heard p p') : p.accepted <+: p'.accepted := by
  cases h with
  | @send bytes _ =>
    rcases send_accepted (K := K) p bytes with hmore | hsame
    · exact hmore ▸ List.prefix_append _ _
    · exact hsame ▸ List.prefix_rfl
  | input _ => exact List.prefix_rfl
  | update current => exact List.prefix_rfl
  | recv size => exact List.prefix_rfl

/-- What has been accepted was offered, and every message has bytes in it. -/
structure Offers (p : Peer κ) : Prop where
  accepted : p.accepted.Sublist p.offered
  bytes : ∀ m ∈ p.offered, m ≠ []

theorem Offers.step (h : Offers p) (hstep : K.PeerStep heard p p') : Offers p' := by
  cases hstep with
  | @send bytes hbytes =>
    refine ⟨?_, fun m hm => ?_⟩
    · rcases send_accepted (K := K) p bytes with hmore | hsame
      · rw [hmore]
        exact h.accepted.append (.refl _)
      · rw [hsame]
        exact h.accepted.trans (List.sublist_append_left _ _)
    · rcases List.mem_append.mp hm with hm | hm
      · exact h.bytes m hm
      · exact List.mem_singleton.mp hm ▸ hbytes
  | input _ => exact ⟨h.accepted, h.bytes⟩
  | update current => exact ⟨h.accepted, h.bytes⟩
  | recv size => exact ⟨h.accepted, h.bytes⟩

theorem Conversed.offers {conv : UInt32} {q : Bool → Peer κ} (h : K.Conversed conv q) (i : Bool) :
    Offers (q i) := by
  induction h generalizing i with
  | refl => exact ⟨.refl _, fun _ hm => absurd hm List.not_mem_nil⟩
  | tail _ hstep ih =>
    obtain ⟨j, hpeer, hother⟩ := hstep
    rcases Bool.eq_or_eq_not i j with rfl | rfl
    · exact (ih i).step hpeer
    · rw [hother]
      exact ih _

/-- Where no bytes were offered, nothing was. -/
theorem Offers.nothing (h : Offers p) (hnone : p.offered.flatten = []) :
    p.offered = [] ∧ p.accepted = [] := by
  have hoffered : p.offered = [] := by
    refine List.eq_nil_iff_forall_not_mem.mpr fun m hm => h.bytes m hm ?_
    exact List.flatten_eq_nil_iff.mp hnone m hm
  exact ⟨hoffered, List.sublist_nil.mp (hoffered ▸ h.accepted)⟩

theorem Conversed.move {conv : UInt32} {q : Bool → Peer κ} (h : K.Conversed conv q) {i : Bool}
    (hsteps : ReflTransGen (K.PeerStep (q !i).datagrams) (q i) p) :
    K.Conversed conv (Function.update q i p) := by
  induction hsteps with
  | refl => rwa [Function.update_eq_self]
  | @tail p p' _ hstep ih =>
    have hother (r : Peer κ) : Function.update q i r (!i) = q (!i) :=
      Function.update_of_ne (Bool.not_ne_self i) _ _
    refine ReflTransGen.tail ih ⟨i, ?_, ?_⟩
    · rw [hother, Function.update_self, Function.update_self]
      exact hstep
    · rw [hother, hother]

end Ikcp
end SimpleNetwork
