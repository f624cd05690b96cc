import SimpleNetwork.Asio.Acceptor
import SimpleNetwork.Base.Cursors

/-! `mgr::on_time` over `timers_` and `kcp::acceptor::on_time` over `convs_`. Both
take the successor of an entry before they call it. -/
namespace SimpleNetwork
open Cursors

/-- `mgr` with the timers that are registered. -/
structure Mgr (τ : Type) where
  timers : Table τ

/-- The calls of `mgr::add` and `mgr::remove` that a callback makes, as the
constructors and destructors of kcp connectors and acceptors do. -/
inductive Registration (τ : Type) where
  | add (timer : τ) (place : Nat) (rehash : Option (Shuffle τ))
  | remove (timer : τ)

def Registration.op {τ : Type} : Registration τ → Op τ
  | .add timer place rehash => .insert timer place rehash
  | .remove timer => .erase timer

namespace Mgr
variable {τ : Type} [DecidableEq τ]

/-- What the `on_time` of each timer does to `timers_` after what happened in the tick so far. -/
def ops (callbacks : List (Event τ) → τ → List (Registration τ)) (events : List (Event τ))
    (timer : τ) : List (Op τ) :=
  (callbacks events timer).map Registration.op

/-- `mgr::on_time`, bounded by a number of tests of its loop condition. -/
def onTime (callbacks : List (Event τ) → τ → List (Registration τ)) (fuel : Nat) (m : Mgr τ) :
    Except CursorFault (Walk τ) :=
  (Walk.begin m.timers).loop (ops callbacks) fuel

/-- The tick ends without using an invalid iterator, calls each timer that stays
registered exactly once, and calls none that is not registered. -/
def ReachesAll (m : Mgr τ) (callbacks : List (Event τ) → τ → List (Registration τ)) : Prop :=
  ∃ fuel w, m.onTime callbacks fuel = .ok w ∧ Exact m.timers.order w.trace

end Mgr

/-- A kcp acceptor whose `convs_` has one socket for each conv, as a map has. -/
structure Mapped (ε : Type) extends Acceptor ε where
  keys : (convs.map Prod.fst).Nodup

namespace Mapped
variable {ε : Type} [DecidableEq ε]

def table (a : Mapped ε) : Table UInt32 := ⟨a.convs.map Prod.fst, a.keys⟩

private theorem map_close (conv : UInt32) (endpoint : ε) (a : Acceptor ε) :
    (a.close conv endpoint).convs.map Prod.fst = (a.convs.map Prod.fst).filter (· ≠ conv) := by
  change (a.convs.filter (·.1 ≠ conv)).map Prod.fst = _
  rw [List.filter_map]
  rfl

def close (conv : UInt32) (endpoint : ε) (a : Mapped ε) : Mapped ε :=
  ⟨a.toAcceptor.close conv endpoint, by
    rw [map_close]
    exact a.keys.filter _⟩

/-- On the table it is the erasure that the loop of `on_time` performs. -/
theorem table_close (conv : UInt32) (endpoint : ε) (a : Mapped ε) :
    (a.close conv endpoint).table = a.table.erase conv :=
  Table.ext (map_close conv endpoint a.toAcceptor)

/-- The convs of the sockets that an update destroys. -/
def gone (updates : List (Event UInt32) → UInt32 → List (UInt32 × ε)) (events : List (Event UInt32))
    (conv : UInt32) :
    List UInt32 := (updates events conv).map Prod.fst

/-- `kcp::acceptor::on_time`, whose updates destroy accepted sockets, bounded by a
number of tests of its loop condition. -/
def onTime (updates : List (Event UInt32) → UInt32 → List (UInt32 × ε)) (fuel : Nat) (a : Mapped ε) :
    Except CursorFault (Walk UInt32) :=
  (Walk.begin a.table).loop (fun events conv => (gone updates events conv).map .erase) fuel

/-- The tick ends without using an invalid iterator, updates each socket that stays
in `convs_` exactly once, and updates none that is not there. -/
def ReachesAll (a : Mapped ε) (updates : List (Event UInt32) → UInt32 → List (UInt32 × ε)) : Prop :=
  ∃ fuel w, a.onTime updates fuel = .ok w ∧ Exact a.table.order w.trace

/-- No update destroys the socket that is next in the order. -/
def SparesNext (a : Mapped ε) (updates : List (Event UInt32) → UInt32 → List (UInt32 × ε)) : Prop :=
  ∀ n conv,
    let u := (Walk.round fun events conv => (gone updates events conv).map .erase)^[n]
      (Walk.begin a.table)
    u.next = .element conv → ∀ destroyed ∈ updates u.trace conv,
      successor conv u.table.order ≠ .element destroyed.1

end Mapped

/-- Timers that only remove themselves are all called. -/
theorem Mgr.reachesAll_of_leaving {τ : Type} [DecidableEq τ] (m : Mgr τ) (leaves : τ → Bool) :
    m.ReachesAll fun _ timer => if leaves timer then [.remove timer] else [] := by
  have hops : Mgr.ops (fun _ timer => if leaves timer then [.remove timer] else []) =
      fun (_ : List (Event τ)) timer => (if leaves timer then [timer] else []).map Op.erase := by
    funext events timer
    rw [ops]
    split <;> rfl
  refine (loop_exact_iff m.timers _).mpr ?_
  rw [hops]
  refine Walk.spared_erase_iff.mpr fun n timer _ y hy => ?_
  have htimer : y = timer := by
    split at hy
    · exact List.mem_singleton.mp hy
    · exact absurd hy List.not_mem_nil
  rw [htimer]
  exact successor_ne (Table.nodup _)

/-- For every set of timers and every family of callbacks, `mgr::on_time` reaches all
timers if and only if no callback removes the timer that is next or adds one with a
rehash, and the callbacks do not add timers for ever; and for every `convs_` and every
family of updates, `kcp::acceptor::on_time` reaches all sockets if and only if no
update destroys the socket that is next. -/
theorem on_time_reaches_all_iff {τ ε : Type} [DecidableEq τ] [DecidableEq ε] (m : Mgr τ)
    (callbacks : List (Event τ) → τ → List (Registration τ)) (a : Mapped ε)
    (updates : List (Event UInt32) → UInt32 → List (UInt32 × ε)) :
    (m.ReachesAll callbacks ↔ (Walk.begin m.timers).Spared (Mgr.ops callbacks)) ∧
    (a.ReachesAll updates ↔ a.SparesNext updates) := by
  refine ⟨loop_exact_iff m.timers (Mgr.ops callbacks),
    (loop_exact_iff a.table _).trans (Walk.spared_erase_iff.trans ?_)⟩
  refine forall₃_congr fun n conv _ => ?_
  exact List.forall_mem_map

def twoTimers : Mgr Nat := ⟨⟨[0, 1], by decide⟩⟩

def twoSockets : Mapped Unit := ⟨{ remoteEndpoint := (), convs := [(1, ()), (2, ())] }, by decide⟩

/-- A timer that removes the next one, a timer that adds one with a rehash, and a
socket whose update destroys the next one leave the loop with an invalid iterator. -/
theorem on_time_uses_invalid_iterator :
    ¬ twoTimers.ReachesAll (fun _ timer => if timer = 0 then [.remove 1] else []) ∧
    ¬ twoTimers.ReachesAll (fun _ timer =>
      if timer = 0 then [.add 2 0 (some ⟨List.reverse, List.reverse_perm⟩)] else []) ∧
    ¬ twoSockets.ReachesAll fun _ conv => if conv = 1 then [(2, ())] else [] := by
  refine ⟨?_, ?_, ?_⟩
  all_goals
    rintro ⟨fuel, w, hloop, -⟩
    rcases fuel with _ | _ | fuel
    · cases hloop
    · cases hloop
    · cases hloop

end SimpleNetwork
