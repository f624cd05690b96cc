import SimpleNetwork.Asio.Acceptor
import SimpleNetwork.Base.Retries

/-! The search of `get_conv()` for a free conv, with no bound on its recursion. -/
namespace SimpleNetwork
open Retries

namespace Acceptor
variable {ε : Type}

/-- One call of `get_conv()` up to its recursive call: the static counter moves
on, and a conv that is a key of `convs_` means another call. -/
def getConvRound : EStateM Fault (Acceptor ε) (Option UInt32) := do
  modify fun a => { a with counter := nextConv a.counter }
  let a ← get
  if a.counter ∈ a.convs.map Prod.fst then pure none else pure (some a.counter)

def counted (a : Acceptor ε) (calls : Nat) : Acceptor ε := { a with counter := nextConv^[calls] a.counter }

private theorem getConvRound_counted (a : Acceptor ε) (calls : Nat) : getConvRound (a.counted calls) =
    .ok (if nextConv^[calls + 1] a.counter ∈ a.convs.map Prod.fst then none
      else some (nextConv^[calls + 1] a.counter))
      (a.counted (calls + 1)) := by
  have hnext : nextConv (nextConv^[calls] a.counter) = nextConv^[calls + 1] a.counter :=
    (Function.iterate_succ_apply' nextConv calls a.counter).symm
  rw [getConvRound, Outcome.modify_bind, Outcome.get_bind]
  change (if nextConv (nextConv^[calls] a.counter) ∈ a.convs.map Prod.fst then pure none
    else pure (some (nextConv (nextConv^[calls] a.counter))) : EStateM Fault (Acceptor ε) _)
      { a with counter := nextConv (nextConv^[calls] a.counter) } = _
  rw [hnext]
  split <;> rfl

private theorem iterate_nextConv_ne_zero (conv : UInt32) (i : Nat) : nextConv^[i + 1] conv ≠ 0 := by
  rw [Function.iterate_succ_apply']
  exact nextConv_ne_zero _

end Acceptor

/-- From any value of the counter and with any map that leaves a non-zero value
free, the calls end, with a free conv that is not zero, and no value is tried twice. -/
theorem get_conv_finds_fresh {ε : Type} (a : Acceptor ε) (hroom : a.convs.length < 2 ^ 32 - 1) :
    ∃ conv retries, Loop Acceptor.getConvRound a retries (.ok conv { a with counter := conv }) ∧
      Acceptor.getConv a = .ok conv { a with counter := conv } ∧ conv ≠ 0 ∧ conv ∉ a.convs.map Prod.fst ∧
      (retries.map Acceptor.counter ++ [conv]).Nodup ∧ 0 ∉ retries.map Acceptor.counter ++ [conv] := by
  have hlen : (a.convs.map Prod.fst).length = a.convs.length := List.length_map _
  obtain ⟨n, hn, htaken, hfree⟩ := exists_first_free (a.convs.map Prod.fst) (by omega) a.counter
  have hloop : Loop Acceptor.getConvRound (a.counted 0) ((List.range n).map fun i => a.counted (i + 1))
      (.ok (nextConv^[n + 1] a.counter) (a.counted (n + 1))) := by
    refine loop_of_orbit (fun i hi => ?_) ?_
    · rw [Acceptor.getConvRound_counted, if_pos (htaken i hi)]
    · rw [Acceptor.getConvRound_counted, if_neg hfree]
  have htried : ((List.range n).map fun i => a.counted (i + 1)).map Acceptor.counter ++
    [nextConv^[n + 1] a.counter] =
      (List.range (n + 1)).map fun i => nextConv^[i + 1] a.counter := by
    rw [List.range_succ, List.map_append, List.map_map]
    rfl
  refine ⟨_, _, hloop, ?_, Acceptor.iterate_nextConv_ne_zero _ _, hfree, ?_, ?_⟩
  · rw [Acceptor.getConv, Outcome.get_bind, findConv_eq htaken hfree (by omega)]
    rfl
  · rw [htried]
    exact nodup_tries _ (by omega)
  · rw [htried]
    intro hmem
    obtain ⟨i, -, hzero⟩ := List.mem_map.mp hmem
    exact Acceptor.iterate_nextConv_ne_zero _ _ hzero

/-- The counter wraps, and the convs 1 and 2 are in use. -/
theorem get_conv_finds_fresh_wrapped :
    ∃ conv, Acceptor.getConv (ε := Nat)
      { remoteEndpoint := 0, counter := 4294967295, convs := [(2, 8), (1, 7)] } =
      .ok conv { remoteEndpoint := 0, counter := conv, convs := [(2, 8), (1, 7)] } ∧ conv ≠ 0 ∧
        conv ∉ [(2 : UInt32), 1] := by
  obtain ⟨conv, -, -, hrun, hne, hfree, -⟩ := get_conv_finds_fresh
    ({ remoteEndpoint := 0, counter := 4294967295, convs := [(2, 8), (1, 7)] } : Acceptor Nat) (by decide)
  exact ⟨conv, hrun, hne, hfree⟩

end SimpleNetwork
