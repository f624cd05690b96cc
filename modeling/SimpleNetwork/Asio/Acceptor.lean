import SimpleNetwork.Buffer.Basic
import SimpleNetwork.Base.Runs
import Mathlib.Data.List.Nodup
import Mathlib.Data.List.Perm.Subperm
import Mathlib.Data.List.Range
import Mathlib.Data.Nat.Find
import Mathlib.Data.Nat.ModEq

/-! `kcp::acceptor`: the receives that its two `listen` functions arm, and what
their handlers do with the datagrams. Endpoints are any type with equality; the
record of finished handlers is ghost state. -/
namespace SimpleNetwork
open Runs

/-- What becomes of the socket a handler makes for a new endpoint: it connects,
`connect` reports an error, or opening or binding it throws. -/
inductive ConnectResult where
  | connected
  | refused
  | thrown
  deriving DecidableEq, Repr

/-- A handler that ran: the sender of the datagram it completes, the endpoint it
saw, whether the sender was accepted before, and the accepted endpoint. -/
structure Handled (ε : Type) where
  sender : ε
  seen : ε
  known : Bool
  result : ConnectResult
  accepted : Option ε

/-- The acceptor with its outstanding receives: the armed ones, and those that
were performed and whose handlers wait to run. -/
structure Acceptor (ε : Type) where
  armed : Nat := 0
  performed : List ε := []
  remoteEndpoint : ε
  remoteEndpoints : List ε := []
  convs : List (UInt32 × ε) := []
  counter : UInt32 := 0
  live : List (UInt32 × ε) := []
  handled : List (Handled ε) := []

def nextConv (conv : UInt32) : UInt32 := if conv + 1 ≠ 0 then conv + 1 else 1

/-- The recursion of `get_conv`, with a bound. -/
def findConv (keys : List UInt32) : Nat → UInt32 → Option UInt32
  | 0, _ => none
  | fuel + 1, conv =>
    if nextConv conv ∈ keys then findConv keys fuel (nextConv conv) else some (nextConv conv)

namespace Acceptor
variable {ε : Type} [DecidableEq ε]

def outstanding (a : Acceptor ε) : Nat := a.armed + a.performed.length

def isAccepted (a : Acceptor ε) (endpoint : ε) : Bool := a.remoteEndpoints.any (· = endpoint)

/-- `get_conv()`. More keys than tries remain only when every value is taken,
and then the recursion does not end. -/
def getConv : EStateM Fault (Acceptor ε) UInt32 := do
  let a ← get
  match findConv (a.convs.map Prod.fst) (a.convs.length + 1) a.counter with
  | none => throw .diverged
  | some conv =>
    modify fun a => { a with counter := conv }
    pure conv

/-- `do_accept()`: start a receive into the shared `buffer_` and `remote_endpoint_`. -/
def doAccept : EStateM Fault (Acceptor ε) Unit :=
  modify fun a => { a with armed := a.armed + 1 }

/-- `udp::acceptor::listen()`, which calls the virtual `do_accept()`. -/
def listenUdp : EStateM Fault (Acceptor ε) Unit := doAccept

def listen : EStateM Fault (Acceptor ε) Unit := do
  listenUdp
  doAccept

def record (entry : Handled ε) : EStateM Fault (Acceptor ε) Unit :=
  modify fun a => { a with handled := a.handled ++ [entry] }

def handleReceive (sender : ε) (result : ConnectResult) : EStateM Fault (Acceptor ε) Unit := do
  let a ← get
  let entry : Handled ε := ⟨sender, a.remoteEndpoint, decide (sender ∈ a.remoteEndpoints), result, none⟩
  if a.isAccepted a.remoteEndpoint then
    record entry
    doAccept
  else
    match result with
    | .thrown =>
      record entry
      throw .systemError
    | .refused =>
      record entry
      doAccept
    | .connected =>
      let conv ← getConv
      modify fun b => { b with
        remoteEndpoints := b.remoteEndpoints ++ [a.remoteEndpoint]
        convs := (conv, a.remoteEndpoint) :: b.convs
        live := (conv, a.remoteEndpoint) :: b.live }
      record { entry with accepted := some a.remoteEndpoint }
      doAccept

/-- `close(conv, endpoint)`, from the deleter of an accepted socket's endpoint. -/
def close (conv : UInt32) (endpoint : ε) (a : Acceptor ε) : Acceptor ε :=
  { a with
    convs := a.convs.filter (·.1 ≠ conv)
    remoteEndpoints := a.remoteEndpoints.erase endpoint }

end Acceptor

/-- Events at a listening acceptor: a receive is performed, the handler of a
performed receive runs, a receive ends in an error, an accepted socket is
destroyed. -/
inductive AcceptorEvent (ε : Type) where
  | arrive (sender : ε)
  | handle (i : Nat) (result : ConnectResult)
  | fail
  | destroy (i : Nat)

namespace Acceptor
variable {ε : Type} [DecidableEq ε]

/-- One event. Performing a receive overwrites `remote_endpoint_`; an error
completion arms nothing. -/
def Step (a : Acceptor ε) : AcceptorEvent ε → Acceptor ε → Prop
  | .arrive sender, b => 0 < a.armed ∧
      b = { a with armed := a.armed - 1, performed := a.performed ++ [sender], remoteEndpoint := sender }
  | .handle i result, b => ∃ sender, a.performed[i]? = some sender ∧
      (handleReceive sender result { a with performed := a.performed.eraseIdx i } = .ok () b ∨
        handleReceive sender result { a with performed := a.performed.eraseIdx i } = .error .systemError b)
  | .fail, b => 0 < a.armed ∧ b = { a with armed := a.armed - 1 }
  | .destroy i, b => ∃ conv endpoint, a.live[i]? = some (conv, endpoint) ∧
      b = close conv endpoint { a with live := a.live.eraseIdx i }

end Acceptor

section Allocation

private theorem toNat_nextConv (conv : UInt32) : (nextConv conv).toNat = conv.toNat % (2 ^ 32 - 1) + 1 := by
  have hlt := conv.toNat_lt
  have hone : (1 : UInt32).toNat = 1 := rfl
  have hsum : (conv + 1).toNat = (conv.toNat + 1) % 2 ^ 32 := by rw [UInt32.toNat_add, hone]
  have hzero : conv + 1 = 0 ↔ conv.toNat + 1 = 2 ^ 32 := by
    rw [← UInt32.toNat_inj, hsum, UInt32.toNat_zero]
    omega
  unfold nextConv
  split
  · rename_i hne
    rw [hsum]
    have := mt hzero.mpr hne
    omega
  · rename_i he
    have := hzero.mp (not_not.mp he)
    rw [hone]
    omega

theorem nextConv_ne_zero (conv : UInt32) : nextConv conv ≠ 0 := by
  intro hzero
  have h := toNat_nextConv conv
  rw [hzero, UInt32.toNat_zero] at h
  omega

/-- The value tried in round `i` of `get_conv`. -/
theorem toNat_iterate_nextConv (conv : UInt32) (i : Nat) :
    (nextConv^[i + 1] conv).toNat = (conv.toNat + i) % (2 ^ 32 - 1) + 1 := by
  induction i with
  | zero => exact toNat_nextConv conv
  | succ i ih =>
    rw [Function.iterate_succ_apply', toNat_nextConv, ih]
    omega

/-- Fewer than 2^32 - 1 tries in a row are of distinct values. -/
theorem nodup_tries (conv : UInt32) {n : Nat} (hn : n ≤ 2 ^ 32 - 1) :
    ((List.range n).map fun i => nextConv^[i + 1] conv).Nodup := by
  refine List.Nodup.map_on ?_ List.nodup_range
  intro i hi j hj he
  have hvalue := congrArg UInt32.toNat he
  rw [toNat_iterate_nextConv, toNat_iterate_nextConv] at hvalue
  rw [List.mem_range] at hi hj
  have hmod : i ≡ j [MOD 2 ^ 32 - 1] := Nat.ModEq.add_left_cancel' conv.toNat (Nat.succ_injective hvalue)
  exact Nat.ModEq.eq_of_lt_of_lt hmod (by omega) (by omega)

/-- More tries than keys come to a value that is free. -/
theorem exists_free_conv (keys : List UInt32) (hkeys : keys.length < 2 ^ 32 - 1) (conv : UInt32) :
    ∃ i ≤ keys.length, nextConv^[i + 1] conv ∉ keys := by
  by_contra hnone
  push Not at hnone
  have hsub : ((List.range (keys.length + 1)).map fun i => nextConv^[i + 1] conv) ⊆ keys := by
    intro x hx
    obtain ⟨i, hi, rfl⟩ := List.mem_map.mp hx
    exact hnone i (Nat.le_of_lt_succ (List.mem_range.mp hi))
  have hle := ((nodup_tries conv (by omega)).subperm hsub).length_le
  rw [List.length_map, List.length_range] at hle
  omega

/-- The recursion stops at the first value that is free. -/
theorem findConv_eq {keys : List UInt32} {n fuel : Nat} {conv : UInt32}
    (htaken : ∀ i < n, nextConv^[i + 1] conv ∈ keys)
    (hfree : nextConv^[n + 1] conv ∉ keys) (hfuel : n < fuel) :
    findConv keys fuel conv = some (nextConv^[n + 1] conv) := by
  induction n generalizing conv fuel with
  | zero =>
    obtain ⟨fuel, rfl⟩ := Nat.exists_eq_succ_of_ne_zero (Nat.ne_of_gt hfuel)
    exact if_neg hfree
  | succ n ih =>
    obtain ⟨fuel, rfl⟩ := Nat.exists_eq_succ_of_ne_zero (Nat.ne_of_gt (Nat.zero_lt_of_lt hfuel))
    rw [findConv, if_pos (show nextConv conv ∈ keys from htaken 0 (Nat.succ_pos n))]
    exact ih (fun i hi => htaken (i + 1) (Nat.succ_lt_succ hi)) hfree (Nat.lt_of_succ_lt_succ hfuel)

open Classical in
/-- The first try of a free value. -/
theorem exists_first_free (keys : List UInt32) (hkeys : keys.length < 2 ^ 32 - 1) (conv : UInt32) :
    ∃ n ≤ keys.length, (∀ i < n, nextConv^[i + 1] conv ∈ keys) ∧ nextConv^[n + 1] conv ∉ keys := by
  obtain ⟨i, hi, hfree⟩ := exists_free_conv keys hkeys conv
  have hsome : ∃ n, nextConv^[n + 1] conv ∉ keys := ⟨i, hfree⟩
  refine ⟨Nat.find hsome, Nat.le_trans (Nat.find_min' hsome hfree) hi, fun j hj => ?_, Nat.find_spec hsome⟩
  exact not_not.mp (Nat.find_min hsome hj)

theorem findConv_ends (keys : List UInt32) (hkeys : keys.length < 2 ^ 32 - 1) (conv : UInt32) :
    ∃ free, findConv keys (keys.length + 1) conv = some free := by
  obtain ⟨n, hn, htaken, hfree⟩ := exists_first_free keys hkeys conv
  exact ⟨_, findConv_eq htaken hfree (Nat.lt_succ_of_le hn)⟩

end Allocation

/-- The handler saw the sender of its own datagram. -/
def Handled.Attributed {ε : Type} (h : Handled ε) : Prop := h.seen = h.sender

/-- A new endpoint whose socket connected was accepted. -/
def Handled.Served {ε : Type} (h : Handled ε) : Prop :=
  h.known = false → h.result = .connected → h.accepted = some h.sender

namespace Acceptor
variable {ε : Type} [DecidableEq ε] {a b : Acceptor ε}

/-- No request was lost or misattributed, and at most one receive is outstanding. -/
structure WellServed (a : Acceptor ε) : Prop where
  single : a.outstanding ≤ 1
  attributed : ∀ h ∈ a.handled, h.Attributed
  served : ∀ h ∈ a.handled, h.Served

/-- A step that performs a receive only when no performed one waits for its handler. -/
def SpacedStep (a : Acceptor ε) (e : AcceptorEvent ε) (b : Acceptor ε) : Prop :=
  Step a e b ∧ ((∃ sender, e = .arrive sender) → a.performed = [])

structure Spaced (a : Acceptor ε) : Prop where
  waiting : a.performed = [] ∨ a.performed = [a.remoteEndpoint]
  attributed : ∀ h ∈ a.handled, h.Attributed
  served : ∀ h ∈ a.handled, h.Served

/-- Everything a handler can leave behind: one entry, and the shared endpoint as it was. -/
theorem handleReceive_entry {sender : ε} {result : ConnectResult}
    (hrun : handleReceive sender result a = .ok () b ∨
      handleReceive sender result a = .error .systemError b) :
    ∃ entry : Handled ε, b.handled = a.handled ++ [entry] ∧ b.performed = a.performed ∧
      b.remoteEndpoint = a.remoteEndpoint ∧ entry.sender = sender ∧ entry.seen = a.remoteEndpoint ∧
      entry.known = decide (sender ∈ a.remoteEndpoints) ∧ entry.result = result ∧
      (a.isAccepted a.remoteEndpoint = false → result = .connected →
        entry.accepted = some a.remoteEndpoint) := by
  unfold handleReceive at hrun
  rw [Outcome.get_bind] at hrun
  dsimp only at hrun
  split at hrun
  · rename_i hknown
    rcases hrun with hrun | hrun
    · cases hrun
      exact ⟨_, rfl, rfl, rfl, rfl, rfl, rfl, rfl, fun hn _ => absurd hknown (by rw [hn]; decide)⟩
    · cases hrun
  · cases result with
    | thrown =>
      rcases hrun with hrun | hrun
      · cases hrun
      · cases hrun
        exact ⟨_, rfl, rfl, rfl, rfl, rfl, rfl, rfl, fun _ hc => nomatch hc⟩
    | refused =>
      rcases hrun with hrun | hrun
      · cases hrun
        exact ⟨_, rfl, rfl, rfl, rfl, rfl, rfl, rfl, fun _ hc => nomatch hc⟩
      · cases hrun
    | connected =>
      dsimp only at hrun
      cases hf : findConv (a.convs.map Prod.fst) (a.convs.length + 1) a.counter with
      | none =>
        have hconv : getConv a = .error .diverged a := by
          rw [getConv, Outcome.get_bind, hf]
          rfl
        rw [Outcome.bind_error hconv] at hrun
        rcases hrun with hrun | hrun <;> cases hrun
      | some conv =>
        have hconv : getConv a = .ok conv { a with counter := conv } := by
          rw [getConv, Outcome.get_bind, hf]
          rfl
        rw [Outcome.bind_ok hconv] at hrun
        rcases hrun with hrun | hrun
        · cases hrun
          exact ⟨_, rfl, rfl, rfl, rfl, rfl, rfl, rfl, fun _ _ => rfl⟩
        · cases hrun

theorem Spaced.step {e : AcceptorEvent ε} (h : a.Spaced) (hstep : SpacedStep a e b) : b.Spaced := by
  obtain ⟨hstep, hspaced⟩ := hstep
  cases e with
  | arrive sender =>
    obtain ⟨-, rfl⟩ := hstep
    have hnone := hspaced ⟨sender, rfl⟩
    exact ⟨Or.inr (by simp [hnone]), h.attributed, h.served⟩
  | handle i result =>
    obtain ⟨sender, hget, hrun⟩ := hstep
    obtain ⟨entry, hlog, hp, hr, hsender, hseen, hknown, hresult, haccepted⟩ := handleReceive_entry hrun
    have hone : a.performed = [a.remoteEndpoint] := by
      rcases h.waiting with hw | hw
      · rw [hw] at hget
        cases hget
      · exact hw
    obtain ⟨rfl, rfl⟩ : i = 0 ∧ a.remoteEndpoint = sender := by
      rw [hone] at hget
      cases i with
      | zero => exact ⟨rfl, by simpa using hget⟩
      | succ i => cases hget
    have hserved : entry.Served := by
      intro hk hc
      rw [hsender]
      refine haccepted ?_ (hresult ▸ hc)
      rw [hknown, decide_eq_false_iff_not] at hk
      rw [isAccepted, List.any_eq_false]
      intro x hx he
      rw [decide_eq_true_eq] at he
      exact hk (he ▸ hx)
    have hall (P : Handled ε → Prop) (hold : ∀ x ∈ a.handled, P x)
        (hnew : P entry) : ∀ x ∈ b.handled, P x := by
      intro x hx
      rw [hlog, List.mem_append, List.mem_singleton] at hx
      rcases hx with hx | rfl
      · exact hold x hx
      · exact hnew
    refine ⟨Or.inl ?_, hall _ h.attributed (hseen.trans hsender.symm), hall _ h.served hserved⟩
    rw [hp, hone]
    rfl
  | fail =>
    obtain ⟨-, rfl⟩ := hstep
    exact ⟨h.waiting, h.attributed, h.served⟩
  | destroy i =>
    obtain ⟨conv, endpoint, -, rfl⟩ := hstep
    exact ⟨h.waiting, h.attributed, h.served⟩

/-- With a free conv left, every waiting handler runs to its end. -/
theorem handle_ends {i : Nat} {sender : ε} (hget : a.performed[i]? = some sender)
    (hfree : a.convs.length < 2 ^ 32 - 1) (result : ConnectResult) : ∃ b, Step a (.handle i result) b := by
  obtain ⟨c, hc⟩ : ∃ c : Acceptor ε, c = { a with performed := a.performed.eraseIdx i } := ⟨_, rfl⟩
  have hconvs : c.convs = a.convs := by rw [hc]
  suffices hrun : ∃ b, handleReceive sender result c = .ok () b ∨
    handleReceive sender result c = .error .systemError b by
    obtain ⟨b, hb⟩ := hrun
    exact ⟨b, sender, hget, by rw [← hc]; exact hb⟩
  unfold handleReceive
  rw [Outcome.get_bind]
  dsimp only
  split
  · exact ⟨_, Or.inl rfl⟩
  · cases result with
    | thrown => exact ⟨_, Or.inr rfl⟩
    | refused => exact ⟨_, Or.inl rfl⟩
    | connected =>
      obtain ⟨conv, hconv⟩ := findConv_ends (c.convs.map Prod.fst)
        (by rw [List.length_map, hconvs]; exact hfree) c.counter
      rw [List.length_map] at hconv
      have hget : getConv c = .ok conv { c with counter := conv } := by
        rw [getConv, Outcome.get_bind, hconv]
        rfl
      dsimp only
      rw [Outcome.bind_ok hget]
      exact ⟨_, Or.inl rfl⟩

end Acceptor

open Acceptor in
/-- Two receives are outstanding as soon as `listen` returns, so no run has at
most one throughout. Requests are attributed and served in every run in which a
datagram is received only after the handler of the one before has run. -/
theorem kcp_acceptor_requests {ε : Type} [DecidableEq ε] (start : ε) (counter : UInt32)
    {listening : Acceptor ε}
    (hlisten : Acceptor.listen { remoteEndpoint := start, counter := counter } = .ok () listening) :
    (∀ events a, Run Step listening events a →
      ¬ ∀ before after b, events = before ++ after → Run Step listening before b → b.WellServed) ∧
    ∀ events a, Run SpacedStep listening events a → (∀ h ∈ a.handled, h.Attributed ∧ h.Served) ∧
      ∀ sender, a.performed = [sender] → a.convs.length < 2 ^ 32 - 1 →
        ∀ result, ∃ b, SpacedStep a (.handle 0 result) b := by
  cases hlisten
  constructor
  · intro events a _ hall
    have htwo : 2 ≤ 1 := (hall [] events _ rfl (.nil _)).single
    exact absurd htwo (by decide)
  · intro events a hrun
    have hspaced : a.Spaced := hrun.invariant (I := Spaced) (fun h hs => h.step hs)
      ⟨Or.inl rfl, fun h hm => absurd hm List.not_mem_nil, fun h hm => absurd hm List.not_mem_nil⟩
    refine ⟨fun h hm => ⟨hspaced.attributed h hm, hspaced.served h hm⟩, ?_⟩
    intro sender hp hfree result
    obtain ⟨b, hb⟩ := handle_ends (i := 0) (by rw [hp]; rfl) hfree result
    exact ⟨b, hb, fun ⟨_, he⟩ => nomatch he⟩

open Acceptor in
/-- On numbered endpoints: not even the empty run keeps at most one receive, while two
senders that wait for each other are both attributed and served. -/
theorem kcp_acceptor_requests_numbered : ∃ listening a : Acceptor Nat,
    Acceptor.listen { remoteEndpoint := 0 } = .ok () listening ∧
      Run SpacedStep listening [.arrive 1, .handle 0 .connected, .arrive 2, .handle 0 .connected] a ∧
      (∀ h ∈ a.handled, h.Attributed ∧ h.Served) ∧ a.handled.map Handled.sender = [1, 2] ∧
      ¬ ∀ before after b, ([] : List (AcceptorEvent Nat)) = before ++ after →
        Run Step listening before b → b.WellServed := by
  have hrequests := kcp_acceptor_requests 0 0 rfl
  obtain ⟨a, hrun, hsenders⟩ : ∃ a : Acceptor Nat,
      Run SpacedStep { remoteEndpoint := 0, armed := 2 }
        [.arrive 1, .handle 0 .connected, .arrive 2, .handle 0 .connected] a ∧
        a.handled.map Handled.sender = [1, 2] :=
    ⟨_, .cons ⟨⟨by decide, rfl⟩, fun _ => rfl⟩ (.cons ⟨⟨1, rfl, Or.inl rfl⟩, fun ⟨_, he⟩ => nomatch he⟩
      (.cons ⟨⟨by decide, rfl⟩, fun _ => rfl⟩
        (.cons ⟨⟨2, rfl, Or.inl rfl⟩, fun ⟨_, he⟩ => nomatch he⟩ (.nil _)))), rfl⟩
  exact ⟨_, a, rfl, hrun, (hrequests.2 _ _ hrun).1, hsenders, hrequests.1 [] _ (.nil _)⟩

open Acceptor in
/-- Two datagrams received before the first handler runs: both handlers see the
second sender, and the first one is never accepted. -/
theorem kcp_acceptor_misattributes : ∃ listening a : Acceptor Nat,
    Acceptor.listen { remoteEndpoint := 0 } = .ok () listening ∧
      Run Step listening [.arrive 1, .arrive 2, .handle 0 .connected, .handle 0 .connected] a ∧
      ∃ h ∈ a.handled, ¬ h.Attributed ∧ ¬ h.Served := by
  refine ⟨_, _, rfl, .cons ⟨by decide, rfl⟩ (.cons ⟨by decide, rfl⟩ (.cons ⟨1, rfl, Or.inl rfl⟩
    (.cons ⟨2, rfl, Or.inl rfl⟩ (.nil _)))), ⟨1, 2, false, .connected, some 2⟩, ?_, ?_, ?_⟩
  · exact List.mem_cons_self
  · exact (by decide : ¬ (2 : Nat) = 1)
  · exact fun hserved => absurd (hserved rfl rfl) (by decide)

end SimpleNetwork
