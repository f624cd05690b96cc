import SimpleNetwork.Asio.Acceptor

/-! The tables of `kcp::acceptor` with the identity of what they point to:
`remote_endpoints_` holds addresses of endpoint objects, `convs_` addresses of
sockets, and an endpoint object lives as long as the socket that shares it. -/
namespace SimpleNetwork
open Runs

/-- An accepted socket: where it is, its conv, and the address of its endpoint object. -/
structure AcceptedSocket where
  address : Nat
  conv : UInt32
  endpoint : Nat
  deriving DecidableEq, Repr

/-- The tables of the acceptor, the endpoint objects that are alive, and the live sockets. -/
structure Books (ε : Type) where
  heap : Nat → Option ε := fun _ => none
  remoteEndpoints : List Nat := []
  convs : List (UInt32 × Nat) := []
  counter : UInt32 := 0
  live : List AcceptedSocket := []

namespace Books
variable {ε : Type} [DecidableEq ε]

def deref (p : Nat) : EStateM Fault (Books ε) ε := do
  match (← get).heap p with
  | none => throw .deadBlock
  | some endpoint => pure endpoint

/-- The loop of `is_accepted()` and `close()`: the first entry that points to an equal endpoint. -/
def search (endpoint : ε) : List Nat → EStateM Fault (Books ε) (Option Nat)
  | [] => pure none
  | p :: ps => do
    let here ← deref p
    if here = endpoint then pure (some p) else search endpoint ps

def isAccepted (endpoint : ε) : EStateM Fault (Books ε) Bool := do
  let found ← search endpoint (← get).remoteEndpoints
  pure found.isSome

def closeUdp (endpoint : ε) : EStateM Fault (Books ε) Unit := do
  match ← search endpoint (← get).remoteEndpoints with
  | none => pure ()
  | some p => modify fun b => { b with remoteEndpoints := b.remoteEndpoints.erase p }

def close (conv : UInt32) (endpoint : ε) : EStateM Fault (Books ε) Unit := do
  modify fun b => { b with convs := b.convs.filter (·.1 ≠ conv) }
  closeUdp endpoint

def getConv : EStateM Fault (Books ε) UInt32 := do
  let b ← get
  match findConv (b.convs.map Prod.fst) (b.convs.length + 1) b.counter with
  | none => throw .diverged
  | some conv =>
    modify fun b => { b with counter := conv }
    pure conv

/-- The handler of `do_accept()` for a datagram from an endpoint, with the
addresses that `new` will return for the endpoint object and the socket. -/
def handleReceive (endpoint : ε) (result : ConnectResult) (object address : Nat) :
    EStateM Fault (Books ε) Unit := do
  if ← isAccepted endpoint then pure ()
  else
    match result with
    | .thrown => throw .systemError
    | .refused => pure ()
    | .connected =>
      let conv ← getConv
      modify fun b => { b with
        heap := Function.update b.heap object (some endpoint)
        remoteEndpoints := b.remoteEndpoints ++ [object]
        convs := (conv, address) :: b.convs.filter (·.1 ≠ conv)
        live := ⟨address, conv, object⟩ :: b.live }

/-- A socket dies and with it the last reference to its endpoint object, whose
deleter calls `close()` and then frees the object. -/
def destroy (s : AcceptedSocket) : EStateM Fault (Books ε) Unit := do
  let endpoint ← deref s.endpoint
  close s.conv endpoint
  modify fun b => { b with heap := Function.update b.heap s.endpoint none }

end Books

/-- A datagram handler, the end of a live socket, and other acceptors moving the
static counter of `get_conv()`. -/
inductive BooksEvent (ε : Type) where
  | handle (endpoint : ε) (result : ConnectResult) (object address : Nat)
  | destroy (i : Nat)
  | elsewhere (counter : UInt32)

namespace Books
variable {ε : Type} [DecidableEq ε]

/-- What an event does; `new` may return any address that is not in use. -/
def Does (b : Books ε) : BooksEvent ε → EStateM.Result Fault (Books ε) Unit → Prop
  | .handle endpoint result object address, r =>
      b.heap object = none ∧ address ∉ b.live.map (·.address) ∧
        r = handleReceive endpoint result object address b
  | .destroy i, r => ∃ s, b.live[i]? = some s ∧ r = destroy s { b with live := b.live.eraseIdx i }
  | .elsewhere counter, r => r = .ok () { b with counter := counter }

/-- An event that returns or ends in an exception of a socket call. -/
def Step (b : Books ε) (e : BooksEvent ε) (b' : Books ε) : Prop :=
  Does b e (.ok () b') ∨ Does b e (.error .systemError b')

/-- The tables match the live sockets. -/
structure Matches (b : Books ε) : Prop where
  alive : ∀ p, (b.heap p).isSome ↔ p ∈ b.live.map (·.endpoint)
  distinct : ∀ {p q endpoint}, b.heap p = some endpoint → b.heap q = some endpoint → p = q
  endpoints : b.remoteEndpoints.Perm (b.live.map (·.endpoint))
  convs : b.convs.Perm (b.live.map fun s => (s.conv, s.address))
  objects : (b.live.map (·.endpoint)).Nodup
  keys : (b.live.map (·.conv)).Nodup
  addresses : (b.live.map (·.address)).Nodup
  nonzero : ∀ s ∈ b.live, s.conv ≠ 0

private theorem findConv_fresh {keys : List UInt32} {fuel : Nat} {conv free : UInt32}
    (h : findConv keys fuel conv = some free) :
    free ∉ keys ∧ free ≠ 0 := by
  induction fuel generalizing conv with
  | zero => cases h
  | succ fuel ih =>
    rw [findConv] at h
    split at h
    · exact ih h
    · rename_i hnot
      cases h
      exact ⟨hnot, nextConv_ne_zero conv⟩

variable {b b' : Books ε}

omit [DecidableEq ε] in
private theorem deref_alive {p : Nat} {endpoint : ε} (h : b.heap p = some endpoint) :
    deref p b = .ok endpoint b := by
  rw [deref, Outcome.get_bind, h]
  rfl

/-- Among live objects the loop finds the entry of an equal endpoint, or none. -/
theorem search_alive (endpoint : ε) {ps : List Nat} (h : ∀ p ∈ ps, (b.heap p).isSome) :
    search endpoint ps b = .ok (ps.find? fun p => b.heap p = some endpoint) b := by
  induction ps with
  | nil => rfl
  | cons p ps ih =>
    obtain ⟨here, hhere⟩ := Option.isSome_iff_exists.mp (h p List.mem_cons_self)
    rw [search, Outcome.bind_ok (deref_alive hhere), List.find?_cons, hhere]
    by_cases heq : here = endpoint
    · simp [heq]
    · simp only [if_neg heq, Option.some.injEq, decide_eq_false heq]
      exact ih fun q hq => h q (List.mem_cons_of_mem p hq)

private theorem destroy_alive {s : AcceptedSocket} {endpoint : ε} (hs : b.heap s.endpoint = some endpoint)
    (halive : ∀ p ∈ b.remoteEndpoints, (b.heap p).isSome)
    (hfind : b.remoteEndpoints.find? (fun q => b.heap q = some endpoint) = some s.endpoint) :
    destroy s b = .ok () { b with
      heap := Function.update b.heap s.endpoint none
      remoteEndpoints := b.remoteEndpoints.erase s.endpoint
      convs := b.convs.filter (·.1 ≠ s.conv) } := by
  have hclose : close s.conv endpoint b = .ok () { b with
      remoteEndpoints := b.remoteEndpoints.erase s.endpoint
      convs := b.convs.filter (·.1 ≠ s.conv) } := by
    have hsearch := search_alive (b := { b with convs := b.convs.filter (·.1 ≠ s.conv) }) endpoint halive
    rw [hfind] at hsearch
    rw [close, Outcome.modify_bind, closeUdp, Outcome.get_bind, Outcome.bind_ok hsearch]
    rfl
  rw [destroy, Outcome.bind_ok (deref_alive hs), Outcome.bind_ok hclose]
  rfl

namespace Matches
variable (h : b.Matches)
include h

omit [DecidableEq ε] in
private theorem alive_of_mem {p : Nat} (hp : p ∈ b.remoteEndpoints) : (b.heap p).isSome :=
  (h.alive p).mpr (h.endpoints.mem_iff.mp hp)

omit [DecidableEq ε] in
private theorem mem_of_alive {p : Nat} {endpoint : ε} (hp : b.heap p = some endpoint) :
    p ∈ b.remoteEndpoints :=
  h.endpoints.mem_iff.mpr ((h.alive p).mp (by rw [hp]; rfl))

private theorem search_eq (endpoint : ε) : search endpoint b.remoteEndpoints b =
    .ok (b.remoteEndpoints.find? fun p => b.heap p = some endpoint) b :=
  search_alive endpoint fun _ hp => h.alive_of_mem hp

private theorem isAccepted_eq (endpoint : ε) : isAccepted endpoint b =
    .ok (b.remoteEndpoints.find? fun p => b.heap p = some endpoint).isSome b := by
  rw [isAccepted, Outcome.get_bind, Outcome.bind_ok (h.search_eq endpoint)]
  rfl

/-- The entry found for the endpoint of a live object is that object's. -/
theorem find_eq {p : Nat} {endpoint : ε} (hp : b.heap p = some endpoint) :
    b.remoteEndpoints.find? (fun q => b.heap q = some endpoint) = some p := by
  cases hf : b.remoteEndpoints.find? fun q => b.heap q = some endpoint with
  | none =>
    rw [List.find?_eq_none] at hf
    exact absurd (decide_eq_true hp) (hf p (h.mem_of_alive hp))
  | some q =>
    have hq := List.find?_some hf
    rw [h.distinct (of_decide_eq_true hq) hp]

omit [DecidableEq ε] in
private theorem alive_of_live {s : AcceptedSocket} (hs : s ∈ b.live) :
    ∃ endpoint, b.heap s.endpoint = some endpoint :=
  Option.isSome_iff_exists.mp ((h.alive _).mpr (List.mem_map_of_mem hs))

/-- What the end of a live socket does to the tables. -/
theorem destroy_eq {s : AcceptedSocket} (hs : s ∈ b.live) (rest : List AcceptedSocket) :
    destroy s { b with live := rest } = .ok () { b with
      heap := Function.update b.heap s.endpoint none
      remoteEndpoints := b.remoteEndpoints.erase s.endpoint
      convs := b.convs.filter (·.1 ≠ s.conv)
      live := rest } := by
  obtain ⟨endpoint, hendpoint⟩ := h.alive_of_live hs
  exact destroy_alive (b := { b with live := rest }) hendpoint (fun p hp => h.alive_of_mem hp)
    (h.find_eq hendpoint)

/-- For a new endpoint from which a socket connected the handler goes on to `get_conv()`. -/
theorem handleReceive_new {endpoint : ε} (hnew : ∀ p, b.heap p ≠ some endpoint) (object address : Nat) :
    handleReceive endpoint .connected object address b = (do
      let conv ← getConv
      modify fun b : Books ε => { b with
        heap := Function.update b.heap object (some endpoint)
        remoteEndpoints := b.remoteEndpoints ++ [object]
        convs := (conv, address) :: b.convs.filter (·.1 ≠ conv)
        live := ⟨address, conv, object⟩ :: b.live }) b := by
  have hfound := h.isAccepted_eq endpoint
  have hnone : b.remoteEndpoints.find? (fun p => b.heap p = some endpoint) = none := by
    rw [List.find?_eq_none]
    intro p _ hp
    exact hnew p (of_decide_eq_true hp)
  rw [hnone] at hfound
  rw [handleReceive, Outcome.bind_ok hfound]
  rfl

/-- It is entered with the free conv found. -/
theorem handleReceive_enters {endpoint : ε} (hnew : ∀ p, b.heap p ≠ some endpoint) {conv : UInt32}
    (hconv : findConv (b.convs.map Prod.fst) (b.convs.length + 1) b.counter = some conv)
    (object address : Nat) :
    handleReceive endpoint .connected object address b = .ok () { b with
      heap := Function.update b.heap object (some endpoint)
      remoteEndpoints := b.remoteEndpoints ++ [object]
      convs := (conv, address) :: b.convs
      counter := conv
      live := ⟨address, conv, object⟩ :: b.live } := by
  have hget : getConv b = .ok conv { b with counter := conv } := by
    rw [getConv, Outcome.get_bind, hconv]
    rfl
  have hkept : b.convs.filter (·.1 ≠ conv) = b.convs := by
    rw [List.filter_eq_self]
    intro x hx
    rw [decide_eq_true_eq]
    rintro rfl
    exact (findConv_fresh hconv).1 (List.mem_map_of_mem hx)
  rw [h.handleReceive_new hnew, Outcome.bind_ok hget]
  change EStateM.Result.ok _ { b with
    heap := _, remoteEndpoints := _, convs := (conv, address) ::
      b.convs.filter (·.1 ≠ conv), counter := _, live := _ } = _
  rw [hkept]

/-- A handler leaves the tables alone, or enters a new endpoint. -/
theorem handleReceive_cases (endpoint : ε) (result : ConnectResult) (object address : Nat) :
    (handleReceive endpoint result object address b = .ok () b ∨
      handleReceive endpoint result object address b = .error .systemError b) ∨
    result = .connected ∧ ∀ p, b.heap p ≠ some endpoint := by
  have hfound := h.isAccepted_eq endpoint
  cases hf : b.remoteEndpoints.find? fun p => b.heap p = some endpoint with
  | some p =>
    rw [hf] at hfound
    left
    left
    unfold handleReceive
    rw [Outcome.bind_ok hfound]
    rfl
  | none =>
    rw [hf] at hfound
    unfold handleReceive
    rw [Outcome.bind_ok hfound]
    cases result with
    | thrown => exact .inl (.inr rfl)
    | refused => exact .inl (.inl rfl)
    | connected =>
      refine .inr ⟨rfl, fun p hp => ?_⟩
      rw [List.find?_eq_none] at hf
      exact hf p (h.mem_of_alive hp) (decide_eq_true hp)

omit [DecidableEq ε] in
/-- Entering a fresh object for a new endpoint under a free conv. -/
theorem enter {endpoint : ε} (hnew : ∀ p, b.heap p ≠ some endpoint) {conv : UInt32}
    (hconv : findConv (b.convs.map Prod.fst) (b.convs.length + 1) b.counter = some conv)
    {object address : Nat}
    (hobject : b.heap object = none) (haddress : address ∉ b.live.map (·.address)) :
    Matches { b with
      heap := Function.update b.heap object (some endpoint)
      remoteEndpoints := b.remoteEndpoints ++ [object]
      convs := (conv, address) :: b.convs
      counter := conv
      live := ⟨address, conv, object⟩ :: b.live } := by
  obtain ⟨hfree, hzero⟩ := findConv_fresh hconv
  have hunlisted : object ∉ b.live.map (·.endpoint) := by
    intro hmem
    have := (h.alive object).mpr hmem
    rw [hobject] at this
    cases this
  refine ⟨?_, ?_, ?_, h.convs.cons _, List.nodup_cons.mpr ⟨hunlisted, h.objects⟩,
    List.nodup_cons.mpr ⟨?_, h.keys⟩,
    List.nodup_cons.mpr ⟨haddress, h.addresses⟩, ?_⟩
  · intro p
    change (Function.update b.heap object (some endpoint) p).isSome ↔ p ∈ object :: b.live.map (·.endpoint)
    by_cases hp : p = object
    · subst hp
      simp
    · rw [Function.update_of_ne hp, h.alive p, List.mem_cons, or_iff_right hp]
  · intro p q here hp hq
    change Function.update b.heap object (some endpoint) p = _ at hp
    change Function.update b.heap object (some endpoint) q = _ at hq
    by_cases hpo : p = object
    · subst hpo
      by_cases hqo : q = p
      · exact hqo.symm
      · rw [Function.update_self] at hp
        rw [Function.update_of_ne hqo, ← hp] at hq
        exact absurd hq (hnew q)
    · rw [Function.update_of_ne hpo] at hp
      by_cases hqo : q = object
      · rw [hqo, Function.update_self] at hq
        rw [← hq] at hp
        exact absurd hp (hnew p)
      · rw [Function.update_of_ne hqo] at hq
        exact h.distinct hp hq
  · exact (List.perm_append_singleton object b.remoteEndpoints).trans (h.endpoints.cons object)
  · intro hmem
    apply hfree
    rw [(h.convs.map Prod.fst).mem_iff, List.map_map]
    exact hmem
  · intro s hs
    rcases List.mem_cons.mp hs with rfl | hs
    · exact hzero
    · exact h.nonzero s hs

omit [DecidableEq ε] in
/-- Taking out one live socket's entries leaves those of the others. -/
theorem leave {i : Nat} {s : AcceptedSocket} (hi : b.live[i]? = some s) :
    Matches { b with
      heap := Function.update b.heap s.endpoint none
      remoteEndpoints := b.remoteEndpoints.erase s.endpoint
      convs := b.convs.filter (·.1 ≠ s.conv)
      live := b.live.eraseIdx i } := by
  obtain ⟨rest, hrest⟩ : ∃ rest, b.live.eraseIdx i = rest := ⟨_, rfl⟩
  have hsplit : b.live.Perm (s :: rest) := by
    obtain ⟨hlt, rfl⟩ := List.getElem?_eq_some_iff.mp hi
    rw [← hrest]
    exact (List.getElem_cons_eraseIdx_perm hlt).symm
  have hobjects := (hsplit.map (·.endpoint)).nodup_iff.mp h.objects
  have hkeys := (hsplit.map (·.conv)).nodup_iff.mp h.keys
  have haddresses := (hsplit.map (·.address)).nodup_iff.mp h.addresses
  rw [List.map_cons, List.nodup_cons] at hobjects hkeys haddresses
  rw [hrest]
  refine ⟨?_, ?_, ?_, ?_, hobjects.2, hkeys.2, haddresses.2, ?_⟩
  · intro p
    change (Function.update b.heap s.endpoint none p).isSome ↔ p ∈ rest.map (·.endpoint)
    by_cases hp : p = s.endpoint
    · subst hp
      rw [Function.update_self]
      exact ⟨(fun hn => nomatch hn), fun hmem => absurd hmem hobjects.1⟩
    · rw [Function.update_of_ne hp, h.alive p, (hsplit.map (·.endpoint)).mem_iff, List.map_cons,
        List.mem_cons,
        or_iff_right hp]
  · intro p q here hp hq
    change Function.update b.heap s.endpoint none p = _ at hp
    change Function.update b.heap s.endpoint none q = _ at hq
    rw [Function.update_apply] at hp hq
    split at hp
    · cases hp
    · split at hq
      · cases hq
      · exact h.distinct hp hq
  · have herase := (h.endpoints.trans (hsplit.map (·.endpoint))).erase s.endpoint
    rw [List.map_cons, List.erase_cons_head] at herase
    exact herase
  · have hfilter := (h.convs.trans (hsplit.map fun t => (t.conv, t.address))).filter (·.1 ≠ s.conv)
    have hkept : (rest.map fun t => (t.conv, t.address)).filter (·.1 ≠ s.conv) = rest.map fun t =>
        (t.conv, t.address) := by
      rw [List.filter_eq_self]
      intro x hx
      obtain ⟨t, ht, rfl⟩ := List.mem_map.mp hx
      rw [decide_eq_true_eq]
      intro hsame
      exact hkeys.1 (hsame ▸ List.mem_map_of_mem ht)
    rw [List.map_cons, List.filter_cons_of_neg (by simp), hkept] at hfilter
    exact hfilter
  · intro t ht
    exact h.nonzero t (hsplit.mem_iff.mpr (List.mem_cons_of_mem s ht))

/-- An event on matching tables returns with matching tables, unless no conv is free. -/
theorem does {e : BooksEvent ε} {r : EStateM.Result Fault (Books ε) Unit} (hdoes : Does b e r) :
    (∃ b', (r = .ok () b' ∨ r = .error .systemError b') ∧ b'.Matches) ∨
      r = .error .diverged b ∧ 2 ^ 32 - 1 ≤ b.live.length := by
  cases e with
  | handle endpoint result object address =>
    obtain ⟨hobject, haddress, rfl⟩ := hdoes
    rcases h.handleReceive_cases endpoint result object address with hsame | ⟨rfl, hnew⟩
    · exact .inl ⟨b, hsame, h⟩
    · cases hconv : findConv (b.convs.map Prod.fst) (b.convs.length + 1) b.counter with
      | some conv =>
        exact .inl ⟨_, .inl (h.handleReceive_enters hnew hconv object address),
          h.enter hnew hconv hobject haddress⟩
      | none =>
        have hget : getConv b = .error .diverged b := by
          rw [getConv, Outcome.get_bind, hconv]
          rfl
        refine .inr ⟨?_, ?_⟩
        · rw [h.handleReceive_new hnew, Outcome.bind_error hget]
        · by_contra hlt
          have hlength : (b.convs.map Prod.fst).length = b.convs.length := List.length_map _
          have hlive : b.convs.length = b.live.length := by rw [h.convs.length_eq, List.length_map]
          obtain ⟨free, hfree⟩ := findConv_ends (b.convs.map Prod.fst) (by omega) b.counter
          rw [hlength, hconv] at hfree
          cases hfree
  | destroy i =>
    obtain ⟨s, hi, rfl⟩ := hdoes
    exact .inl ⟨_, .inl (h.destroy_eq (List.mem_of_getElem? hi) _), h.leave hi⟩
  | elsewhere counter =>
    obtain rfl := hdoes
    exact .inl ⟨_, .inl rfl, h.alive, h.distinct, h.endpoints, h.convs, h.objects, h.keys,
      h.addresses, h.nonzero⟩

theorem step {e : BooksEvent ε} (hstep : Step b e b') : b'.Matches := by
  rcases hstep with hdoes | hdoes
  · rcases h.does hdoes with ⟨b'', heq | heq, hmatches⟩ | ⟨heq, _⟩
    · cases heq
      exact hmatches
    · cases heq
    · cases heq
  · rcases h.does hdoes with ⟨b'', heq | heq, hmatches⟩ | ⟨heq, _⟩
    · cases heq
    · cases heq
      exact hmatches
    · cases heq

/-- The end of one socket leaves the entries of every other. -/
theorem others_stay {i : Nat} (hstep : Step b (.destroy i) b') {t : AcceptedSocket}
    (ht : t ∈ b.live.eraseIdx i) :
    t.endpoint ∈ b'.remoteEndpoints ∧ b'.heap t.endpoint = b.heap t.endpoint ∧
      (t.conv, t.address) ∈ b'.convs := by
  have hafter := h.step hstep
  obtain ⟨s, hlive, hheap⟩ : ∃ s : AcceptedSocket, b'.live = b.live.eraseIdx i ∧
      b'.heap = Function.update b.heap s.endpoint none := by
    rcases hstep with ⟨s, hi, heq⟩ | ⟨s, hi, heq⟩
    · rw [h.destroy_eq (List.mem_of_getElem? hi)] at heq
      cases heq
      exact ⟨s, rfl, rfl⟩
    · rw [h.destroy_eq (List.mem_of_getElem? hi)] at heq
      cases heq
  rw [← hlive] at ht
  obtain ⟨endpoint, hendpoint⟩ := hafter.alive_of_live ht
  refine ⟨hafter.mem_of_alive hendpoint, ?_, hafter.convs.mem_iff.mpr (List.mem_map_of_mem ht)⟩
  rw [hheap, Function.update_apply] at hendpoint ⊢
  split at hendpoint
  · cases hendpoint
  · rename_i hne
    rw [if_neg hne]

omit [DecidableEq ε] in
/-- No two entries point to equal endpoints. -/
theorem values_nodup : (b.remoteEndpoints.map b.heap).Nodup := by
  refine List.Nodup.map_on ?_ (h.endpoints.nodup_iff.mpr h.objects)
  intro p hp q _ heq
  obtain ⟨endpoint, hendpoint⟩ := Option.isSome_iff_exists.mp (h.alive_of_mem hp)
  exact h.distinct hendpoint (heq ▸ hendpoint)

end Matches

omit [DecidableEq ε] in
private theorem matches_nothing (counter : UInt32) : Matches ({ counter := counter } : Books ε) where
  alive _ := ⟨(fun hn => nomatch hn), fun hmem => nomatch hmem⟩
  distinct hp := nomatch hp
  endpoints := .refl []
  convs := .refl []
  objects := List.nodup_nil
  keys := List.nodup_nil
  addresses := List.nodup_nil
  nonzero _ hs := nomatch hs

end Books

open Books in
/-- In every run the tables of the acceptor list exactly the live sockets. No
event follows a pointer to a dead object, and every event returns or ends in an
exception of a socket call while a conv is free. -/
theorem kcp_acceptor_books {ε : Type} [DecidableEq ε] {counter : UInt32}
    {events : List (BooksEvent ε)} {b : Books ε}
    (hrun : Run Books.Step { counter := counter } events b) :
    (b.remoteEndpoints.map b.heap).Nodup ∧
    b.remoteEndpoints.Perm (b.live.map (·.endpoint)) ∧
      (∀ p, (b.heap p).isSome ↔ p ∈ b.live.map (·.endpoint)) ∧
    b.convs.Perm (b.live.map fun s => (s.conv, s.address)) ∧
    (b.live.map (·.conv)).Nodup ∧ (b.live.map (·.address)).Nodup ∧ (∀ s ∈ b.live, s.conv ≠ 0) ∧
    (∀ i b', Books.Step b (.destroy i) b' → ∀ t ∈ b.live.eraseIdx i,
      t.endpoint ∈ b'.remoteEndpoints ∧ b'.heap t.endpoint = b.heap t.endpoint ∧
        (t.conv, t.address) ∈ b'.convs) ∧
    ∀ e r, Does b e r → (∃ b', r = .ok () b' ∨ r = .error .systemError b') ∨
      r = .error .diverged b ∧ 2 ^ 32 - 1 ≤ b.live.length := by
  have h : b.Matches := hrun.invariant (I := Matches) (fun h hstep => h.step hstep) (matches_nothing counter)
  refine ⟨h.values_nodup, h.endpoints, h.alive, h.convs, h.keys, h.addresses, h.nonzero,
    fun i b' hstep t ht => h.others_stay hstep ht, ?_⟩
  intro e r hdoes
  rcases h.does hdoes with ⟨b', hret, _⟩ | hdiverged
  · exact .inl ⟨b', hret⟩
  · exact .inr hdiverged

open Books in
/-- Two sockets are accepted, the first dies, its endpoint comes back at the freed address. -/
theorem kcp_acceptor_books_reused : ∃ b : Books Nat,
    Run Books.Step { counter := 0 }
      [.handle 7 .connected 1 1, .handle 8 .connected 2 2, .handle 7 .refused 3 3,
      .destroy 1, .handle 7 .connected 1 1] b ∧ b.live = [⟨1, 3, 1⟩, ⟨2, 2, 2⟩] ∧
      b.convs.Perm [(3, 1), (2, 2)] := by
  have hrun : ∃ b : Books Nat, Run Books.Step { counter := 0 }
    [.handle 7 .connected 1 1, .handle 8 .connected 2 2,
      .handle 7 .refused 3 3, .destroy 1, .handle 7 .connected 1 1] b ∧ b.live = [⟨1, 3, 1⟩, ⟨2, 2, 2⟩] :=
    ⟨_, .cons (.inl ⟨rfl, List.not_mem_nil, rfl⟩)
      (.cons (.inl ⟨rfl, by decide, rfl⟩) (.cons (.inl ⟨rfl, by decide, rfl⟩)
      (.cons (.inl ⟨_, rfl, rfl⟩) (.cons (.inl ⟨rfl, by decide, rfl⟩) (.nil _))))), rfl⟩
  obtain ⟨b, hrun, hlive⟩ := hrun
  have hconvs := (kcp_acceptor_books hrun).2.2.2.1
  rw [hlive] at hconvs
  exact ⟨b, hrun, hlive, hconvs⟩

end SimpleNetwork
