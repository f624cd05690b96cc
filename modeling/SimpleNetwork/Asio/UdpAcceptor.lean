import SimpleNetwork.Asio.Acceptor

/-! `udp::acceptor`. It keeps one receive outstanding until a receive fails or an
exception leaves its handler. -/
namespace SimpleNetwork
open Runs Outcome

/-- What the application does in `on_connected`: whether it keeps the socket, and
what exception leaves it. -/
structure Adoption where
  keeps : Bool := true
  exception : Option Fault := none

/-- The acceptor with its outstanding receives and the endpoints of its live sockets.
The record of finished handlers is ghost state. -/
structure UdpAcceptor (ε : Type) where
  armed : Nat := 0
  performed : List ε := []
  remoteEndpoint : ε
  remoteEndpoints : List ε := []
  live : List ε := []
  handled : List (Handled ε) := []

namespace UdpAcceptor
variable {ε : Type} [DecidableEq ε]

def outstanding (a : UdpAcceptor ε) : Nat := a.armed + a.performed.length

def isAccepted (a : UdpAcceptor ε) (endpoint : ε) : Bool := a.remoteEndpoints.any (· = endpoint)

def doAccept : EStateM Fault (UdpAcceptor ε) Unit := modify fun a => { a with armed := a.armed + 1 }

def listen : EStateM Fault (UdpAcceptor ε) Unit := doAccept

def close (endpoint : ε) (a : UdpAcceptor ε) : UdpAcceptor ε :=
  { a with remoteEndpoints := a.remoteEndpoints.erase endpoint }

def record (entry : Handled ε) : EStateM Fault (UdpAcceptor ε) Unit :=
  modify fun a => { a with handled := a.handled ++ [entry] }

/-- A socket for a new endpoint. One that the application does not keep is destroyed
before the next receive is started. -/
def accept (entry : Handled ε) (endpoint : ε) (adoption : Adoption) : EStateM Fault (UdpAcceptor ε) Unit := do
  modify fun b => { b with remoteEndpoints := b.remoteEndpoints ++ [endpoint] }
  record { entry with accepted := some endpoint }
  if adoption.keeps then modify fun b => { b with live := b.live ++ [endpoint] }
  else modify (close endpoint)
  match adoption.exception with
  | some fault => throw fault
  | none => doAccept

def entry (a : UdpAcceptor ε) (sender : ε) (result : ConnectResult) : Handled ε :=
  ⟨sender, a.remoteEndpoint, decide (sender ∈ a.remoteEndpoints), result, none⟩

def handleReceive (sender : ε) (result : ConnectResult) (adoption : Adoption) :
    EStateM Fault (UdpAcceptor ε) Unit := do
  let a ← get
  if a.isAccepted a.remoteEndpoint then
    record (a.entry sender result)
    doAccept
  else
    match result with
    | .thrown =>
      record (a.entry sender result)
      throw .systemError
    | .refused =>
      record (a.entry sender result)
      doAccept
    | .connected => accept (a.entry sender result) a.remoteEndpoint adoption

end UdpAcceptor

/-- Events at a listening acceptor: a receive is performed, the handler of a performed
receive runs, a receive ends in an error, an accepted socket is destroyed. -/
inductive UdpAcceptorEvent (ε : Type) where
  | arrive (sender : ε)
  | handle (i : Nat) (result : ConnectResult) (adoption : Adoption)
  | fail
  | destroy (i : Nat)

namespace UdpAcceptor
variable {ε : Type} [DecidableEq ε] {a b : UdpAcceptor ε}

def Does (a : UdpAcceptor ε) : UdpAcceptorEvent ε → EStateM.Result Fault (UdpAcceptor ε) Unit → Prop
  | .arrive sender, r => 0 < a.armed ∧
      r = .ok () { a with armed := a.armed - 1, performed := a.performed ++ [sender], remoteEndpoint := sender }
  | .handle i result adoption, r => ∃ sender, a.performed[i]? = some sender ∧
      r = handleReceive sender result adoption { a with performed := a.performed.eraseIdx i }
  | .fail, r => 0 < a.armed ∧ r = .ok () { a with armed := a.armed - 1 }
  | .destroy i, r =>
    ∃ endpoint, a.live[i]? = some endpoint ∧
      r = .ok () (close endpoint { a with live := a.live.eraseIdx i })

/-- An event, also when an exception leaves it. -/
def Step (a : UdpAcceptor ε) (e : UdpAcceptorEvent ε) (b : UdpAcceptor ε) : Prop :=
  Does a e (.ok () b) ∨ ∃ fault, Does a e (.error fault b)

def Smooth (a : UdpAcceptor ε) (e : UdpAcceptorEvent ε) (b : UdpAcceptor ε) : Prop :=
  Does a e (.ok () b) ∧ e ≠ .fail

/-- The endpoints of the live sockets are in the table, and no request was lost or misattributed. -/
structure Ledger (a : UdpAcceptor ε) : Prop where
  distinct : a.remoteEndpoints.Nodup
  books : a.live.Perm a.remoteEndpoints
  attributed : ∀ h ∈ a.handled, h.Attributed
  served : ∀ h ∈ a.handled, h.Served

structure Fine (a : UdpAcceptor ε) : Prop extends Ledger a where
  single : a.outstanding ≤ 1
  current : ∀ sender ∈ a.performed, a.remoteEndpoint = sender

omit [DecidableEq ε] in
theorem Ledger.recorded (h : Ledger a) (entry : Handled ε) (hattributed : entry.Attributed)
    (hserved : entry.Served) :
    Ledger { a with handled := a.handled ++ [entry] } := by
  refine ⟨h.distinct, h.books, fun x hx => ?_, fun x hx => ?_⟩
  · rcases List.mem_append.mp hx with hx | hx
    · exact h.attributed x hx
    · exact List.mem_singleton.mp hx ▸ hattributed
  · rcases List.mem_append.mp hx with hx | hx
    · exact h.served x hx
    · exact List.mem_singleton.mp hx ▸ hserved

theorem Ledger.destroyed (h : Ledger a) {i : Nat} {endpoint : ε} (hi : a.live[i]? = some endpoint) :
    Ledger (close endpoint { a with live := a.live.eraseIdx i }) := by
  obtain ⟨hlt, hget⟩ := List.getElem?_eq_some_iff.mp hi
  have hlive : (endpoint :: a.live.eraseIdx i).Perm a.live := hget ▸ List.getElem_cons_eraseIdx_perm hlt
  have hmem : endpoint ∈ a.remoteEndpoints := h.books.mem_iff.mp (List.mem_of_getElem? hi)
  refine ⟨h.distinct.erase endpoint, ?_, h.attributed, h.served⟩
  exact List.Perm.cons_inv ((hlive.trans h.books).trans (List.perm_cons_erase hmem))

/-- What holds when a handler has run: the books are right, and a receive is outstanding
if and only if no exception left it. -/
def Ran (r : EStateM.Result Fault (UdpAcceptor ε) Unit) : Prop :=
  match r with
  | .ok _ b => Ledger b ∧ b.armed = 1 ∧ b.performed = []
  | .error _ b => Ledger b ∧ b.armed = 0 ∧ b.performed = []

theorem Ledger.accepts (h : Ledger a) (harmed : a.armed = 0) (hperformed : a.performed = [])
    (entry : Handled ε)
    (hnew : entry.sender ∉ a.remoteEndpoints) (hattributed : entry.Attributed) (adoption : Adoption) :
    Ran (accept entry entry.sender adoption a) := by
  have hentry : Ledger { a with handled := a.handled ++ [{ entry with accepted := some entry.sender }] } :=
    h.recorded _ hattributed fun _ _ => rfl
  have hkept : Ledger { a with
      handled := a.handled ++ [{ entry with accepted := some entry.sender }]
      remoteEndpoints := a.remoteEndpoints ++ [entry.sender]
      live := a.live ++ [entry.sender] } := by
    refine ⟨?_, h.books.append_right _, hentry.attributed, hentry.served⟩
    refine List.nodup_append.mpr ⟨h.distinct, List.nodup_singleton _, fun x hx y hy hxy => hnew ?_⟩
    rw [← List.mem_singleton.mp hy, ← hxy]
    exact hx
  have hdropped : (a.remoteEndpoints ++ [entry.sender]).erase entry.sender = a.remoteEndpoints := by
    rw [List.erase_append_right _ hnew, List.erase_cons_head, List.append_nil]
  have hreturned : Ledger { a with
      handled := a.handled ++ [{ entry with accepted := some entry.sender }]
      remoteEndpoints := (a.remoteEndpoints ++ [entry.sender]).erase entry.sender } := by
    rw [hdropped]
    exact hentry
  have hagain : a.armed + 1 = 1 := by rw [harmed]
  obtain ⟨keeps, exception⟩ := adoption
  cases keeps with
  | true =>
    cases exception with
    | none => exact ⟨⟨hkept.distinct, hkept.books, hkept.attributed, hkept.served⟩, hagain, hperformed⟩
    | some fault => exact ⟨hkept, harmed, hperformed⟩
  | false =>
    cases exception with
    | none =>
      exact ⟨⟨hreturned.distinct, hreturned.books, hreturned.attributed, hreturned.served⟩,
        hagain, hperformed⟩
    | some fault => exact ⟨hreturned, harmed, hperformed⟩

/-- A handler that runs when no receive is outstanding finds its own sender. -/
theorem Ledger.handles (h : Ledger a) (harmed : a.armed = 0) (hperformed : a.performed = [])
    (result : ConnectResult) (adoption : Adoption) :
    Ran (handleReceive a.remoteEndpoint result adoption a) := by
  have hagain : a.armed + 1 = 1 := by rw [harmed]
  rw [handleReceive, get_bind]
  by_cases hknown : a.isAccepted a.remoteEndpoint = true
  · have hmem : a.remoteEndpoint ∈ a.remoteEndpoints := by
      obtain ⟨x, hx, heq⟩ := List.any_eq_true.mp hknown
      exact of_decide_eq_true heq ▸ hx
    rw [if_pos hknown]
    have hentry := h.recorded (a.entry a.remoteEndpoint result) rfl fun hnew =>
      absurd hmem (of_decide_eq_false hnew)
    exact ⟨⟨hentry.distinct, hentry.books, hentry.attributed, hentry.served⟩, hagain, hperformed⟩
  · have hnew : a.remoteEndpoint ∉ a.remoteEndpoints :=
      fun hmem => hknown (List.any_eq_true.mpr ⟨_, hmem, decide_eq_true rfl⟩)
    have hleft (hne : result ≠ .connected) :=
      h.recorded (a.entry a.remoteEndpoint result) rfl fun _ hc => absurd hc hne
    rw [if_neg hknown]
    cases result with
    | thrown => exact ⟨hleft (by decide), harmed, hperformed⟩
    | refused =>
      have hentry := hleft (by decide)
      exact ⟨⟨hentry.distinct, hentry.books, hentry.attributed, hentry.served⟩, hagain, hperformed⟩
    | connected => exact h.accepts harmed hperformed (a.entry a.remoteEndpoint .connected) hnew rfl adoption

omit [DecidableEq ε] in
/-- Where a handler waits, it is the only one, and no receive is armed. -/
theorem Fine.waiting (h : Fine a) {i : Nat} {sender : ε} (hget : a.performed[i]? = some sender) :
    i = 0 ∧ a.performed = [sender] ∧ a.armed = 0 ∧ a.remoteEndpoint = sender := by
  have hsingle := h.single
  obtain ⟨hlt, hi⟩ := List.getElem?_eq_some_iff.mp hget
  unfold outstanding at hsingle
  obtain ⟨x, hx⟩ := List.length_eq_one_iff.mp (show a.performed.length = 1 by omega)
  obtain rfl : i = 0 := by omega
  obtain rfl : x = sender := by simpa [hx] using hi
  exact ⟨rfl, hx, by omega, h.current x (hx ▸ List.mem_singleton_self x)⟩

omit [DecidableEq ε] in
private theorem Fine.of_ran {c : UdpAcceptor ε} (h : Ledger c) (hone : c.armed ≤ 1)
    (hnone : c.performed = []) : Fine c where
  toLedger := h
  single := by
    rw [outstanding, hnone]
    exact hone
  current sender hs := by
    rw [hnone] at hs
    exact absurd hs List.not_mem_nil

/-- The invariant stays, and what is outstanding stays as long as no exception leaves a
handler and no receive fails. -/
def Kept (a : UdpAcceptor ε) (e : UdpAcceptorEvent ε) : EStateM.Result Fault (UdpAcceptor ε) Unit → Prop
  | .ok _ b => Fine b ∧ (e ≠ .fail → b.outstanding = a.outstanding)
  | .error _ b => Fine b ∧ b.outstanding = 0

theorem Fine.does (h : Fine a) {e : UdpAcceptorEvent ε}
    {r : EStateM.Result Fault (UdpAcceptor ε) Unit} (hdoes : Does a e r) :
    Kept a e r := by
  cases e with
  | arrive sender =>
    obtain ⟨harmed, rfl⟩ := hdoes
    have hsingle := h.single
    unfold outstanding at hsingle
    have hnone : a.performed = [] := List.eq_nil_of_length_eq_zero (by omega)
    have hsame : a.armed - 1 + (a.performed ++ [sender]).length = a.armed + a.performed.length := by
      rw [List.length_append, List.length_singleton]
      omega
    refine ⟨⟨⟨h.distinct, h.books, h.attributed, h.served⟩,
      Nat.le_trans (Nat.le_of_eq hsame) hsingle, fun x hx => ?_⟩, fun _ => hsame⟩
    change x ∈ a.performed ++ [sender] at hx
    rw [hnone] at hx
    exact (List.mem_singleton.mp hx).symm
  | handle i result adoption =>
    obtain ⟨sender, hget, rfl⟩ := hdoes
    obtain ⟨rfl, hone, harmed, rfl⟩ := h.waiting hget
    have hran := Ledger.handles (a := { a with performed := a.performed.eraseIdx 0 })
      ⟨h.distinct, h.books, h.attributed, h.served⟩
      harmed (by rw [hone]; rfl) result adoption
    have hbefore : a.outstanding = 1 := by rw [outstanding, harmed, hone]; rfl
    change Ran (handleReceive a.remoteEndpoint result adoption _) at hran
    cases hr : handleReceive a.remoteEndpoint result adoption
      { a with performed := a.performed.eraseIdx 0 } with
    | ok u b =>
      rw [hr] at hran
      obtain ⟨hledger, hone', hnone⟩ := hran
      exact ⟨.of_ran hledger (Nat.le_of_eq hone') hnone, fun _ => by
        rw [hbefore, outstanding, hone', hnone]; rfl⟩
    | error fault b =>
      rw [hr] at hran
      obtain ⟨hledger, hzero, hnone⟩ := hran
      exact ⟨.of_ran hledger (hzero ▸ Nat.zero_le 1) hnone, by rw [outstanding, hzero, hnone]; rfl⟩
  | fail =>
    obtain ⟨harmed, rfl⟩ := hdoes
    have hsingle := h.single
    unfold outstanding at hsingle
    refine ⟨⟨⟨h.distinct, h.books, h.attributed, h.served⟩, ?_, h.current⟩, fun hne => absurd rfl hne⟩
    change a.armed - 1 + a.performed.length ≤ 1
    omega
  | destroy i =>
    obtain ⟨endpoint, hi, rfl⟩ := hdoes
    exact ⟨⟨h.toLedger.destroyed hi, h.single, h.current⟩, fun _ => rfl⟩

/-- Without an outstanding receive nothing happens but that sockets are destroyed. -/
theorem deaf_step {e : UdpAcceptorEvent ε} (h : a.outstanding = 0) (hstep : Step a e b) :
    b.outstanding = 0 ∧ b.handled = a.handled := by
  unfold outstanding at h
  have hnone : a.performed = [] := List.eq_nil_of_length_eq_zero (by omega)
  have hidle {r : EStateM.Result Fault (UdpAcceptor ε) Unit} (hdoes : Does a e r) :
      ∃ i endpoint, r = .ok () (close endpoint { a with live := a.live.eraseIdx i }) := by
    cases e with
    | arrive sender => exact absurd hdoes.1 (by omega)
    | handle i result adoption =>
      obtain ⟨sender, hget, -⟩ := hdoes
      rw [hnone] at hget
      cases hget
    | fail => exact absurd hdoes.1 (by omega)
    | destroy i =>
      obtain ⟨endpoint, -, hr⟩ := hdoes
      exact ⟨i, endpoint, hr⟩
  rcases hstep with hdoes | ⟨fault, hdoes⟩ <;> obtain ⟨i, endpoint, hr⟩ := hidle hdoes <;> cases hr
  exact ⟨h, rfl⟩

theorem Fine.step {e : UdpAcceptorEvent ε} (h : Fine a) (hstep : Step a e b) : Fine b := by
  rcases hstep with hdoes | ⟨fault, hdoes⟩
  · exact (h.does hdoes).1
  · exact (h.does hdoes).1

/-- An event that is not smooth leaves nothing outstanding. -/
theorem Fine.ends {e : UdpAcceptorEvent ε} (h : Fine a) (hstep : Step a e b)
    (hrough : ¬ Smooth a e b) : b.outstanding = 0 := by
  rcases hstep with hdoes | ⟨fault, hdoes⟩
  · have hfail : e = .fail := by_contra fun hne => hrough ⟨hdoes, hne⟩
    subst hfail
    obtain ⟨harmed, hb⟩ := hdoes
    cases hb
    have hsingle := h.single
    unfold outstanding at hsingle ⊢
    change a.armed - 1 + a.performed.length = 0
    omega
  · exact (h.does hdoes).2

private theorem Fine.smooth {e : UdpAcceptorEvent ε} (h : Fine a) (hstep : Smooth a e b) :
    Fine b ∧ b.outstanding = a.outstanding := by
  have hkept : Kept a e (.ok () b) := h.does hstep.1
  exact ⟨hkept.1, hkept.2 hstep.2⟩

omit [DecidableEq ε] in
private theorem fine_of_listen {start : ε} :
    Fine ({ armed := 1, remoteEndpoint := start } : UdpAcceptor ε) where
  distinct := List.nodup_nil
  books := .refl _
  attributed _ hx := absurd hx List.not_mem_nil
  served _ hx := absurd hx List.not_mem_nil
  single := Nat.le_refl 1
  current _ hx := absurd hx List.not_mem_nil

end UdpAcceptor

open UdpAcceptor in
/-- Over udp no request is lost or misattributed. Whatever arrives and whatever the
application does with the sockets, each handler sees the sender of its own datagram and
accepts a new endpoint, `remote_endpoints_` are those of the live sockets, and exactly one
receive is outstanding until a receive fails or an exception leaves a handler. After
that nothing is received any more. -/
theorem udp_acceptor_requests {ε : Type} [DecidableEq ε] (start : ε) {listening : UdpAcceptor ε}
    (hlisten : UdpAcceptor.listen { remoteEndpoint := start } = .ok () listening) :
    (∀ events a, Run Step listening events a → a.outstanding ≤ 1 ∧ a.remoteEndpoints.Nodup ∧
      a.live.Perm a.remoteEndpoints ∧
      ∀ h ∈ a.handled, h.Attributed ∧ h.Served) ∧
    (∀ events a, Run Smooth listening events a → a.outstanding = 1) ∧
    ∀ events a e b, Run Step listening events a → Step a e b → ¬ Smooth a e b →
      ∀ later c, Run Step b later c → c.handled = b.handled := by
  cases hlisten
  have hfine {events : List (UdpAcceptorEvent ε)} {a : UdpAcceptor ε}
      (hrun : Run Step ({ armed := 1, remoteEndpoint := start } : UdpAcceptor ε) events a) : Fine a :=
    hrun.invariant (fun h hstep => h.step hstep) fine_of_listen
  refine ⟨fun events a hrun => ?_, fun events a hrun => ?_,
    fun events a e b hrun hstep hrough later c hlater => ?_⟩
  · have h := hfine hrun
    exact ⟨h.single, h.distinct, h.books, fun x hx => ⟨h.attributed x hx, h.served x hx⟩⟩
  · have h : Fine a ∧ a.outstanding = 1 := hrun.invariant (I := fun a => Fine a ∧ a.outstanding = 1)
      (fun h hstep => ⟨(h.1.smooth hstep).1, (h.1.smooth hstep).2.trans h.2⟩) ⟨fine_of_listen, rfl⟩
    exact h.2
  · have h : c.outstanding = 0 ∧ c.handled = b.handled :=
      hlater.invariant (I := fun c => c.outstanding = 0 ∧ c.handled = b.handled)
      (fun h hstep => ⟨(deaf_step h.1 hstep).1, (deaf_step h.1 hstep).2.trans h.2⟩)
        ⟨(hfine hrun).ends hstep hrough, rfl⟩
    exact h.2

open UdpAcceptor in
/-- The datagrams that `kcp::acceptor` mixes up, on numbered endpoints: both are accepted. -/
theorem udp_acceptor_requests_numbered : ∃ listening a : UdpAcceptor Nat,
    UdpAcceptor.listen { remoteEndpoint := 0 } = .ok () listening ∧
    Run Step listening [.arrive 1, .handle 0 .connected {}, .arrive 2, .handle 0 .connected {}] a ∧
    a.remoteEndpoints = [1, 2] ∧ a.outstanding ≤ 1 := by
  have hrun : Run Step ({ armed := 1, remoteEndpoint := 0 } : UdpAcceptor Nat)
      [.arrive 1, .handle 0 .connected {}, .arrive 2, .handle 0 .connected {}] _ :=
    .cons (.inl ⟨by decide, rfl⟩) (.cons (.inl ⟨1, rfl, rfl⟩)
      (.cons (.inl ⟨by decide, rfl⟩) (.cons (.inl ⟨2, rfl, rfl⟩) (.nil _))))
  exact ⟨_, _, rfl, hrun, rfl, ((udp_acceptor_requests 0 rfl).1 _ _ hrun).1⟩

end SimpleNetwork
