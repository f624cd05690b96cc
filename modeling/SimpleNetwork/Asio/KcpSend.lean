import SimpleNetwork.Asio.Datagram

/-! `kcp::socket::do_write`: the ring goes to KCP in one or two messages, and each
is removed from the ring whatever `ikcp_send` answers. -/
namespace SimpleNetwork
open Outcome Words

namespace Ikcp
variable {κ : Type} (K : Ikcp κ)

/-- `ikcp_send` takes a message whole and answers with no negative number, or
takes nothing and answers with a negative one. -/
structure AllOrNothing (taken : κ → List UInt8) : Prop where
  accepts : ∀ {block bytes}, 0 ≤ (K.send block bytes).1 → taken (K.send block bytes).2 = taken block ++ bytes
  refuses : ∀ {block bytes}, (K.send block bytes).1 < 0 → taken (K.send block bytes).2 = taken block

def offer (block : κ) (messages : List (List UInt8)) : κ :=
  messages.foldl (fun block bytes => (K.send block bytes).2) block

private theorem offer_one (block : κ) (message : List UInt8) :
    K.offer block [message] = (K.send block message).2 := rfl

/-- None of the messages is refused. -/
inductive TakesAll : κ → List (List UInt8) → Prop
  | nil {block : κ} : TakesAll block []
  | cons {block : κ} {message : List UInt8} {messages : List (List UInt8)} (htakes : 0 ≤ (K.send block message).1)
      (hrest : TakesAll (K.send block message).2 messages) : TakesAll block (message :: messages)

private theorem takesAll_cons {block : κ} {message : List UInt8} {messages : List (List UInt8)} :
    K.TakesAll block (message :: messages) ↔ 0 ≤ (K.send block message).1 ∧
      K.TakesAll (K.send block message).2 messages := by
  constructor
  · intro h
    cases h with
    | cons htakes hrest => exact ⟨htakes, hrest⟩
  · exact fun h => .cons h.1 h.2

variable {K} {taken : κ → List UInt8} (hK : K.AllOrNothing taken)
include hK

/-- The bytes taken are some of those offered, and all of them only if no message is refused. -/
theorem AllOrNothing.taken_offer (block : κ) {messages : List (List UInt8)} (hne : ∀ m ∈ messages, m ≠ []) :
    ∃ accepted, taken (K.offer block messages) = taken block ++ accepted ∧
      accepted.length ≤ messages.flatten.length ∧
      (accepted = messages.flatten ↔ K.TakesAll block messages) := by
  induction messages generalizing block with
  | nil => exact ⟨[], (List.append_nil _).symm, Nat.le_refl _, iff_of_true rfl .nil⟩
  | cons message messages ih =>
    obtain ⟨accepted, htaken, hlen, hiff⟩ :=
      ih (K.send block message).2 fun m hm => hne m (List.mem_cons_of_mem _ hm)
    have hpos := List.length_pos_iff.mpr (hne message List.mem_cons_self)
    have hoffer : K.offer block (message :: messages) = K.offer (K.send block message).2 messages := rfl
    rw [hoffer, htaken, List.flatten_cons, List.length_append, takesAll_cons]
    rcases lt_or_ge (K.send block message).1 0 with hrefused | haccepted
    · refine ⟨accepted, by rw [hK.refuses hrefused], by omega, iff_of_false (fun hall => ?_) fun hboth => ?_⟩
      · rw [hall, List.length_append] at hlen
        omega
      · exact absurd hboth.1 (not_le.mpr hrefused)
    · refine ⟨message ++ accepted, by rw [hK.accepts haccepted, List.append_assoc], ?_, ?_⟩
      · rw [List.length_append]
        omega
      · rw [List.append_cancel_left_eq, hiff, and_iff_right haccepted]

end Ikcp

/-- The messages of one `do_write`: the run at `get_start()`, and the rest of the ring if there is one. -/
def Circle.offered (c : Circle) : List (List UInt8) :=
  [c.contents.take c.getContinguiousCount.toNat, c.contents.drop c.getContinguiousCount.toNat].filter (· ≠ [])

private theorem Circle.flatten_offered (c : Circle) : c.offered.flatten = c.contents := by
  have hjoin := List.take_append_drop c.getContinguiousCount.toNat c.contents
  have hflat (ms : List (List UInt8)) : (ms.filter (· ≠ [])).flatten = ms.flatten := by
    induction ms with
    | nil => rfl
    | cons m ms ih =>
      by_cases hm : m = []
      · rw [List.filter_cons_of_neg (by simpa using hm), ih, hm]
        rfl
      · rw [List.filter_cons_of_pos (by simpa using hm), List.flatten_cons, ih, List.flatten_cons]
  rw [offered, hflat, List.flatten_cons, List.flatten_cons, List.flatten_nil, List.append_nil, hjoin]

private theorem Circle.offered_ne_nil (c : Circle) : ∀ m ∈ c.offered, m ≠ [] :=
  fun _ hm => of_decide_eq_true (List.mem_filter.mp hm).2

/-- No more messages than bytes. -/
theorem Circle.length_offered (c : Circle) : c.offered.length ≤ c.contents.length := by
  have hlen (ms : List (List UInt8)) (hne : ∀ m ∈ ms, m ≠ []) : ms.length ≤ ms.flatten.length := by
    induction ms with
    | nil => exact Nat.le_refl _
    | cons m ms ih =>
      have hpos := List.length_pos_iff.mpr (hne m List.mem_cons_self)
      have hmore := ih fun m hm => hne m (List.mem_cons_of_mem _ hm)
      rw [List.flatten_cons, List.length_append, List.length_cons]
      omega
  have hall := hlen c.offered c.offered_ne_nil
  rw [c.flatten_offered] at hall
  exact hall

private theorem Circle.Valid.offered_lt {c : Circle} (h : c.Valid) :
    c.offered.length < c.getCount.toNat + 1 := by
  have hall := c.length_offered
  rw [h.length_contents] at hall
  exact Nat.lt_succ_of_le hall

private theorem Circle.offered_nil {c : Circle} (hnil : c.contents = []) : c.offered = [] := by
  rw [offered, hnil, List.take_nil, List.drop_nil]
  rfl

section Offered
variable {c : Circle} (h : c.Valid) (hne : c.contents ≠ [])
include h hne

private theorem Circle.run_ne_nil : c.contents.take c.getContinguiousCount.toNat ≠ [] := by
  have hrun := h.toNat_startRun
  have hhead := h.head_lt
  have hpos := List.length_pos_iff.mpr hne
  refine List.length_pos_iff.mp ?_
  rw [List.length_take]
  omega

private theorem Circle.offered_one (hrest : c.contents.drop c.getContinguiousCount.toNat = []) :
    c.offered = [c.contents.take c.getContinguiousCount.toNat] := by
  rw [offered, hrest, List.filter_cons_of_pos (by simpa using run_ne_nil h hne)]
  rfl

private theorem Circle.offered_two (hrest : c.contents.drop c.getContinguiousCount.toNat ≠ []) :
    c.offered = [c.contents.take c.getContinguiousCount.toNat,
      c.contents.drop c.getContinguiousCount.toNat] := by
  rw [offered, List.filter_cons_of_pos (by simpa using run_ne_nil h hne),
    List.filter_cons_of_pos (by simpa using hrest)]
  rfl

end Offered

namespace Connection
variable {κ : Type} (K : Ikcp κ) {s : Sock Circle κ}

def handedOver (s : Sock Circle κ) (c : Circle) (block : κ) : Sock Circle κ :=
  { s with sendBuff := c, socket := { s.socket with kcp := some block } }

theorem handedOver_same {block : κ} (hk : s.socket.kcp = some block) : s.handedOver s.sendBuff block = s := by
  rw [handedOver, ← hk]

theorem doWrite_kcp (cb : Callbacks Circle κ) (s : Sock Circle κ) :
    doWrite .kcp K cb s = doWriteKcp K (s.sendBuff.getCount.toNat + 1) s := by
  rw [doWrite, get_bind]

theorem doWriteKcp_empty (fuel : Nat) (h : s.sendBuff.Valid) (hnil : s.sendBuff.contents = []) :
    doWriteKcp K (fuel + 1) s = .ok () s := by
  have hzero : ¬ s.sendBuff.getCount > 0 := by
    rw [h.getCount_eq_zero.mpr hnil]
    decide
  rw [doWriteKcp, get_bind]
  cases hk : s.socket.kcp with
  | none => exact pure_run _ _
  | some block =>
    change (if s.sendBuff.getCount > 0 then _ else _ : EStateM Fault (Sock Circle κ) Unit) s = _
    rw [if_neg hzero]
    exact pure_run _ _

/-- One message: the run at `get_start()`, which is removed. -/
theorem doWriteKcp_message (fuel : Nat) (h : s.sendBuff.Valid) {block : κ} (hk : s.socket.kcp = some block)
    (hne : s.sendBuff.contents ≠ []) {c : Circle}
    (hremove : Circle.remove s.sendBuff.getContinguiousCount s.sendBuff = .ok () c) :
    doWriteKcp K (fuel + 1) s = doWriteKcp K fuel (s.handedOver c
      (K.send block (s.sendBuff.contents.take s.sendBuff.getContinguiousCount.toNat)).2) := by
  have hpos : s.sendBuff.getCount > 0 := UInt64.pos_iff_ne_zero.mpr (mt h.getCount_eq_zero.mp hne)
  have hpeek := Circle.peekStart_spec h (Nat.le_refl s.sendBuff.getContinguiousCount.toNat)
  rw [doWriteKcp, get_bind, hk]
  change (if s.sendBuff.getCount > 0 then _ else _ : EStateM Fault (Sock Circle κ) Unit) s = _
  rw [if_pos hpos, bind_ok (send_ok hpeek), socketDo, modify_bind]
  exact bind_ok (send_ok hremove)

/-- `do_write` sends the messages it offers and leaves an empty ring. -/
theorem doWriteKcp_offers {fuel : Nat} (h : s.sendBuff.Valid) {block : κ} (hk : s.socket.kcp = some block)
    (hfuel : s.sendBuff.offered.length < fuel) :
    ∃ c, doWriteKcp K fuel s = .ok () (s.handedOver c (K.offer block s.sendBuff.offered)) ∧
      c.contents = [] := by
  obtain ⟨fuel, rfl⟩ : ∃ m, fuel = m + 1 := ⟨fuel - 1, by omega⟩
  by_cases hnil : s.sendBuff.contents = []
  · refine ⟨s.sendBuff, ?_, hnil⟩
    rw [Circle.offered_nil hnil, doWriteKcp_empty K fuel h hnil]
    exact congrArg _ (handedOver_same hk).symm
  obtain ⟨n, hn⟩ : ∃ n, n = s.sendBuff.getContinguiousCount.toNat := ⟨_, rfl⟩
  obtain ⟨c, hremove, hv, hc, hrun⟩ := Circle.remove_run h
  rw [doWriteKcp_message K fuel h hk hnil hremove]
  rw [← hn] at hc hrun ⊢
  obtain ⟨next, hnext⟩ : ∃ next, next = (K.send block (s.sendBuff.contents.take n)).2 := ⟨_, rfl⟩
  rw [← hnext]
  by_cases hrest : s.sendBuff.contents.drop n = []
  · have hone := Circle.offered_one h hnil (by rw [← hn]; exact hrest)
    rw [← hn] at hone
    rw [hone] at hfuel ⊢
    obtain ⟨fuel, rfl⟩ : ∃ m, fuel = m + 1 := ⟨fuel - 1, by rw [List.length_singleton] at hfuel; omega⟩
    refine ⟨c, ?_, hc.trans hrest⟩
    rw [doWriteKcp_empty (s := s.handedOver c next) K fuel hv (hc.trans hrest), hnext]
    rfl
  · have htwo := Circle.offered_two h hnil (by rw [← hn]; exact hrest)
    rw [← hn] at htwo
    rw [htwo] at hfuel ⊢
    obtain ⟨fuel, rfl⟩ : ∃ m, fuel = m + 2 :=
      ⟨fuel - 2, by simp only [List.length_cons, List.length_nil] at hfuel; omega⟩
    obtain ⟨d, hremove', hv', hd, -⟩ := Circle.remove_run hv
    have hend : d.contents = [] := by
      rw [hd, hrun, hc, List.drop_drop]
      exact List.drop_eq_nil_of_le (by omega)
    have hall : c.contents.take c.getContinguiousCount.toNat = s.sendBuff.contents.drop n := by
      rw [hrun, hc]
      exact List.take_of_length_le (Nat.le_of_eq List.length_drop)
    have hmore : c.contents ≠ [] := by
      rw [hc]
      exact hrest
    have hlast := doWriteKcp_message (s := s.handedOver c next) K (fuel + 1) hv rfl hmore hremove'
    change _ = doWriteKcp K (fuel + 1)
      (s.handedOver d (K.send next (c.contents.take c.getContinguiousCount.toNat)).2) at hlast
    rw [hall] at hlast
    refine ⟨d, ?_, hend⟩
    rw [hlast, doWriteKcp_empty (s := s.handedOver d _) K fuel hv' hend, hnext]
    rfl

end Connection

def takenBytes {κ : Type} (taken : κ → List UInt8) (s : Sock Circle κ) : List UInt8 :=
  s.socket.kcp.elim [] taken

private theorem takenBytes_handedOver {κ : Type} (taken : κ → List UInt8) (s : Sock Circle κ)
    (c : Circle) (block : κ) :
    takenBytes taken (s.handedOver c block) = taken block := rfl

/-- `do_write` always returns, and accounts for every byte of the ring exactly when
`ikcp_send` refuses none of the messages it is offered. -/
theorem kcp_do_write_accounts_iff {κ : Type} {K : Ikcp κ} {taken : κ → List UInt8} (hK : K.AllOrNothing taken)
    (cb : Callbacks Circle κ) {s : Sock Circle κ} (h : s.sendBuff.Valid) :
    ∃ s' accepted, Connection.doWrite .kcp K cb s = .ok () s' ∧
      takenBytes taken s' = takenBytes taken s ++ accepted ∧
      (accepted ++ s'.sendBuff.contents = s.sendBuff.contents ↔
        ∀ block, s.socket.kcp = some block → K.TakesAll block s.sendBuff.offered) := by
  rw [Connection.doWrite_kcp]
  cases hk : s.socket.kcp with
  | none =>
    refine ⟨s, [], ?_, (List.append_nil _).symm, iff_of_true rfl nofun⟩
    rw [Connection.doWriteKcp, get_bind, hk]
    exact pure_run _ _
  | some block =>
    obtain ⟨c, hrun, hnil⟩ := Connection.doWriteKcp_offers K h hk h.offered_lt
    obtain ⟨accepted, htaken, -, hiff⟩ := hK.taken_offer block s.sendBuff.offered_ne_nil
    have hbefore : takenBytes taken s = taken block := by rw [takenBytes, hk, Option.elim_some]
    refine ⟨s.handedOver c (K.offer block s.sendBuff.offered), accepted, hrun, ?_, ?_⟩
    · rw [hbefore, takenBytes_handedOver, htaken]
    · change accepted ++ c.contents = _ ↔ _
      rw [s.sendBuff.flatten_offered] at hiff
      rw [hnil, List.append_nil, hiff]
      constructor
      · intro hall block' hsame
        rw [← Option.some.inj hsame]
        exact hall
      · exact fun hall => hall block rfl

/-- A KCP that keeps what it takes and refuses messages of 128 fragments of 1376 bytes or more. -/
def windowed : Ikcp (List UInt8) where
  create _ := []
  input taken _ := taken
  send taken bytes := if bytes.length ≤ 127 * 1376 then (bytes.length, taken ++ bytes) else (-2, taken)
  update taken _ := ([], taken)
  recv taken _ := (-1, [], taken)

private theorem windowed_allOrNothing : windowed.AllOrNothing id where
  accepts {taken bytes} htakes := by
    simp only [windowed] at htakes ⊢
    split at htakes
    · rw [if_pos ‹_›]
      rfl
    · exact absurd htakes (show ¬ (0 : Int) ≤ -2 by decide)
  refuses {taken bytes} hrefused := by
    simp only [windowed] at hrefused ⊢
    split at hrefused
    · omega
    · rw [if_neg ‹_›]

private theorem windowed_refuses {taken bytes : List UInt8} (h : 127 * 1376 < bytes.length) :
    windowed.send taken bytes = (-2, taken) :=
  if_neg (Nat.not_le.mpr h)

/-- Two bytes across the end of a ring of eight cells, as two messages. -/
theorem kcp_do_write_accounts_two : ∃ s' accepted,
    Connection.doWrite .kcp windowed ⟨pure (), pure (), silent⟩
      ⟨.connected, freshBuffer, ⟨⟨[2, 0, 0, 0, 0, 0, 0, 1], 100⟩, 7, 1⟩, { kcp := some [] }, []⟩ = .ok () s' ∧
    takenBytes id s' = [] ++ accepted ∧ accepted ++ s'.sendBuff.contents = [1, 2] := by
  have hv : Circle.Valid ⟨⟨[2, 0, 0, 0, 0, 0, 0, 1], 100⟩, 7, 1⟩ := by
    refine ⟨⟨3, by decide, by decide⟩, fun j hj => ?_, by decide, by decide⟩
    change 8 * 4 ^ j < 100 at hj
    change 8 * 4 ^ j ≤ 2 ^ 30
    omega
  obtain ⟨s', accepted, hrun, htaken, hiff⟩ :=
    kcp_do_write_accounts_iff windowed_allOrNothing ⟨pure (), pure (), silent⟩
    (s := ⟨.connected, freshBuffer, ⟨⟨[2, 0, 0, 0, 0, 0, 0, 1], 100⟩, 7, 1⟩, { kcp := some [] }, []⟩) hv
  refine ⟨s', accepted, hrun, htaken, hiff.mpr ?_⟩
  rintro _ ⟨⟩
  have hoffered : Circle.offered ⟨⟨[2, 0, 0, 0, 0, 0, 0, 1], 100⟩, 7, 1⟩ = [[1], [2]] := by decide +kernel
  change windowed.TakesAll [] (Circle.offered ⟨⟨[2, 0, 0, 0, 0, 0, 0, 1], 100⟩, 7, 1⟩)
  rw [hoffered]
  exact .cons (by decide) (.cons (by decide) .nil)

def filledRing : Circle := ⟨⟨List.replicate 262144 1, 409600⟩, 0, 262143⟩

private theorem filledRing_spec : filledRing.Valid ∧ filledRing.contents.length = 262143 ∧
    filledRing.offered = [filledRing.contents] := by
  have hlen : filledRing.data.mem.length = 262144 := List.length_replicate
  have hv : filledRing.Valid := by
    refine ⟨⟨18, by decide, hlen⟩, fun j hj => ?_, ?_, ?_⟩
    · rw [hlen] at hj ⊢
      change 262144 * 4 ^ j < 409600 at hj
      omega
    · rw [hlen]
      decide
    · rw [hlen]
      decide
  have hcount : filledRing.contents.length = 262143 := by
    rw [hv.length_contents, hv.toNat_getCount, CellRing.count]
    exact if_pos (Nat.zero_le _)
  have hrun : filledRing.getContinguiousCount.toNat = 262143 := by
    rw [hv.toNat_startRun, hcount, hlen]
    rfl
  have hne : filledRing.contents ≠ [] := List.length_pos_iff.mp (by rw [hcount]; decide)
  refine ⟨hv, hcount, ?_⟩
  rw [Circle.offered_one hv hne (List.drop_eq_nil_of_le (by rw [hrun, hcount])),
    List.take_of_length_le (by rw [hrun, hcount])]

def filledSock : Sock Circle (List UInt8) := ⟨.connected, freshBuffer, filledRing, { kcp := some [] }, []⟩

/-- KCP takes nothing of them, and none is left in the ring. -/
theorem kcp_do_write_drops : ∃ s', filledSock.sendBuff.Valid ∧ filledSock.sendBuff.contents.length = 262143 ∧
    Connection.doWrite .kcp windowed ⟨pure (), pure (), silent⟩ filledSock = .ok () s' ∧
    takenBytes id s' = [] ∧ s'.sendBuff.contents = [] := by
  obtain ⟨hv, hlen, hoffered⟩ := filledRing_spec
  obtain ⟨c, hrun, hnil⟩ := Connection.doWriteKcp_offers windowed (s := filledSock) hv rfl hv.offered_lt
  have hlong : 127 * 1376 < filledRing.contents.length := hlen ▸ (by decide)
  have hrefused : windowed.offer [] filledSock.sendBuff.offered = [] := by
    change windowed.offer [] filledRing.offered = []
    rw [hoffered, Ikcp.offer_one, windowed_refuses hlong]
  rw [hrefused] at hrun
  refine ⟨filledSock.handedOver c [], hv, hlen, ?_, rfl, hnil⟩
  exact (Connection.doWrite_kcp windowed _ filledSock).trans hrun

end SimpleNetwork
