import SimpleNetwork.Asio.Peers

/-! A KCP without fragments, timeouts and congestion control, in the segments of the
real one. It keeps what the library promises. -/
namespace SimpleNetwork
open Words Relation

/-- A control block: the messages taken and how many of them are acknowledged, the number
of the next message to come, the messages that have come, and the acknowledgements due. -/
structure PlainKcp where
  conv : UInt32
  queue : List (List UInt8) := []
  acked : Nat := 0
  next : Nat := 0
  inbox : List (List UInt8) := []
  acks : List (UInt32 × UInt32) := []
  started : Bool := false
  deriving DecidableEq, Repr

namespace PlainKcp

/-- A segment: conversation, command, fragment, window, timestamp, number, next number expected, length, bytes. -/
def segment (conv : UInt32) (command : UInt8) (window : Nat) (ts sn una : UInt32)
    (bytes : List UInt8) : List UInt8 :=
  le32 conv ++ [command, 0] ++ [UInt8.ofNat window, 0] ++ le32 ts ++ le32 sn ++ le32 una ++
    le32 (UInt32.ofNat bytes.length) ++ bytes

def push : UInt8 := 81
def ack : UInt8 := 82

/-- The segments of a flush: the acknowledgements due, and from the second one on the messages not acknowledged. -/
def flushed (b : PlainKcp) (current : UInt32) : List (List UInt8) :=
  b.acks.map (fun a => segment b.conv ack (128 - b.inbox.length) a.2 a.1 (UInt32.ofNat b.next) []) ++
    if b.started then (b.queue.zipIdx.drop b.acked).map fun m =>
      segment b.conv push (128 - b.inbox.length) current (UInt32.ofNat m.2) (UInt32.ofNat b.next) m.1
    else []

def fed (b : PlainKcp) (d : List UInt8) : PlainKcp :=
  if d.take 4 = le32 b.conv then
    let b := { b with acked := max b.acked (ofLe32 ((d.drop 16).take 4)).toNat }
    if d[4]? = some push then
      let b := { b with acks := b.acks ++ [(ofLe32 ((d.drop 12).take 4), ofLe32 ((d.drop 8).take 4))] }
      if (d.drop 12).take 4 = le32 (UInt32.ofNat b.next) then
        { b with inbox := b.inbox ++ [d.drop 24], next := b.next + 1 } else b
    else b
  else b

end PlainKcp

open PlainKcp in
def plainKcp : Ikcp PlainKcp where
  create conv := { conv := conv }
  input := fed
  send b bytes := if bytes.length ≤ 1376 ∧
    b.queue.length + 1 < 2 ^ 32 then (0, { b with queue := b.queue ++ [bytes] }) else (-2, b)
  update b current := (b.flushed current, { b with acks := [], started := true })
  recv b size :=
    match b.inbox with
    | [] => (-1, [], b)
    | m :: rest => if m.length ≤ size.toNat then (m.length, m, { b with inbox := rest }) else (-3, [], b)

namespace PlainKcp
variable {conv : UInt32} {heard : List (List UInt8)} {p p' r r' : Peer PlainKcp}

theorem copies : plainKcp.Copies := by
  intro b size hpos
  have hnone : ¬ (0 : Int) ≤ -1 ∧ ¬ (0 : Int) ≤ -3 := by decide
  simp only [plainKcp] at hpos ⊢
  split at hpos
  · exact absurd hpos hnone.1
  · split at hpos
    · rename_i hfits
      simp only [if_pos hfits]
      exact ⟨trivial, hfits⟩
    · exact absurd hpos hnone.2

/-- What a peer's datagrams are: acknowledgements, and its messages by their numbers. -/
structure Labelled (conv : UInt32) (messages : List (List UInt8)) (d : List UInt8) : Prop where
  number : d.take 4 = le32 conv
  short : d.length ≤ 1400
  message : d[4]? = some push → ∃ j : Nat, messages[j]? = some (d.drop 24) ∧
    (d.drop 12).take 4 = le32 (UInt32.ofNat j)

theorem Labelled.mono {messages more : List (List UInt8)} {d : List UInt8}
    (h : Labelled conv messages d) (hmore : messages <+: more) :
    Labelled conv more d := by
  refine ⟨h.number, h.short, fun hpush => ?_⟩
  obtain ⟨j, hj, hsn⟩ := h.message hpush
  obtain ⟨later, rfl⟩ := hmore
  exact ⟨j, by rwa [List.getElem?_append_left (List.getElem?_eq_some_iff.mp hj).1], hsn⟩

structure Fine (conv : UInt32) (p : Peer PlainKcp) : Prop where
  number : p.block.conv = conv
  queue : p.block.queue = p.accepted
  small : p.accepted.length < 2 ^ 32
  fits : ∀ m ∈ p.accepted, m.length ≤ 1376
  labelled : ∀ d ∈ p.datagrams, Labelled conv p.accepted d

theorem Fine.flushed (h : Fine conv p) (current : UInt32) : ∀ d ∈ p.block.flushed current,
    Labelled conv p.accepted d := by
  intro d hd
  rcases List.mem_append.mp hd with hd | hd
  · obtain ⟨a, -, rfl⟩ := List.mem_map.mp hd
    rw [h.number]
    have hack : ack ≠ push := by decide
    exact ⟨rfl, Nat.le_of_ble_eq_true rfl, fun hpush => absurd (Option.some.inj hpush) hack⟩
  · split at hd
    · obtain ⟨⟨m, j⟩, hm, rfl⟩ := List.mem_map.mp hd
      have hj : p.accepted[j]? = some m := by
        rw [← h.queue]
        exact List.mem_zipIdx_iff_getElem?.mp (List.mem_of_mem_drop hm)
      have hshort := h.fits m (List.mem_of_getElem? hj)
      rw [h.number]
      refine ⟨rfl, ?_, fun _ => ⟨j, hj, rfl⟩⟩
      change m.length + 24 ≤ 1400
      omega
    · exact absurd hd List.not_mem_nil

/-- What each call does, with its history. -/
theorem send_eq (p : Peer PlainKcp) (bytes : List UInt8) : (plainKcp.recorded.send p bytes).2 =
    if bytes.length ≤ 1376 ∧ p.block.queue.length + 1 < 2 ^ 32 then
      { p with
        block := { p.block with queue := p.block.queue ++ [bytes] }
        offered := p.offered ++ [bytes]
        accepted := p.accepted ++ [bytes] }
    else { p with offered := p.offered ++ [bytes] } := by
  simp only [Ikcp.recorded, plainKcp]
  split <;> rfl

private theorem recv_eq (p : Peer PlainKcp) (size : UInt32) :
    (plainKcp.recorded.recv p size).2.2 = p ∨ ∃ m rest, p.block.inbox = m :: rest ∧
      (plainKcp.recorded.recv p size).2.2 =
        { p with block := { p.block with inbox := rest }, handed := p.handed ++ [m] } := by
  obtain ⟨⟨conv, queue, acked, next, inbox, acks, started⟩, offered, accepted, handed, datagrams⟩ := p
  cases inbox with
  | nil => exact .inl rfl
  | cons m rest =>
    simp only [Ikcp.recorded, plainKcp]
    by_cases hfits : m.length ≤ size.toNat
    · refine .inr ⟨m, rest, rfl, ?_⟩
      simp only [if_pos hfits, if_pos (Int.natCast_nonneg m.length)]
    · simp only [if_neg hfits]
      exact .inl rfl

private theorem fed_cases (b : PlainKcp) (d : List UInt8) : (fed b d).conv = b.conv ∧
    (fed b d).queue = b.queue ∧
    ((fed b d).inbox = b.inbox ∧ (fed b d).next = b.next ∨
      d[4]? = some push ∧ (d.drop 12).take 4 = le32 (UInt32.ofNat b.next) ∧
        (fed b d).inbox = b.inbox ++ [d.drop 24] ∧
        (fed b d).next = b.next + 1) := by
  unfold fed
  split
  · dsimp only
    split
    · rename_i hpush
      split
      · rename_i hsn
        exact ⟨rfl, rfl, .inr ⟨hpush, hsn, rfl, rfl⟩⟩
      · exact ⟨rfl, rfl, .inl ⟨rfl, rfl⟩⟩
    · exact ⟨rfl, rfl, .inl ⟨rfl, rfl⟩⟩
  · exact ⟨rfl, rfl, .inl ⟨rfl, rfl⟩⟩

/-- Every call keeps it. -/
theorem Fine.step (h : Fine conv p) (hstep : plainKcp.PeerStep heard p p') : Fine conv p' := by
  cases hstep with
  | @send bytes _ =>
    rw [send_eq]
    split
    · rename_i hroom
      refine ⟨h.number, ?_, ?_, ?_, fun d hd => (h.labelled d hd).mono (List.prefix_append _ _)⟩
      · exact congrArg (· ++ [bytes]) h.queue
      · rw [List.length_append, List.length_singleton, ← h.queue]
        exact hroom.2
      · intro m hm
        rcases List.mem_append.mp hm with hm | hm
        · exact h.fits m hm
        · rw [List.mem_singleton.mp hm]
          exact hroom.1
    · exact ⟨h.number, h.queue, h.small, h.fits, h.labelled⟩
  | @input data hdata =>
    obtain ⟨hconv, hqueue, -⟩ := fed_cases p.block data
    exact ⟨hconv.trans h.number, hqueue.trans h.queue, h.small, h.fits, h.labelled⟩
  | update current =>
    refine ⟨h.number, h.queue, h.small, h.fits, fun d hd => ?_⟩
    exact (List.mem_append.mp hd).elim (h.labelled d) (h.flushed current d)
  | recv size =>
    rcases recv_eq p size with hr | ⟨m, rest, -, hr⟩ <;> rw [hr] <;>
      exact ⟨h.number, h.queue, h.small, h.fits, h.labelled⟩

structure Feeds (p r : Peer PlainKcp) : Prop where
  next : r.block.next ≤ p.accepted.length
  came : r.handed ++ r.block.inbox = p.accepted.take r.block.next

theorem Feeds.sends (h : Feeds p r) (hmore : p.accepted <+: p'.accepted) : Feeds p' r := by
  obtain ⟨later, hlater⟩ := hmore
  refine ⟨?_, ?_⟩
  · rw [← hlater, List.length_append]
    exact Nat.le_add_right_of_le h.next
  · rw [← hlater, List.take_append_of_le_length h.next, h.came]

/-- Every call of the receiver keeps it. -/
theorem Feeds.step (hp : Fine conv p) (h : Feeds p r) (hstep : plainKcp.PeerStep p.datagrams r r') :
    Feeds p r' := by
  cases hstep with
  | @send bytes _ =>
    rw [send_eq]
    split <;> exact ⟨h.next, h.came⟩
  | @input data hdata =>
    obtain ⟨-, -, ⟨hinbox, hnext⟩ | ⟨hpush, hsn, hinbox, hnext⟩⟩ := fed_cases r.block data
    · exact ⟨hnext ▸ h.next, by
        change r.handed ++ (fed r.block data).inbox = p.accepted.take (fed r.block data).next
        rw [hinbox, hnext, h.came]⟩
    · obtain ⟨j, hj, hlabel⟩ := (hp.labelled data hdata).message hpush
      obtain ⟨hlt, hget⟩ := List.getElem?_eq_some_iff.mp hj
      have hsmall := hp.small
      have hle := h.next
      have hplace : j = r.block.next := by
        have hword := congrArg (fun bytes => (ofLe32 bytes).toNat) (hlabel.symm.trans hsn)
        simp only [ofLe32_le32, UInt32.toNat_ofNat'] at hword
        omega
      subst hplace
      refine ⟨?_, ?_⟩
      · change (fed r.block data).next ≤ _
        rw [hnext]
        exact hlt
      · change r.handed ++ (fed r.block data).inbox = p.accepted.take (fed r.block data).next
        rw [hinbox, hnext, ← List.append_assoc, h.came, List.take_add_one, hj]
        rfl
  | update current => exact ⟨h.next, h.came⟩
  | recv size =>
    rcases recv_eq r size with hr | ⟨m, rest, hinbox, hr⟩ <;> rw [hr]
    · exact h
    · refine ⟨h.next, ?_⟩
      change r.handed ++ [m] ++ rest = _
      rw [List.append_assoc, List.singleton_append, ← hinbox]
      exact h.came

def Flowing (conv : UInt32) (q : Bool → Peer PlainKcp) : Prop := ∀ i, Fine conv (q i) ∧ Feeds (q !i) (q i)

theorem Flowing.step {q q' : Bool → Peer PlainKcp} (h : Flowing conv q)
    (hstep : plainKcp.PairStep q q') : Flowing conv q' := by
  obtain ⟨i, hpeer, hother⟩ := hstep
  intro j
  rcases Bool.eq_or_eq_not j i with rfl | rfl
  · rw [hother]
    exact ⟨(h j).1.step hpeer, (h j).2.step (h !j).1 hpeer⟩
  · rw [hother, Bool.not_not]
    have hback := (h !i).2
    rw [Bool.not_not] at hback
    exact ⟨(h !i).1, hback.sends hpeer.accepted⟩

private theorem flowing {q : Bool → Peer PlainKcp} (h : plainKcp.Conversed conv q) : Flowing conv q := by
  induction h with
  | refl =>
    have hnone : 0 < 2 ^ 32 := by decide
    exact fun i =>
      ⟨⟨rfl, rfl, hnone, fun _ hm => absurd hm List.not_mem_nil,
      fun _ hd => absurd hd List.not_mem_nil⟩, ⟨Nat.le_refl 0, rfl⟩⟩
  | tail _ hstep ih => exact ih.step hstep

/-- A peer that has taken nothing and heard nothing has nothing to acknowledge. -/
def Still (q : Bool → Peer PlainKcp) : Prop := ∀ i, (q i).accepted = [] → (q !i).datagrams = [] →
  (q i).block.acks = [] ∧ (q i).datagrams = []

theorem Still.step {q q' : Bool → Peer PlainKcp} (hflowing : Flowing conv q) (h : Still q)
    (hstep : plainKcp.PairStep q q') : Still q' := by
  obtain ⟨j, hpeer, hother⟩ := hstep
  intro i haccepted hheard
  rcases Bool.eq_or_eq_not i j with rfl | rfl
  · rw [hother] at hheard
    have hbefore : (q i).accepted = [] := List.prefix_nil.mp (haccepted ▸ hpeer.accepted)
    obtain ⟨hacks, hdatagrams⟩ := h i hbefore hheard
    have hqueue : (q i).block.queue = [] := (hflowing i).1.queue.trans hbefore
    generalize q' i = p' at hpeer haccepted
    cases hpeer with
    | @send bytes _ =>
      rw [send_eq] at haccepted ⊢
      split at haccepted
      · exact absurd haccepted (List.append_ne_nil_of_right_ne_nil _ (List.cons_ne_nil _ _))
      · rename_i hroom
        rw [if_neg hroom]
        exact ⟨hacks, hdatagrams⟩
    | input hdata => exact absurd (hheard ▸ hdata) List.not_mem_nil
    | update current =>
      refine ⟨rfl, ?_⟩
      change (q i).datagrams ++ (q i).block.flushed current = []
      rw [hdatagrams, flushed, hacks, hqueue]
      simp only [List.map_nil, List.zipIdx_nil, List.drop_nil, ite_self, List.append_nil]
    | recv size =>
      rcases recv_eq (q i) size with hr | ⟨m, rest, -, hr⟩ <;> rw [hr] <;> exact ⟨hacks, hdatagrams⟩
  · rw [hother] at haccepted ⊢
    rw [Bool.not_not] at hheard
    refine h _ haccepted ?_
    rw [Bool.not_not]
    exact List.prefix_nil.mp (hheard ▸ hpeer.datagrams)

end PlainKcp

theorem plainKcp_promises : plainKcp.Promises where
  copies := PlainKcp.copies
  ordered h i := by
    have hcame := (PlainKcp.flowing h i).2.came
    exact (List.prefix_append _ _).trans (hcame ▸ List.take_prefix _ _)
  labelled h i d hd := by
    have hlabel := (PlainKcp.flowing h i).1.labelled d hd
    exact ⟨hlabel.number, hlabel.short⟩

theorem plainKcp_silent : plainKcp.Silent := by
  intro conv q h
  suffices PlainKcp.Flowing conv q ∧ PlainKcp.Still q from fun i haccepted hheard =>
    (this.2 i haccepted hheard).2
  refine ⟨PlainKcp.flowing h, ?_⟩
  induction h with
  | refl => exact fun _ _ _ => ⟨rfl, rfl⟩
  | tail hmore hstep ih => exact ih.step (PlainKcp.flowing hmore) hstep

end SimpleNetwork
