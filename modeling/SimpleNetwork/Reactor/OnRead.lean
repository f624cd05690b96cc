import SimpleNetwork.Buffer.CircleSpec
import SimpleNetwork.Reactor.Connection

/-! What one round of `on_read` does, on any buffer that can count, peek and
remove like a queue, and when the loop as a whole keeps its promises. -/
namespace SimpleNetwork
open Words

/-- The part of a byte queue's behaviour that `on_read` relies on. -/
structure Reads {β : Type} [Buffer β] (Valid : β → Prop) (contents : β → List UInt8) : Prop where
  count : ∀ {b}, Valid b → (Buffer.getCount b).toNat = (contents b).length
  peek : ∀ {b n offset}, Valid b → offset.toNat + n.toNat ≤ (contents b).length →
    Buffer.read n offset b = .ok (((contents b).drop offset.toNat).take n.toNat) b
  remove : ∀ {b n}, Valid b → n.toNat ≤ (contents b).length →
    ∃ b', Buffer.remove n b = .ok () b' ∧ Valid b' ∧ contents b' = (contents b).drop n.toNat

/-- Rings satisfy it, and keep any property of their storage on the way. -/
theorem circle_reads (P : Data → Prop) : Reads (fun c : Circle => c.Valid ∧ P c.data) Circle.contents where
  count h := h.1.length_contents.symm
  peek h hr := Circle.read_peek h.1 hr
  remove h hn := by
    obtain ⟨c', hrun, hv, hc, hd⟩ := Circle.remove_spec h.1 hn
    exact ⟨c', hrun, ⟨hv, by rw [hd]; exact h.2⟩, hc⟩

def declared (q : List UInt8) : UInt32 := ofLe32 (q.take 4)

/-- The `uint32` packet size of `on_read`: prefix plus declared length, wrapped. -/
def packetSize (q : List UInt8) : Nat := ((declared q).toNat + 4) % 2 ^ 32

/-- The test of `on_read` for a packet it may deliver. -/
def Ready (q : List UInt8) : Prop := 4 ≤ q.length ∧ packetSize q ≤ q.length

instance (q : List UInt8) : Decidable (Ready q) := inferInstanceAs (Decidable (_ ∧ _))

namespace Connection
variable {β τ : Type} [Buffer β] {Valid : β → Prop} {contents : β → List UInt8}

private theorem toNat_size (length : UInt32) :
    ((length.toUInt64 + 4).toUInt32).toUInt64.toNat = (length.toNat + 4) % 2 ^ 32 := by
  have h := length.toNat_lt
  have h4 : (length.toUInt64 + 4).toNat = length.toNat + 4 := by
    rw [toNat_add_of_lt (b := 4)]
    · rfl
    · have : (4 : UInt64).toNat = 4 := rfl
      rw [UInt32.toNat_toUInt64, this]
      omega
  rw [UInt32.toNat_toUInt64, UInt64.toNat_toUInt32, h4]

section Round
variable (R : Reads Valid contents) {onRecv : OnRecv β τ} {s : Connection β τ} (h : Valid s.recvBuff)
include R h

theorem count_lt_iff (n : UInt64) : Buffer.getCount s.recvBuff < n ↔
    (contents s.recvBuff).length < n.toNat := by
  rw [UInt64.lt_iff_toNat_lt, R.count h]

private theorem peek_length (h4 : 4 ≤ (contents s.recvBuff).length) :
    Buffer.read 4 0 s.recvBuff = .ok ((contents s.recvBuff).take 4) s.recvBuff :=
  R.peek h (by simpa using h4)

/-- Without a whole packet the round leaves the loop and changes nothing. -/
theorem onReadRound_stop (hq : ¬ Ready (contents s.recvBuff)) : onReadRound onRecv s = .ok false s := by
  unfold onReadRound
  rw [Outcome.get_bind]
  split
  · rfl
  · rename_i hlt
    have h4 : 4 ≤ (contents s.recvBuff).length := by
      rw [count_lt_iff R h] at hlt
      exact Nat.le_of_not_lt hlt
    rw [Outcome.bind_ok (recv_ok (peek_length R h h4)), Outcome.get_bind, if_pos]
    · rfl
    · change Buffer.getCount s.recvBuff < _
      rw [count_lt_iff R h, toNat_size]
      exact Nat.lt_of_not_le fun hle => hq ⟨h4, hle⟩

/-- With a whole packet the round calls `on_recv` on it and removes the size
computed before the call, whatever the call did. -/
theorem onReadRound_call (hq : Ready (contents s.recvBuff)) :
    onReadRound onRecv s = (do
      onRecv s.deliveries.length ⟨0, 4, declared (contents s.recvBuff)⟩
      recv (Buffer.remove (UInt64.ofNat (packetSize (contents s.recvBuff))))
      modify fun t => { t with
        deliveries := t.deliveries ++ [⟨⟨0, 4, declared (contents s.recvBuff)⟩, s.recvBuff, t.recvBuff⟩] }
      let t ← get
      pure (decide (Buffer.getCount t.recvBuff ≠ 0)) : EStateM Fault (Connection β τ) Bool) s := by
  obtain ⟨h4, hsize⟩ := hq
  have hpeek := peek_length R h h4
  have hreader : (Reader.new : EStateM Fault β Reader) s.recvBuff =
      .ok ⟨0, 4, declared (contents s.recvBuff)⟩ s.recvBuff := by
    rw [Reader.new, Outcome.bind_ok hpeek]
    rfl
  have hword : ((declared (contents s.recvBuff)).toUInt64 + 4).toUInt32.toUInt64 =
      UInt64.ofNat (packetSize (contents s.recvBuff)) := by
    rw [← UInt64.toNat_inj, toNat_size, toNat_ofNat_of_lt]
    · rfl
    · unfold packetSize
      omega
  have hguard : ¬ Buffer.getCount s.recvBuff < 4 := by
    rw [count_lt_iff R h]
    exact Nat.not_lt.mpr h4
  have hfit : ¬ ((declared (contents s.recvBuff)).toUInt64 + 4).toUInt32.toUInt64 >
      Buffer.getCount s.recvBuff := by
    change ¬ Buffer.getCount s.recvBuff < _
    rw [count_lt_iff R h, toNat_size]
    exact Nat.not_lt.mpr hsize
  unfold onReadRound
  rw [Outcome.get_bind, if_neg hguard, Outcome.bind_ok (recv_ok hpeek), Outcome.get_bind]
  change (if ((declared (contents s.recvBuff)).toUInt64 + 4).toUInt32.toUInt64 > Buffer.getCount
    s.recvBuff then _
    else _ : EStateM Fault (Connection β τ) Bool) s = _
  rw [if_neg hfit, Outcome.bind_ok (recv_ok hreader), Outcome.get_bind]
  change (do
    onRecv s.deliveries.length ⟨0, 4, declared (contents s.recvBuff)⟩
    recv (Buffer.remove ((declared (contents s.recvBuff)).toUInt64 + 4).toUInt32.toUInt64)
    _ : EStateM Fault (Connection β τ) Bool) s = _
  rw [hword]

theorem getCount_ne_zero : decide (Buffer.getCount s.recvBuff ≠ 0) = decide (contents s.recvBuff ≠ []) := by
  have hz : Buffer.getCount s.recvBuff = 0 ↔ contents s.recvBuff = [] := by
    rw [← UInt64.toNat_inj, R.count h, UInt64.toNat_zero, List.length_eq_zero_iff]
  exact decide_eq_decide.mpr (not_congr hz)

/-- A delivering round whose callback keeps `recv_buff_` moves one packet to the
log and keeps the callback's other effects. -/
theorem onReadRound_keep (hq : Ready (contents s.recvBuff)) {t : Connection β τ}
    (ht : onRecv s.deliveries.length ⟨0, 4, declared (contents s.recvBuff)⟩ s = .ok () t)
    (hrecv : t.recvBuff = s.recvBuff) (hdel : t.deliveries = s.deliveries) :
    ∃ b, Valid b ∧ contents b = (contents s.recvBuff).drop (packetSize (contents s.recvBuff)) ∧
      onReadRound onRecv s = .ok (decide (contents b ≠ [])) { t with
        recvBuff := b
        deliveries := s.deliveries ++ [⟨⟨0, 4, declared (contents s.recvBuff)⟩, s.recvBuff, b⟩] } := by
  have hsize : (UInt64.ofNat (packetSize (contents s.recvBuff))).toNat = packetSize (contents s.recvBuff) :=
    toNat_ofNat_of_lt (by unfold packetSize; omega)
  obtain ⟨b, hrun, hb, hcontents⟩ := R.remove (n := UInt64.ofNat (packetSize (contents s.recvBuff))) h
    (by rw [hsize]; exact hq.2)
  rw [hsize] at hcontents
  have hrun' : recv (Buffer.remove (UInt64.ofNat (packetSize (contents s.recvBuff)))) t =
      .ok () { t with recvBuff := b } := recv_ok (by rw [hrecv]; exact hrun)
  refine ⟨b, hb, hcontents, ?_⟩
  rw [onReadRound_call R h hq, Outcome.bind_ok ht, Outcome.bind_ok hrun', Outcome.modify_bind,
    Outcome.get_bind,
    Outcome.pure_run, hdel]
  congr 1
  exact getCount_ne_zero R (s := { t with recvBuff := b }) hb

/-- With a quiet callback a delivering round moves one packet to the log. -/
theorem onReadRound_quiet (hquiet : Quiet onRecv) (hq : Ready (contents s.recvBuff)) :
    ∃ s', onReadRound onRecv s = .ok (decide (contents s'.recvBuff ≠ [])) s' ∧ Valid s'.recvBuff ∧
      contents s'.recvBuff = (contents s.recvBuff).drop (packetSize (contents s.recvBuff)) ∧
      s'.deliveries = s.deliveries ++
        [⟨⟨0, 4, declared (contents s.recvBuff)⟩, s.recvBuff, s'.recvBuff⟩] := by
  obtain ⟨t, ht, hrecv, hdel⟩ := hquiet s.deliveries.length ⟨0, 4, declared (contents s.recvBuff)⟩ s
  obtain ⟨b, hb, hcontents, hrun⟩ := onReadRound_keep R h hq ht hrecv hdel
  exact ⟨{ t with recvBuff := b, deliveries := _ }, hrun, hb, hcontents, rfl⟩

end Round

section Loop
variable (R : Reads Valid contents) {onRecv : OnRecv β τ}

theorem onRead_round {s s' : Connection β τ} {more : Bool} (fuel : Nat)
    (hr : onReadRound onRecv s = .ok more s') :
    onRead onRecv (fuel + 1) s = if more then onRead onRecv fuel s' else .ok () s' := by
  rw [onRead, Outcome.bind_ok hr]
  cases more <;> rfl

/-- More rounds than needed change nothing. -/
theorem onRead_more {fuel : Nat} {s s' : Connection β τ} (hrun : onRead onRecv fuel s = .ok () s') (k : Nat) :
    onRead onRecv (fuel + k) s = .ok () s' := by
  induction fuel generalizing s with
  | zero => cases hrun
  | succ fuel ih =>
    obtain ⟨more, t, hround, -⟩ := Outcome.bind_eq_ok.mp hrun
    rw [onRead_round fuel hround] at hrun
    rw [Nat.succ_add, onRead_round (fuel + k) hround]
    cases more with
    | true => exact ih hrun
    | false => exact hrun

include R in
private theorem onRead_appends (hquiet : Quiet onRecv) (fuel : Nat) {s s' : Connection β τ}
    (h : Valid s.recvBuff)
    (hrun : onRead onRecv fuel s = .ok () s') : ∃ new, s'.deliveries = s.deliveries ++ new := by
  induction fuel generalizing s with
  | zero => cases hrun
  | succ fuel ih =>
    by_cases hq : Ready (contents s.recvBuff)
    · obtain ⟨t, hround, hv, hc, hd⟩ := onReadRound_quiet R h hquiet hq
      rw [onRead_round fuel hround] at hrun
      split at hrun
      · obtain ⟨new, hnew⟩ := ih hv hrun
        exact ⟨_, by rw [hnew, hd, List.append_assoc]⟩
      · cases hrun
        exact ⟨_, hd⟩
    · rw [onRead_round fuel (onReadRound_stop R h hq)] at hrun
      cases hrun
      exact ⟨[], (List.append_nil _).symm⟩

end Loop
end Connection

/-- The round took exactly the declared packet, and all of it was there. -/
def Delivery.Exact {β : Type} (contents : β → List UInt8) (d : Delivery β) : Prop :=
  d.reader.length = declared (contents d.seen) ∧
    4 + d.reader.length.toNat ≤ (contents d.seen).length ∧
    contents d.left = (contents d.seen).drop (4 + d.reader.length.toNat)

/-- `on_read` returns, and each of its deliveries took exactly the declared packet. -/
def ReadsExactly {β τ : Type} [Buffer β] (contents : β → List UInt8) (onRecv : OnRecv β τ)
    (s : Connection β τ) : Prop :=
  ∃ fuel s' new, Connection.onRead onRecv fuel s = .ok () s' ∧ s'.deliveries = s.deliveries ++ new ∧
    ∀ d ∈ new, d.Exact contents

/-- Walking packet by packet, in unbounded arithmetic, meets a prefix whose sum
with the prefix size does not fit 32 bits. -/
inductive MeetsWrap : List UInt8 → Prop
  | here {q : List UInt8} (h4 : 4 ≤ q.length) (hw : 2 ^ 32 ≤ (declared q).toNat + 4) : MeetsWrap q
  | later {q : List UInt8} (h4 : 4 ≤ q.length) (hl : (declared q).toNat + 4 ≤ q.length)
      (hrest : MeetsWrap (q.drop ((declared q).toNat + 4))) : MeetsWrap q

theorem MeetsWrap.ready {q : List UInt8} (h : MeetsWrap q) : Ready q := by
  have hlt := (declared q).toNat_lt
  unfold Ready packetSize
  cases h with
  | here h4 hw => omega
  | later h4 hl hrest => omega

theorem packetSize_of_lt {q : List UInt8} (h : (declared q).toNat + 4 < 2 ^ 32) :
    packetSize q = (declared q).toNat + 4 := Nat.mod_eq_of_lt h

section Exactness
variable {β τ : Type} [Buffer β] {Valid : β → Prop} {contents : β → List UInt8} (R : Reads Valid contents)
  {onRecv : OnRecv β τ} (hquiet : Quiet onRecv)
include R hquiet

private theorem readsExactly_of_not_meetsWrap {s : Connection β τ} (h : Valid s.recvBuff)
    (hw : ¬ MeetsWrap (contents s.recvBuff)) : ReadsExactly contents onRecv s := by
  induction hn : (contents s.recvBuff).length using Nat.strong_induction_on generalizing s with
  | _ n ih =>
    by_cases hq : Ready (contents s.recvBuff)
    · have hlt : (declared (contents s.recvBuff)).toNat + 4 < 2 ^ 32 :=
        Nat.lt_of_not_le fun hle => hw (.here hq.1 hle)
      have hsize := packetSize_of_lt hlt
      have hfit := hq.2
      rw [hsize] at hfit
      obtain ⟨t, hround, hv, hc, hd⟩ := Connection.onReadRound_quiet R h hquiet hq
      rw [hsize] at hc
      have hexact : Delivery.Exact contents
          ⟨⟨0, 4, declared (contents s.recvBuff)⟩, s.recvBuff, t.recvBuff⟩ :=
        ⟨rfl, by rw [Nat.add_comm]; exact hfit, by rw [Nat.add_comm]; exact hc⟩
      by_cases hempty : contents t.recvBuff = []
      · refine ⟨1, t, _, ?_, hd, by simpa using hexact⟩
        rw [Connection.onRead_round 0 hround]
        simp [hempty]
      · have hlen : (contents t.recvBuff).length < n := by
          rw [hc, List.length_drop]
          omega
        obtain ⟨fuel, u, new, hrun, hdel, hall⟩ := ih _ hlen hv
          (by rw [hc]; exact fun hm => hw (.later hq.1 hfit hm)) rfl
        refine ⟨fuel + 1, u, ⟨⟨0, 4, declared (contents s.recvBuff)⟩, s.recvBuff, t.recvBuff⟩ ::
          new, ?_, ?_, ?_⟩
        · rw [Connection.onRead_round fuel hround, decide_eq_true hempty, if_pos rfl, hrun]
        · rw [hdel, hd, List.append_assoc]
          rfl
        · simpa using ⟨hexact, hall⟩
    · exact ⟨1, s, [], by rw [Connection.onRead_round 0 (Connection.onReadRound_stop R h hq)]; rfl,
        (List.append_nil _).symm, by simp⟩

private theorem not_meetsWrap_of_readsExactly {s : Connection β τ} (h : Valid s.recvBuff)
    (hr : ReadsExactly contents onRecv s) : ¬ MeetsWrap (contents s.recvBuff) := by
  obtain ⟨fuel, s', new, hrun, hdel, hall⟩ := hr
  induction fuel generalizing s new with
  | zero => cases hrun
  | succ fuel ih =>
    intro hw
    have hq := hw.ready
    obtain ⟨t, hround, hv, hc, hd⟩ := Connection.onReadRound_quiet R h hquiet hq
    rw [Connection.onRead_round fuel hround] at hrun
    obtain ⟨rest, hrest⟩ : ∃ rest, s'.deliveries = t.deliveries ++ rest := by
      split at hrun
      · exact Connection.onRead_appends R hquiet fuel hv hrun
      · cases hrun
        exact ⟨[], (List.append_nil _).symm⟩
    have hnew : new = ⟨⟨0, 4, declared (contents s.recvBuff)⟩, s.recvBuff, t.recvBuff⟩ :: rest := by
      rw [hdel, hd, List.append_assoc] at hrest
      exact List.append_cancel_left hrest
    subst hnew
    obtain ⟨_, hfit, hleft⟩ := hall _ List.mem_cons_self
    simp only at hfit hleft
    have hlen := congrArg List.length (hleft.symm.trans hc)
    rw [List.length_drop, List.length_drop] at hlen
    have hsize : packetSize (contents s.recvBuff) = (declared (contents s.recvBuff)).toNat + 4 := by
      have := hq.2
      omega
    cases hw with
    | here h4 hge =>
      unfold packetSize at hsize
      omega
    | later h4 hl hlater =>
      rw [hsize] at hc
      rw [← hc] at hlater
      split at hrun
      · exact ih hv rest hrun hrest (fun d hm => hall d (List.mem_cons_of_mem _ hm)) hlater
      · rename_i hmore
        have hnil : contents t.recvBuff = [] := by simpa using hmore
        rw [hnil] at hlater
        cases hlater with
        | here h4 _ => simp at h4
        | later h4 _ _ => simp at h4

end Exactness

/-- On every ring, `on_read` returns and takes exactly the declared packets if
and only if no packet boundary it meets carries a prefix of 2^32-4 or more. -/
theorem onRead_exact_iff {τ : Type} {onRecv : OnRecv Circle τ} (hquiet : Quiet onRecv)
    (s : Connection Circle τ) (hv : s.recvBuff.Valid) :
    ReadsExactly Circle.contents onRecv s ↔ ¬ MeetsWrap s.recvBuff.contents :=
  ⟨not_meetsWrap_of_readsExactly (circle_reads fun _ => True) hquiet ⟨hv, trivial⟩,
    readsExactly_of_not_meetsWrap (circle_reads fun _ => True) hquiet ⟨hv, trivial⟩⟩

def received (bytes : List UInt8) : Connection Circle Unit :=
  ⟨.connected, Circle.loaded bytes, freshBuffer, (), []⟩

/-- One well-formed packet of one byte. -/
theorem onRead_exact_iff_one_byte :
    (received [1, 0, 0, 0, 42]).recvBuff.Valid ∧
      ReadsExactly Circle.contents silent (received [1, 0, 0, 0, 42]) := by
  obtain ⟨hv, hc⟩ := Circle.loaded_valid [1, 0, 0, 0, 42] (by decide)
  refine ⟨hv, (onRead_exact_iff quiet_silent (received [1, 0, 0, 0, 42]) hv).mpr ?_⟩
  change ¬ MeetsWrap (Circle.loaded [1, 0, 0, 0, 42]).contents
  rw [hc]
  intro hw
  cases hw with
  | here h4 hge => revert hge; decide
  | later h4 hl hrest =>
    cases hrest with
    | here h4 hge => revert h4; decide
    | later h4 hl hrest => revert h4; decide

/-- Four bytes `FC FF FF FF` make the size wrap to zero: `on_read` never takes
an exact packet from them. -/
theorem onRead_wrapped_prefix :
    (received [0xFC, 0xFF, 0xFF, 0xFF]).recvBuff.Valid ∧
      ¬ ReadsExactly Circle.contents silent (received [0xFC, 0xFF, 0xFF, 0xFF]) := by
  obtain ⟨hv, hc⟩ := Circle.loaded_valid [0xFC, 0xFF, 0xFF, 0xFF] (by decide)
  refine ⟨hv, fun hr => not_meetsWrap_of_readsExactly (circle_reads fun _ => True) quiet_silent
    (s := received [0xFC, 0xFF, 0xFF, 0xFF]) ⟨hv, trivial⟩ hr ?_⟩
  change MeetsWrap (Circle.loaded [0xFC, 0xFF, 0xFF, 0xFF]).contents
  rw [hc]
  exact .here (by decide) (by decide)

end SimpleNetwork
