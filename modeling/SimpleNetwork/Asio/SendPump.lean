import SimpleNetwork.Asio.Socket
import SimpleNetwork.Buffer.CircleSpec
import SimpleNetwork.Base.Runs
import Mathlib.Data.List.Perm.Basic

/-! The tcp send pump: `do_write`, its handler, and the bit that keeps at most
one write wait outstanding, on any send buffer that exposes a prefix. -/
namespace SimpleNetwork
open Words Runs

/-- The part of a byte queue's behaviour that the send pump relies on. -/
structure Drains {β : Type} [SendBuffer β] (Valid : β → Prop) (contents : β → List UInt8) : Prop where
  count : ∀ {b}, Valid b → (Buffer.getCount b = 0 ↔ contents b = [])
  within : ∀ {b}, Valid b → (SendBuffer.getContinguiousCount b).toNat ≤ (contents b).length
  start : ∀ {b}, Valid b → SendBuffer.peekStart (SendBuffer.getContinguiousCount b) b =
    .ok ((contents b).take (SendBuffer.getContinguiousCount b).toNat) b
  remove : ∀ {b n}, Valid b → n.toNat ≤ (contents b).length →
    ∃ b', Buffer.remove n b = .ok () b' ∧ Valid b' ∧ contents b' = (contents b).drop n.toNat

/-- The SENDING bit. -/
def isSending {β κ : Type} (s : Sock β κ) : Prop := s.socket.flags &&& sending ≠ 0

instance {β κ : Type} (s : Sock β κ) : Decidable (isSending s) := inferInstanceAs (Decidable (_ ≠ _))

def writeWaits {β κ : Type} (s : Sock β κ) : Nat := s.socket.pending.countP (·.operation = .waitWrite)

def Action.sentBytes : Action → List UInt8
  | .sent bytes => bytes
  | _ => []

def sentBytes {β κ : Type} (s : Sock β κ) : List UInt8 := s.socket.trace.flatMap fun e => e.action.sentBytes

private theorem sending_clear (f : UInt8) : ~~~f &&& sending ≠ 0 ↔ f &&& sending = 0 := by
  have hall : ∀ v : Fin 256, ~~~(UInt8.ofFin v) &&& sending ≠ 0 ↔ UInt8.ofFin v &&& sending = 0 := by
    decide +kernel
  exact hall f.toFin

private theorem sending_set (f : UInt8) : (f ||| sending) &&& sending ≠ 0 := by
  have hall : ∀ v : Fin 256, (UInt8.ofFin v ||| sending) &&& sending ≠ 0 := by decide +kernel
  exact hall f.toFin

theorem sending_unset (f : UInt8) : (f &&& ~~~sending) &&& sending = 0 := by
  have hall : ∀ v : Fin 256, (UInt8.ofFin v &&& ~~~sending) &&& sending = 0 := by decide +kernel
  exact hall f.toFin

section Pump
variable {β κ : Type} [SendBuffer β] {Valid : β → Prop} {contents : β → List UInt8}
  (cb : Callbacks β κ) {s : Sock β κ}

/-- Between handlers: the bit is set exactly when one write wait is outstanding,
bytes are only left with a wait, and nothing got lost. -/
structure Pumping (Valid : β → Prop) (contents : β → List UInt8) (appended : List UInt8)
    (s : Sock β κ) : Prop where
  valid : Valid s.sendBuff
  waits : writeWaits s = if isSending s then 1 else 0
  stalled : contents s.sendBuff ≠ [] → isSending s
  lossless : sentBytes s ++ contents s.sendBuff = appended

namespace Connection

/-- `do_write` restores the rule that bytes are only left with a wait. -/
theorem doWriteTcp_pumps (D : Drains Valid contents) {appended : List UInt8} (hv : Valid s.sendBuff)
    (hw : writeWaits s = if isSending s then 1 else 0) (hl : sentBytes s ++ contents s.sendBuff = appended) :
    ∃ s', doWriteTcp s = .ok () s' ∧ Pumping Valid contents appended s' := by
  unfold doWriteTcp
  rw [Outcome.get_bind]
  by_cases hbit : isSending s
  · have hset : ¬ (~~~s.socket.flags &&& sending ≠ 0) := fun hc => hbit ((sending_clear _).mp hc)
    rw [if_neg hset]
    exact ⟨s, rfl, hv, hw, fun _ => hbit, hl⟩
  · have hclear : ~~~s.socket.flags &&& sending ≠ 0 := (sending_clear _).mpr (not_not.mp hbit)
    rw [if_pos hclear]
    by_cases hempty : contents s.sendBuff = []
    · have hzero : ¬ Buffer.getCount s.sendBuff > 0 := by
        rw [(D.count hv).mpr hempty]
        decide
      rw [if_neg hzero]
      exact ⟨s, rfl, hv, hw, fun hne => absurd hempty hne, hl⟩
    · have hpos : Buffer.getCount s.sendBuff > 0 :=
        UInt64.pos_iff_ne_zero.mpr fun hz => hempty ((D.count hv).mp hz)
      rw [if_pos hpos]
      refine ⟨_, rfl, hv, ?_, fun _ => sending_set _, hl⟩
      rw [if_neg hbit] at hw
      have hone : isSending { s with socket := { s.socket with
          flags := s.socket.flags ||| sending
          pending := s.socket.pending ++ [⟨.waitWrite, s.socket.session⟩] } } := sending_set _
      rw [if_pos hone]
      change (s.socket.pending ++ [(⟨.waitWrite, s.socket.session⟩ : Pending)]).countP _ = 1
      rw [List.countP_append]
      change writeWaits s + 1 = 1
      rw [hw]

/-- One send moves bytes from the front of the queue to the wire. -/
theorem sendOnce_moves (D : Drains Valid contents) {appended : List UInt8} (hv : Valid s.sendBuff)
    (hl : sentBytes s ++ contents s.sendBuff = appended) :
    ∃ s', sendOnce s = .ok (s.socket.answers.headD ⟨.wouldBlock, [], 0⟩).ec s' ∧ Valid s'.sendBuff ∧
      s'.socket.flags = s.socket.flags ∧ s'.socket.pending = s.socket.pending ∧
      s'.socket.answers = s.socket.answers.tail ∧ sentBytes s' ++ contents s'.sendBuff = appended := by
  obtain ⟨n, hn⟩ : ∃ n, n = (SendBuffer.getContinguiousCount s.sendBuff).toNat := ⟨_, rfl⟩
  obtain ⟨a, ha⟩ : ∃ a, a = s.socket.answers.headD ⟨.wouldBlock, [], 0⟩ := ⟨_, rfl⟩
  obtain ⟨t, ht, -, htb, -, hts⟩ := nextAnswer_run s
  have hpeek := D.start hv
  rw [← hn] at hpeek
  unfold sendOnce
  rw [Outcome.get_bind, Outcome.bind_ok (send_ok hpeek), Outcome.bind_ok ht, ← ha]
  dsimp only
  by_cases htaken : ((contents s.sendBuff).take n).take a.count = []
  · rw [if_neg (not_not.mpr htaken)]
    exact ⟨t, rfl, by
      rw [htb]; exact hv, by
      rw [hts], by rw [hts], by rw [hts], by rw [sentBytes, htb, hts]; exact hl⟩
  · rw [if_pos htaken]
    obtain ⟨m, hm⟩ : ∃ m, m = (((contents s.sendBuff).take n).take a.count).length := ⟨_, rfl⟩
    have hle : m ≤ n := by
      rw [hm, List.length_take, List.length_take]
      omega
    have hword : (UInt64.ofNat m).toNat = m := toNat_ofNat_of_lt (by
      have := (SendBuffer.getContinguiousCount s.sendBuff).toNat_lt
      omega)
    have hfit : m ≤ (contents s.sendBuff).length := by
      have := D.within hv
      omega
    obtain ⟨b, hb, hbv, hbc⟩ := D.remove (n := UInt64.ofNat m) hv (by rw [hword]; exact hfit)
    have hfront : ((contents s.sendBuff).take n).take a.count = (contents s.sendBuff).take m := by
      rw [List.take_take, hm, List.length_take, List.length_take]
      apply List.take_eq_take_iff.mpr
      omega
    rw [hword] at hbc
    rw [← htb] at hb
    rw [← hm, hfront, Outcome.bind_ok (send_ok hb)]
    refine ⟨_, rfl, hbv, ?_, ?_, ?_, ?_⟩
    · change t.socket.flags = _
      rw [hts]
    · change t.socket.pending = _
      rw [hts]
    · change t.socket.answers = _
      rw [hts]
    change (t.socket.trace ++ [_]).flatMap _ ++ contents b = appended
    rw [hts, List.flatMap_append, hbc, List.append_assoc]
    change sentBytes s ++ ((contents s.sendBuff).take m ++ [] ++ (contents s.sendBuff).drop m) = appended
    rw [List.append_nil, List.take_append_drop, hl]

/-- The send loop takes bytes from the front of the queue and stops at the
latest with the tape. -/
theorem sendLoop_drains (D : Drains Valid contents) {appended : List UInt8} {fuel : Nat}
    (hfuel : s.socket.answers.length < fuel) (hv : Valid s.sendBuff)
    (hok : ∀ a ∈ s.socket.answers, a.ec = .success ∨ a.ec = .wouldBlock)
    (hl : sentBytes s ++ contents s.sendBuff = appended) :
    ∃ s', sendLoop cb fuel s = .ok true s' ∧ Valid s'.sendBuff ∧ s'.socket.flags = s.socket.flags ∧
      s'.socket.pending = s.socket.pending ∧ sentBytes s' ++ contents s'.sendBuff = appended := by
  induction fuel generalizing s with
  | zero => omega
  | succ fuel ih =>
    obtain ⟨t, ht, htv, htf, htp, hta, htl⟩ := sendOnce_moves D hv hl
    rw [sendLoop, Outcome.bind_ok ht]
    cases ha : s.socket.answers with
    | nil => exact ⟨t, rfl, htv, htf, htp, htl⟩
    | cons a rest =>
      rw [ha] at hta hfuel hok
      rw [List.headD_cons]
      rcases hok a List.mem_cons_self with hec | hec
      · rw [hec]
        simp only [Outcome.get_bind]
        split
        · obtain ⟨u, hu, huv, huf, hup, hul⟩ := ih (s := t) (by rw [hta]; simpa using hfuel) htv
            (by rw [hta]; exact fun b hb => hok b (List.mem_cons_of_mem _ hb)) htl
          exact ⟨u, hu, huv, huf.trans htf, hup.trans htp, hul⟩
        · exact ⟨t, rfl, htv, htf, htp, htl⟩
      · rw [hec]
        exact ⟨t, rfl, htv, htf, htp, htl⟩

/-- `open()` is a read wait and a `do_write`. -/
theorem openTcp_ok {s' : Sock β κ} (hrun : openTcp s = .ok () s') :
    ∃ t : Sock β κ, doWriteTcp t = .ok () s' ∧ t.sendBuff = s.sendBuff ∧ t.socket.flags = s.socket.flags ∧
      t.socket.pending = s.socket.pending ++ [⟨.waitRead, s.socket.session⟩] ∧ sentBytes t = sentBytes s := by
  obtain ⟨_, t, ht, hrun⟩ := Outcome.bind_eq_ok.mp hrun
  cases ht
  obtain ⟨_, t, ht, hrun⟩ := Outcome.bind_eq_ok.mp hrun
  rw [nonBlocking, Outcome.get_bind] at ht
  split at ht
  · cases ht
    obtain ⟨_, t, ht, hrun⟩ := Outcome.bind_eq_ok.mp hrun
    cases ht
    refine ⟨_, hrun, rfl, rfl, rfl, ?_⟩
    change (s.socket.trace ++ [_]).flatMap _ = s.socket.trace.flatMap _
    rw [List.flatMap_append]
    exact List.append_nil _
  · cases ht

/-- The write handler, on a state whose wait was just taken out. -/
theorem handleWaitWrite_pumps (D : Drains Valid contents) {appended : List UInt8} (hv : Valid s.sendBuff)
    (hok : ∀ a ∈ s.socket.answers, a.ec = .success ∨ a.ec = .wouldBlock) (hw : writeWaits s = 0)
    (hl : sentBytes s ++ contents s.sendBuff = appended) :
    ∃ s', handleWaitWrite cb .success s = .ok () s' ∧ Pumping Valid contents appended s' := by
  obtain ⟨t, ht, htv, htf, htp, htl⟩ := sendLoop_drains cb D (Nat.lt_succ_self _) hv hok hl
  obtain ⟨u, hu, hpump⟩ := doWriteTcp_pumps D
    (s := { t with socket := { t.socket with flags := t.socket.flags &&& ~~~sending } }) htv (by
      split
      · rename_i hbit
        exact absurd (sending_unset _) hbit
      · change t.socket.pending.countP _ = 0
        rw [htp]
        exact hw) htl
  refine ⟨u, ?_, hpump⟩
  rw [handleWaitWrite, if_neg (not_not.mpr rfl), Outcome.get_bind, Outcome.bind_ok ht]
  exact hu

end Connection

inductive PumpEvent where
  | append (frame : List UInt8)
  | openSocket
  | complete (i : Nat) (answers : List Answer)

def appendedFrames (events : List PumpEvent) : List UInt8 :=
  events.flatMap fun
    | .append frame => frame
    | _ => []

def completing (s : Sock β κ) (i : Nat) (answers : List Answer) : Sock β κ :=
  { s with socket := { s.socket with pending := s.socket.pending.eraseIdx i, answers := answers } }

def Completes (s : Sock β κ) (i : Nat) (answers : List Answer) : Prop :=
  (∃ p, s.socket.pending[i]? = some p ∧ p.operation = .waitWrite) ∧
    ∀ a ∈ answers, a.ec = .success ∨ a.ec = .wouldBlock

/-- One event of a tcp socket before its first close. -/
def PumpStep (Valid : β → Prop) (contents : β → List UInt8) (cb : Callbacks β κ) (s : Sock β κ) :
    PumpEvent → Sock β κ → Prop
  | .append frame, s' => ∃ b, Valid b ∧ contents b = contents s.sendBuff ++ frame ∧
      Connection.doWriteTcp { s with sendBuff := b } = .ok () s'
  | .openSocket, s' => Connection.openTcp s = .ok () s'
  | .complete i answers, s' => Completes s i answers ∧
      Connection.handleWaitWrite cb .success (completing s i answers) = .ok () s'

omit [SendBuffer β] in
private theorem Pumping.waits_completing {appended : List UInt8}
    (h : Pumping Valid contents appended s) {i : Nat}
    {answers : List Answer} (hc : Completes s i answers) : writeWaits (completing s i answers) = 0 := by
  obtain ⟨⟨p, hp, hop⟩, -⟩ := hc
  obtain ⟨hi, hget⟩ := List.getElem?_eq_some_iff.mp hp
  have hperm := (List.getElem_cons_eraseIdx_perm hi).countP_eq (·.operation = .waitWrite)
  rw [List.countP_cons, hget, if_pos (decide_eq_true hop)] at hperm
  have hle : writeWaits s ≤ 1 := by
    rw [h.waits]
    split <;> omega
  change (s.socket.pending.eraseIdx i).countP _ = 0
  unfold writeWaits at hle
  omega

/-- One event keeps the pump's invariant and appends its frame. -/
theorem Pumping.step (D : Drains Valid contents) {es : List PumpEvent} {e : PumpEvent} {s' : Sock β κ}
    (h : Pumping Valid contents (appendedFrames es) s) (hstep : PumpStep Valid contents cb s e s') :
    Pumping Valid contents (appendedFrames (es ++ [e])) s' := by
  have happ : appendedFrames (es ++ [e]) = appendedFrames es ++ appendedFrames [e] := List.flatMap_append
  cases e with
  | append frame =>
    obtain ⟨b, hb, hbc, hrun⟩ := hstep
    obtain ⟨t, ht, hpump⟩ := Connection.doWriteTcp_pumps D (s := { s with sendBuff := b }) hb h.waits (by
      change sentBytes s ++ contents b = appendedFrames (es ++ [.append frame])
      rw [happ, hbc, ← List.append_assoc, h.lossless]
      simp [appendedFrames])
    rw [hrun] at ht
    cases ht
    exact hpump
  | openSocket =>
    obtain ⟨t, hrun, htb, htf, htp, hts⟩ := Connection.openTcp_ok hstep
    have hbit : isSending t ↔ isSending s := by
      unfold isSending
      rw [htf]
    obtain ⟨u, hu, hpump⟩ := Connection.doWriteTcp_pumps D (s := t) (by rw [htb]; exact h.valid)
      (by
        rw [writeWaits, htp, List.countP_append]
        simp only [hbit]
        exact h.waits) (by rw [hts, htb])
    rw [hrun] at hu
    cases hu
    rw [happ, ← h.lossless]
    simpa [appendedFrames] using hpump
  | complete i answers =>
    obtain ⟨hc, hrun⟩ := hstep
    obtain ⟨t, ht, hpump⟩ := Connection.handleWaitWrite_pumps cb D (s := completing s i answers) h.valid hc.2
      (h.waits_completing hc) h.lossless
    rw [hrun] at ht
    cases ht
    rw [happ]
    simpa [appendedFrames] using hpump

/-- A socket as constructed: nothing buffered or sent, no write wait. -/
structure Unsent (Valid : β → Prop) (contents : β → List UInt8) (s : Sock β κ) : Prop where
  valid : Valid s.sendBuff
  empty : contents s.sendBuff = []
  flags : s.socket.flags = 0
  waits : writeWaits s = 0
  sent : sentBytes s = []

end Pump

/-- Rings are send buffers of this kind. -/
theorem circle_drains : Drains Circle.Valid Circle.contents where
  count h := h.getCount_eq_zero
  within h := Nat.le_trans (Nat.le_of_eq h.toNat_startRun) (Nat.min_le_left _ _)
  start h := Circle.peekStart_spec h (Nat.le_refl _)
  remove h hn := by
    obtain ⟨c', hrun, hv, hc, -⟩ := Circle.remove_spec h hn
    exact ⟨c', hrun, hv, hc⟩

/-- The send pump loses nothing and never stalls: in every run before the first
close the SENDING bit is set exactly when one write wait is outstanding, there
is never a second one, bytes are only left with a wait, and the bytes sent
followed by the buffered ones are the appended frames. No handler of such a
run fails. -/
theorem send_pump_keeps_up {β κ : Type} [SendBuffer β] {Valid : β → Prop} {contents : β → List UInt8}
    (D : Drains Valid contents) {cb : Callbacks β κ} {s₀ s : Sock β κ} (hnew : Unsent Valid contents s₀)
    {events : List PumpEvent} (hrun : Run (PumpStep Valid contents cb) s₀ events s) :
    (isSending s ↔ writeWaits s = 1) ∧ writeWaits s ≤ 1 ∧ (contents s.sendBuff ≠ [] → writeWaits s = 1) ∧
      sentBytes s ++ contents s.sendBuff = appendedFrames events ∧
      (∀ frame b, Valid b → contents b = contents s.sendBuff ++ frame →
        ∃ s', Connection.doWriteTcp { s with sendBuff := b } = .ok () s') ∧
      ∀ i answers, Completes s i answers → ∃ s', PumpStep Valid contents cb s (.complete i answers) s' := by
  have hstart : Pumping Valid contents (appendedFrames []) s₀ := by
    refine ⟨hnew.valid, ?_, fun hne => absurd hnew.empty hne, ?_⟩
    · have hclear : ¬ isSending s₀ := by
        unfold isSending
        rw [hnew.flags]
        decide
      rw [hnew.waits, if_neg hclear]
    · rw [hnew.sent, hnew.empty]
      rfl
  have hpump : Pumping Valid contents (appendedFrames events) s :=
    hrun.history (I := fun es s => Pumping Valid contents (appendedFrames es) s)
      (fun h hs => h.step cb D hs) hstart
  have hwaits := hpump.waits
  refine ⟨?_, ?_, ?_, hpump.lossless, ?_, ?_⟩
  · by_cases hbit : isSending s
    · rw [if_pos hbit] at hwaits
      exact ⟨fun _ => hwaits, fun _ => hbit⟩
    · rw [if_neg hbit] at hwaits
      exact ⟨fun hb => absurd hb hbit, fun hone => absurd hone (by omega)⟩
  · rw [hwaits]
    split <;> omega
  · intro hne
    rw [hwaits, if_pos (hpump.stalled hne)]
  · intro frame b hb hbc
    obtain ⟨s', hs', -⟩ := Connection.doWriteTcp_pumps D (s := { s with sendBuff := b }) hb hpump.waits rfl
    exact ⟨s', hs'⟩
  · intro i answers hc
    obtain ⟨s', hs', -⟩ := Connection.handleWaitWrite_pumps cb D (s := completing s i answers)
      hpump.valid hc.2
      (hpump.waits_completing hc) rfl
    exact ⟨s', hc, hs'⟩

def openedSock : Sock Circle Unit := ⟨.connected, Circle.loaded [], Circle.loaded [], { isOpen := true }, []⟩

/-- Three bytes of which the socket takes two before it would block. -/
theorem send_pump_partial_send : ∃ s : Sock Circle Unit,
    Run (PumpStep Circle.Valid Circle.contents ⟨pure (), pure (), silent⟩) openedSock
      [.openSocket, .append [7, 8, 9], .complete 1 [⟨.success, [], 2⟩, ⟨.wouldBlock, [], 0⟩]] s ∧
      sentBytes s = [7, 8] ∧ s.sendBuff.contents = [9] ∧ isSending s ∧ writeWaits s = 1 := by
  obtain ⟨hv, -⟩ := Circle.loaded_valid [7, 8, 9] (by decide)
  obtain ⟨hv₀, hc₀⟩ := Circle.loaded_valid [] (by decide)
  have hnew : Unsent Circle.Valid Circle.contents openedSock := ⟨hv₀, hc₀, rfl, rfl, rfl⟩
  let cb : Callbacks Circle Unit := ⟨pure (), pure (), silent⟩
  let s₁ := Outcome.left (Connection.openTcp openedSock)
  let s₂ := Outcome.left (Connection.doWriteTcp { s₁ with sendBuff := Circle.loaded [7, 8, 9] })
  let answers : List Answer := [⟨.success, [], 2⟩, ⟨.wouldBlock, [], 0⟩]
  let s₃ := Outcome.left (Connection.handleWaitWrite cb .success (completing s₂ 1 answers))
  have hrun : Run (PumpStep Circle.Valid Circle.contents cb) openedSock
      [.openSocket, .append [7, 8, 9], .complete 1 answers] s₃ := by
    refine .cons (u := s₁) ?_ (.cons (u := s₂) ?_ (.cons ?_ (.nil s₃)))
    · exact Outcome.eq_ok_left (by decide +kernel)
    · exact ⟨_, hv, by decide +kernel, Outcome.eq_ok_left (by decide +kernel)⟩
    · exact ⟨⟨⟨⟨.waitWrite, 0⟩, by decide +kernel, rfl⟩, by decide +kernel⟩,
        Outcome.eq_ok_left (by decide +kernel)⟩
  have hsent : sentBytes s₃ = [7, 8] := by decide +kernel
  obtain ⟨hbit, -, hwaits, hlossless, -⟩ := send_pump_keeps_up circle_drains hnew hrun
  have hleft : s₃.sendBuff.contents = [9] := by
    rw [hsent] at hlossless
    exact List.append_cancel_left (hlossless.trans (by decide : appendedFrames _ = [7, 8] ++ [9]))
  have hone : writeWaits s₃ = 1 := hwaits (by rw [hleft]; exact List.cons_ne_nil _ _)
  exact ⟨s₃, hrun, hsent, hleft, hbit.mpr hone, hone⟩

end SimpleNetwork
