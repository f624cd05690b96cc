import SimpleNetwork.Base.Runs
import SimpleNetwork.Buffer.CircleSpec

/-! The ring as a transport uses it refines a byte queue, over whole runs of
fills, drains, removals, reads, space queries and resets. -/
namespace SimpleNetwork
open Runs Words

/-- Transport operations. A fill stores bytes at `get_end()` after a space
query, a take copies bytes from `get_start()` and removes them. -/
inductive TransportOp where
  | fill (bytes : List UInt8)
  | take (count : UInt64)
  | remove (count : UInt64)
  | read (count : UInt64)
  | peek (count offset : UInt64)
  | getSpace
  | reset
  deriving DecidableEq, Repr

namespace TransportOp

def perform : TransportOp → EStateM Fault Circle (List UInt8)
  | .fill bytes => do
    let _ ← Circle.getContinguiousSpace
    Circle.pokeEnd bytes
    Circle.written (UInt64.ofNat bytes.length)
    pure []
  | .take count => do
    let bytes ← Circle.peekStart count
    Circle.remove count
    pure bytes
  | .remove count => do
    Circle.remove count
    pure []
  | .read count => Circle.read count noOffset
  | .peek count offset => Circle.read count offset
  | .getSpace => do
    let _ ← Circle.getSpace
    pure []
  | .reset => do
    modify Circle.reset
    pure []

/-- What a transport respects: fills and takes stay inside the offered runs,
removals and peeks inside the contents. A consuming read may ask for any count. -/
def Allowed (c : Circle) : TransportOp → Prop
  | .fill bytes => ∀ n c', Circle.getContinguiousSpace c = .ok n c' → bytes.length ≤ n.toNat
  | .take count => count ≤ c.getContinguiousCount
  | .remove count => count ≤ c.getCount
  | .peek count offset => offset.toNat + count.toNat ≤ c.getCount.toNat
  | .read _ | .getSpace | .reset => True

end TransportOp

/-- An operation with its reply: the bytes it returned or the error it threw. -/
abbrev TransportEvent := TransportOp × Except Error (List UInt8)

/-- The ring's step. Only thrown errors continue a run: an access outside the
array or a call that never returns has no step at all. -/
def Circle.Step (c : Circle) (e : TransportEvent) (c' : Circle) : Prop :=
  e.1.Allowed c ∧
    match e.2 with
    | .ok bytes => e.1.perform c = .ok bytes c'
    | .error error => e.1.perform c = .error (.thrown error) c'

/-- The abstract queue's step. Space may be refused; then nothing changes. -/
def QueueStep (q : List UInt8) (e : TransportEvent) (q' : List UInt8) : Prop :=
  match e with
  | (.fill bytes, .ok out) => out = [] ∧ q' = q ++ bytes
  | (.take count, .ok out) => out = q.take count.toNat ∧ q' = q.drop count.toNat
  | (.remove count, .ok out) => out = [] ∧ q' = q.drop count.toNat
  | (.read count, .ok out) => count.toNat ≤ q.length ∧ out = q.take count.toNat ∧ q' = q.drop count.toNat
  | (.peek count offset, .ok out) => out = (q.drop offset.toNat).take count.toNat ∧ q' = q
  | (.getSpace, .ok out) => out = [] ∧ q' = q
  | (.reset, .ok out) => out = [] ∧ q' = []
  | (.fill _, .error error) => error = .writeNoSpace ∧ q' = q
  | (.getSpace, .error error) => error = .writeNoSpace ∧ q' = q
  | (.read count, .error error) => error = .readInvalidOffset ∧ q.length < count.toNat ∧ q' = q
  | (_, .error _) => False

namespace Circle

inductive Simulated (op : TransportOp) (c : Circle) : EStateM.Result Fault Circle (List UInt8) → Prop
  | ok {bytes : List UInt8} {c' : Circle} (hv : c'.Valid) (hq : QueueStep c.contents (op, .ok bytes) c'.contents) :
      Simulated op c (.ok bytes c')
  | error {error : Error} {c' : Circle} (hv : c'.Valid)
      (hq : QueueStep c.contents (op, .error error) c'.contents) : Simulated op c (.error (.thrown error) c')

variable {c : Circle} (h : c.Valid)
include h

theorem fill_simulated {bytes : List UInt8} (ha : TransportOp.Allowed c (.fill bytes)) :
    Simulated (.fill bytes) c (TransportOp.perform (.fill bytes) c) := by
  have hout := getContinguiousSpace_outcome h
  have hfill {c' : Circle} (hv : c'.Valid) (hb : bytes.length ≤ (c'.ring hv).freeRun)
    (hc : c'.contents = c.contents) :
      Simulated (.fill bytes) c ((do pokeEnd bytes; written (UInt64.ofNat bytes.length); pure []) c') := by
    obtain ⟨c'', hrun, hv'', hc'', _⟩ := fill_spec hv _ hb
    obtain ⟨u, d, hpoke, hwritten⟩ := Outcome.bind_eq_ok.mp hrun
    rw [Outcome.bind_ok hpoke, Outcome.bind_ok hwritten]
    exact .ok hv'' ⟨rfl, by rw [hc'', hc]⟩
  simp only [TransportOp.perform]
  revert hout
  generalize hg : getContinguiousSpace c = result
  intro hout
  cases hout with
  | same hf =>
    rw [Outcome.bind_ok hg]
    exact hfill h (by rw [← h.toNat_continguiousSpace]; exact ha _ _ hg) rfl
  | grown hf hv hc hs hm =>
    rw [Outcome.bind_ok hg]
    exact hfill hv (by rw [← hv.toNat_continguiousSpace]; exact ha _ _ hg) hc
  | refused hf hm =>
    rw [Outcome.bind_error hg]
    exact .error h ⟨rfl, rfl⟩

private theorem getSpace_simulated : Simulated .getSpace c (TransportOp.perform .getSpace c) := by
  have hout := getSpace_outcome h
  simp only [TransportOp.perform]
  revert hout
  generalize hg : getSpace c = result
  intro hout
  cases hout with
  | same hf =>
    rw [Outcome.bind_ok hg]
    exact .ok h ⟨rfl, rfl⟩
  | grown hf hv hc hs hm =>
    rw [Outcome.bind_ok hg]
    exact .ok hv ⟨rfl, hc⟩
  | refused hf hm =>
    rw [Outcome.bind_error hg]
    exact .error h ⟨rfl, rfl⟩

private theorem remove_simulated {count : UInt64} (ha : TransportOp.Allowed c (.remove count)) :
    Simulated (.remove count) c (TransportOp.perform (.remove count) c) := by
  have hn : count.toNat ≤ c.contents.length := by
    rw [h.length_contents]
    exact UInt64.le_iff_toNat_le.mp ha
  obtain ⟨c', hrun, hv, hc, _⟩ := remove_spec h hn
  simp only [TransportOp.perform]
  rw [Outcome.bind_ok hrun]
  exact .ok hv ⟨rfl, hc⟩

theorem take_simulated {count : UInt64} (ha : TransportOp.Allowed c (.take count)) :
    Simulated (.take count) c (TransportOp.perform (.take count) c) := by
  have hle := UInt64.le_iff_toNat_le.mp ha
  have hrun := h.toNat_startRun
  have hpeek := peekStart_spec h hle
  obtain ⟨c', hrun, hv, hc, _⟩ := remove_spec h (n := count) (by omega)
  simp only [TransportOp.perform]
  rw [Outcome.bind_ok hpeek, Outcome.bind_ok hrun]
  exact .ok hv ⟨rfl, hc⟩

theorem read_simulated (count : UInt64) :
    Simulated (.read count) c (TransportOp.perform (.read count) c) := by
  simp only [TransportOp.perform]
  rcases Nat.lt_or_ge c.contents.length count.toNat with hlt | hle
  · have hguard : c.getCount < 0 + count := UInt64.lt_iff_toNat_lt.mpr (by
      rw [UInt64.zero_add, ← h.length_contents]
      exact hlt)
    have hrun : read count noOffset c = .error (.thrown .readInvalidOffset) c := by
      simp only [read, readFuel, if_true, Outcome.get_bind, if_pos hguard, Outcome.throw_run]
    rw [hrun]
    exact .error h ⟨rfl, hlt, rfl⟩
  · obtain ⟨c', hrun, hv, hc, _⟩ := read_consume h hle
    rw [hrun]
    exact .ok hv ⟨hle, rfl, hc⟩

theorem peek_simulated {count offset : UInt64} (ha : TransportOp.Allowed c (.peek count offset)) :
    Simulated (.peek count offset) c (TransportOp.perform (.peek count offset) c) := by
  have hr : offset.toNat + count.toNat ≤ c.contents.length := by
    rw [h.length_contents]
    exact ha
  simp only [TransportOp.perform]
  rw [read_peek h hr]
  exact .ok h ⟨rfl, rfl⟩

/-- Every allowed operation ends as the queue prescribes. -/
theorem perform_simulated (op : TransportOp) (ha : op.Allowed c) : Simulated op c (op.perform c) := by
  cases op with
  | fill bytes => exact fill_simulated h ha
  | take count => exact take_simulated h ha
  | remove count => exact remove_simulated h ha
  | read count => exact read_simulated h count
  | peek count offset => exact peek_simulated h ha
  | getSpace => exact getSpace_simulated h
  | reset =>
    obtain ⟨hv, hc⟩ := h.reset
    exact .ok hv ⟨rfl, hc⟩

private theorem step_queue {e : TransportEvent} {c' : Circle} (hs : c.Step e c') :
    c'.Valid ∧ QueueStep c.contents e c'.contents := by
  obtain ⟨op, reply⟩ := e
  obtain ⟨ha, hp⟩ := hs
  have hsim := perform_simulated h op ha
  cases reply with
  | ok bytes =>
    simp only at hp
    rw [hp] at hsim
    cases hsim with
    | ok hv hq => exact ⟨hv, hq⟩
  | error error =>
    simp only at hp
    rw [hp] at hsim
    cases hsim with
    | error hv hq => exact ⟨hv, hq⟩

private theorem allowed_progress (op : TransportOp) (ha : op.Allowed c) :
    ∃ reply c', c.Step (op, reply) c' := by
  have hsim := perform_simulated h op ha
  revert hsim
  generalize hg : op.perform c = result
  intro hsim
  cases hsim with
  | @ok bytes c' hv hq => exact ⟨.ok bytes, c', ha, hg⟩
  | @error error c' hv hq => exact ⟨.error error, c', ha, hg⟩

omit h in
theorem new_valid {maxSize defaultSize : UInt64} {k : Nat} (hk : k ≤ 30) (hd : defaultSize.toNat = 2 ^ k)
    (hgrow : ∀ j, defaultSize.toNat * 4 ^ j < maxSize.toNat → defaultSize.toNat * 4 ^ j ≤ 2 ^ 30) :
    (Circle.new maxSize defaultSize).Valid ∧ (Circle.new maxSize defaultSize).contents = [] := by
  have hlen : (Circle.new maxSize defaultSize).data.mem.length = defaultSize.toNat := List.length_replicate
  have hpos : 0 < defaultSize.toNat := by rw [hd]; exact Nat.two_pow_pos k
  have hv : (Circle.new maxSize defaultSize).Valid :=
    ⟨⟨k, hk, hlen.trans hd⟩, by rw [hlen]; exact hgrow, by rw [hlen]; exact hpos, by rw [hlen]; exact hpos⟩
  exact ⟨hv, hv.reset.2⟩

/-- The `n` cells from `get_end()` on lie inside the array and hold no live byte. -/
def FreeWindow (c : Circle) (n : UInt64) : Prop :=
  c.tail.toNat + n.toNat ≤ c.data.mem.length ∧
    ∀ i < n.toNat, ∀ j < c.getCount.toNat, c.tail.toNat + i ≠ (c.head.toNat + j) % c.data.mem.length

/-- A space query keeps the contents and tries to grow only a full ring. It grows
fourfold below the maximum, and when refused throws the space error and changes nothing. -/
def QueryKeeps (query : EStateM Fault Circle UInt64) (c : Circle) : Prop :=
  (∀ n c', query c = .ok n c' → c'.contents = c.contents ∧
    (c' ≠ c → c.Full ∧ c'.data.mem.length = 4 * c.data.mem.length ∧
      c'.data.mem.length < c.data.maxSize.toNat)) ∧
  ∀ fault c', query c = .error fault c' →
    fault = .thrown .writeNoSpace ∧ c' = c ∧ c.Full ∧ c.data.maxSize.toNat ≤ 4 * c.data.mem.length

omit h in
private theorem Valid.freeWindow (hv : c.Valid) :
    FreeWindow c (continguiousSpaceOf c.head c.tail c.getSize) := by
  have hn := hv.toNat_continguiousSpace
  have ht := hv.tail_lt
  refine ⟨?_, fun i hi j hj => ?_⟩
  · rw [hn]
    have : (c.ring hv).freeRun ≤ c.data.mem.length - c.tail.toNat := Nat.min_le_right _ _
    omega
  · rw [hn] at hi
    rw [hv.toNat_getCount] at hj
    have hw := (c.ring hv).freeRun_window i j hi hj
    have hlt := (c.ring hv).count_lt
    have hh := hv.head_lt
    have hm := CellRing.wrap_eq_mod (n := c.data.mem.length) (i := c.head.toNat + j) (by
      change _ < c.data.mem.length at hlt
      omega)
    rw [hm]
    exact hw.2

omit h in
private theorem Valid.space_add_count (hv : c.Valid) :
    (countOf (c.tail + 1) c.head c.getSize).toNat + c.getCount.toNat = c.data.mem.length - 1 := by
  rw [hv.toNat_space, hv.toNat_getCount]
  exact (c.ring hv).room_add_count

omit h in
theorem SpaceOutcome.keeps {space : Circle → UInt64} {query : EStateM Fault Circle UInt64}
    (hout : SpaceOutcome space c (query c)) : QueryKeeps query c := by
  revert hout
  unfold QueryKeeps
  generalize query c = result
  intro hout
  cases hout with
  | same hf =>
    refine ⟨fun n c' he => ?_, fun _ _ he => nomatch he⟩
    cases he
    exact ⟨rfl, fun hne => absurd rfl hne⟩
  | grown hf hv' hc hs hm hlt =>
    refine ⟨fun n c' he => ?_, fun _ _ he => nomatch he⟩
    cases he
    exact ⟨hc, fun _ => ⟨hf, hs, hs ▸ hlt⟩⟩
  | refused hf hm =>
    refine ⟨fun _ _ he => (nomatch he), fun fault c' he => ?_⟩
    cases he
    exact ⟨rfl, rfl, hf, hm⟩

omit h in
private theorem SpaceOutcome.ok_eq {space : Circle → UInt64} {n : UInt64} {c' : Circle} (hv : c.Valid)
    (hout : SpaceOutcome space c (.ok n c')) : c'.Valid ∧ n = space c' := by
  cases hout with
  | same hf => exact ⟨hv, rfl⟩
  | grown hf hv' hc hs hm => exact ⟨hv', rfl⟩

end Circle

/-- Over every run of transport operations from a fresh ring, the live bytes are
the abstract queue's after the same operations with the same replies. Every
allowed call returns or throws, the cursors and the fill window stay inside the
array, and growth is confined to a full ring. -/
theorem circle_refines_queue {maxSize defaultSize : UInt64} {k : Nat} (hk : k ≤ 30)
    (hd : defaultSize.toNat = 2 ^ k)
    (hgrow : ∀ j, defaultSize.toNat * 4 ^ j < maxSize.toNat → defaultSize.toNat * 4 ^ j ≤ 2 ^ 30)
    {es : List TransportEvent} {c : Circle} (hrun : Run Circle.Step (Circle.new maxSize defaultSize) es c) :
    Run QueueStep [] es c.contents ∧
      ((∃ k ≤ 30, c.data.mem.length = 2 ^ k) ∧ c.head.toNat < c.data.mem.length ∧
        c.tail.toNat < c.data.mem.length) ∧
      (∀ op : TransportOp, op.Allowed c → ∃ reply c', c.Step (op, reply) c') ∧
      (∀ n c', Circle.getContinguiousSpace c = .ok n c' → c'.FreeWindow n) ∧
      (∀ n c', Circle.getSpace c = .ok n c' → n.toNat + c'.getCount.toNat = c'.data.mem.length - 1) ∧
      Circle.QueryKeeps Circle.getContinguiousSpace c ∧ Circle.QueryKeeps Circle.getSpace c := by
  obtain ⟨hnew, hempty⟩ := Circle.new_valid hk hd hgrow
  obtain ⟨q, hq, hv, hc⟩ : ∃ q, Run QueueStep [] es q ∧ (c.Valid ∧ c.contents = q) := hrun.simulate
    (R := fun c q => c.Valid ∧ c.contents = q) (fun {c e c' q} hr hs => by
      obtain ⟨hv, rfl⟩ := hr
      have hstep := Circle.step_queue hv hs
      exact ⟨c'.contents, hstep.2, hstep.1, rfl⟩) ⟨hnew, hempty⟩
  subst hc
  have hcs := Circle.getContinguiousSpace_outcome hv
  have hgs := Circle.getSpace_outcome hv
  refine ⟨hq, ⟨hv.pow, hv.head_lt, hv.tail_lt⟩, Circle.allowed_progress hv, fun n c' he => ?_,
    fun n c' he => ?_,
    hcs.keeps, hgs.keeps⟩
  · rw [he] at hcs
    obtain ⟨hv', rfl⟩ := hcs.ok_eq hv
    exact hv'.freeWindow
  · rw [he] at hgs
    obtain ⟨hv', rfl⟩ := hgs.ok_eq hv
    exact hv'.space_add_count

/-- A four-byte ring filled with two bytes, one of them read back. -/
theorem circle_refines_queue_four :
    ∃ c, Run Circle.Step (Circle.new 100 4) [(.fill [7, 9], .ok []), (.read 1, .ok [7])] c ∧
      Run QueueStep [] [(.fill [7, 9], .ok []), (.read 1, .ok [7])] c.contents := by
  have hrun : Run Circle.Step (Circle.new 100 4) [(.fill [7, 9], .ok []), (.read 1, .ok [7])]
      ⟨⟨[7, 9, 0, 0], 100⟩, 1, 2⟩ :=
    .cons (show Circle.Step _ _ ⟨⟨[7, 9, 0, 0], 100⟩, 0, 2⟩ from
      ⟨fun n c' he => by
        have hs : Circle.getContinguiousSpace (Circle.new 100 4) = .ok 3 (Circle.new 100 4) := by
          decide +kernel
        rw [hs] at he
        cases he
        decide, by decide +kernel⟩)
      (.cons ⟨trivial, by decide +kernel⟩ (.nil _))
  exact ⟨_, hrun, (circle_refines_queue (k := 2) (by decide) rfl (fun j hj => by
    have h4 : (4 : UInt64).toNat * 4 ^ j < 100 := hj
    omega) hrun).1⟩

namespace Circle

/-- The `n` last bytes are gone, the write cursor is inside the array again and
stands right behind the last live byte. -/
structure Shortened (c : Circle) (n : UInt64) (d : Circle) : Prop where
  contents_eq : d.contents = c.contents.take (c.contents.length - n.toNat)
  tail_lt : d.tail.toNat < d.data.mem.length
  tail_eq : d.tail.toNat = (d.head.toNat + d.contents.length) % d.data.mem.length

/-- `get_continguious_space()` returns the window of free cells at `get_end()`,
and no shorter one: it reaches the physical end or the cell that stays unused.
Only a full ring is moved to a larger array for it. -/
def EndRun (d : Circle) : Prop :=
  (¬ d.Full → ∃ n, getContinguiousSpace d = .ok n d) ∧
    ∀ n d', getContinguiousSpace d = .ok n d' → d'.contents = d.contents ∧ d'.FreeWindow n ∧
      (d'.tail.toNat + n.toNat = d'.data.mem.length ∨ d'.contents.length + n.toNat + 1 = d'.data.mem.length)

private theorem Valid.endRun {d : Circle} (h : d.Valid) : d.EndRun := by
  have hcases := getContinguiousSpace_cases h
  constructor
  · intro hf
    rcases hcases with ⟨d', hrun, _, _, hsame⟩ | ⟨hfull, _⟩
    · rw [hsame hf] at hrun
      exact ⟨_, hrun⟩
    · exact absurd hfull hf
  · intro n d' hn
    rcases hcases with ⟨e, hrun, hv, hc, _⟩ | ⟨_, hrun⟩
    · obtain ⟨rfl, rfl⟩ := EStateM.Result.ok.inj (hrun.symm.trans hn)
      have hroom := hv.toNat_endRun
      have htail := hv.tail_lt
      have hlt := hv.length_lt
      refine ⟨hc, hv.freeWindow, ?_⟩
      rw [hroom]
      omega
    · rw [hrun] at hn
      cases hn

section RemoveFromBack
variable {c : Circle} {k : Nat} {n : UInt64} (hpow : c.data.mem.length = 2 ^ k) (hk : k < 64)
include hpow hk

private theorem toNat_getSize_pow : c.getSize.toNat = 2 ^ k := by
  rw [getSize, Data.getSize, hpow]
  exact toNat_ofNat_of_lt (Nat.pow_lt_pow_right (by decide) hk)

/-- The masked count is right whether or not the cursor wraps below zero. -/
theorem toNat_getCount_shortened (hn : n.toNat ≤ c.getCount.toNat) :
    (getCount { c with tail := c.tail - n }).toNat = c.getCount.toNat - n.toNat := by
  have hsize := toNat_getSize_pow hpow hk
  have hcount (d : UInt64) : (countOf c.head d c.getSize).toNat = (d - c.head).toNat % 2 ^ k :=
    toNat_and_pred hsize
  change n.toNat ≤ (countOf c.head c.tail c.getSize).toNat at hn
  change (countOf c.head (c.tail - n) c.getSize).toNat = (countOf c.head c.tail c.getSize).toNat - n.toNat
  rw [hcount] at hn ⊢
  rw [hcount]
  have hword : c.tail - n - c.head = c.tail - c.head - n := by grind
  rw [hword, toNat_sub_of_le (Nat.le_trans hn (Nat.mod_le _ _)), sub_mod_of_le hn]

private theorem length_contents_pow : c.contents.length = c.getCount.toNat := by
  have hsize := toNat_getSize_pow hpow hk
  have hcount : c.getCount.toNat = (c.tail - c.head).toNat % 2 ^ k := toNat_and_pred hsize
  have hlt := Nat.mod_lt (c.tail - c.head).toNat (Nat.two_pow_pos k)
  rw [contents, List.length_take, List.length_append, List.length_drop]
  omega

private theorem contents_shortened (hn : n.toNat ≤ c.getCount.toNat) :
    contents { c with tail := c.tail - n } = c.contents.take (c.contents.length - n.toNat) := by
  rw [length_contents_pow hpow hk]
  change (c.data.mem.drop c.head.toNat ++ c.data.mem).take (getCount { c with tail := c.tail - n }).toNat = _
  rw [toNat_getCount_shortened hpow hk hn, contents, List.take_take, Nat.min_eq_left (Nat.sub_le _ _)]

private theorem shortened_iff (hhead : c.head.toNat < c.data.mem.length)
    (htail : c.tail.toNat < c.data.mem.length)
    (hn : n.toNat ≤ c.getCount.toNat) : c.Shortened n { c with tail := c.tail - n } ↔
    n.toNat ≤ c.tail.toNat := by
  have hsize := toNat_getSize_pow hpow hk
  have hcount : c.getCount.toNat = _ := toNat_countOf hsize (by omega) (by omega)
  have hlen : (contents { c with tail := c.tail - n }).length = c.getCount.toNat - n.toNat := by
    rw [contents_shortened hpow hk hn, List.length_take, length_contents_pow hpow hk]
    omega
  constructor
  · intro h
    have hlt : (c.tail - n).toNat < c.data.mem.length := h.tail_lt
    by_contra hmore
    have hhuge : (c.tail - n).toNat = 2 ^ 64 - (n.toNat - c.tail.toNat) := by
      have := n.toNat_lt
      rw [UInt64.toNat_sub]
      omega
    have hroom : c.data.mem.length ≤ 2 ^ 63 := by
      rw [hpow]
      exact Nat.pow_le_pow_right (by decide) (by omega)
    split at hcount <;> omega
  · intro hle
    have hback : (c.tail - n).toNat = c.tail.toNat - n.toNat := toNat_sub_of_le hle
    refine ⟨contents_shortened hpow hk hn, ?_, ?_⟩
    · change (c.tail - n).toNat < c.data.mem.length
      omega
    · change (c.tail - n).toNat =
        (c.head.toNat + (contents { c with tail := c.tail - n }).length) % c.data.mem.length
      rw [hlen, hback, CellRing.wrap_eq_mod (by split at hcount <;> omega)]
      unfold CellRing.wrap
      split at hcount <;> split <;> omega

end RemoveFromBack

/-- The sign test never fires, so what is left is the unsigned difference. -/
theorem removeFromBack_run (c : Circle) (n : UInt64) :
    removeFromBack n c = .ok () { c with tail := c.tail - n } := by
  simp [removeFromBack]

end Circle

/-- `remove_from_back` leaves the write cursor right behind the live bytes exactly
when the bytes it removes do not reach back across the physical end. The live
bytes are right in any case, because the count is masked. -/
theorem circle_removeFromBack_iff {c : Circle} {k : Nat} (hk : k < 64) (hpow : c.data.mem.length = 2 ^ k)
    (hhead : c.head.toNat < c.data.mem.length) (htail : c.tail.toNat < c.data.mem.length) {n : UInt64}
    (hn : n.toNat ≤ c.getCount.toNat) :
    ∃ d, Circle.removeFromBack n c = .ok () d ∧ d.contents = c.contents.take (c.contents.length - n.toNat) ∧
      (c.Shortened n d ↔ n.toNat ≤ c.tail.toNat) ∧
      (k ≤ 30 → (∀ j, c.data.mem.length * 4 ^ j < c.data.maxSize.toNat → c.data.mem.length * 4 ^ j ≤ 2 ^ 30) →
        (c.Shortened n d ∧ d.EndRun ↔ n.toNat ≤ c.tail.toNat)) := by
  have hiff := Circle.shortened_iff hpow hk hhead htail hn
  refine ⟨_, Circle.removeFromBack_run c n, Circle.contents_shortened hpow hk hn, hiff, fun hfit hgrow => ?_⟩
  constructor
  · intro h
    exact hiff.mp h.1
  · intro hle
    have hshort := hiff.mpr hle
    have hvalid : Circle.Valid { c with tail := c.tail - n } :=
      ⟨⟨k, hfit, hpow⟩, hgrow, hhead, hshort.tail_lt⟩
    exact ⟨hshort, hvalid.endRun⟩

theorem circle_removeFromBack_iff_wrapped :
    let c : Circle := ⟨⟨[3, 4, 5, 0, 0, 0, 1, 2], 100⟩, 6, 3⟩
    ∃ d, Circle.removeFromBack 2 c = .ok () d ∧ c.Shortened 2 d ∧ d.EndRun := by
  obtain ⟨d, hd, _, _, hfull⟩ :=
    circle_removeFromBack_iff (c := ⟨⟨[3, 4, 5, 0, 0, 0, 1, 2], 100⟩, 6, 3⟩) (k := 3) (n := 2)
    (by decide) (by decide) (by decide) (by decide) (by decide)
  refine ⟨d, hd, (hfull (by decide) fun j hj => ?_).mpr (by decide)⟩
  have h8 : 8 * 4 ^ j < 100 := hj
  change 8 * 4 ^ j ≤ 2 ^ 30
  omega

/-- Three live bytes across the physical end, two of them removed. -/
theorem circle_removeFromBack_seam :
    ∃ c : Circle, ∃ n : UInt64, c.data.mem.length = 2 ^ 3 ∧ c.head.toNat < c.data.mem.length ∧
      c.tail.toNat < c.data.mem.length ∧ n.toNat ≤ c.getCount.toNat ∧
      ∃ d, Circle.removeFromBack n c = .ok () d ∧ d.contents = [1] ∧ d.tail.toNat = 2 ^ 64 - 1 ∧
        ¬ c.Shortened n d := by
  refine ⟨⟨⟨[3, 0, 0, 0, 0, 0, 1, 2], 100⟩, 6, 1⟩, 2, by decide, by decide, by decide, by decide, ?_⟩
  refine ⟨_, Circle.removeFromBack_run _ _, by decide, by decide, fun h => ?_⟩
  exact absurd h.tail_lt (by decide)

end SimpleNetwork
