import SimpleNetwork.Reactor.OnRead

/-! Readers and child readers at work inside one delivered packet. A reader keeps
the length of its packet, but a read is checked against the whole buffer only. -/
namespace SimpleNetwork
open Words

/-- What `on_recv` does with the readers it holds: `operator>>` into a value of
some type, or a child reader. -/
inductive ReaderCall where
  | get (i : Nat) (size : Fin (2 ^ 63))
  | child (i : Nat)
  deriving DecidableEq, Repr

inductive ReaderResult where
  | absent
  | value (r : Reader) (bytes : List UInt8)
  | packet (r child : Reader)
  | threw (fault : Fault)
  deriving DecidableEq, Repr

namespace ReaderCall

def perform (readers : List Reader) : ReaderCall → EStateM Fault Circle (List Reader × ReaderResult)
  | get i size =>
    match readers[i]? with
    | none => pure (readers, .absent)
    | some r => do
      let (bytes, moved) ← r.get (UInt64.ofNat size)
      pure (readers.set i moved, .value r bytes)
  | child i =>
    match readers[i]? with
    | none => pure (readers, .absent)
    | some r => do
      let (inner, moved) ← r.child
      pure (readers.set i moved ++ [inner], .packet r inner)

/-- The calls of one `on_recv`, which may catch what a call throws and go on. -/
def performAll : List Reader → List ReaderCall → EStateM Fault Circle (List ReaderResult)
  | _, [] => pure []
  | readers, call :: calls => do
    let (readers, result) ← tryCatch (call.perform readers) fun fault => pure (readers, .threw fault)
    let results ← performAll readers calls
    pure (result :: results)

end ReaderCall

def readPacket (calls : List ReaderCall) : EStateM Fault Circle (List ReaderResult) := do
  let r ← Reader.new
  ReaderCall.performAll [r] calls

/-- Bytes come from their place in the payload of the packet being read, a child
packet lies in the payload of its parent, and every other call throws. -/
def ReaderResult.Inside (q : List UInt8) : ReaderResult → Prop
  | absent => True
  | value r bytes => bytes = (q.drop r.tail.toNat).take bytes.length ∧ (bytes = [] ∨
      r.head.toNat + 4 ≤ r.tail.toNat ∧ r.tail.toNat + bytes.length ≤ r.head.toNat + 4 + r.length.toNat)
  | packet r child => r.head.toNat + 4 ≤ child.head.toNat ∧
      child.head.toNat + 4 + child.length.toNat ≤ r.head.toNat + 4 + r.length.toNat
  | threw fault => fault = .thrown .readInvalidOffset

/-- The first frame is in the buffer as a whole. -/
def FirstFrame (q : List UInt8) : Prop := 4 + (declared q).toNat ≤ q.length

instance (q : List UInt8) : Decidable (FirstFrame q) := inferInstanceAs (Decidable (_ ≤ _))

def Confined (c : Circle) : Prop :=
  ∀ calls, ∃ results, readPacket calls c = .ok results c ∧ ∀ x ∈ results, x.Inside c.contents

/-- Nothing but one frame, around a payload too short for a child or around
just such a frame. -/
inductive Sealed : List UInt8 → Prop
  | short {q : List UInt8} (hlen : (declared q).toNat + 4 = q.length) (h : q.length < 8) : Sealed q
  | frame {q : List UInt8} (hlen : (declared q).toNat + 4 = q.length) (h : Sealed (q.drop 4)) : Sealed q

/-- A peek past the end throws. -/
theorem Circle.read_past {c : Circle} (h : c.Valid) {count offset : UInt64} (hoff : offset ≠ noOffset)
    (hsum : offset.toNat + count.toNat < 2 ^ 64) (hr : c.contents.length < offset.toNat + count.toNat) :
    read count offset c = .error (.thrown .readInvalidOffset) c := by
  have hguard : c.getCount < offset + count := by
    rw [UInt64.lt_iff_toNat_lt, ← h.length_contents, toNat_add_of_lt hsum]
    exact hr
  simp only [read, readFuel, if_neg hoff, Outcome.get_bind, if_pos hguard]
  rfl

/-- What a call does to the readers and returns, as the buffered bytes decide it. -/
def ReaderCall.outcome (q : List UInt8) (readers : List Reader) : ReaderCall → List Reader × ReaderResult
  | get i size =>
    match readers[i]? with
    | none => (readers, .absent)
    | some r =>
      if r.tail.toNat + size ≤ q.length then (readers, .value r ((q.drop r.tail.toNat).take size))
      else (readers, .threw (.thrown .readInvalidOffset))
  | child i =>
    match readers[i]? with
    | none => (readers, .absent)
    | some r =>
      let length := declared (q.drop r.tail.toNat)
      if r.tail.toNat + 4 ≤ q.length then
        (readers.set i { r with tail := r.tail + length + 4 } ++ [⟨r.tail, r.tail + 4, length⟩],
          .packet r ⟨r.tail, r.tail + 4, length⟩)
      else (readers, .threw (.thrown .readInvalidOffset))

def ReaderCall.outcomes (q : List UInt8) : List Reader → List ReaderCall → List ReaderResult
  | _, [] => []
  | readers, call :: calls => (call.outcome q readers).2 :: outcomes q (call.outcome q readers).1 calls

section Ring
variable {c : Circle} (h : c.Valid)
include h

private theorem Reader.peek_word (r : Reader) {size : UInt64} (hsize : size.toNat < 2 ^ 63) :
    Buffer.read size r.tail.toUInt64 c =
      if r.tail.toNat + size.toNat ≤
        c.contents.length then .ok ((c.contents.drop r.tail.toNat).take size.toNat) c
      else .error (.thrown .readInvalidOffset) c := by
  have hword := r.tail.toNat_lt
  have htail : r.tail.toUInt64.toNat = r.tail.toNat := UInt32.toNat_toUInt64 _
  split
  · rename_i hin
    have hread := Circle.read_peek h (show r.tail.toUInt64.toNat + size.toNat ≤ _ by rw [htail]; exact hin)
    rw [htail] at hread
    exact hread
  · rename_i hout
    refine Circle.read_past h ?_ (by omega) (by omega)
    intro hno
    have : noOffset.toNat = 2 ^ 64 - 1 := rfl
    rw [← hno, htail] at this
    omega

private theorem Reader.get_ring (r : Reader) {size : UInt64} (hsize : size.toNat < 2 ^ 63) :
    r.get size c = if r.tail.toNat + size.toNat ≤ c.contents.length then
        .ok ((c.contents.drop r.tail.toNat).take size.toNat, r) c
      else .error (.thrown .readInvalidOffset) c := by
  have hpeek := r.peek_word h hsize
  have hcursor : (r.tail.toUInt64 + (c.getCount - c.getCount)).toUInt32 = r.tail := by
    rw [UInt64.sub_self, UInt64.add_zero, UInt32.toUInt32_toUInt64]
  rw [get, Outcome.get_bind]
  split at hpeek
  · rename_i hin
    rw [if_pos hin, Outcome.bind_ok hpeek, Outcome.get_bind]
    change EStateM.Result.ok
      (_, ({ r with tail := (r.tail.toUInt64 + (c.getCount - c.getCount)).toUInt32 } : Reader)) c = _
    rw [hcursor]
  · rename_i hout
    rw [if_neg hout, Outcome.bind_error hpeek]

private theorem Reader.child_ring (r : Reader) :
    r.child c = if r.tail.toNat + 4 ≤ c.contents.length then
        .ok (⟨r.tail, r.tail + 4, declared (c.contents.drop r.tail.toNat)⟩,
          { r with tail := r.tail + declared (c.contents.drop r.tail.toNat) + 4 }) c
      else .error (.thrown .readInvalidOffset) c := by
  have hpeek := r.peek_word h (show (4 : UInt64).toNat < _ by decide)
  rw [child]
  split at hpeek
  · rename_i hin
    rw [if_pos (by simpa using hin), Outcome.bind_ok hpeek]
    rfl
  · rename_i hout
    rw [if_neg (by simpa using hout), Outcome.bind_error hpeek]

private theorem ReaderCall.perform_ring (readers : List Reader) (call : ReaderCall) :
    tryCatch (call.perform readers) (fun fault => pure (readers, .threw fault)) c =
      .ok (call.outcome c.contents readers) c := by
  cases call with
  | get i size =>
    have hword : (UInt64.ofNat size).toNat = size := toNat_ofNat_of_lt (by omega)
    rw [outcome]
    cases hi : readers[i]? with
    | none => exact Outcome.tryCatch_ok (by simp only [perform, hi]; rfl)
    | some r =>
      have hget := r.get_ring h (show (UInt64.ofNat size).toNat < _ by omega)
      have hsame : readers.set i r = readers := by
        obtain ⟨hlt, rfl⟩ := List.getElem?_eq_some_iff.mp hi
        exact List.set_getElem_self hlt
      rw [hword] at hget
      split at hget
      · rename_i hin
        refine Outcome.tryCatch_ok ?_
        simp only [perform, hi, if_pos hin]
        rw [Outcome.bind_ok hget]
        change EStateM.Result.ok (readers.set i r, _) c = _
        rw [hsame]
      · rename_i hout
        simp only [if_neg hout]
        have hthrown : (ReaderCall.get i size).perform readers c = .error (.thrown .readInvalidOffset) c := by
          simp only [perform, hi]
          exact Outcome.bind_error hget
        exact Outcome.tryCatch_error hthrown
  | child i =>
    rw [outcome]
    cases hi : readers[i]? with
    | none => exact Outcome.tryCatch_ok (by simp only [perform, hi]; rfl)
    | some r =>
      have hchild := r.child_ring h
      split at hchild
      · rename_i hin
        refine Outcome.tryCatch_ok ?_
        simp only [perform, hi, if_pos hin]
        rw [Outcome.bind_ok hchild]
        rfl
      · rename_i hout
        simp only [if_neg hout]
        have hthrown : (ReaderCall.child i).perform readers c = .error (.thrown .readInvalidOffset) c := by
          simp only [perform, hi]
          exact Outcome.bind_error hchild
        exact Outcome.tryCatch_error hthrown

private theorem ReaderCall.performAll_ring (readers : List Reader) (calls : List ReaderCall) :
    performAll readers calls c = .ok (outcomes c.contents readers calls) c := by
  induction calls generalizing readers with
  | nil => rfl
  | cons call calls ih =>
    rw [performAll, Outcome.bind_ok (perform_ring h readers call)]
    change (performAll _ calls >>= _) c = _
    rw [Outcome.bind_ok (ih _)]
    rfl

private theorem readPacket_ring (hframe : FirstFrame c.contents) (calls : List ReaderCall) :
    readPacket calls c = .ok (ReaderCall.outcomes c.contents [⟨0, 4, declared c.contents⟩] calls) c := by
  have hread : Buffer.read 4 0 c = .ok (c.contents.take 4) c :=
    Circle.read_peek h (by
      unfold FirstFrame at hframe
      change 0 + 4 ≤ _
      omega)
  have hnew : (Reader.new : EStateM Fault Circle Reader) c = .ok ⟨0, 4, declared c.contents⟩ c := by
    rw [Reader.new, Outcome.bind_ok hread]
    rfl
  rw [readPacket, Outcome.bind_ok hnew]
  exact ReaderCall.performAll_ring h _ calls

end Ring

/-- Every reader of a sealed frame ends where the buffer ends, and what it may
still read is sealed again. -/
def AtEnd (q : List UInt8) (r : Reader) : Prop :=
  r.head.toNat + 4 + r.length.toNat = q.length ∧ r.head.toNat + 4 ≤ r.tail.toNat ∧ r.tail.toNat ≤ q.length ∧
    (q.length < r.tail.toNat + 4 ∨ Sealed (q.drop r.tail.toNat))

section Sealing
variable {q : List UInt8} (hq : q.length < 2 ^ 32)

private theorem Sealed.unwrap (h : Sealed q) :
    (declared q).toNat + 4 = q.length ∧ (q.length < 8 ∨ Sealed (q.drop 4)) := by
  cases h with
  | short hlen h => exact ⟨hlen, .inl h⟩
  | frame hlen h => exact ⟨hlen, .inr h⟩

include hq

theorem AtEnd.child {r : Reader} (h : AtEnd q r) (hin : r.tail.toNat + 4 ≤ q.length) :
    let length := declared (q.drop r.tail.toNat)
    AtEnd q ⟨r.tail, r.tail + 4, length⟩ ∧ AtEnd q { r with tail := r.tail + length + 4 } := by
  obtain ⟨hend, hhead, htail, hshort | hsealed⟩ := h
  · omega
  · obtain ⟨hlen, hinner⟩ := hsealed.unwrap
    rw [List.length_drop] at hlen hinner
    rw [List.drop_drop] at hinner
    have hfour : (r.tail + 4).toNat = r.tail.toNat + 4 := by
      rw [UInt32.toNat_add]
      change (r.tail.toNat + 4) % 2 ^ 32 = _
      omega
    have hlast : (r.tail + declared (q.drop r.tail.toNat) + 4).toNat = q.length := by
      rw [UInt32.toNat_add, UInt32.toNat_add]
      change ((r.tail.toNat + (declared (q.drop r.tail.toNat)).toNat) % 2 ^ 32 + 4) % 2 ^ 32 = _
      omega
    refine ⟨⟨?_, ?_, ?_, ?_⟩, hend, ?_, ?_, .inl ?_⟩
    · change r.tail.toNat + 4 + (declared (q.drop r.tail.toNat)).toNat = _
      omega
    · exact Nat.le_of_eq hfour.symm
    · rw [hfour]
      exact hin
    · rw [hfour]
      exact hinner.imp_left fun hlt => by omega
    · rw [hlast]
      change r.head.toNat + 4 ≤ _
      omega
    · exact Nat.le_of_eq hlast
    · rw [hlast]
      omega

theorem AtEnd.outcome {readers : List Reader} (h : ∀ r ∈ readers, AtEnd q r) (call : ReaderCall) :
    (∀ r ∈ (call.outcome q readers).1, AtEnd q r) ∧ (call.outcome q readers).2.Inside q := by
  cases call with
  | get i size =>
    simp only [ReaderCall.outcome]
    cases hi : readers[i]? with
    | none => exact ⟨h, trivial⟩
    | some r =>
      obtain ⟨hend, hhead, htail, _⟩ := h r (List.mem_of_getElem? hi)
      by_cases hin : r.tail.toNat + size ≤ q.length
      · simp only [if_pos hin]
        refine ⟨h, ?_, .inr ⟨hhead, ?_⟩⟩
        · rw [List.length_take, List.length_drop, Nat.min_eq_left (by omega)]
        · rw [List.length_take, List.length_drop]
          omega
      · simp only [if_neg hin]
        exact ⟨h, rfl⟩
  | child i =>
    simp only [ReaderCall.outcome]
    cases hi : readers[i]? with
    | none => exact ⟨h, trivial⟩
    | some r =>
      have hr := h r (List.mem_of_getElem? hi)
      by_cases hin : r.tail.toNat + 4 ≤ q.length
      · obtain ⟨hchild, hmoved⟩ := hr.child hq hin
        simp only [if_pos hin]
        refine ⟨?_, hr.2.1, Nat.le_of_eq (hchild.1.trans hr.1.symm)⟩
        intro s hs
        rcases List.mem_append.mp hs with hs | hs
        · rcases List.mem_or_eq_of_mem_set hs with hs | rfl
          · exact h s hs
          · exact hmoved
        · rw [List.mem_singleton] at hs
          exact hs ▸ hchild
      · simp only [if_neg hin]
        exact ⟨h, rfl⟩

private theorem AtEnd.outcomes {readers : List Reader} (h : ∀ r ∈ readers, AtEnd q r)
    (calls : List ReaderCall) :
    ∀ x ∈ ReaderCall.outcomes q readers calls, x.Inside q := by
  induction calls generalizing readers with
  | nil => exact fun x hx => nomatch hx
  | cons call calls ih =>
    obtain ⟨hnext, hinside⟩ := AtEnd.outcome hq h call
    intro x hx
    rcases List.mem_cons.mp hx with rfl | hx
    · exact hinside
    · exact ih hnext x hx

def Inescapable (q : List UInt8) (readers : List Reader) : Prop :=
  ∀ calls, ∀ x ∈ ReaderCall.outcomes q readers calls, x.Inside q

omit hq in
theorem Inescapable.next {readers : List Reader} (h : Inescapable q readers) (call : ReaderCall) :
    (call.outcome q readers).2.Inside q ∧ Inescapable q (call.outcome q readers).1 :=
  ⟨h [call] _ List.mem_cons_self, fun calls x hx => h (call :: calls) x (List.mem_cons_of_mem _ hx)⟩

omit hq in
/-- A fresh reader that stays inside ends where the buffer ends: one byte more
than its payload can be read otherwise. -/
theorem Inescapable.ends {readers : List Reader} (h : Inescapable q readers) {i : Nat} {r : Reader}
    (hi : readers[i]? = some r) (htail : r.tail.toNat = r.head.toNat + 4)
    (hin : r.tail.toNat + r.length.toNat ≤ q.length) : r.tail.toNat + r.length.toNat = q.length := by
  by_contra hne
  have hword := r.length.toNat_lt
  have hfit : r.tail.toNat + (r.length.toNat + 1) ≤ q.length := by omega
  have hread := (h.next (.get i ⟨r.length.toNat + 1, by omega⟩)).1
  simp only [ReaderCall.outcome, hi, if_pos hfit] at hread
  obtain ⟨_, hnil | ⟨_, hlast⟩⟩ := hread
  · have := congrArg List.length hnil
    rw [List.length_take, List.length_drop, List.length_nil] at this
    omega
  · rw [List.length_take, List.length_drop] at hlast
    omega

/-- A fresh reader from which no calls escape has a sealed payload. The induction
is on what lies behind its header; a child that fits is again such a reader. -/
theorem Inescapable.sealed (n : Nat) {readers : List Reader} (h : Inescapable q readers) {i : Nat}
    {r : Reader}
    (hi : readers[i]? = some r) (htail : r.tail.toNat = r.head.toNat + 4)
    (hend : r.tail.toNat + r.length.toNat = q.length) (hn : q.length - r.tail.toNat ≤ n) :
    q.length < r.tail.toNat + 4 ∨ Sealed (q.drop r.tail.toNat) := by
  induction n generalizing readers i r with
  | zero => exact .inl (by omega)
  | succ n ih =>
    by_cases hshort : q.length < r.tail.toNat + 4
    · exact .inl hshort
    have hin : r.tail.toNat + 4 ≤ q.length := by omega
    have hfour : (r.tail + 4).toNat = r.tail.toNat + 4 := by
      rw [UInt32.toNat_add]
      change (r.tail.toNat + 4) % 2 ^ 32 = _
      omega
    obtain ⟨hinside, hnext⟩ := h.next (.child i)
    simp only [ReaderCall.outcome, hi, if_pos hin] at hinside hnext
    have hlast : (readers.set i { r with tail := r.tail + declared (q.drop r.tail.toNat) + 4 } ++
        [⟨r.tail, r.tail + 4, declared (q.drop r.tail.toNat)⟩])[readers.length]? =
          some ⟨r.tail, r.tail + 4, declared (q.drop r.tail.toNat)⟩ := by
      rw [List.getElem?_append_right (by rw [List.length_set]), List.length_set, Nat.sub_self]
      rfl
    have hfits : (r.tail + 4).toNat + (declared (q.drop r.tail.toNat)).toNat ≤ q.length := by
      obtain ⟨_, hle⟩ := hinside
      change r.tail.toNat + 4 + (declared (q.drop r.tail.toNat)).toNat ≤ _ at hle
      omega
    have hends := hnext.ends hlast hfour hfits
    have hrest := ih hnext hlast hfour hends (by
      change q.length - (r.tail + 4).toNat ≤ n
      omega)
    have hlen : (declared (q.drop r.tail.toNat)).toNat + 4 = (q.drop r.tail.toNat).length := by
      change (r.tail + 4).toNat + (declared (q.drop r.tail.toNat)).toNat = _ at hends
      rw [List.length_drop]
      omega
    change q.length < (r.tail + 4).toNat + 4 ∨ Sealed (q.drop (r.tail + 4).toNat) at hrest
    rw [hfour, ← List.drop_drop] at hrest
    rcases hrest with hlt | hsealed
    · exact .inr (.short hlen (by rw [List.length_drop]; omega))
    · exact .inr (.frame hlen hsealed)

end Sealing

section Main
variable {c c' : Circle} (h : c.Valid)

include h in
private theorem Circle.Valid.length_lt_word : c.contents.length < 2 ^ 32 := by
  have hlt := h.length_lt
  have hle := h.size_le
  omega

include h in
private theorem confined_iff_sealed (hframe : FirstFrame c.contents) : Confined c ↔ Sealed c.contents := by
  have hq := h.length_lt_word
  have htop : ([⟨0, 4, declared c.contents⟩] : List Reader)[0]? = some ⟨0, 4, declared c.contents⟩ := rfl
  unfold FirstFrame at hframe
  constructor
  · intro hconfined
    have hin : Inescapable c.contents [⟨0, 4, declared c.contents⟩] := by
      intro calls x hx
      obtain ⟨results, hrun, hall⟩ := hconfined calls
      rw [readPacket_ring h hframe] at hrun
      cases hrun
      exact hall x hx
    have hends := hin.ends htop rfl hframe
    have hlen : (declared c.contents).toNat + 4 = c.contents.length := by
      rw [Nat.add_comm]
      exact hends
    rcases hin.sealed hq c.contents.length htop rfl hends (Nat.sub_le _ _) with hlt | hsealed
    · exact .short hlen hlt
    · exact .frame hlen hsealed
  · intro hsealed calls
    obtain ⟨hlen, hinner⟩ := hsealed.unwrap
    refine ⟨_, readPacket_ring h hframe calls, AtEnd.outcomes hq ?_ calls⟩
    intro r hr
    rw [List.mem_singleton] at hr
    subst hr
    refine ⟨?_, Nat.le_refl 4, ?_, hinner⟩
    · change 0 + 4 + (declared c.contents).toNat = _
      omega
    · change 4 ≤ _
      omega

/-- Exactly when readers stay in their packets whatever `on_recv` does with them,
and what follows the first frame makes no difference. -/
theorem readers_confined_iff (h : c.Valid) (h' : c'.Valid) (hframe : FirstFrame c.contents)
    (hframe' : FirstFrame c'.contents)
    (hagree : c.contents.take (4 + (declared c.contents).toNat) =
      c'.contents.take (4 + (declared c'.contents).toNat)) :
    (Confined c ∧ Confined c' ∧
      ∀ calls, ∃ results, readPacket calls c = .ok results c ∧ readPacket calls c' = .ok results c') ↔
    Sealed c.contents ∧ Sealed c'.contents := by
  rw [← confined_iff_sealed h hframe, ← confined_iff_sealed h' hframe']
  refine ⟨fun ⟨hc, hc', _⟩ => ⟨hc, hc'⟩, fun ⟨hc, hc'⟩ => ⟨hc, hc', fun calls => ?_⟩⟩
  have hlen := ((confined_iff_sealed h hframe).mp hc).unwrap.1
  have hlen' := ((confined_iff_sealed h' hframe').mp hc').unwrap.1
  have hsame : c.contents = c'.contents := by
    rw [List.take_of_length_le (by omega), List.take_of_length_le (by omega)] at hagree
    exact hagree
  refine ⟨_, readPacket_ring h hframe calls, ?_⟩
  rw [hsame]
  exact readPacket_ring h' hframe' calls

/-- A frame around an empty frame is sealed. -/
theorem readers_confined_nested :
    Confined (Circle.loaded [4, 0, 0, 0, 0, 0, 0, 0]) := by
  obtain ⟨hv, hc⟩ := Circle.loaded_valid [4, 0, 0, 0, 0, 0, 0, 0] (by decide)
  have hsealed : Sealed (Circle.loaded [4, 0, 0, 0, 0, 0, 0, 0]).contents := by
    rw [hc]
    exact .frame (by decide) (.short (by decide) (by decide))
  exact ((readers_confined_iff hv hv (by rw [hc]; decide) (by rw [hc]; decide) rfl).mpr ⟨hsealed, hsealed⟩).1

/-- A four-byte read from a packet with one byte of payload returns bytes of the next packet. -/
theorem reader_leaves_packet :
    FirstFrame (Circle.loaded [1, 0, 0, 0, 7, 1, 0, 0, 0, 8]).contents ∧
      readPacket [.get 0 4] (Circle.loaded [1, 0, 0, 0, 7, 1, 0, 0, 0, 8]) =
        .ok [.value ⟨0, 4, 1⟩ [7, 1, 0, 0]] (Circle.loaded [1, 0, 0, 0, 7, 1, 0, 0, 0, 8]) ∧
      ¬ Confined (Circle.loaded [1, 0, 0, 0, 7, 1, 0, 0, 0, 8]) := by
  obtain ⟨hv, hc⟩ := Circle.loaded_valid [1, 0, 0, 0, 7, 1, 0, 0, 0, 8] (by decide)
  have hframe : FirstFrame (Circle.loaded [1, 0, 0, 0, 7, 1, 0, 0, 0, 8]).contents := by
    rw [hc]
    decide
  refine ⟨hframe, ?_, ?_⟩
  · have hread : ReaderCall.outcomes [1, 0, 0, 0, 7, 1, 0, 0, 0, 8] [⟨0, 4, 1⟩] [.get 0 4] =
        [.value ⟨0, 4, 1⟩ [7, 1, 0, 0]] := by decide
    rw [readPacket_ring hv hframe, hc, show declared [1, 0, 0, 0, 7, 1, 0, 0, 0, 8] = 1 by decide, hread]
  · rw [confined_iff_sealed hv hframe, hc]
    intro hsealed
    exact absurd hsealed.unwrap.1 (by decide)

end Main
end SimpleNetwork
