import SimpleNetwork.Base.Runs
import SimpleNetwork.Buffer.CircleAppend
import SimpleNetwork.Reactor.Connection

/-! A writer that is flushed any number of times. Each flush stores the whole
length in the header and adds it once more to the length of the parent. -/
namespace SimpleNetwork
open Words Runs

/-- The part of a byte queue's behaviour that a writer relies on, for the calls
that return or throw. -/
structure Stores {β : Type} [Buffer β] (Valid : β → Prop) (contents : β → List UInt8) : Prop where
  count : ∀ {b}, Valid b → (Buffer.getCount b).toNat = (contents b).length
  small : ∀ {b}, Valid b → (contents b).length < 2 ^ 32 - 1
  append : ∀ {b b' data}, Valid b → data.length < 2 ^ 64 → Buffer.write data noOffset b = .ok () b' →
    Valid b' ∧ contents b' = contents b ++ data
  refuse : ∀ {b b' data fault}, Valid b → data.length < 2 ^ 64 →
    Buffer.write data noOffset b = .error fault b' →
    fault.isException → Valid b' ∧ contents b' = contents b
  patch : ∀ {b b' data offset}, Valid b → offset.toNat + data.length ≤ (contents b).length →
    Buffer.write data offset b = .ok () b' →
      Valid b' ∧ contents b' = CellRing.overwrite (contents b) offset.toNat data
  copy : ∀ {source b b' offset count}, Valid source → Valid b →
    Leaves (Buffer.writeFrom source offset count) b b' →
    Valid b' ∧ contents b <+: contents b'

section Circle
variable {c c' : Circle} (h : c.Valid)
include h

private theorem Circle.append_stores {data : List UInt8} (hdata : data.length < 2 ^ 64)
    (hrun : Circle.write data noOffset c = .ok () c') : c'.Valid ∧ c'.contents = c.contents ++ data := by
  have hends := Circle.write_append_ends h hdata
  rw [hrun] at hends
  cases hends with
  | done _ _ hv hc => exact ⟨hv, hc⟩

private theorem Circle.append_refuses {data : List UInt8} (hdata : data.length < 2 ^ 64) {fault : Fault}
    (hrun : Circle.write data noOffset c = .error fault c') (he : fault.isException) :
    c'.Valid ∧ c'.contents = c.contents := by
  have hends := Circle.write_append_ends h hdata
  rw [hrun] at hends
  cases hends with
  | refused _ _ hv hc => exact ⟨hv, hc⟩
  | stuck _ | overrun _ => cases he

private theorem Circle.patch_stores {data : List UInt8} {offset : UInt64}
    (hr : offset.toNat + data.length ≤ c.contents.length)
    (hrun : Circle.write data offset c = .ok () c') :
    c'.Valid ∧ c'.contents = CellRing.overwrite c.contents offset.toNat data := by
  have hends := Circle.write_patch_ends h hr
  rw [hrun] at hends
  cases hends with
  | done _ _ hv hc _ _ _ _ _ => exact ⟨hv, hc⟩

private theorem Circle.copy_stores {source : Circle} (hs : source.Valid) {offset count : UInt64}
    (hleaves : Leaves (Circle.writeFrom source offset count) c c') : c'.Valid ∧ c.contents <+: c'.contents :=
  Circle.writeFromFuel_extends hs (count.toNat + 1) offset count h hleaves

theorem Circle.Valid.length_small : c.contents.length < 2 ^ 32 - 1 := by
  have hlt := h.length_lt
  have hle := h.size_le
  omega

end Circle

theorem circle_stores : Stores Circle.Valid Circle.contents where
  count h := h.length_contents.symm
  small h := h.length_small
  append h hdata hrun := Circle.append_stores h hdata hrun
  refuse h hdata hrun he := Circle.append_refuses h hdata hrun he
  patch h hr hrun := Circle.patch_stores h hr hrun
  copy hs h hleaves := Circle.copy_stores h hs hleaves

namespace Writer
variable {β : Type} [Buffer β] {Valid : β → Prop} {contents : β → List UInt8}
  (hb : Stores Valid contents) {b b' : β}
  (h : Valid b) {w w' : Writer}

/-- A 64-bit number of bytes counted in 32 bits. -/
theorem count_added (length : UInt32) (added : UInt64) :
    (length.toUInt64 + added).toUInt32 = length + UInt32.ofNat added.toNat := by
  rw [← UInt32.toNat_inj, UInt64.toNat_toUInt32, UInt64.toNat_add, UInt32.toNat_toUInt64,
    UInt32.toNat_add, UInt32.toNat_ofNat']
  omega

include hb h

theorem put_stores {value : List UInt8} (hvalue : value.length < 2 ^ 64) (hrun : w.put value b = .ok w' b') :
    Valid b' ∧ contents b' = contents b ++ value ∧ w' = ⟨w.head, w.length + UInt32.ofNat value.length⟩ := by
  rw [put, Outcome.get_bind] at hrun
  obtain ⟨u, b₁, hwrite, hrest⟩ := Outcome.bind_eq_ok.mp hrun
  obtain ⟨hv, hc⟩ := hb.append h hvalue hwrite
  cases hrest
  have hadded : (Buffer.getCount b' - Buffer.getCount b).toNat = value.length := by
    have hgrew := congrArg List.length hc
    rw [List.length_append] at hgrew
    rw [toNat_sub_of_le (by rw [hb.count h, hb.count hv]; omega), hb.count h, hb.count hv]
    omega
  refine ⟨hv, hc, ?_⟩
  rw [count_added, hadded]

private theorem put_refused {value : List UInt8} (hvalue : value.length < 2 ^ 64) {fault : Fault}
    (hrun : w.put value b = .error fault b') (he : fault.isException) :
    Valid b' ∧ contents b' = contents b := by
  rw [put, Outcome.get_bind] at hrun
  rcases Outcome.bind_eq_error.mp hrun with hwrite | ⟨u, b₁, -, hrest⟩
  · exact hb.refuse h hvalue hwrite he
  · cases hrest

private theorem forward_stores {source : β} (hs : Valid source) {r : Reader}
    (hrun : w.forward source r b = .ok w' b') :
    Valid b' ∧ contents b <+: contents b' ∧
      w' = ⟨w.head, w.length + UInt32.ofNat (r.length.toUInt64 + 4 - r.tail.toUInt64).toNat⟩ := by
  obtain ⟨u, b₁, hcopy, hrest⟩ := Outcome.bind_eq_ok.mp hrun
  cases hrest
  obtain ⟨hv, hc⟩ := hb.copy hs h (.inl ⟨u, hcopy⟩)
  refine ⟨hv, hc, ?_⟩
  rw [count_added]

private theorem forward_halted {source : β} (hs : Valid source) {r : Reader} {fault : Fault}
    (hrun : w.forward source r b = .error fault b')
    (he : fault.isException) : Valid b' ∧ contents b <+: contents b' := by
  rw [forward] at hrun
  exact hb.copy hs h (.inr ⟨fault, Outcome.bind_pure_eq_error.mp hrun, he⟩)

theorem new_stores (hrun : new b = .ok w b') :
    Valid b' ∧ contents b' = contents b ++ le32 placeholder ∧ w.head.toNat = (contents b).length ∧
      w.length = 0 := by
  rw [new, Outcome.get_bind] at hrun
  obtain ⟨u, b₁, hwrite, hrest⟩ := Outcome.bind_eq_ok.mp hrun
  obtain ⟨hv, hc⟩ := hb.append h (by rw [length_le32]; decide) hwrite
  have hsmall := hb.small h
  cases hrest
  refine ⟨hv, hc, ?_, rfl⟩
  change (Buffer.getCount b).toUInt32.toNat = _
  rw [UInt64.toNat_toUInt32, hb.count h]
  omega

/-- A child behind the bytes that its parent has counted. -/
theorem child_stores {parent : Writer}
    (hp : parent.head.toNat + 4 + parent.length.toNat = (contents b).length)
    (hrun : parent.child b = .ok w b') :
    Valid b' ∧ contents b' = contents b ++ le32 placeholder ∧ w.head.toNat = (contents b).length ∧
      w.length = 0 := by
  obtain ⟨u, b₁, hwrite, hrest⟩ := Outcome.bind_eq_ok.mp hrun
  obtain ⟨hv, hc⟩ := hb.append h (by rw [length_le32]; decide) hwrite
  have hsmall := hb.small h
  cases hrest
  refine ⟨hv, hc, ?_, rfl⟩
  change (parent.head + parent.length + 4).toNat = _
  rw [UInt32.toNat_add, UInt32.toNat_add]
  change ((parent.head.toNat + parent.length.toNat) % 2 ^ 32 + 4) % 2 ^ 32 = _
  omega

theorem flush_stores (hin : w.head.toNat + 4 ≤ (contents b).length) {parent p : Option Writer}
    (hrun : w.flush parent b = .ok p b') :
    Valid b' ∧ contents b' = CellRing.overwrite (contents b) w.head.toNat (le32 w.length) ∧
      p = parent.map fun p => { p with length := p.length + w.length + 4 } := by
  obtain ⟨u, b₁, hwrite, hrest⟩ := Outcome.bind_eq_ok.mp hrun
  cases hrest
  obtain ⟨hv, hc⟩ := hb.patch h (by rw [length_le32, UInt32.toNat_toUInt64]; exact hin) hwrite
  rw [UInt32.toNat_toUInt64] at hc
  exact ⟨hv, hc, rfl⟩

end Writer

/-- A connection with a writer on its `send_buff_`, and the writer's parent. -/
structure Flushing (β τ : Type) where
  connection : Connection β τ
  writer : Writer
  parent : Option Writer

/-- A call on the writer. A forwarded reader comes with the number of bytes that
it appended, also where it threw; a refused value appended none. -/
inductive WriterCall (β : Type) where
  | put (value : List UInt8)
  | refused (value : List UInt8)
  | forward (source : β) (reader : Reader) (added : Nat)
  | halted (source : β) (reader : Reader) (added : Nat)
  | flush
  | send

namespace WriterCall
variable {β : Type}

/-- `connection::send(packet::writer&)` flushes as well. -/
def flushes : WriterCall β → Bool
  | flush | send => true
  | _ => false

def counted : WriterCall β → Nat
  | put value => value.length
  | forward _ r _ => (r.length.toUInt64 + 4 - r.tail.toUInt64).toNat
  | _ => 0

def added : WriterCall β → Nat
  | put value => value.length
  | forward _ _ n | halted _ _ n => n
  | _ => 0

end WriterCall

/-- What some calls add up to: the bytes counted, those in the buffer, what the
last flush stored, and what all of them reported to the parent. -/
structure Tally where
  counted : Nat := 0
  added : Nat := 0
  stored : Option Nat := none
  reported : Nat := 0

namespace Tally
variable {β : Type}

def next (t : Tally) (call : WriterCall β) : Tally where
  counted := t.counted + call.counted
  added := t.added + call.added
  stored := if call.flushes then some t.counted else t.stored
  reported := if call.flushes then t.reported + (t.counted + 4) else t.reported

def of (calls : List (WriterCall β)) : Tally := calls.foldl next {}

private theorem of_concat (calls : List (WriterCall β)) (call : WriterCall β) :
    of (calls ++ [call]) = (of calls).next call := by
  rw [of, List.foldl_append]
  rfl

/-- Calls that do not flush leave what the flushes did. -/
theorem foldl_quiet {calls : List (WriterCall β)} (hquiet : ∀ call ∈ calls, call.flushes = false)
    (t : Tally) :
    (calls.foldl next t).stored = t.stored ∧ (calls.foldl next t).reported = t.reported := by
  induction calls generalizing t with
  | nil => exact ⟨rfl, rfl⟩
  | cons call calls ih =>
    obtain ⟨hstored, hreported⟩ := ih (fun c hc => hquiet c (List.mem_cons_of_mem call hc)) (t.next call)
    have hno := hquiet call List.mem_cons_self
    rw [List.foldl_cons, hstored, hreported, next, hno]
    exact ⟨rfl, rfl⟩

/-- The last flush stores what is counted before it. -/
theorem of_split (before : List (WriterCall β)) {after : List (WriterCall β)} {last : WriterCall β}
    (hlast : last.flushes)
    (hquiet : ∀ call ∈ after, call.flushes = false) :
    (of (before ++ last :: after)).stored = some (of before).counted ∧
      (of (before ++ last :: after)).reported = (of before).reported + ((of before).counted + 4) := by
  obtain ⟨hstored, hreported⟩ := foldl_quiet hquiet ((of before).next last)
  rw [of, List.foldl_append, List.foldl_cons]
  change (after.foldl next ((of before).next last)).stored = _ ∧
    (after.foldl next ((of before).next last)).reported = _
  rw [hstored, hreported]
  exact ⟨if_pos hlast, if_pos hlast⟩

/-- No call flushes, or there is a last one that does. -/
theorem last_flush (calls : List (WriterCall β)) : (∀ call ∈ calls, call.flushes = false) ∨
    ∃ before last after, calls = before ++ last :: after ∧ last.flushes ∧ ∀ call ∈ after,
      call.flushes = false := by
  induction calls with
  | nil => exact .inl nofun
  | cons call calls ih =>
    rcases ih with hquiet | ⟨before, last, after, rfl, hlast, hafter⟩
    · cases hflushes : call.flushes with
      | true => exact .inr ⟨[], call, calls, rfl, hflushes, hquiet⟩
      | false => exact .inl (List.forall_mem_cons.mpr ⟨hflushes, hquiet⟩)
    · exact .inr ⟨call :: before, last, after, rfl, hlast, hafter⟩

def header (t : Tally) : UInt32 :=
  match t.stored with
  | none => placeholder
  | some n => UInt32.ofNat n

end Tally

namespace Flushing
variable {β τ : Type} {Valid : β → Prop} {contents : β → List UInt8} {front : List UInt8}
  {p₀ : Option Writer} {t : Tally}
  {s s' : Flushing β τ}

/-- The header holds the number of bytes behind it, and the parent's `length_`
that of the bytes behind the parent's header. -/
structure Settled (contents : β → List UInt8) (s : Flushing β τ) : Prop where
  header : s.writer.head.toNat + 4 + (ofLe32
    (((contents s.connection.sendBuff).drop s.writer.head.toNat).take 4)).toNat =
    (contents s.connection.sendBuff).length
  parent : ∀ p, s.parent = some p →
    p.head.toNat + 4 + p.length.toNat = (contents s.connection.sendBuff).length

structure Follows (Valid : β → Prop) (contents : β → List UInt8) (front : List UInt8)
    (p₀ : Option Writer) (t : Tally)
    (s : Flushing β τ) : Prop where
  valid : Valid s.connection.sendBuff
  bytes : ∃ body, contents s.connection.sendBuff = front ++ (le32 t.header ++ body) ∧ body.length = t.added
  head : s.writer.head.toNat = front.length
  length : s.writer.length = UInt32.ofNat t.counted
  parent : s.parent = p₀.map fun p => { p with length := p.length + UInt32.ofNat t.reported }

theorem Follows.length_contents (h : Follows Valid contents front p₀ t s) :
    (contents s.connection.sendBuff).length = front.length + 4 + t.added := by
  obtain ⟨body, hbytes, hbody⟩ := h.bytes
  rw [hbytes, List.length_append, List.length_append, length_le32, hbody, Nat.add_assoc]

/-- More bytes at the end, and what `length_` counts of them. -/
theorem Follows.append (h : Follows Valid contents front p₀ t s) {call : WriterCall β}
    (hquiet : call.flushes = false)
    {c : Connection β τ} {w : Writer} (hv : Valid c.sendBuff)
    (hc : contents s.connection.sendBuff <+: contents c.sendBuff)
    (hadded : (contents c.sendBuff).length = (contents s.connection.sendBuff).length + call.added)
    (hw : w = ⟨s.writer.head, s.writer.length + UInt32.ofNat call.counted⟩) :
    Follows Valid contents front p₀ (t.next call) ⟨c, w, s.parent⟩ := by
  obtain ⟨body, hbytes, hbody⟩ := h.bytes
  obtain ⟨more, hmore⟩ := hc
  have hheader : (t.next call).header = t.header := by
    rw [Tally.header, Tally.next, hquiet]
    rfl
  have hlen : more.length = call.added := by
    rw [← hmore, List.length_append] at hadded
    omega
  refine ⟨hv, ⟨body ++ more, ?_, ?_⟩, ?_, ?_, ?_⟩
  · rw [hheader, ← hmore, hbytes, List.append_assoc, List.append_assoc]
  · rw [List.length_append, hbody, hlen]
    rfl
  · rw [hw]
    exact h.head
  · rw [hw, h.length]
    exact (UInt32.ofNat_add _ _).symm
  · change s.parent = _
    rw [h.parent, Tally.next, hquiet]
    rfl

section Runs
variable [Buffer β] (hb : Stores Valid contents)

/-- One call that returns or throws. `send` is a flush and `do_write()`, which takes nothing
from `send_buff_` here. -/
def Step (Valid : β → Prop) (contents : β → List UInt8)
    (doWrite : EStateM Fault (Connection β τ) Unit) (s : Flushing β τ) :
    WriterCall β → Flushing β τ → Prop
  | .put value, s' =>
    value.length < 2 ^ 64 ∧ ∃ w c, Connection.send (s.writer.put value) s.connection = .ok w c ∧
      s' = ⟨c, w, s.parent⟩
  | .refused value, s' => value.length < 2 ^ 64 ∧ ∃ (fault : Fault) (c : Connection β τ),
      Connection.send (s.writer.put value) s.connection = .error fault c ∧ fault.isException ∧
        s' = ⟨c, s.writer, s.parent⟩
  | .forward source r added, s' =>
    Valid source ∧ ∃ w c, Connection.send (s.writer.forward source r) s.connection = .ok w c ∧
      (contents c.sendBuff).length = (contents s.connection.sendBuff).length + added ∧ s' = ⟨c, w, s.parent⟩
  | .halted source r added, s' => Valid source ∧ ∃ (fault : Fault) (c : Connection β τ),
      Connection.send (s.writer.forward source r) s.connection = .error fault c ∧ fault.isException ∧
      (contents c.sendBuff).length = (contents s.connection.sendBuff).length + added ∧
        s' = ⟨c, s.writer, s.parent⟩
  | .flush, s' =>
    ∃ p c, Connection.send (s.writer.flush s.parent) s.connection = .ok p c ∧ s' = ⟨c, s.writer, p⟩
  | .send, s' =>
    ∃ p c c', Connection.send (s.writer.flush s.parent) s.connection = .ok p c ∧
      Leaves doWrite c c' ∧
      c'.sendBuff = c.sendBuff ∧ s' = ⟨c', s.writer, p⟩

/-- A writer right after its constructor. Its parent, if it has one, has counted
the bytes behind its own header. -/
inductive Begun (Valid : β → Prop) (contents : β → List UInt8) : Flushing β τ → Prop
  | root {c c' : Connection β τ} {w : Writer} (hv : Valid c.sendBuff) (hnew : Connection.send Writer.new c = .ok w c') :
      Begun Valid contents ⟨c', w, none⟩
  | child {c c' : Connection β τ} {p w : Writer} (hv : Valid c.sendBuff)
      (hp : p.head.toNat + 4 + p.length.toNat = (contents c.sendBuff).length)
        (hnew : Connection.send p.child c = .ok w c') :
      Begun Valid contents ⟨c', w, some p⟩

/-- A flush stores what is counted and reports it. -/
theorem Follows.flush (hb : Stores Valid contents) (h : Follows Valid contents front p₀ t s)
    {call : WriterCall β}
    (hflushes : call.flushes) (hcounted : call.counted = 0) (hadded : call.added = 0)
    {p : Option Writer} {b : β}
    (hrun : s.writer.flush s.parent s.connection.sendBuff = .ok p b) {c : Connection β τ}
    (hc : c.sendBuff = b) :
    Follows Valid contents front p₀ (t.next call) ⟨c, s.writer, p⟩ := by
  obtain ⟨body, hbytes, hbody⟩ := h.bytes
  have hlen := h.length_contents
  obtain ⟨hv, hover, hp⟩ := Writer.flush_stores hb h.valid (by rw [h.head]; omega) hrun
  have hheader : (t.next call).header = s.writer.length := by
    rw [Tally.header, Tally.next, hflushes, h.length]
    rfl
  rw [hbytes, h.head, CellRing.overwrite_append, length_le32, List.drop_left' (length_le32 _),
    List.append_assoc] at hover
  refine ⟨hc ▸ hv, ⟨body, ?_, ?_⟩, h.head, ?_, ?_⟩
  · rw [hheader]
    exact hc ▸ hover
  · rw [hbody, Tally.next, hadded]
    rfl
  · rw [h.length, Tally.next, hcounted]
    rfl
  · change p = _
    have hreported : (t.next call).reported = t.reported + (t.counted + 4) := if_pos hflushes
    rw [hp, h.parent, h.length, Option.map_map, hreported]
    congr 1
    funext p
    change Writer.mk p.head (p.length + UInt32.ofNat t.reported + UInt32.ofNat t.counted + 4) =
      Writer.mk p.head (p.length + UInt32.ofNat (t.reported + (t.counted + 4)))
    rw [UInt32.ofNat_add, UInt32.ofNat_add, ← UInt32.add_assoc, ← UInt32.add_assoc]
    rfl

include hb in
theorem Follows.step {doWrite : EStateM Fault (Connection β τ) Unit} {call : WriterCall β}
    (h : Follows Valid contents front p₀ t s) (hstep : Step Valid contents doWrite s call s') :
    Follows Valid contents front p₀ (t.next call) s' := by
  have hsame : s.writer = ⟨s.writer.head, s.writer.length + UInt32.ofNat 0⟩ :=
    congrArg (Writer.mk s.writer.head) (UInt32.add_zero s.writer.length).symm
  cases call with
  | put value =>
    obtain ⟨hvalue, w, c, hrun, rfl⟩ := hstep
    obtain ⟨b, hput, rfl⟩ := Connection.send_eq_ok hrun
    obtain ⟨hv, hc, hw⟩ := Writer.put_stores hb h.valid hvalue hput
    refine h.append rfl hv ?_ ?_ hw
    · rw [hc]
      exact List.prefix_append _ _
    · rw [hc, List.length_append]
      rfl
  | refused value =>
    obtain ⟨hvalue, fault, c, hrun, he, rfl⟩ := hstep
    obtain ⟨b, hput, rfl⟩ := Connection.send_eq_error hrun
    obtain ⟨hv, hc⟩ := Writer.put_refused hb h.valid hvalue hput he
    exact h.append rfl hv ⟨[], (List.append_nil _).trans hc.symm⟩ (congrArg List.length hc) hsame
  | forward source r added =>
    obtain ⟨hs, w, c, hrun, hadded, rfl⟩ := hstep
    obtain ⟨b, hforward, rfl⟩ := Connection.send_eq_ok hrun
    obtain ⟨hv, hc, hw⟩ := Writer.forward_stores hb h.valid hs hforward
    exact h.append rfl hv hc hadded hw
  | halted source r added =>
    obtain ⟨hs, fault, c, hrun, he, hadded, rfl⟩ := hstep
    obtain ⟨b, hforward, rfl⟩ := Connection.send_eq_error hrun
    obtain ⟨hv, hc⟩ := Writer.forward_halted hb h.valid hs hforward he
    exact h.append rfl hv hc hadded hsame
  | flush =>
    obtain ⟨p, c, hrun, rfl⟩ := hstep
    obtain ⟨b, hflush, rfl⟩ := Connection.send_eq_ok hrun
    exact h.flush hb rfl rfl rfl hflush rfl
  | send =>
    obtain ⟨p, c, c', hrun, -, hkept, rfl⟩ := hstep
    obtain ⟨b, hflush, rfl⟩ := Connection.send_eq_ok hrun
    exact h.flush hb rfl rfl rfl hflush hkept

include hb in
theorem Follows.run {doWrite : EStateM Fault (Connection β τ) Unit} {calls : List (WriterCall β)}
    (h : Follows Valid contents front p₀ {} s) (hrun : Run (Step Valid contents doWrite) s calls s') :
    Follows Valid contents front p₀ (.of calls) s' := by
  have hnone : Follows Valid contents front p₀ (.of ([] : List (WriterCall β))) s := h
  refine hrun.history (I := fun calls s => Follows Valid contents front p₀ (.of calls) s) ?_ hnone
  intro calls s call s' hs hstep
  rw [Tally.of_concat]
  exact hs.step hb hstep

include hb in
theorem Begun.follows (h : Begun Valid contents s) : ∃ front, Follows Valid contents front s.parent {} s ∧
    ∀ p, s.parent = some p → p.head.toNat + 4 + p.length.toNat = front.length := by
  cases h with
  | @root c c' w hv hnew =>
    obtain ⟨b, hrun, rfl⟩ := Connection.send_eq_ok hnew
    obtain ⟨hv', hc, hhead, hlength⟩ := Writer.new_stores hb hv hrun
    refine ⟨contents c.sendBuff, ⟨hv', ⟨[], ?_, rfl⟩, hhead, hlength, rfl⟩, nofun⟩
    rw [List.append_nil]
    exact hc
  | @child c c' p w hv hp hnew =>
    obtain ⟨b, hrun, rfl⟩ := Connection.send_eq_ok hnew
    obtain ⟨hv', hc, hhead, hlength⟩ := Writer.child_stores hb hv hp hrun
    refine ⟨contents c.sendBuff, ⟨hv', ⟨[], ?_, rfl⟩, hhead, hlength, ?_⟩, ?_⟩
    · rw [List.append_nil]
      exact hc
    · exact congrArg some (congrArg (Writer.mk p.head) (UInt32.add_zero p.length).symm)
    · rintro p' ⟨⟩
      exact hp

include hb in
/-- The header and the parent's length, from the tally of the calls. -/
theorem Follows.settled_iff (h : Follows Valid contents front p₀ t s)
    (hfront : ∀ p, p₀ = some p → p.head.toNat + 4 + p.length.toNat = front.length) :
    s.Settled contents ↔ (∃ n, t.stored = some n ∧ n % 2 ^ 32 = t.added) ∧
      (p₀.isSome → t.reported % 2 ^ 32 = t.added + 4) := by
  have hlen := h.length_contents
  have hsmall := hb.small h.valid
  obtain ⟨body, hbytes, -⟩ := h.bytes
  have hstored : ofLe32 (((contents s.connection.sendBuff).drop s.writer.head.toNat).take 4) = t.header := by
    rw [hbytes, h.head, List.drop_left, List.take_left' (length_le32 _), ofLe32_le32]
  have hheader : s.writer.head.toNat + 4 + t.header.toNat = (contents s.connection.sendBuff).length ↔
      ∃ n, t.stored = some n ∧ n % 2 ^ 32 = t.added := by
    rw [h.head, hlen, Tally.header]
    cases t.stored with
    | none =>
      refine iff_of_false (fun hall => ?_) nofun
      change front.length + 4 + (2 ^ 32 - 1) = _ at hall
      omega
    | some n =>
      change front.length + 4 + (UInt32.ofNat n).toNat = _ ↔ _
      rw [UInt32.toNat_ofNat']
      constructor
      · exact fun hall => ⟨n, rfl, by omega⟩
      · rintro ⟨n', ⟨⟩, hn⟩
        omega
  have hparent (p : Writer) (hp : p₀ = some p) :
      p.head.toNat + 4 + (p.length + UInt32.ofNat t.reported).toNat =
        (contents s.connection.sendBuff).length ↔
        t.reported % 2 ^ 32 = t.added + 4 := by
    have hplace := hfront p hp
    rw [hlen, UInt32.toNat_add, UInt32.toNat_ofNat']
    omega
  constructor
  · rintro ⟨hstart, hcounted⟩
    rw [hstored] at hstart
    refine ⟨hheader.mp hstart, fun hsome => ?_⟩
    obtain ⟨p, hp⟩ := Option.isSome_iff_exists.mp hsome
    exact (hparent p hp).mp (hcounted _ (by rw [h.parent, hp]; rfl))
  · rintro ⟨hflushed, hreported⟩
    refine ⟨by rw [hstored]; exact hheader.mpr hflushed, fun p hp => ?_⟩
    rw [h.parent] at hp
    obtain ⟨p', hp', rfl⟩ := Option.map_eq_some_iff.mp hp
    exact (hparent p' hp').mpr (hreported (by rw [hp']; rfl))

end Runs

/-- The last flush comes when `length_` is the number of bytes behind the header in
the end, and what the flushes before it have reported to a parent is nothing in 32
bits. So it is when there are none. -/
def FlushedOnce (child : Bool) (calls : List (WriterCall β)) : Prop :=
  ∃ before last after, calls = before ++ last :: after ∧ last.flushes ∧
    (∀ call ∈ after, call.flushes = false) ∧
    (Tally.of before).counted % 2 ^ 32 = (Tally.of calls).added ∧
    (child → 2 ^ 32 ∣ (Tally.of before).reported)

private theorem flushedOnce_iff {child : Bool} {calls : List (WriterCall β)}
    (hsmall : (Tally.of calls).added + 4 < 2 ^ 32) :
    (∃ n, (Tally.of calls).stored = some n ∧ n % 2 ^ 32 = (Tally.of calls).added) ∧
        (child → (Tally.of calls).reported % 2 ^ 32 = (Tally.of calls).added + 4) ↔
      FlushedOnce child calls := by
  constructor
  · rintro ⟨⟨n, hn, hcounted⟩, hreported⟩
    rcases Tally.last_flush calls with hquiet | ⟨before, last, after, rfl, hlast, hafter⟩
    · have hnone := (Tally.foldl_quiet hquiet {}).1
      cases hn.symm.trans hnone
    · obtain ⟨hstored, htotal⟩ := Tally.of_split before hlast hafter
      obtain rfl := Option.some.inj (hn.symm.trans hstored)
      refine ⟨before, last, after, rfl, hlast, hafter, hcounted, fun hchild => ?_⟩
      have hall := hreported hchild
      omega
  · rintro ⟨before, last, after, rfl, hlast, hafter, hcounted, hreported⟩
    obtain ⟨hstored, htotal⟩ := Tally.of_split before hlast hafter
    refine ⟨⟨_, hstored, hcounted⟩, fun hchild => ?_⟩
    have hall := hreported hchild
    omega

end Flushing

/-- After any calls on a writer the header and its parent's length are right
exactly if the last flush sees all bytes and no earlier one has been reported. -/
theorem flush_settles_iff {τ : Type} {doWrite : EStateM Fault (Connection Circle τ) Unit}
    {s s' : Flushing Circle τ}
    {calls : List (WriterCall Circle)} (h : s.Begun Circle.Valid Circle.contents)
    (hrun : Run (Flushing.Step Circle.Valid Circle.contents doWrite) s calls s') :
    s'.Settled Circle.contents ↔ Flushing.FlushedOnce s.parent.isSome calls := by
  obtain ⟨front, hstart, hfront⟩ := h.follows circle_stores
  have hend := hstart.run circle_stores hrun
  have hlen := hend.length_contents
  have hsmall := circle_stores.small hend.valid
  rw [hend.settled_iff circle_stores hfront, Flushing.flushedOnce_iff (by omega)]

/-- A connection whose `send_buff_` is a ring of 32 cells with these bytes at its start. -/
def ringOf (bytes : List UInt8) : Connection Circle Unit :=
  ⟨.connected, ⟨⟨List.replicate 32 0, 32⟩, 0, 0⟩,
    ⟨⟨bytes ++ List.replicate (32 - bytes.length) 0, 32⟩, 0, UInt64.ofNat bytes.length⟩, (), []⟩

/-- A child behind an empty parent at the start of the ring. -/
theorem child_begun : Flushing.Begun Circle.Valid Circle.contents
    ⟨ringOf [255, 255, 255, 255, 255, 255, 255, 255], ⟨4, 0⟩, some ⟨0, 0⟩⟩ := by
  have hv : Circle.Valid (ringOf [255, 255, 255, 255]).sendBuff := by
    refine ⟨⟨5, by decide, by decide⟩, fun j hj => ?_, by decide, by decide⟩
    have hpow := Circle.one_le_pow_four j
    change 32 * 4 ^ j < 32 at hj
    omega
  exact .child hv (by decide +kernel) (by decide +kernel)

/-- A value in the child. -/
theorem child_put : Flushing.Step Circle.Valid Circle.contents (pure ())
    ⟨ringOf [255, 255, 255, 255, 255, 255, 255, 255], ⟨4, 0⟩, some ⟨0, 0⟩⟩ (.put [7])
    ⟨ringOf [255, 255, 255, 255, 255, 255, 255, 255, 7], ⟨4, 1⟩, some ⟨0, 0⟩⟩ :=
  ⟨by decide, ⟨4, 1⟩, _, by decide +kernel, rfl⟩

/-- Its flush stores one byte, and five are counted in the parent. -/
theorem child_flush : Flushing.Step Circle.Valid Circle.contents (pure ())
    ⟨ringOf [255, 255, 255, 255, 255, 255, 255, 255, 7], ⟨4, 1⟩, some ⟨0, 0⟩⟩ .flush
    ⟨ringOf [255, 255, 255, 255, 1, 0, 0, 0, 7], ⟨4, 1⟩, some ⟨0, 5⟩⟩ :=
  ⟨_, _, by decide +kernel, rfl⟩

theorem flush_settles_iff_child : Flushing.Settled Circle.contents
    ⟨ringOf [255, 255, 255, 255, 1, 0, 0, 0, 7], ⟨4, 1⟩, some ⟨0, 5⟩⟩ :=
  (flush_settles_iff child_begun (.cons child_put (.cons child_flush (.nil _)))).mpr
    ⟨[.put [7]], .flush, [], rfl, rfl, nofun, by decide, fun _ => ⟨0, by decide⟩⟩

/-- Flushed twice, the child of five bytes is counted as ten. -/
theorem flush_counted_twice : ∃ s s' : Flushing Circle Unit, s.Begun Circle.Valid Circle.contents ∧
    Run (Flushing.Step Circle.Valid Circle.contents (pure ())) s [.put [7], .flush, .flush] s' ∧
    s'.parent = some ⟨0, 10⟩ ∧ Circle.contents s'.connection.sendBuff = [255, 255, 255, 255, 1, 0, 0, 0, 7] ∧
    ¬ s'.Settled Circle.contents := by
  have hagain : Flushing.Step Circle.Valid Circle.contents (pure ())
      ⟨ringOf [255, 255, 255, 255, 1, 0, 0, 0, 7], ⟨4, 1⟩, some ⟨0, 5⟩⟩ .flush
      ⟨ringOf [255, 255, 255, 255, 1, 0, 0, 0, 7], ⟨4, 1⟩, some ⟨0, 10⟩⟩ := ⟨_, _, by decide +kernel, rfl⟩
  refine ⟨_, ⟨ringOf [255, 255, 255, 255, 1, 0, 0, 0, 7], ⟨4, 1⟩, some ⟨0, 10⟩⟩, child_begun,
    .cons child_put (.cons child_flush (.cons hagain (.nil _))), rfl, by decide +kernel, fun hsettled => ?_⟩
  exact absurd (hsettled.parent _ rfl) (by decide +kernel)

end SimpleNetwork
