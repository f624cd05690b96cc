import SimpleNetwork.Asio.Connector
import SimpleNetwork.Reactor.Flushing
import SimpleNetwork.Reactor.Framing

/-! One packet through `get_packet_writer()`, `operator<<` and `send()`, on a ring:
what is in `send_buff_` when `do_write()` starts, and what the writer's destructor
does behind it. -/
namespace SimpleNetwork
open Words

/-- The destructor of a flushed writer leaves a buffer alone in which its header
still stands, or in which nothing stands at its place. -/
theorem Writer.destroy_sent {β : Type} [Buffer β] {Valid : β → Prop} {contents : β → List UInt8}
    (R : Reads Valid contents)
    {w : Writer} {b : β} (hv : Valid b)
    (hflushed : (contents b).length ≤ w.head.toNat ∨
      w.head.toNat + 4 ≤ (contents b).length ∧
        ofLe32 (((contents b).drop w.head.toNat).take 4) ≠ placeholder) :
    (w.destroy : EStateM Fault β Unit) b = .ok () b := by
  have hcount : Buffer.getCount b > w.head.toUInt64 ↔ w.head.toNat < (contents b).length := by
    change w.head.toUInt64 < Buffer.getCount b ↔ _
    rw [UInt64.lt_iff_toNat_lt, R.count hv, UInt32.toNat_toUInt64]
  rw [Writer.destroy, Outcome.get_bind]
  rcases hflushed with hbehind | ⟨hin, hne⟩
  · rw [if_neg (mt hcount.mp (Nat.not_lt.mpr hbehind))]
    rfl
  · have hpeek : (Buffer.read 4 w.head.toUInt64 : EStateM Fault β (List UInt8)) b =
        .ok (((contents b).drop w.head.toNat).take 4) b := by
      have hread : (Buffer.read 4 w.head.toUInt64 : EStateM Fault β (List UInt8)) b =
          .ok (((contents b).drop w.head.toUInt64.toNat).take (4 : UInt64).toNat) b := R.peek hv (by
        rw [UInt32.toNat_toUInt64]
        exact hin)
      rw [UInt32.toNat_toUInt64] at hread
      exact hread
    rw [if_pos (hcount.mpr (by omega)), Outcome.bind_ok hpeek, if_neg hne]
    rfl

/-- A flushed header does not look like one that was not flushed. -/
theorem flushed_ne_placeholder {payload : List UInt8} (h : payload.length < 2 ^ 32 - 1) :
    UInt32.ofNat payload.length ≠ placeholder := by
  intro heq
  have hword := congrArg UInt32.toNat heq
  rw [UInt32.toNat_ofNat', Nat.mod_eq_of_lt (by omega)] at hword
  rw [hword] at h
  exact absurd h (by decide)

namespace Connection
variable {κ : Type} {t : Transport} {K : Ikcp κ} {cb : Callbacks Circle κ} {payload : List UInt8}
  {s s' : Sock Circle κ}

/-- Code that returns while it holds a writer has not run its destructor. -/
theorem holding_eq_ok {α : Type} {w : Writer} {x : EStateM Fault (Sock Circle κ) α} {a : α}
    (h : holding w x s = .ok a s') : x s = .ok a s' := by
  cases hx : x s with
  | ok b u =>
    rw [holding, Outcome.tryCatch_ok hx] at h
    exact h
  | error e u =>
    rw [holding, Outcome.tryCatch_error hx] at h
    obtain ⟨_, v, -, hthrow⟩ := Outcome.bind_eq_ok.mp h
    cases hthrow

def writePacket (payload : List UInt8) : EStateM Fault Circle (Option Writer) := do
  let w ← Writer.new
  let w ← w.put payload
  w.flush none

/-- `do_write()` starts with the whole packet behind what was there before. -/
theorem sendPacket_eq_ok (hv : s.sendBuff.Valid) (hsize : payload.length < 2 ^ 64)
    (h : sendPacket t K cb payload s = .ok () s') :
    ∃ (b : Circle) (w : Writer) (u : Sock Circle κ), b.Valid ∧
      b.contents = s.sendBuff.contents ++ encodePacket payload ∧
      w.head.toNat = s.sendBuff.contents.length ∧ (∃ p, writePacket payload s.sendBuff = .ok p b) ∧
      doWrite t K cb { s with sendBuff := b } = .ok () u ∧ send w.destroy u = .ok () s' := by
  obtain ⟨w₀, s₀, hnew, h⟩ := Outcome.bind_eq_ok.mp h
  obtain ⟨b₀, hmade, rfl⟩ := send_eq_ok hnew
  obtain ⟨hv₀, hc₀, hhead, hlength⟩ := Writer.new_stores circle_stores hv hmade
  obtain ⟨w₁, s₁, hput, h⟩ := Outcome.bind_eq_ok.mp h
  obtain ⟨b₁, hstored, rfl⟩ := send_eq_ok (holding_eq_ok hput)
  obtain ⟨hv₁, hc₁, hw₁⟩ := Writer.put_stores circle_stores hv₀ hsize hstored
  have hhead₁ : w₁.head.toNat = s.sendBuff.contents.length := by rw [hw₁, hhead]
  have hlength₁ : w₁.length = UInt32.ofNat payload.length := by rw [hw₁, hlength, UInt32.zero_add]
  obtain ⟨_, u, hwrite, hdestroy⟩ := Outcome.bind_eq_ok.mp h
  obtain ⟨p, s₂, hflush, hwrite⟩ := Outcome.bind_eq_ok.mp (holding_eq_ok hwrite)
  obtain ⟨b₂, hflushed, rfl⟩ := send_eq_ok hflush
  have hin : w₁.head.toNat + 4 ≤ b₁.contents.length := by
    rw [hc₁, hc₀, List.length_append, List.length_append, length_le32, hhead₁]
    omega
  obtain ⟨hv₂, hc₂, -⟩ := Writer.flush_stores circle_stores hv₁ hin hflushed
  refine ⟨b₂, w₁, u, hv₂, ?_, hhead₁, ⟨p, ?_⟩, hwrite, hdestroy⟩
  · rw [hc₂, hc₁, hc₀, hhead₁, hlength₁, List.append_assoc, CellRing.overwrite_append, length_le32,
      List.drop_left' (length_le32 _),
      List.append_assoc, encodePacket]
  · rw [writePacket, Outcome.bind_ok hmade, Outcome.bind_ok hstored, hflushed]

/-- The packet has 32-bit length. -/
theorem encoded_small {b : Circle} (hv : b.Valid) {before : List UInt8}
    (hb : b.contents = before ++ encodePacket payload) :
    payload.length + 4 < 2 ^ 32 - 1 := by
  have hlen := hv.length_lt
  have hcap := hv.size_le
  rw [hb, List.length_append, length_encodePacket] at hlen
  omega

/-- The destructor finds the header flushed. -/
theorem destroy_after {b : Circle} (hv : b.Valid) {before : List UInt8}
    (hb : b.contents = before ++ encodePacket payload)
    {w : Writer} (hhead : w.head.toNat = before.length) {u : Sock Circle κ}
    (hu : u.sendBuff = b ∨ u.sendBuff.Valid ∧ u.sendBuff.contents = []) :
    send w.destroy u = .ok () u := by
  have R := circle_reads fun _ => True
  rcases hu with hu | ⟨hempty, hnil⟩
  · refine send_ok (Writer.destroy_sent R ⟨hu ▸ hv, trivial⟩ (.inr ⟨?_, ?_⟩))
    · rw [hu, hb, hhead, List.length_append, length_encodePacket]
      omega
    · rw [hu, hb, hhead, List.drop_left, encodePacket, List.take_left' (length_le32 _), ofLe32_le32]
      exact flushed_ne_placeholder (by have := encoded_small hv hb; omega)
  · refine send_ok (Writer.destroy_sent R ⟨hempty, trivial⟩ (.inl ?_))
    rw [hnil]
    exact Nat.zero_le _

end Connection
end SimpleNetwork
