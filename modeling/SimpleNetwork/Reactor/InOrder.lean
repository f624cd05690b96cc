import SimpleNetwork.Base.Runs
import SimpleNetwork.Reactor.Framing
import Mathlib.Data.List.Induction

/-! What the deliveries of a connection say about the stream it has received. On
the front of a stream of packets they are these packets, in order. -/
namespace SimpleNetwork
open Words Runs

namespace Delivery
variable {β : Type} (contents : β → List UInt8)

def taken (d : Delivery β) : List UInt8 := (contents d.seen).take (packetSize (contents d.seen))

def payload (d : Delivery β) : List UInt8 := (d.packet contents).2

structure MadeOf (stream before : List UInt8) (d : Delivery β) : Prop where
  ready : Ready (contents d.seen)
  reader : d.reader = ⟨0, 4, declared (contents d.seen)⟩
  place : before ++ contents d.seen <+: stream

end Delivery

section Accounts
variable {β : Type} {contents : β → List UInt8} {stream rest : List UInt8} {ds : List (Delivery β)}

/-- Every byte received was taken for a delivery or is still there, and each
delivery saw the stream from its place on. -/
structure Accounts (contents : β → List UInt8) (stream : List UInt8) (ds : List (Delivery β))
    (rest : List UInt8) : Prop where
  whole : ds.flatMap (Delivery.taken contents) ++ rest = stream
  made : ∀ before d after, ds = before ++ d :: after →
    d.MadeOf contents stream (before.flatMap (Delivery.taken contents))

theorem accounts_nil (contents : β → List UInt8) : Accounts contents [] [] [] :=
  ⟨rfl, fun before d after h => by cases before <;> cases h⟩

/-- More bytes arrive. -/
theorem Accounts.arrive (h : Accounts contents stream ds rest) (bytes : List UInt8) :
    Accounts contents (stream ++ bytes) ds (rest ++ bytes) where
  whole := by rw [← List.append_assoc, h.whole]
  made before d after hds := by
    obtain ⟨hready, hreader, hplace⟩ := h.made before d after hds
    exact ⟨hready, hreader, hplace.trans (List.prefix_append _ _)⟩

/-- The packet at the front is delivered and removed. -/
theorem Accounts.deliver (h : Accounts contents stream ds rest) {d : Delivery β}
    (hseen : contents d.seen = rest)
    (hready : Ready rest) (hreader : d.reader = ⟨0, 4, declared rest⟩) :
    Accounts contents stream (ds ++ [d]) (rest.drop (packetSize rest)) := by
  have hd : d.MadeOf contents stream (ds.flatMap (Delivery.taken contents)) :=
    ⟨hseen ▸ hready, hseen ▸ hreader, ⟨[], by rw [List.append_nil, hseen, h.whole]⟩⟩
  refine ⟨?_, forall_split_concat.mpr ⟨h.made, hd⟩⟩
  rw [List.flatMap_append, List.flatMap_singleton, List.append_assoc, Delivery.taken, hseen,
    List.take_append_drop, h.whole]

variable {packets : List (List UInt8)}

/-- On a stream of packets a delivery is the next one of them. -/
theorem Delivery.MadeOf.next {before : List (List UInt8)} {d : Delivery β} {p : List UInt8}
    {later : List (List UInt8)}
    (hd : d.MadeOf contents stream (encodePackets before))
    (hstream : stream <+: encodePackets (before ++ p :: later))
    (hp : p.length + 4 < 2 ^ 32) :
    d.taken contents = encodePacket p ∧ d.payload contents = p ∧
      d.reader = ⟨0, 4, UInt32.ofNat p.length⟩ := by
  obtain ⟨hready, hreader, hplace⟩ := hd
  obtain ⟨more, hmore⟩ := hplace.trans hstream
  have hnext : contents d.seen ++ more = encodePacket p ++ encodePackets later := by
    rw [encodePackets, encodePackets, List.flatMap_append, List.append_assoc] at hmore
    exact List.append_cancel_left hmore
  have hsize := packetSize_encoded hnext hready.1 hp
  have hfit := hready.2
  rcases stream_split hnext with ⟨hshort, -⟩ | ⟨q, hq, -⟩
  · rw [length_encodePacket] at hshort
    omega
  · refine ⟨?_, ?_, by rw [hreader, declared_encoded hnext hready.1]⟩
    · rw [Delivery.taken, hsize, hq, ← length_encodePacket, List.take_left]
    · have hdeclared := toNat_declared_encoded hnext hready.1 hp
      rw [Delivery.payload, Delivery.packet, hreader]
      change (List.drop 4 _).take (declared (contents d.seen)).toNat = _
      rw [hdeclared, hq, encodePacket, List.append_assoc]
      exact List.take_left' rfl

/-- A delivery on a stream of packets is one of the stream. -/
theorem Delivery.MadeOf.exists_next {before packets : List (List UInt8)} {d : Delivery β}
    (hd : d.MadeOf contents stream (encodePackets before)) (hstream : stream <+: encodePackets packets)
    (hbefore : before <+: packets) : ∃ p later, packets = before ++ p :: later := by
  obtain ⟨later, rfl⟩ := hbefore
  cases later with
  | cons p later => exact ⟨p, later, rfl⟩
  | nil =>
    rw [List.append_nil] at hstream
    have hlen := (hd.place.trans hstream).length_le
    have hfour := hd.ready.1
    rw [List.length_append] at hlen
    omega

/-- On the front of a stream of packets the deliveries are the packets at the
front of the stream. The induction adds a delivery at the end. -/
theorem Accounts.in_order (h : Accounts contents stream ds rest) (hp : ∀ p ∈ packets, p.length + 4 < 2 ^ 32)
    (hstream : stream <+: encodePackets packets) :
    ds.map (Delivery.payload contents) <+: packets ∧
      ds.flatMap (Delivery.taken contents) = encodePackets (ds.map (Delivery.payload contents)) ∧
      ∀ d ∈ ds, d.reader = ⟨0, 4, UInt32.ofNat (d.payload contents).length⟩ := by
  obtain ⟨-, hmade⟩ := h
  induction ds using List.reverseRecOn with
  | nil => exact ⟨List.nil_prefix, rfl, nofun⟩
  | append_singleton ds d ih =>
    obtain ⟨hmade, hd⟩ := forall_split_concat.mp hmade
    obtain ⟨hbefore, htaken, hreaders⟩ := ih hmade
    rw [htaken] at hd
    obtain ⟨p, later, rfl⟩ := hd.exists_next hstream hbefore
    obtain ⟨htake, hpayload, hreader⟩ := hd.next hstream (hp p (List.mem_append_right _ List.mem_cons_self))
    rw [List.map_append, List.map_singleton, hpayload, List.flatMap_append, List.flatMap_singleton,
      htaken, htake]
    refine ⟨⟨later, by rw [List.append_assoc]; rfl⟩, ?_, ?_⟩
    · rw [encodePackets, encodePackets, List.flatMap_append, List.flatMap_singleton]
    · intro e he
      rcases List.mem_append.mp he with he | he
      · exact hreaders e he
      · rw [List.mem_singleton.mp he, hpayload, hreader]

/-- What is still there, with what is to come, are the packets not delivered yet. -/
theorem Accounts.left (h : Accounts contents stream ds rest)
    (hp : ∀ p ∈ packets, p.length + 4 < 2 ^ 32) {more : List UInt8}
    (hstream : stream ++ more = encodePackets packets) :
    ∃ later, packets = ds.map (Delivery.payload contents) ++ later ∧ rest ++ more = encodePackets later := by
  obtain ⟨⟨later, hlater⟩, htaken, -⟩ := h.in_order hp ⟨more, hstream⟩
  refine ⟨later, hlater.symm, ?_⟩
  rw [← h.whole, htaken, ← hlater, encodePackets, encodePackets, List.flatMap_append,
    List.append_assoc] at hstream
  exact List.append_cancel_left hstream

/-- A front of a stream of packets that has none to take ends inside the first one. -/
theorem short_of_not_ready {p more : List UInt8} (hp : p.length + 4 < 2 ^ 32)
    (hfront : rest ++ more = encodePacket p ++ stream)
    (hrest : ¬ Ready rest) : rest.length < p.length + 4 := by
  by_contra hlen
  refine hrest ⟨by omega, ?_⟩
  rw [packetSize_encoded hfront (by omega) hp]
  omega

/-- When the stream has arrived whole and no packet is left to take, all have been delivered. -/
theorem Accounts.all_delivered (h : Accounts contents stream ds rest)
    (hp : ∀ p ∈ packets, p.length + 4 < 2 ^ 32)
    (hstream : stream = encodePackets packets) (hrest : ¬ Ready rest) :
    ds.map (Delivery.payload contents) = packets := by
  obtain ⟨later, hpackets, hleft⟩ := h.left hp (show stream ++ [] = _ by rw [List.append_nil, hstream])
  cases later with
  | nil => rw [hpackets, List.append_nil]
  | cons p later =>
    have hshort := short_of_not_ready
      (hp p (hpackets ▸ List.mem_append_right _ List.mem_cons_self)) hleft hrest
    have hlen := congrArg List.length hleft
    rw [List.append_nil, encodePackets_cons, List.length_append, length_encodePacket] at hlen
    omega

end Accounts
end SimpleNetwork
