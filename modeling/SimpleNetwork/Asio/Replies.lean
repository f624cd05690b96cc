import SimpleNetwork.Asio.KcpLink
import SimpleNetwork.Asio.TcpLink

/-! A side whose application answers packets, such as the server's `on_recv`. What
it sends are the packets of its own and the replies to what it has been given. -/
namespace SimpleNetwork
open Words Outcome Runs

namespace Responder
variable (app : Responder)

def reads (p : List UInt8) : Nat := (app.want ⟨0, 4, UInt32.ofNat p.length⟩).toNat

def replies (packets : List (List UInt8)) (place : Nat) : List (List UInt8) :=
  (packets.zipIdx place).flatMap fun p => app.answer p.2 (p.1.take (app.reads p.1))

private theorem replies_append (packets more : List (List UInt8)) (place : Nat) :
    app.replies (packets ++ more) place = app.replies packets place ++
      app.replies more (place + packets.length) := by
  rw [replies, List.zipIdx_append, List.flatMap_append]
  rfl

/-- An application that reads no further than the packet hears its front. -/
theorem heard_eq {d : Delivery Circle}
    (hreader : d.reader = ⟨0, 4, UInt32.ofNat (d.payload Circle.contents).length⟩)
    (hmodest : app.reads (d.payload Circle.contents) ≤ (d.payload Circle.contents).length) :
    app.heard d = (d.payload Circle.contents).take (app.reads (d.payload Circle.contents)) := by
  have hpayload : d.payload Circle.contents = (d.seen.contents.drop 4).take d.reader.length.toNat := by
    rw [Delivery.payload, Delivery.packet, hreader]
    rfl
  have hlen : (d.payload Circle.contents).length ≤ d.reader.length.toNat := by
    rw [hpayload, List.length_take]
    exact Nat.min_le_left _ _
  have hread : (app.want d.reader).toNat = app.reads (d.payload Circle.contents) := by rw [reads, ← hreader]
  rw [heard, hread]
  conv_rhs => rw [hpayload]
  rw [List.take_take, ← hpayload, Nat.min_eq_left (Nat.le_trans hmodest hlen)]

/-- Its answers to deliveries are its replies to the packets. -/
theorem answers_eq_replies {ds : List (Delivery Circle)} (place : Nat)
    (hreaders : ∀ d ∈ ds, d.reader = ⟨0, 4, UInt32.ofNat (d.payload Circle.contents).length⟩)
    (hmodest : ∀ d ∈ ds, app.reads (d.payload Circle.contents) ≤ (d.payload Circle.contents).length) :
    app.answers ds place = app.replies (ds.map (Delivery.payload Circle.contents)) place := by
  induction ds generalizing place with
  | nil => rfl
  | cons d ds ih =>
    have hrest := ih (place + 1) (fun e he => hreaders e (List.mem_cons_of_mem _ he)) fun e he =>
      hmodest e (List.mem_cons_of_mem _ he)
    have hheard := app.heard_eq (hreaders d List.mem_cons_self) (hmodest d List.mem_cons_self)
    rw [answers, replies, List.map_cons, List.zipIdx_cons, List.zipIdx_cons, List.flatMap_cons,
      List.flatMap_cons, hheard]
    exact congrArg _ hrest

end Responder

namespace Side
variable {κ : Type} {t : Transport} {app : Responder} {K : Ikcp κ} {a a' b : Side κ}

/-- What a side sends are the packets of its own, and the answers to its deliveries. -/
theorem Turn.interleaves {e : ConnectorEvent × Surroundings} (hturn : a.Turn t app K e a')
    (hold : a.socket.deliveries <+: a'.socket.deliveries)
    {own : List (List UInt8)} (h : Interleaved own (app.answers a.socket.deliveries 0) a.sent) :
    Interleaved (own ++ called e.1) (app.answers a'.socket.deliveries 0) a'.sent := by
  obtain ⟨new, hnew⟩ := hold
  rw [hturn.sent, ← hnew, List.drop_left, Responder.answers_append, Nat.zero_add]
  exact (h.lefts _).rights _

/-- What has come to a side accounts for its deliveries, and is the front of what the other has sent. -/
structure Hears (a b : Side κ) (bytes : List UInt8) : Prop where
  received : ∃ rest, Accounts Circle.contents bytes a.socket.deliveries rest
  stream : bytes <+: encodePackets b.sent ∧ ∀ p ∈ b.sent, p.length + 4 < 2 ^ 32

/-- Its answers are its replies to the packets that it has been given. -/
theorem Hears.replies {bytes : List UInt8} (h : a.Hears b bytes)
    (hmodest : ∀ p ∈ b.sent, app.reads p ≤ p.length) :
    app.answers a.socket.deliveries 0 = app.replies a.delivered 0 := by
  obtain ⟨rest, haccounts⟩ := h.received
  obtain ⟨hfront, -, hreaders⟩ := haccounts.in_order h.stream.2 h.stream.1
  exact app.answers_eq_replies 0 hreaders fun d hd => hmodest _ (hfront.subset (List.mem_map_of_mem hd))

end Side

namespace Link
variable {κ : Type} {apps : Bool → Responder} {K : Ikcp κ} {i : Bool}
  {events : List (Bool × ConnectorEvent × Surroundings)}

def own (i : Bool) (events : List (Bool × ConnectorEvent × Surroundings)) : List (List UInt8) :=
  events.flatMap fun e => if e.1 = i then Side.called e.2.1 else []

def Spoke (apps : Bool → Responder) (i : Bool)
    (events : List (Bool × ConnectorEvent × Surroundings)) (l : Link κ) : Prop :=
  Interleaved (own i events) ((apps i).answers (l i).socket.deliveries 0) (l i).sent

theorem Spoke.step {t : Transport} {l l' : Link κ} {e : Bool × ConnectorEvent × Surroundings}
    (h : l.Spoke apps i events)
    (hside : (l e.1).Turn t (apps e.1) K e.2 (l' e.1)) (hother : l' (!e.1) = l (!e.1))
    (hold : (l e.1).socket.deliveries <+: (l' e.1).socket.deliveries) : l'.Spoke apps i (events ++ [e]) := by
  rw [Spoke, own, List.flatMap_append, List.flatMap_singleton]
  rcases Bool.eq_or_eq_not i e.1 with rfl | rfl
  · rw [if_pos rfl]
    exact hside.interleaves hold h
  · rw [if_neg (Bool.self_ne_not e.1), List.append_nil, hother]
    exact h

private theorem Kept.hears {l : Link κ} (h : l.Kept) (i : Bool) :
    (l i).Hears (l !i) (receivedBytes (l i).socket) := by
  obtain ⟨rest, haccounts, -⟩ := (h i).1.1.received
  exact ⟨⟨rest, haccounts⟩, h.accounts i⟩

private theorem Conversing.hears {conv : UInt32} {l : Link (Peer κ)} {q : Bool → Peer κ}
    (hK : K.Promises) (h : Conversing K conv l q)
    (htakes : ∀ i, (q i).accepted = (q i).offered) (i : Bool) : (l i).Hears (l !i) (q i).handed.flatten := by
  obtain ⟨rest, haccounts, -⟩ := (h.inStep i).1.received
  exact ⟨⟨rest, haccounts⟩, h.accounts hK i (htakes _)⟩

end Link

/-- The server's `on_recv` answers each packet with the integer at its front. -/
theorem Responder.replies_mirror (packets : List (List UInt8)) (place : Nat) :
    mirror.replies packets place = packets.map (·.take 4) := by
  induction packets generalizing place with
  | nil => rfl
  | cons p packets ih =>
    have hfirst : mirror.answer place (p.take (mirror.reads p)) = [p.take 4] := by
      change [(p.take 4).take 4] = _
      rw [List.take_take]
      rfl
    rw [replies, List.zipIdx_cons, List.flatMap_cons, List.map_cons, hfirst]
    exact congrArg _ (ih (place + 1))

/-- As long as every event returns, what a side is given by one that only answers are the
answers to the packets it has sent, in order and without gaps, and all of them once both
streams have arrived. -/
theorem tcp_replies_in_order {κ : Type} {apps : Bool → Responder} {K : Ikcp κ} {l₀ l : Link κ}
    (hopen : ∀ i, (l₀ i).Opened) (i : Bool)
    {events : List (Bool × ConnectorEvent × Surroundings)}
    (hrun : Run (Where (Link.Step apps K) (Link.Returns .tcp apps K)) l₀ events l)
    (hquiet : ∀ e ∈ events, e.1 = i → Side.called e.2.1 = [])
    (hmodest : ∀ p ∈ (l !i).sent, (apps i).reads p ≤ p.length) :
    (l !i).delivered <+: (apps i).replies (l !i).sent 0 ∧
      ((∀ j, receivedBytes (l j).socket = encodePackets (l !j).sent) →
        (l !i).delivered = (apps i).replies (l !i).sent 0) := by
  have hstart : l₀.Kept ∧ l₀.Spoke apps i [] := by
    refine ⟨Link.kept_of_opened hopen, ?_⟩
    rw [Link.Spoke, (hopen i).sent, (hopen i).deliveries]
    exact .nil
  obtain ⟨hkept, hspoke⟩ : l.Kept ∧ l.Spoke apps i events :=
    hrun.history (I := fun events l => l.Kept ∧ Link.Spoke apps i events l)
      (fun h hstep => ⟨hstep.1.keeps h.1 hstep.2,
        h.2.step (hstep.1.turn hstep.2) hstep.1.other
        ((hstep.1.turn hstep.2).follows (h.1 _).1).2⟩) hstart
  have hown : Link.own i events = [] := by
    refine List.flatMap_eq_nil_iff.mpr fun e he => ?_
    split
    · exact hquiet e he ‹_›
    · rfl
  have hsent : (l i).sent = (apps i).replies (l i).delivered 0 :=
    (hspoke.eq_right hown).trans ((hkept.hears i).replies hmodest)
  have hback := hkept.in_order (!i)
  rw [Bool.not_not, hsent] at hback
  obtain ⟨later, hlater⟩ := hkept.in_order i
  refine ⟨hback.trans ?_, fun hall => ?_⟩
  · rw [← hlater, Responder.replies_append]
    exact List.prefix_append _ _
  · have hgiven := hkept.all_delivered (hall (!i))
    rw [Bool.not_not, hsent, hkept.all_delivered (hall i)] at hgiven
    exact hgiven

theorem tcp_replies_in_order_echo : ∃ l,
    Run (Where (Link.Step (fun i => if i then .listener else .mirror) noKcp)
      (Link.Returns .tcp (fun i => if i then .listener else .mirror) noKcp)) Link.dialed Link.echoing l ∧
    (l true).delivered = [[42, 43, 0, 0]] ∧ (l true).delivered <+: (l true).sent.map (·.take 4) := by
  obtain ⟨l, hrun, hsent, hheard, -⟩ := Link.echoing_runs
  refine ⟨l, hrun, hheard, ?_⟩
  rw [← Responder.replies_mirror (l true).sent 0]
  refine (tcp_replies_in_order Link.dialed_opened false hrun (by decide) ?_).1
  change ∀ p ∈ (l true).sent, _
  rw [hsent]
  decide

end SimpleNetwork
