import SimpleNetwork.Buffer.CircleWrite
import SimpleNetwork.Buffer.QueueOps

/-! `circle::write(const circle&, ...)`: one append for each piece of the source up
to the physical end of its array. The source's cursors decide the pieces, and no
check of the range is made. -/
namespace SimpleNetwork
open Words Outcome

namespace Circle

/-- What one piece takes from an offset on: the cells up to the write cursor, or
up to the physical end. Behind the contents these are free cells. -/
def run (c : Circle) (offset : Nat) : Nat :=
  let place := (c.head.toNat + offset) % c.data.mem.length
  min ((c.tail.toNat + (c.data.mem.length - place)) % c.data.mem.length) (c.data.mem.length - place)

/-- When an append from another ring takes all of the range or nothing. A range
inside the source needs a first piece that is neither stuck nor out of bounds,
and, if there is space for it, space for the rest as well. Of any other range
something is appended, unless there is no space for the first piece. -/
structure TakesWhole (dst source : Circle) (offset count : Nat) : Prop where
  inside : count = 0 ∨ offset + count ≤ source.contents.length →
    ¬ dst.AppendStuck (min (source.run offset) count) ∧ ¬ dst.AppendOverruns (min (source.run offset) count) ∧
      (dst.Admits (min (source.run offset) count) → source.run offset < count →
        dst.Admits count ∧ ¬ dst.OverrunsAfter (source.run offset) (count - source.run offset))
  outside : count ≠ 0 → source.contents.length < offset + count → ¬ dst.Admits (min (source.run offset) count)

section Source
variable {source : Circle} (hs : source.Valid)
include hs

theorem Valid.toNat_place (offset : UInt64) :
    ((source.head + offset) % source.getSize).toNat =
    (source.head.toNat + offset.toNat) % source.data.mem.length := by
  obtain ⟨k, hk, hsize⟩ := hs.pow
  have hdvd : source.data.mem.length ∣ 2 ^ 64 := by
    rw [hsize]
    exact Nat.pow_dvd_pow 2 (by omega)
  rw [UInt64.toNat_mod, UInt64.toNat_add, hs.toNat_getSize, Nat.mod_mod_of_dvd _ hdvd]

theorem Valid.toNat_piece (offset count : UInt64) :
    (sizeMin (continguiousCountOf ((source.head + offset) % source.getSize) source.tail
      source.getSize) count).toNat =
      min (source.run offset.toNat) count.toNat := by
  obtain ⟨k, hk, hsize⟩ := hs.size_pow
  have hlen := hs.toNat_getSize
  have htail := hs.tail_lt
  have hplace := hs.toNat_place offset
  have hlt : (source.head.toNat + offset.toNat) % source.data.mem.length < source.data.mem.length :=
    Nat.mod_lt _ (by omega)
  rw [toNat_sizeMin, toNat_continguiousCountOf hk hsize (by omega) (by omega),
    toNat_countOf hsize (by omega) (by omega),
    hplace, hlen, run]
  generalize (source.head.toNat + offset.toNat) % source.data.mem.length = place at hlt
  have hround : (if place ≤ source.tail.toNat then source.tail.toNat - place
      else source.tail.toNat + source.data.mem.length - place) =
      (source.tail.toNat + (source.data.mem.length - place)) % source.data.mem.length := by
    split
    · have hsum : source.tail.toNat + (source.data.mem.length - place) =
          source.tail.toNat - place + source.data.mem.length := by
        omega
      rw [hsum, Nat.add_mod_right, Nat.mod_eq_of_lt (by omega)]
    · rw [Nat.mod_eq_of_lt (by omega)]
      omega
  rw [hround]

omit hs in
private theorem run_le (source : Circle) (offset : Nat) : source.run offset ≤ source.data.mem.length :=
  Nat.le_trans (Nat.min_le_right _ _) (Nat.sub_le _ _)

/-- From an offset in the contents on, a piece ends with them or with the array. -/
theorem Valid.run_inside {offset : Nat} (ho : offset ≤ source.contents.length) :
    source.run offset = min (source.contents.length - offset)
      (source.data.mem.length - source.cell offset) := by
  have hlt := hs.length_lt
  have hl := hs.size_le
  have hoffset : (UInt64.ofNat offset).toNat = offset := toNat_ofNat_of_lt (by omega)
  have hbig : source.data.mem.length ≤ (UInt64.ofNat source.data.mem.length).toNat := by
    rw [toNat_ofNat_of_lt (by omega)]
  have hread := hs.toNat_readPiece (UInt64.ofNat offset) (UInt64.ofNat source.data.mem.length) (by omega)
  have hrun := source.run_le offset
  rw [hs.toNat_piece, hoffset, Nat.min_eq_left (by omega)] at hread
  rw [hread, Nat.min_eq_left (by omega)]
  rfl

/-- One call: the append of a piece, and the call for what is left. -/
theorem writeFromFuel_succ (fuel : Nat) (offset count : UInt64) {m : Nat}
    (hm : m = min (source.run offset.toNat) count.toNat) :
    ∃ bytes : List UInt8, bytes.length = m ∧
      (offset.toNat ≤ source.contents.length → bytes = (source.contents.drop offset.toNat).take m) ∧
      ∀ c, writeFromFuel (fuel + 1) source offset count c =
        (if m = 0 then pure ()
        else write bytes noOffset >>= fun _ =>
          if count.toNat = m then pure ()
          else writeFromFuel fuel source (offset + UInt64.ofNat m) (count - UInt64.ofNat m) :
            EStateM Fault Circle Unit) c := by
  have hl := hs.size_le
  have htail := hs.tail_lt
  have hplace := hs.toNat_place offset
  have hpiece := hs.toNat_piece offset count
  have hrun := source.run_le offset.toNat
  have hlt : (source.head.toNat + offset.toNat) % source.data.mem.length < source.data.mem.length :=
    Nat.mod_lt _ (by omega)
  have hfit : source.run offset.toNat ≤
      source.data.mem.length - (source.head.toNat + offset.toNat) % source.data.mem.length :=
    Nat.min_le_right _ _
  rw [← hm] at hpiece
  obtain ⟨place, hp⟩ : ∃ place, place = (source.head + offset) % source.getSize := ⟨_, rfl⟩
  obtain ⟨piece, hn⟩ : ∃ piece, piece =
      sizeMin (continguiousCountOf place source.tail source.getSize) count := ⟨_, rfl⟩
  rw [← hp, ← hn] at hpiece
  rw [← hp] at hplace
  have hword : UInt64.ofNat m = piece := by
    rw [← UInt64.toNat_inj, hpiece, toNat_ofNat_of_lt (by omega)]
  have hload (c : Circle) : source.data.load place piece c =
      .ok ((source.data.mem.drop place.toNat).take m) c := by
    rw [Data.load_of_le (by omega), hpiece]
  refine ⟨(source.data.mem.drop place.toNat).take m, ?_, fun ho => ?_, fun c => ?_⟩
  · rw [List.length_take, List.length_drop]
    omega
  · have hinside := hs.run_inside ho
    have hindex := toNat_index hs ho
    rw [← hp] at hindex
    have hlive := load_spec hs source place offset.toNat piece hpiece hindex (by omega) (by omega)
    exact (EStateM.Result.ok.inj ((hload source).symm.trans hlive)).1
  · have hzero : piece = 0 ↔ m = 0 := by
      rw [← UInt64.toNat_inj, hpiece]
      rfl
    have hrest : count - piece = 0 ↔ count.toNat = m := by
      rw [← UInt64.toNat_inj, toNat_sub_of_le (by omega), hpiece, UInt64.toNat_zero]
      omega
    rw [writeFromFuel]
    simp only [← hp, ← hn, hzero, hrest, hword]
    split
    · rfl
    · rw [bind_ok (hload c)]

end Source

/-- Whatever is appended stays: no later call takes it back. -/
theorem writeFromFuel_extends {source : Circle} (hs : source.Valid) (fuel : Nat)
    (offset count : UInt64) {c c' : Circle}
    (h : c.Valid) (hleaves : Leaves (writeFromFuel fuel source offset count) c c') :
    c'.Valid ∧ c.contents <+: c'.contents := by
  induction fuel generalizing offset count c with
  | zero =>
    rcases hleaves with ⟨u, hr⟩ | ⟨fault, hr, he⟩
    · cases hr
    · cases hr
      cases he
  | succ fuel ih =>
    obtain ⟨bytes, hlen, -, hrun⟩ := writeFromFuel_succ hs fuel offset count rfl
    have hl := hs.size_le
    have hle := source.run_le offset.toNat
    have hpure {d : Circle} (hd : Leaves (pure () : EStateM Fault Circle Unit) d c') : d = c' := by
      rcases hd with ⟨u, hr⟩ | ⟨fault, hr, -⟩
      · cases hr
        rfl
      · cases hr
    rw [Leaves, hrun] at hleaves
    by_cases hzero : min (source.run offset.toNat) count.toNat = 0
    · rw [if_pos hzero] at hleaves
      rw [← hpure hleaves]
      exact ⟨h, List.prefix_refl _⟩
    rw [if_neg hzero] at hleaves
    have hsettles := write_append_settles h bytes (by omega)
    rcases Leaves.of_bind hleaves with ⟨fault, hwrite, he⟩ | ⟨u, d, hwrite, hrest⟩
    · rw [hwrite] at hsettles
      cases hsettles with
      | refused _ hv hc => exact ⟨hv, [], (List.append_nil _).trans hc.symm⟩
      | stuck _ | overrun _ => cases he
    · rw [hwrite] at hsettles
      cases hsettles with
      | done _ _ hv hc _ =>
        have hgrew : c.contents <+: d.contents := by
          rw [hc]
          exact List.prefix_append _ _
        by_cases hlast : count.toNat = min (source.run offset.toNat) count.toNat
        · rw [if_pos hlast] at hrest
          rw [← hpure hrest]
          exact ⟨hv, hgrew⟩
        · rw [if_neg hlast] at hrest
          obtain ⟨hv', hgrew'⟩ := ih _ _ hv hrest
          exact ⟨hv', hgrew.trans hgrew'⟩

/-- A range that one piece covers. -/
theorem writeFromFuel_last {source : Circle} (hs : source.Valid) (fuel : Nat)
    (offset count : UInt64) (hpos : 0 < count.toNat)
    (hr : offset.toNat + count.toNat ≤ source.contents.length)
    (hrun : count.toNat ≤ source.run offset.toNat) (c : Circle) :
    writeFromFuel (fuel + 1) source offset count c =
      write ((source.contents.drop offset.toNat).take count.toNat) noOffset c := by
  obtain ⟨bytes, -, hbytes, heq⟩ :=
    writeFromFuel_succ hs fuel offset count (m := count.toNat) (Nat.min_eq_right hrun).symm
  rw [heq, if_neg (Nat.ne_of_gt hpos), hbytes (by omega)]
  simp only [if_true]
  exact congrFun (bind_pure _) c

/-- A range that crosses the end of the array is appended in two pieces. -/
theorem writeFrom_double {source : Circle} (hs : source.Valid) {offset count : UInt64}
    (hr : offset.toNat + count.toNat ≤ source.contents.length)
    (hrun : source.run offset.toNat < count.toNat) :
    ∃ front back : List UInt8, front.length = source.run offset.toNat ∧ 0 < front.length ∧
      front.length + back.length = count.toNat ∧
        front ++ back = (source.contents.drop offset.toNat).take count.toNat ∧
      ∀ c, writeFrom source offset count c = (write front noOffset >>= fun _ => write back noOffset) c := by
  obtain ⟨m, hm⟩ : ∃ m, m = source.run offset.toNat := ⟨_, rfl⟩
  have hl := hs.size_le
  have hlt := hs.length_lt
  have hh := hs.head_lt
  have hinside := hs.run_inside (show offset.toNat ≤ source.contents.length by omega)
  have hcell := hs.cell_lt (show offset.toNat ≤ source.contents.length by omega)
  rw [← hm] at hrun hinside ⊢
  obtain ⟨fuel, hfuel⟩ : ∃ fuel, count.toNat = fuel + 1 := ⟨count.toNat - 1, by omega⟩
  obtain ⟨front, hlen, hfront, heq⟩ := writeFromFuel_succ hs count.toNat offset count (m := m) (by omega)
  have hword : (UInt64.ofNat m).toNat = m := toNat_ofNat_of_lt (by omega)
  have hthere : (offset + UInt64.ofNat m).toNat = offset.toNat + m := by
    rw [toNat_add_of_lt (by omega), hword]
  have hrest : (count - UInt64.ofNat m).toNat = count.toNat - m := by rw [toNat_sub_of_le (by omega), hword]
  have hrun' : count.toNat - m ≤ source.run (offset.toNat + m) := by
    have hseam : source.cell (offset.toNat + m) = 0 := by
      rw [hs.cell_add (by omega), CellRing.wrap, if_neg (by omega)]
      omega
    rw [hs.run_inside (by omega), hseam]
    omega
  have hsecond (c : Circle) : writeFromFuel count.toNat source (offset + UInt64.ofNat m)
    (count - UInt64.ofNat m) c =
      write ((source.contents.drop (offset.toNat + m)).take (count.toNat - m)) noOffset c := by
    have hlast := writeFromFuel_last hs fuel (offset + UInt64.ofNat m) (count - UInt64.ofNat m)
      (by omega) (by omega) (by rw [hthere, hrest]; exact hrun') c
    rw [hthere, hrest, ← hfuel] at hlast
    exact hlast
  refine ⟨front, (source.contents.drop (offset.toNat + m)).take (count.toNat - m), hlen, by
    omega, ?_, ?_, fun c => ?_⟩
  · rw [List.length_take, List.length_drop]
    omega
  · rw [hfront (by omega), ← List.drop_drop, ← List.take_add]
    congr 1
    omega
  · rw [writeFrom, heq, if_neg (by omega)]
    refine congrFun (bind_congr fun _ => ?_) c
    rw [if_neg (by omega)]
    exact funext hsecond

section Whole
variable {dst : Circle} (h : dst.Valid)
include h

/-- Two appends: the second finds what the first has left. -/
theorem pair_whole {front back bytes : List UInt8} {offset count : Nat} (hin : offset + count ≤ bytes.length)
    (hjoin : front ++ back = (bytes.drop offset).take count) (hsmall : front.length + back.length < 2 ^ 64)
    (hfront : 0 < front.length) (hback : 0 < back.length) :
    AllOrNothing contents dst bytes offset count
      ((write front noOffset >>= fun _ => write back noOffset) dst) ↔
      ¬ dst.AppendStuck front.length ∧ ¬ dst.AppendOverruns front.length ∧
        (dst.Admits front.length → dst.Admits (front.length + back.length) ∧
          ¬ dst.OverrunsAfter front.length back.length) := by
  have hsettles := write_append_settles h front (by omega)
  cases hwrite : write front noOffset dst with
  | error fault d =>
    rw [hwrite] at hsettles
    rw [bind_error hwrite]
    cases hsettles with
    | refused hfar hv hc =>
      have hno := hfar hfront
      exact iff_of_true ⟨rfl, hc⟩ ⟨mt admits_of_stuck hno, mt admits_of_overruns hno,
        fun hyes => absurd hyes hno⟩
    | stuck hstuck => exact iff_of_false (fun hall => nomatch hall.1) fun hboth => hboth.1 hstuck
    | overrun hover => exact iff_of_false (fun hall => nomatch hall.1) fun hboth => hboth.2.1 hover
  | ok u d =>
    rw [hwrite] at hsettles
    rw [bind_ok hwrite]
    cases hsettles with
    | done hsafe hfree hv hc hext =>
      have hnext := hext.next back.length hback
      have hafter := hext.overruns back.length
      have hsettles' := write_append_settles hv back (by omega)
      revert hsettles'
      generalize write back noOffset d = result
      intro hsettles'
      cases hsettles' with
      | @refused e hfar _ hc' =>
        refine iff_of_false (fun hall => ?_) fun hboth => hfar hback (hnext.mpr (hboth.2.2 hext.admits).1)
        have hsame : e.contents.length = dst.contents.length := congrArg List.length hall.2
        rw [hc', hc, List.length_append] at hsame
        omega
      | stuck hstuck =>
        have hnil := congrArg List.length hstuck.2.1
        rw [hc, List.length_append, List.length_nil] at hnil
        omega
      | overrun hover =>
        exact iff_of_false (fun hall => nomatch hall.1) fun hboth =>
          (hboth.2.2 hext.admits).2 (hafter.mp hover)
      | done hsafe' _ _ hc' hext' =>
        refine iff_of_true ⟨.inr hin, ?_⟩
          ⟨hfree, hsafe, fun _ => ⟨hnext.mp hext'.admits, mt hafter.mpr hsafe'⟩⟩
        rw [hc', hc, List.append_assoc, hjoin]

variable {source : Circle} (hs : source.Valid) {offset count : UInt64}
include hs

/-- Outside the contents a piece that there is space for breaks the promise. -/
theorem whole_outside (hpos : count.toNat ≠ 0) (hr : source.contents.length < offset.toNat + count.toNat) :
    AllOrNothing contents dst source.contents offset.toNat count.toNat (writeFrom source offset count dst) ↔
      ¬ dst.Admits (min (source.run offset.toNat) count.toNat) := by
  obtain ⟨m, hm⟩ : ∃ m, m = min (source.run offset.toNat) count.toNat := ⟨_, rfl⟩
  have hl := hs.size_le
  have hle := source.run_le offset.toNat
  obtain ⟨bytes, hlen, -, hrun⟩ := writeFromFuel_succ hs count.toNat offset count hm
  have hout : ¬ (count.toNat = 0 ∨ offset.toNat + count.toNat ≤ source.contents.length) := by omega
  rw [← hm, writeFrom, hrun]
  by_cases hzero : m = 0
  · rw [if_pos hzero, hzero]
    refine iff_of_false (fun hall => hout hall.1) (not_not.mpr ⟨0, ?_, .inl rfl⟩)
    rw [Nat.pow_zero, Nat.mul_one]
    exact h.length_lt
  rw [if_neg hzero]
  have hsettles := write_append_settles h bytes (by omega)
  rw [← hlen]
  cases hwrite : write bytes noOffset dst with
  | error fault d =>
    rw [hwrite] at hsettles
    rw [bind_error hwrite]
    cases hsettles with
    | refused hfar hv hc => exact iff_of_true ⟨rfl, hc⟩ (hfar (by omega))
    | stuck hstuck => exact iff_of_false (fun hall => nomatch hall.1) (not_not.mpr (admits_of_stuck hstuck))
    | overrun hover =>
      exact iff_of_false (fun hall => nomatch hall.1) (not_not.mpr (admits_of_overruns hover))
  | ok u d =>
    rw [hwrite] at hsettles
    rw [bind_ok hwrite]
    cases hsettles with
    | done hsafe hfree hv hc hext =>
      refine iff_of_false (fun hall => ?_) (not_not.mpr hext.admits)
      have hgrew : dst.contents.length < d.contents.length := by
        rw [hc, List.length_append]
        omega
      by_cases hlast : count.toNat = bytes.length
      · rw [if_pos hlast] at hall
        exact hout hall.1
      · rw [if_neg hlast] at hall
        revert hall
        cases hrest : writeFromFuel count.toNat source (offset + UInt64.ofNat bytes.length)
          (count - UInt64.ofNat bytes.length) d with
        | ok u' e => exact fun hall => hout hall.1
        | error fault e =>
          intro hall
          have hkept := (writeFromFuel_extends hs _ _ _ hv (.inr ⟨fault, hrest, hall.1⟩)).2.length_le
          have hsame := congrArg List.length hall.2
          omega

private theorem whole_single (hpos : 0 < count.toNat)
    (hr : offset.toNat + count.toNat ≤ source.contents.length)
    (hrun : count.toNat ≤ source.run offset.toNat) :
    AllOrNothing contents dst source.contents offset.toNat count.toNat (writeFrom source offset count dst) ↔
      ¬ dst.AppendStuck count.toNat ∧ ¬ dst.AppendOverruns count.toNat := by
  have hlen : ((source.contents.drop offset.toNat).take count.toNat).length = count.toNat := by
    rw [List.length_take, List.length_drop]
    omega
  rw [writeFrom, writeFromFuel_last hs _ _ _ hpos hr hrun]
  have hsettles := write_append_settles h ((source.contents.drop offset.toNat).take count.toNat) (by
    rw [hlen]
    exact count.toNat_lt)
  have htail := h.tail_lt
  revert hsettles
  generalize write ((source.contents.drop offset.toNat).take count.toNat) noOffset dst = result
  intro hsettles
  cases hsettles with
  | refused hfar hv hc =>
    rw [hlen] at hfar
    exact iff_of_true ⟨rfl, hc⟩ ⟨mt admits_of_stuck (hfar hpos), mt admits_of_overruns (hfar hpos)⟩
  | stuck hstuck =>
    rw [hlen] at hstuck
    exact iff_of_false (fun hall => nomatch hall.1) fun hboth => hboth.1 hstuck
  | overrun hover =>
    rw [hlen] at hover
    exact iff_of_false (fun hall => nomatch hall.1) fun hboth => hboth.2 hover
  | done hsafe hfree hv hc hext =>
    rw [hlen] at hsafe hfree
    exact iff_of_true ⟨.inr hr, hc⟩ ⟨hfree, hsafe⟩

private theorem whole_double (hr : offset.toNat + count.toNat ≤ source.contents.length)
    (hrun : source.run offset.toNat < count.toNat) :
    AllOrNothing contents dst source.contents offset.toNat count.toNat (writeFrom source offset count dst) ↔
      ¬ dst.AppendStuck (source.run offset.toNat) ∧ ¬ dst.AppendOverruns (source.run offset.toNat) ∧
        (dst.Admits (source.run offset.toNat) → dst.Admits count.toNat ∧
          ¬ dst.OverrunsAfter (source.run offset.toNat) (count.toNat - source.run offset.toNat)) := by
  have hword := count.toNat_lt
  obtain ⟨front, back, hlen, hfront, hsum, hjoin, heq⟩ := writeFrom_double hs hr hrun
  have hback : count.toNat - source.run offset.toNat = back.length := by omega
  rw [heq, pair_whole h hr hjoin (by omega) hfront (by omega), hsum, hback, ← hlen]

/-- An append from another ring takes all of the range or nothing exactly under this condition. -/
theorem takesWhole_iff :
    AllOrNothing contents dst source.contents offset.toNat count.toNat (writeFrom source offset count dst) ↔
      dst.TakesWhole source offset.toNat count.toNat := by
  have htail := h.tail_lt
  rcases Nat.eq_zero_or_pos count.toNat with hzero | hpos
  · obtain ⟨bytes, -, -, heq⟩ := writeFromFuel_succ hs count.toNat offset count (m := 0) (by omega)
    rw [writeFrom, heq, if_pos rfl, hzero]
    refine iff_of_true ⟨.inl rfl, (List.append_nil _).symm⟩ ⟨fun _ => ?_, fun hne => absurd rfl hne⟩
    rw [Nat.min_zero]
    refine ⟨fun hstuck => Nat.lt_irrefl _ hstuck.1, fun hover => not_overruns_zero htail hover.2,
      fun _ hlt => ?_⟩
    omega
  · rcases Nat.lt_or_ge source.contents.length (offset.toNat + count.toNat) with hout | hin
    · rw [whole_outside h hs (by omega) hout]
      refine ⟨fun hno => ⟨fun hin => ?_, fun _ _ => hno⟩, fun hwhole => hwhole.outside (by omega) hout⟩
      omega
    · rcases Nat.lt_or_ge (source.run offset.toNat) count.toNat with hrun | hrun
      · rw [whole_double h hs hin hrun]
        have hmin : min (source.run offset.toNat) count.toNat = source.run offset.toNat :=
          Nat.min_eq_left (Nat.le_of_lt hrun)
        refine ⟨fun hall => ⟨fun _ => ?_, fun _ hout => ?_⟩, fun hwhole => ?_⟩
        · rw [hmin]
          exact ⟨hall.1, hall.2.1, fun hyes _ => hall.2.2 hyes⟩
        · omega
        · have hinside := hwhole.inside (.inr hin)
          rw [hmin] at hinside
          exact ⟨hinside.1, hinside.2.1, fun hyes => hinside.2.2 hyes hrun⟩
      · rw [whole_single h hs hpos hin hrun]
        have hmin : min (source.run offset.toNat) count.toNat = count.toNat := Nat.min_eq_right hrun
        refine ⟨fun hall => ⟨fun _ => ?_, fun _ hout => ?_⟩, fun hwhole => ?_⟩
        · rw [hmin]
          exact ⟨hall.1, hall.2, fun _ hlt => by omega⟩
        · omega
        · have hinside := hwhole.inside (.inr hin)
          rw [hmin] at hinside
          exact ⟨hinside.1, hinside.2.1⟩

end Whole

end Circle
end SimpleNetwork
