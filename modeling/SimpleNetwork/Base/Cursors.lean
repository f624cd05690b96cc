import Mathlib.Data.List.Nodup
import Mathlib.Data.List.Perm.Basic
import Mathlib.Logic.Function.Iterate
import SimpleNetwork.Base.Runs

/-! Unordered tables with the iterators of hash containers, and the loop that takes
the successor of an element before it visits the element. A visit may erase
elements and insert some; an insertion may rehash. -/
namespace Cursors

@[ext]
structure Table (ε : Type) where
  order : List ε
  nodup : order.Nodup

structure Shuffle (ε : Type) where
  reorder : List ε → List ε
  perm : ∀ l, (reorder l).Perm l

inductive Position (ε : Type) where
  | element (x : ε)
  | past
  | invalid
  deriving DecidableEq

/-- A call on the table; the place and the rehash of an insertion are the table's choice. -/
inductive Op (ε : Type) where
  | erase (x : ε)
  | insert (x : ε) (place : Nat) (rehash : Option (Shuffle ε))

inductive Event (ε : Type) where
  | visited (x : ε)
  | inserted (x : ε)
  | erased (x : ε)
  deriving DecidableEq

def Event.isVisit {ε : Type} : Event ε → Bool
  | .visited _ => true
  | _ => false

def Event.isInsert {ε : Type} : Event ε → Bool
  | .inserted _ => true
  | _ => false

inductive CursorFault where
  | invalidIterator
  | diverged
  deriving DecidableEq

variable {ε : Type}

def first : List ε → Position ε
  | [] => .past
  | x :: _ => .element x

/-- Whether an element is in the table after some events. -/
def Present (initial : List ε) (events : List (Event ε)) (x : ε) : Prop :=
  events.foldl (fun present e => match e with
    | .visited _ => present
    | .inserted y => present ∨ y = x
    | .erased y => present ∧ y ≠ x) (x ∈ initial)

def putIn (x : ε) (place : Nat) (order : List ε) : List ε := order.take place ++ x :: order.drop place

theorem putIn_perm (x : ε) (place : Nat) (order : List ε) : (putIn x place order).Perm (x :: order) := by
  have h : (putIn x place order).Perm (x :: (order.take place ++ order.drop place)) := List.perm_middle
  rw [List.take_append_drop] at h
  exact h

def rehashed (rehash : Option (Shuffle ε)) (order : List ε) : List ε :=
  match rehash with
  | none => order
  | some σ => σ.reorder order

theorem putIn_left {x : ε} {place : Nat} {behind rest : List ε} (h : place ≤ behind.length) :
    putIn x place (behind ++ rest) = putIn x place behind ++ rest := by
  rw [putIn, List.take_append_of_le_length h, List.drop_append_of_le_length h, putIn, List.append_assoc]
  rfl

theorem putIn_right {x : ε} {place : Nat} {behind rest : List ε} (h : behind.length ≤ place) :
    putIn x place (behind ++ rest) = behind ++ putIn x (place - behind.length) rest := by
  rw [putIn, List.take_append, List.drop_append, List.take_of_length_le h, List.drop_of_length_le h,
    List.append_assoc]
  rfl

theorem rehashed_perm (rehash : Option (Shuffle ε)) (order : List ε) :
    (rehashed rehash order).Perm order := by
  cases rehash with
  | none => exact .refl order
  | some σ => exact σ.perm order

theorem Table.insert_perm (t : Table ε) (x : ε) (place : Nat) (rehash : Option (Shuffle ε)) :
    (rehashed rehash (putIn x place t.order)).Perm (x :: t.order) :=
  (rehashed_perm _ _).trans (putIn_perm _ _ _)

def Table.insert (t : Table ε) (x : ε) (place : Nat) (rehash : Option (Shuffle ε))
    (h : x ∉ t.order) : Table ε :=
  ⟨rehashed rehash (putIn x place t.order),
    (t.insert_perm x place rehash).nodup_iff.mpr (List.nodup_cons.mpr ⟨h, t.nodup⟩)⟩

variable [DecidableEq ε]

def successor (x : ε) : List ε → Position ε
  | [] => .past
  | y :: ys => if y = x then first ys else successor x ys

def Table.erase (t : Table ε) (x : ε) : Table ε := ⟨t.order.filter (· ≠ x), t.nodup.filter _⟩

/-- A loop over a table: where it goes next, and what happened. -/
structure Walk (ε : Type) where
  table : Table ε
  next : Position ε
  trace : List (Event ε)

namespace Walk

def begin (t : Table ε) : Walk ε := ⟨t, first t.order, []⟩

/-- An erasure invalidates the iterators to the element, a rehash all iterators. -/
def perform (w : Walk ε) : Op ε → Walk ε
  | .erase x => ⟨w.table.erase x, if w.next = .element x then .invalid else w.next, w.trace ++ [.erased x]⟩
  | .insert x place rehash =>
    if h : x ∈ w.table.order then w
    else ⟨w.table.insert x place rehash h, if rehash.isSome then .invalid else w.next,
      w.trace ++ [.inserted x]⟩

def moveOn (w : Walk ε) (x : ε) : Walk ε := ⟨w.table, successor x w.table.order, w.trace ++ [.visited x]⟩

variable (visits : List (Event ε) → ε → List (Op ε))

def visit (w : Walk ε) (x : ε) : Walk ε := (visits w.trace x).foldl perform (w.moveOn x)

/-- The loop, bounded by a number of tests of its condition. -/
def loop : Nat → Walk ε → Except CursorFault (Walk ε)
  | 0, _ => .error .diverged
  | fuel + 1, w =>
    match w.next with
    | .invalid => .error .invalidIterator
    | .past => .ok w
    | .element x => loop fuel (w.visit visits x)

def round (w : Walk ε) : Walk ε :=
  match w.next with
  | .element x => w.visit visits x
  | _ => w

/-- A call that leaves the iterator valid. -/
def Harmless (w : Walk ε) : Op ε → Prop
  | .erase x => w.next ≠ .element x
  | .insert x _ rehash => rehash.isSome → x ∈ w.table.order

def Spares (w : Walk ε) : List (Op ε) → Prop
  | [] => True
  | op :: ops => w.Harmless op ∧ (w.perform op).Spares ops

/-- No visit erases the element that is next or makes the table rehash, and the
visits do not insert elements for ever. -/
structure Spared (w : Walk ε) : Prop where
  spares : ∀ n x, ((round visits)^[n] w).next = .element x →
    (((round visits)^[n] w).moveOn x).Spares (visits ((round visits)^[n] w).trace x)
  finitely : ∃ bound, ∀ n, ((round visits)^[n] w).trace.countP Event.isInsert ≤ bound

end Walk

/-- Elements that stay are visited exactly once, and only elements that are present are visited. -/
structure Exact (initial : List ε) (trace : List (Event ε)) : Prop where
  once : ∀ x ∈ initial, .erased x ∉ trace → trace.count (.visited x) = 1
  present : ∀ before x after, trace = before ++ .visited x :: after → Present initial before x

section Present
variable {initial : List ε} {events : List (Event ε)} {x y : ε}

omit [DecidableEq ε]

theorem present_visited : Present initial (events ++ [.visited y]) x ↔ Present initial events x := by
  rw [Present, List.foldl_append]
  rfl

theorem present_inserted : Present initial (events ++ [.inserted y]) x ↔
    Present initial events x ∨ y = x := by
  rw [Present, List.foldl_append]
  rfl

theorem present_erased : Present initial (events ++ [.erased y]) x ↔ Present initial events x ∧ y ≠ x := by
  rw [Present, List.foldl_append]
  rfl

end Present

/-- A walk in the middle: the elements behind the iterator and those it has still
to reach, in the order of the table. -/
structure Amidst (initial : List ε) (w : Walk ε) (behind rest : List ε) : Prop where
  order : w.table.order = behind ++ rest
  next : w.next = first rest
  known : ∀ x, x ∈ w.table.order ↔ Present initial w.trace x
  stays : ∀ x ∈ initial, .erased x ∉ w.trace →
    x ∈ behind ∧ w.trace.count (.visited x) = 1 ∨ x ∈ rest ∧ w.trace.count (.visited x) = 0
  present : ∀ before x after, w.trace = before ++ .visited x :: after → Present initial before x
  bound : w.trace.countP Event.isVisit + rest.length ≤ initial.length + w.trace.countP Event.isInsert

theorem amidst_begin (t : Table ε) : Amidst t.order (Walk.begin t) [] t.order where
  order := rfl
  next := rfl
  known _ := .rfl
  stays x hx _ := .inr ⟨hx, rfl⟩
  present before x after h := absurd h.symm (List.append_ne_nil_of_right_ne_nil _ (List.cons_ne_nil _ _))
  bound := by
    change 0 + t.order.length ≤ t.order.length + 0
    omega

omit [DecidableEq ε] in
theorem forall_visited_concat {e : Event ε} {trace : List (Event ε)} {P : List (Event ε) → ε → Prop}
    (h : ∀ before x after, trace = before ++ .visited x :: after → P before x)
    (he : ∀ x, e = .visited x → P trace x) :
    ∀ before x after, trace ++ [e] = before ++ .visited x :: after → P before x := by
  have hall : ∀ before y after, trace ++ [e] = before ++ y :: after → ∀ x, y = .visited x → P before x := by
    refine Runs.forall_split_concat.mpr ⟨fun before y after hsplit x hy => h before x after ?_, he⟩
    rw [hsplit, hy]
  exact fun before x after hsplit => hall before _ after hsplit x rfl

theorem count_visited_concat {trace : List (Event ε)} {e : Event ε} (he : e.isVisit = false) {y : ε} :
    (trace ++ [e]).count (.visited y) = trace.count (.visited y) := by
  rw [List.count_append, Nat.add_eq_left]
  refine List.count_eq_zero.mpr fun hmem => ?_
  rw [← List.mem_singleton.mp hmem] at he
  cases he

theorem successor_append {behind rest : List ε} {x : ε} (h : x ∉ behind) :
    successor x (behind ++ x :: rest) = first rest := by
  induction behind with
  | nil => exact if_pos rfl
  | cons y ys ih =>
    have hne : ¬ y = x := fun hy => h (hy ▸ List.mem_cons_self)
    rw [List.cons_append, successor, if_neg hne]
    exact ih fun hx => h (List.mem_cons_of_mem _ hx)

theorem first_filter {rest : List ε} {x : ε} (h : first rest ≠ .element x) :
    first (rest.filter (· ≠ x)) = first rest := by
  cases rest with
  | nil => rfl
  | cons y ys =>
    have hne : y ≠ x := fun hy => h (hy ▸ rfl)
    rw [List.filter_cons_of_pos (by simpa using hne)]
    rfl

namespace Amidst
variable {initial behind rest : List ε} {w : Walk ε}

/-- The iterator moves on from the element that is next. -/
theorem moveOn {x : ε} (h : Amidst initial w behind (x :: rest)) :
    Amidst initial (w.moveOn x) (behind ++ [x]) rest := by
  have hnodup := w.table.nodup
  rw [h.order] at hnodup
  have hx : x ∉ behind := fun hb => (List.nodup_append.mp hnodup).2.2 x hb x List.mem_cons_self rfl
  have hrest : x ∉ rest := (List.nodup_cons.mp (List.nodup_append.mp hnodup).2.1).1
  refine ⟨?_, ?_, fun y => ?_, fun y hy hstays => ?_, ?_, ?_⟩
  · rw [List.append_assoc]
    exact h.order
  · change successor x w.table.order = _
    rw [h.order, successor_append hx]
  · exact (h.known y).trans present_visited.symm
  · have hstay := h.stays y hy fun he => hstays (List.mem_append_left _ he)
    change y ∈ behind ++ [x] ∧ (w.trace ++ [_]).count _ = 1 ∨ y ∈ rest ∧ (w.trace ++ [_]).count _ = 0
    rw [List.count_append, List.mem_append, List.mem_singleton]
    by_cases hyx : y = x
    · subst hyx
      rcases hstay with ⟨hb, -⟩ | ⟨-, hcount⟩
      · exact absurd hb hx
      · rw [hcount, List.count_singleton_self]
        exact .inl ⟨.inr rfl, rfl⟩
    · have hzero : [Event.visited x].count (.visited y) = 0 := by
        refine List.count_eq_zero.mpr fun hmem => ?_
        cases List.mem_singleton.mp hmem
        exact hyx rfl
      rw [hzero, Nat.add_zero]
      rcases hstay with ⟨hb, hcount⟩ | ⟨hr, hcount⟩
      · exact .inl ⟨.inl hb, hcount⟩
      · exact .inr ⟨(List.mem_cons.mp hr).resolve_left hyx, hcount⟩
  · refine forall_visited_concat h.present fun y hy => ?_
    cases hy
    refine (h.known x).mp ?_
    rw [h.order]
    exact List.mem_append_right _ List.mem_cons_self
  · have hbound := h.bound
    change (w.trace ++ [_]).countP _ + _ ≤ _ + (w.trace ++ [_]).countP _
    rw [List.countP_append, List.countP_append]
    change _ + 1 + _ ≤ _ + (_ + 0)
    rw [List.length_cons] at hbound
    omega

theorem erase {x : ε} (h : Amidst initial w behind rest) (hnext : w.next ≠ .element x) :
    Amidst initial (w.perform (.erase x)) (behind.filter (· ≠ x)) (rest.filter (· ≠ x)) := by
  refine ⟨?_, ?_, fun y => ?_, fun y hy hstays => ?_, ?_, ?_⟩
  · change w.table.order.filter (· ≠ x) = _
    rw [h.order, List.filter_append]
  · change (if w.next = .element x then .invalid else w.next) = _
    rw [if_neg hnext, first_filter (h.next ▸ hnext), h.next]
  · change y ∈ w.table.order.filter (· ≠ x) ↔ Present initial (w.trace ++ [Event.erased x]) y
    rw [List.mem_filter, present_erased, h.known y, decide_eq_true_iff, ne_comm]
  · obtain ⟨hbefore, hlast⟩ := not_or.mp fun hor => hstays (List.mem_append.mpr hor)
    have hyx : y ≠ x := fun heq => hlast (heq ▸ List.mem_singleton.mpr rfl)
    change _ ∧ (w.trace ++ [Event.erased x]).count _ = 1 ∨ _ ∧ (w.trace ++ [Event.erased x]).count _ = 0
    rw [count_visited_concat rfl, List.mem_filter, List.mem_filter, decide_eq_true_iff]
    exact (h.stays y hy hbefore).imp (fun hb => ⟨⟨hb.1, hyx⟩, hb.2⟩) fun hr => ⟨⟨hr.1, hyx⟩, hr.2⟩
  · exact forall_visited_concat h.present fun y hy => nomatch hy
  · have hbound := h.bound
    have hlen := List.length_filter_le (fun y => decide (y ≠ x)) rest
    change (w.trace ++ [Event.erased x]).countP _ + _ ≤ _ + (w.trace ++ [Event.erased x]).countP _
    rw [List.countP_append, List.countP_append]
    change _ + 0 + _ ≤ _ + (_ + 0)
    omega

/-- An insertion that does not rehash puts its element behind the iterator or in front of it. -/
theorem insert {x : ε} {place : Nat} {rehash : Option (Shuffle ε)} (h : Amidst initial w behind rest)
    (hsafe : w.Harmless (.insert x place rehash)) :
    ∃ behind rest, Amidst initial (w.perform (.insert x place rehash)) behind rest := by
  rw [Walk.perform]
  split
  · exact ⟨behind, rest, h⟩
  rename_i hx
  have hnone : rehash = none := Option.not_isSome_iff_eq_none.mp fun hsome => hx (hsafe hsome)
  subst hnone
  have hplace : ∃ behind' rest', putIn x place w.table.order = behind' ++ rest' ∧ first rest' = first rest ∧
      rest'.length ≤ rest.length + 1 ∧ (∀ y ∈ behind, y ∈ behind') ∧ ∀ y ∈ rest, y ∈ rest' := by
    have hput (n : Nat) (l : List ε) : ∀ y ∈ l, y ∈ putIn x n l :=
      fun y hy => (putIn_perm x n l).mem_iff.mpr (List.mem_cons_of_mem _ hy)
    rw [h.order]
    rcases Nat.lt_or_ge behind.length place with hlt | hge
    · cases rest with
      | nil =>
        refine ⟨putIn x place behind, [], ?_, rfl, Nat.zero_le _, hput _ _, fun y hy => hy⟩
        rw [List.append_nil, List.append_nil]
      | cons r rs =>
        refine ⟨behind, putIn x (place - behind.length) (r :: rs), putIn_right (Nat.le_of_lt hlt),
          ?_, ?_, fun y hy => hy, hput _ _⟩
        · obtain ⟨k, hk⟩ := Nat.exists_eq_succ_of_ne_zero (Nat.sub_ne_zero_of_lt hlt)
          rw [hk]
          rfl
        · exact Nat.le_of_eq (putIn_perm x _ _).length_eq
    · exact ⟨putIn x place behind, rest, putIn_left hge, rfl, Nat.le_succ _, hput _ _, fun y hy => hy⟩
  obtain ⟨behind', rest', horder, hfirst, hlen, hbehind, hrest⟩ := hplace
  refine ⟨behind', rest', horder, h.next.trans hfirst.symm, fun y => ?_, fun y hy hstays => ?_, ?_, ?_⟩
  · change y ∈ putIn x place w.table.order ↔ Present initial (w.trace ++ [Event.inserted x]) y
    rw [(putIn_perm x place _).mem_iff, List.mem_cons, present_inserted, h.known y, or_comm, eq_comm]
  · change _ ∧ (w.trace ++ [Event.inserted x]).count _ = 1 ∨ _ ∧ (w.trace ++ [Event.inserted x]).count _ = 0
    rw [count_visited_concat rfl]
    have hstay := h.stays y hy fun he => hstays (List.mem_append_left _ he)
    exact hstay.imp (fun hb => ⟨hbehind y hb.1, hb.2⟩) fun hr => ⟨hrest y hr.1, hr.2⟩
  · exact forall_visited_concat h.present fun y hy => nomatch hy
  · have hbound := h.bound
    change (w.trace ++ [Event.inserted x]).countP _ + _ ≤ _ + (w.trace ++ [Event.inserted x]).countP _
    rw [List.countP_append, List.countP_append]
    change _ + 0 + _ ≤ _ + (_ + 1)
    omega

theorem perform {op : Op ε} (h : Amidst initial w behind rest) (hsafe : w.Harmless op) :
    ∃ behind rest, Amidst initial (w.perform op) behind rest := by
  cases op with
  | erase x => exact ⟨_, _, h.erase hsafe⟩
  | insert x place rehash => exact h.insert hsafe

theorem react {ops : List (Op ε)} (h : Amidst initial w behind rest) (hsafe : w.Spares ops) :
    ∃ behind rest, Amidst initial (ops.foldl Walk.perform w) behind rest := by
  induction ops generalizing w behind rest with
  | nil => exact ⟨behind, rest, h⟩
  | cons op ops ih =>
    obtain ⟨behind', rest', h'⟩ := h.perform hsafe.1
    exact ih h' hsafe.2

/-- One round of the loop when its visit spares the iterator. -/
theorem round {visits : List (Event ε) → ε → List (Op ε)} (h : Amidst initial w behind rest)
    (hsafe : ∀ x, w.next = .element x → (w.moveOn x).Spares (visits w.trace x)) :
    ∃ behind rest, Amidst initial (w.round visits) behind rest := by
  have hnext := h.next
  cases rest with
  | nil =>
    rw [Walk.round, hnext]
    exact ⟨behind, [], h⟩
  | cons x rest =>
    rw [Walk.round, hnext]
    exact h.moveOn.react (hsafe x hnext)

end Amidst

namespace Walk
variable {w : Walk ε} {visits : List (Event ε) → ε → List (Op ε)}

theorem perform_invalid {op : Op ε} (h : w.next = .invalid) : (w.perform op).next = .invalid := by
  cases op with
  | erase x =>
    change (if w.next = .element x then .invalid else w.next) = _
    rw [h, if_neg fun he => nomatch he]
  | insert x place rehash =>
    rw [perform]
    split
    · exact h
    · change (if rehash.isSome then .invalid else w.next) = _
      rw [h, ite_self]

theorem perform_harmful {op : Op ε} (h : ¬ w.Harmless op) : (w.perform op).next = .invalid := by
  cases op with
  | erase x => exact if_pos (not_not.mp h)
  | insert x place rehash =>
    obtain ⟨hsome, hx⟩ := Classical.not_imp.mp h
    rw [perform, dif_neg hx]
    exact if_pos hsome

theorem react_invalid {ops : List (Op ε)} (h : w.next = .invalid) :
    (ops.foldl perform w).next = .invalid := by
  induction ops generalizing w with
  | nil => exact h
  | cons op ops ih => exact ih (perform_invalid h)

/-- A reaction that does not spare the iterator leaves it invalid. -/
theorem react_harmful {ops : List (Op ε)} (h : ¬ w.Spares ops) : (ops.foldl perform w).next = .invalid := by
  induction ops generalizing w with
  | nil => exact absurd trivial h
  | cons op ops ih =>
    by_cases hop : w.Harmless op
    · exact ih fun hops => h ⟨hop, hops⟩
    · change (ops.foldl perform (w.perform op)).next = _
      exact react_invalid (perform_harmful hop)

theorem round_element {x : ε} (h : w.next = .element x) : w.round visits = w.visit visits x := by
  rw [round, h]

theorem round_past (h : w.next = .past) : w.round visits = w := by rw [round, h]

theorem rounds_past (h : w.next = .past) (n : Nat) : (round visits)^[n] w = w :=
  Function.iterate_fixed (round_past h) n

theorem rounds_invalid (h : w.next = .invalid) (n : Nat) : (round visits)^[n] w = w :=
  Function.iterate_fixed (by rw [round, h]) n

/-- A loop that reaches the end returns. -/
theorem loop_of_past {n : Nat} (h : ((round visits)^[n] w).next = .past) :
    w.loop visits (n + 1) = .ok ((round visits)^[n] w) := by
  induction n generalizing w with
  | zero =>
    rw [loop, show w.next = .past from h]
    rfl
  | succ n ih =>
    cases hnext : w.next with
    | past =>
      rw [rounds_past hnext, loop, hnext]
    | invalid =>
      rw [rounds_invalid hnext, hnext] at h
      cases h
    | element x =>
      rw [Function.iterate_succ_apply, round_element hnext] at h ⊢
      rw [loop, hnext]
      exact ih h

/-- A loop that returns never had an invalid iterator, and its visits inserted finitely often. -/
theorem of_loop {fuel : Nat} {u : Walk ε} (h : w.loop visits fuel = .ok u) :
    (∀ n, ((round visits)^[n] w).next ≠ .invalid) ∧
      ∃ bound, ∀ n, ((round visits)^[n] w).trace.countP Event.isInsert ≤ bound := by
  induction fuel generalizing w with
  | zero => cases h
  | succ fuel ih =>
    rw [loop] at h
    cases hnext : w.next with
    | past =>
      refine ⟨fun n => ?_, w.trace.countP Event.isInsert, fun n => ?_⟩
      · rw [rounds_past hnext, hnext]
        exact fun he => nomatch he
      · exact Nat.le_of_eq (by rw [rounds_past hnext])
    | invalid =>
      rw [hnext] at h
      cases h
    | element x =>
      rw [hnext] at h
      obtain ⟨hvalid, bound, hbound⟩ := ih h
      refine ⟨fun n => ?_, max bound (w.trace.countP Event.isInsert), fun n => ?_⟩
      · cases n with
        | zero => exact fun he => nomatch hnext.symm.trans he
        | succ n =>
          rw [Function.iterate_succ_apply, round_element hnext]
          exact hvalid n
      · cases n with
        | zero => exact Nat.le_max_right _ _
        | succ n =>
          rw [Function.iterate_succ_apply, round_element hnext]
          exact Nat.le_trans (hbound n) (Nat.le_max_left _ _)

theorem spared_of_loop {fuel : Nat} {u : Walk ε} (h : w.loop visits fuel = .ok u) : w.Spared visits := by
  obtain ⟨hvalid, hfinitely⟩ := of_loop h
  refine ⟨fun n x hnext => ?_, hfinitely⟩
  by_contra hharm
  refine hvalid (n + 1) ?_
  rw [Function.iterate_succ_apply', round_element hnext]
  exact react_harmful hharm

variable {t : Table ε}

theorem Spared.amidst (h : (begin t).Spared visits) (n : Nat) :
    ∃ behind rest, Amidst t.order ((round visits)^[n] (begin t)) behind rest := by
  induction n with
  | zero => exact ⟨[], t.order, amidst_begin t⟩
  | succ n ih =>
    obtain ⟨behind, rest, hamidst⟩ := ih
    rw [Function.iterate_succ_apply']
    exact hamidst.round (h.spares n)

theorem perform_visits (op : Op ε) :
    (w.perform op).trace.countP Event.isVisit = w.trace.countP Event.isVisit := by
  cases op with
  | erase x => exact List.countP_append
  | insert x place rehash =>
    rw [perform]
    split
    · rfl
    · exact List.countP_append

theorem visit_visits (x : ε) :
    (w.visit visits x).trace.countP Event.isVisit = w.trace.countP Event.isVisit + 1 := by
  have hreact (ops : List (Op ε)) (u : Walk ε) :
      (ops.foldl perform u).trace.countP Event.isVisit = u.trace.countP Event.isVisit := by
    induction ops generalizing u with
    | nil => rfl
    | cons op ops ih => exact (ih _).trans (perform_visits op)
  exact (hreact _ _).trans List.countP_append

/-- Each round before the end is a visit. -/
theorem visits_of_rounds {n : Nat} (h : ∀ k < n, ∃ x, ((round visits)^[k] w).next = .element x) :
    ((round visits)^[n] w).trace.countP Event.isVisit = w.trace.countP Event.isVisit + n := by
  induction n with
  | zero => rfl
  | succ n ih =>
    obtain ⟨x, hx⟩ := h n (Nat.lt_succ_self n)
    rw [Function.iterate_succ_apply', round_element hx, visit_visits,
      ih fun k hk => h k (Nat.lt_succ_of_lt hk)]
    rfl

/-- The loop ends when its visits spare the iterator. -/
theorem Spared.ends (h : (begin t).Spared visits) : ∃ n, ((round visits)^[n] (begin t)).next = .past := by
  by_contra hnever
  obtain ⟨bound, hbound⟩ := h.finitely
  have hgoes (k : Nat) : ∃ x, ((round visits)^[k] (begin t)).next = .element x := by
    obtain ⟨behind, rest, hamidst⟩ := h.amidst k
    cases rest with
    | nil => exact absurd ⟨k, hamidst.next⟩ hnever
    | cons x rest => exact ⟨x, hamidst.next⟩
  obtain ⟨behind, rest, hamidst⟩ := h.amidst (t.order.length + bound + 1)
  have hvisits := visits_of_rounds (n := t.order.length + bound + 1) fun k _ => hgoes k
  have hcount := hamidst.bound
  have hinserts := hbound (t.order.length + bound + 1)
  omega

end Walk

theorem Amidst.exact {initial behind : List ε} {w : Walk ε} (h : Amidst initial w behind []) :
    Exact initial w.trace where
  once x hx hstays := ((h.stays x hx hstays).resolve_right fun hr => absurd hr.1 List.not_mem_nil).2
  present := h.present

/-- The loop returns, having visited each element that stays exactly once and only
elements that are present, if and only if its visits spare the iterator. -/
theorem loop_exact_iff (t : Table ε) (visits : List (Event ε) → ε → List (Op ε)) :
    (∃ fuel w, (Walk.begin t).loop visits fuel = .ok w ∧ Exact t.order w.trace) ↔
    (Walk.begin t).Spared visits := by
  constructor
  · rintro ⟨fuel, w, hloop, -⟩
    exact Walk.spared_of_loop hloop
  · intro h
    obtain ⟨n, hn⟩ := h.ends
    obtain ⟨behind, rest, hamidst⟩ := h.amidst n
    have hrest : rest = [] := by
      have hnext := hamidst.next.symm.trans hn
      cases rest with
      | nil => rfl
      | cons x rest => cases hnext
    subst hrest
    exact ⟨n + 1, _, Walk.loop_of_past hn, hamidst.exact⟩

section Erasing
variable {w : Walk ε} {gone : List (Event ε) → ε → List ε}

theorem Walk.spares_erase {ys : List ε} : w.Spares (ys.map .erase) ↔ ∀ y ∈ ys, w.next ≠ .element y := by
  induction ys generalizing w with
  | nil => exact iff_of_true trivial fun y hy => absurd hy List.not_mem_nil
  | cons y ys ih =>
    rw [List.map_cons, Spares, List.forall_mem_cons, ih]
    refine and_congr_right fun hy => forall₂_congr fun z _ => ?_
    have hnext : (w.perform (.erase y)).next = w.next := if_neg hy
    rw [hnext]

theorem Walk.erase_inserts (ys : List ε) :
    ((ys.map Op.erase).foldl perform w).trace.countP Event.isInsert = w.trace.countP Event.isInsert := by
  induction ys generalizing w with
  | nil => rfl
  | cons y ys ih => exact ih.trans List.countP_append

/-- Visits that only erase spare the iterator unless they erase the element that is next. -/
theorem Walk.spared_erase_iff {t : Table ε} : (begin t).Spared (fun events x => (gone events x).map .erase) ↔
    ∀ n x, ((round fun events x => (gone events x).map .erase)^[n] (begin t)).next = .element x →
      let u := (round fun events x => (gone events x).map .erase)^[n] (begin t)
      ∀ y ∈ gone u.trace x, successor x u.table.order ≠ .element y := by
  constructor
  · exact fun h n x hx => spares_erase.mp (h.spares n x hx)
  · refine fun h => ⟨fun n x hx => spares_erase.mpr (h n x hx), 0, fun n => Nat.le_of_eq ?_⟩
    induction n with
    | zero => rfl
    | succ n ih =>
      rw [Function.iterate_succ_apply']
      generalize (round fun events x => (gone events x).map .erase)^[n] (begin t) = u at ih
      rw [round]
      split
      · rw [visit, erase_inserts]
        exact List.countP_append.trans (by rw [ih]; rfl)
      · exact ih

theorem successor_ne {x : ε} {order : List ε} (h : order.Nodup) : successor x order ≠ .element x := by
  induction order with
  | nil => exact fun he => nomatch he
  | cons y ys ih =>
    obtain ⟨hy, hys⟩ := List.nodup_cons.mp h
    rw [successor]
    split
    · rename_i hyx
      subst hyx
      cases ys with
      | nil => exact fun he => nomatch he
      | cons z zs =>
        intro he
        cases he
        exact hy List.mem_cons_self
    · exact ih hys

end Erasing

end Cursors
