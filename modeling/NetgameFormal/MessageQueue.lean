import Mathlib.Logic.Function.Basic
import Mathlib.Data.Nat.ModEq

/-!
# gate_mq.c and socket_mq.c: a ring buffer that doubles when it is full

The two files differ in the type of their messages only. A cell that has never
been written is `none`, and popping it is undefined. The spin lock is left out:
every operation holds it from its first to its last access.
-/

set_option autoImplicit false

namespace NetgameFormal

universe u

def DEFAULT_QUEUE_SIZE : Nat := 64

structure MessageQueue (α : Type u) where
  cap : Nat
  head : Nat
  tail : Nat
  queue : Nat → Option α

variable {α : Type u}

def MessageQueue.new : MessageQueue α := ⟨DEFAULT_QUEUE_SIZE, 0, 0, fun _ => none⟩

/-- `if (++ i >= cap) i = 0` -/
def MessageQueue.advance (q : MessageQueue α) (i : Nat) : Nat :=
  if i + 1 ≥ q.cap then 0 else i + 1

def MessageQueue.length (q : MessageQueue α) : Nat :=
  if q.head ≤ q.tail then q.tail - q.head else q.tail + q.cap - q.head

def MessageQueue.pop (q : MessageQueue α) : Option (MessageQueue α × Option α) :=
  if q.head ≠ q.tail then
    match q.queue q.head with
    | none => none
    | some message => some ({ q with head := q.advance q.head }, some message)
  else some (q, none)

def MessageQueue.expandQueue (q : MessageQueue α) : MessageQueue α where
  cap := q.cap * 2
  head := 0
  tail := q.cap
  queue := fun i => if i < q.cap then q.queue ((q.head + i) % q.cap) else none

def MessageQueue.push (q : MessageQueue α) (message : α) : MessageQueue α :=
  let q' := { q with queue := Function.update q.queue q.tail (some message), tail := q.advance q.tail }
  if q'.head = q'.tail then q'.expandQueue else q'

/-- The messages in the array from `head` to `tail`. -/
def MessageQueue.messages (q : MessageQueue α) : List α :=
  (List.range q.length).filterMap fun i => q.queue ((q.head + i) % q.cap)

namespace MessageQueue

/-- `q` holds the messages `l`, the oldest first. -/
structure Contains (q : MessageQueue α) (l : List α) : Prop where
  head_lt : q.head < q.cap
  length_lt : l.length < q.cap
  tail_eq : q.tail = (q.head + l.length) % q.cap
  cell : ∀ i, i < l.length → q.queue ((q.head + i) % q.cap) = l[i]?

variable {q : MessageQueue α} {l : List α} {x : α}

theorem advance_eq {i : Nat} (hi : i < q.cap) : q.advance i = (i + 1) % q.cap := by
  unfold advance
  split
  · have hlast : i + 1 = q.cap := by omega
    rw [hlast, Nat.mod_self]
  · rw [Nat.mod_eq_of_lt (by omega)]

theorem cell_ne {h i j n : Nat} (hi : i < n) (hj : j < n) (hij : i ≠ j) :
    (h + i) % n ≠ (h + j) % n := by
  intro heq
  have hmod : i % n = j % n := Nat.ModEq.add_left_cancel' h heq
  rw [Nat.mod_eq_of_lt hi, Nat.mod_eq_of_lt hj] at hmod
  exact hij hmod

theorem contains_new : (MessageQueue.new : MessageQueue α).Contains [] :=
  ⟨Nat.zero_lt_succ _, Nat.zero_lt_succ _, rfl, by simp⟩

theorem Contains.tail_lt (h : q.Contains l) : q.tail < q.cap := by
  rw [h.tail_eq]
  exact Nat.mod_lt _ (Nat.zero_lt_of_lt h.head_lt)

theorem Contains.head_eq_tail_iff (h : q.Contains l) : q.head = q.tail ↔ l = [] := by
  constructor
  · intro heq
    by_contra hne
    have hpos := List.length_pos_iff.mpr hne
    have hcap : 0 < q.cap := Nat.zero_lt_of_lt h.head_lt
    have hzero : (q.head + 0) % q.cap = q.head := Nat.mod_eq_of_lt h.head_lt
    apply cell_ne hcap h.length_lt (Nat.ne_of_lt hpos)
    exact hzero.trans (heq.trans h.tail_eq)
  · intro hnil
    rw [h.tail_eq, hnil, List.length_nil, Nat.add_zero, Nat.mod_eq_of_lt h.head_lt]

theorem Contains.length_eq (h : q.Contains l) : q.length = l.length := by
  have htail := h.tail_eq
  have hhead := h.head_lt
  have hlen := h.length_lt
  unfold length
  by_cases hwrap : q.head + l.length < q.cap
  · rw [Nat.mod_eq_of_lt hwrap] at htail
    rw [if_pos (by omega)]
    omega
  · rw [Nat.mod_eq_sub_mod (by omega), Nat.mod_eq_of_lt (by omega)] at htail
    rw [if_neg (by omega)]
    omega

theorem filterMap_range (f : Nat → Option α) (hf : ∀ i, i < l.length → f i = l[i]?) :
    (List.range l.length).filterMap f = l := by
  induction l generalizing f with
  | nil => rfl
  | cons x l ih =>
    have hfirst : f 0 = some x := hf 0 (Nat.zero_lt_succ _)
    have hrest : (List.range l.length).filterMap (f ∘ Nat.succ) = l := by
      apply ih
      intro i hi
      exact hf (i + 1) (Nat.succ_lt_succ hi)
    rw [List.length_cons, List.range_succ_eq_map, List.filterMap_cons_some hfirst,
      List.filterMap_map, hrest]

theorem Contains.messages_eq (h : q.Contains l) : q.messages = l := by
  rw [messages, h.length_eq]
  exact filterMap_range _ h.cell

theorem Contains.pop_nil (h : q.Contains []) : q.pop = some (q, none) := by
  unfold pop
  rw [if_neg (not_not.mpr (h.head_eq_tail_iff.mpr rfl))]

theorem Contains.pop_cons (h : q.Contains (x :: l)) :
    ∃ q', q.pop = some (q', some x) ∧ q'.Contains l := by
  have hne : q.head ≠ q.tail := fun heq => by simpa using h.head_eq_tail_iff.mp heq
  have hfirst : q.queue q.head = some x := by
    have hcell := h.cell 0 (by simp)
    rw [Nat.add_zero, Nat.mod_eq_of_lt h.head_lt] at hcell
    simpa using hcell
  have hlen := h.length_lt
  rw [List.length_cons] at hlen
  refine ⟨{ q with head := q.advance q.head }, by simp [pop, hne, hfirst], ?_⟩
  have hnext : ∀ i, ((q.head + 1) % q.cap + i) % q.cap = (q.head + (i + 1)) % q.cap := by
    intro i
    rw [Nat.mod_add_mod, Nat.add_assoc, Nat.add_comm 1]
  constructor
  · simp only [advance_eq h.head_lt]
    exact Nat.mod_lt _ (by omega)
  · simp only
    omega
  · simp only [advance_eq h.head_lt]
    rw [hnext, h.tail_eq, List.length_cons]
  · intro i hi
    simp only [advance_eq h.head_lt]
    rw [hnext, h.cell (i + 1) (by simpa using hi), List.getElem?_cons_succ]

/-- A queue whose messages fill its array, so that `head` and `tail` have met, is copied. -/
theorem contains_expandQueue {q : MessageQueue α} (hhead : q.head < q.cap) (hlen : l.length = q.cap)
    (hcell : ∀ i, i < l.length → q.queue ((q.head + i) % q.cap) = l[i]?) :
    q.expandQueue.Contains l := by
  unfold expandQueue
  constructor
  · simp only
    omega
  · simp only
    omega
  · simp only
    rw [Nat.zero_add, hlen, Nat.mod_eq_of_lt (by omega)]
  · intro i hi
    simp only [Nat.zero_add]
    rw [Nat.mod_eq_of_lt (by omega), if_pos (by omega), hcell i hi]

theorem Contains.push (h : q.Contains l) (x : α) : (q.push x).Contains (l ++ [x]) := by
  have hpos : 0 < q.cap := Nat.zero_lt_of_lt h.head_lt
  have hlt := h.length_lt
  have hlen : (l ++ [x]).length = l.length + 1 := by simp
  unfold MessageQueue.push
  generalize hq' : ({ q with
    queue := Function.update q.queue q.tail (some x)
    tail := q.advance q.tail } : MessageQueue α) = q'
  have hcap : q'.cap = q.cap := by rw [← hq']
  have hhead : q'.head = q.head := by rw [← hq']
  have htail : q'.tail = (q.head + (l.length + 1)) % q.cap := by
    rw [← hq', advance_eq h.tail_lt, h.tail_eq, Nat.mod_add_mod, Nat.add_assoc]
  have hcell : ∀ i, i < (l ++ [x]).length →
      q'.queue ((q'.head + i) % q'.cap) = (l ++ [x])[i]? := by
    intro i hi
    rw [hlen] at hi
    rw [hcap, hhead, ← hq']
    simp only
    rcases Nat.lt_succ_iff_lt_or_eq.mp hi with hold | rfl
    · have hne : (q.head + i) % q.cap ≠ q.tail := by
        rw [h.tail_eq]
        exact cell_ne (by omega) hlt (by omega)
      rw [Function.update_of_ne hne, h.cell i hold, List.getElem?_append_left hold]
    · rw [← h.tail_eq, Function.update_self]
      simp
  by_cases hfull : l.length + 1 = q.cap
  · have hmet : q'.head = q'.tail := by
      rw [hhead, htail, hfull, Nat.add_mod_right, Nat.mod_eq_of_lt h.head_lt]
    rw [if_pos hmet]
    apply contains_expandQueue _ _ hcell
    · rw [hhead, hcap]
      exact h.head_lt
    · rw [hlen, hcap, hfull]
  · have happart : q'.head ≠ q'.tail := by
      intro hmet
      have hzero : (q.head + 0) % q.cap = q.head := Nat.mod_eq_of_lt h.head_lt
      have hroom : l.length + 1 < q.cap := by omega
      apply cell_ne hpos hroom (Nat.succ_ne_zero _).symm
      exact hzero.trans (hhead.symm.trans (hmet.trans htail))
    rw [if_neg happart]
    refine ⟨?_, ?_, ?_, hcell⟩
    · rw [hhead, hcap]
      exact h.head_lt
    · rw [hlen, hcap]
      omega
    · rw [htail, hlen, hhead, hcap]

end MessageQueue

end NetgameFormal
