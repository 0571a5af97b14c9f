import Mathlib.Data.List.Perm.Subperm

/-!
# Null-terminated chains of nodes

A memory of nodes is seen through its `next` pointers only. `Chain next p l`
says that following `next` from the pointer `p` visits exactly `l` and then
reaches null. Since `next` is a function, a chain has no repeated node.
-/

set_option autoImplicit false

namespace NetgameFormal

universe u
variable {α : Type u}

def Chain (next : α → Option α) : Option α → List α → Prop
  | p, [] => p = none
  | p, a :: l => p = some a ∧ Chain next (next a) l

/-- The nodes met in at most `n` hops. -/
def walk (next : α → Option α) : Nat → Option α → List α
  | _, none => []
  | 0, some _ => []
  | n + 1, some a => a :: walk next n (next a)

namespace Chain
variable {next next' : α → Option α} {p : Option α} {a t : α} {l l' : List α}

@[simp] theorem nil_iff : Chain next p [] ↔ p = none := Iff.rfl

@[simp] theorem cons_iff : Chain next p (a :: l) ↔ p = some a ∧ Chain next (next a) l := Iff.rfl

theorem of_none (h : Chain next none l) : l = [] := by
  cases l with
  | nil => rfl
  | cons a l => simp at h

theorem of_some (h : Chain next (some a) l) : ∃ l', l = a :: l' ∧ Chain next (next a) l' := by
  cases l with
  | nil => simp at h
  | cons b l =>
    obtain ⟨hb, hl⟩ := cons_iff.mp h
    obtain rfl : a = b := Option.some.inj hb
    exact ⟨l, rfl, hl⟩

theorem unique (h : Chain next p l) (h' : Chain next p l') : l = l' := by
  induction l generalizing p l' with
  | nil =>
    subst h
    exact (of_none h').symm
  | cons a l ih =>
    obtain ⟨rfl, hl⟩ := h
    obtain ⟨l'', rfl, hl'⟩ := of_some h'
    rw [ih hl hl']

theorem congr (same : ∀ a ∈ l, next' a = next a) (h : Chain next p l) : Chain next' p l := by
  induction l generalizing p with
  | nil => exact h
  | cons a l ih =>
    obtain ⟨hp, hl⟩ := h
    refine ⟨hp, ?_⟩
    rw [same a List.mem_cons_self]
    exact ih (fun b hb => same b (List.mem_cons_of_mem a hb)) hl

theorem drop_prefix (h : Chain next p (l ++ a :: l')) : Chain next (some a) (a :: l') := by
  induction l generalizing p with
  | nil => exact ⟨rfl, h.2⟩
  | cons b l ih => exact ih h.2

theorem mem_tail_not_head (h : Chain next p (a :: l)) : a ∉ l := by
  intro ha
  obtain ⟨front, back, hl⟩ := List.append_of_mem ha
  have htail : Chain next (next a) (front ++ a :: back) := hl ▸ h.2
  have hback : Chain next (some a) (a :: back) := htail.drop_prefix
  have hsame : front ++ a :: back = back := unique htail hback.2
  have hlen := congrArg List.length hsame
  simp only [List.length_append, List.length_cons] at hlen
  omega

theorem nodup (h : Chain next p l) : l.Nodup := by
  induction l generalizing p with
  | nil => exact List.nodup_nil
  | cons a l ih => exact List.nodup_cons.mpr ⟨mem_tail_not_head h, ih h.2⟩

theorem walk_eq (h : Chain next p l) {n : Nat} (hn : l.length ≤ n) : walk next n p = l := by
  induction l generalizing p n with
  | nil =>
    subst h
    cases n <;> rfl
  | cons a l ih =>
    obtain ⟨rfl, hl⟩ := h
    cases n with
    | zero => simp at hn
    | succ n =>
      rw [walk, ih hl (by simpa using hn)]

theorem snoc (h : Chain next p l) (hl : l.getLast? = some t)
    (hlast : next' t = some a) (hnew : next' a = none)
    (same : ∀ b ∈ l, b ≠ t → next' b = next b) : Chain next' p (l ++ [a]) := by
  induction l generalizing p with
  | nil => simp at hl
  | cons b l ih =>
    obtain ⟨rfl, htail⟩ := h
    refine ⟨rfl, ?_⟩
    cases l with
    | nil =>
      obtain rfl : b = t := by simpa using hl
      rw [hlast]
      exact ⟨rfl, hnew⟩
    | cons c l =>
      have hbt : b ≠ t := by
        intro heq
        subst heq
        have hmem : b ∈ c :: l := List.mem_of_getLast? (by simpa using hl)
        exact mem_tail_not_head (p := some b) ⟨rfl, htail⟩ hmem
      rw [same b List.mem_cons_self hbt]
      exact ih htail (by simpa using hl) fun d hd => same d (List.mem_cons_of_mem b hd)

theorem unlink (h : Chain next p (l ++ a :: t :: l')) (hskip : next' a = next t)
    (same : ∀ b ∈ l ++ l', next' b = next b) : Chain next' p (l ++ a :: l') := by
  induction l generalizing p with
  | nil =>
    obtain ⟨hp, -, htail⟩ := h
    refine ⟨hp, ?_⟩
    rw [hskip]
    exact congr (fun b hb => same b (by simpa using hb)) htail
  | cons b l ih =>
    obtain ⟨hp, htail⟩ := h
    refine ⟨hp, ?_⟩
    rw [same b (by simp)]
    exact ih htail fun c hc => same c (List.mem_cons_of_mem b hc)

theorem next_last (h : Chain next p l) (hl : l.getLast? = some t) : next t = none := by
  induction l generalizing p with
  | nil => simp at hl
  | cons b l ih =>
    cases l with
    | nil =>
      obtain rfl : b = t := by simpa using hl
      exact h.2
    | cons c l => exact ih h.2 (by simpa using hl)

end Chain

theorem length_le_of_nodup_lt {l : List Nat} {n : Nat} (hl : l.Nodup) (hn : ∀ a ∈ l, a < n) :
    l.length ≤ n := by
  have hsub : l ⊆ List.range n := fun a ha => List.mem_range.mpr (hn a ha)
  simpa using (List.subperm_of_subset hl hsub).length_le

end NetgameFormal
