import Mathlib.Data.List.Find

/-!
# Lists that are searched from the front

A search stops at the first entry that matches; removing that entry uncovers the
next one. Nothing that is done to the entries of one kind is seen by a search
for another kind, and the entries of one bucket can be searched apart.
-/

set_option autoImplicit false

namespace NetgameFormal.AssocLists

universe u v
variable {ε : Type u} {l : List ε} {p q r : ε → Bool}

/-! ## First matches -/

theorem find?_filter_of_matches (h : ∀ e, p e = true → r e = true) :
    (l.filter r).find? p = l.find? p := by
  rw [List.find?_filter]
  congr 1
  funext e
  cases hp : p e with
  | false => simp
  | true => simp [h e hp]

theorem filter_eraseP_of_matches (h : ∀ e, p e = true → r e = true) :
    (l.eraseP p).filter r = (l.filter r).eraseP p := by
  rw [List.eraseP_filter]
  congr 2
  funext e
  cases hp : p e with
  | false => rfl
  | true => exact (h e hp).symm

theorem filter_eraseP_of_disjoint (h : ∀ e, p e = true → r e = false) :
    (l.eraseP p).filter r = l.filter r := by
  induction l with
  | nil => rfl
  | cons e l ih =>
    cases hp : p e with
    | true =>
      have hr : ¬ r e = true := by simp [h e hp]
      rw [List.eraseP_cons_of_pos hp, List.filter_cons_of_neg hr]
    | false =>
      rw [List.eraseP_cons_of_neg (by simp [hp]), List.filter_cons, List.filter_cons, ih]

theorem find?_eraseP_of_disjoint (h : ∀ e, p e = true → q e = false) :
    (l.eraseP p).find? q = l.find? q := by
  rw [← find?_filter_of_matches (l := l.eraseP p) (r := q) fun _ hq => hq,
    filter_eraseP_of_disjoint h, find?_filter_of_matches fun _ hq => hq]

theorem eraseP_congr (h : ∀ e ∈ l, p e = q e) : l.eraseP p = l.eraseP q := by
  induction l with
  | nil => rfl
  | cons e l ih =>
    rw [List.eraseP_cons, List.eraseP_cons, h e List.mem_cons_self,
      ih fun e' he' => h e' (List.mem_cons_of_mem e he')]

theorem exists_split {e : ε} (h : l.find? p = some e) :
    ∃ pre post, l = pre ++ e :: post ∧ l.eraseP p = pre ++ post ∧ p e = true ∧
      ∀ e' ∈ pre, p e' = false := by
  obtain ⟨he, pre, post, rfl, hpre⟩ := List.find?_eq_some_iff_append.mp h
  have hpre' : ∀ e' ∈ pre, ¬ p e' = true := by
    intro e' he'
    simpa using hpre e' he'
  refine ⟨pre, post, rfl, ?_, he, fun e' he' => by simpa using hpre e' he'⟩
  rw [List.eraseP_append_right _ hpre', List.eraseP_cons_of_pos he]

/-- The first match is dead, and nothing else is. -/
theorem filter_eq_eraseP {e : ε} (h : l.find? p = some e) (hdead : r e = false)
    (hlive : ∀ e' ∈ l.eraseP p, r e' = true) : l.filter r = l.eraseP p := by
  obtain ⟨pre, post, rfl, herase, -, -⟩ := exists_split h
  have hskip : ¬ r e = true := by simp [hdead]
  rw [herase] at hlive ⊢
  rw [List.filter_append, List.filter_cons_of_neg hskip, ← List.filter_append]
  exact List.filter_eq_self.mpr hlive

/-! ## Association lists -/

section Assoc

variable {κ : Type u} {β : Type v} [DecidableEq κ] {m : List (κ × β)} {k k' : κ} {b : β}

def newest (m : List (κ × β)) (k : κ) : Option β := (m.find? fun e => e.1 = k).map Prod.snd

def dropNewest (m : List (κ × β)) (k : κ) : List (κ × β) := m.eraseP fun e => e.1 = k

theorem newest_cons_self : newest ((k, b) :: m) k = some b := by
  rw [newest, List.find?_cons_of_pos (by simp)]
  rfl

theorem newest_cons_of_ne (h : k' ≠ k) : newest ((k, b) :: m) k' = newest m k' := by
  rw [newest, newest, List.find?_cons_of_neg (by simpa using h.symm)]

/-- Removing uncovers what was there before the insertion. -/
theorem dropNewest_cons_self : dropNewest ((k, b) :: m) k = m :=
  List.eraseP_cons_of_pos (by simp)

theorem newest_dropNewest_of_ne (h : k' ≠ k) : newest (dropNewest m k) k' = newest m k' := by
  rw [newest, newest, dropNewest, find?_eraseP_of_disjoint]
  intro e he
  rw [of_decide_eq_true he]
  exact decide_eq_false h.symm

end Assoc

section Lookup

variable {κ : Type u} {β : Type v} [BEq κ] [LawfulBEq κ] {m : List (κ × β)} {k k' : κ} {b : β}

theorem mem_of_lookup (h : m.lookup k = some b) : (k, b) ∈ m := by
  rw [List.lookup_eq_some_iff] at h
  obtain ⟨l, l', rfl, -⟩ := h
  exact List.mem_append_right _ List.mem_cons_self

theorem isSome_lookup_iff : (m.lookup k).isSome ↔ k ∈ m.map Prod.fst := by
  rw [List.lookup_isSome_iff]
  simp

theorem lookup_filter_of_ne {r : κ × β → Bool} (hr : ∀ e ∈ m, r e = false → e.1 = k)
    (h : k' ≠ k) : (m.filter r).lookup k' = m.lookup k' := by
  induction m with
  | nil => rfl
  | cons e m ih =>
    have ih' := ih fun e' he' => hr e' (List.mem_cons_of_mem e he')
    cases hre : r e with
    | true =>
      rw [List.filter_cons_of_pos hre, List.lookup_cons, List.lookup_cons, ih']
    | false =>
      have hne : k' ≠ e.1 := hr e List.mem_cons_self hre ▸ h
      rw [List.filter_cons_of_neg (by simp [hre]), List.lookup_cons, beq_false_of_ne hne, ih']

end Lookup

end NetgameFormal.AssocLists
