import Mathlib.Data.List.Basic

/-!
# Reading a text line by line into a bounded buffer

A read takes at most `n` symbols and stops behind the first terminator. Lines
that fit come out one by one; a longer one comes out in pieces.
-/

set_option autoImplicit false

namespace BoundedLines

universe u

variable {α : Type u} [DecidableEq α]

/-- What one read takes, and what it leaves. -/
def readLine (nl : α) : Nat → List α → List α × List α
  | 0, rest => ([], rest)
  | _ + 1, [] => ([], [])
  | n + 1, b :: rest =>
    if b = nl then ([b], rest)
    else
      let (line, rest) := readLine nl n rest
      (b :: line, rest)

/-- The results of at most `fuel` reads. -/
def reads (nl : α) (n : Nat) : Nat → List α → List (List α)
  | 0, _ => []
  | fuel + 1, text =>
    if text = [] then []
    else
      let (line, rest) := readLine nl n text
      line :: reads nl n fuel rest

def pieces (nl : α) (n : Nat) (text : List α) : List (List α) := reads nl n text.length text

def unlines (nl : α) (lines : List (List α)) : List α := lines.flatMap (· ++ [nl])

variable {nl : α} {n fuel : Nat} {text line rest : List α}

theorem readLine_append (nl : α) (n : Nat) (text : List α) :
    (readLine nl n text).1 ++ (readLine nl n text).2 = text := by
  induction n generalizing text with
  | zero => rfl
  | succ n ih =>
    cases text with
    | nil => rfl
    | cons b rest =>
      unfold readLine
      split
      · rfl
      · simp [ih]

theorem readLine_ne_nil (hn : 0 < n) (htext : text ≠ []) : (readLine nl n text).1 ≠ [] := by
  obtain ⟨m, rfl⟩ := Nat.exists_eq_add_of_lt hn
  obtain ⟨b, rest, rfl⟩ := List.exists_cons_of_ne_nil htext
  unfold readLine
  split <;> simp

theorem readLine_shorter (hn : 0 < n) (htext : text ≠ []) :
    (readLine nl n text).2.length < text.length := by
  have hlength := congrArg List.length (readLine_append nl n text)
  have hpos := List.length_pos_iff.mpr (@readLine_ne_nil _ _ nl _ _ hn htext)
  rw [List.length_append] at hlength
  omega

/-- The reads end by themselves. -/
theorem reads_fuel (hn : 0 < n) {fuel' : Nat} (hfuel : text.length ≤ fuel)
    (hfuel' : text.length ≤ fuel') : reads nl n fuel text = reads nl n fuel' text := by
  induction fuel generalizing text fuel' with
  | zero =>
    obtain rfl := List.length_eq_zero_iff.mp (Nat.le_zero.mp hfuel)
    cases fuel' <;> rfl
  | succ fuel ih =>
    by_cases htext : text = []
    · subst htext
      cases fuel' <;> rfl
    · have hlt := @readLine_shorter _ _ nl _ _ hn htext
      have hpos := List.length_pos_iff.mpr htext
      obtain ⟨k, rfl⟩ := Nat.exists_eq_add_one_of_ne_zero (Nat.ne_of_gt (Nat.lt_of_lt_of_le hpos hfuel'))
      simp only [reads, htext, if_false]
      have hrest := @ih (readLine nl n text).2 k (by omega) (by omega)
      rw [hrest]

@[simp] theorem pieces_nil (nl : α) (n : Nat) : pieces nl n [] = [] := rfl

theorem pieces_of_ne_nil (hn : 0 < n) (htext : text ≠ []) :
    pieces nl n text = (readLine nl n text).1 :: pieces nl n (readLine nl n text).2 := by
  have hlt := @readLine_shorter _ _ nl _ _ hn htext
  obtain ⟨k, hk⟩ := Nat.exists_eq_add_one_of_ne_zero (Nat.ne_of_gt (List.length_pos_iff.mpr htext))
  rw [pieces, hk]
  simp only [reads, htext, if_false]
  rw [pieces, reads_fuel hn (by omega) (Nat.le_refl _)]

/-! ## Whole lines -/

theorem readLine_short (hline : nl ∉ line) (hlt : line.length < n) :
    readLine nl n (line ++ nl :: rest) = (line ++ [nl], rest) := by
  induction line generalizing n with
  | nil =>
    obtain ⟨m, rfl⟩ := Nat.exists_eq_add_one_of_ne_zero (Nat.ne_of_gt hlt)
    simp [readLine]
  | cons b line ih =>
    obtain ⟨m, rfl⟩ := Nat.exists_eq_add_one_of_ne_zero (Nat.ne_of_gt (Nat.zero_lt_of_lt hlt))
    obtain ⟨hb, hline'⟩ := List.ne_and_not_mem_of_not_mem_cons hline
    rw [List.cons_append, readLine, if_neg (Ne.symm hb), ih hline' (Nat.lt_of_succ_lt_succ hlt)]
    rfl

theorem readLine_long (hline : nl ∉ line) (hle : n ≤ line.length) :
    readLine nl n (line ++ rest) = (line.take n, line.drop n ++ rest) := by
  induction line generalizing n with
  | nil =>
    obtain rfl := Nat.le_zero.mp hle
    rfl
  | cons b line ih =>
    cases n with
    | zero => rfl
    | succ n =>
      obtain ⟨hb, hline'⟩ := List.ne_and_not_mem_of_not_mem_cons hline
      rw [List.cons_append, readLine, if_neg (Ne.symm hb), ih hline' (Nat.le_of_succ_le_succ hle)]
      rfl

omit [DecidableEq α] in
@[simp] theorem unlines_cons (line : List α) (lines : List (List α)) :
    unlines nl (line :: lines) = line ++ nl :: unlines nl lines := by
  simp [unlines]

/-- When `trim` takes a terminator off and shortens a piece without one, the lines come out whole
exactly when they all fit. -/
theorem map_pieces_unlines_iff {trim : List α → List α} {lines : List (List α)} (hn : 0 < n)
    (hterminated : ∀ line ∈ lines, trim (line ++ [nl]) = line)
    (hcut : ∀ line ∈ lines, n ≤ line.length → trim (line.take n) ≠ line)
    (hlines : ∀ line ∈ lines, nl ∉ line) :
    (pieces nl n (unlines nl lines)).map trim = lines ↔ ∀ line ∈ lines, line.length < n := by
  induction lines with
  | nil => simp [unlines]
  | cons line lines ih =>
    have hline : nl ∉ line := hlines line List.mem_cons_self
    have htext : line ++ nl :: unlines nl lines ≠ [] := by simp
    have ih' := ih (fun l hl => hterminated l (List.mem_cons_of_mem _ hl))
      (fun l hl => hcut l (List.mem_cons_of_mem _ hl)) fun l hl => hlines l (List.mem_cons_of_mem _ hl)
    rw [unlines_cons, pieces_of_ne_nil hn htext, List.map_cons, List.forall_mem_cons]
    by_cases hlt : line.length < n
    · rw [readLine_short hline hlt, hterminated line List.mem_cons_self, List.cons.injEq, ih']
      simp [hlt]
    · have hle : n ≤ line.length := Nat.le_of_not_lt hlt
      rw [readLine_long hline hle]
      constructor
      · intro heq
        exact absurd (List.cons.inj heq).1 (hcut line List.mem_cons_self hle)
      · intro hall
        exact absurd hall.1 hlt

end BoundedLines
