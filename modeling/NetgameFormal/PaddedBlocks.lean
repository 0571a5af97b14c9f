import Mathlib.Data.List.Basic
import Mathlib.Algebra.Ring.Nat

/-!
# Hashing a padded message block by block

A message is padded with a mark, the fewest zeros and a field of fixed length
to a whole number of blocks, and a compression function absorbs the blocks in
order. The padding depends on what is left of the message only, so it can be
added when the last block has been reached.
-/

set_option autoImplicit false

namespace PaddedBlocks

universe u v

/-! ## Little-endian numbers -/

def leNat : List (BitVec 8) → Nat
  | [] => 0
  | b :: bs => b.toNat + 256 * leNat bs

def leBytes : Nat → Nat → List (BitVec 8)
  | 0, _ => []
  | k + 1, n => BitVec.ofNat 8 n :: leBytes k (n / 256)

@[simp] theorem leBytes_length (k n : Nat) : (leBytes k n).length = k := by
  induction k generalizing n with
  | zero => rfl
  | succ k ih => simp [leBytes, ih]

theorem leNat_leBytes (k n : Nat) : leNat (leBytes k n) = n % 256 ^ k := by
  induction k generalizing n with
  | zero => simp [leBytes, leNat, Nat.mod_one]
  | succ k ih =>
    have hbyte : (BitVec.ofNat 8 n).toNat = n % 256 := BitVec.toNat_ofNat n 8
    rw [leBytes, leNat, ih, hbyte, Nat.pow_succ' (m := 256), Nat.mod_mul (a := 256)]

theorem leBytes_add (j k n : Nat) : leBytes (j + k) n = leBytes j n ++ leBytes k (n / 256 ^ j) := by
  induction j generalizing n with
  | zero => simp [leBytes]
  | succ j ih =>
    rw [Nat.add_right_comm, leBytes, leBytes, ih, Nat.div_div_eq_div_mul, Nat.pow_succ',
      List.cons_append]

/-! ## Padding -/

section Padding

variable {α : Type u} {σ : Type v}

/-- How many zeros go behind a message of this size and its mark. -/
def zeros (n size field : Nat) : Nat := (n - (size + 1 + field) % n) % n

def pad (n : Nat) (mark zero : α) (field message : List α) : List α :=
  message ++ mark :: List.replicate (zeros n message.length field.length) zero ++ field

/-- Absorb the first `k` blocks of `n` symbols. -/
def absorb (n : Nat) (compress : List α → σ → σ) : Nat → List α → σ → σ
  | 0, _, s => s
  | k + 1, text, s => absorb n compress k (text.drop n) (compress (text.take n) s)

def absorbAll (n : Nat) (compress : List α → σ → σ) (text : List α) (s : σ) : σ :=
  absorb n compress (text.length / n) text s

variable {n size : Nat} {mark zero : α} {field block message : List α}
variable {compress : List α → σ → σ}

theorem pad_length (n : Nat) (mark zero : α) (field message : List α) :
    (pad n mark zero field message).length =
      message.length + 1 + zeros n message.length field.length + field.length := by
  simp only [pad, List.length_append, List.length_cons, List.length_replicate]
  omega

/-- The padded message is a whole number of blocks. -/
theorem pad_dvd (hn : 0 < n) (mark zero : α) (field message : List α) :
    n ∣ (pad n mark zero field message).length := by
  rw [pad_length, zeros]
  generalize hsize : message.length + 1 + field.length = size
  have hdiv := Nat.div_add_mod size n
  have hlt := Nat.mod_lt size hn
  rcases Nat.eq_zero_or_pos (size % n) with hzero | hpos
  · rw [hzero, Nat.sub_zero, Nat.mod_self, Nat.add_zero, hsize]
    exact Nat.dvd_of_mod_eq_zero hzero
  · rw [Nat.mod_eq_of_lt (by omega)]
    have hwhole : message.length + 1 + (n - size % n) + field.length = n * (size / n) + n := by omega
    rw [hwhole]
    exact Nat.dvd_add (Nat.dvd_mul_right n _) (Nat.dvd_refl n)

theorem zeros_add (n size field : Nat) : zeros n (n + size) field = zeros n size field := by
  rw [zeros, zeros, Nat.add_assoc, Nat.add_assoc, Nat.add_mod_left, Nat.add_assoc]

/-- A whole block in front does not matter to the padding. -/
theorem pad_append (hblock : block.length = n) :
    pad n mark zero field (block ++ message) = block ++ pad n mark zero field message := by
  rw [pad, pad, List.length_append, hblock, zeros_add]
  simp

/-- The end of a message that leaves room for the mark and the field is one block. -/
theorem pad_one (h : message.length + 1 + field.length ≤ n) :
    pad n mark zero field message =
      message ++ mark :: List.replicate (n - (message.length + 1 + field.length)) zero ++ field := by
  have hzeros : zeros n message.length field.length = n - (message.length + 1 + field.length) := by
    rw [zeros]
    rcases Nat.lt_or_eq_of_le h with hlt | heq
    · rw [Nat.mod_eq_of_lt hlt, Nat.mod_eq_of_lt (by omega)]
    · rw [heq, Nat.mod_self, Nat.sub_zero, Nat.mod_self, Nat.sub_self]
  rw [pad, hzeros]

/-- One that leaves room for the mark only is two. -/
theorem pad_two (hmark : message.length < n) (hfield : field.length ≤ n)
    (h : n < message.length + 1 + field.length) :
    pad n mark zero field message =
      (message ++ mark :: List.replicate (n - (message.length + 1)) zero) ++
        (List.replicate (n - field.length) zero ++ field) := by
  have hzeros : zeros n message.length field.length =
      (n - (message.length + 1)) + (n - field.length) := by
    rw [zeros]
    have hsize : message.length + 1 + field.length - n + n = message.length + 1 + field.length := by
      omega
    rw [← hsize, Nat.add_mod_right]
    rcases Nat.lt_or_eq_of_le (show message.length + 1 + field.length - n ≤ n by omega) with hlt | heq
    · rw [Nat.mod_eq_of_lt hlt, Nat.mod_eq_of_lt (by omega)]
      omega
    · rw [heq, Nat.mod_self, Nat.sub_zero, Nat.mod_self]
      omega
  rw [pad, hzeros, List.replicate_add, List.append_assoc, List.append_assoc, List.cons_append,
    List.cons_append, List.append_assoc]

theorem absorbAll_append (hn : 0 < n) (hblock : block.length = n) (text : List α) (s : σ) :
    absorbAll n compress (block ++ text) s = absorbAll n compress text (compress block s) := by
  subst hblock
  rw [absorbAll, List.length_append, Nat.add_div_left _ hn, absorb, List.drop_left, List.take_left]
  rfl

theorem absorbAll_block (hn : 0 < n) (hblock : block.length = n) (s : σ) :
    absorbAll n compress block s = compress block s := by
  have happend := @absorbAll_append _ _ n block compress hn hblock [] s
  rw [List.append_nil] at happend
  rw [happend, absorbAll, List.length_nil, Nat.zero_div]
  rfl

end Padding

end PaddedBlocks
