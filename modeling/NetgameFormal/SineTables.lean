import Mathlib.Analysis.SpecialFunctions.Trigonometric.Basic
import Mathlib.Tactic.LinearCombination

/-!
# Integer parts of scaled sines, by computation

The powers of one Gaussian number close to `e ^ i` tell the sines of 1, 2, 3 and
so on, each with an error that grows by the first one. An integer part follows
where the error leaves only one; what then is left to check is about integers.
-/

set_option autoImplicit false

namespace SineTables

open Complex

/-! ## Powers -/

/-- The parts of `(c + s i) ^ n`. -/
def powers (c s : ℤ) : ℕ → ℤ × ℤ
  | 0 => (1, 0)
  | n + 1 =>
    let (x, y) := powers c s n
    (x * c - y * s, x * s + y * c)

theorem powers_eq (c s : ℤ) (n : ℕ) :
    ((powers c s n).1 + (powers c s n).2 * I : ℂ) = (c + s * I) ^ n := by
  induction n with
  | zero => simp [powers]
  | succ n ih =>
    rw [pow_succ, ← ih]
    simp only [powers]
    push_cast
    linear_combination (-(powers c s n).2 * s) * I_mul_I

/-- In the unit disc the powers part at most linearly. -/
theorem norm_pow_sub_pow_le {z w : ℂ} (hz : ‖z‖ ≤ 1) (hw : ‖w‖ ≤ 1) (n : ℕ) :
    ‖z ^ n - w ^ n‖ ≤ n * ‖z - w‖ := by
  induction n with
  | zero => simp
  | succ n ih =>
    have hsplit : z ^ (n + 1) - w ^ (n + 1) = (z ^ n - w ^ n) * z + w ^ n * (z - w) := by ring
    have hfirst : ‖(z ^ n - w ^ n) * z‖ ≤ n * ‖z - w‖ := by
      rw [norm_mul]
      exact (mul_le_of_le_one_right (norm_nonneg _) hz).trans ih
    have hsecond : ‖w ^ n * (z - w)‖ ≤ ‖z - w‖ := by
      rw [norm_mul, norm_pow]
      exact mul_le_of_le_one_left (norm_nonneg _) (pow_le_one₀ (norm_nonneg _) hw)
    calc ‖z ^ (n + 1) - w ^ (n + 1)‖
        ≤ ‖(z ^ n - w ^ n) * z‖ + ‖w ^ n * (z - w)‖ := hsplit ▸ norm_add_le _ _
      _ ≤ n * ‖z - w‖ + ‖z - w‖ := add_le_add hfirst hsecond
      _ = (n + 1 : ℕ) * ‖z - w‖ := by push_cast; ring

/-- `(c + s i) / 2 ^ p` is in the unit disc, and within `2 ^ -q` of `e ^ i`. -/
structure Approximates (c s : ℤ) (p q : ℕ) : Prop where
  inside : c ^ 2 + s ^ 2 ≤ 2 ^ (2 * p)
  close : ‖exp I - (c + s * I) / 2 ^ p‖ ≤ 1 / 2 ^ q

variable {c s : ℤ} {p q : ℕ}

namespace Approximates

theorem norm_le (h : Approximates c s p q) : ‖((c + s * I) / 2 ^ p : ℂ)‖ ≤ 1 := by
  have hsq : (c : ℝ) ^ 2 + (s : ℝ) ^ 2 ≤ (2 ^ p) ^ 2 := by
    rw [← pow_mul, mul_comm p]
    exact_mod_cast h.inside
  have hnorm : ‖(c + s * I : ℂ)‖ ≤ 2 ^ p := by
    apply (abs_le_of_sq_le_sq' _ (by positivity)).2
    rw [← normSq_eq_norm_sq, ← ofReal_intCast, ← ofReal_intCast, normSq_add_mul_I]
    exact hsq
  rw [norm_div, norm_pow, Complex.norm_ofNat]
  exact div_le_one_of_le₀ hnorm (by positivity)

theorem sin_close (h : Approximates c s p q) (n : ℕ) :
    |Real.sin n - (powers c s n).2 / 2 ^ (p * n)| ≤ n / 2 ^ q := by
  have hexp : ‖exp I‖ ≤ 1 := by
    have hone := norm_exp_ofReal_mul_I 1
    rw [ofReal_one, one_mul] at hone
    exact hone.le
  have hpow : exp I ^ n = exp (((n : ℝ) : ℂ) * I) := by
    rw [ofReal_natCast, exp_nat_mul]
  have him : (exp I ^ n - ((c + s * I) / 2 ^ p) ^ n).im =
      Real.sin n - (powers c s n).2 / 2 ^ (p * n) := by
    rw [hpow, div_pow, ← powers_eq, ← pow_mul, sub_im, exp_ofReal_mul_I_im]
    congr 1
    rw [← ofReal_ofNat, ← ofReal_pow, div_ofReal_im]
    simp
  rw [← him]
  calc |(exp I ^ n - ((c + s * I) / 2 ^ p) ^ n).im|
      ≤ ‖exp I ^ n - ((c + s * I) / 2 ^ p) ^ n‖ := abs_im_le_norm _
    _ ≤ n * ‖exp I - (c + s * I) / 2 ^ p‖ := norm_pow_sub_pow_le hexp h.norm_le n
    _ ≤ n * (1 / 2 ^ q) := by gcongr; exact h.close
    _ = n / 2 ^ q := by ring

theorem abs_sin_close (h : Approximates c s p q) (n : ℕ) :
    |(|Real.sin n| - (powers c s n).2.natAbs / 2 ^ (p * n) : ℝ)| ≤ n / 2 ^ q := by
  have habs : ((powers c s n).2.natAbs / 2 ^ (p * n) : ℝ) =
      |((powers c s n).2 / 2 ^ (p * n) : ℝ)| := by
    rw [abs_div, abs_of_pos (by positivity : (0 : ℝ) < 2 ^ (p * n)), Nat.cast_natAbs, Int.cast_abs]
  rw [habs]
  exact (abs_abs_sub_abs_le _ _).trans (h.sin_close n)

end Approximates

/-! ## Integer parts -/

/-- The approximation leaves `k` only for the integer part of `2 ^ b * |sin n|`. -/
def Brackets (c s : ℤ) (p q b n k : ℕ) : Prop :=
  k * 2 ^ (p * n + q) + n * 2 ^ (b + p * n) ≤ (powers c s n).2.natAbs * 2 ^ (b + q) ∧
    (powers c s n).2.natAbs * 2 ^ (b + q) + n * 2 ^ (b + p * n) < (k + 1) * 2 ^ (p * n + q)

instance (c s : ℤ) (p q b n k : ℕ) : Decidable (Brackets c s p q b n k) :=
  inferInstanceAs (Decidable (_ ∧ _))

theorem Approximates.floor_sin (h : Approximates c s p q) {b n k : ℕ}
    (hk : Brackets c s p q b n k) : ⌊2 ^ b * |Real.sin n|⌋₊ = k := by
  obtain ⟨hlow, hhigh⟩ := abs_le.mp (h.abs_sin_close n)
  have hlower : (k * (2 ^ (p * n) * 2 ^ q) + n * (2 ^ b * 2 ^ (p * n)) : ℝ) ≤
      (powers c s n).2.natAbs * (2 ^ b * 2 ^ q) := by
    simp only [← pow_add]
    exact_mod_cast hk.1
  have hupper : ((powers c s n).2.natAbs * (2 ^ b * 2 ^ q) + n * (2 ^ b * 2 ^ (p * n)) : ℝ) <
      (k + 1) * (2 ^ (p * n) * 2 ^ q) := by
    simp only [← pow_add]
    exact_mod_cast hk.2
  have hu : (0 : ℝ) < 2 ^ (p * n) := by positivity
  have hv : (0 : ℝ) < 2 ^ q := by positivity
  have hw : (0 : ℝ) < 2 ^ b := by positivity
  -- from here on only the sizes of these numbers matter
  generalize ((powers c s n).2.natAbs : ℝ) = y at *
  generalize (2 ^ (p * n) : ℝ) = u at *
  generalize (2 ^ q : ℝ) = v at *
  generalize (2 ^ b : ℝ) = w at *
  rw [Nat.floor_eq_iff (by positivity)]
  constructor
  · calc (k : ℝ) ≤ w * (y / u - n / v) := by
          rw [div_sub_div _ _ hu.ne' hv.ne', mul_div_assoc', le_div_iff₀ (by positivity)]
          linarith
      _ ≤ w * |Real.sin n| := by gcongr; linarith
  · calc w * |Real.sin n| ≤ w * (y / u + n / v) := by gcongr; linarith
      _ < k + 1 := by
          rw [div_add_div _ _ hu.ne' hv.ne', mul_div_assoc', div_lt_iff₀ (by positivity)]
          linarith

/-! ## The approximation -/

/-- The first terms of the series of `cos 1`. -/
noncomputable def cosTerms (n : ℕ) : ℝ := ∑ k ∈ Finset.range n, (-1) ^ k / (2 * k).factorial

noncomputable def sinTerms (n : ℕ) : ℝ := ∑ k ∈ Finset.range n, (-1) ^ k / (2 * k + 1).factorial

theorem expTerms_eq (n : ℕ) :
    (∑ m ∈ Finset.range (2 * n), I ^ m / m.factorial : ℂ) = cosTerms n + sinTerms n * I := by
  induction n with
  | zero => simp [cosTerms, sinTerms]
  | succ n ih =>
    have heven : I ^ (2 * n) = (-1) ^ n := by rw [pow_mul, I_sq]
    have hodd : I ^ (2 * n + 1) = (-1) ^ n * I := by rw [pow_succ, heven]
    rw [Nat.mul_succ, Finset.sum_range_succ, Finset.sum_range_succ, ih, heven, hodd]
    simp only [cosTerms, sinTerms, Finset.sum_range_succ]
    push_cast
    ring

theorem exp_I_close {n : ℕ} (hn : 0 < n) :
    ‖exp I - (cosTerms n + sinTerms n * I)‖ ≤ (2 * n + 1) / ((2 * n).factorial * (2 * n)) := by
  have hbound := exp_bound norm_I.le (Nat.mul_pos (by decide : 0 < 2) hn)
  rw [expTerms_eq, norm_I, one_pow, one_mul] at hbound
  apply hbound.trans_eq
  push_cast
  rw [div_eq_mul_inv]

theorem Approximates.of_terms {n : ℕ} (hn : 0 < n) (inside : c ^ 2 + s ^ 2 ≤ 2 ^ (2 * p))
    (hclose : (2 * n + 1) / ((2 * n).factorial * (2 * n)) + |cosTerms n - c / 2 ^ p| +
      |sinTerms n - s / 2 ^ p| ≤ 1 / 2 ^ q) : Approximates c s p q where
  inside := inside
  close := by
    have hsplit : (cosTerms n + sinTerms n * I - (c + s * I) / 2 ^ p : ℂ) =
        ((cosTerms n - c / 2 ^ p : ℝ) : ℂ) + (sinTerms n - s / 2 ^ p : ℝ) * I := by
      push_cast
      ring
    have hparts : ‖(cosTerms n + sinTerms n * I - (c + s * I) / 2 ^ p : ℂ)‖ ≤
        |cosTerms n - c / 2 ^ p| + |sinTerms n - s / 2 ^ p| := by
      rw [hsplit]
      apply (norm_add_le _ _).trans_eq
      rw [norm_mul, norm_I, mul_one, norm_real, norm_real, Real.norm_eq_abs, Real.norm_eq_abs]
    calc ‖exp I - (c + s * I) / 2 ^ p‖
        ≤ ‖exp I - (cosTerms n + sinTerms n * I)‖ +
            ‖(cosTerms n + sinTerms n * I - (c + s * I) / 2 ^ p : ℂ)‖ :=
          norm_sub_le_norm_sub_add_norm_sub _ _ _
      _ ≤ 1 / 2 ^ q := by linarith [exp_I_close hn]

/-- `e ^ i` to 60 binary places. -/
theorem unit_approximates : Approximates 9966818358784711825 15522399902203605024 64 60 := by
  apply @Approximates.of_terms _ _ _ _ 12 (by decide) (by norm_num)
  have hcos : |cosTerms 12 - (9966818358784711825 : ℤ) / 2 ^ 64| ≤ 1 / 2 ^ 62 := by
    rw [abs_le]
    norm_num [cosTerms, Finset.sum_range_succ, Nat.factorial]
  have hsin : |sinTerms 12 - (15522399902203605024 : ℤ) / 2 ^ 64| ≤ 1 / 2 ^ 62 := by
    rw [abs_le]
    norm_num [sinTerms, Finset.sum_range_succ, Nat.factorial]
  have hrest : (2 * (12 : ℕ) + 1) / ((2 * 12).factorial * (2 * (12 : ℕ))) ≤ (1 / 2 ^ 62 : ℝ) := by
    norm_num [Nat.factorial]
  calc _ ≤ (1 / 2 ^ 62 + 1 / 2 ^ 62 + 1 / 2 ^ 62 : ℝ) := by gcongr
    _ ≤ 1 / 2 ^ 60 := by norm_num

end SineTables
