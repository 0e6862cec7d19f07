/-
  LzLib.Foundation.Sines
  ──────────────────────
  **THE SINES OF THE NATURAL NUMBERS, IN FIXED POINT.**

  `x` times a scale `Q` is given by an integer and an error: `Near`.  The sine
  and the cosine of 1 are partial sums of their series; those of `n + 1` are
  those of `n` turned by 1, divided by `Q` again.  One turn doubles the error
  and adds a constant, so the error after `n` turns is below `9 · 2 ^ n`.
-/
import Mathlib.Analysis.Complex.Trigonometric
import Mathlib.Analysis.Complex.Exponential

namespace LzLib.Foundation

open Finset

/-! ## §1. The series at 1. -/

/-- The first `k` terms of the series of the cosine at 1. -/
def cosSum : ℕ → ℚ
  | 0 => 0
  | k + 1 => cosSum k + (-1) ^ k / (2 * k).factorial

/-- The first `k` terms of the series of the sine at 1. -/
def sinSum : ℕ → ℚ
  | 0 => 0
  | k + 1 => sinSum k + (-1) ^ k / (2 * k + 1).factorial

theorem sum_exp_I (k : ℕ) :
    ∑ m ∈ range (2 * k), Complex.I ^ m / m.factorial = ((cosSum k : ℝ) : ℂ) + ((sinSum k : ℝ) : ℂ) * Complex.I := by
  induction k with
  | zero => simp [cosSum, sinSum]
  | succ k ih =>
      have heven : Complex.I ^ (2 * k) = (-1) ^ k := by rw [pow_mul, Complex.I_sq]
      rw [show 2 * (k + 1) = 2 * k + 1 + 1 from rfl, sum_range_succ, sum_range_succ, ih, pow_succ, heven]
      simp only [cosSum, sinSum]
      push_cast
      ring

/-- How far the first `k` terms are from the limit, at most. -/
def sumError (k : ℕ) : ℚ := (2 * k + 1) / ((2 * k).factorial * (2 * k))

theorem exp_I_error {k : ℕ} (hk : 0 < k) :
    ‖((Real.cos 1 - cosSum k : ℝ) : ℂ) + ((Real.sin 1 - sinSum k : ℝ) : ℂ) * Complex.I‖ ≤ (sumError k : ℝ) := by
  have hbound := Complex.exp_bound (x := Complex.I) (by simp) (n := 2 * k) (by omega)
  have hexp := Complex.exp_mul_I 1
  rw [one_mul] at hexp
  rw [sum_exp_I, hexp] at hbound
  have hdiff : Complex.cos 1 + Complex.sin 1 * Complex.I - (((cosSum k : ℝ) : ℂ) + ((sinSum k : ℝ) : ℂ) * Complex.I)
      = ((Real.cos 1 - cosSum k : ℝ) : ℂ) + ((Real.sin 1 - sinSum k : ℝ) : ℂ) * Complex.I := by
    push_cast
    ring
  rw [hdiff] at hbound
  refine hbound.trans (le_of_eq ?_)
  simp only [Complex.norm_I, one_pow, one_mul, sumError]
  push_cast
  rw [div_eq_mul_inv]

theorem cos_one_error {k : ℕ} (hk : 0 < k) : |Real.cos 1 - cosSum k| ≤ sumError k := by
  have h := (Complex.abs_re_le_norm _).trans (exp_I_error hk)
  simpa only [Complex.add_re, Complex.ofReal_re, Complex.re_ofReal_mul, Complex.I_re, mul_zero, add_zero] using h

theorem sin_one_error {k : ℕ} (hk : 0 < k) : |Real.sin 1 - sinSum k| ≤ sumError k := by
  have h := (Complex.abs_im_le_norm _).trans (exp_I_error hk)
  simpa only [Complex.add_im, Complex.ofReal_im, Complex.im_ofReal_mul, Complex.I_im, mul_one, zero_add] using h

/-! ## §2. Fixed point. -/

/-- `X` is `x` in units of `1 / Q`, up to `E` of them. -/
def Near (Q E : ℤ) (x : ℝ) (X : ℤ) : Prop := |(Q : ℝ) * x - X| ≤ E

variable {Q E : ℤ}

/-- A partial sum, rounded: one unit for the series and one for the rounding. -/
theorem Near.ofSum {x : ℝ} {y r : ℚ} {X : ℤ} (hQ : 0 < Q) (hx : |x - y| ≤ r) (hr : Q * r ≤ 1)
    (hX : |Q * y - X| ≤ 1) : Near Q 2 x X := by
  have hQ' : (0 : ℝ) < Q := by exact_mod_cast hQ
  have hsum : |(Q : ℝ) * (x - y)| ≤ 1 := by
    rw [abs_mul, abs_of_pos hQ']
    calc (Q : ℝ) * |x - y| ≤ Q * r := mul_le_mul_of_nonneg_left hx hQ'.le
      _ ≤ 1 := by exact_mod_cast hr
  have hround : |(Q : ℝ) * y - X| ≤ 1 := by exact_mod_cast hX
  show |(Q : ℝ) * x - X| ≤ ((2 : ℤ) : ℝ)
  calc |(Q : ℝ) * x - X| = |(Q : ℝ) * (x - y) + (Q * y - X)| := by
        congr 1
        ring
    _ ≤ 1 + 1 := (abs_add_le _ _).trans (add_le_add hsum hround)
    _ = ((2 : ℤ) : ℝ) := by norm_num

/-- A product of two numbers of at most one, in units of `1 / Q²`. -/
theorem Near.mul {x u : ℝ} {X U : ℤ} (hE : 0 ≤ E) (hQ : 0 ≤ Q) (hx : Near Q E x X) (hu : Near Q 2 u U)
    (hx1 : |x| ≤ 1) (hu1 : |u| ≤ 1) :
    |(Q : ℝ) ^ 2 * (x * u) - X * U| ≤ E * Q + 2 * (Q + E) := by
  unfold Near at hx hu
  have hQ' : (0 : ℝ) ≤ Q := by exact_mod_cast hQ
  have hE' : (0 : ℝ) ≤ E := by exact_mod_cast hE
  have hQx : |(Q : ℝ) * x| ≤ Q := by
    rw [abs_mul, abs_of_nonneg hQ']
    exact mul_le_of_le_one_right hQ' hx1
  have hQu : |(Q : ℝ) * u| ≤ Q := by
    rw [abs_mul, abs_of_nonneg hQ']
    exact mul_le_of_le_one_right hQ' hu1
  have hX : |(X : ℝ)| ≤ Q + E := by
    calc |(X : ℝ)| = |(Q : ℝ) * x - (Q * x - X)| := by
          congr 1
          ring
      _ ≤ Q + E := (abs_sub _ _).trans (add_le_add hQx hx)
  calc |(Q : ℝ) ^ 2 * (x * u) - X * U| = |(Q * x - X) * (Q * u) + X * (Q * u - U)| := by
        congr 1
        ring
    _ ≤ |(Q : ℝ) * x - X| * |(Q : ℝ) * u| + |(X : ℝ)| * |(Q : ℝ) * u - U| := by
        rw [← abs_mul, ← abs_mul]
        exact abs_add_le _ _
    _ ≤ E * Q + (Q + E) * 2 := by
        push_cast at hu
        gcongr
    _ = E * Q + 2 * (Q + E) := by ring

/-- A number in units of `1 / Q²`, divided by `Q`. -/
theorem Near.div {x : ℝ} {Y : ℤ} {d : ℝ} (hQ : 0 < Q) (h : |(Q : ℝ) ^ 2 * x - Y| ≤ d) (hd : d + Q ≤ E * Q) :
    Near Q E x (Y / Q) := by
  have hQ' : (0 : ℝ) < Q := by exact_mod_cast hQ
  have hlow : ((Y / Q : ℤ) : ℝ) * Q ≤ Y := by exact_mod_cast Int.ediv_mul_le Y hQ.ne'
  have hhigh : (Y : ℝ) < ((Y / Q : ℤ) : ℝ) * Q + Q := by
    exact_mod_cast Int.lt_ediv_add_one_mul_self Y hQ |>.trans_eq (by ring)
  show |(Q : ℝ) * x - ((Y / Q : ℤ) : ℝ)| ≤ E
  obtain ⟨h₁, h₂⟩ := abs_le.mp h
  refine abs_le.mpr ⟨?_, ?_⟩
  · refine le_of_mul_le_mul_right ?_ hQ'
    linarith [show (Q : ℝ) ^ 2 * x = Q * x * Q by ring]
  · refine le_of_mul_le_mul_right ?_ hQ'
    linarith [show (Q : ℝ) ^ 2 * x = Q * x * Q by ring]

/-! ## §3. Turning by 1. -/

/-- The sine and the cosine, turned by the angle with sine `s₁` and cosine `c₁`. -/
def turnBy (Q s₁ c₁ : ℤ) (t : ℤ × ℤ) : ℤ × ℤ := ((t.1 * c₁ + t.2 * s₁) / Q, (t.2 * c₁ - t.1 * s₁) / Q)

/-- The sine and the cosine of `n`. -/
def turns (Q s₁ c₁ : ℤ) : ℕ → ℤ × ℤ
  | 0 => (0, Q)
  | n + 1 => turnBy Q s₁ c₁ (turns Q s₁ c₁ n)

/-- The error behind `n` turns. -/
def turnError (n : ℕ) : ℤ := 9 * (2 ^ n - 1)

theorem turnError_nonneg (n : ℕ) : 0 ≤ turnError n := by
  have : (1 : ℤ) ≤ 2 ^ n := one_le_pow₀ (by norm_num)
  unfold turnError
  omega

/-- One turn. -/
theorem turnBy_near {s₁ c₁ : ℤ} {x : ℝ} {t : ℤ × ℤ} (hQ : 0 < Q) (hE : 0 ≤ E) (hEQ : E ≤ Q)
    (hs : Near Q 2 (Real.sin 1) s₁) (hc : Near Q 2 (Real.cos 1) c₁)
    (hx : Near Q E (Real.sin x) t.1) (hy : Near Q E (Real.cos x) t.2) :
    Near Q (2 * E + 9) (Real.sin (x + 1)) (turnBy Q s₁ c₁ t).1
      ∧ Near Q (2 * E + 9) (Real.cos (x + 1)) (turnBy Q s₁ c₁ t).2 := by
  have hsin := Real.abs_sin_le_one
  have hcos := Real.abs_cos_le_one
  have hd : 2 * ((E : ℝ) * Q + 2 * (Q + E)) + Q ≤ ((2 * E + 9 : ℤ) : ℝ) * Q := by
    have hEQ' : (E : ℝ) ≤ Q := by exact_mod_cast hEQ
    push_cast
    linarith
  have hterms : ∀ {a b c d : ℝ}, |a - b| ≤ (E : ℝ) * Q + 2 * (Q + E) → |c - d| ≤ (E : ℝ) * Q + 2 * (Q + E) →
      |a + c - (b + d)| ≤ 2 * ((E : ℝ) * Q + 2 * (Q + E))
        ∧ |a - c - (b - d)| ≤ 2 * ((E : ℝ) * Q + 2 * (Q + E)) := by
    intro a b c d h h'
    rw [abs_le] at h h'
    constructor <;> rw [abs_le] <;> constructor <;> linarith [h.1, h.2, h'.1, h'.2]
  constructor
  · refine Near.div hQ (d := 2 * ((E : ℝ) * Q + 2 * (Q + E))) ?_ hd
    have h := (hterms (hx.mul hE hQ.le hc (hsin x) (hcos 1)) (hy.mul hE hQ.le hs (hcos x) (hsin 1))).1
    rw [← mul_add, ← Real.sin_add] at h
    push_cast
    exact h
  · refine Near.div hQ (d := 2 * ((E : ℝ) * Q + 2 * (Q + E))) ?_ hd
    have h := (hterms (hy.mul hE hQ.le hc (hcos x) (hcos 1)) (hx.mul hE hQ.le hs (hsin x) (hsin 1))).2
    rw [← mul_sub, ← Real.cos_add] at h
    push_cast
    exact h

/-- The turns from 0 on. -/
theorem turns_near {s₁ c₁ : ℤ} (hs : Near Q 2 (Real.sin 1) s₁) (hc : Near Q 2 (Real.cos 1) c₁) {n : ℕ}
    (hQ : 9 * 2 ^ n ≤ Q) :
    Near Q (turnError n) (Real.sin n) (turns Q s₁ c₁ n).1 ∧ Near Q (turnError n) (Real.cos n) (turns Q s₁ c₁ n).2 := by
  induction n with
  | zero => simp [Near, turns, turnError]
  | succ n ih =>
      have hpow : (2 : ℤ) ^ (n + 1) = 2 * 2 ^ n := by ring
      have hpos : (0 : ℤ) < 2 ^ n := by positivity
      obtain ⟨hx, hy⟩ := ih (by omega)
      have hE : turnError (n + 1) = 2 * turnError n + 9 := by
        unfold turnError
        omega
      rw [hE]
      push_cast
      exact turnBy_near (by omega) (turnError_nonneg n) (by unfold turnError; omega) hs hc hx hy

/-! ## §4. The integer part of a multiple of a sine. -/

/-- `t` is the integer part of `M |sin n|`, by an approximation of the sine. -/
theorem floor_abs_near {x : ℝ} {X : ℤ} {M t : ℕ} (hQ : 0 < Q) (hx : Near Q E x X)
    (hlow : (t : ℤ) * Q ≤ M * (|X| - E)) (hhigh : (M : ℤ) * (|X| + E) < (t + 1) * Q) :
    ⌊(M : ℝ) * |x|⌋₊ = t := by
  have hQ' : (0 : ℝ) < Q := by exact_mod_cast hQ
  have habs : |(Q : ℝ) * |x| - abs (X : ℝ)| ≤ E := by
    have h := (abs_abs_sub_abs_le ((Q : ℝ) * x) X).trans hx
    rwa [abs_mul, abs_of_pos hQ'] at h
  obtain ⟨h₁, h₂⟩ := abs_le.mp habs
  have hM : (0 : ℝ) ≤ M := Nat.cast_nonneg M
  have hlow' : (t : ℝ) * Q ≤ M * (|(X : ℝ)| - E) := by exact_mod_cast hlow
  have hhigh' : (M : ℝ) * (|(X : ℝ)| + E) < (t + 1) * Q := by exact_mod_cast hhigh
  rw [Nat.floor_eq_iff (by positivity)]
  constructor
  · refine le_of_mul_le_mul_right ?_ hQ'
    calc (t : ℝ) * Q ≤ M * (|(X : ℝ)| - E) := hlow'
      _ ≤ M * (Q * |x|) := mul_le_mul_of_nonneg_left (by linarith) hM
      _ = M * |x| * Q := by ring
  · refine lt_of_mul_lt_mul_right ?_ hQ'.le
    calc (M : ℝ) * |x| * Q = M * (Q * |x|) := by ring
      _ ≤ M * (|(X : ℝ)| + E) := mul_le_mul_of_nonneg_left (by linarith) hM
      _ < (t + 1) * Q := hhigh'

end LzLib.Foundation
