import Mathlib.Algebra.Order.Field.Rat
import Mathlib.Data.Int.ConditionallyCompleteOrder
import Mathlib.Data.Int.Log
import Mathlib.Data.Rat.Floor
import Mathlib.Tactic.Linarith
import Mathlib.Tactic.Positivity

/-!
# Lib.Rounding

Rounding to a nearest value, however ties are broken.

* `Nearest r`: `r` takes a number to a nearest integer. Such an `r` is monotone and keeps integers.
* `toStep r c`: rounding to the multiples of `1 / c`.
* `toDigits r n`: rounding to `n` significant decimal digits. The step depends on the magnitude;
  `toDigits_mono` crosses the powers of ten, `toDigits_of_hasDigits` keeps what has `n` digits.
-/

namespace Rounding

variable {K : Type} [Field K] [LinearOrder K] [IsStrictOrderedRing K] {r : K → ℤ} {x y c : K}

def Nearest (r : K → ℤ) : Prop := ∀ x, |(r x : K) - x| ≤ 1 / 2

theorem Nearest.monotone (hr : Nearest r) : Monotone r := by
  intro x y hxy
  by_contra hlt
  push Not at hlt
  -- The two results differ by one at least, so both numbers are the midpoint between them.
  have hgap : (r y : K) + 1 ≤ r x := by exact_mod_cast hlt
  obtain ⟨hx, -⟩ := abs_le.mp (hr x)
  obtain ⟨-, hrx⟩ := abs_le.mp (hr x)
  obtain ⟨hry, -⟩ := abs_le.mp (hr y)
  have heq : x = y := by linarith
  rw [heq] at hlt
  exact lt_irrefl _ hlt

theorem Nearest.intCast (hr : Nearest r) (n : ℤ) : r (n : K) = n := by
  have hlt : |((r (n : K) - n : ℤ) : K)| < 1 := by
    push_cast
    exact lt_of_le_of_lt (hr n) (by norm_num)
  have hint : |r (n : K) - n| < 1 := by exact_mod_cast hlt
  exact sub_eq_zero.mp (Int.abs_lt_one_iff.mp hint)

/-! ## Fixed steps -/

def toStep (r : K → ℤ) (c x : K) : K := r (x * c) / c

theorem toStep_mono (hr : Nearest r) (hc : 0 < c) (h : x ≤ y) : toStep r c x ≤ toStep r c y := by
  have hscaled : r (x * c) ≤ r (y * c) := hr.monotone (mul_le_mul_of_nonneg_right h hc.le)
  exact div_le_div_of_nonneg_right (by exact_mod_cast hscaled) hc.le

theorem toStep_of_multiple (hr : Nearest r) (hc : c ≠ 0) (n : ℤ) :
    toStep r c (n / c) = n / c := by
  rw [toStep, div_mul_cancel₀ _ hc, hr.intCast]

theorem toStep_nonneg (hr : Nearest r) (hc : 0 < c) (h : 0 ≤ x) : 0 ≤ toStep r c x := by
  have hzero : toStep r c 0 = 0 := by
    simpa using toStep_of_multiple hr hc.ne' 0
  calc (0 : K) = toStep r c 0 := hzero.symm
    _ ≤ toStep r c x := toStep_mono hr hc h

/-! ## Significant digits -/

variable [FloorRing K]

/-- `n` decimal digits and a power of ten. -/
def HasDigits (n : ℤ) (x : K) : Prop := ∃ m e : ℤ, |(m : K)| < 10 ^ n ∧ x = m * 10 ^ e

/-- The scale that leaves `n` digits before the point. -/
def digitScale (n : ℤ) (x : K) : K := 10 ^ (n - 1 - Int.log 10 |x|)

def toDigits (r : K → ℤ) (n : ℤ) (x : K) : K := toStep r (digitScale n x) x

theorem digitScale_pos (n : ℤ) (x : K) : 0 < digitScale n x := zpow_pos (by norm_num) _

theorem zpow_log_le (h : 0 < x) : (10 : K) ^ Int.log 10 x ≤ x := by
  exact_mod_cast Int.zpow_log_le_self (b := 10) (by norm_num) h

theorem lt_zpow_log_succ (x : K) : x < (10 : K) ^ (Int.log 10 x + 1) := by
  exact_mod_cast Int.lt_zpow_succ_log_self (b := 10) (by norm_num) x

/-- A power of ten not below the step is a multiple of it. -/
theorem toStep_zpow (hr : Nearest r) {k s : ℤ} (h : 0 ≤ k + s) :
    toStep r ((10 : K) ^ s) (10 ^ k) = 10 ^ k := by
  have h10 : (10 : K) ≠ 0 := by norm_num
  obtain ⟨m, hm⟩ := Int.eq_ofNat_of_zero_le h
  have hmultiple : (10 : K) ^ k = ((10 ^ m : ℤ) : K) / 10 ^ s := by
    rw [eq_div_iff (zpow_ne_zero _ h10), ← zpow_add₀ h10, hm, zpow_natCast]
    push_cast
    rfl
  rw [hmultiple, toStep_of_multiple hr (zpow_ne_zero _ h10)]

/-- Rounding to digits stays within the decade: its ends are kept. -/
theorem toDigits_decade (hr : Nearest r) {n : ℤ} (hn : 1 ≤ n) (h : 0 < x) :
    (10 : K) ^ Int.log 10 x ≤ toDigits r n x ∧
      toDigits r n x ≤ 10 ^ (Int.log 10 x + 1) := by
  have hscale := digitScale_pos n x
  have hdef : digitScale n x = 10 ^ (n - 1 - Int.log 10 x) := by rw [digitScale, abs_of_pos h]
  constructor
  · calc (10 : K) ^ Int.log 10 x
        = toStep r (digitScale n x) (10 ^ Int.log 10 x) := by
          rw [hdef, toStep_zpow hr (by omega)]
      _ ≤ toDigits r n x := toStep_mono hr hscale (zpow_log_le h)
  · calc toDigits r n x
        ≤ toStep r (digitScale n x) (10 ^ (Int.log 10 x + 1)) :=
          toStep_mono hr hscale (lt_zpow_log_succ x).le
      _ = 10 ^ (Int.log 10 x + 1) := by rw [hdef, toStep_zpow hr (by omega)]

theorem toDigits_pos (hr : Nearest r) {n : ℤ} (hn : 1 ≤ n) (h : 0 < x) : 0 < toDigits r n x :=
  lt_of_lt_of_le (zpow_pos (by norm_num) _) (toDigits_decade hr hn h).1

theorem toDigits_mono (hr : Nearest r) {n : ℤ} (hn : 1 ≤ n) (hx : 0 < x) (hxy : x ≤ y) :
    toDigits r n x ≤ toDigits r n y := by
  have hy : 0 < y := lt_of_lt_of_le hx hxy
  rcases (Int.log_mono_right (b := 10) hx hxy).lt_or_eq with hlt | heq
  · -- Different decades: the power of ten between them separates the results.
    calc toDigits r n x
        ≤ 10 ^ (Int.log 10 x + 1) := (toDigits_decade hr hn hx).2
      _ ≤ 10 ^ Int.log 10 y := zpow_le_zpow_right₀ (by norm_num) (by omega)
      _ ≤ toDigits r n y := (toDigits_decade hr hn hy).1
  · have hscale : digitScale n x = digitScale n y := by
      rw [digitScale, digitScale, abs_of_pos hx, abs_of_pos hy, heq]
    rw [toDigits, toDigits, hscale]
    exact toStep_mono hr (digitScale_pos n y) hxy

theorem toDigits_of_hasDigits (hr : Nearest r) {n : ℤ} (hpos : 0 < x) (h : HasDigits n x) :
    toDigits r n x = x := by
  have h10 : (10 : K) ≠ 0 := by norm_num
  obtain ⟨m, e, hm, hx⟩ := h
  have hmlt : (m : K) < 10 ^ n := lt_of_le_of_lt (le_abs_self _) hm
  -- The leading digit of `m` is at most the `n`-th, so `x` has no digit below the step.
  have hlog : Int.log 10 x < n + e := by
    have hbelow : (10 : K) ^ Int.log 10 x < 10 ^ (n + e) := by
      calc (10 : K) ^ Int.log 10 x ≤ x := zpow_log_le hpos
        _ = m * 10 ^ e := hx
        _ < 10 ^ n * 10 ^ e := mul_lt_mul_of_pos_right hmlt (zpow_pos (by norm_num) _)
        _ = 10 ^ (n + e) := (zpow_add₀ h10 n e).symm
    exact (zpow_lt_zpow_iff_right₀ (by norm_num)).mp hbelow
  obtain ⟨k, hk⟩ := Int.eq_ofNat_of_zero_le (a := e + (n - 1 - Int.log 10 x)) (by omega)
  have hmultiple : x = ((m * 10 ^ k : ℤ) : K) / digitScale n x := by
    rw [eq_div_iff (digitScale_pos n x).ne', digitScale, abs_of_pos hpos]
    nth_rewrite 1 [hx]
    rw [mul_assoc, ← zpow_add₀ h10, hk, zpow_natCast]
    push_cast
    rfl
  rw [toDigits]
  nth_rewrite 2 3 [hmultiple]
  exact toStep_of_multiple hr (digitScale_pos n x).ne' _

end Rounding
