import Mathlib.Algebra.Order.Field.Rat
import Mathlib.Tactic.Common
import Mathlib.Tactic.Positivity

/-!
# Lib.Double

What a `double` can hold: a number, an infinity or NaN. Numbers are exact; the range is that of the
doubles.

* `InRange`: the numbers that are read without a range error.
* `inRange_decimal`: decimals without too many digits are in range.
* `number?`: the number, if it is one.
-/

inductive Double where
  | number (value : ℚ)
  | infinity (minus : Bool)
  | nan
  deriving DecidableEq

namespace Double

/-- From here on the nearest double is an infinity. -/
def tooLarge : Nat := 2 ^ 1024 - 2 ^ 970

/-- A number whose double is not finite is out of range, and so is one below the normal doubles
that is not a double itself. -/
def InRange (v : ℚ) : Prop :=
  |v| < tooLarge ∧ (|v| * (2 ^ 1076 : Nat) < (2 ^ 54 - 1 : Nat) → v.den ∣ 2 ^ 1074)

instance (v : ℚ) : Decidable (InRange v) := inferInstanceAs (Decidable (_ ∧ (_ → _)))

/-- `none` for a range error. -/
def ofNumber? (v : ℚ) : Option Double := if InRange v then some (.number v) else none

/-- The number of a double that is one. -/
def number? : Double → Option ℚ
  | .number v => some v
  | .infinity _ | .nan => none

def positive : Double → Bool
  | .number v => 0 < v
  | .infinity minus => !minus
  | .nan => false

/-- The product with an integer. -/
def scale (n : Int) : Double → Double
  | .number v => .number (n * v)
  | .infinity minus => if n = 0 then .nan else .infinity (minus ^^ decide (n < 0))
  | .nan => .nan

theorem inRange_neg {v : ℚ} : InRange (-v) ↔ InRange v := by
  rw [InRange, InRange, abs_neg, Rat.neg_den]

theorem inRange_zero : InRange 0 := by
  refine ⟨?_, fun _ => one_dvd _⟩
  rw [abs_zero]
  exact Nat.cast_pos.mpr (by decide +kernel)

/-- Decimals with up to 307 digits behind the point and 308 in all are in range. -/
theorem inRange_decimal {n m k : Nat} (hn : n < 10 ^ m) (hm : m ≤ 308) (hk : k ≤ 307) :
    InRange ((n : ℚ) / 10 ^ k) := by
  have hpow : (0 : ℚ) < 10 ^ k := by positivity
  have habs : |(n : ℚ) / 10 ^ k| = n / 10 ^ k := abs_of_nonneg (by positivity)
  rcases Nat.eq_zero_or_pos n with rfl | hpos
  · rw [Nat.cast_zero, zero_div]
    exact inRange_zero
  · refine ⟨?_, fun hsmall => absurd hsmall (not_lt.mpr ?_)⟩
    · have hle : (n : ℚ) / 10 ^ k ≤ n := div_le_self (Nat.cast_nonneg n) (one_le_pow₀ (by norm_num))
      have hlt : n < tooLarge := calc
        n < 10 ^ m := hn
        _ ≤ 10 ^ 308 := Nat.pow_le_pow_right (by decide) hm
        _ ≤ tooLarge := by decide +kernel
      rw [habs]
      exact hle.trans_lt (Nat.cast_lt.mpr hlt)
    · have hscale : (2 ^ 54 - 1 : Nat) * 10 ^ k ≤ n * 2 ^ 1076 := calc
        (2 ^ 54 - 1) * 10 ^ k ≤ (2 ^ 54 - 1) * 10 ^ 307 :=
          Nat.mul_le_mul_left _ (Nat.pow_le_pow_right (by decide) hk)
        _ ≤ 1 * 2 ^ 1076 := by decide +kernel
        _ ≤ n * 2 ^ 1076 := Nat.mul_le_mul_right _ hpos
      rw [habs, div_mul_eq_mul_div, le_div_iff₀ hpow]
      exact_mod_cast hscale

end Double
