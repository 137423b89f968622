import HlLighterArb.Lighter.IocConfirmation
import Mathlib.Algebra.Order.Field.Rat
import Mathlib.Algebra.Order.Ring.Abs

/-!
# HlLighterArb.Lighter.FillPrice

The fill price that `place_ioc_order` computes from the positions before and after its order, against
an exchange that keeps the average entry price of a position.

* `FillsAt`: an execution, with the average it leaves.
* `iocFillPrice_grows`, `iocFillPrice_crosses`: what is computed for a position that grows on its
  side, and for one that goes through zero to a larger size.
* `fillPrice_eq_iff`: when the computed price is the price of the execution.
-/

namespace Arb

/-- The average entry price after `quantity` more at `price`. A position that grows averages, one
that shrinks keeps its average, and one that goes through zero starts again. -/
def averageEntry (before : LighterPositionSnapshot) (quantity price : ℚ) : ℚ :=
  if 0 ≤ before.size * quantity then
    (|before.size| * before.avgEntryPrice + |quantity| * price) / |before.size + quantity|
  else if |quantity| ≤ |before.size| then before.avgEntryPrice
  else price

/-- `quantity`, negative for a sale, executes at `price`. -/
structure FillsAt (before : LighterPositionSnapshot) (quantity price : ℚ)
    (after : LighterPositionSnapshot) : Prop where
  size : after.size = before.size + quantity
  average : after.avgEntryPrice = averageEntry before quantity price

section Fill

variable {request : LighterIocRequest} {before after : LighterPositionSnapshot}
  {quantity price : ℚ}

/-- The sizes of two trades on one side add up. -/
theorem abs_add_of_side {a b : ℚ} (h : 0 ≤ a * b) : |a + b| = |a| + |b| :=
  abs_add_eq_add_abs_iff a b |>.mpr (mul_nonneg_iff.mp h)

/-- The sizes of two trades on opposite sides are taken off each other. -/
theorem abs_add_of_opposite {a b : ℚ} (h : a * b < 0) (hle : |a| ≤ |b|) : |a + b| = |b| - |a| := by
  rcases mul_neg_iff.mp h with ⟨ha, hb⟩ | ⟨ha, hb⟩
  · rw [abs_of_pos ha, abs_of_neg hb] at hle ⊢
    rw [abs_of_nonpos (by linarith)]
    ring
  · rw [abs_of_neg ha, abs_of_pos hb] at hle ⊢
    rw [abs_of_nonneg (by linarith)]
    ring

/-- The branch for a position that has grown. -/
theorem iocFillPrice_of_larger (hlarger : |before.size| + 0.001 < |after.size|) :
    iocFillPrice request before after =
      |(|after.size| * after.avgEntryPrice - |before.size| * before.avgEntryPrice)| /
        |after.size - before.size| := by
  have hdelta : 0.0001 < |after.size - before.size| := by
    have htriangle := abs_sub_abs_le_abs_sub after.size before.size
    norm_num at hlarger ⊢
    linarith
  simp only [iocFillPrice, if_pos hlarger, if_pos hdelta]

/-- On one side of the market the values differ by what was paid. -/
theorem iocFillPrice_grows (h : FillsAt before quantity price after) (hprice : 0 ≤ price)
    (hlarger : |before.size| + 0.001 < |after.size|) (hside : 0 ≤ before.size * quantity) :
    iocFillPrice request before after = price := by
  have hadd := abs_add_of_side hside
  have hafter : 0 < |after.size| := by
    have hbefore := abs_nonneg before.size
    norm_num at hlarger
    linarith
  have hquantity : |quantity| ≠ 0 := by
    rw [h.size, hadd] at hlarger
    norm_num at hlarger
    linarith
  have hvalue : |after.size| * after.avgEntryPrice =
      |before.size| * before.avgEntryPrice + |quantity| * price := by
    rw [h.average, averageEntry, if_pos hside, ← h.size, mul_div_cancel₀ _ hafter.ne']
  rw [iocFillPrice_of_larger hlarger, hvalue, h.size, add_sub_cancel_left, add_sub_cancel_left,
    abs_mul, abs_abs, abs_of_nonneg hprice, mul_div_cancel_left₀ _ hquantity]

/-- Through zero the value that was closed is taken off the value that was opened. -/
theorem iocFillPrice_crosses (h : FillsAt before quantity price after)
    (hlarger : |before.size| + 0.001 < |after.size|) (hside : before.size * quantity < 0) :
    iocFillPrice request before after =
      |(|after.size| * price - |before.size| * before.avgEntryPrice)| /
        (|after.size| + |before.size|) := by
  have hover : |before.size| < |quantity| := by
    by_contra hle
    push Not at hle
    have hsize := abs_add_of_opposite (by linarith) hle
    rw [add_comm, ← h.size] at hsize
    have hquantity := abs_nonneg quantity
    norm_num at hlarger
    linarith
  have hsize : |after.size| = |quantity| - |before.size| := by
    rw [h.size, abs_add_of_opposite hside hover.le]
  have haverage : after.avgEntryPrice = price := by
    rw [h.average, averageEntry, if_neg (not_le.mpr hside), if_neg (not_le.mpr hover)]
  rw [iocFillPrice_of_larger hlarger, haverage, h.size, add_sub_cancel_left, ← h.size, hsize,
    sub_add_cancel]

/-- The two values differ by `price` for each unit only when the closed one is that much larger. -/
theorem crossing_eq_iff {opened closed average : ℚ} (hopened : 0 ≤ opened) (hclosed : 0 < closed)
    (haverage : 0 ≤ average) (hprice : 0 ≤ price) :
    |(opened * price - closed * average)| / (opened + closed) = price ↔
      closed * average = (2 * opened + closed) * price := by
  rw [div_eq_iff (by linarith)]
  constructor
  · intro heq
    rcases le_total 0 (opened * price - closed * average) with hsign | hsign
    · -- The opened value is the larger one: then nothing was paid on either side.
      rw [abs_of_nonneg hsign] at heq
      have hzero : closed * (average + price) = 0 := by linarith
      rcases mul_eq_zero.mp hzero with hz | hz
      · exact absurd hz hclosed.ne'
      · have hp : price = 0 := by linarith
        have ha : average = 0 := by linarith
        rw [hp, ha, mul_zero, mul_zero]
    · rw [abs_of_nonpos hsign] at heq
      linarith
  · intro heq
    have hdiff : opened * price - closed * average = -(price * (opened + closed)) := by
      rw [heq]
      ring
    rw [hdiff, abs_neg, abs_of_nonneg (mul_nonneg hprice (by linarith))]

end Fill

/-- The price reported for a position that has grown is the price of the execution when the position
stayed on its side, and otherwise only by a coincidence of the two values. -/
theorem fillPrice_eq_iff (request : LighterIocRequest) (before after : LighterPositionSnapshot)
    (quantity price : ℚ) (message txHash : String) (attempts : Nat) (hprice : 0 ≤ price)
    (haverage : 0 ≤ before.avgEntryPrice) (h : FillsAt before quantity price after)
    (hlarger : |before.size| + 0.001 < |after.size|) :
    (confirmAck request before message txHash attempts (some after)).fillPrice = price ↔
      0 ≤ before.size * quantity ∨
        |before.size| * before.avgEntryPrice =
          (2 * |before.size + quantity| + |before.size|) * price := by
  have hack : (confirmAck request before message txHash attempts (some after)).fillPrice =
      iocFillPrice request before after := rfl
  rw [hack, ← h.size]
  rcases le_or_gt 0 (before.size * quantity) with hside | hside
  · exact iff_of_true (iocFillPrice_grows h hprice hlarger hside) (.inl hside)
  · have hbefore : 0 < |before.size| := by
      refine abs_pos.mpr fun hzero => ?_
      rw [hzero, zero_mul] at hside
      exact lt_irrefl 0 hside
    rw [iocFillPrice_crosses h hlarger hside,
      crossing_eq_iff (abs_nonneg _) hbefore haverage hprice, or_iff_right (not_le.mpr hside)]

/-- A short of one at 100. -/
def shortOne : LighterPositionSnapshot where
  size := -1
  avgEntryPrice := 100
  positionValue := 100

/-- Three are bought at 110, which leaves a long of two at 110. -/
def longTwo : LighterPositionSnapshot where
  size := 2
  avgEntryPrice := 110
  positionValue := 220

/-- The purchase at 110 is reported at 40. -/
theorem fillPrice_through_zero :
    FillsAt shortOne 3 110 longTwo ∧ |shortOne.size| + 0.001 < |longTwo.size| ∧
      (confirmAck {} shortOne "" "" 1 (some longTwo)).fillPrice = 40 ∧
      (confirmAck {} shortOne "" "" 1 (some longTwo)).fillPrice ≠ 110 := by
  refine ⟨⟨?_, ?_⟩, ?_, ?_, ?_⟩ <;> decide +kernel

theorem fillPrice_eq_iff_through_zero :
    (confirmAck {} shortOne "" "" 1 (some longTwo)).fillPrice = 110 ↔
      0 ≤ shortOne.size * 3 ∨ |shortOne.size| * shortOne.avgEntryPrice =
        (2 * |shortOne.size + 3| + |shortOne.size|) * 110 :=
  fillPrice_eq_iff {} shortOne longTwo 3 110 "" "" 1 (by norm_num) (by decide +kernel)
    ⟨by decide +kernel, by decide +kernel⟩ (by decide +kernel)

end Arb
