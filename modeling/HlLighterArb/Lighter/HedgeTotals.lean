import HlLighterArb.Hl.Signing
import HlLighterArb.Maker.Fills

/-!
# HlLighterArb.Lighter.HedgeTotals

What the hedges of an order's fills add up to on Lighter. Each fill of the normal hedge path is
hedged with an order of its own; `NativeLighterTrading` raises it to the exchange's minimum and
rounds it to a whole number of lots. Nothing of the difference is carried to the next fill.

* `LighterMarket.scaledSize`: the base amount that is signed for a size, in lots.
* `hedgeIocs_sizes`: the hedges of an order are its fills, one for one.
* `hedge_totals`: so the amounts signed are those of the fills raised to the minimum, within half a
  lot for each fill.
* `hedge_totals_drift`: a run of any number of fills meets the bound.
-/

namespace Arb

open MakerHedgeEngine

/-! ## The amount signed -/

/-- What `ensure_client` reads of the market. -/
structure LighterMarket where
  sizeDecimals : ℤ := 2
  minBaseAmount : ℚ := 0

def FitsInt64 (n : ℤ) : Prop :=
  -2 ^ 63 ≤ n ∧ n < 2 ^ 63

instance (n : ℤ) : Decidable (FitsInt64 n) :=
  inferInstanceAs (Decidable (_ ∧ _))

/-- `std::llround`. A result that does not fit is left open by the library: `unspecified` is what it
gives there. -/
def llround (unspecified : ℚ → ℤ) (x : ℚ) : ℤ :=
  if FitsInt64 (roundHalfAway x) then roundHalfAway x else unspecified x

namespace LighterMarket

variable (m : LighterMarket) (unspecified : ℚ → ℤ)

def scaledSize (size : ℚ) : ℤ :=
  let clamped := max size m.minBaseAmount
  llround unspecified (clamped * 10 ^ m.sizeDecimals)

/-- One unit of the base amount. -/
def lot : ℚ := 1 / 10 ^ m.sizeDecimals

/-- The base amount that `place_ioc_order` signs for a request, dry runs apart. -/
def baseAmount (request : LighterIocRequest) : ℚ :=
  m.scaledSize unspecified request.size / 10 ^ m.sizeDecimals

/-- By how much a size is below the exchange's minimum. -/
def shortfall (size : ℚ) : ℚ := max 0 (m.minBaseAmount - size)

/-- The size has a base amount of 64 bits. -/
def Fits (size : ℚ) : Prop :=
  FitsInt64 (roundHalfAway (max size m.minBaseAmount * 10 ^ m.sizeDecimals))

instance (size : ℚ) : Decidable (m.Fits size) :=
  inferInstanceAs (Decidable (FitsInt64 _))

theorem max_eq_add_shortfall (size : ℚ) :
    max size m.minBaseAmount = size + m.shortfall size := by
  rw [shortfall, ← max_add_add_left, add_zero, add_sub_cancel]

variable {m unspecified}

/-- One hedge is its fill raised to the minimum, within half a lot. -/
theorem baseAmount_error {request : LighterIocRequest} (hfits : m.Fits request.size) :
    |m.baseAmount unspecified request - (request.size + m.shortfall request.size)| ≤
      m.lot / 2 := by
  have hscale : (0 : ℚ) < 10 ^ m.sizeDecimals := zpow_pos (by norm_num) _
  have hclamped := m.max_eq_add_shortfall request.size
  generalize hx : max request.size m.minBaseAmount * 10 ^ m.sizeDecimals = x at *
  have herror := roundHalfAway_error x
  have hscaled : m.scaledSize unspecified request.size = roundHalfAway x := by
    simp only [scaledSize, llround]
    rw [hx, if_pos (hx ▸ hfits)]
  have hsize : request.size + m.shortfall request.size = x / 10 ^ m.sizeDecimals := by
    rw [← hx, ← hclamped, mul_div_assoc, div_self hscale.ne', mul_one]
  calc |m.baseAmount unspecified request - (request.size + m.shortfall request.size)|
      = |(roundHalfAway x : ℚ) - x| / 10 ^ m.sizeDecimals := by
        rw [baseAmount, hscaled, hsize, ← sub_div, abs_div, abs_of_pos hscale]
    _ ≤ 1 / 2 / 10 ^ m.sizeDecimals := div_le_div_of_nonneg_right herror hscale.le
    _ = m.lot / 2 := by rw [lot, div_right_comm]

/-- The errors of the hedges add up. -/
theorem baseAmounts_error {requests : List LighterIocRequest}
    (hfits : ∀ request ∈ requests, m.Fits request.size) :
    |(requests.map (m.baseAmount unspecified)).sum -
        ((requests.map (·.size)).sum + (requests.map (m.shortfall ·.size)).sum)| ≤
      requests.length * (m.lot / 2) := by
  induction requests with
  | nil => simp
  | cons request requests ih =>
    have hhead := @baseAmount_error m unspecified request (hfits _ (List.mem_cons_self ..))
    have htail := ih fun r hr => hfits r (List.mem_cons_of_mem _ hr)
    simp only [List.map_cons, List.sum_cons, List.length_cons]
    rw [abs_le] at *
    push_cast
    constructor <;> linarith [hhead.1, hhead.2, htail.1, htail.2]

end LighterMarket

/-! ## The hedges of a run -/

/-- The size of the fill, when it is one of `oid` that is hedged on the normal path. -/
def hedgePathFill (oid : String) (s : MakerHedgeEngine) : MakerEvent → List ℚ
  | .fill _ size _ o _ _ => if o = oid ∧ s.fillPath o size = .hedge then [size] else []
  | _ => []

/-- The hedges sent when a fill of `oid` comes in. -/
def hedgesSent (oid : String) (l : List MakerObs) : MakerEvent → List LighterIocRequest
  | .fill _ _ _ o _ _ =>
    if o = oid then l.filterMap fun
      | .ioc .hedge request _ => some request
      | _ => none
    else []
  | _ => []

/-- The fills of `oid` that a run hedges on the normal path. -/
def hedgePathFills (cfg : EngineConfig) (oid : String) :
    MakerHedgeEngine → List MakerEvent → List ℚ
  | _, [] => []
  | s, e :: es => hedgePathFill oid s e ++ hedgePathFills cfg oid (step cfg s e).1 es

/-- The hedges that a run sends for the fills of `oid`. -/
def hedgeIocs (cfg : EngineConfig) (oid : String) :
    MakerHedgeEngine → List MakerEvent → List LighterIocRequest
  | _, [] => []
  | s, e :: es => hedgesSent oid (step cfg s e).2 e ++ hedgeIocs cfg oid (step cfg s e).1 es

/-- A call hedges the fill that is on the normal path, at its own size, and no other. -/
theorem hedgesSent_sizes (cfg : EngineConfig) (oid : String) (s : MakerHedgeEngine)
    (e : MakerEvent) :
    (hedgesSent oid (step cfg s e).2 e).map (·.size) = hedgePathFill oid s e := by
  cases e with
  | tick => rfl
  | trade => rfl
  | fill fillPrice size snapshot o hlFee venues =>
    have hmove := @onHlFill_fillMove cfg s fillPrice size snapshot o hlFee venues
    simp only [hedgesSent, hedgePathFill, step]
    generalize (onHlFill cfg venues s fillPrice size snapshot o hlFee).calls = calls at hmove ⊢
    generalize (onHlFill cfg venues s fillPrice size snapshot o hlFee).state = s' at hmove
    by_cases ho : o = oid
    · simp only [ho, if_true, true_and] at hmove ⊢
      -- only the last two branches of `on_hl_fill` hedge
      generalize hl : MakerObs.fill oid size (s.fillPath oid size) :: calls = l at hmove ⊢
      cases hmove with
      | unknown path => simp [path]
      | perfect path => simp [path]
      | correction path => simp [path]
      | overshoot path => simp [path]
      | hedged path => simp [path, iocRequest]
      | unwound path => simp [path, iocRequest]
    · simp only [ho, if_false, false_and, List.map_nil]

theorem hedgeIocs_sizes (cfg : EngineConfig) (oid : String) (s : MakerHedgeEngine)
    (es : List MakerEvent) :
    (hedgeIocs cfg oid s es).map (·.size) = hedgePathFills cfg oid s es := by
  induction es generalizing s with
  | nil => rfl
  | cons e es ih =>
    rw [hedgeIocs, hedgePathFills, List.map_append, hedgesSent_sizes, ih]

/-- The base amounts signed for an order's fills add up to the fills, each raised to the minimum,
within half a lot for each. -/
theorem hedge_totals (cfg : EngineConfig) (journalAttached : Bool) (p₀ : ℚ) (es : List MakerEvent)
    (oid : String) (m : LighterMarket) (unspecified : ℚ → ℤ)
    (hfits : ∀ size ∈ hedgePathFills cfg oid (start journalAttached p₀) es, m.Fits size) :
    |((hedgeIocs cfg oid (start journalAttached p₀) es).map (m.baseAmount unspecified)).sum -
        ((hedgePathFills cfg oid (start journalAttached p₀) es).sum +
          ((hedgePathFills cfg oid (start journalAttached p₀) es).map m.shortfall).sum)| ≤
      (hedgePathFills cfg oid (start journalAttached p₀) es).length * (m.lot / 2) := by
  rw [← hedgeIocs_sizes] at hfits ⊢
  rw [List.map_map, List.length_map]
  exact LighterMarket.baseAmounts_error fun request hmem =>
    hfits _ (List.mem_map_of_mem hmem)

/-- A market with the minimum at which fills of 0.3 and 0.35 were hedged with 0.5 each. -/
def liveMarket : LighterMarket where
  minBaseAmount := 0.5

def partialFills : List MakerEvent :=
  [tickUp 1000 "1", fillOf "1" 0.3, fillOf "1" 0.35]

theorem hedge_totals_partial :
    |((hedgeIocs sampleConfig "1" (start false 0) partialFills).map
        (liveMarket.baseAmount fun _ => 0)).sum -
        ((hedgePathFills sampleConfig "1" (start false 0) partialFills).sum +
          ((hedgePathFills sampleConfig "1" (start false 0) partialFills).map
            liveMarket.shortfall).sum)| ≤
      (hedgePathFills sampleConfig "1" (start false 0) partialFills).length *
        (liveMarket.lot / 2) :=
  hedge_totals sampleConfig false 0 partialFills "1" liveMarket (fun _ => 0) (by decide +kernel)

/-- Fills of 0.65 are hedged with 1. -/
theorem partial_fills_overhedged :
    ¬ ∀ (cfg : EngineConfig) (journalAttached : Bool) (p₀ : ℚ) (es : List MakerEvent)
        (oid : String) (m : LighterMarket) (unspecified : ℚ → ℤ),
      (∀ size ∈ hedgePathFills cfg oid (start journalAttached p₀) es, 0 < size) →
      |((hedgeIocs cfg oid (start journalAttached p₀) es).map (m.baseAmount unspecified)).sum -
          (hedgePathFills cfg oid (start journalAttached p₀) es).sum| ≤ m.lot := by
  intro h
  have hlot := h sampleConfig false 0 partialFills "1" liveMarket (fun _ => 0) (by decide +kernel)
  exact absurd hlot (by decide +kernel)

/-! ## The bound is met -/

/-- Every fill of `oid` is on the normal path. -/
def OnHedgePath (oid : String) (s : MakerHedgeEngine) : Prop :=
  oid ∈ s.recentlyPlacedOids ∧ s.speculativeHedgeSent = false

instance (oid : String) (s : MakerHedgeEngine) : Decidable (OnHedgePath oid s) :=
  inferInstanceAs (Decidable (_ ∧ _))

theorem OnHedgePath.fillPath_eq {oid : String} {s : MakerHedgeEngine} (h : OnHedgePath oid s)
    (size : ℚ) : s.fillPath oid size = .hedge := by
  rw [fillPath, if_neg (not_not.mpr h.1), if_neg (by simp [h.2])]

/-- A hedged fill leaves the order known, and not hedged ahead. -/
theorem OnHedgePath.kept {cfg : EngineConfig} {oid : String} {s s' : MakerHedgeEngine} {size : ℚ}
    {l : List MakerObs} (h : OnHedgePath oid s) (hm : FillMove cfg s oid size l s') :
    OnHedgePath oid s' := by
  have hpath := h.fillPath_eq size
  cases hm with
  | unknown => exact h
  | perfect path => rw [hpath] at path; cases path
  | correction path => rw [hpath] at path; cases path
  | overshoot path => rw [hpath] at path; cases path
  | hedged => exact h
  | unwound => exact h

theorem hedgePathFills_replicate {cfg : EngineConfig} {oid : String} {s : MakerHedgeEngine}
    (h : OnHedgePath oid s) (size : ℚ) (n : ℕ) :
    hedgePathFills cfg oid s (List.replicate n (fillOf oid size)) = List.replicate n size := by
  induction n generalizing s with
  | zero => rfl
  | succ n ih =>
    have hnext : OnHedgePath oid (step cfg s (fillOf oid size)).1 :=
      h.kept (onHlFill_fillMove 100 size _ oid 0 _)
    have hfill : hedgePathFill oid s (fillOf oid size) = [size] := by
      simp only [hedgePathFill, fillOf, h.fillPath_eq, and_self, if_true]
    rw [List.replicate_succ, List.replicate_succ, hedgePathFills, hfill, ih hnext]
    rfl

/-- Fills of half a lot are each hedged with a whole one, however many there are. -/
theorem hedge_totals_drift (n : ℕ) :
    let run := tickUp 1000 "1" :: List.replicate n (fillOf "1" 0.005)
    ((hedgeIocs sampleConfig "1" (start false 0) run).map
        (LighterMarket.baseAmount {} fun _ => 0)).sum -
      (hedgePathFills sampleConfig "1" (start false 0) run).sum =
      n * (LighterMarket.lot {} / 2) := by
  have hplaced : OnHedgePath "1" (step sampleConfig (start false 0) (tickUp 1000 "1")).1 := by
    decide +kernel
  have hfills : hedgePathFills sampleConfig "1" (start false 0)
      (tickUp 1000 "1" :: List.replicate n (fillOf "1" 0.005)) = List.replicate n 0.005 := by
    rw [hedgePathFills, hedgePathFills_replicate hplaced]
    rfl
  have hscaled : ∀ request : LighterIocRequest, request.size = 0.005 →
      LighterMarket.baseAmount {} (fun _ => 0) request = 0.01 := by
    intro request hsize
    rw [LighterMarket.baseAmount, hsize]
    decide +kernel
  have hamounts : (hedgeIocs sampleConfig "1" (start false 0)
      (tickUp 1000 "1" :: List.replicate n (fillOf "1" 0.005))).map
        (LighterMarket.baseAmount {} fun _ => 0) = List.replicate n 0.01 := by
    have hsizes := hedgeIocs_sizes sampleConfig "1" (start false 0)
      (tickUp 1000 "1" :: List.replicate n (fillOf "1" 0.005))
    rw [hfills] at hsizes
    rw [List.eq_replicate_iff] at hsizes ⊢
    refine ⟨by simpa using hsizes.1, fun amount hmem => ?_⟩
    obtain ⟨request, hrequest, rfl⟩ := List.mem_map.mp hmem
    exact hscaled request (hsizes.2 _ (List.mem_map_of_mem hrequest))
  have hlot : LighterMarket.lot {} = 0.01 := by decide +kernel
  simp only [hfills, hamounts, hlot, List.sum_replicate, nsmul_eq_mul]
  ring

end Arb
