import HlLighterArb.Hl.Signing
import HlLighterArb.Maker.Coupling

/-!
# HlLighterArb.Maker.SpeculativeMatch

An order hedged ahead of its fill, and then filled completely. The engine compares the fill with the
size it asked for; HL fills the size that was put on the wire, which is rounded to `szDecimals`.

* `wireQuantity`: what a complete fill reports.
* `complete_fill_quiet_iff`: such a fill sends nothing to Lighter exactly when the rounding is less
  than 0.001.
-/

namespace Arb

open MakerHedgeEngine

/-- The quantity of an order as HL gets it. -/
def wireQuantity (request : HlLimitOrderRequest) (entry : MetaEntry) : ℚ :=
  roundHalfAway (request.size * 10 ^ entry.szDecimals) / 10 ^ entry.szDecimals

theorem wireSize_eq (request : HlLimitOrderRequest) (entry : MetaEntry) :
    NativeHyperliquidTrading.wireSize request entry = floatToWire (wireQuantity request entry) :=
  rfl

def MakerObs.isIoc : MakerObs → Bool
  | .ioc _ _ _ => true
  | _ => false

/-- The rounding is half a unit of the last decimal at most. -/
theorem wireQuantity_error (request : HlLimitOrderRequest) (entry : MetaEntry) :
    |wireQuantity request entry - request.size| ≤ 1 / 2 / 10 ^ entry.szDecimals := by
  have hscale : (0 : ℚ) < 10 ^ entry.szDecimals := zpow_pos (by norm_num) _
  have herror := roundHalfAway_error (request.size * 10 ^ entry.szDecimals)
  have heq : wireQuantity request entry - request.size =
      (roundHalfAway (request.size * 10 ^ entry.szDecimals) -
        request.size * 10 ^ entry.szDecimals) / 10 ^ entry.szDecimals := by
    rw [wireQuantity, sub_div, mul_div_assoc, div_self hscale.ne', mul_one]
  rw [heq, abs_div, abs_of_pos hscale]
  exact div_le_div_of_nonneg_right herror hscale.le

/-- With three decimals or more the rounding is always within the tolerance. -/
theorem wireQuantity_matches {entry : MetaEntry} (h : 3 ≤ entry.szDecimals)
    (request : HlLimitOrderRequest) : |wireQuantity request entry - request.size| < 0.001 := by
  have hscale : (10 : ℚ) ^ (3 : ℤ) ≤ 10 ^ entry.szDecimals := zpow_le_zpow_right₀ (by norm_num) h
  calc |wireQuantity request entry - request.size|
      ≤ 1 / 2 / 10 ^ entry.szDecimals := wireQuantity_error request entry
    _ ≤ 1 / 2 / 10 ^ (3 : ℤ) := div_le_div_of_nonneg_left (by norm_num) (by norm_num) hscale
    _ < 0.001 := by norm_num

section Fills

variable {cfg : EngineConfig} {s s' : MakerHedgeEngine} {oid : String} {size : ℚ}
  {l : List MakerObs}

/-- A fill of the order with the outstanding hedge sends nothing to Lighter exactly when it matches
the hedge. -/
theorem FillMove.quiet_iff (hm : FillMove cfg s oid size l s') (hknown : oid ∈ s.recentlyPlacedOids)
    (hsent : s.speculativeHedgeSent = true) (hoid : s.speculativeHedgeOid = oid) :
    l.any (·.isIoc) = false ↔ |size - s.speculativeHedgeSize| < 0.001 := by
  have hpath : s.fillPath oid size =
      if |size - s.speculativeHedgeSize| < 0.001 then .perfectMatch
      else if 0.001 < size - s.speculativeHedgeSize then .correction else .overshoot := by
    rw [fillPath, if_neg (not_not.mpr hknown), if_pos ⟨hsent, hoid.symm⟩]
  have hmatch : s.fillPath oid size = .perfectMatch ↔ |size - s.speculativeHedgeSize| < 0.001 := by
    rw [hpath]
    split_ifs with h1 h2 <;> simp [h1]
  rw [← hmatch]
  cases hm with
  | perfect path => exact iff_of_true rfl path
  | correction path => exact iff_of_false (by simp [MakerObs.isIoc]) (by rw [path]; simp)
  | overshoot path => exact iff_of_false (by simp [MakerObs.isIoc]) (by rw [path]; simp)
  | unknown path => exact absurd hknown (by
      intro hin
      rw [fillPath, if_neg (not_not.mpr hin), if_pos ⟨hsent, hoid.symm⟩] at path
      split_ifs at path)
  | hedged path => exact absurd path (by rw [hpath]; split_ifs <;> simp)
  | unwound path => exact absurd path (by rw [hpath]; split_ifs <;> simp)

end Fills

/-- The order placed as `oid` was `request`, and its hedge is outstanding at the whole size. -/
structure HedgedInFull (l : List MakerObs) (s : MakerHedgeEngine) (oid : String)
    (request : HlLimitOrderRequest) : Prop where
  placed : sentUnder oid l = some request
  sent : s.speculativeHedgeSent = true
  oid : s.speculativeHedgeOid = oid
  size : s.speculativeHedgeSize = request.size

theorem hedgedInFull_iff {l : List MakerObs} {s : MakerHedgeEngine} {oid : String}
    {request : HlLimitOrderRequest} : HedgedInFull l s oid request ↔
      sentUnder oid l = some request ∧ s.speculativeHedgeSent = true ∧
        s.speculativeHedgeOid = oid ∧ s.speculativeHedgeSize = request.size :=
  ⟨fun ⟨h1, h2, h3, h4⟩ => ⟨h1, h2, h3, h4⟩, fun ⟨h1, h2, h3, h4⟩ => ⟨h1, h2, h3, h4⟩⟩

instance (l : List MakerObs) (s : MakerHedgeEngine) (oid : String) (request : HlLimitOrderRequest) :
    Decidable (HedgedInFull l s oid request) :=
  decidable_of_iff' _ hedgedInFull_iff

/-- A complete fill of an order hedged in full sends nothing to Lighter exactly when the size put on
the wire is within 0.001 of the size asked for. -/
theorem complete_fill_quiet_iff (cfg : EngineConfig) (journalAttached : Bool) (p₀ : ℚ)
    (es : List MakerEvent) (oid : String) (request : HlLimitOrderRequest)
    (h : HedgedInFull ((machine cfg).obs (start journalAttached p₀) es)
      ((machine cfg).final (start journalAttached p₀) es) oid request)
    (entry : MetaEntry) (fillPrice : ℚ) (snapshot : SpreadSnapshot) (hlFee : ℚ) (venues : Venues) :
    (step cfg ((machine cfg).final (start journalAttached p₀) es)
        (.fill fillPrice (wireQuantity request entry) snapshot oid hlFee venues)).2.any (·.isIoc) =
        false ↔
      |wireQuantity request entry - request.size| < 0.001 := by
  have hfollows := (followsOrder_always cfg journalAttached p₀ es).last.2
  obtain ⟨size, hlife⟩ := Option.isSome_iff_exists.mp (hfollows.sent ▸ h.sent)
  have hknown : oid ∈ ((machine cfg).final (start journalAttached p₀) es).recentlyPlacedOids := by
    rw [hfollows.placed, Option.mem_toList, (hfollows.hedge size hlife).2, h.oid]
  rw [← h.size]
  exact (onHlFill_fillMove fillPrice _ snapshot oid hlFee venues).quiet_iff hknown h.sent h.oid

/-- What a tick asks HL for with HL quoted around 100 and Lighter around 110. -/
def bidOf (size : ℚ) : HlLimitOrderRequest :=
  { coin := "HYPE", isBuy := true, price := 99, size := size, postOnly := true, dryRun := false }

/-- The pair size the bot starts with. -/
def smallConfig : EngineConfig :=
  { sampleConfig with strategy := { sampleConfig.strategy with pairSizeUsd := 25 } }

/-- 25 USD around 105 is an order of 5/21, put on the wire with four decimals as 0.2381. -/
theorem complete_fill_quiet_rounded :
    wireQuantity (bidOf (5 / 21)) { szDecimals := 4 } = 0.2381 ∧
      (step smallConfig
        ((machine smallConfig).final (start false 0) [tickUp 1000 "1", crossingTrade])
        (.fill 100 (wireQuantity (bidOf (5 / 21)) { szDecimals := 4 })
          (spreadSnapshot (bookAround 100) (bookAround 110)) "1" 0
          (obligingVenues 100 110 0 ""))).2.any (·.isIoc) = false :=
  ⟨by decide +kernel,
    (complete_fill_quiet_iff smallConfig false 0 [tickUp 1000 "1", crossingTrade] "1"
      (bidOf (5 / 21)) (by decide +kernel) { szDecimals := 4 } 100 _ 0 _).mpr (by decide +kernel)⟩

/-- With two decimals the same order goes on the wire as 0.24. -/
theorem rounding_corrected :
    ¬ ∀ (cfg : EngineConfig) (es : List MakerEvent) (oid : String) (request : HlLimitOrderRequest)
        (entry : MetaEntry) (fillPrice : ℚ) (snapshot : SpreadSnapshot) (hlFee : ℚ)
        (venues : Venues),
      0 < cfg.strategy.pairSizeUsd →
      HedgedInFull ((machine cfg).obs (start false 0) es) ((machine cfg).final (start false 0) es)
        oid request →
      (step cfg ((machine cfg).final (start false 0) es)
        (.fill fillPrice (wireQuantity request entry) snapshot oid hlFee venues)).2.any (·.isIoc) =
        false := by
  intro hall
  have hquiet := hall smallConfig [tickUp 1000 "1", crossingTrade] "1" (bidOf (5 / 21))
    { szDecimals := 2 } 100 (spreadSnapshot (bookAround 100) (bookAround 110)) 0
    (obligingVenues 100 110 0 "") (by decide +kernel) (by decide +kernel)
  exact absurd hquiet (by decide +kernel)

end Arb
