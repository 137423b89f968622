import HlLighterArb.Types

/-!
# HlLighterArb.Live.Risk

`RiskGuard`: one kill switch with one reason, a count of hedge failures, and the check of a new
entry.
-/

namespace Arb

structure RiskConfig where
  maxExposureUsd : ℚ := 200
  staleQuoteKillMs : Int := 5000
  maxConsecutiveHedgeFailures : Int := 3
  maxSingleTradeUsd : ℚ := 50

inductive RiskVeto where
  | ok
  | maxExposure
  | staleQuotes
  | hedgeFailuresExceeded
  | tradeTooLarge
  | killSwitchActive
  deriving DecidableEq, Repr

structure RiskGuard where
  config : RiskConfig := {}
  currentExposureUsd : ℚ := 0
  consecutiveHedgeFailures : Int := 0
  killSwitch : Bool := false
  killSwitchReason : String := ""

namespace RiskGuard

def checkNewEntry (g : RiskGuard) (sizeUsd : ℚ) (snap : SpreadSnapshot) : RiskVeto :=
  if g.killSwitch then .killSwitchActive
  else if g.config.maxConsecutiveHedgeFailures ≤ g.consecutiveHedgeFailures then
    .hedgeFailuresExceeded
  else if g.config.maxSingleTradeUsd < sizeUsd then .tradeTooLarge
  else if g.config.maxExposureUsd < g.currentExposureUsd + sizeUsd then .maxExposure
  else if g.config.staleQuoteKillMs < snap.lighter.quoteAgeMs ∨
      g.config.staleQuoteKillMs < snap.hl.quoteAgeMs then .staleQuotes
  else .ok

def activateKillSwitch (g : RiskGuard) (reason : String) : RiskGuard :=
  { g with killSwitch := true, killSwitchReason := reason }

def resetKillSwitch (g : RiskGuard) : RiskGuard :=
  { g with killSwitch := false, killSwitchReason := "", consecutiveHedgeFailures := 0 }

def onHedgeFailure (g : RiskGuard) : RiskGuard :=
  let g := { g with consecutiveHedgeFailures := g.consecutiveHedgeFailures + 1 }
  if g.config.maxConsecutiveHedgeFailures ≤ g.consecutiveHedgeFailures then
    g.activateKillSwitch "consecutive hedge failures exceeded"
  else g

def onHedgeSuccess (g : RiskGuard) : RiskGuard :=
  { g with consecutiveHedgeFailures := 0 }

def setExposure (g : RiskGuard) (exposureUsd : ℚ) : RiskGuard :=
  { g with currentExposureUsd := |exposureUsd| }

end RiskGuard

end Arb
