import HlLighterArb.Exchange

/-!
# HlLighterArb.Outcome

What a call into an engine returns and does: the state it leaves, the log lines it returns, the
exchange calls it makes in order, and the rows it journals. A log line is modelled by the data it
prints; `on_market_data` reads whether there are any.
-/

namespace Arb

inductive EventLog where
  | placedHlMaker (oid : String)
  | hlMakerPlacementFailed (message : String)
  | cancelRequestedNoActiveOid
  | cancelledHlMaker (oid : String)
  | hlCancelFailed (message : String)
  | perfCancel (oid : String)
  | speculativeHedgeUnwind (size : ℚ) (ok : Bool) (message : String)
  | cancelFailedKeepingOid
  | speculativeHedgeReconciled (hlFill hedge : ℚ)
  | speculativeHedgeCorrection (hlFill hedge correction : ℚ) (ok : Bool)
  | speculativeHedgeOvershootUnwind (hlFill hedge overshoot : ℚ) (ok : Bool) (message : String)
  | speculativeHedgeSuccess (tradePx makerPx hedgePx hedgeSz : ℚ) (tx : String)
  | speculativeHedgeFailed (tradePx makerPx : ℚ) (message : String)
  | specHedgeDebug (skipCount : Nat) (makerPx : ℚ) (makerIsBuy : Bool) (lastTradePx : ℚ)
  | tradeComplete (hlPx size ltFillPx ltSz : ℚ) (tx : String) (spread hlFee : ℚ)
  | hedgeUnconfirmed (hlPx size : ℚ) (tx : String)
  | hedgeFailed (hlPx size : ℚ) (message : String)
  | hlUnwind (ok : Bool) (filledSize avgPx : ℚ)
  | perfTrade (oid : String)
  | lighterHedgeConfirmed (tx : String) (confirmedSize hlPx ltPx spread : ℚ)
  | lighterHedgeNotConfirmed (ok : Bool) (message : String) (spread : ℚ)
  | unwoundNakedHl (ok : Bool) (message : String)
  | placedLighterMaker (orderIndex : Int)
  | lighterMakerPlacementFailed (message : String)
  | cancelRequestedNoActiveLighterOrder
  | cancelledLighterMaker (orderIndex : Int)
  | lighterCancelFailed (message : String)
  | perfLighterCancel (orderIndex : Int)
  | lighterTradeComplete (ltPx size hlFillPx hlSz spread : ℚ)
  | perfLighterTrade (orderIndex : Int)
  | hlTakerHedgeFailed (message : String)
  | lighterUnwind (ok : Bool) (tx : String)
  | unwoundNakedLighter (ok : Bool) (message : String)
  deriving DecidableEq

structure JournalEntry where
  tradeId : Int := 0
  timestampUs : Int
  type : Char
  hedgeStatus : String
  hlFillTimestampUs : Int := 0
  lighterFillTimestampUs : Int := 0
  hlSide : Char
  hlPx : ℚ
  hlSz : ℚ
  hlFee : ℚ := 0
  ltFillPx : ℚ := 0
  ltSz : ℚ := 0
  ltFee : ℚ := 0
  spreadBps : ℚ
  signalSpreadBps : ℚ := 0
  makerRestingMs : ℚ := 0
  hedgeTotalMs : ℚ := 0
  hlOid : String := ""
  ltTx : String := ""
  unwindFillPx : ℚ := 0
  unwindFillSz : ℚ := 0
  unwindFee : ℚ := 0
  failureReason : String := ""
  deriving DecidableEq

structure Outcome (σ ο : Type) where
  state : σ
  events : List EventLog := []
  calls : List ο := []
  journal : List JournalEntry := []

/-- The snapshot both engines collect from the two books. -/
def spreadSnapshot (hlBbo lighterBbo : Bbo) : SpreadSnapshot :=
  let avgMid := (hlBbo.mid + lighterBbo.mid) / 2
  { lighter := lighterBbo
    hl := hlBbo
    crossSpreadBps := if 0 < avgMid then (lighterBbo.mid - hlBbo.mid) / avgMid * 10000 else 0 }

/-- The limit price of a Lighter IOC: `slippageBps` through the mid. -/
def takerPrice (mid : ℚ) (isAsk : Bool) (slippageBps : ℚ) : ℚ :=
  if isAsk then mid * (1 - slippageBps / 10000) else mid * (1 + slippageBps / 10000)

end Arb
