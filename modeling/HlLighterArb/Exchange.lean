import HlLighterArb.Types

/-!
# HlLighterArb.Exchange

Requests, acknowledgements and the two exchange interfaces. An exchange answers a request with an
acknowledgement; which one is up to the exchange at that moment, so every call into an engine is
given the exchanges as they answer during it (`Venues`). The latency fields of the
acknowledgements feed only the performance log and are left out.
-/

namespace Arb

structure HlLimitOrderRequest where
  coin : String := "HYPE"
  isBuy : Bool := true
  price : ℚ := 0
  size : ℚ := 0
  postOnly : Bool := true
  dryRun : Bool := true
  deriving DecidableEq

structure HlLimitOrderAck where
  ok : Bool := false
  message : String := ""
  oid : String := ""
  deriving DecidableEq

structure HlIocOrderRequest where
  coin : String := "HYPE"
  isBuy : Bool := true
  price : ℚ := 0
  size : ℚ := 0
  dryRun : Bool := true
  deriving DecidableEq

structure HlIocOrderAck where
  ok : Bool := false
  message : String := ""
  filledSize : ℚ := 0
  avgFillPrice : ℚ := 0
  deriving DecidableEq

structure HlCancelAck where
  ok : Bool := false
  message : String := ""
  oid : String := ""
  deriving DecidableEq

structure HlReduceAck where
  ok : Bool := false
  message : String := ""
  filledSize : ℚ := 0
  avgFillPrice : ℚ := 0
  deriving DecidableEq

structure LighterIocRequest where
  isAsk : Bool := false
  price : ℚ := 0
  size : ℚ := 0
  signalPrice : ℚ := 0
  dryRun : Bool := true
  deriving DecidableEq

structure LighterIocAck where
  ok : Bool := false
  fillConfirmed : Bool := false
  message : String := ""
  txHash : String := ""
  confirmedSize : ℚ := 0
  fillPrice : ℚ := 0
  fee : ℚ := 0
  confirmAttempts : Nat := 0
  deriving DecidableEq

structure LighterLimitOrderRequest where
  isAsk : Bool := false
  price : ℚ := 0
  size : ℚ := 0
  postOnly : Bool := true
  dryRun : Bool := true
  deriving DecidableEq

structure LighterLimitOrderAck where
  ok : Bool := false
  restingConfirmed : Bool := false
  message : String := ""
  txHash : String := ""
  clientOrderIndex : Int := 0
  orderIndex : Int := 0
  deriving DecidableEq

structure LighterCancelAck where
  ok : Bool := false
  message : String := ""
  txHash : String := ""
  orderIndex : Int := 0
  deriving DecidableEq

structure HyperliquidExchange where
  getBbo : String → Bbo
  placeLimitOrder : HlLimitOrderRequest → HlLimitOrderAck
  placeIocOrder : HlIocOrderRequest → HlIocOrderAck
  cancelOrder : (coin oid : String) → (dryRun : Bool) → HlCancelAck
  reducePosition : (coin : String) → (isBuy : Bool) → (size : ℚ) → (dryRun : Bool) → HlReduceAck

structure LighterExchange where
  getBbo : Int → Bbo
  placeLimitOrder : LighterLimitOrderRequest → LighterLimitOrderAck
  cancelOrder : (orderIndex : Int) → (dryRun : Bool) → LighterCancelAck
  placeIocOrder : LighterIocRequest → LighterIocAck

/-- The time columns of a journal row, as the performance trace of the trade measures them. -/
structure TradeTimes where
  tradeId : Int := 0
  timestampUs : Int := 0
  hlFillTimestampUs : Int := 0
  lighterFillTimestampUs : Int := 0
  makerRestingMs : ℚ := 0
  hedgeTotalMs : ℚ := 0
  deriving DecidableEq

/-- The clocks as one call into an engine reads them: the steady clock while a deferred action is
retried and while the decided action is executed, the wall clock at an acknowledgement, and the
measurements of a journal row. -/
structure Clock where
  retrySteadyMs : Int
  steadyMs : Int
  epochMs : Nat := 0
  times : TradeTimes := {}

/-- The outside world during one call into an engine. No engine calls an exchange method twice
within one call, so answering functions that are fixed for the call lose no behaviour. -/
structure Venues where
  hl : HyperliquidExchange
  lighter : LighterExchange
  clock : Clock

/-- What a Lighter IOC was sent for. -/
inductive IocPurpose where
  | hedge
  | correction
  | overshootUnwind
  | speculative
  | cancelUnwind
  | takerHedge
  | makerUnwind
  deriving DecidableEq, Repr

/-- The Lighter execution an acknowledgement vouches for. -/
def LighterIocAck.executed (a : LighterIocAck) : ℚ :=
  if a.fillConfirmed then a.confirmedSize else 0

/-- The signed base quantity a Lighter order asks for, buys positive. -/
def LighterIocRequest.signedSize (r : LighterIocRequest) : ℚ :=
  if r.isAsk then -r.size else r.size

/-! ## Obliging exchanges -/

/-- A book two wide around `mid`. -/
def bookAround (mid : ℚ) : Bbo where
  bid := mid - 1
  ask := mid + 1

/-- HL quoted around `mid`, acknowledging every request, placements under `oid`, and filling every
taker order in full. -/
def obligingHl (mid : ℚ) (oid : String) : HyperliquidExchange where
  getBbo _ := bookAround mid
  placeLimitOrder _ := { ok := true, oid }
  placeIocOrder request := { ok := true, filledSize := request.size, avgFillPrice := mid }
  cancelOrder _ oid _ := { ok := true, oid }
  reducePosition _ _ size _ := { ok := true, filledSize := size, avgFillPrice := mid }

/-- Lighter quoted around `mid`, acknowledging every request, and filling and confirming every
taker order in full. -/
def obligingLighter (mid : ℚ) (orderIndex : Int) : LighterExchange where
  getBbo _ := bookAround mid
  placeLimitOrder _ := { ok := true, restingConfirmed := true, orderIndex }
  cancelOrder orderIndex _ := { ok := true, orderIndex }
  placeIocOrder request :=
    { ok := true, fillConfirmed := true, confirmedSize := request.size, fillPrice := mid }

def obligingVenues (hlMid lighterMid : ℚ) (steadyMs : Int) (oid : String) : Venues where
  hl := obligingHl hlMid oid
  lighter := obligingLighter lighterMid 1
  clock := { retrySteadyMs := steadyMs, steadyMs }

end Arb
