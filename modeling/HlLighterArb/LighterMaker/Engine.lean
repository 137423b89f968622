import HlLighterArb.Maker.Engine

/-!
# HlLighterArb.LighterMaker.Engine

`LighterMakerTakerEngine`: rests a maker order on Lighter and hedges its fills with taker orders on
HL. Same conventions as `MakerHedgeEngine`; there is no position limit and no speculative hedge.
-/

namespace Arb

structure LighterMakerTakerEngine where
  strategy : Hedger := {}
  activeLighterOrderIndex : Option Int := none
  activeLighterClientOrderIndex : Option Int := none
  lastMakerDirection : Direction := .shortLighterLongHl
  lastLighterPlaceMs : Int := 0
  lastLighterCancelMs : Int := 0
  deferredLighterAction : Option Action := none
  nextRetrySteadyMs : Option Int := none
  journalAttached : Bool := true
  deriving DecidableEq

inductive LighterMakerObs where
  | fill (orderIndex : Int) (size : ℚ) (accepted : Bool)
  | placeLimit (request : LighterLimitOrderRequest) (ack : LighterLimitOrderAck)
  | cancel (orderIndex : Int) (ack : LighterCancelAck)
  | hlIoc (request : HlIocOrderRequest) (ack : HlIocOrderAck)
  | ioc (purpose : IocPurpose) (request : LighterIocRequest) (ack : LighterIocAck)
  deriving DecidableEq

abbrev LighterMakerOutcome := Outcome LighterMakerTakerEngine LighterMakerObs

namespace LighterMakerTakerEngine

variable (cfg : EngineConfig) (venues : Venues)

def collectSnapshot : SpreadSnapshot :=
  spreadSnapshot (venues.hl.getBbo cfg.hlCoin) (venues.lighter.getBbo cfg.lighterMarketId)

def lighterPlaceRetryAtMs (s : LighterMakerTakerEngine) (nowMs : Int) : Option Int :=
  if cfg.lighterOrderIntervalMs ≤ nowMs - s.lastLighterPlaceMs then none
  else some (s.lastLighterPlaceMs + cfg.lighterOrderIntervalMs)

def lighterCancelRetryAtMs (s : LighterMakerTakerEngine) (nowMs : Int) : Option Int :=
  if cfg.lighterOrderIntervalMs ≤ nowMs - s.lastLighterCancelMs then none
  else some (s.lastLighterCancelMs + cfg.lighterOrderIntervalMs)

/-- Back to `idle` with no order out. -/
def closeOrder (s : LighterMakerTakerEngine) : LighterMakerTakerEngine :=
  { s with
    activeLighterOrderIndex := none, activeLighterClientOrderIndex := none
    strategy := s.strategy.reset }

/-- The Lighter order that takes back a Lighter position, 15 bps through the mid. -/
def unwindRequest (snapshot : SpreadSnapshot) (isAsk : Bool) (size : ℚ) : LighterIocRequest :=
  { isAsk, price := takerPrice snapshot.lighter.mid isAsk 15, size,
    signalPrice := snapshot.lighter.mid, dryRun := cfg.dryRun }

/-! ## `execute_action` -/

def limitRequest (order : PendingMakerOrder) : LighterLimitOrderRequest :=
  { isAsk := !order.isBuy, price := order.price, size := order.sizeBase, postOnly := true,
    dryRun := cfg.dryRun }

def executePlaceLighterMaker (steadyMs : Int) (s : LighterMakerTakerEngine) (reason : String)
    (order : PendingMakerOrder) : LighterMakerOutcome :=
  match s.lighterPlaceRetryAtMs cfg steadyMs with
  | some retryAt =>
    { state := { s with
        deferredLighterAction := some (.placeLighterMaker reason order)
        nextRetrySteadyMs := some retryAt } }
  | none =>
    let s := { s with
      lastLighterPlaceMs := steadyMs, nextRetrySteadyMs := none, deferredLighterAction := none }
    let request := limitRequest cfg order
    let ack := venues.lighter.placeLimitOrder request
    if ack.ok ∧ ack.restingConfirmed then
      { state := { s with
          activeLighterOrderIndex := some ack.orderIndex
          activeLighterClientOrderIndex := some ack.clientOrderIndex
          lastMakerDirection := order.direction }
        events := [.placedLighterMaker ack.orderIndex]
        calls := [.placeLimit request ack] }
    else
      { state := s
        events := [.lighterMakerPlacementFailed ack.message]
        calls := [.placeLimit request ack] }

def executeCancelLighterMaker (steadyMs : Int) (s : LighterMakerTakerEngine) (reason : String)
    (order : PendingMakerOrder) : LighterMakerOutcome :=
  match s.lighterCancelRetryAtMs cfg steadyMs with
  | some retryAt =>
    { state := { s with
        deferredLighterAction := some (.cancelLighterMaker reason order)
        nextRetrySteadyMs := some retryAt } }
  | none =>
    let s := { s with
      lastLighterCancelMs := steadyMs, nextRetrySteadyMs := none, deferredLighterAction := none }
    match s.activeLighterOrderIndex with
    | none => { state := s, events := [.cancelRequestedNoActiveLighterOrder] }
    | some orderIndex =>
      let ack := venues.lighter.cancelOrder orderIndex cfg.dryRun
      { state := if ack.ok then s.closeOrder else s
        events := [if ack.ok then .cancelledLighterMaker ack.orderIndex
            else .lighterCancelFailed ack.message,
          .perfLighterCancel orderIndex]
        calls := [.cancel orderIndex ack] }

def executeSendHlTakerHedge (s : LighterMakerTakerEngine) (intent : HlHedgeIntent)
    (snapshot : SpreadSnapshot) : LighterMakerOutcome :=
  let request : HlIocOrderRequest :=
    { coin := cfg.hlCoin, isBuy := intent.isBuy, price := intent.limitPrice,
      size := intent.sizeBase, dryRun := cfg.dryRun }
  let ack := venues.hl.placeIocOrder request
  if ack.ok ∧ 0 < ack.filledSize then
    let s := { s with strategy := LighterMakerHlHedger.onHlHedgeFill s.strategy ack.avgFillPrice }
    let ltPx := (s.strategy.openPosition.map (·.lighterFillPrice)).getD 0
    let ltSz := (s.strategy.openPosition.map (·.sizeBase)).getD intent.sizeBase
    let times := venues.clock.times
    { state := s.closeOrder
      events := [.lighterTradeComplete ltPx ltSz ack.avgFillPrice ack.filledSize
          snapshot.crossSpreadBps,
        .perfLighterTrade (s.activeLighterOrderIndex.getD 0)]
      calls := [.hlIoc request ack]
      journal := if s.journalAttached then
        [{ tradeId := times.tradeId, timestampUs := times.timestampUs, type := 'T',
           hedgeStatus := "filled", hlFillTimestampUs := times.hlFillTimestampUs,
           lighterFillTimestampUs := times.lighterFillTimestampUs,
           hlSide := if intent.isBuy then 'B' else 'S',
           hlPx := ack.avgFillPrice, hlSz := ack.filledSize, ltFillPx := ltPx, ltSz,
           spreadBps := snapshot.crossSpreadBps, makerRestingMs := times.makerRestingMs,
           hedgeTotalMs := times.hedgeTotalMs, hlOid := "hl_ioc",
           ltTx := toString (s.activeLighterOrderIndex.getD 0) }]
        else [] }
  else
    let unwind := unwindRequest cfg snapshot (s.lastMakerDirection = .longLighterShortHl)
      intent.sizeBase
    let unwindAck := venues.lighter.placeIocOrder unwind
    { state := s.closeOrder
      events := [.hlTakerHedgeFailed ack.message, .lighterUnwind unwindAck.ok unwindAck.txHash]
      calls := [.hlIoc request ack, .ioc .makerUnwind unwind unwindAck] }

def executeUnwindLighterPosition (s : LighterMakerTakerEngine) (snapshot : SpreadSnapshot) :
    LighterMakerOutcome :=
  let isAsk := match s.strategy.openPosition with
    | some pos => pos.direction = .longLighterShortHl
    | none => false
  let size := match s.strategy.openPosition with
    | some pos => pos.sizeBase
    | none => 0
  let request := unwindRequest cfg snapshot isAsk size
  let ack := venues.lighter.placeIocOrder request
  { state := s
    events := [.unwoundNakedLighter ack.ok ack.message]
    calls := [.ioc .makerUnwind request ack] }

def executeAction (steadyMs : Int) (s : LighterMakerTakerEngine) (action : Action)
    (snapshot : SpreadSnapshot) : LighterMakerOutcome :=
  match action with
  | .placeLighterMaker reason order => executePlaceLighterMaker cfg venues steadyMs s reason order
  | .cancelLighterMaker reason order => executeCancelLighterMaker cfg venues steadyMs s reason order
  | .sendHlTakerHedge _ intent => executeSendHlTakerHedge cfg venues s intent snapshot
  | .unwindLighterPosition _ => executeUnwindLighterPosition cfg venues s snapshot
  | _ => { state := s }

/-! ## The calls of the owner -/

def retryDue (s : LighterMakerTakerEngine) (nowMs : Int) : Bool :=
  match s.nextRetrySteadyMs with
  | some retryAt => retryAt ≤ nowMs
  | none => true

def executeDeferredLighterAction (s : LighterMakerTakerEngine) (nowMs : Int)
    (snapshot : SpreadSnapshot) : LighterMakerOutcome :=
  match s.deferredLighterAction with
  | none => { state := s }
  | some action =>
    if s.retryDue nowMs then
      executeAction cfg venues venues.clock.retrySteadyMs
        { s with deferredLighterAction := none, nextRetrySteadyMs := none } action snapshot
    else { state := s }

/-- The part of `on_market_data` after the deferred action: ask the strategy and execute. -/
def runStrategy (s : LighterMakerTakerEngine) (nowMs : Int) (snapshot : SpreadSnapshot) :
    LighterMakerOutcome :=
  let (strategy, action) :=
    LighterMakerHlHedger.onMarketSnapshot cfg.strategy s.strategy snapshot nowMs
  executeAction cfg venues venues.clock.steadyMs { s with strategy := strategy } action snapshot

def onMarketData (s : LighterMakerTakerEngine) (nowMs : Int) : LighterMakerOutcome :=
  let snapshot := collectSnapshot cfg venues
  let deferred := executeDeferredLighterAction cfg venues s nowMs snapshot
  if deferred.events.isEmpty then
    let decided := runStrategy cfg venues deferred.state nowMs snapshot
    { decided with calls := deferred.calls ++ decided.calls }
  else deferred

def onLighterFill (s : LighterMakerTakerEngine) (fillPrice fillSizeBase : ℚ)
    (snapshot : SpreadSnapshot) (orderIndex : Int) : LighterMakerOutcome :=
  if s.activeLighterOrderIndex = some orderIndex then
    let (strategy, action) :=
      LighterMakerHlHedger.onLighterMakerFill s.strategy fillPrice fillSizeBase snapshot
    executeAction cfg venues venues.clock.steadyMs { s with strategy := strategy } action snapshot
  else { state := s }

def onHlHedgeReject (s : LighterMakerTakerEngine) : LighterMakerOutcome :=
  let (strategy, action) := LighterMakerHlHedger.onHlHedgeReject s.strategy
  executeAction cfg venues venues.clock.steadyMs { s with strategy := strategy } action
    (collectSnapshot cfg venues)

end LighterMakerTakerEngine

end Arb
