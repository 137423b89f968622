import HlLighterArb.Outcome
import HlLighterArb.Strategy

/-!
# HlLighterArb.Maker.Engine

`MakerHedgeEngine`: rests a maker order on HL and hedges its fills with taker orders on Lighter.
The functions are those of the class, each taking the configuration, the exchanges as they answer
during the call (`Venues`) and the engine, and returning an `Outcome`.

`fillPath` is the branch `on_hl_fill` takes. A call is observed (`MakerObs`) as the exchange calls
it makes, preceded by the fill message itself for `on_hl_fill`.

The performance trace and its counters are left out: nothing but log lines and the time columns of
the journal reads them.
-/

namespace Arb

structure EngineConfig where
  strategy : HedgerConfig
  hlCoin : String := "HYPE"
  lighterMarketId : Int := 24
  dryRun : Bool := true
  hlOrderIntervalMs : Int := 200
  lighterOrderIntervalMs : Int := 500
  specHedgeMinCrossBps : ℚ := 1
  specHedgeMinTradeRatio : ℚ := 0.5

/-- A 2 bps entry for 105 USD. -/
def sampleConfig : EngineConfig where
  strategy := {
    pairSizeUsd := 105
    spread_pos := StrategyConfig.default_spread_pos
    cancel_band_nonneg := StrategyConfig.default_cancel_band_nonneg }
  dryRun := false

structure MakerHedgeEngine where
  strategy : Hedger := {}
  activeHlOid : Option String := none
  recentlyPlacedOids : List String := []
  lastMakerDirection : Direction := .shortLighterLongHl
  hlPositionBase : ℚ := 0
  speculativeHedgeSent : Bool := false
  speculativeHedgeSize : ℚ := 0
  speculativeHedgeOid : String := ""
  makerOrderPlacedEpochMs : Nat := 0
  lastHlPlaceMs : Int := 0
  lastHlCancelMs : Int := 0
  lastLighterApiMs : Int := 0
  deferredHlAction : Option Action := none
  nextRetrySteadyMs : Option Int := none
  journalAttached : Bool := true
  /-- The function-local counter of `on_trade_event`. -/
  skipCount : Nat := 0
  deriving DecidableEq

/-- The branches of `on_hl_fill`. -/
inductive FillPath where
  | unknownOid
  | perfectMatch
  | correction
  | overshoot
  | hedge
  deriving DecidableEq, Repr

inductive MakerObs where
  | fill (oid : String) (size : ℚ) (path : FillPath)
  | placeLimit (request : HlLimitOrderRequest) (ack : HlLimitOrderAck)
  | cancel (oid : String) (ack : HlCancelAck)
  | ioc (purpose : IocPurpose) (request : LighterIocRequest) (ack : LighterIocAck)
  | reduce (isBuy : Bool) (size : ℚ) (ack : HlReduceAck)
  deriving DecidableEq

abbrev MakerOutcome := Outcome MakerHedgeEngine MakerObs

namespace MakerHedgeEngine

variable (cfg : EngineConfig) (venues : Venues)

def setHlPosition (s : MakerHedgeEngine) (baseSize : ℚ) : MakerHedgeEngine :=
  { s with hlPositionBase := baseSize }

def collectSnapshot : SpreadSnapshot :=
  spreadSnapshot (venues.hl.getBbo cfg.hlCoin) (venues.lighter.getBbo cfg.lighterMarketId)

def positionLimitReached (s : MakerHedgeEngine) (midPrice : ℚ) : Bool :=
  if midPrice ≤ 0 then false else cfg.strategy.maxPositionUsd ≤ |s.hlPositionBase| * midPrice

/-- The position limit only blocks an order that would grow the position. -/
def limitBlocks (s : MakerHedgeEngine) (midPrice : ℚ) (wouldBuyHl : Bool) : Bool :=
  s.positionLimitReached cfg midPrice &&
    ((0 ≤ s.hlPositionBase && wouldBuyHl) || (s.hlPositionBase < 0 && !wouldBuyHl))

def hlPlaceRetryAtMs (s : MakerHedgeEngine) (nowMs : Int) : Option Int :=
  if cfg.hlOrderIntervalMs ≤ nowMs - s.lastHlPlaceMs then none
  else some (s.lastHlPlaceMs + cfg.hlOrderIntervalMs)

def hlCancelRetryAtMs (s : MakerHedgeEngine) (nowMs : Int) : Option Int :=
  if cfg.hlOrderIntervalMs ≤ nowMs - s.lastHlCancelMs then none
  else some (s.lastHlCancelMs + cfg.hlOrderIntervalMs)

def clearSpeculative (s : MakerHedgeEngine) : MakerHedgeEngine :=
  { s with speculativeHedgeSent := false, speculativeHedgeSize := 0, speculativeHedgeOid := "" }

def resetStrategy (s : MakerHedgeEngine) : MakerHedgeEngine :=
  { s with strategy := s.strategy.reset }

/-- `hl_position_base_ += hl_is_buy ? fill_size_base : -fill_size_base`. -/
def applyHlFill (s : MakerHedgeEngine) (fillSizeBase : ℚ) : MakerHedgeEngine :=
  { s with hlPositionBase := s.hlPositionBase +
      if s.lastMakerDirection.isBuyHl then fillSizeBase else -fillSizeBase }

/-- A Lighter IOC at the snapshot's mid. -/
def iocRequest (snapshot : SpreadSnapshot) (isAsk : Bool) (slippageBps size : ℚ) :
    LighterIocRequest :=
  { isAsk, price := takerPrice snapshot.lighter.mid isAsk slippageBps, size,
    signalPrice := snapshot.lighter.mid, dryRun := cfg.dryRun }

/-! ## `execute_action` -/

/-- The state a placement request leaves once it is acknowledged `ok` under `oid`. -/
def acceptPlacement (s : MakerHedgeEngine) (order : PendingMakerOrder) (oid : String) :
    MakerHedgeEngine :=
  clearSpeculative
    { s with
      activeHlOid := some oid
      recentlyPlacedOids := [oid]
      lastMakerDirection := order.direction
      makerOrderPlacedEpochMs := venues.clock.epochMs }

def limitRequest (order : PendingMakerOrder) : HlLimitOrderRequest :=
  { coin := cfg.hlCoin, isBuy := order.isBuy, price := order.price, size := order.sizeBase,
    postOnly := true, dryRun := cfg.dryRun }

def executePlaceHlMaker (steadyMs : Int) (s : MakerHedgeEngine) (reason : String)
    (order : PendingMakerOrder) (snapshot : SpreadSnapshot) : MakerOutcome :=
  if s.limitBlocks cfg snapshot.hl.mid order.isBuy then { state := s.resetStrategy }
  else match s.hlPlaceRetryAtMs cfg steadyMs with
    | some retryAt =>
      { state := { s with
          deferredHlAction := some (.placeHlMaker reason order)
          nextRetrySteadyMs := some retryAt } }
    | none =>
      let s := { s with
        lastHlPlaceMs := steadyMs, nextRetrySteadyMs := none, deferredHlAction := none }
      let request := limitRequest cfg order
      let ack := venues.hl.placeLimitOrder request
      if ack.ok then
        { state := s.acceptPlacement venues order ack.oid
          events := [.placedHlMaker ack.oid]
          calls := [.placeLimit request ack] }
      else
        { state := s
          events := [.hlMakerPlacementFailed ack.message]
          calls := [.placeLimit request ack] }

/-- The Lighter order that takes back an outstanding speculative hedge of a cancelled order. -/
def cancelUnwindRequest (s : MakerHedgeEngine) (snapshot : SpreadSnapshot) : LighterIocRequest :=
  iocRequest cfg snapshot (!s.lastMakerDirection.isBuyHl) 15 s.speculativeHedgeSize

def executeCancelHlMaker (steadyMs : Int) (s : MakerHedgeEngine) (reason : String)
    (order : PendingMakerOrder) (snapshot : SpreadSnapshot) : MakerOutcome :=
  match s.hlCancelRetryAtMs cfg steadyMs with
  | some retryAt =>
    { state := { s with
        deferredHlAction := some (.cancelHlMaker reason order)
        nextRetrySteadyMs := some retryAt } }
  | none =>
    let s := { s with
      lastHlCancelMs := steadyMs, nextRetrySteadyMs := none, deferredHlAction := none }
    match s.activeHlOid with
    | none => { state := s, events := [.cancelRequestedNoActiveOid] }
    | some oid =>
      let ack := venues.hl.cancelOrder cfg.hlCoin oid cfg.dryRun
      if ack.ok then
        let s' := { s.clearSpeculative with activeHlOid := none, strategy := s.strategy.reset }
        if s.speculativeHedgeSent then
          let request := s.cancelUnwindRequest cfg snapshot
          let unwindAck := venues.lighter.placeIocOrder request
          { state := s'
            events := [.cancelledHlMaker ack.oid, .perfCancel oid,
              .speculativeHedgeUnwind s.speculativeHedgeSize unwindAck.ok unwindAck.message]
            calls := [.cancel oid ack, .ioc .cancelUnwind request unwindAck] }
        else
          { state := s'
            events := [.cancelledHlMaker ack.oid, .perfCancel oid]
            calls := [.cancel oid ack] }
      else
        { state := s
          events := [.hlCancelFailed ack.message, .perfCancel oid, .cancelFailedKeepingOid]
          calls := [.cancel oid ack] }

def executeUnwindHlPosition (s : MakerHedgeEngine) : MakerOutcome :=
  let isBuy := match s.strategy.openPosition with
    | some pos => pos.direction = .longLighterShortHl
    | none => false
  let size := match s.strategy.openPosition with
    | some pos => pos.sizeBase
    | none => 0
  let ack := venues.hl.reducePosition cfg.hlCoin isBuy size cfg.dryRun
  { state := s, events := [.unwoundNakedHl ack.ok ack.message], calls := [.reduce isBuy size ack] }

def executeSendLighterTakerHedge (steadyMs : Int) (s : MakerHedgeEngine) (intent : HedgeIntent)
    (snapshot : SpreadSnapshot) : MakerOutcome :=
  let s := { s with lastLighterApiMs := steadyMs }
  let request : LighterIocRequest :=
    { isAsk := intent.isAsk, price := intent.limitPrice, size := intent.sizeBase,
      signalPrice := intent.limitPrice, dryRun := cfg.dryRun }
  let ack := venues.lighter.placeIocOrder request
  if ack.ok ∧ ack.fillConfirmed then
    let strategy := HlMakerLighterHedger.onLighterHedgeFill s.strategy intent.limitPrice
    let hlPx := (strategy.openPosition.map (·.hlFillPrice)).getD 0
    let ltPx := (strategy.openPosition.map (·.lighterFillPrice)).getD 0
    { state := { s with strategy := strategy.reset }
      events := [.lighterHedgeConfirmed ack.txHash ack.confirmedSize hlPx ltPx
        snapshot.crossSpreadBps]
      calls := [.ioc .takerHedge request ack] }
  else
    let failed := EventLog.lighterHedgeNotConfirmed ack.ok ack.message snapshot.crossSpreadBps
    match HlMakerLighterHedger.onLighterHedgeReject s.strategy with
    | (strategy, .unwindHlPosition _) =>
      let unwind := executeUnwindHlPosition cfg venues { s with strategy := strategy }
      { unwind with
        events := unwind.events ++ [failed]
        calls := .ioc .takerHedge request ack :: unwind.calls }
    | (strategy, _) =>
      { state := { s with strategy := strategy }
        events := [failed]
        calls := [.ioc .takerHedge request ack] }

def executeAction (steadyMs : Int) (s : MakerHedgeEngine) (action : Action)
    (snapshot : SpreadSnapshot) : MakerOutcome :=
  match action with
  | .none => { state := s }
  | .placeHlMaker reason order => executePlaceHlMaker cfg venues steadyMs s reason order snapshot
  | .cancelHlMaker reason order => executeCancelHlMaker cfg venues steadyMs s reason order snapshot
  | .sendLighterTakerHedge _ intent =>
    executeSendLighterTakerHedge cfg venues steadyMs s intent snapshot
  | .unwindHlPosition _ => executeUnwindHlPosition cfg venues s
  | .placeLighterMaker _ _ => { state := s }
  | .cancelLighterMaker _ _ => { state := s }
  | .sendHlTakerHedge _ _ => { state := s }
  | .unwindLighterPosition _ => { state := s }

/-! ## `on_market_data` -/

/-- The deferred action may run: the retry time, when one is set, has come. -/
def retryDue (s : MakerHedgeEngine) (nowMs : Int) : Bool :=
  match s.nextRetrySteadyMs with
  | some retryAt => retryAt ≤ nowMs
  | none => true

def executeDeferredHlAction (s : MakerHedgeEngine) (nowMs : Int) (snapshot : SpreadSnapshot) :
    MakerOutcome :=
  match s.deferredHlAction with
  | none => { state := s }
  | some action =>
    if s.retryDue nowMs then
      executeAction cfg venues venues.clock.retrySteadyMs
        { s with deferredHlAction := none, nextRetrySteadyMs := none } action snapshot
    else { state := s }

/-- The part of `on_market_data` after the deferred action: ask the strategy and execute. -/
def runStrategy (s : MakerHedgeEngine) (nowMs : Int) (snapshot : SpreadSnapshot) : MakerOutcome :=
  let posLimitHit := s.positionLimitReached cfg snapshot.hl.mid
  let (strategy, action) :=
    HlMakerLighterHedger.onMarketSnapshot cfg.strategy s.strategy snapshot nowMs s.hlPositionBase
  let s := { s with strategy := strategy }
  match action with
  | .placeHlMaker _ order =>
    if posLimitHit && ((0 ≤ s.hlPositionBase && order.isBuy) ||
        (s.hlPositionBase < 0 && !order.isBuy)) then { state := s.resetStrategy }
    else executeAction cfg venues venues.clock.steadyMs s action snapshot
  | _ => executeAction cfg venues venues.clock.steadyMs s action snapshot

def onMarketData (s : MakerHedgeEngine) (nowMs : Int) : MakerOutcome :=
  let snapshot := collectSnapshot cfg venues
  let deferred := executeDeferredHlAction cfg venues s nowMs snapshot
  if deferred.events.isEmpty then
    let decided := runStrategy cfg venues deferred.state nowMs snapshot
    { decided with calls := deferred.calls ++ decided.calls }
  else deferred

/-! ## `on_hl_fill` -/

def fillPath (s : MakerHedgeEngine) (oid : String) (fillSizeBase : ℚ) : FillPath :=
  if oid ∉ s.recentlyPlacedOids then .unknownOid
  else if s.speculativeHedgeSent ∧ oid = s.speculativeHedgeOid then
    if |fillSizeBase - s.speculativeHedgeSize| < 0.001 then .perfectMatch
    else if 0.001 < fillSizeBase - s.speculativeHedgeSize then .correction
    else .overshoot
  else .hedge

/-- What the perfect-match and correction branches forget about the order. -/
def closeReconciled (s : MakerHedgeEngine) (oid : String) : MakerHedgeEngine :=
  { s.clearSpeculative with
    recentlyPlacedOids := s.recentlyPlacedOids.erase oid
    activeHlOid := none
    strategy := s.strategy.reset }

def reconcilePerfect (s : MakerHedgeEngine) (fillSizeBase : ℚ) (oid : String) : MakerOutcome :=
  { state := (s.applyHlFill fillSizeBase).closeReconciled oid
    events := [.speculativeHedgeReconciled fillSizeBase s.speculativeHedgeSize] }

def reconcileCorrection (s : MakerHedgeEngine) (fillSizeBase : ℚ) (snapshot : SpreadSnapshot)
    (oid : String) : MakerOutcome :=
  let sizeDiff := fillSizeBase - s.speculativeHedgeSize
  let request := iocRequest cfg snapshot s.lastMakerDirection.isBuyHl 10 sizeDiff
  let ack := venues.lighter.placeIocOrder request
  { state := (s.applyHlFill fillSizeBase).closeReconciled oid
    events := [.speculativeHedgeCorrection fillSizeBase s.speculativeHedgeSize sizeDiff ack.ok]
    calls := [.ioc .correction request ack] }

def reconcileOvershoot (s : MakerHedgeEngine) (fillSizeBase : ℚ) (snapshot : SpreadSnapshot) :
    MakerOutcome :=
  let overshoot := -(fillSizeBase - s.speculativeHedgeSize)
  let request := iocRequest cfg snapshot (!s.lastMakerDirection.isBuyHl) 15 overshoot
  let ack := venues.lighter.placeIocOrder request
  { state := (s.applyHlFill fillSizeBase).clearSpeculative
    events := [.speculativeHedgeOvershootUnwind fillSizeBase s.speculativeHedgeSize overshoot ack.ok
      ack.message]
    calls := [.ioc .overshootUnwind request ack] }

/-- The end of an order's life in the normal path: back to `idle`, no active oid. -/
def closeHedged (s : MakerHedgeEngine) : MakerHedgeEngine :=
  { s with strategy := s.strategy.reset, activeHlOid := none }

def hedgeFill (s : MakerHedgeEngine) (fillPrice fillSizeBase : ℚ) (snapshot : SpreadSnapshot)
    (oid : String) (hlFee : ℚ) : MakerOutcome :=
  let isAsk := s.lastMakerDirection.isBuyHl
  let request := iocRequest cfg snapshot isAsk 10 fillSizeBase
  let ack := venues.lighter.placeIocOrder request
  let times := venues.clock.times
  if ack.ok ∧ ack.fillConfirmed then
    { state := (s.applyHlFill fillSizeBase).closeHedged
      events := [.tradeComplete fillPrice fillSizeBase ack.fillPrice ack.confirmedSize ack.txHash
        snapshot.crossSpreadBps hlFee, .perfTrade oid]
      calls := [.ioc .hedge request ack]
      journal := if s.journalAttached then
        [{ tradeId := times.tradeId, timestampUs := times.timestampUs, type := 'T',
           hedgeStatus := "filled", hlFillTimestampUs := times.hlFillTimestampUs,
           lighterFillTimestampUs := times.lighterFillTimestampUs,
           hlSide := if s.lastMakerDirection.isBuyHl then 'B' else 'S',
           hlPx := fillPrice, hlSz := fillSizeBase, hlFee,
           ltFillPx := ack.fillPrice, ltSz := ack.confirmedSize, ltFee := ack.fee,
           spreadBps := snapshot.crossSpreadBps, makerRestingMs := times.makerRestingMs,
           hedgeTotalMs := times.hedgeTotalMs, hlOid := oid, ltTx := ack.txHash }]
        else [] }
  else
    let unwind := venues.hl.reducePosition cfg.hlCoin (!isAsk) fillSizeBase cfg.dryRun
    -- a row of the failure branches has no Lighter leg, and its side is read off `is_ask`
    let row : JournalEntry :=
      { tradeId := times.tradeId, timestampUs := times.timestampUs, type := 'F',
        hedgeStatus := "failed", hlFillTimestampUs := times.hlFillTimestampUs,
        hlSide := if isAsk then 'S' else 'B', hlPx := fillPrice, hlSz := fillSizeBase, hlFee,
        spreadBps := snapshot.crossSpreadBps, hedgeTotalMs := times.hedgeTotalMs, hlOid := oid,
        unwindFillPx := unwind.avgFillPrice, unwindFillSz := unwind.filledSize,
        failureReason := (ack.message.take 100).toString }
    { state := s.closeHedged
      events := [if ack.ok then .hedgeUnconfirmed fillPrice fillSizeBase ack.txHash
          else .hedgeFailed fillPrice fillSizeBase ack.message,
        .hlUnwind unwind.ok unwind.filledSize unwind.avgFillPrice, .perfTrade oid]
      calls := [.ioc .hedge request ack, .reduce (!isAsk) fillSizeBase unwind]
      journal := if s.journalAttached then
        [if ack.ok then
          { row with type := 'U', hedgeStatus := "unconfirmed_then_unwind", ltTx := ack.txHash,
                     failureReason := "lighter_unconfirmed" }
          else row]
        else [] }

def onHlFill (s : MakerHedgeEngine) (fillPrice fillSizeBase : ℚ) (snapshot : SpreadSnapshot)
    (oid : String) (hlFee : ℚ) : MakerOutcome :=
  match s.fillPath oid fillSizeBase with
  | .unknownOid => { state := s }
  | .perfectMatch => s.reconcilePerfect fillSizeBase oid
  | .correction => reconcileCorrection cfg venues s fillSizeBase snapshot oid
  | .overshoot => reconcileOvershoot cfg venues s fillSizeBase snapshot
  | .hedge => hedgeFill cfg venues s fillPrice fillSizeBase snapshot oid hlFee

/-! ## `on_trade_event` -/

/-- The trade is older than the order's acknowledgement. -/
def staleTrade (s : MakerHedgeEngine) (trade : TradeEvent) : Bool :=
  0 < trade.exchangeTimeMs && 0 < s.makerOrderPlacedEpochMs &&
    trade.exchangeTimeMs < s.makerOrderPlacedEpochMs

/-- The trade is far enough through the maker price and large enough against the order. -/
def priceCrossed (order : PendingMakerOrder) (trade : TradeEvent) : Bool :=
  let crossed : Bool :=
    if order.isBuy then trade.price ≤ order.price * (1 - cfg.specHedgeMinCrossBps / 10000)
    else order.price * (1 + cfg.specHedgeMinCrossBps / 10000) ≤ trade.price
  if crossed && 0 < cfg.specHedgeMinTradeRatio then
    !(0 < order.sizeBase && trade.size / order.sizeBase < cfg.specHedgeMinTradeRatio)
  else crossed

def sendSpeculative (s : MakerHedgeEngine) (trade : TradeEvent) (order : PendingMakerOrder)
    (oid : String) (snapshot : SpreadSnapshot) : MakerOutcome :=
  let request := iocRequest cfg snapshot order.direction.isBuyHl 15 order.sizeBase
  let ack := venues.lighter.placeIocOrder request
  if ack.ok ∧ ack.fillConfirmed then
    { state := { s with
        speculativeHedgeSent := true
        speculativeHedgeSize := order.sizeBase
        speculativeHedgeOid := oid }
      events := [.speculativeHedgeSuccess trade.price order.price ack.fillPrice ack.confirmedSize
        ack.txHash]
      calls := [.ioc .speculative request ack] }
  else
    { state := s.clearSpeculative
      events := [.speculativeHedgeFailed trade.price order.price ack.message]
      calls := [.ioc .speculative request ack] }

/-- A trade that does not cross is counted; every hundredth leaves a debug line. -/
def skipTrade (s : MakerHedgeEngine) (trade : TradeEvent) (order : PendingMakerOrder) :
    MakerOutcome :=
  let skipCount := s.skipCount + 1
  { state := { s with skipCount }
    events := if skipCount % 100 = 0 then
      [.specHedgeDebug skipCount order.price order.isBuy trade.price] else [] }

def onTradeEvent (s : MakerHedgeEngine) (trade : TradeEvent) : MakerOutcome :=
  match s.activeHlOid, s.strategy.pendingMaker with
  | some oid, some order =>
    if s.speculativeHedgeSent then { state := s }
    else if s.staleTrade trade then { state := s }
    else if priceCrossed cfg order trade then
      let snapshot := collectSnapshot cfg venues
      if snapshot.valid cfg.strategy.maxQuoteAgeMs then
        sendSpeculative cfg venues s trade order oid snapshot
      else { state := s }
    else s.skipTrade trade order
  | _, _ => { state := s }

/-! ## The hedge callbacks -/

def onLighterHedgeReject (s : MakerHedgeEngine) : MakerOutcome :=
  let (strategy, action) := HlMakerLighterHedger.onLighterHedgeReject s.strategy
  executeAction cfg venues venues.clock.steadyMs { s with strategy := strategy } action
    (collectSnapshot cfg venues)

def onLighterHedgeFill (s : MakerHedgeEngine) (fillPrice : ℚ) : MakerHedgeEngine :=
  { s with strategy := HlMakerLighterHedger.onLighterHedgeFill s.strategy fillPrice }

end MakerHedgeEngine

end Arb
