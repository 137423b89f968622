import HlLighterArb.Live.LighterLoop
import HlLighterArb.Live.Loop

/-!
# HlLighterArb.DryRun

What a dry run asks of the exchanges. Every request carries the flag of the configuration, and so do
the cancels that go past the engine.

* `Venues.muted`: exchanges that refuse every request without the flag.
* `step_muted`: in a dry run a call into either engine goes the same with them.
* `dry_run_asks_nothing`: so does every run of either live loop.
-/

namespace Arb

/-- The same quotes and clocks, and the same answers to requests with the dry-run flag. Any other
request is refused. -/
def Venues.muted (v : Venues) : Venues where
  hl := {
    getBbo := v.hl.getBbo
    placeLimitOrder := fun request => if request.dryRun then v.hl.placeLimitOrder request else {}
    placeIocOrder := fun request => if request.dryRun then v.hl.placeIocOrder request else {}
    cancelOrder := fun coin oid dryRun => if dryRun then v.hl.cancelOrder coin oid dryRun else {}
    reducePosition := fun coin isBuy size dryRun =>
      if dryRun then v.hl.reducePosition coin isBuy size dryRun else {} }
  lighter := {
    getBbo := v.lighter.getBbo
    placeLimitOrder := fun request =>
      if request.dryRun then v.lighter.placeLimitOrder request else {}
    cancelOrder := fun orderIndex dryRun =>
      if dryRun then v.lighter.cancelOrder orderIndex dryRun else {}
    placeIocOrder := fun request => if request.dryRun then v.lighter.placeIocOrder request else {} }
  clock := v.clock

def MakerEvent.muted : MakerEvent → MakerEvent
  | .tick nowMs venues => .tick nowMs venues.muted
  | .trade event venues => .trade event venues.muted
  | .fill fillPrice fillSizeBase snap oid hlFee venues =>
    .fill fillPrice fillSizeBase snap oid hlFee venues.muted

def LighterMakerEvent.muted : LighterMakerEvent → LighterMakerEvent
  | .tick nowMs venues => .tick nowMs venues.muted
  | .fill fillPrice fillSizeBase snapshot orderIndex venues =>
    .fill fillPrice fillSizeBase snapshot orderIndex venues.muted

def LoopEvent.muted : LoopEvent → LoopEvent
  | .fill fillPrice fillSizeBase snap oid hlFee venues =>
    .fill fillPrice fillSizeBase snap oid hlFee venues.muted
  | .trade event venues => .trade event venues.muted
  | .next venues response => .next venues.muted response
  | .callback venues => .callback venues.muted
  | e => e

def LighterLoopEvent.muted : LighterLoopEvent → LighterLoopEvent
  | .fill fillPrice fillSizeBase snapshot orderIndex venues =>
    .fill fillPrice fillSizeBase snapshot orderIndex venues.muted
  | .turn snap nowMs venues => .turn snap nowMs venues.muted

/-! ## The maker engine -/

section MakerEngine

open MakerHedgeEngine

variable {cfg : EngineConfig} (hdry : cfg.dryRun = true) (venues : Venues) (s : MakerHedgeEngine)

include hdry

theorem executePlace_muted (steadyMs : Int) (reason : String) (order : PendingMakerOrder)
    (snapshot : SpreadSnapshot) :
    executePlaceHlMaker cfg venues.muted steadyMs s reason order snapshot =
      executePlaceHlMaker cfg venues steadyMs s reason order snapshot := by
  simp [executePlaceHlMaker, Venues.muted, limitRequest, acceptPlacement, hdry]

theorem executeCancel_muted (steadyMs : Int) (reason : String) (order : PendingMakerOrder)
    (snapshot : SpreadSnapshot) :
    executeCancelHlMaker cfg venues.muted steadyMs s reason order snapshot =
      executeCancelHlMaker cfg venues steadyMs s reason order snapshot := by
  simp [executeCancelHlMaker, Venues.muted, cancelUnwindRequest, iocRequest, hdry]

theorem executeUnwind_muted :
    executeUnwindHlPosition cfg venues.muted s = executeUnwindHlPosition cfg venues s := by
  simp [executeUnwindHlPosition, Venues.muted, hdry]

theorem executeSendLighterTakerHedge_muted (steadyMs : Int) (intent : HedgeIntent)
    (snapshot : SpreadSnapshot) :
    executeSendLighterTakerHedge cfg venues.muted steadyMs s intent snapshot =
      executeSendLighterTakerHedge cfg venues steadyMs s intent snapshot := by
  simp only [executeSendLighterTakerHedge, executeUnwind_muted hdry]
  simp [Venues.muted, hdry]

theorem executeAction_muted (steadyMs : Int) (action : Action) (snapshot : SpreadSnapshot) :
    executeAction cfg venues.muted steadyMs s action snapshot =
      executeAction cfg venues steadyMs s action snapshot := by
  cases action with
  | placeHlMaker reason order => exact executePlace_muted hdry venues s steadyMs reason order _
  | cancelHlMaker reason order => exact executeCancel_muted hdry venues s steadyMs reason order _
  | sendLighterTakerHedge reason intent =>
    exact executeSendLighterTakerHedge_muted hdry venues s steadyMs intent _
  | unwindHlPosition reason => exact executeUnwind_muted hdry venues s
  | _ => rfl

theorem executeDeferred_muted (nowMs : Int) (snapshot : SpreadSnapshot) :
    executeDeferredHlAction cfg venues.muted s nowMs snapshot =
      executeDeferredHlAction cfg venues s nowMs snapshot := by
  unfold executeDeferredHlAction
  cases s.deferredHlAction with
  | none => rfl
  | some action =>
    simp only [executeAction_muted hdry]
    rfl

theorem runStrategy_muted (nowMs : Int) (snapshot : SpreadSnapshot) :
    runStrategy cfg venues.muted s nowMs snapshot = runStrategy cfg venues s nowMs snapshot := by
  unfold runStrategy
  generalize HlMakerLighterHedger.onMarketSnapshot cfg.strategy s.strategy snapshot nowMs
    s.hlPositionBase = r
  obtain ⟨h, action⟩ := r
  simp only [executeAction_muted hdry]
  rfl

theorem onMarketData_muted (nowMs : Int) :
    onMarketData cfg venues.muted s nowMs = onMarketData cfg venues s nowMs := by
  have hsnapshot : collectSnapshot cfg venues.muted = collectSnapshot cfg venues := rfl
  simp only [onMarketData, executeDeferred_muted hdry, runStrategy_muted hdry, hsnapshot]

theorem onTradeEvent_muted (trade : TradeEvent) :
    onTradeEvent cfg venues.muted s trade = onTradeEvent cfg venues s trade := by
  have hsnapshot : collectSnapshot cfg venues.muted = collectSnapshot cfg venues := rfl
  simp only [onTradeEvent, sendSpeculative, hsnapshot]
  simp [Venues.muted, iocRequest, hdry]

theorem onHlFill_muted (fillPrice fillSizeBase : ℚ) (snapshot : SpreadSnapshot) (oid : String)
    (hlFee : ℚ) :
    onHlFill cfg venues.muted s fillPrice fillSizeBase snapshot oid hlFee =
      onHlFill cfg venues s fillPrice fillSizeBase snapshot oid hlFee := by
  simp only [onHlFill, reconcileCorrection, reconcileOvershoot, hedgeFill]
  simp [Venues.muted, iocRequest, hdry]

theorem step_muted (e : MakerEvent) : step cfg s e.muted = step cfg s e := by
  cases e with
  | tick nowMs venues =>
    simp only [MakerEvent.muted, step, onMarketData_muted hdry]
  | trade trade venues =>
    simp only [MakerEvent.muted, step, onTradeEvent_muted hdry]
  | fill fillPrice fillSizeBase snapshot oid hlFee venues =>
    simp only [MakerEvent.muted, step, onHlFill_muted hdry]

/-- The live loop asks the exchanges through the engine and for its direct cancels. -/
theorem LiveLoop.step_muted (s : LiveLoop) (e : LoopEvent) :
    s.step cfg e.muted = s.step cfg e := by
  have hcall (e : MakerEvent) : s.call cfg e.muted = s.call cfg e := by
    rw [LiveLoop.call, LiveLoop.call, Arb.step_muted hdry]
  have hcancel (venues : Venues) : s.cancelActive cfg venues.muted = s.cancelActive cfg venues := by
    simp [LiveLoop.cancelActive, Venues.muted, hdry]
  cases e with
  | fill fillPrice fillSizeBase snapshot oid hlFee venues =>
    have hfill := hcall (.fill fillPrice fillSizeBase snapshot oid hlFee venues)
    simp only [MakerEvent.muted] at hfill
    simp only [LoopEvent.muted, LiveLoop.step, hfill]
  | trade trade venues =>
    have htrade := hcall (.trade trade venues)
    simp only [MakerEvent.muted] at htrade
    simp only [LoopEvent.muted, LiveLoop.step, htrade]
  | next venues response =>
    simp only [LoopEvent.muted, LiveLoop.step, LiveLoop.next, hcancel]
    cases s.pc with
    | marketData t =>
      have htick := hcall (.tick t.nowMs venues)
      simp only [MakerEvent.muted] at htick
      simp only [htick]
    | _ => rfl
  | callback venues => simp only [LoopEvent.muted, LiveLoop.step, LiveLoop.callback, hcancel]
  | fillsDrained | snapshot | readError | handshake | subscriptionResponse => rfl

end MakerEngine

/-! ## The Lighter-maker engine -/

namespace LighterMaker

open LighterMakerTakerEngine

variable {cfg : EngineConfig} (hdry : cfg.dryRun = true) (venues : Venues)
  (s : LighterMakerTakerEngine)

include hdry

theorem executePlace_muted (steadyMs : Int) (reason : String) (order : PendingMakerOrder) :
    executePlaceLighterMaker cfg venues.muted steadyMs s reason order =
      executePlaceLighterMaker cfg venues steadyMs s reason order := by
  simp [executePlaceLighterMaker, Venues.muted, limitRequest, hdry]

theorem executeCancel_muted (steadyMs : Int) (reason : String) (order : PendingMakerOrder) :
    executeCancelLighterMaker cfg venues.muted steadyMs s reason order =
      executeCancelLighterMaker cfg venues steadyMs s reason order := by
  simp [executeCancelLighterMaker, Venues.muted, hdry]

theorem executeSendHlTakerHedge_muted (intent : HlHedgeIntent) (snapshot : SpreadSnapshot) :
    executeSendHlTakerHedge cfg venues.muted s intent snapshot =
      executeSendHlTakerHedge cfg venues s intent snapshot := by
  simp [executeSendHlTakerHedge, Venues.muted, unwindRequest, hdry]

theorem executeUnwind_muted (snapshot : SpreadSnapshot) :
    executeUnwindLighterPosition cfg venues.muted s snapshot =
      executeUnwindLighterPosition cfg venues s snapshot := by
  simp [executeUnwindLighterPosition, Venues.muted, unwindRequest, hdry]

theorem executeAction_muted (steadyMs : Int) (action : Action) (snapshot : SpreadSnapshot) :
    executeAction cfg venues.muted steadyMs s action snapshot =
      executeAction cfg venues steadyMs s action snapshot := by
  cases action with
  | placeLighterMaker reason order => exact executePlace_muted hdry venues s steadyMs reason order
  | cancelLighterMaker reason order => exact executeCancel_muted hdry venues s steadyMs reason order
  | sendHlTakerHedge reason intent => exact executeSendHlTakerHedge_muted hdry venues s intent _
  | unwindLighterPosition reason => exact executeUnwind_muted hdry venues s _
  | _ => rfl

theorem executeDeferred_muted (nowMs : Int) (snapshot : SpreadSnapshot) :
    executeDeferredLighterAction cfg venues.muted s nowMs snapshot =
      executeDeferredLighterAction cfg venues s nowMs snapshot := by
  unfold executeDeferredLighterAction
  cases s.deferredLighterAction with
  | none => rfl
  | some action =>
    simp only [executeAction_muted hdry]
    rfl

theorem runStrategy_muted (nowMs : Int) (snapshot : SpreadSnapshot) :
    runStrategy cfg venues.muted s nowMs snapshot = runStrategy cfg venues s nowMs snapshot := by
  simp only [runStrategy, executeAction_muted hdry]
  rfl

theorem onMarketData_muted (nowMs : Int) :
    onMarketData cfg venues.muted s nowMs = onMarketData cfg venues s nowMs := by
  have hsnapshot : collectSnapshot cfg venues.muted = collectSnapshot cfg venues := rfl
  simp only [onMarketData, executeDeferred_muted hdry, runStrategy_muted hdry, hsnapshot]

theorem onLighterFill_muted (fillPrice fillSizeBase : ℚ) (snapshot : SpreadSnapshot)
    (orderIndex : Int) :
    onLighterFill cfg venues.muted s fillPrice fillSizeBase snapshot orderIndex =
      onLighterFill cfg venues s fillPrice fillSizeBase snapshot orderIndex := by
  simp only [onLighterFill, executeAction_muted hdry]
  rfl

theorem step_muted (e : LighterMakerEvent) : step cfg s e.muted = step cfg s e := by
  cases e with
  | tick nowMs venues => simp only [LighterMakerEvent.muted, step, onMarketData_muted hdry]
  | fill fillPrice fillSizeBase snapshot orderIndex venues =>
    simp only [LighterMakerEvent.muted, step, onLighterFill_muted hdry]

theorem loop_step_muted (s : LighterLoop) (e : LighterLoopEvent) :
    s.step cfg e.muted = s.step cfg e := by
  have hcall (s : LighterLoop) (e : LighterMakerEvent) : s.call cfg e.muted = s.call cfg e := by
    rw [LighterLoop.call, LighterLoop.call, step_muted hdry]
  cases e with
  | fill fillPrice fillSizeBase snapshot orderIndex venues =>
    exact hcall s (.fill fillPrice fillSizeBase snapshot orderIndex venues)
  | turn snap nowMs venues =>
    have htick (s : LighterLoop) :
        s.call cfg (.tick nowMs venues.muted) = s.call cfg (.tick nowMs venues) :=
      hcall s (.tick nowMs venues)
    simp only [LighterLoopEvent.muted, LighterLoop.step, LighterLoop.turn, htick]

end LighterMaker

/-- A dry run makes no request without the flag: refusing them all changes nothing. -/
theorem dry_run_asks_nothing {cfg : EngineConfig} (hdry : cfg.dryRun = true) (s : LiveLoop)
    (es : List LoopEvent) (t : LighterLoop) (fs : List LighterLoopEvent) :
    (LiveLoop.machine cfg).exec s (es.map LoopEvent.muted) = (LiveLoop.machine cfg).exec s es ∧
      (LighterLoop.machine cfg).exec t (fs.map LighterLoopEvent.muted) =
        (LighterLoop.machine cfg).exec t fs :=
  ⟨EventMachine.exec_map (fun s e => LiveLoop.step_muted hdry s e) s es,
    EventMachine.exec_map (fun t e => LighterMaker.loop_step_muted hdry t e) t fs⟩

def paperConfig : EngineConfig := { sampleConfig with dryRun := true }

/-- Quotes that open a position, on exchanges that accept every request. -/
def paperVenues : Venues := obligingVenues 100 101 1000 "7"

def paperSnapshot : SpreadSnapshot := MakerHedgeEngine.collectSnapshot paperConfig paperVenues

def paperIteration : List LoopEvent :=
  [.handshake, .subscriptionResponse, .fillsDrained, .snapshot paperSnapshot 1000] ++
    List.replicate 5 (.next paperVenues none)

def paperTurn : List LighterLoopEvent := [.turn paperSnapshot 1000 paperVenues]

theorem dry_run_asks_nothing_paper :
    (LiveLoop.machine paperConfig).exec {} (paperIteration.map LoopEvent.muted) =
        (LiveLoop.machine paperConfig).exec {} paperIteration ∧
      (LighterLoop.machine paperConfig).exec {} (paperTurn.map LighterLoopEvent.muted) =
        (LighterLoop.machine paperConfig).exec {} paperTurn :=
  dry_run_asks_nothing rfl {} paperIteration {} paperTurn

end Arb
