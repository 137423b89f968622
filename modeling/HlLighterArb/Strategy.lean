import HlLighterArb.Types

/-!
# HlLighterArb.Strategy

The two strategies, `HlMakerLighterHedger` and `LighterMakerHlHedger`. They declare the same
private members (`Hedger`), with the same bodies for those that move no order. The rest each has
under its own name. Their `on_market_snapshot`s differ in the names of the states, the actions they
emit, the entry threshold and the order they build: both are `Hedger.onSnapshot` of a `MakerLeg`.

`Decided` says once what a market snapshot can make a strategy do: nothing, place from `idle`, or
cancel from the pending state.
-/

namespace Arb

/-- A configuration that the constructors of both strategies accept. -/
structure HedgerConfig extends StrategyConfig where
  spread_pos : 0 < spreadBps
  cancel_band_nonneg : 0 ≤ cancelBandBps

/-- The check both constructors make. -/
def HedgerConfig.construct (config : StrategyConfig) : Except String HedgerConfig :=
  if hs : config.spreadBps ≤ 0 then .error "spread_bps must be positive"
  else if hc : config.cancelBandBps < 0 then .error "cancel_band_bps must be non-negative"
  else .ok { config with spread_pos := not_le.mp hs, cancel_band_nonneg := not_lt.mp hc }

/-! The default configuration is accepted. -/

theorem StrategyConfig.default_spread_pos : 0 < ({} : StrategyConfig).spreadBps := by
  norm_num

theorem StrategyConfig.default_cancel_band_nonneg : 0 ≤ ({} : StrategyConfig).cancelBandBps := by
  norm_num

structure SignalGate where
  armed : Bool := false
  direction : Direction := .shortLighterLongHl
  entrySpreadBps : ℚ := 0
  deriving DecidableEq

structure Hedger where
  state : StrategyState := .idle
  gate : SignalGate := {}
  pendingMaker : Option PendingMakerOrder := none
  openPosition : Option OpenHedgePosition := none
  lastDisarmMs : Int := 0
  deriving DecidableEq

/-! ## What the two strategies share -/

def directionForSpread (crossSpreadBps : ℚ) : Direction :=
  if 0 ≤ crossSpreadBps then .shortLighterLongHl else .longLighterShortHl

def cancelThresholdBps (cfg : HedgerConfig) (entrySpreadBps : ℚ) : ℚ :=
  if 0 < entrySpreadBps - cfg.cancelBandBps then entrySpreadBps - cfg.cancelBandBps else 0

namespace Hedger

def canArm (cfg : HedgerConfig) (h : Hedger) (nowMs : Int) : Bool :=
  cfg.minRearmMs ≤ nowMs - h.lastDisarmMs

def disarm (h : Hedger) (nowMs : Int) : Hedger :=
  { h with gate := { h.gate with armed := false }, lastDisarmMs := nowMs }

def reset (h : Hedger) : Hedger :=
  { h with gate := {}, pendingMaker := none, openPosition := none, state := .idle }

end Hedger

/-! ## Prices -/

def aggressiveLighterPrice (snapshot : SpreadSnapshot) (direction : Direction) : ℚ :=
  let lighterMid := snapshot.lighter.mid
  if lighterMid ≤ 0 then 0
  else match direction with
    | .shortLighterLongHl => lighterMid * (1 - 10 / 10000)
    | .longLighterShortHl => lighterMid * (1 + 10 / 10000)

def lighterAnchoredHlPrice (snapshot : SpreadSnapshot) (direction : Direction) (spreadBps : ℚ) :
    ℚ :=
  let spreadRatio := spreadBps / 10000
  match direction with
  | .shortLighterLongHl =>
    if snapshot.lighter.bid ≤ 0 then 0 else snapshot.lighter.bid / (1 + spreadRatio)
  | .longLighterShortHl =>
    if snapshot.lighter.ask ≤ 0 ∨ 1 ≤ spreadRatio then 0
    else snapshot.lighter.ask / (1 - spreadRatio)

def hlAnchoredLighterPrice (snapshot : SpreadSnapshot) (direction : Direction) (spreadBps : ℚ) :
    ℚ :=
  let spreadRatio := spreadBps / 10000
  match direction with
  | .shortLighterLongHl =>
    if snapshot.hl.ask ≤ 0 then 0 else snapshot.hl.ask * (1 + spreadRatio)
  | .longLighterShortHl =>
    if snapshot.hl.bid ≤ 0 then 0 else snapshot.hl.bid * (1 - spreadRatio)

def aggressiveHlPrice (snapshot : SpreadSnapshot) (direction : Direction) : ℚ :=
  match direction with
  | .shortLighterLongHl => snapshot.hl.ask * (1 + 10 / 10000)
  | .longLighterShortHl => snapshot.hl.bid * (1 - 10 / 10000)

/-- The base size both strategies order: the configured notional at the average mid. -/
def pairSizeBase (cfg : HedgerConfig) (snapshot : SpreadSnapshot) : ℚ :=
  let avgMid := (snapshot.lighter.mid + snapshot.hl.mid) / 2
  if 0 < avgMid then cfg.pairSizeUsd / avgMid else 0

/-! ## `HlMakerLighterHedger` -/

namespace HlMakerLighterHedger

def effectiveSpreadBps (cfg : HedgerConfig) (crossSpreadBps hlPositionBase : ℚ) : ℚ :=
  let closeBps := if 0 < cfg.closeSpreadBps then cfg.closeSpreadBps else cfg.spreadBps
  if cfg.spreadBps ≤ closeBps then cfg.spreadBps
  else
    let dir := directionForSpread crossSpreadBps
    if (hlPositionBase < 0 ∧ dir = .shortLighterLongHl) ∨
        (0 < hlPositionBase ∧ dir = .longLighterShortHl) then closeBps
    else cfg.spreadBps

def buildMakerOrder (cfg : HedgerConfig) (snapshot : SpreadSnapshot) (gate : SignalGate) :
    PendingMakerOrder :=
  let targetPrice := lighterAnchoredHlPrice snapshot gate.direction gate.entrySpreadBps
  { direction := gate.direction
    isBuy := match gate.direction with
      | .shortLighterLongHl => true
      | .longLighterShortHl => false
    price := match gate.direction with
      | .shortLighterLongHl => min targetPrice snapshot.hl.bid
      | .longLighterShortHl => max targetPrice snapshot.hl.ask
    sizeBase := pairSizeBase cfg snapshot
    triggerSpreadBps := snapshot.crossSpreadBps
    entrySpreadBps := gate.entrySpreadBps }

def onMarketSnapshot (cfg : HedgerConfig) (h : Hedger) (snapshot : SpreadSnapshot) (nowMs : Int)
    (hlPositionBase : ℚ) : Hedger × Action :=
  if snapshot.valid cfg.maxQuoteAgeMs = false then (h, .none)
  else
    let absSpread := |snapshot.crossSpreadBps|
    let liveDirection := directionForSpread snapshot.crossSpreadBps
    let threshold := effectiveSpreadBps cfg snapshot.crossSpreadBps hlPositionBase
    let h :=
      if h.gate.armed then
        let gateCancel := cancelThresholdBps cfg h.gate.entrySpreadBps
        if liveDirection ≠ h.gate.direction ∨ absSpread < gateCancel then
          let off := { h with gate := { h.gate with armed := false } }
          if h.state = .idle ∨ h.state = .cancelledPendingConfirm then
            { off with lastDisarmMs := nowMs }
          else off
        else h
      else if threshold ≤ absSpread ∧ h.canArm cfg nowMs then
        { h with gate := { armed := true, direction := liveDirection, entrySpreadBps := threshold } }
      else h
    if h.state = .idle then
      if h.gate.armed = false then (h, .none)
      else
        let order := buildMakerOrder cfg snapshot h.gate
        let reason := if h.gate.entrySpreadBps < cfg.spreadBps then "spread reached close threshold"
          else "spread reached entry threshold"
        ({ h with pendingMaker := some order, state := .pendingHlMaker }, .placeHlMaker reason order)
    else if h.state = .pendingHlMaker then
      match h.pendingMaker with
      | none => (h, .none)
      | some order =>
        let cancelThresh := cancelThresholdBps cfg order.entrySpreadBps
        if h.gate.armed = false ∨ liveDirection ≠ order.direction ∨ absSpread < cancelThresh then
          -- `pending_maker_` is kept: the order may have been filled before the cancel arrives.
          ({ h with state := .cancelledPendingConfirm }.disarm nowMs,
            .cancelHlMaker "spread mean-reverted below cancel threshold" order)
        else (h, .none)
    else (h, .none)

def buildLighterHedge (h : Hedger) (snapshot : SpreadSnapshot) : HedgeIntent :=
  match h.openPosition with
  | none => {}
  | some pos =>
    { isAsk := pos.direction = .shortLighterLongHl
      limitPrice := aggressiveLighterPrice snapshot pos.direction
      sizeBase := pos.sizeBase }

def onHlMakerFill (h : Hedger) (fillPrice fillSizeBase : ℚ) (snapshot : SpreadSnapshot) :
    Hedger × Action :=
  match h.pendingMaker with
  | none => (h, .none)
  | some order =>
    let h := { h with
      openPosition := some
        { direction := order.direction, sizeBase := fillSizeBase, hlFillPrice := fillPrice }
      state := .hlFilledPendingLighterHedge }
    ({ h with pendingMaker := none },
      .sendLighterTakerHedge "hl maker filled" (buildLighterHedge h snapshot))

def onLighterHedgeFill (h : Hedger) (fillPrice : ℚ) : Hedger :=
  match h.openPosition with
  | none => h
  | some pos =>
    { h with openPosition := some { pos with lighterFillPrice := fillPrice }, state := .open }

def onLighterHedgeReject (h : Hedger) : Hedger × Action :=
  match h.openPosition with
  | none => (h, .none)
  | some _ =>
    ({ h with state := .unwindingHl },
      .unwindHlPosition "lighter hedge failed after hl maker fill")

end HlMakerLighterHedger

/-! ## `LighterMakerHlHedger` -/

namespace LighterMakerHlHedger

def buildMakerOrder (cfg : HedgerConfig) (snapshot : SpreadSnapshot) (gate : SignalGate) :
    PendingMakerOrder :=
  let targetPrice := hlAnchoredLighterPrice snapshot gate.direction gate.entrySpreadBps
  { direction := gate.direction
    isBuy := match gate.direction with
      | .shortLighterLongHl => false
      | .longLighterShortHl => true
    price := match gate.direction with
      | .shortLighterLongHl => max targetPrice snapshot.lighter.ask
      | .longLighterShortHl => min targetPrice snapshot.lighter.bid
    sizeBase := pairSizeBase cfg snapshot
    triggerSpreadBps := snapshot.crossSpreadBps
    entrySpreadBps := gate.entrySpreadBps }

def onMarketSnapshot (cfg : HedgerConfig) (h : Hedger) (snapshot : SpreadSnapshot) (nowMs : Int) :
    Hedger × Action :=
  if snapshot.valid cfg.maxQuoteAgeMs = false then (h, .none)
  else
    let absSpread := |snapshot.crossSpreadBps|
    let liveDirection := directionForSpread snapshot.crossSpreadBps
    let h :=
      if h.gate.armed then
        let gateCancel := cancelThresholdBps cfg h.gate.entrySpreadBps
        if liveDirection ≠ h.gate.direction ∨ absSpread < gateCancel then
          let off := { h with gate := { h.gate with armed := false } }
          if h.state = .idle ∨ h.state = .cancelledPendingLighterConfirm then
            { off with lastDisarmMs := nowMs }
          else off
        else h
      else if cfg.spreadBps ≤ absSpread ∧ h.canArm cfg nowMs then
        { h with
          gate := { armed := true, direction := liveDirection, entrySpreadBps := cfg.spreadBps } }
      else h
    if h.state = .idle then
      if h.gate.armed = false then (h, .none)
      else
        let order := buildMakerOrder cfg snapshot h.gate
        ({ h with pendingMaker := some order, state := .pendingLighterMaker },
          .placeLighterMaker "spread reached entry threshold" order)
    else if h.state = .pendingLighterMaker then
      match h.pendingMaker with
      | none => (h, .none)
      | some order =>
        let cancelThresh := cancelThresholdBps cfg order.entrySpreadBps
        if h.gate.armed = false ∨ liveDirection ≠ order.direction ∨ absSpread < cancelThresh then
          ({ h with state := .cancelledPendingLighterConfirm }.disarm nowMs,
            .cancelLighterMaker "spread mean-reverted below cancel threshold" order)
        else (h, .none)
    else (h, .none)

def buildHlHedge (h : Hedger) (snapshot : SpreadSnapshot) : HlHedgeIntent :=
  match h.openPosition with
  | none => {}
  | some pos =>
    { isBuy := pos.direction = .shortLighterLongHl
      limitPrice := aggressiveHlPrice snapshot pos.direction
      sizeBase := pos.sizeBase }

def onLighterMakerFill (h : Hedger) (fillPrice fillSizeBase : ℚ) (snapshot : SpreadSnapshot) :
    Hedger × Action :=
  match h.pendingMaker with
  | none => (h, .none)
  | some order =>
    let h := { h with
      openPosition := some
        { direction := order.direction, sizeBase := fillSizeBase, lighterFillPrice := fillPrice }
      state := .lighterFilledPendingHlHedge }
    ({ h with pendingMaker := none },
      .sendHlTakerHedge "lighter maker filled" (buildHlHedge h snapshot))

def onHlHedgeFill (h : Hedger) (fillPrice : ℚ) : Hedger :=
  match h.openPosition with
  | none => h
  | some pos =>
    { h with openPosition := some { pos with hlFillPrice := fillPrice }, state := .open }

def onHlHedgeReject (h : Hedger) : Hedger × Action :=
  match h.openPosition with
  | none => (h, .none)
  | some _ =>
    ({ h with state := .unwindingLighter },
      .unwindLighterPosition "hl taker hedge failed after lighter maker fill")

end LighterMakerHlHedger

/-! ## One machine for both

`Hedger.onSnapshot` is `on_market_snapshot` with the names, the threshold, the order and the reason
left open; each strategy's own is one case of it (`onMarketSnapshot_eq`). -/

/-- The names one strategy gives to its states and actions. -/
structure MakerLeg where
  pending : StrategyState
  cancelled : StrategyState
  place : String → PendingMakerOrder → Action
  cancel : String → PendingMakerOrder → Action

/-- The gate update of a snapshot. -/
def Hedger.stepGate (leg : MakerLeg) (cfg : HedgerConfig) (h : Hedger) (crossSpreadBps : ℚ)
    (threshold : ℚ) (nowMs : Int) : Hedger :=
  let live := directionForSpread crossSpreadBps
  if h.gate.armed then
    if live ≠ h.gate.direction ∨ |crossSpreadBps| < cancelThresholdBps cfg h.gate.entrySpreadBps then
      { h with
        gate := { h.gate with armed := false }
        lastDisarmMs := if h.state = .idle ∨ h.state = leg.cancelled then nowMs else h.lastDisarmMs }
    else h
  else if threshold ≤ |crossSpreadBps| ∧ h.canArm cfg nowMs then
    { h with gate := { armed := true, direction := live, entrySpreadBps := threshold } }
  else h

/-- The state switch that follows the gate update. -/
def Hedger.decide (leg : MakerLeg) (cfg : HedgerConfig) (h : Hedger) (crossSpreadBps : ℚ)
    (build : SignalGate → PendingMakerOrder) (reason : SignalGate → String) (nowMs : Int) :
    Hedger × Action :=
  if h.state = .idle then
    if h.gate.armed then
      let order := build h.gate
      ({ h with pendingMaker := some order, state := leg.pending }, leg.place (reason h.gate) order)
    else (h, .none)
  else if h.state = leg.pending then
    match h.pendingMaker with
    | none => (h, .none)
    | some order =>
      if h.gate.armed = false ∨ directionForSpread crossSpreadBps ≠ order.direction ∨
          |crossSpreadBps| < cancelThresholdBps cfg order.entrySpreadBps then
        ({ h with state := leg.cancelled }.disarm nowMs,
          leg.cancel "spread mean-reverted below cancel threshold" order)
      else (h, .none)
  else (h, .none)

/-- A stale or one-sided snapshot is ignored. -/
def Hedger.onSnapshot (leg : MakerLeg) (cfg : HedgerConfig) (h : Hedger) (snapshot : SpreadSnapshot)
    (threshold : ℚ) (build : SignalGate → PendingMakerOrder) (reason : SignalGate → String)
    (nowMs : Int) : Hedger × Action :=
  if snapshot.valid cfg.maxQuoteAgeMs then
    (h.stepGate leg cfg snapshot.crossSpreadBps threshold nowMs).decide leg cfg
      snapshot.crossSpreadBps build reason nowMs
  else (h, .none)

def HlMakerLighterHedger.leg : MakerLeg where
  pending := .pendingHlMaker
  cancelled := .cancelledPendingConfirm
  place := .placeHlMaker
  cancel := .cancelHlMaker

def LighterMakerHlHedger.leg : MakerLeg where
  pending := .pendingLighterMaker
  cancelled := .cancelledPendingLighterConfirm
  place := .placeLighterMaker
  cancel := .cancelLighterMaker

/-- Two ways to write the gate update. -/
theorem Hedger.stepGate_eq (h : Hedger) (leg : MakerLeg) (cfg : HedgerConfig)
    (crossSpreadBps threshold : ℚ) (nowMs : Int) :
    h.stepGate leg cfg crossSpreadBps threshold nowMs =
      if h.gate.armed then
        if directionForSpread crossSpreadBps ≠ h.gate.direction ∨
            |crossSpreadBps| < cancelThresholdBps cfg h.gate.entrySpreadBps then
          if h.state = .idle ∨ h.state = leg.cancelled then
            { h with gate := { h.gate with armed := false }, lastDisarmMs := nowMs }
          else { h with gate := { h.gate with armed := false } }
        else h
      else if threshold ≤ |crossSpreadBps| ∧ h.canArm cfg nowMs then
        { h with gate :=
          { armed := true
            direction := directionForSpread crossSpreadBps
            entrySpreadBps := threshold } }
      else h := by
  unfold stepGate
  simp only
  split_ifs <;> rfl

theorem HlMakerLighterHedger.onMarketSnapshot_eq (cfg : HedgerConfig) (h : Hedger)
    (snapshot : SpreadSnapshot) (nowMs : Int) (hlPositionBase : ℚ) :
    onMarketSnapshot cfg h snapshot nowMs hlPositionBase =
      h.onSnapshot leg cfg snapshot (effectiveSpreadBps cfg snapshot.crossSpreadBps hlPositionBase)
        (buildMakerOrder cfg snapshot)
        (fun gate => if gate.entrySpreadBps < cfg.spreadBps then "spread reached close threshold"
          else "spread reached entry threshold")
        nowMs := by
  unfold onMarketSnapshot Hedger.onSnapshot
  cases snapshot.valid cfg.maxQuoteAgeMs with
  | false => rfl
  | true =>
    simp only [Hedger.stepGate_eq, leg, Bool.true_eq_false, if_false, if_true]
    generalize (if h.gate.armed = true then _ else _ : Hedger) = g
    unfold Hedger.decide
    cases g.gate.armed <;> rfl

theorem LighterMakerHlHedger.onMarketSnapshot_eq (cfg : HedgerConfig) (h : Hedger)
    (snapshot : SpreadSnapshot) (nowMs : Int) :
    onMarketSnapshot cfg h snapshot nowMs =
      h.onSnapshot leg cfg snapshot cfg.spreadBps (buildMakerOrder cfg snapshot)
        (fun _ => "spread reached entry threshold") nowMs := by
  unfold onMarketSnapshot Hedger.onSnapshot
  cases snapshot.valid cfg.maxQuoteAgeMs with
  | false => rfl
  | true =>
    simp only [Hedger.stepGate_eq, leg, Bool.true_eq_false, if_false, if_true]
    generalize (if h.gate.armed = true then _ else _ : Hedger) = g
    unfold Hedger.decide
    cases g.gate.armed <;> rfl

/-! ## What a snapshot can make a strategy do -/

/-- The outcomes of `on_market_snapshot`, each with everything it leaves behind. -/
inductive Decided (leg : MakerLeg) (build : SignalGate → PendingMakerOrder) (nowMs : Int)
    (h : Hedger) : Hedger → Action → Prop where
  | quiet {h' : Hedger} (state : h'.state = h.state) (pending : h'.pendingMaker = h.pendingMaker)
      (opened : h'.openPosition = h.openPosition)
      (gate : h.state = .idle → h'.gate.armed = true → h.gate.armed = true) :
      Decided leg build nowMs h h' .none
  | place {h' : Hedger} (reason : String) (idle : h.state = .idle) (state : h'.state = leg.pending)
      (pending : h'.pendingMaker = some (build h'.gate)) (opened : h'.openPosition = h.openPosition)
      {a : Action} (act : a = leg.place reason (build h'.gate)) : Decided leg build nowMs h h' a
  | cancel {h' : Hedger} (reason : String) {order : PendingMakerOrder}
      (wasPending : h.state = leg.pending) (wasOrder : h.pendingMaker = some order)
      (state : h'.state = leg.cancelled) (pending : h'.pendingMaker = some order)
      (opened : h'.openPosition = h.openPosition) (disarmed : h'.gate.armed = false)
      (time : h'.lastDisarmMs = nowMs) {a : Action} (act : a = leg.cancel reason order) :
      Decided leg build nowMs h h' a

namespace Hedger

variable {h : Hedger}

@[simp] theorem reset_state : h.reset.state = .idle := rfl
@[simp] theorem reset_pendingMaker : h.reset.pendingMaker = none := rfl
@[simp] theorem reset_openPosition : h.reset.openPosition = none := rfl
@[simp] theorem reset_gate : h.reset.gate = {} := rfl
@[simp] theorem reset_lastDisarmMs : h.reset.lastDisarmMs = h.lastDisarmMs := rfl

@[simp] theorem disarm_state {t : Int} : (h.disarm t).state = h.state := rfl
@[simp] theorem disarm_pendingMaker {t : Int} : (h.disarm t).pendingMaker = h.pendingMaker := rfl
@[simp] theorem disarm_openPosition {t : Int} : (h.disarm t).openPosition = h.openPosition := rfl
@[simp] theorem disarm_armed {t : Int} : (h.disarm t).gate.armed = false := rfl
@[simp] theorem disarm_lastDisarmMs {t : Int} : (h.disarm t).lastDisarmMs = t := rfl

/-- The gate update touches only the gate and the cooldown. -/
theorem stepGate_frame (h : Hedger) (leg : MakerLeg) (cfg : HedgerConfig)
    (spread threshold : ℚ) (nowMs : Int) :
    (h.stepGate leg cfg spread threshold nowMs).state = h.state ∧
      (h.stepGate leg cfg spread threshold nowMs).pendingMaker = h.pendingMaker ∧
      (h.stepGate leg cfg spread threshold nowMs).openPosition = h.openPosition := by
  unfold stepGate
  simp only
  split_ifs <;> exact ⟨rfl, rfl, rfl⟩

theorem decide_decided (h : Hedger) (leg : MakerLeg) (cfg : HedgerConfig)
    (build : SignalGate → PendingMakerOrder) (reason : SignalGate → String) (spread : ℚ)
    (nowMs : Int) :
    Decided leg build nowMs h (h.decide leg cfg spread build reason nowMs).1
      (h.decide leg cfg spread build reason nowMs).2 := by
  unfold decide
  split_ifs with hidle harmed hpend
  · refine .place (reason h.gate) hidle ?_ ?_ ?_ ?_ <;> rfl
  · exact .quiet rfl rfl rfl fun _ ha => ha
  · cases ho : h.pendingMaker with
    | none => exact .quiet rfl rfl rfl fun _ ha => ha
    | some order =>
      simp only
      split_ifs
      · refine .cancel _ hpend ho ?_ ?_ ?_ ?_ ?_ rfl <;> rfl
      · exact .quiet rfl rfl rfl fun _ ha => ha
  · exact .quiet rfl rfl rfl fun _ ha => ha

/-- From `idle` a valid snapshot leaves the gate armed only by placing. -/
theorem decide_quiet_unarmed (h : Hedger) (leg : MakerLeg) (cfg : HedgerConfig)
    (build : SignalGate → PendingMakerOrder) (reason : SignalGate → String) (spread : ℚ)
    (nowMs : Int) (hidle : h.state = .idle)
    (hstay : (h.decide leg cfg spread build reason nowMs).2 = .none)
    (hplace : ∀ r o, leg.place r o ≠ .none) :
    (h.decide leg cfg spread build reason nowMs).1.gate.armed = false := by
  unfold decide at hstay ⊢
  rw [if_pos hidle] at hstay ⊢
  split_ifs at hstay ⊢ with harmed
  · exact absurd hstay (hplace _ _)
  · simpa using harmed

theorem onSnapshot_decided (h : Hedger) {leg : MakerLeg} (cfg : HedgerConfig)
    (hleg : ∀ r o, leg.place r o ≠ .none) (snapshot : SpreadSnapshot) (threshold : ℚ)
    (build : SignalGate → PendingMakerOrder) (reason : SignalGate → String)
    (nowMs : Int) :
    Decided leg build nowMs h (h.onSnapshot leg cfg snapshot threshold build reason nowMs).1
      (h.onSnapshot leg cfg snapshot threshold build reason nowMs).2 := by
  unfold onSnapshot
  split_ifs
  · obtain ⟨hs, hp, ho⟩ := h.stepGate_frame leg cfg snapshot.crossSpreadBps threshold nowMs
    generalize h.stepGate leg cfg snapshot.crossSpreadBps threshold nowMs = g at *
    have hd := g.decide_decided leg cfg build reason snapshot.crossSpreadBps nowMs
    have hq := g.decide_quiet_unarmed leg cfg build reason snapshot.crossSpreadBps nowMs
    generalize g.decide leg cfg snapshot.crossSpreadBps build reason nowMs = r at *
    obtain ⟨h', a⟩ := r
    cases hd with
    | quiet s p o _ =>
      refine .quiet (s.trans hs) (p.trans hp) (o.trans ho) fun hidle harmed => ?_
      rw [hq (hs.trans hidle) rfl hleg] at harmed
      cases harmed
    | place r i s p o e => exact .place r (hs ▸ i) s p (o.trans ho) e
    | cancel r w wo s p o d t e => exact .cancel r (hs ▸ w) (hp ▸ wo) s p (o.trans ho) d t e
  · exact .quiet rfl rfl rfl fun _ ha => ha

end Hedger

theorem HlMakerLighterHedger.onMarketSnapshot_decided (cfg : HedgerConfig) (h : Hedger)
    (snapshot : SpreadSnapshot) (nowMs : Int) (pos : ℚ) :
    Decided leg (buildMakerOrder cfg snapshot) nowMs h
      (onMarketSnapshot cfg h snapshot nowMs pos).1
      (onMarketSnapshot cfg h snapshot nowMs pos).2 := by
  rw [onMarketSnapshot_eq]
  exact Hedger.onSnapshot_decided h cfg (fun _ _ => by simp [leg]) _ _ _ _ _

theorem LighterMakerHlHedger.onMarketSnapshot_decided (cfg : HedgerConfig) (h : Hedger)
    (snapshot : SpreadSnapshot) (nowMs : Int) :
    Decided leg (buildMakerOrder cfg snapshot) nowMs h
      (onMarketSnapshot cfg h snapshot nowMs).1 (onMarketSnapshot cfg h snapshot nowMs).2 := by
  rw [onMarketSnapshot_eq]
  exact Hedger.onSnapshot_decided h cfg (fun _ _ => by simp [leg]) _ _ _ _ _

/-- An HL maker order buys exactly when its direction goes long HL. -/
theorem HlMakerLighterHedger.buildMakerOrder_isBuy (cfg : HedgerConfig) (snapshot : SpreadSnapshot)
    (gate : SignalGate) : (buildMakerOrder cfg snapshot gate).isBuy =
      (buildMakerOrder cfg snapshot gate).direction.isBuyHl := by
  unfold buildMakerOrder
  cases gate.direction <;> rfl

/-- A Lighter maker order buys exactly when its direction goes short HL. -/
theorem LighterMakerHlHedger.buildMakerOrder_isBuy (cfg : HedgerConfig)
    (snapshot : SpreadSnapshot) (gate : SignalGate) :
    (buildMakerOrder cfg snapshot gate).isBuy =
      !(buildMakerOrder cfg snapshot gate).direction.isBuyHl := by
  unfold buildMakerOrder
  cases gate.direction <;> rfl

end Arb
