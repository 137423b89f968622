import HlLighterArb.Hysteresis
import HlLighterArb.Maker.Moves

/-!
# HlLighterArb.Maker.Placements

Which maker order a tick of `MakerHedgeEngine` sends, read off the state and the inputs of the tick.
A deferred action that runs ends the tick. A deferred placement that the position limit blocks does
not: it resets the strategy, which is then asked on the same tick.

* `SendsDeferred`, `SendsDecided`: the tick sends this order, from the slot or as just decided.
* `placeLimit_mem_iff`: these are exactly the placements of a tick.
* `cancelSent`: the cancel a tick sends, from the slot or as just decided.
* `onMarketData_calls`: a tick sends that cancel with its unwind, or at most a placement.
-/

namespace Arb

open MakerHedgeEngine

namespace Maker

/-- The deferred action is due, its limiter is free, and the position limit does not block it. -/
def deferredRuns (cfg : EngineConfig) (s : MakerHedgeEngine) (nowMs : Int) (venues : Venues) :
    Bool :=
  s.retryDue nowMs && match s.deferredHlAction with
    | some (.placeHlMaker _ order) =>
      !s.limitBlocks cfg (collectSnapshot cfg venues).hl.mid order.isBuy &&
        (s.hlPlaceRetryAtMs cfg venues.clock.retrySteadyMs).isNone
    | some (.cancelHlMaker _ _) => (s.hlCancelRetryAtMs cfg venues.clock.retrySteadyMs).isNone
    | _ => false

/-- The strategy that is asked when no deferred action runs. -/
def strategyAsked (cfg : EngineConfig) (s : MakerHedgeEngine) (nowMs : Int) (venues : Venues) :
    Hedger :=
  match s.deferredHlAction with
  | some (.placeHlMaker _ order) =>
    if s.retryDue nowMs && s.limitBlocks cfg (collectSnapshot cfg venues).hl.mid order.isBuy then
      s.strategy.reset
    else s.strategy
  | _ => s.strategy

/-- The tick sends the placement that waits in the slot. -/
def SendsDeferred (cfg : EngineConfig) (s : MakerHedgeEngine) (nowMs : Int) (venues : Venues)
    (order : PendingMakerOrder) : Prop :=
  deferredRuns cfg s nowMs venues = true ∧
    ∃ reason, s.deferredHlAction = some (.placeHlMaker reason order)

/-- The tick sends the order the strategy decides on, and the limit admits. -/
def SendsDecided (cfg : EngineConfig) (s : MakerHedgeEngine) (nowMs : Int) (venues : Venues)
    (order : PendingMakerOrder) : Prop :=
  deferredRuns cfg s nowMs venues = false ∧
    s.hlPlaceRetryAtMs cfg venues.clock.steadyMs = none ∧
    s.limitBlocks cfg (collectSnapshot cfg venues).hl.mid order.isBuy = false ∧
    ∃ reason, (HlMakerLighterHedger.onMarketSnapshot cfg.strategy (strategyAsked cfg s nowMs venues)
      (collectSnapshot cfg venues) nowMs s.hlPositionBase).2 = .placeHlMaker reason order

def cancelsHl : Action → Bool
  | .cancelHlMaker _ _ => true
  | _ => false

/-- The order the tick sends a cancel for: the active one, if the waiting action runs and is a
cancel, or none runs and the strategy decides to cancel. -/
def cancelSent (cfg : EngineConfig) (s : MakerHedgeEngine) (nowMs : Int) (venues : Venues) :
    Option String :=
  let cancels :=
    if deferredRuns cfg s nowMs venues then s.deferredHlAction.any cancelsHl
    else (s.hlCancelRetryAtMs cfg venues.clock.steadyMs).isNone &&
      cancelsHl (HlMakerLighterHedger.onMarketSnapshot cfg.strategy
        (strategyAsked cfg s nowMs venues) (collectSnapshot cfg venues) nowMs s.hlPositionBase).2
  if cancels then s.activeHlOid else none

/-- The requests of a cancel: once it is acknowledged, an outstanding speculative hedge is taken
back. -/
def cancelRequests (cfg : EngineConfig) (venues : Venues) (s : MakerHedgeEngine)
    (snapshot : SpreadSnapshot) : Option String → List MakerObs
  | none => []
  | some oid =>
    let ack := venues.hl.cancelOrder cfg.hlCoin oid cfg.dryRun
    let request := s.cancelUnwindRequest cfg snapshot
    .cancel oid ack :: if ack.ok ∧ s.speculativeHedgeSent then
      [.ioc .cancelUnwind request (venues.lighter.placeIocOrder request)] else []

def Sends (cfg : EngineConfig) (s : MakerHedgeEngine) (nowMs : Int) (venues : Venues)
    (order : PendingMakerOrder) : Prop :=
  SendsDeferred cfg s nowMs venues order ∨ SendsDecided cfg s nowMs venues order

/-- A tick executes its cancel, or calls the exchange for one placement at most. -/
def CancelsOrPlaces (cfg : EngineConfig) (s : MakerHedgeEngine) (nowMs : Int) (venues : Venues)
    (l : List MakerObs) : Prop :=
  l = cancelRequests cfg venues s (collectSnapshot cfg venues) (cancelSent cfg s nowMs venues) ∨
    cancelSent cfg s nowMs venues = none ∧ (l = [] ∨ ∃ request ack, l = [.placeLimit request ack])

section Ticks

variable {cfg : EngineConfig} {s : MakerHedgeEngine} {order : PendingMakerOrder}
  {nowMs : Int} {venues : Venues} {request : HlLimitOrderRequest} {ack : HlLimitOrderAck}

/-- A tick sends one order at most. -/
theorem Sends.unique {x y : PendingMakerOrder} (hx : Sends cfg s nowMs venues x)
    (hy : Sends cfg s nowMs venues y) : x = y := by
  rcases hx with ⟨hruns, _, hslot⟩ | ⟨hruns, -, -, _, hdecided⟩ <;>
    rcases hy with ⟨hruns', _, hslot'⟩ | ⟨hruns', -, -, _, hdecided'⟩
  · rw [hslot] at hslot'
    cases hslot'
    rfl
  · rw [hruns] at hruns'
    cases hruns'
  · rw [hruns] at hruns'
    cases hruns'
  · rw [hdecided] at hdecided'
    cases hdecided'
    rfl

theorem executePlace_mem_iff {steadyMs : Int} {reason : String} {snapshot : SpreadSnapshot} :
    .placeLimit request ack ∈
        (executePlaceHlMaker cfg venues steadyMs s reason order snapshot).calls ↔
      s.limitBlocks cfg snapshot.hl.mid order.isBuy = false ∧
        s.hlPlaceRetryAtMs cfg steadyMs = none ∧ request = limitRequest cfg order ∧
        ack = venues.hl.placeLimitOrder request := by
  unfold executePlaceHlMaker
  split_ifs with hblock
  · simp [hblock]
  · cases s.hlPlaceRetryAtMs cfg steadyMs with
    | some retryAt => simp
    | none =>
      simp only [hblock, true_and]
      split_ifs <;> simp <;> rintro rfl <;> rfl

theorem executeCancel_no_placement {steadyMs : Int} {reason : String} {snapshot : SpreadSnapshot} :
    .placeLimit request ack ∉
      (executeCancelHlMaker cfg venues steadyMs s reason order snapshot).calls := by
  unfold executeCancelHlMaker
  cases s.hlCancelRetryAtMs cfg steadyMs with
  | some retryAt => simp
  | none =>
    cases s.activeHlOid with
    | none => simp
    | some oid =>
      simp only
      split_ifs <;> simp

/-- What a deferred action that does not run leaves. -/
structure Unrun (cfg : EngineConfig) (s : MakerHedgeEngine) (nowMs : Int) (venues : Venues)
    (out : MakerOutcome) : Prop where
  events : out.events = []
  calls : out.calls = []
  strategy : out.state.strategy = strategyAsked cfg s nowMs venues
  placed : out.state.lastHlPlaceMs = s.lastHlPlaceMs
  position : out.state.hlPositionBase = s.hlPositionBase
  cancelled : out.state.lastHlCancelMs = s.lastHlCancelMs
  active : out.state.activeHlOid = s.activeHlOid
  sent : out.state.speculativeHedgeSent = s.speculativeHedgeSent
  unwind : ∀ snapshot, out.state.cancelUnwindRequest cfg snapshot =
    s.cancelUnwindRequest cfg snapshot

theorem executeDeferred_unrun (hdef : DeferredMaker s)
    (hruns : deferredRuns cfg s nowMs venues = false) :
    Unrun cfg s nowMs venues
      (executeDeferredHlAction cfg venues s nowMs (collectSnapshot cfg venues)) := by
  unfold executeDeferredHlAction
  cases hslot : s.deferredHlAction with
  | none => exact ⟨rfl, rfl, by simp [strategyAsked, hslot], rfl, rfl, rfl, rfl, rfl, fun _ => rfl⟩
  | some action =>
    simp only
    split_ifs with hdue
    · rcases hdef action hslot with ⟨reason, order, rfl⟩ | ⟨reason, order, rfl⟩
      · have hblocks : s.takeDeferred.limitBlocks cfg (collectSnapshot cfg venues).hl.mid
            order.isBuy = s.limitBlocks cfg (collectSnapshot cfg venues).hl.mid order.isBuy := rfl
        rw [takeDeferred] at hblocks
        simp only [executeAction, executePlaceHlMaker, hblocks]
        by_cases hblock : s.limitBlocks cfg (collectSnapshot cfg venues).hl.mid order.isBuy = true
        · rw [if_pos hblock]
          exact ⟨rfl, rfl, by simp [strategyAsked, hslot, hdue, hblock, resetStrategy], rfl, rfl,
            rfl, rfl, rfl, fun _ => rfl⟩
        · rw [if_neg hblock]
          have hlimited : (s.hlPlaceRetryAtMs cfg venues.clock.retrySteadyMs).isNone = false := by
            simpa [deferredRuns, hdue, hslot, hblock] using hruns
          obtain ⟨retryAt, hretry⟩ :=
            Option.isSome_iff_exists.mp (Option.isNone_eq_false_iff.mp hlimited)
          have hretry' : s.takeDeferred.hlPlaceRetryAtMs cfg venues.clock.retrySteadyMs =
              some retryAt := hretry
          rw [takeDeferred] at hretry'
          rw [hretry']
          exact ⟨rfl, rfl, by simp [strategyAsked, hslot, hblock], rfl, rfl, rfl, rfl, rfl,
            fun _ => rfl⟩
      · have hlimited : (s.hlCancelRetryAtMs cfg venues.clock.retrySteadyMs).isNone = false := by
          simpa [deferredRuns, hdue, hslot] using hruns
        obtain ⟨retryAt, hretry⟩ :=
          Option.isSome_iff_exists.mp (Option.isNone_eq_false_iff.mp hlimited)
        have hretry' : s.takeDeferred.hlCancelRetryAtMs cfg venues.clock.retrySteadyMs =
            some retryAt := hretry
        rw [takeDeferred] at hretry'
        simp only [executeAction, executeCancelHlMaker, hretry']
        exact ⟨rfl, rfl, by simp [strategyAsked, hslot], rfl, rfl, rfl, rfl, rfl, fun _ => rfl⟩
    · refine ⟨rfl, rfl, ?_, rfl, rfl, rfl, rfl, rfl, fun _ => rfl⟩
      unfold strategyAsked
      cases hslot' : s.deferredHlAction with
      | none => rfl
      | some action => cases action <;> simp [hdue]

/-- A deferred action that runs leaves a log line and sends its order, if it is a placement. -/
theorem executeDeferred_of_runs (hdef : DeferredMaker s)
    (hruns : deferredRuns cfg s nowMs venues = true) :
    (executeDeferredHlAction cfg venues s nowMs (collectSnapshot cfg venues)).events ≠ [] ∧
      (.placeLimit request ack ∈
          (executeDeferredHlAction cfg venues s nowMs (collectSnapshot cfg venues)).calls ↔
        ∃ order, (∃ reason, s.deferredHlAction = some (.placeHlMaker reason order)) ∧
          request = limitRequest cfg order ∧ ack = venues.hl.placeLimitOrder request) := by
  rw [deferredRuns, Bool.and_eq_true] at hruns
  obtain ⟨hdue, hfree⟩ := hruns
  unfold executeDeferredHlAction
  cases hslot : s.deferredHlAction with
  | none =>
    rw [hslot] at hfree
    cases hfree
  | some action =>
    simp only [if_pos hdue]
    rcases hdef action hslot with ⟨reason, order, rfl⟩ | ⟨reason, order, rfl⟩
    · simp only [hslot, Bool.and_eq_true, Bool.not_eq_true', Option.isNone_iff_eq_none] at hfree
      have hblock : s.takeDeferred.limitBlocks cfg (collectSnapshot cfg venues).hl.mid
          order.isBuy = false := hfree.1
      have hretry : s.takeDeferred.hlPlaceRetryAtMs cfg venues.clock.retrySteadyMs = none :=
        hfree.2
      rw [takeDeferred] at hblock hretry
      simp only [executeAction]
      refine ⟨?_, ?_⟩
      · simp only [executePlaceHlMaker, hblock, hretry, Bool.false_eq_true, if_false]
        split_ifs <;> exact List.cons_ne_nil _ _
      · rw [executePlace_mem_iff]
        constructor
        · rintro ⟨-, -, hsent⟩
          exact ⟨order, ⟨reason, rfl⟩, hsent⟩
        · rintro ⟨_, ⟨_, hsame⟩, hsent⟩
          cases hsame
          exact ⟨hblock, hretry, hsent⟩
    · simp only [hslot, Option.isNone_iff_eq_none] at hfree
      have hretry : s.takeDeferred.hlCancelRetryAtMs cfg venues.clock.retrySteadyMs = none := hfree
      rw [takeDeferred] at hretry
      simp only [executeAction]
      refine ⟨?_, iff_of_false executeCancel_no_placement ?_⟩
      · simp only [executeCancelHlMaker, hretry]
        cases s.activeHlOid with
        | none => exact List.cons_ne_nil _ _
        | some oid =>
          simp only
          split_ifs <;> exact List.cons_ne_nil _ _
      · rintro ⟨_, ⟨_, hsame⟩, -⟩
        cases hsame

theorem runStrategy_mem_iff {snapshot : SpreadSnapshot} :
    .placeLimit request ack ∈ (runStrategy cfg venues s nowMs snapshot).calls ↔
      ∃ order, (s.hlPlaceRetryAtMs cfg venues.clock.steadyMs = none ∧
        s.limitBlocks cfg snapshot.hl.mid order.isBuy = false ∧
        ∃ reason, (HlMakerLighterHedger.onMarketSnapshot cfg.strategy s.strategy snapshot nowMs
          s.hlPositionBase).2 = .placeHlMaker reason order) ∧
        request = limitRequest cfg order ∧ ack = venues.hl.placeLimitOrder request := by
  have hd := HlMakerLighterHedger.onMarketSnapshot_decided cfg.strategy s.strategy snapshot nowMs
    s.hlPositionBase
  unfold runStrategy
  generalize HlMakerLighterHedger.onMarketSnapshot cfg.strategy s.strategy snapshot nowMs
    s.hlPositionBase = r at hd ⊢
  obtain ⟨h, action⟩ := r
  cases hd with
  | quiet => simp [executeAction]
  | place reason _ _ _ _ act =>
    simp only at act
    subst act
    simp only [HlMakerLighterHedger.leg]
    -- the limit is checked here and again by the placement
    split_ifs with hblock
    · have hblocks : s.limitBlocks cfg snapshot.hl.mid _ = true := hblock
      refine iff_of_false (List.not_mem_nil) ?_
      rintro ⟨_, ⟨-, hadmits, _, hsame⟩, -⟩
      cases hsame
      rw [hblocks] at hadmits
      cases hadmits
    · simp only [executeAction, executePlace_mem_iff]
      constructor
      · rintro ⟨hadmits, hfree, hsent⟩
        exact ⟨_, ⟨hfree, hadmits, reason, rfl⟩, hsent⟩
      · rintro ⟨_, ⟨hfree, hadmits, _, hsame⟩, hsent⟩
        cases hsame
        exact ⟨hadmits, hfree, hsent⟩
  | cancel reason _ _ _ _ _ _ _ act =>
    simp only at act
    subst act
    refine iff_of_false executeCancel_no_placement ?_
    rintro ⟨_, ⟨_, _, _, hsame⟩, -⟩
    cases hsame

/-- The placements of a tick. -/
theorem placeLimit_mem_iff (hdef : DeferredMaker s) :
    .placeLimit request ack ∈ (onMarketData cfg venues s nowMs).calls ↔
      ∃ order, Sends cfg s nowMs venues order ∧ request = limitRequest cfg order ∧
        ack = venues.hl.placeLimitOrder request := by
  simp only [onMarketData]
  cases hruns : deferredRuns cfg s nowMs venues with
  | true =>
    obtain ⟨hevents, hcalls⟩ :=
      @executeDeferred_of_runs cfg s nowMs venues request ack hdef hruns
    rw [if_neg (by simpa using hevents), hcalls]
    simp [Sends, SendsDeferred, SendsDecided, hruns]
  | false =>
    have hunrun := executeDeferred_unrun hdef hruns
    have hlimiter : ∀ t, (executeDeferredHlAction cfg venues s nowMs
        (collectSnapshot cfg venues)).state.hlPlaceRetryAtMs cfg t = s.hlPlaceRetryAtMs cfg t := by
      intro t
      rw [hlPlaceRetryAtMs, hlPlaceRetryAtMs, hunrun.placed]
    have hlimit : ∀ isBuy, (executeDeferredHlAction cfg venues s nowMs
        (collectSnapshot cfg venues)).state.limitBlocks cfg (collectSnapshot cfg venues).hl.mid
          isBuy = s.limitBlocks cfg (collectSnapshot cfg venues).hl.mid isBuy := by
      intro isBuy
      simp only [limitBlocks, positionLimitReached, hunrun.position]
    rw [if_pos (by rw [hunrun.events]; rfl), hunrun.calls, List.nil_append, runStrategy_mem_iff]
    simp [Sends, SendsDeferred, SendsDecided, hruns, hunrun.strategy, hunrun.position, hlimiter,
      hlimit]

/-- A tick places an order exactly when it has one to send. -/
theorem tick_places_iff (hdef : DeferredMaker s) :
    (step cfg s (.tick nowMs venues)).2.any (·.isPlacement) = true ↔
      ∃ order, Sends cfg s nowMs venues order := by
  rw [List.any_eq_true]
  constructor
  · rintro ⟨o, ho, hplaces⟩
    cases o with
    | placeLimit request ack =>
      obtain ⟨order, hsends, -⟩ := (placeLimit_mem_iff hdef).mp ho
      exact ⟨order, hsends⟩
    | _ => cases hplaces
  · rintro ⟨order, hsends⟩
    exact ⟨_, (placeLimit_mem_iff hdef).mpr ⟨order, hsends, rfl, rfl⟩, rfl⟩

theorem executePlace_one {steadyMs : Int} {reason : String} {snapshot : SpreadSnapshot} :
    (executePlaceHlMaker cfg venues steadyMs s reason order snapshot).calls = [] ∨
      ∃ request ack, (executePlaceHlMaker cfg venues steadyMs s reason order snapshot).calls =
        [.placeLimit request ack] := by
  unfold executePlaceHlMaker
  split_ifs
  · exact .inl rfl
  · cases s.hlPlaceRetryAtMs cfg steadyMs with
    | some retryAt => exact .inl rfl
    | none =>
      simp only
      split_ifs <;> exact .inr ⟨_, _, rfl⟩

theorem executeCancel_eq {steadyMs : Int} {reason : String} {snapshot : SpreadSnapshot} :
    (executeCancelHlMaker cfg venues steadyMs s reason order snapshot).calls =
      cancelRequests cfg venues s snapshot
        (if (s.hlCancelRetryAtMs cfg steadyMs).isNone then s.activeHlOid else none) := by
  unfold executeCancelHlMaker
  cases s.hlCancelRetryAtMs cfg steadyMs with
  | some retryAt => rfl
  | none =>
    cases s.activeHlOid with
    | none => rfl
    | some oid =>
      simp only [cancelRequests, Option.isNone_none, if_true]
      split_ifs with hack hsent hboth hboth hboth
      · rfl
      · exact absurd ⟨hack, hsent⟩ hboth
      · exact absurd hboth.2 hsent
      · rfl
      · exact absurd hboth.1 hack
      · rfl

theorem cancelRequests_congr {b : MakerHedgeEngine} {snapshot : SpreadSnapshot}
    (hsent : b.speculativeHedgeSent = s.speculativeHedgeSent)
    (hunwind : b.cancelUnwindRequest cfg snapshot = s.cancelUnwindRequest cfg snapshot)
    (oid : Option String) :
    cancelRequests cfg venues b snapshot oid = cancelRequests cfg venues s snapshot oid := by
  cases oid with
  | none => rfl
  | some oid => simp only [cancelRequests, hsent, hunwind]

theorem executeDeferred_calls (hdef : DeferredMaker s)
    (hruns : deferredRuns cfg s nowMs venues = true) :
    CancelsOrPlaces cfg s nowMs venues
      (executeDeferredHlAction cfg venues s nowMs (collectSnapshot cfg venues)).calls := by
  have hready := hruns
  rw [deferredRuns, Bool.and_eq_true] at hready
  obtain ⟨hdue, hfree⟩ := hready
  unfold executeDeferredHlAction
  cases hslot : s.deferredHlAction with
  | none =>
    rw [hslot] at hfree
    cases hfree
  | some action =>
    simp only [if_pos hdue]
    rcases hdef action hslot with ⟨reason, order, rfl⟩ | ⟨reason, order, rfl⟩
    · exact .inr ⟨by simp [cancelSent, hruns, hslot, cancelsHl], executePlace_one⟩
    · simp only [hslot] at hfree
      have hsent : cancelSent cfg s nowMs venues = s.activeHlOid := by
        simp [cancelSent, hruns, hslot, cancelsHl]
      have hretry : s.takeDeferred.hlCancelRetryAtMs cfg venues.clock.retrySteadyMs = none :=
        Option.isNone_iff_eq_none.mp hfree
      left
      change (executeCancelHlMaker cfg venues _ s.takeDeferred reason order _).calls = _
      rw [hsent, executeCancel_eq, hretry]
      rfl

theorem runStrategy_calls {b : MakerHedgeEngine} {snapshot : SpreadSnapshot} {action : Action}
    (haction : (HlMakerLighterHedger.onMarketSnapshot cfg.strategy b.strategy snapshot nowMs
      b.hlPositionBase).2 = action) :
    if cancelsHl action then (runStrategy cfg venues b nowMs snapshot).calls =
        cancelRequests cfg venues b snapshot
          (if (b.hlCancelRetryAtMs cfg venues.clock.steadyMs).isNone then b.activeHlOid else none)
    else (runStrategy cfg venues b nowMs snapshot).calls = [] ∨
      ∃ request ack, (runStrategy cfg venues b nowMs snapshot).calls =
        [.placeLimit request ack] := by
  have hd := HlMakerLighterHedger.onMarketSnapshot_decided cfg.strategy b.strategy snapshot nowMs
    b.hlPositionBase
  unfold runStrategy
  generalize HlMakerLighterHedger.onMarketSnapshot cfg.strategy b.strategy snapshot nowMs
    b.hlPositionBase = r at hd haction ⊢
  obtain ⟨h, action'⟩ := r
  obtain rfl : action' = action := haction
  cases hd with
  | quiet => exact .inl rfl
  | place reason _ _ _ _ act =>
    simp only at act
    subst act
    simp only [HlMakerLighterHedger.leg, cancelsHl, Bool.false_eq_true, if_false]
    split_ifs
    · exact .inl rfl
    · exact executePlace_one
  | cancel reason _ _ _ _ _ _ _ act =>
    simp only at act
    subst act
    exact executeCancel_eq

theorem onMarketData_calls (hdef : DeferredMaker s) :
    CancelsOrPlaces cfg s nowMs venues (onMarketData cfg venues s nowMs).calls := by
  simp only [onMarketData]
  cases hruns : deferredRuns cfg s nowMs venues with
  | true =>
    have hevents := (@executeDeferred_of_runs cfg s nowMs venues {} {} hdef hruns).1
    rw [if_neg (by simpa using hevents)]
    exact executeDeferred_calls hdef hruns
  | false =>
    have hunrun := executeDeferred_unrun hdef hruns
    rw [if_pos (by rw [hunrun.events]; rfl), hunrun.calls, List.nil_append]
    generalize executeDeferredHlAction cfg venues s nowMs (collectSnapshot cfg venues) = r
      at hunrun ⊢
    have hcalls := @runStrategy_calls cfg nowMs venues r.state (collectSnapshot cfg venues) _ rfl
    have haction : HlMakerLighterHedger.onMarketSnapshot cfg.strategy r.state.strategy
        (collectSnapshot cfg venues) nowMs r.state.hlPositionBase =
          HlMakerLighterHedger.onMarketSnapshot cfg.strategy (strategyAsked cfg s nowMs venues)
            (collectSnapshot cfg venues) nowMs s.hlPositionBase := by
      rw [hunrun.strategy, hunrun.position]
    simp only [CancelsOrPlaces, cancelSent, hruns, Bool.false_eq_true, if_false, ← haction]
    cases hcancels : cancelsHl (HlMakerLighterHedger.onMarketSnapshot cfg.strategy
      r.state.strategy (collectSnapshot cfg venues) nowMs r.state.hlPositionBase).2 with
    | true =>
      left
      rw [hcancels, if_pos rfl] at hcalls
      rw [hcalls, cancelRequests_congr hunrun.sent (hunrun.unwind _), hunrun.active, Bool.and_true]
      simp only [hlCancelRetryAtMs, hunrun.cancelled]
      rfl
    | false =>
      rw [hcancels] at hcalls
      exact .inr ⟨by rw [Bool.and_false]; rfl, hcalls⟩

end Ticks

/-- A trade places no order. -/
theorem trade_places_nothing {cfg : EngineConfig} {s : MakerHedgeEngine} (trade : TradeEvent)
    (venues : Venues) : (step cfg s (.trade trade venues)).2.any (·.isPlacement) = false := by
  simp only [step, onTradeEvent]
  split
  · split_ifs
    · rfl
    · rfl
    · simp only [sendSpeculative]
      split_ifs <;> rfl
    · rfl
    · rfl
  · rfl

/-- Nor does a fill. -/
theorem fillMove_places_nothing {cfg : EngineConfig} {s s' : MakerHedgeEngine} {oid : String}
    {size : ℚ} {l : List MakerObs} (hm : FillMove cfg s oid size l s') :
    l.any (·.isPlacement) = false := by
  cases hm <;> rfl

end Maker

end Arb
