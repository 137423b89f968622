import HlLighterArb.Hysteresis
import HlLighterArb.LighterMaker.Moves

/-!
# HlLighterArb.LighterMaker.Placements

Which maker order a tick of `LighterMakerTakerEngine` sends, read off the state and the inputs of
the tick. A deferred action that runs ends the tick; otherwise the strategy is asked.

* `SendsDeferred`, `SendsDecided`: the tick sends this order, from the slot or as just decided.
* `placeLimit_mem_iff`: these are exactly the placements of a tick.
* `decides_iff`: the market that makes the strategy decide on an order.
-/

namespace Arb

open LighterMakerTakerEngine

namespace LighterMaker

/-- The deferred action is due and its limiter is free. -/
def deferredRuns (cfg : EngineConfig) (s : LighterMakerTakerEngine) (nowMs : Int)
    (venues : Venues) : Bool :=
  s.retryDue nowMs && match s.deferredLighterAction with
    | some (.placeLighterMaker _ _) =>
      (s.lighterPlaceRetryAtMs cfg venues.clock.retrySteadyMs).isNone
    | some (.cancelLighterMaker _ _) =>
      (s.lighterCancelRetryAtMs cfg venues.clock.retrySteadyMs).isNone
    | _ => false

/-- The tick sends the placement that waits in the slot. -/
def SendsDeferred (cfg : EngineConfig) (s : LighterMakerTakerEngine) (nowMs : Int)
    (venues : Venues) (order : PendingMakerOrder) : Prop :=
  deferredRuns cfg s nowMs venues = true ∧
    ∃ reason, s.deferredLighterAction = some (.placeLighterMaker reason order)

/-- The tick sends the order the strategy decides on. -/
def SendsDecided (cfg : EngineConfig) (s : LighterMakerTakerEngine) (nowMs : Int)
    (venues : Venues) (order : PendingMakerOrder) : Prop :=
  deferredRuns cfg s nowMs venues = false ∧
    s.lighterPlaceRetryAtMs cfg venues.clock.steadyMs = none ∧
    ∃ reason, (LighterMakerHlHedger.onMarketSnapshot cfg.strategy s.strategy
      (collectSnapshot cfg venues) nowMs).2 = .placeLighterMaker reason order

def Sends (cfg : EngineConfig) (s : LighterMakerTakerEngine) (nowMs : Int) (venues : Venues)
    (order : PendingMakerOrder) : Prop :=
  SendsDeferred cfg s nowMs venues order ∨ SendsDecided cfg s nowMs venues order

section Ticks

variable {cfg : EngineConfig} {s : LighterMakerTakerEngine} {order : PendingMakerOrder}
  {nowMs : Int} {venues : Venues} {request : LighterLimitOrderRequest} {ack : LighterLimitOrderAck}

/-- A tick sends one order at most. -/
theorem Sends.unique {x y : PendingMakerOrder} (hx : Sends cfg s nowMs venues x)
    (hy : Sends cfg s nowMs venues y) : x = y := by
  rcases hx with ⟨hruns, _, hslot⟩ | ⟨hruns, -, _, hdecided⟩ <;>
    rcases hy with ⟨hruns', _, hslot'⟩ | ⟨hruns', -, _, hdecided'⟩
  · rw [hslot] at hslot'
    cases hslot'
    rfl
  · rw [hruns] at hruns'
    cases hruns'
  · rw [hruns] at hruns'
    cases hruns'
  · rw [hdecided] at hdecided'
    cases hdecided'
    rfl

theorem executePlace_mem_iff {steadyMs : Int} {reason : String} :
    .placeLimit request ack ∈ (executePlaceLighterMaker cfg venues steadyMs s reason order).calls ↔
      s.lighterPlaceRetryAtMs cfg steadyMs = none ∧ request = limitRequest cfg order ∧
        ack = venues.lighter.placeLimitOrder request := by
  unfold executePlaceLighterMaker
  cases s.lighterPlaceRetryAtMs cfg steadyMs with
  | some retryAt => simp
  | none =>
    simp only
    split_ifs <;> simp <;> rintro rfl <;> rfl

theorem executeCancel_no_placement {steadyMs : Int} {reason : String} :
    .placeLimit request ack ∉
      (executeCancelLighterMaker cfg venues steadyMs s reason order).calls := by
  unfold executeCancelLighterMaker
  cases s.lighterCancelRetryAtMs cfg steadyMs with
  | some retryAt => simp
  | none =>
    cases s.activeLighterOrderIndex with
    | none => simp
    | some orderIndex => simp

/-- A deferred action that does not run leaves the strategy and the placement limiter alone. -/
theorem executeDeferred_of_not_runs (hdef : DeferredMaker s) (snapshot : SpreadSnapshot)
    (hruns : deferredRuns cfg s nowMs venues = false) :
    (executeDeferredLighterAction cfg venues s nowMs snapshot).events = [] ∧
      (executeDeferredLighterAction cfg venues s nowMs snapshot).calls = [] ∧
      (executeDeferredLighterAction cfg venues s nowMs snapshot).state.strategy = s.strategy ∧
      (executeDeferredLighterAction cfg venues s nowMs snapshot).state.lastLighterPlaceMs =
        s.lastLighterPlaceMs := by
  unfold executeDeferredLighterAction
  cases hslot : s.deferredLighterAction with
  | none => exact ⟨rfl, rfl, rfl, rfl⟩
  | some action =>
    simp only
    split_ifs with hdue
    · rcases hdef action hslot with ⟨reason, order, rfl⟩ | ⟨reason, order, rfl⟩
      · simp only [deferredRuns, hdue, hslot, Bool.true_and, Option.isNone_eq_false_iff] at hruns
        obtain ⟨retryAt, hretry⟩ := Option.isSome_iff_exists.mp hruns
        have hlimited : s.takeDeferred.lighterPlaceRetryAtMs cfg venues.clock.retrySteadyMs =
            some retryAt := hretry
        simp only [executeAction, executePlaceLighterMaker]
        rw [takeDeferred] at hlimited
        rw [hlimited]
        exact ⟨rfl, rfl, rfl, rfl⟩
      · simp only [deferredRuns, hdue, hslot, Bool.true_and, Option.isNone_eq_false_iff] at hruns
        obtain ⟨retryAt, hretry⟩ := Option.isSome_iff_exists.mp hruns
        have hlimited : s.takeDeferred.lighterCancelRetryAtMs cfg venues.clock.retrySteadyMs =
            some retryAt := hretry
        simp only [executeAction, executeCancelLighterMaker]
        rw [takeDeferred] at hlimited
        rw [hlimited]
        exact ⟨rfl, rfl, rfl, rfl⟩
    · exact ⟨rfl, rfl, rfl, rfl⟩

/-- A deferred action that runs leaves a log line and sends its order, if it is a placement. -/
theorem executeDeferred_of_runs (hdef : DeferredMaker s) (snapshot : SpreadSnapshot)
    (hruns : deferredRuns cfg s nowMs venues = true) :
    (executeDeferredLighterAction cfg venues s nowMs snapshot).events ≠ [] ∧
      (.placeLimit request ack ∈ (executeDeferredLighterAction cfg venues s nowMs snapshot).calls ↔
        ∃ order, (∃ reason, s.deferredLighterAction = some (.placeLighterMaker reason order)) ∧
          request = limitRequest cfg order ∧ ack = venues.lighter.placeLimitOrder request) := by
  rw [deferredRuns, Bool.and_eq_true] at hruns
  obtain ⟨hdue, hfree⟩ := hruns
  unfold executeDeferredLighterAction
  cases hslot : s.deferredLighterAction with
  | none =>
    rw [hslot] at hfree
    cases hfree
  | some action =>
    simp only [if_pos hdue]
    rcases hdef action hslot with ⟨reason, order, rfl⟩ | ⟨reason, order, rfl⟩
    · simp only [hslot, Option.isNone_iff_eq_none] at hfree
      have hfree' : s.takeDeferred.lighterPlaceRetryAtMs cfg venues.clock.retrySteadyMs = none :=
        hfree
      rw [takeDeferred] at hfree'
      simp only [executeAction]
      refine ⟨?_, ?_⟩
      · simp only [executePlaceLighterMaker, hfree']
        split_ifs <;> exact List.cons_ne_nil _ _
      · rw [executePlace_mem_iff]
        constructor
        · rintro ⟨-, hsent⟩
          exact ⟨order, ⟨reason, rfl⟩, hsent⟩
        · rintro ⟨_, ⟨_, hsame⟩, hsent⟩
          cases hsame
          exact ⟨hfree', hsent⟩
    · simp only [hslot, Option.isNone_iff_eq_none] at hfree
      have hfree' : s.takeDeferred.lighterCancelRetryAtMs cfg venues.clock.retrySteadyMs = none :=
        hfree
      rw [takeDeferred] at hfree'
      simp only [executeAction]
      refine ⟨?_, iff_of_false executeCancel_no_placement ?_⟩
      · simp only [executeCancelLighterMaker, hfree']
        cases s.activeLighterOrderIndex <;> exact List.cons_ne_nil _ _
      · rintro ⟨_, ⟨_, hsame⟩, -⟩
        cases hsame

theorem runStrategy_mem_iff {snapshot : SpreadSnapshot} :
    .placeLimit request ack ∈ (runStrategy cfg venues s nowMs snapshot).calls ↔
      ∃ order, (s.lighterPlaceRetryAtMs cfg venues.clock.steadyMs = none ∧
        ∃ reason, (LighterMakerHlHedger.onMarketSnapshot cfg.strategy s.strategy snapshot nowMs).2 =
          .placeLighterMaker reason order) ∧
        request = limitRequest cfg order ∧ ack = venues.lighter.placeLimitOrder request := by
  have hd := LighterMakerHlHedger.onMarketSnapshot_decided cfg.strategy s.strategy snapshot nowMs
  unfold runStrategy
  generalize LighterMakerHlHedger.onMarketSnapshot cfg.strategy s.strategy snapshot nowMs = r
    at hd ⊢
  obtain ⟨h, action⟩ := r
  cases hd with
  | quiet => simp [executeAction]
  | place reason _ _ _ _ act =>
    simp only at act
    subst act
    simp only [LighterMakerHlHedger.leg, executeAction, executePlace_mem_iff]
    constructor
    · rintro ⟨hfree, hsent⟩
      exact ⟨_, ⟨hfree, reason, rfl⟩, hsent⟩
    · rintro ⟨_, ⟨hfree, _, hsame⟩, hsent⟩
      cases hsame
      exact ⟨hfree, hsent⟩
  | cancel reason _ _ _ _ _ _ _ act =>
    simp only at act
    subst act
    refine iff_of_false executeCancel_no_placement ?_
    rintro ⟨_, ⟨_, _, hsame⟩, -⟩
    cases hsame

/-- The placements of a tick. -/
theorem placeLimit_mem_iff (hdef : DeferredMaker s) :
    .placeLimit request ack ∈ (onMarketData cfg venues s nowMs).calls ↔
      ∃ order, Sends cfg s nowMs venues order ∧ request = limitRequest cfg order ∧
        ack = venues.lighter.placeLimitOrder request := by
  simp only [onMarketData]
  cases hruns : deferredRuns cfg s nowMs venues with
  | true =>
    obtain ⟨hevents, hcalls⟩ := @executeDeferred_of_runs cfg s nowMs venues request ack hdef
      (collectSnapshot cfg venues) hruns
    rw [if_neg (by simpa using hevents), hcalls]
    simp [Sends, SendsDeferred, SendsDecided, hruns]
  | false =>
    obtain ⟨hevents, hcalls, hstrategy, hlast⟩ := @executeDeferred_of_not_runs cfg s nowMs venues
      hdef (collectSnapshot cfg venues) hruns
    have hlimiter : ∀ t, (executeDeferredLighterAction cfg venues s nowMs
        (collectSnapshot cfg venues)).state.lighterPlaceRetryAtMs cfg t =
          s.lighterPlaceRetryAtMs cfg t := by
      intro t
      rw [lighterPlaceRetryAtMs, lighterPlaceRetryAtMs, hlast]
    rw [if_pos (by rw [hevents]; rfl), hcalls, List.nil_append, runStrategy_mem_iff]
    simp [Sends, SendsDeferred, SendsDecided, hruns, hstrategy, hlimiter]

/-- The order of a market that makes the strategy enter: idle and unarmed, it sees a valid snapshot
at the entry spread or beyond, with the cooldown over. -/
theorem decides_iff (unarmed : s.strategy.state = .idle → s.strategy.gate.armed = false)
    {snapshot : SpreadSnapshot} :
    (∃ reason, (LighterMakerHlHedger.onMarketSnapshot cfg.strategy s.strategy snapshot nowMs).2 =
        .placeLighterMaker reason order) ↔
      s.strategy.state = .idle ∧ snapshot.valid cfg.strategy.maxQuoteAgeMs = true ∧
        cfg.strategy.spreadBps ≤ |snapshot.crossSpreadBps| ∧
        s.strategy.canArm cfg.strategy nowMs = true ∧
        order = LighterMakerHlHedger.buildMakerOrder cfg.strategy snapshot
          (armedGate snapshot.crossSpreadBps cfg.strategy.spreadBps) := by
  by_cases hidle : s.strategy.state = .idle
  · rw [LighterMakerHlHedger.onMarketSnapshot_eq,
      Hedger.onSnapshot_idle hidle (unarmed hidle)]
    split_ifs with henter
    · simp [LighterMakerHlHedger.leg, hidle, henter, eq_comm]
    · refine iff_of_false (by rintro ⟨_, hnone⟩; cases hnone) ?_
      rintro ⟨-, hvalid, hwide, harm, -⟩
      exact henter ⟨hvalid, hwide, harm⟩
  · have hd := LighterMakerHlHedger.onMarketSnapshot_decided cfg.strategy s.strategy snapshot nowMs
    generalize LighterMakerHlHedger.onMarketSnapshot cfg.strategy s.strategy snapshot nowMs = r
      at hd ⊢
    obtain ⟨h, action⟩ := r
    refine iff_of_false ?_ fun hall => hidle hall.1
    rintro ⟨reason, haction⟩
    cases hd with
    | quiet => cases haction
    | place _ idle => exact hidle idle
    | cancel _ _ _ _ _ _ _ _ act =>
      rw [haction] at act
      cases act

end Ticks

end LighterMaker

end Arb
