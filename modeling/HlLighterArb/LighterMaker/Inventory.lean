import HlLighterArb.LighterMaker.Fills
import HlLighterArb.LighterMaker.Placements
import HlLighterArb.Progress

/-!
# HlLighterArb.LighterMaker.Inventory

The Lighter position that the fills of `LighterMakerTakerEngine` build up. The engine declares
`lighter_position_base_` and is configured with the same `max_position_usd` as the other engine, but
never counts a fill and never reads the limit: which side it places on is up to the market alone.

* `inventory`: what the fills of the placed orders and the unwinds sum up to.
* `WithinCap`: an order sent at the limit does not grow the inventory.
* `withinCap_iff`: a run keeps within the cap exactly when, at the limit, no deferred placement that
  grows the inventory comes due and no spread in that direction makes the strategy enter.
-/

namespace Arb

open LighterMakerTakerEngine

namespace LighterMaker

/-- The side of each order placed, and the net base quantity bought on Lighter. -/
structure Inventory where
  isAsk : Int → Option Bool := fun _ => none
  base : ℚ := 0

def Inventory.next (v : Inventory) : LighterMakerObs → Inventory
  | .placeLimit request ack =>
    if ack.ok ∧ ack.restingConfirmed then
      { v with isAsk := fun i => if i = ack.orderIndex then some request.isAsk else v.isAsk i }
    else v
  | .fill orderIndex size _ =>
    match v.isAsk orderIndex with
    | some isAsk => { v with base := v.base + if isAsk then -size else size }
    | none => v
  | .ioc _ request ack =>
    { v with base := v.base + if request.isAsk then -ack.executed else ack.executed }
  | .cancel _ _ => v
  | .hlIoc _ _ => v

def inventory (l : List LighterMakerObs) : Inventory :=
  l.foldl Inventory.next {}

/-- At a Lighter mid of `mid` the inventory is worth the limit. -/
def AtCap (cfg : EngineConfig) (base mid : ℚ) : Prop :=
  cfg.strategy.maxPositionUsd ≤ |base| * mid

/-- An order on side `isAsk` takes the inventory away from zero. -/
def Grows (base : ℚ) (isAsk : Bool) : Prop :=
  if isAsk then base ≤ 0 else 0 ≤ base

/-- The Lighter mid during an event. -/
def lighterMid (cfg : EngineConfig) : LighterMakerEvent → ℚ
  | .tick _ venues => (collectSnapshot cfg venues).lighter.mid
  | .fill _ _ snapshot _ _ => snapshot.lighter.mid

/-- No order sent in this call grows an inventory at the limit. -/
def WithinCap (cfg : EngineConfig) (past : List LighterMakerObs) (s : LighterMakerTakerEngine)
    (e : LighterMakerEvent) : Prop :=
  ∀ request ack, .placeLimit request ack ∈ (step cfg s e).2 →
    ¬ (AtCap cfg (inventory past).base (lighterMid cfg e) ∧
      Grows (inventory past).base request.isAsk)

/-- The strategy is idle, its cooldown over, the limiter free, no deferred action runs first, and
the spread is at the entry or beyond. -/
structure Enters (cfg : EngineConfig) (s : LighterMakerTakerEngine) (nowMs : Int)
    (venues : Venues) : Prop where
  first : deferredRuns cfg s nowMs venues = false
  free : s.lighterPlaceRetryAtMs cfg venues.clock.steadyMs = none
  idle : s.strategy.state = .idle
  valid : (collectSnapshot cfg venues).valid cfg.strategy.maxQuoteAgeMs = true
  wide : cfg.strategy.spreadBps ≤ |(collectSnapshot cfg venues).crossSpreadBps|
  rearm : s.strategy.canArm cfg.strategy nowMs = true

/-- At the limit, neither a deferred placement nor the spread is on the side that grows the
inventory. -/
def Untempted (cfg : EngineConfig) (past : List LighterMakerObs) (s : LighterMakerTakerEngine) :
    LighterMakerEvent → Prop
  | .tick nowMs venues =>
    AtCap cfg (inventory past).base (collectSnapshot cfg venues).lighter.mid →
      (∀ order, SendsDeferred cfg s nowMs venues order →
        ¬ Grows (inventory past).base (!order.isBuy)) ∧
      (Enters cfg s nowMs venues → ¬ Grows (inventory past).base
        (directionForSpread (collectSnapshot cfg venues).crossSpreadBps).isBuyHl)
  | .fill _ _ _ _ _ => True

section Calls

variable {cfg : EngineConfig} {s : LighterMakerTakerEngine} {past : List LighterMakerObs}

theorem sendsDecided_iff (unarmed : s.strategy.state = .idle → s.strategy.gate.armed = false)
    {nowMs : Int} {venues : Venues} :
    (∃ order, SendsDecided cfg s nowMs venues order) ↔ Enters cfg s nowMs venues := by
  constructor
  · rintro ⟨order, hfirst, hfree, hdecides⟩
    obtain ⟨hidle, hvalid, hwide, hrearm, -⟩ := (decides_iff unarmed).mp hdecides
    exact ⟨hfirst, hfree, hidle, hvalid, hwide, hrearm⟩
  · intro h
    exact ⟨_, h.first, h.free,
      (decides_iff unarmed).mpr ⟨h.idle, h.valid, h.wide, h.rearm, rfl⟩⟩

/-- The order the strategy decides on sells on Lighter when HL is to be bought. -/
theorem SendsDecided.isBuy {order : PendingMakerOrder} {nowMs : Int} {venues : Venues}
    (unarmed : s.strategy.state = .idle → s.strategy.gate.armed = false)
    (h : SendsDecided cfg s nowMs venues order) :
    (!order.isBuy) = (directionForSpread (collectSnapshot cfg venues).crossSpreadBps).isBuyHl := by
  obtain ⟨-, -, hdecides⟩ := h
  obtain ⟨-, -, -, -, rfl⟩ := (decides_iff unarmed).mp hdecides
  rw [LighterMakerHlHedger.buildMakerOrder_isBuy, Bool.not_not]
  rfl

theorem fill_no_placement (fillPrice size : ℚ) (snapshot : SpreadSnapshot) (orderIndex : Int)
    (venues : Venues) (request : LighterLimitOrderRequest) (ack : LighterLimitOrderAck) :
    .placeLimit request ack ∉ (step cfg s (.fill fillPrice size snapshot orderIndex venues)).2 := by
  have hfill := @onLighterFill_fillMove cfg s fillPrice size snapshot orderIndex venues
  simp only [step]
  generalize LighterMakerObs.fill orderIndex size _ :: _ = l at hfill ⊢
  generalize (onLighterFill cfg venues s fillPrice size snapshot orderIndex).state = s' at hfill
  cases hfill <;> simp

theorem withinCap_step (hdef : DeferredMaker s)
    (unarmed : s.strategy.state = .idle → s.strategy.gate.armed = false) (e : LighterMakerEvent) :
    WithinCap cfg past s e ↔ Untempted cfg past s e := by
  cases e with
  | fill => exact iff_of_true (fun _ _ hm => absurd hm (fill_no_placement _ _ _ _ _ _ _)) trivial
  | tick nowMs venues =>
    have hsent : WithinCap cfg past s (.tick nowMs venues) ↔
        ∀ order, Sends cfg s nowMs venues order →
          ¬ (AtCap cfg (inventory past).base (collectSnapshot cfg venues).lighter.mid ∧
            Grows (inventory past).base (!order.isBuy)) := by
      constructor
      · intro h order hsends
        exact h _ _ ((placeLimit_mem_iff hdef).mpr ⟨order, hsends, rfl, rfl⟩)
      · intro h request ack hm
        obtain ⟨order, hsends, rfl, -⟩ := (placeLimit_mem_iff hdef).mp hm
        exact h order hsends
    rw [hsent]
    constructor
    · intro h hcap
      refine ⟨fun order hdeferred hgrows => h order (.inl hdeferred) ⟨hcap, hgrows⟩, ?_⟩
      intro henters hgrows
      obtain ⟨order, hdecided⟩ := (sendsDecided_iff unarmed).mpr henters
      rw [← hdecided.isBuy unarmed] at hgrows
      exact h order (.inr hdecided) ⟨hcap, hgrows⟩
    · rintro h order (hdeferred | hdecided) ⟨hcap, hgrows⟩
      · exact (h hcap).1 order hdeferred hgrows
      · have henters := (sendsDecided_iff unarmed).mp ⟨order, hdecided⟩
        rw [hdecided.isBuy unarmed] at hgrows
        exact (h hcap).2 henters hgrows

end Calls

/-- A run keeps within the cap exactly when the market never calls, at the limit, for an order that
grows the inventory. -/
theorem withinCap_iff (cfg : EngineConfig) (journalAttached : Bool) (es : List LighterMakerEvent) :
    (machine cfg).Throughout (start journalAttached) (WithinCap cfg) es ↔
      (machine cfg).Throughout (start journalAttached) (Untempted cfg) es :=
  (LighterMakerTakerEngine.reachable_inv cfg journalAttached es).throughout_congr
    fun _ _ e h => withinCap_step h.1 h.2.unarmed e

/-- The observation is an order that sells. -/
def sells : LighterMakerObs → Bool
  | .placeLimit request _ => request.isAsk
  | _ => false

/-- The sale of order 1 fills for 1 at a Lighter mid of 110, past the limit of 100 dollars; half a
second later the same spread makes the engine sell again. -/
theorem sells_past_cap :
    ¬ (machine sampleConfig).Throughout (start false) (WithinCap sampleConfig)
      [tickUp 1000, fillOf 1 1, tickUp 2000] := by
  intro h
  have hsells : ((step sampleConfig ((machine sampleConfig).final (start false)
      [tickUp 1000, fillOf 1 1]) (tickUp 2000)).2.any sells) = true := by decide +kernel
  have hcap : (inventory ((machine sampleConfig).obs (start false) [tickUp 1000, fillOf 1 1])).base =
      -1 := by decide +kernel
  have hmid : lighterMid sampleConfig (tickUp 2000) = 110 := by decide +kernel
  obtain ⟨o, hm, hask⟩ := List.any_eq_true.mp hsells
  cases o with
  | placeLimit request ack =>
    have hside : request.isAsk = true := hask
    refine h [tickUp 1000, fillOf 1 1] (tickUp 2000) (List.prefix_refl _) request ack hm ?_
    rw [hcap, hmid]
    refine ⟨by norm_num [AtCap, sampleConfig], ?_⟩
    simp only [Grows, hside, if_true]
    norm_num
  | _ => cases hask

end LighterMaker

end Arb
