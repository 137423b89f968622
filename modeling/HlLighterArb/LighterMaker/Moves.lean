import HlLighterArb.Core
import HlLighterArb.Lib.Machine
import HlLighterArb.LighterMaker.Engine

/-!
# HlLighterArb.LighterMaker.Moves

The Lighter-maker engine as a machine over the calls of its owner, and what one call can do to it:
the counterpart of `Maker.Moves`, with the same names in the namespace `LighterMaker`.

* `Move`, `FillMove`: the branches of a tick and of a fill.
* `onMarketData_move`, `onLighterFill_fillMove`: every call takes one of them.
* `step_preserves`: what the moves keep, a call keeps.
* `Move.core`, `FillMove.core`: the engine refines `MakerCore`.
-/

namespace Arb

inductive LighterMakerEvent where
  | tick (nowMs : Int) (venues : Venues)
  | fill (fillPrice fillSizeBase : ℚ) (snapshot : SpreadSnapshot) (orderIndex : Int)
      (venues : Venues)

/-- The event is a fill message of `size` for `orderIndex`. -/
def LighterMakerEvent.Delivers (e : LighterMakerEvent) (orderIndex : Int) (size : ℚ) : Prop :=
  match e with
  | .fill _ sz _ i _ => i = orderIndex ∧ sz = size
  | _ => False

namespace LighterMakerTakerEngine

def start (journalAttached : Bool) : LighterMakerTakerEngine :=
  { journalAttached }

def step (cfg : EngineConfig) (s : LighterMakerTakerEngine) :
    LighterMakerEvent → LighterMakerTakerEngine × List LighterMakerObs
  | .tick nowMs venues =>
    ((onMarketData cfg venues s nowMs).state, (onMarketData cfg venues s nowMs).calls)
  | .fill fillPrice fillSizeBase snapshot orderIndex venues =>
    ((onLighterFill cfg venues s fillPrice fillSizeBase snapshot orderIndex).state,
      .fill orderIndex fillSizeBase (s.activeLighterOrderIndex = some orderIndex) ::
        (onLighterFill cfg venues s fillPrice fillSizeBase snapshot orderIndex).calls)

def machine (cfg : EngineConfig) :
    EventMachine LighterMakerTakerEngine LighterMakerEvent LighterMakerObs where
  step := step cfg

/-- The engine with the deferred action taken out of its slot. -/
def takeDeferred (s : LighterMakerTakerEngine) : LighterMakerTakerEngine :=
  { s with deferredLighterAction := none, nextRetrySteadyMs := none }

/-- The HL taker order that hedges a fill of an order in `direction`. -/
def hedgeRequest (cfg : EngineConfig) (snapshot : SpreadSnapshot) (direction : Direction)
    (size : ℚ) : HlIocOrderRequest :=
  { coin := cfg.hlCoin, isBuy := direction = .shortLighterLongHl
    price := aggressiveHlPrice snapshot direction, size, dryRun := cfg.dryRun }

end LighterMakerTakerEngine

open LighterMakerTakerEngine

namespace LighterMaker

inductive PlaceFrom (s : LighterMakerTakerEngine) (order : PendingMakerOrder) :
    LighterMakerTakerEngine → Prop where
  | deferred {reason : String}
      (slot : s.deferredLighterAction = some (.placeLighterMaker reason order)) :
      PlaceFrom s order s.takeDeferred
  | decided {h : Hedger} (idle : s.strategy.state = .idle) (state : h.state = .pendingLighterMaker)
      (pending : h.pendingMaker = some order) (side : order.isBuy = !order.direction.isBuyHl) :
      PlaceFrom s order { s with strategy := h }

inductive CancelFrom (s : LighterMakerTakerEngine) (order : PendingMakerOrder) :
    LighterMakerTakerEngine → Prop where
  | deferred {reason : String}
      (slot : s.deferredLighterAction = some (.cancelLighterMaker reason order)) :
      CancelFrom s order s.takeDeferred
  | decided {h : Hedger} (wasPending : s.strategy.state = .pendingLighterMaker)
      (wasOrder : s.strategy.pendingMaker = some order)
      (state : h.state = .cancelledPendingLighterConfirm) (pending : h.pendingMaker = some order) :
      CancelFrom s order { s with strategy := h }

/-- What one branch of a tick does. -/
inductive Move (cfg : EngineConfig) (s : LighterMakerTakerEngine) :
    List LighterMakerObs → LighterMakerTakerEngine → Prop where
  | quiet {h : Hedger} (state : h.state = s.strategy.state)
      (pending : h.pendingMaker = s.strategy.pendingMaker)
      (gate : s.strategy.state = .idle → h.gate.armed = true → s.strategy.gate.armed = true) :
      Move cfg s [] { s with strategy := h }
  | placeDeferred {order : PendingMakerOrder} {b : LighterMakerTakerEngine}
      (origin : PlaceFrom s order b) (reason : String) (retryAt : Int) :
      Move cfg s [] { b with
        deferredLighterAction := some (.placeLighterMaker reason order)
        nextRetrySteadyMs := some retryAt }
  | placeAcked {order : PendingMakerOrder} {b : LighterMakerTakerEngine}
      (origin : PlaceFrom s order b) {ack : LighterLimitOrderAck}
      (acked : ack.ok ∧ ack.restingConfirmed) (steadyMs : Int) :
      Move cfg s [.placeLimit (limitRequest cfg order) ack]
        { b with
          lastLighterPlaceMs := steadyMs, nextRetrySteadyMs := none, deferredLighterAction := none
          activeLighterOrderIndex := some ack.orderIndex
          activeLighterClientOrderIndex := some ack.clientOrderIndex
          lastMakerDirection := order.direction }
  | placeNacked {order : PendingMakerOrder} {b : LighterMakerTakerEngine}
      (origin : PlaceFrom s order b) {ack : LighterLimitOrderAck}
      (nacked : ¬ (ack.ok ∧ ack.restingConfirmed)) (steadyMs : Int) :
      Move cfg s [.placeLimit (limitRequest cfg order) ack]
        { b with
          lastLighterPlaceMs := steadyMs, nextRetrySteadyMs := none, deferredLighterAction := none }
  | cancelDeferred {order : PendingMakerOrder} {b : LighterMakerTakerEngine}
      (origin : CancelFrom s order b) (reason : String) (retryAt : Int) :
      Move cfg s [] { b with
        deferredLighterAction := some (.cancelLighterMaker reason order)
        nextRetrySteadyMs := some retryAt }
  | cancelIdle {order : PendingMakerOrder} {b : LighterMakerTakerEngine}
      (origin : CancelFrom s order b) (inactive : s.activeLighterOrderIndex = none)
      (steadyMs : Int) :
      Move cfg s [] { b with
        lastLighterCancelMs := steadyMs, nextRetrySteadyMs := none, deferredLighterAction := none }
  | cancelAcked {order : PendingMakerOrder} {b : LighterMakerTakerEngine}
      (origin : CancelFrom s order b) {orderIndex : Int}
      (active : s.activeLighterOrderIndex = some orderIndex) {ack : LighterCancelAck}
      (acked : ack.ok = true) (steadyMs : Int) :
      Move cfg s [.cancel orderIndex ack]
        { b with
          lastLighterCancelMs := steadyMs, nextRetrySteadyMs := none
          deferredLighterAction := none }.closeOrder
  | cancelNacked {order : PendingMakerOrder} {b : LighterMakerTakerEngine}
      (origin : CancelFrom s order b) {orderIndex : Int}
      (active : s.activeLighterOrderIndex = some orderIndex) {ack : LighterCancelAck}
      (nacked : ack.ok = false) (steadyMs : Int) :
      Move cfg s [.cancel orderIndex ack] { b with
        lastLighterCancelMs := steadyMs, nextRetrySteadyMs := none, deferredLighterAction := none }

/-- What a fill message of `size` for `orderIndex` does. -/
inductive FillMove (cfg : EngineConfig) (s : LighterMakerTakerEngine) (orderIndex : Int) (size : ℚ) :
    List LighterMakerObs → LighterMakerTakerEngine → Prop where
  | ignored (inactive : s.activeLighterOrderIndex ≠ some orderIndex) :
      FillMove cfg s orderIndex size [.fill orderIndex size false] s
  | unheld (active : s.activeLighterOrderIndex = some orderIndex)
      (none_pending : s.strategy.pendingMaker = none) :
      FillMove cfg s orderIndex size [.fill orderIndex size true] s
  | hedged (active : s.activeLighterOrderIndex = some orderIndex) {order : PendingMakerOrder}
      (pending : s.strategy.pendingMaker = some order) (snapshot : SpreadSnapshot)
      {ack : HlIocOrderAck} (filled : ack.ok ∧ 0 < ack.filledSize) :
      FillMove cfg s orderIndex size
        [.fill orderIndex size true, .hlIoc (hedgeRequest cfg snapshot order.direction size) ack]
        s.closeOrder
  | unwound (active : s.activeLighterOrderIndex = some orderIndex) {order : PendingMakerOrder}
      (pending : s.strategy.pendingMaker = some order) (snapshot : SpreadSnapshot)
      {ack : HlIocOrderAck} (failed : ¬ (ack.ok ∧ 0 < ack.filledSize)) (unwindAck : LighterIocAck) :
      FillMove cfg s orderIndex size
        [.fill orderIndex size true, .hlIoc (hedgeRequest cfg snapshot order.direction size) ack,
          .ioc .makerUnwind (unwindRequest cfg snapshot
            (s.lastMakerDirection = .longLighterShortHl) size) unwindAck]
        s.closeOrder

/-- A sequence of moves that call no exchange. -/
inductive QuietMoves (cfg : EngineConfig) :
    LighterMakerTakerEngine → LighterMakerTakerEngine → Prop where
  | refl {s : LighterMakerTakerEngine} : QuietMoves cfg s s
  | single {s s' : LighterMakerTakerEngine} : Move cfg s [] s' → QuietMoves cfg s s'

/-- Only a placement or a cancel is ever deferred. -/
def DeferredMaker (s : LighterMakerTakerEngine) : Prop :=
  ∀ a, s.deferredLighterAction = some a →
    (∃ reason order, a = .placeLighterMaker reason order) ∨
      ∃ reason order, a = .cancelLighterMaker reason order

theorem DeferredMaker.of_none {s : LighterMakerTakerEngine} (h : s.deferredLighterAction = none) :
    DeferredMaker s := by
  intro a ha
  rw [h] at ha
  cases ha

/-! ## Every call is one of the moves -/

section Steps

variable {cfg : EngineConfig} {s s' b : LighterMakerTakerEngine} {order : PendingMakerOrder}

theorem CancelFrom.active_eq (h : CancelFrom s order b) :
    b.activeLighterOrderIndex = s.activeLighterOrderIndex := by
  cases h <;> rfl

theorem executePlace_move (venues : Venues) (steadyMs : Int) (reason : String)
    (h : PlaceFrom s order b) :
    Move cfg s (executePlaceLighterMaker cfg venues steadyMs b reason order).calls
      (executePlaceLighterMaker cfg venues steadyMs b reason order).state := by
  unfold executePlaceLighterMaker
  cases b.lighterPlaceRetryAtMs cfg steadyMs with
  | some retryAt => exact .placeDeferred h reason retryAt
  | none =>
    simp only
    split_ifs with hack
    · exact .placeAcked h hack steadyMs
    · exact .placeNacked h hack steadyMs

theorem executePlace_quiet (venues : Venues) (steadyMs : Int) (reason : String)
    (h : (executePlaceLighterMaker cfg venues steadyMs s reason order).events = []) :
    (executePlaceLighterMaker cfg venues steadyMs s reason order).calls = [] := by
  unfold executePlaceLighterMaker at h ⊢
  cases hr : s.lighterPlaceRetryAtMs cfg steadyMs with
  | some retryAt => rfl
  | none =>
    simp only [hr] at h
    split_ifs at h

theorem executeCancel_move (venues : Venues) (steadyMs : Int) (reason : String)
    (h : CancelFrom s order b) :
    Move cfg s (executeCancelLighterMaker cfg venues steadyMs b reason order).calls
      (executeCancelLighterMaker cfg venues steadyMs b reason order).state := by
  unfold executeCancelLighterMaker
  cases b.lighterCancelRetryAtMs cfg steadyMs with
  | some retryAt => exact .cancelDeferred h reason retryAt
  | none =>
    cases ha : b.activeLighterOrderIndex with
    | none => simpa [ha] using Move.cancelIdle h (h.active_eq ▸ ha) steadyMs
    | some orderIndex =>
      have hactive : s.activeLighterOrderIndex = some orderIndex := h.active_eq ▸ ha
      simp only
      split_ifs with hack
      · simpa [ha] using Move.cancelAcked h hactive hack steadyMs
      · have hnack := @Move.cancelNacked cfg s _ _ h _ hactive _ (by simpa using hack) steadyMs
        simpa [ha] using hnack

theorem executeCancel_quiet (venues : Venues) (steadyMs : Int) (reason : String)
    (h : (executeCancelLighterMaker cfg venues steadyMs s reason order).events = []) :
    (executeCancelLighterMaker cfg venues steadyMs s reason order).calls = [] := by
  unfold executeCancelLighterMaker at h ⊢
  cases hr : s.lighterCancelRetryAtMs cfg steadyMs with
  | some retryAt => rfl
  | none =>
    simp only [hr] at h
    cases ha : s.activeLighterOrderIndex with
    | none => simp only [ha] at h; cases h
    | some orderIndex => simp only [ha] at h; cases h

theorem executeDeferred_move (hdef : DeferredMaker s) (nowMs : Int) (venues : Venues)
    (snapshot : SpreadSnapshot) :
    executeDeferredLighterAction cfg venues s nowMs snapshot = { state := s } ∨
      Move cfg s (executeDeferredLighterAction cfg venues s nowMs snapshot).calls
        (executeDeferredLighterAction cfg venues s nowMs snapshot).state ∧
      ((executeDeferredLighterAction cfg venues s nowMs snapshot).events = [] →
        (executeDeferredLighterAction cfg venues s nowMs snapshot).calls = []) := by
  unfold executeDeferredLighterAction
  cases hslot : s.deferredLighterAction with
  | none => exact .inl rfl
  | some action =>
    simp only
    split_ifs with hdue
    · right
      rcases hdef action hslot with ⟨reason, order, rfl⟩ | ⟨reason, order, rfl⟩
      · exact ⟨executePlace_move venues _ reason (.deferred hslot),
          executePlace_quiet venues _ reason⟩
      · exact ⟨executeCancel_move venues _ reason (.deferred hslot),
          executeCancel_quiet venues _ reason⟩
    · exact .inl rfl

theorem runStrategy_move (nowMs : Int) (venues : Venues) (snapshot : SpreadSnapshot) :
    Move cfg s (runStrategy cfg venues s nowMs snapshot).calls
      (runStrategy cfg venues s nowMs snapshot).state := by
  have hd := LighterMakerHlHedger.onMarketSnapshot_decided cfg.strategy s.strategy snapshot nowMs
  unfold runStrategy
  generalize LighterMakerHlHedger.onMarketSnapshot cfg.strategy s.strategy snapshot nowMs = r at hd ⊢
  obtain ⟨h, action⟩ := r
  cases hd with
  | quiet state pending _ gate => exact .quiet state pending gate
  | place reason idle state pending _ act =>
    simp only at act state pending
    subst act
    exact executePlace_move venues _ reason (.decided idle state pending
      (LighterMakerHlHedger.buildMakerOrder_isBuy cfg.strategy snapshot h.gate))
  | cancel reason wasPending wasOrder state pending _ disarmed _ act =>
    simp only at act state pending
    subst act
    exact executeCancel_move venues _ reason (.decided wasPending wasOrder state pending)

/-- A tick is one move, after at most one that calls no exchange. -/
theorem onMarketData_move (hdef : DeferredMaker s) (nowMs : Int) (venues : Venues) :
    ∃ s₁, QuietMoves cfg s s₁ ∧ Move cfg s₁ (onMarketData cfg venues s nowMs).calls
      (onMarketData cfg venues s nowMs).state := by
  have hfirst := @executeDeferred_move cfg s hdef nowMs venues (collectSnapshot cfg venues)
  simp only [onMarketData]
  generalize executeDeferredLighterAction cfg venues s nowMs (collectSnapshot cfg venues) = r
    at hfirst ⊢
  split_ifs with hquiet
  · refine ⟨r.state, ?_⟩
    have hevents : r.events = [] := List.isEmpty_iff.mp hquiet
    rcases hfirst with rfl | ⟨hmove, hcalls⟩
    · exact ⟨.refl, runStrategy_move nowMs venues _⟩
    · rw [hcalls hevents] at hmove ⊢
      exact ⟨.single hmove, runStrategy_move nowMs venues _⟩
  · rcases hfirst with rfl | ⟨hmove, -⟩
    · exact absurd rfl hquiet
    · exact ⟨s, .refl, hmove⟩

/-- The two ways an HL taker hedge ends; both close the order. -/
theorem executeSendHlTakerHedge_cases (venues : Venues) (intent : HlHedgeIntent)
    (snapshot : SpreadSnapshot) :
    (executeSendHlTakerHedge cfg venues s intent snapshot).state = s.closeOrder ∧
      ∃ ack : HlIocOrderAck,
        (ack.ok ∧ 0 < ack.filledSize) ∧
          (executeSendHlTakerHedge cfg venues s intent snapshot).calls =
            [.hlIoc { coin := cfg.hlCoin, isBuy := intent.isBuy, price := intent.limitPrice,
                      size := intent.sizeBase, dryRun := cfg.dryRun } ack] ∨
        ¬ (ack.ok ∧ 0 < ack.filledSize) ∧ ∃ unwindAck,
          (executeSendHlTakerHedge cfg venues s intent snapshot).calls =
            [.hlIoc { coin := cfg.hlCoin, isBuy := intent.isBuy, price := intent.limitPrice,
                      size := intent.sizeBase, dryRun := cfg.dryRun } ack,
              .ioc .makerUnwind (unwindRequest cfg snapshot
                (s.lastMakerDirection = .longLighterShortHl) intent.sizeBase) unwindAck] := by
  simp only [executeSendHlTakerHedge]
  by_cases hfilled : (venues.hl.placeIocOrder
      { coin := cfg.hlCoin, isBuy := intent.isBuy, price := intent.limitPrice,
        size := intent.sizeBase, dryRun := cfg.dryRun }).ok ∧
      0 < (venues.hl.placeIocOrder
        { coin := cfg.hlCoin, isBuy := intent.isBuy, price := intent.limitPrice,
          size := intent.sizeBase, dryRun := cfg.dryRun }).filledSize
  · rw [if_pos hfilled]
    refine ⟨?_, _, .inl ⟨hfilled, rfl⟩⟩
    simp only [closeOrder, LighterMakerHlHedger.onHlHedgeFill]
    cases s.strategy.openPosition <;> rfl
  · rw [if_neg hfilled]
    exact ⟨rfl, _, .inr ⟨hfilled, _, rfl⟩⟩

theorem onLighterFill_fillMove (fillPrice size : ℚ) (snapshot : SpreadSnapshot) (orderIndex : Int)
    (venues : Venues) :
    FillMove cfg s orderIndex size
      (.fill orderIndex size (s.activeLighterOrderIndex = some orderIndex) ::
        (onLighterFill cfg venues s fillPrice size snapshot orderIndex).calls)
      (onLighterFill cfg venues s fillPrice size snapshot orderIndex).state := by
  unfold onLighterFill
  by_cases hactive : s.activeLighterOrderIndex = some orderIndex
  · rw [if_pos hactive, decide_eq_true hactive]
    cases hpending : s.strategy.pendingMaker with
    | none =>
      simp only [LighterMakerHlHedger.onLighterMakerFill, hpending]
      exact .unheld hactive hpending
    | some order =>
      simp only [LighterMakerHlHedger.onLighterMakerFill, hpending, executeAction]
      obtain ⟨hstate, ack, ⟨hfilled, hcalls⟩ | ⟨hfailed, unwindAck, hcalls⟩⟩ :=
        executeSendHlTakerHedge_cases venues _ snapshot
      · rw [hstate, hcalls]
        exact .hedged hactive hpending snapshot hfilled
      · rw [hstate, hcalls]
        exact .unwound hactive hpending snapshot hfailed unwindAck
  · rw [if_neg hactive, decide_eq_false hactive]
    exact .ignored hactive

/-! ## The engine refines the core -/

end Steps

end LighterMaker

def LighterMakerTakerEngine.core (s : LighterMakerTakerEngine) : MakerCore where
  strategy := s.strategy
  active := s.activeLighterOrderIndex.isSome
  waiting := match s.deferredLighterAction with
    | some (.placeLighterMaker _ _) => .place
    | some (.cancelLighterMaker _ _) => .cancel
    | _ => .nothing

def LighterMakerObs.isPlacement : LighterMakerObs → Bool
  | .placeLimit _ _ => true
  | _ => false

namespace LighterMaker

section Core

variable {cfg : EngineConfig} {s s' b : LighterMakerTakerEngine} {order : PendingMakerOrder}
  {l : List LighterMakerObs}

theorem PlaceFrom.core (h : PlaceFrom s order b) :
    s.core.Places LighterMakerHlHedger.leg b.core := by
  cases h with
  | deferred slot => exact .deferred (by simp [LighterMakerTakerEngine.core, slot])
  | decided idle state pending => exact .decided idle state (by rw [pending]; rfl)

theorem CancelFrom.core (h : CancelFrom s order b) :
    s.core.Cancels LighterMakerHlHedger.leg b.core := by
  cases h with
  | deferred slot => exact .deferred (by simp [LighterMakerTakerEngine.core, slot])
  | decided wasPending _ state pending => exact .decided wasPending state (by rw [pending]; rfl)

theorem Move.core (hm : Move cfg s l s') :
    CoreMove LighterMakerHlHedger.leg s.core (l.any (·.isPlacement)) s'.core := by
  cases hm with
  | quiet state pending gate => exact .quiet state pending gate
  | placeDeferred origin => exact .placeDeferred origin.core
  | placeAcked origin => exact .placeAcked origin.core
  | placeNacked origin => exact .placeNacked origin.core
  | cancelDeferred origin => exact .cancelDeferred origin.core
  | cancelIdle origin inactive =>
    exact .cancelIdle origin.core (by simp [LighterMakerTakerEngine.core, inactive])
  | cancelAcked origin active =>
    exact .cancelAcked origin.core (by simp [LighterMakerTakerEngine.core, active])
  | cancelNacked origin active =>
    exact .cancelNacked origin.core (by simp [LighterMakerTakerEngine.core, active])

theorem FillMove.core {orderIndex : Int} {size : ℚ} (hm : FillMove cfg s orderIndex size l s') :
    CoreFill s.core s'.core := by
  cases hm with
  | ignored => exact .ignored
  | unheld => exact .ignored
  | hedged => exact .closed
  | unwound => exact .closed

theorem FillMove.sends_no_placement {orderIndex : Int} {size : ℚ}
    (hm : FillMove cfg s orderIndex size l s') : l.any (·.isPlacement) = false := by
  cases hm <;> rfl

theorem PlaceFrom.active_eq (hp : PlaceFrom s order b) :
    b.activeLighterOrderIndex = s.activeLighterOrderIndex := by
  cases hp <;> rfl

/-- A move that calls no exchange leaves the order as it is. -/
theorem Move.active_of_quiet (hm : Move cfg s l s') (h : l = []) :
    s'.activeLighterOrderIndex = s.activeLighterOrderIndex := by
  cases hm with
  | placeDeferred origin => exact origin.active_eq
  | cancelDeferred origin => exact origin.active_eq
  | cancelIdle origin => exact origin.active_eq
  | quiet => rfl
  | _ => cases h

/-- A property that every move and every fill move of the call keeps, the call keeps. -/
theorem step_preserves {I : List LighterMakerObs → LighterMakerTakerEngine → Prop}
    {past : List LighterMakerObs} (hdef : DeferredMaker s) (e : LighterMakerEvent)
    (hmove : ∀ past s l s', I past s → Move cfg s l s' → I (past ++ l) s')
    (hfill : ∀ orderIndex size l s', e.Delivers orderIndex size →
      FillMove cfg s orderIndex size l s' → I (past ++ l) s')
    (h : I past s) : I (past ++ (step cfg s e).2) (step cfg s e).1 := by
  cases e with
  | tick nowMs venues =>
    obtain ⟨s₁, hquiet, hlast⟩ := @onMarketData_move cfg s hdef nowMs venues
    refine hmove past s₁ _ _ ?_ hlast
    cases hquiet with
    | refl => exact h
    | single hfirst =>
      have hnext := hmove past s _ _ h hfirst
      rwa [List.append_nil] at hnext
  | fill fillPrice size snapshot orderIndex venues =>
    exact hfill orderIndex size _ _ ⟨rfl, rfl⟩
      (onLighterFill_fillMove fillPrice size snapshot orderIndex venues)

theorem Move.deferredMaker (hm : Move cfg s l s') (h : DeferredMaker s) : DeferredMaker s' := by
  cases hm with
  | quiet => exact h
  | placeDeferred _ reason _ =>
    intro a ha
    cases ha
    exact .inl ⟨reason, _, rfl⟩
  | cancelDeferred _ reason _ =>
    intro a ha
    cases ha
    exact .inr ⟨reason, _, rfl⟩
  | _ => exact .of_none rfl

theorem FillMove.deferredMaker {orderIndex : Int} {size : ℚ}
    (hm : FillMove cfg s orderIndex size l s') (h : DeferredMaker s) : DeferredMaker s' := by
  cases hm <;> exact h

end Core

end LighterMaker

end Arb
