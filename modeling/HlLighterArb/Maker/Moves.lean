import HlLighterArb.Core
import HlLighterArb.Lib.Machine
import HlLighterArb.Maker.Engine

/-!
# HlLighterArb.Maker.Moves

The maker engine as a machine over the calls its owner makes (`MakerEvent`), and what one call can
do to it. A fill message is one `FillMove`; a tick or a trade is at most two `Move`s, since a tick
may retry the deferred action and then run the strategy. Each constructor is one branch of the
code, with its guard, what it observes and the state it leaves; the invariants of the engine are
proved over the moves.

* `PlaceFrom s order b`, `CancelFrom s order b`: from `s`, a placement (a cancel) of `order` is
  about to be executed in `b`, either the deferred action taken out of its slot or the action the
  strategy has just decided.
* `Move` is indexed by a predicate `ok` that every acknowledged placement satisfies in `b`.
* `step_preserves`: what the moves keep, a call keeps.
* `Move.core`, `FillMove.core`: the engine refines `MakerCore`.
-/

namespace Arb

inductive MakerEvent where
  | tick (nowMs : Int) (venues : Venues)
  | trade (trade : TradeEvent) (venues : Venues)
  | fill (fillPrice fillSizeBase : ℚ) (snapshot : SpreadSnapshot) (oid : String) (hlFee : ℚ)
      (venues : Venues)

/-- The event is a fill message of `size` for `oid`. -/
def MakerEvent.Delivers (e : MakerEvent) (oid : String) (size : ℚ) : Prop :=
  match e with
  | .fill _ sz _ o _ _ => o = oid ∧ sz = size
  | _ => False

namespace MakerHedgeEngine

/-- The engine as it starts: constructed, then synced to the HL position `p₀`. -/
def start (journalAttached : Bool) (p₀ : ℚ) : MakerHedgeEngine :=
  setHlPosition { journalAttached } p₀

def step (cfg : EngineConfig) (s : MakerHedgeEngine) : MakerEvent → MakerHedgeEngine × List MakerObs
  | .tick nowMs venues =>
    ((onMarketData cfg venues s nowMs).state, (onMarketData cfg venues s nowMs).calls)
  | .trade trade venues =>
    ((onTradeEvent cfg venues s trade).state, (onTradeEvent cfg venues s trade).calls)
  | .fill fillPrice fillSizeBase snapshot oid hlFee venues =>
    ((onHlFill cfg venues s fillPrice fillSizeBase snapshot oid hlFee).state,
      .fill oid fillSizeBase (s.fillPath oid fillSizeBase) ::
        (onHlFill cfg venues s fillPrice fillSizeBase snapshot oid hlFee).calls)

def machine (cfg : EngineConfig) : EventMachine MakerHedgeEngine MakerEvent MakerObs where
  step := step cfg

end MakerHedgeEngine

open MakerHedgeEngine

/-- The strategy still carries `order` as the order it has out. -/
def Hedger.holds (h : Hedger) (order : PendingMakerOrder) : Bool :=
  (h.state = .pendingHlMaker || h.state = .cancelledPendingConfirm) && h.pendingMaker = some order

theorem Hedger.holds_iff {h : Hedger} {order : PendingMakerOrder} :
    h.holds order = true ↔
      (h.state = .pendingHlMaker ∨ h.state = .cancelledPendingConfirm) ∧
        h.pendingMaker = some order := by
  simp [Hedger.holds]

/-- The engine with the deferred action taken out of its slot. -/
def MakerHedgeEngine.takeDeferred (s : MakerHedgeEngine) : MakerHedgeEngine :=
  { s with deferredHlAction := none, nextRetrySteadyMs := none }

inductive PlaceFrom (s : MakerHedgeEngine) (order : PendingMakerOrder) : MakerHedgeEngine → Prop where
  | deferred {reason : String} (slot : s.deferredHlAction = some (.placeHlMaker reason order)) :
      PlaceFrom s order s.takeDeferred
  | decided {h : Hedger} (idle : s.strategy.state = .idle) (state : h.state = .pendingHlMaker)
      (pending : h.pendingMaker = some order) (side : order.isBuy = order.direction.isBuyHl) :
      PlaceFrom s order { s with strategy := h }

inductive CancelFrom (s : MakerHedgeEngine) (order : PendingMakerOrder) : MakerHedgeEngine → Prop where
  | deferred {reason : String} (slot : s.deferredHlAction = some (.cancelHlMaker reason order)) :
      CancelFrom s order s.takeDeferred
  | decided {h : Hedger} (wasPending : s.strategy.state = .pendingHlMaker)
      (wasOrder : s.strategy.pendingMaker = some order) (state : h.state = .cancelledPendingConfirm)
      (pending : h.pendingMaker = some order) (disarmed : h.gate.armed = false) :
      CancelFrom s order { s with strategy := h }

/-- What one branch of a tick or a trade does. -/
inductive Move (cfg : EngineConfig) (ok : MakerHedgeEngine → PendingMakerOrder → Prop)
    (s : MakerHedgeEngine) : List MakerObs → MakerHedgeEngine → Prop where
  /-- The strategy only moves its gate. -/
  | quiet {h : Hedger} (state : h.state = s.strategy.state)
      (pending : h.pendingMaker = s.strategy.pendingMaker)
      (gate : s.strategy.state = .idle → h.gate.armed = true → s.strategy.gate.armed = true) :
      Move cfg ok s [] { s with strategy := h }
  | placeBlocked {order : PendingMakerOrder} {b : MakerHedgeEngine} (origin : PlaceFrom s order b) :
      Move cfg ok s [] b.resetStrategy
  | placeDeferred {order : PendingMakerOrder} {b : MakerHedgeEngine} (origin : PlaceFrom s order b)
      (reason : String) (retryAt : Int) :
      Move cfg ok s [] { b with
        deferredHlAction := some (.placeHlMaker reason order), nextRetrySteadyMs := some retryAt }
  | placeAcked {order : PendingMakerOrder} {b : MakerHedgeEngine} (origin : PlaceFrom s order b)
      (holds : ok b order) {ack : HlLimitOrderAck} (acked : ack.ok = true) (venues : Venues)
      (steadyMs : Int) :
      Move cfg ok s [.placeLimit (limitRequest cfg order) ack]
        ({ b with lastHlPlaceMs := steadyMs, nextRetrySteadyMs := none,
                  deferredHlAction := none }.acceptPlacement venues order ack.oid)
  | placeNacked {order : PendingMakerOrder} {b : MakerHedgeEngine} (origin : PlaceFrom s order b)
      {ack : HlLimitOrderAck} (nacked : ack.ok = false) (steadyMs : Int) :
      Move cfg ok s [.placeLimit (limitRequest cfg order) ack]
        { b with lastHlPlaceMs := steadyMs, nextRetrySteadyMs := none, deferredHlAction := none }
  | cancelDeferred {order : PendingMakerOrder} {b : MakerHedgeEngine} (origin : CancelFrom s order b)
      (reason : String) (retryAt : Int) :
      Move cfg ok s [] { b with
        deferredHlAction := some (.cancelHlMaker reason order), nextRetrySteadyMs := some retryAt }
  | cancelIdle {order : PendingMakerOrder} {b : MakerHedgeEngine} (origin : CancelFrom s order b)
      (inactive : s.activeHlOid = none) (steadyMs : Int) :
      Move cfg ok s []
        { b with lastHlCancelMs := steadyMs, nextRetrySteadyMs := none, deferredHlAction := none }
  | cancelAcked {order : PendingMakerOrder} {b : MakerHedgeEngine} (origin : CancelFrom s order b)
      {oid : String} (active : s.activeHlOid = some oid) {ack : HlCancelAck} (acked : ack.ok = true)
      (unwind : List MakerObs) (steadyMs : Int) (snapshot : SpreadSnapshot) (venues : Venues)
      (unwinds : unwind = if s.speculativeHedgeSent then
        [.ioc .cancelUnwind (s.cancelUnwindRequest cfg snapshot)
          (venues.lighter.placeIocOrder (s.cancelUnwindRequest cfg snapshot))] else []) :
      Move cfg ok s (.cancel oid ack :: unwind)
        { b.clearSpeculative with
          lastHlCancelMs := steadyMs, nextRetrySteadyMs := none, deferredHlAction := none
          activeHlOid := none, strategy := b.strategy.reset }
  | cancelNacked {order : PendingMakerOrder} {b : MakerHedgeEngine} (origin : CancelFrom s order b)
      {oid : String} (active : s.activeHlOid = some oid) {ack : HlCancelAck}
      (nacked : ack.ok = false) (steadyMs : Int) :
      Move cfg ok s [.cancel oid ack]
        { b with lastHlCancelMs := steadyMs, nextRetrySteadyMs := none, deferredHlAction := none }
  | tradeIgnored (skipCount : Nat) : Move cfg ok s [] { s with skipCount }
  | speculated {oid : String} {order : PendingMakerOrder} (active : s.activeHlOid = some oid)
      (pending : s.strategy.pendingMaker = some order) (unsent : s.speculativeHedgeSent = false)
      (snapshot : SpreadSnapshot) {ack : LighterIocAck} (filled : ack.ok ∧ ack.fillConfirmed) :
      Move cfg ok s
        [.ioc .speculative (iocRequest cfg snapshot order.direction.isBuyHl 15 order.sizeBase) ack]
        { s with speculativeHedgeSent := true, speculativeHedgeSize := order.sizeBase,
                 speculativeHedgeOid := oid }
  | speculationFailed {oid : String} {order : PendingMakerOrder} (active : s.activeHlOid = some oid)
      (pending : s.strategy.pendingMaker = some order) (unsent : s.speculativeHedgeSent = false)
      (snapshot : SpreadSnapshot) {ack : LighterIocAck} (failed : ¬ (ack.ok ∧ ack.fillConfirmed)) :
      Move cfg ok s
        [.ioc .speculative (iocRequest cfg snapshot order.direction.isBuyHl 15 order.sizeBase) ack]
        s.clearSpeculative

/-- What a fill message of `size` for `oid` does. -/
inductive FillMove (cfg : EngineConfig) (s : MakerHedgeEngine) (oid : String) (size : ℚ) :
    List MakerObs → MakerHedgeEngine → Prop where
  | unknown (path : s.fillPath oid size = .unknownOid) :
      FillMove cfg s oid size [.fill oid size .unknownOid] s
  | perfect (path : s.fillPath oid size = .perfectMatch) :
      FillMove cfg s oid size [.fill oid size .perfectMatch]
        ((s.applyHlFill size).closeReconciled oid)
  | correction (path : s.fillPath oid size = .correction) (snapshot : SpreadSnapshot)
      (ack : LighterIocAck) :
      FillMove cfg s oid size
        [.fill oid size .correction,
          .ioc .correction (iocRequest cfg snapshot s.lastMakerDirection.isBuyHl 10
            (size - s.speculativeHedgeSize)) ack]
        ((s.applyHlFill size).closeReconciled oid)
  | overshoot (path : s.fillPath oid size = .overshoot) (snapshot : SpreadSnapshot)
      (ack : LighterIocAck) :
      FillMove cfg s oid size
        [.fill oid size .overshoot,
          .ioc .overshootUnwind (iocRequest cfg snapshot (!s.lastMakerDirection.isBuyHl) 15
            (-(size - s.speculativeHedgeSize))) ack]
        (s.applyHlFill size).clearSpeculative
  | hedged (path : s.fillPath oid size = .hedge) (snapshot : SpreadSnapshot) {ack : LighterIocAck}
      (filled : ack.ok ∧ ack.fillConfirmed) :
      FillMove cfg s oid size
        [.fill oid size .hedge,
          .ioc .hedge (iocRequest cfg snapshot s.lastMakerDirection.isBuyHl 10 size) ack]
        (s.applyHlFill size).closeHedged
  | unwound (path : s.fillPath oid size = .hedge) (snapshot : SpreadSnapshot) {ack : LighterIocAck}
      (failed : ¬ (ack.ok ∧ ack.fillConfirmed)) (unwind : HlReduceAck) :
      FillMove cfg s oid size
        [.fill oid size .hedge,
          .ioc .hedge (iocRequest cfg snapshot s.lastMakerDirection.isBuyHl 10 size) ack,
          .reduce (!s.lastMakerDirection.isBuyHl) size unwind]
        s.closeHedged

/-- A sequence of moves, with everything they observe. -/
inductive Moves (cfg : EngineConfig) (ok : MakerHedgeEngine → PendingMakerOrder → Prop) :
    MakerHedgeEngine → List MakerObs → MakerHedgeEngine → Prop where
  | refl {s : MakerHedgeEngine} : Moves cfg ok s [] s
  | cons {s s' s'' : MakerHedgeEngine} {l l' : List MakerObs} :
      Move cfg ok s l s' → Moves cfg ok s' l' s'' → Moves cfg ok s (l ++ l') s''

theorem Moves.single {cfg : EngineConfig} {ok : MakerHedgeEngine → PendingMakerOrder → Prop}
    {s s' : MakerHedgeEngine} {l : List MakerObs} (h : Move cfg ok s l s') :
    Moves cfg ok s l s' := by
  simpa using Moves.cons h .refl

theorem Moves.trans {cfg : EngineConfig} {ok : MakerHedgeEngine → PendingMakerOrder → Prop}
    {s s' s'' : MakerHedgeEngine} {l l' : List MakerObs} (h : Moves cfg ok s l s')
    (h' : Moves cfg ok s' l' s'') : Moves cfg ok s (l ++ l') s'' := by
  induction h with
  | refl => exact h'
  | cons hm _ ih => rw [List.append_assoc]; exact .cons hm (ih h')

/-- What every move keeps, over everything observed so far, every sequence of moves keeps. -/
theorem Moves.preserves {cfg : EngineConfig} {ok : MakerHedgeEngine → PendingMakerOrder → Prop}
    {I : List MakerObs → MakerHedgeEngine → Prop}
    (hmove : ∀ past s l s', I past s → Move cfg ok s l s' → I (past ++ l) s')
    {s s' : MakerHedgeEngine} {l : List MakerObs} (h : Moves cfg ok s l s') :
    ∀ past, I past s → I (past ++ l) s' := by
  induction h with
  | refl => intro past hI; simpa using hI
  | cons hm _ ih =>
    intro past hI
    rw [← List.append_assoc]
    exact ih _ (hmove _ _ _ _ hI hm)

/-- Only a placement or a cancel is ever deferred. -/
def DeferredMaker (s : MakerHedgeEngine) : Prop :=
  ∀ a, s.deferredHlAction = some a →
    (∃ reason order, a = .placeHlMaker reason order) ∨ ∃ reason order, a = .cancelHlMaker reason order

/-! ## Every call is a sequence of moves -/

section Steps

variable {cfg : EngineConfig} {ok : MakerHedgeEngine → PendingMakerOrder → Prop}
  {s b : MakerHedgeEngine} {order : PendingMakerOrder}

theorem CancelFrom.active_eq (h : CancelFrom s order b) : b.activeHlOid = s.activeHlOid := by
  cases h <;> rfl

theorem executePlace_move (venues : Venues) (steadyMs : Int) (reason : String)
    (snapshot : SpreadSnapshot) (h : PlaceFrom s order b)
    (hok : b.limitBlocks cfg snapshot.hl.mid order.isBuy = false →
      b.hlPlaceRetryAtMs cfg steadyMs = none →
      (venues.hl.placeLimitOrder (limitRequest cfg order)).ok = true → ok b order) :
    Move cfg ok s (executePlaceHlMaker cfg venues steadyMs b reason order snapshot).calls
      (executePlaceHlMaker cfg venues steadyMs b reason order snapshot).state := by
  unfold executePlaceHlMaker
  split_ifs with hb
  · exact .placeBlocked h
  · cases hr : b.hlPlaceRetryAtMs cfg steadyMs with
    | some retryAt => exact .placeDeferred h reason retryAt
    | none =>
      simp only
      split_ifs with hack
      · exact .placeAcked h (hok (by simpa using hb) hr hack) hack venues steadyMs
      · exact .placeNacked h (by simpa using hack) steadyMs

theorem CancelFrom.unwind_eq (h : CancelFrom s order b) (cfg : EngineConfig)
    (snapshot : SpreadSnapshot) :
    b.cancelUnwindRequest cfg snapshot = s.cancelUnwindRequest cfg snapshot ∧
      b.speculativeHedgeSent = s.speculativeHedgeSent := by
  cases h <;> exact ⟨rfl, rfl⟩

theorem executeCancel_move (venues : Venues) (steadyMs : Int) (reason : String)
    (snapshot : SpreadSnapshot) (h : CancelFrom s order b) :
    Move cfg ok s (executeCancelHlMaker cfg venues steadyMs b reason order snapshot).calls
      (executeCancelHlMaker cfg venues steadyMs b reason order snapshot).state := by
  obtain ⟨hreq, hsent⟩ := h.unwind_eq cfg snapshot
  unfold executeCancelHlMaker
  cases b.hlCancelRetryAtMs cfg steadyMs with
  | some retryAt => exact .cancelDeferred h reason retryAt
  | none =>
    cases ha : b.activeHlOid with
    | none => simpa [ha] using Move.cancelIdle h (h.active_eq ▸ ha) steadyMs
    | some oid =>
      have hactive : s.activeHlOid = some oid := h.active_eq ▸ ha
      simp only
      split_ifs with hack hspec
      · refine .cancelAcked h hactive hack _ steadyMs snapshot venues ?_
        rw [if_pos (hsent ▸ hspec), ← hreq]
        rfl
      · refine .cancelAcked h hactive hack _ steadyMs snapshot venues ?_
        rw [if_neg (hsent ▸ hspec)]
      · have hnack := @Move.cancelNacked cfg ok s _ _ h _ hactive _ (by simpa using hack) steadyMs
        simpa [ha] using hnack

/-- The deferred action is a placement that this tick sends and the exchange acknowledges. -/
def deferredAcked (cfg : EngineConfig) (s : MakerHedgeEngine) (nowMs : Int) (venues : Venues) :
    Option PendingMakerOrder :=
  match s.deferredHlAction with
  | some (.placeHlMaker _ order) =>
    if s.retryDue nowMs ∧
        s.limitBlocks cfg (collectSnapshot cfg venues).hl.mid order.isBuy = false ∧
        s.hlPlaceRetryAtMs cfg venues.clock.retrySteadyMs = none ∧
        (venues.hl.placeLimitOrder (limitRequest cfg order)).ok then some order
    else none
  | _ => none

theorem executePlace_quiet (venues : Venues) (steadyMs : Int) (reason : String)
    (snapshot : SpreadSnapshot)
    (h : (executePlaceHlMaker cfg venues steadyMs s reason order snapshot).events = []) :
    (executePlaceHlMaker cfg venues steadyMs s reason order snapshot).calls = [] := by
  unfold executePlaceHlMaker at h ⊢
  split_ifs at h ⊢
  · rfl
  · cases hr : s.hlPlaceRetryAtMs cfg steadyMs with
    | some retryAt => rfl
    | none =>
      simp only [hr] at h
      split_ifs at h

theorem executeCancel_quiet (venues : Venues) (steadyMs : Int) (reason : String)
    (snapshot : SpreadSnapshot)
    (h : (executeCancelHlMaker cfg venues steadyMs s reason order snapshot).events = []) :
    (executeCancelHlMaker cfg venues steadyMs s reason order snapshot).calls = [] := by
  unfold executeCancelHlMaker at h ⊢
  cases hr : s.hlCancelRetryAtMs cfg steadyMs with
  | some retryAt => rfl
  | none =>
    simp only [hr] at h
    cases ha : s.activeHlOid with
    | none => simp only [ha] at h; cases h
    | some oid =>
      simp only [ha] at h
      split_ifs at h

/-- The deferred action is not retried, or its retry is one move, which calls no exchange unless it
leaves a log line. -/
theorem executeDeferred_move (hdef : DeferredMaker s) (nowMs : Int) (venues : Venues)
    (hok : ∀ order, deferredAcked cfg s nowMs venues = some order → ok s.takeDeferred order) :
    executeDeferredHlAction cfg venues s nowMs (collectSnapshot cfg venues) = { state := s } ∨
      Move cfg ok s (executeDeferredHlAction cfg venues s nowMs (collectSnapshot cfg venues)).calls
        (executeDeferredHlAction cfg venues s nowMs (collectSnapshot cfg venues)).state ∧
      ((executeDeferredHlAction cfg venues s nowMs (collectSnapshot cfg venues)).events = [] →
        (executeDeferredHlAction cfg venues s nowMs (collectSnapshot cfg venues)).calls = []) := by
  unfold executeDeferredHlAction
  cases hslot : s.deferredHlAction with
  | none => exact .inl rfl
  | some action =>
    simp only
    split_ifs with hdue
    · right
      rcases hdef action hslot with ⟨reason, order, rfl⟩ | ⟨reason, order, rfl⟩
      · refine ⟨executePlace_move venues _ reason _ (.deferred hslot) ?_,
          executePlace_quiet venues _ reason _⟩
        intro hblock hretry hack
        refine hok order ?_
        rw [deferredAcked, hslot]
        exact if_pos ⟨hdue, hblock, hretry, hack⟩
      · exact ⟨executeCancel_move venues _ reason _ (.deferred hslot),
          executeCancel_quiet venues _ reason _⟩
    · exact .inl rfl

theorem runStrategy_move (nowMs : Int) (venues : Venues) (snapshot : SpreadSnapshot)
    (hfresh : ∀ b order, b.limitBlocks cfg snapshot.hl.mid order.isBuy = false →
      b.strategy.holds order = true → ok b order) :
    Move cfg ok s (runStrategy cfg venues s nowMs snapshot).calls
      (runStrategy cfg venues s nowMs snapshot).state := by
  have hd := HlMakerLighterHedger.onMarketSnapshot_decided cfg.strategy s.strategy snapshot nowMs
    s.hlPositionBase
  unfold runStrategy
  generalize HlMakerLighterHedger.onMarketSnapshot cfg.strategy s.strategy snapshot nowMs
    s.hlPositionBase = r at hd ⊢
  obtain ⟨h, action⟩ := r
  cases hd with
  | quiet state pending _ gate => exact .quiet state pending gate
  | place reason idle state pending _ act =>
    simp only at act state pending
    subst act
    have horigin : PlaceFrom s _ _ := .decided idle state pending
      (HlMakerLighterHedger.buildMakerOrder_isBuy cfg.strategy snapshot h.gate)
    simp only [HlMakerLighterHedger.leg]
    split_ifs
    · exact .placeBlocked horigin
    · refine executePlace_move venues _ reason snapshot horigin fun hb _ _ => hfresh _ _ hb ?_
      exact Hedger.holds_iff.mpr ⟨.inl state, pending⟩
  | cancel reason wasPending wasOrder state pending _ disarmed _ act =>
    simp only at act state pending disarmed
    subst act
    exact executeCancel_move venues _ reason snapshot
      (.decided wasPending wasOrder state pending disarmed)

/-- A tick is one move, after moves that call no exchange. -/
theorem onMarketData_move (hdef : DeferredMaker s) (nowMs : Int) (venues : Venues)
    (hfresh : ∀ b order, b.limitBlocks cfg (collectSnapshot cfg venues).hl.mid order.isBuy = false →
      b.strategy.holds order = true → ok b order)
    (hok : ∀ order, deferredAcked cfg s nowMs venues = some order → ok s.takeDeferred order) :
    ∃ s₁, Moves cfg ok s [] s₁ ∧
      Move cfg ok s₁ (onMarketData cfg venues s nowMs).calls
        (onMarketData cfg venues s nowMs).state := by
  have hfirst := executeDeferred_move hdef nowMs venues hok
  simp only [onMarketData]
  generalize executeDeferredHlAction cfg venues s nowMs (collectSnapshot cfg venues) = r at hfirst ⊢
  split_ifs with hquiet
  · refine ⟨r.state, ?_⟩
    have hevents : r.events = [] := List.isEmpty_iff.mp hquiet
    rcases hfirst with rfl | ⟨hmove, hcalls⟩
    · exact ⟨.refl, runStrategy_move nowMs venues _ hfresh⟩
    · rw [hcalls hevents] at hmove ⊢
      exact ⟨.single hmove, runStrategy_move nowMs venues _ hfresh⟩
  · rcases hfirst with rfl | ⟨hmove, -⟩
    · exact absurd rfl hquiet
    · exact ⟨s, .refl, hmove⟩

/-- A trade does nothing, or one move. -/
theorem onTradeEvent_move (trade : TradeEvent) (venues : Venues) :
    onTradeEvent cfg venues s trade = { state := s } ∨
      Move cfg ok s (onTradeEvent cfg venues s trade).calls
        (onTradeEvent cfg venues s trade).state := by
  unfold onTradeEvent
  cases hactive : s.activeHlOid with
  | none => exact .inl rfl
  | some oid =>
    cases hpending : s.strategy.pendingMaker with
    | none => exact .inl rfl
    | some order =>
      simp only
      split_ifs with hsent
      · exact .inl rfl
      · exact .inl rfl
      · right
        unfold sendSpeculative
        simp only
        split_ifs with hfilled
        · exact .speculated hactive hpending (by simpa using hsent) _ hfilled
        · exact .speculationFailed hactive hpending (by simpa using hsent) _ hfilled
      · exact .inl rfl
      · exact .inr (.tradeIgnored _)

/-- The normal path, when its hedge is confirmed. -/
theorem hedgeFill_filled (fillPrice size : ℚ) (snapshot : SpreadSnapshot) (oid : String)
    (hlFee : ℚ) {venues : Venues} {ack : LighterIocAck}
    (hack : venues.lighter.placeIocOrder
      (iocRequest cfg snapshot s.lastMakerDirection.isBuyHl 10 size) = ack)
    (hfilled : ack.ok ∧ ack.fillConfirmed) :
    (hedgeFill cfg venues s fillPrice size snapshot oid hlFee).state =
        (s.applyHlFill size).closeHedged ∧
      (hedgeFill cfg venues s fillPrice size snapshot oid hlFee).calls =
        [.ioc .hedge (iocRequest cfg snapshot s.lastMakerDirection.isBuyHl 10 size) ack] := by
  subst hack
  simp only [hedgeFill]
  rw [if_pos hfilled]
  exact ⟨rfl, rfl⟩

/-- The normal path, when its hedge is not confirmed. -/
theorem hedgeFill_unfilled (fillPrice size : ℚ) (snapshot : SpreadSnapshot) (oid : String)
    (hlFee : ℚ) {venues : Venues} {ack : LighterIocAck}
    (hack : venues.lighter.placeIocOrder
      (iocRequest cfg snapshot s.lastMakerDirection.isBuyHl 10 size) = ack)
    (hfailed : ¬ (ack.ok ∧ ack.fillConfirmed)) :
    (hedgeFill cfg venues s fillPrice size snapshot oid hlFee).state = s.closeHedged ∧
      (hedgeFill cfg venues s fillPrice size snapshot oid hlFee).calls =
        [.ioc .hedge (iocRequest cfg snapshot s.lastMakerDirection.isBuyHl 10 size) ack,
          .reduce (!s.lastMakerDirection.isBuyHl) size (venues.hl.reducePosition cfg.hlCoin
            (!s.lastMakerDirection.isBuyHl) size cfg.dryRun)] := by
  subst hack
  simp only [hedgeFill]
  rw [if_neg hfailed]
  exact ⟨rfl, rfl⟩

theorem onHlFill_fillMove (fillPrice size : ℚ) (snapshot : SpreadSnapshot) (oid : String)
    (hlFee : ℚ) (venues : Venues) :
    FillMove cfg s oid size
      (.fill oid size (s.fillPath oid size) ::
        (onHlFill cfg venues s fillPrice size snapshot oid hlFee).calls)
      (onHlFill cfg venues s fillPrice size snapshot oid hlFee).state := by
  unfold onHlFill
  cases hpath : s.fillPath oid size with
  | unknownOid => exact .unknown hpath
  | perfectMatch => exact .perfect hpath
  | correction => exact .correction hpath snapshot _
  | overshoot => exact .overshoot hpath snapshot _
  | hedge =>
    simp only
    generalize hack : venues.lighter.placeIocOrder
      (iocRequest cfg snapshot s.lastMakerDirection.isBuyHl 10 size) = ack
    by_cases hfilled : ack.ok ∧ ack.fillConfirmed
    · obtain ⟨hstate, hcalls⟩ := hedgeFill_filled fillPrice size snapshot oid hlFee hack hfilled
      rw [hstate, hcalls]
      exact .hedged hpath snapshot hfilled
    · obtain ⟨hstate, hcalls⟩ := hedgeFill_unfilled fillPrice size snapshot oid hlFee hack hfilled
      rw [hstate, hcalls]
      exact .unwound hpath snapshot hfilled _

/-- A property that every move and every fill move of the call keeps, the call keeps. `ok` is asked
of the orders the strategy has just decided, which have passed the position limit, and of the
deferred placement a tick gets acknowledged. -/
theorem step_preserves {I : List MakerObs → MakerHedgeEngine → Prop} {past : List MakerObs}
    (hdef : DeferredMaker s) (e : MakerEvent)
    (hfresh : ∀ nowMs venues b order, e = .tick nowMs venues →
      b.limitBlocks cfg (collectSnapshot cfg venues).hl.mid order.isBuy = false →
      b.strategy.holds order = true → ok b order)
    (hok : ∀ nowMs venues order, e = .tick nowMs venues →
      deferredAcked cfg s nowMs venues = some order → ok s.takeDeferred order)
    (hmove : ∀ past s l s', I past s → Move cfg ok s l s' → I (past ++ l) s')
    (hfill : ∀ oid size l s', e.Delivers oid size → FillMove cfg s oid size l s' →
      I (past ++ l) s')
    (h : I past s) : I (past ++ (step cfg s e).2) (step cfg s e).1 := by
  cases e with
  | tick nowMs venues =>
    obtain ⟨s₁, hquiet, hlast⟩ :=
      onMarketData_move hdef nowMs venues (fun b order => hfresh nowMs venues b order rfl)
        fun order => hok nowMs venues order rfl
    exact (hquiet.trans (.single hlast)).preserves hmove past h
  | trade trade venues =>
    rcases @onTradeEvent_move cfg ok s trade venues with hidle | hlast
    · have hl : (step cfg s (.trade trade venues)).2 = [] := congrArg Outcome.calls hidle
      have hs : (step cfg s (.trade trade venues)).1 = s := congrArg Outcome.state hidle
      rw [hl, hs, List.append_nil]
      exact h
    · exact hmove past s _ _ h hlast
  | fill fillPrice size snapshot oid hlFee venues =>
    exact hfill oid size _ _ ⟨rfl, rfl⟩ (onHlFill_fillMove fillPrice size snapshot oid hlFee venues)

/-- `step_preserves` with nothing asked of the orders. -/
theorem step_keeps {I : List MakerObs → MakerHedgeEngine → Prop} {past : List MakerObs}
    (hdef : DeferredMaker s) (e : MakerEvent)
    (hmove : ∀ past s l s', I past s → Move cfg (fun _ _ => True) s l s' → I (past ++ l) s')
    (hfill : ∀ oid size l s', e.Delivers oid size → FillMove cfg s oid size l s' →
      I (past ++ l) s')
    (h : I past s) : I (past ++ (step cfg s e).2) (step cfg s e).1 :=
  step_preserves hdef e (fun _ _ _ _ _ _ _ => trivial) (fun _ _ _ _ _ => trivial) hmove hfill h

end Steps

theorem DeferredMaker.of_none {s : MakerHedgeEngine} (h : s.deferredHlAction = none) :
    DeferredMaker s := by
  intro a ha
  rw [h] at ha
  cases ha

theorem Move.deferredMaker {cfg : EngineConfig} {ok : MakerHedgeEngine → PendingMakerOrder → Prop}
    {s s' : MakerHedgeEngine} {l : List MakerObs} (hm : Move cfg ok s l s')
    (h : DeferredMaker s) : DeferredMaker s' := by
  have hfrom : ∀ {order b}, PlaceFrom s order b → DeferredMaker b := by
    intro order b hp
    cases hp with
    | deferred => exact .of_none rfl
    | decided => exact h
  cases hm with
  | placeBlocked origin => exact fun a ha => hfrom origin a ha
  | placeDeferred _ reason _ =>
    intro a ha
    cases ha
    exact .inl ⟨reason, _, rfl⟩
  | cancelDeferred _ reason _ =>
    intro a ha
    cases ha
    exact .inr ⟨reason, _, rfl⟩
  | placeAcked => exact .of_none rfl
  | placeNacked => exact .of_none rfl
  | cancelIdle => exact .of_none rfl
  | cancelAcked => exact .of_none rfl
  | cancelNacked => exact .of_none rfl
  | _ => exact h

theorem FillMove.deferredMaker {cfg : EngineConfig} {s s' : MakerHedgeEngine} {oid : String}
    {size : ℚ} {l : List MakerObs} (hm : FillMove cfg s oid size l s') (h : DeferredMaker s) :
    DeferredMaker s' := by
  cases hm <;> exact h

/-! ## The engine refines the core -/

def MakerHedgeEngine.core (s : MakerHedgeEngine) : MakerCore where
  strategy := s.strategy
  active := s.activeHlOid.isSome
  waiting := match s.deferredHlAction with
    | some (.placeHlMaker _ _) => .place
    | some (.cancelHlMaker _ _) => .cancel
    | _ => .nothing

def MakerObs.isPlacement : MakerObs → Bool
  | .placeLimit _ _ => true
  | _ => false

section Core

variable {cfg : EngineConfig} {ok : MakerHedgeEngine → PendingMakerOrder → Prop}
  {s s' b : MakerHedgeEngine} {order : PendingMakerOrder} {l : List MakerObs}

theorem PlaceFrom.core (h : PlaceFrom s order b) :
    s.core.Places HlMakerLighterHedger.leg b.core := by
  cases h with
  | deferred slot => exact .deferred (by simp [MakerHedgeEngine.core, slot])
  | decided idle state pending => exact .decided idle state (by rw [pending]; rfl)

theorem CancelFrom.core (h : CancelFrom s order b) :
    s.core.Cancels HlMakerLighterHedger.leg b.core := by
  cases h with
  | deferred slot => exact .deferred (by simp [MakerHedgeEngine.core, slot])
  | decided wasPending _ state pending => exact .decided wasPending state (by rw [pending]; rfl)

theorem Move.core (hm : Move cfg ok s l s') :
    CoreMove HlMakerLighterHedger.leg s.core (l.any (·.isPlacement)) s'.core := by
  have hsame : ∀ t : MakerHedgeEngine, t.core = s.core →
      CoreMove HlMakerLighterHedger.leg s.core false t.core := by
    intro t ht
    rw [ht]
    exact .quiet rfl rfl fun _ ha => ha
  cases hm with
  | quiet state pending gate => exact .quiet state pending gate
  | placeBlocked origin => exact .placeBlocked origin.core
  | placeDeferred origin => exact .placeDeferred origin.core
  | placeAcked origin => exact .placeAcked origin.core
  | placeNacked origin => exact .placeNacked origin.core
  | cancelDeferred origin => exact .cancelDeferred origin.core
  | cancelIdle origin inactive =>
    exact .cancelIdle origin.core (by simp [MakerHedgeEngine.core, inactive])
  | cancelAcked origin active acked unwind _ snapshot venues unwinds =>
    have hquiet : unwind.any (·.isPlacement) = false := by
      rw [unwinds]
      split_ifs <;> rfl
    rw [List.any_cons, hquiet]
    exact .cancelAcked origin.core (by simp [MakerHedgeEngine.core, active])
  | cancelNacked origin active =>
    exact .cancelNacked origin.core (by simp [MakerHedgeEngine.core, active])
  | tradeIgnored => exact hsame _ rfl
  | speculated => exact hsame _ rfl
  | speculationFailed => exact hsame _ rfl

theorem FillMove.core {oid : String} {size : ℚ} (hm : FillMove cfg s oid size l s') :
    CoreFill s.core s'.core := by
  cases hm with
  | unknown => exact .ignored
  | perfect => exact .closed
  | correction => exact .closed
  | overshoot => exact .ignored
  | hedged => exact .closed
  | unwound => exact .closed

theorem FillMove.sends_no_placement {oid : String} {size : ℚ} (hm : FillMove cfg s oid size l s') :
    l.any (·.isPlacement) = false := by
  cases hm <;> rfl

/-! ## What only a call changes -/

theorem PlaceFrom.active_eq (hp : PlaceFrom s order b) : b.activeHlOid = s.activeHlOid := by
  cases hp <;> rfl

/-- A move that calls no exchange leaves the order as it is. -/
theorem Move.active_of_quiet (hm : Move cfg ok s l s') (h : l = []) :
    s'.activeHlOid = s.activeHlOid := by
  cases hm with
  | placeBlocked origin => exact origin.active_eq
  | placeDeferred origin => exact origin.active_eq
  | cancelDeferred origin => exact origin.active_eq
  | cancelIdle origin => exact origin.active_eq
  | quiet => rfl
  | tradeIgnored => rfl
  | _ => cases h

/-! ## What only a placement changes -/

theorem PlaceFrom.recent (hp : PlaceFrom s order b) :
    b.recentlyPlacedOids = s.recentlyPlacedOids := by
  cases hp <;> rfl

theorem CancelFrom.recent (hc : CancelFrom s order b) :
    b.recentlyPlacedOids = s.recentlyPlacedOids := by
  cases hc <;> rfl

/-- Only a placement brings the engine an order. -/
theorem Move.recent (hm : Move cfg ok s l s') (h : l.any (·.isPlacement) = false) :
    s'.recentlyPlacedOids = s.recentlyPlacedOids := by
  cases hm with
  | placeBlocked origin => exact origin.recent
  | placeDeferred origin => exact origin.recent
  | placeAcked => cases h
  | placeNacked => cases h
  | cancelDeferred origin => exact origin.recent
  | cancelIdle origin => exact origin.recent
  | cancelAcked origin => exact origin.recent
  | cancelNacked origin => exact origin.recent
  | _ => rfl

theorem PlaceFrom.direction_eq (hp : PlaceFrom s order b) :
    b.lastMakerDirection = s.lastMakerDirection := by
  cases hp <;> rfl

theorem CancelFrom.direction_eq (hc : CancelFrom s order b) :
    b.lastMakerDirection = s.lastMakerDirection := by
  cases hc <;> rfl

/-- Only a placement changes the side of the order. -/
theorem Move.direction (hm : Move cfg ok s l s') (h : l.any (·.isPlacement) = false) :
    s'.lastMakerDirection = s.lastMakerDirection := by
  cases hm with
  | placeBlocked origin => exact origin.direction_eq
  | placeDeferred origin => exact origin.direction_eq
  | placeAcked => cases h
  | placeNacked => cases h
  | cancelDeferred origin => exact origin.direction_eq
  | cancelIdle origin => exact origin.direction_eq
  | cancelAcked origin => exact origin.direction_eq
  | cancelNacked origin => exact origin.direction_eq
  | _ => rfl

end Core

end Arb
