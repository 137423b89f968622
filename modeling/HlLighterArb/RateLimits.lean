import HlLighterArb.Justified
import HlLighterArb.Lib.RateLimiter
import HlLighterArb.Maker.Fills
import HlLighterArb.Progress

/-!
# HlLighterArb.RateLimits

The rate limits of the two engines: when placements and cancels get past their limiters, the slot
for the action that came too early, and the time at which the live loop wakes up for it.

* `Pass`: a placement or a cancel that got past its limiter, at the time its limiter read.
* `MakerHedgeEngine.limiter`, `LighterMakerTakerEngine.limiter`: the engines refine `RateLimiter`.
* `obs_limited`: without their times, the passes that called an exchange are the calls of the run.
* `RateLimited`, `CancelUndelayed`: what the limits promise after a run, and of each call.
* `rate_limits`: both engines keep it.
-/

namespace Arb

/-! ## What is limited -/

/-- The kinds of action with a limiter. -/
inductive LimitedKind where
  | place
  | cancel
  deriving DecidableEq

def Action.limited : Action → Option LimitedKind
  | .placeHlMaker _ _ => some .place
  | .placeLighterMaker _ _ => some .place
  | .cancelHlMaker _ _ => some .cancel
  | .cancelLighterMaker _ _ => some .cancel
  | _ => Option.none

/-- An action that got past its limiter. A cancel without an active order calls no exchange. -/
structure Pass where
  kind : LimitedKind
  called : Bool
  steadyMs : Int
  deriving DecidableEq

def Pass.timed (p : Pass) : LimitedKind × Int := (p.kind, p.steadyMs)

/-- The exchange call of the pass. -/
def Pass.call (p : Pass) : Option LimitedKind := if p.called then some p.kind else none

/-- The log line of a cancel that finds no active order. -/
def EventLog.pass (steadyMs : Int) : EventLog → Option Pass
  | .cancelRequestedNoActiveOid => some { kind := .cancel, called := false, steadyMs }
  | .cancelRequestedNoActiveLighterOrder => some { kind := .cancel, called := false, steadyMs }
  | _ => none

theorem EventLog.pass_call (steadyMs : Int) (events : List EventLog) :
    (events.filterMap (EventLog.pass steadyMs)).filterMap Pass.call = [] := by
  rw [List.filterMap_filterMap, List.filterMap_eq_nil_iff]
  intro event _
  cases event <;> rfl

def MakerObs.limited : MakerObs → Option LimitedKind
  | .placeLimit _ _ => some .place
  | .cancel _ _ => some .cancel
  | _ => none

def LighterMakerObs.limited : LighterMakerObs → Option LimitedKind
  | .placeLimit _ _ => some .place
  | .cancel _ _ => some .cancel
  | _ => none

/-- The calls of an exchange, as passes. -/
def callPasses {ο : Type} (limited : ο → Option LimitedKind) (steadyMs : Int) (calls : List ο) :
    List Pass :=
  (calls.filterMap limited).map fun kind => { kind, called := true, steadyMs }

/-- The passes of an action that was executed at `steadyMs`. -/
def Outcome.passes {σ ο : Type} (limited : ο → Option LimitedKind) (steadyMs : Int)
    (o : Outcome σ ο) : List Pass :=
  callPasses limited steadyMs o.calls ++ o.events.filterMap (EventLog.pass steadyMs)

section Passes

variable {σ ο : Type} {limited : ο → Option LimitedKind} {steadyMs : Int}

theorem callPasses_call (calls : List ο) :
    (callPasses limited steadyMs calls).filterMap Pass.call = calls.filterMap limited := by
  rw [callPasses, List.filterMap_map]
  exact List.filterMap_some

theorem Outcome.passes_call (o : Outcome σ ο) :
    (o.passes limited steadyMs).filterMap Pass.call = o.calls.filterMap limited := by
  rw [passes, List.filterMap_append, callPasses_call, EventLog.pass_call, List.append_nil]

theorem Outcome.steadyMs_of_mem {o : Outcome σ ο} {p : Pass}
    (hp : p ∈ o.passes limited steadyMs) : p.steadyMs = steadyMs := by
  rcases List.mem_append.mp hp with hcall | hevent
  · obtain ⟨kind, -, rfl⟩ := List.mem_map.mp hcall
    rfl
  · obtain ⟨event, -, heq⟩ := List.mem_filterMap.mp hevent
    revert heq
    cases event <;> simp [EventLog.pass] <;> rintro rfl <;> rfl

/-- What passes at once passes once, at the time its limiter read. -/
theorem Outcome.passes_sublist {o : Outcome σ ο} {interval : Int}
    {r r' : RateLimiter LimitedKind}
    (hm : r.Move interval ((o.passes limited steadyMs).map Pass.timed) r') :
    List.Sublist ((o.passes limited steadyMs).map Pass.steadyMs) [steadyMs] := by
  have hlength := hm.length_le
  rw [List.length_map] at hlength
  cases hpasses : o.passes limited steadyMs with
  | nil => exact List.nil_sublist _
  | cons p ps =>
    rw [hpasses, List.length_cons] at hlength
    obtain rfl : ps = [] := List.eq_nil_of_length_eq_zero (by omega)
    have hp : p.steadyMs = steadyMs := steadyMs_of_mem (hpasses ▸ List.mem_cons_self ..)
    rw [List.map_singleton, hp]

end Passes

/-! ## Steps of a limiter -/

/-- What a call does to a limiter: it keeps what the limiter keeps, and its passes read the clock in
the order `readings`. -/
structure LimitedStep (interval : Int) (r : RateLimiter LimitedKind) (passes : List Pass)
    (readings : List Int) (r' : RateLimiter LimitedKind) : Prop where
  kept : ∀ {start : LimitedKind → Int} {past : List Pass},
    r.Kept interval start (past.map Pass.timed) →
      r'.Kept interval start ((past ++ passes).map Pass.timed)
  inOrder : List.Sublist (passes.map Pass.steadyMs) readings

namespace LimitedStep

variable {interval : Int} {r r₁ r₂ : RateLimiter LimitedKind} {passes passes' : List Pass}
  {readings readings' : List Int}

theorem of_unlimited (hlimiter : r₁ = r) (hpasses : passes = []) (readings : List Int) :
    LimitedStep interval r passes readings r₁ where
  kept h := by rwa [hlimiter, hpasses, List.append_nil]
  inOrder := by
    rw [hpasses]
    exact List.nil_sublist _

theorem mono (h : LimitedStep interval r passes readings r₁)
    (hreadings : List.Sublist readings readings') : LimitedStep interval r passes readings' r₁ :=
  ⟨h.kept, h.inOrder.trans hreadings⟩

theorem append (h : LimitedStep interval r passes readings r₁)
    (h' : LimitedStep interval r₁ passes' readings' r₂) :
    LimitedStep interval r (passes ++ passes') (readings ++ readings') r₂ where
  kept hkept := by
    rw [← List.append_assoc]
    exact h'.kept (h.kept hkept)
  inOrder := by
    rw [List.map_append]
    exact h.inOrder.append h'.inOrder

variable {σ ο : Type} {limited : ο → Option LimitedKind} {steadyMs : Int} {o : Outcome σ ο}

/-- An executed action, after the slot may have been emptied for it. -/
theorem of_moves (hslot : r.Move interval [] r₁)
    (hm : r₁.Move interval ((o.passes limited steadyMs).map Pass.timed) r₂) :
    LimitedStep interval r (o.passes limited steadyMs) [steadyMs] r₂ where
  kept hkept := by
    have hmoved := (hkept.move hslot).move hm
    rwa [List.append_nil, ← List.map_append] at hmoved
  inOrder := Outcome.passes_sublist hm

variable {ε : Type} {m : EventMachine σ ε Pass} {limiter : σ → RateLimiter LimitedKind}
  {reads : ε → List Int}

theorem kept_always
    (hstep : ∀ s e,
      LimitedStep interval (limiter s) (m.step s e).2 (reads e) (limiter (m.step s e).1))
    {start : LimitedKind → Int} {s : σ} (h0 : (limiter s).Kept interval start []) (es : List ε) :
    m.Always s (fun past t => (limiter t).Kept interval start (past.map Pass.timed)) es := by
  refine EventMachine.invariant
    (P := fun past t => (limiter t).Kept interval start (past.map Pass.timed)) h0 ?_ es
  exact fun past t e h => (hstep t e).kept h

/-- The passes of a run read the clock in the order of the run. -/
theorem obs_inOrder
    (hstep : ∀ s e,
      LimitedStep interval (limiter s) (m.step s e).2 (reads e) (limiter (m.step s e).1))
    (s : σ) (es : List ε) :
    List.Sublist ((m.obs s es).map Pass.steadyMs) (es.flatMap reads) := by
  induction es generalizing s with
  | nil => exact List.nil_sublist _
  | cons e es ih =>
    rw [EventMachine.obs_cons, List.map_append, List.flatMap_cons]
    exact (hstep s e).inOrder.append (ih _)

end LimitedStep

/-! ## What the limits promise -/

/-- When the exchange was called for the kind. -/
def callTimes (kind : LimitedKind) (passes : List Pass) : List Int :=
  (passes.filter fun p => p.kind = kind ∧ p.called).map Pass.steadyMs

/-- When an action of this kind last got past its limiter, zero before the first. -/
def lastPass (action : Action) (passes : List Pass) : Int :=
  ((passes.filter fun p => action.limited = some p.kind).map Pass.steadyMs).getLast?.getD 0

/-- The deadline of the live loop's wait, in nanoseconds of the steady clock. -/
def wakeDeadline (nextHousekeeping : Int) (retryMs : Option Int) : Int :=
  match retryMs with
  | some retryMs => min nextHousekeeping (retryMs * 1000000)
  | none => nextHousekeeping

/-- After `passes`, with `stored` in the slot. -/
structure RateLimited (interval : Int) (passes : List Pass) (stored : Option Action)
    (retryAt : Option Int) : Prop where
  placesApart : (callTimes .place passes).Pairwise fun t t' => interval ≤ t' - t
  cancelsApart : (callTimes .cancel passes).Pairwise fun t t' => interval ≤ t' - t
  retry : retryAt = stored.map fun action => lastPass action passes + interval
  wakeUp : ∀ action ∈ stored, ∀ nextHousekeeping,
    wakeDeadline nextHousekeeping retryAt ≤ (lastPass action passes + interval) * 1000000

section Limits

variable {passes : List Pass} {kind : LimitedKind}

theorem times_timed (passes : List Pass) (kind : LimitedKind) :
    RateLimiter.times (passes.map Pass.timed) kind =
      (passes.filter fun p => p.kind = kind).map Pass.steadyMs := by
  rw [RateLimiter.times, List.filter_map, List.map_map]
  rfl

theorem callTimes_sublist :
    List.Sublist (callTimes kind passes) (RateLimiter.times (passes.map Pass.timed) kind) := by
  rw [times_timed]
  refine List.Sublist.map _ (List.monotone_filter_right _ fun p hp => ?_)
  exact decide_eq_true (of_decide_eq_true hp).1

theorem RateLimited.of_kept {interval : Int} {r : RateLimiter LimitedKind}
    (h : r.Kept interval (fun _ => 0) (passes.map Pass.timed))
    (hsorted : (passes.map Pass.steadyMs).Pairwise (· ≤ ·)) {stored : Option Action}
    (hslot : r.slot = stored.bind Action.limited)
    (hlimited : ∀ action ∈ stored, action.limited.isSome = true) :
    RateLimited interval passes stored r.retryAt := by
  have hapart (kind : LimitedKind) :
      (callTimes kind passes).Pairwise fun t t' => interval ≤ t' - t := by
    refine List.Pairwise.sublist callTimes_sublist (h.apart (hsorted.sublist ?_))
    rw [times_timed]
    exact List.Sublist.map _ List.filter_sublist
  have hretry : r.retryAt = stored.map fun action => lastPass action passes + interval := by
    rw [h.retryAt, hslot]
    cases stored with
    | none => rfl
    | some action =>
      obtain ⟨kind, hkind⟩ := Option.isSome_iff_exists.mp (hlimited action rfl)
      have hlast : lastPass action passes = r.last kind := by
        rw [h.last, times_timed, lastPass, hkind]
        simp only [Option.some.injEq, eq_comm]
      rw [Option.bind_some, hkind, Option.map_some, Option.map_some, hlast]
  refine ⟨hapart .place, hapart .cancel, hretry, ?_⟩
  rintro action rfl nextHousekeeping
  rw [hretry]
  exact min_le_right _ _

end Limits

/-! ## A cancel in the slot -/

/-- A cancel waits in the slot while the strategy waits for it, or no order is active. -/
def CancelWaits (leg : MakerLeg) (c : MakerCore) : Prop :=
  c.waiting = .cancel → c.active = false ∨ c.strategy.state = leg.cancelled

/-- The strategy waits for the cancel of the active order, and no placement waits. -/
structure Cancelling (leg : MakerLeg) (c : MakerCore) : Prop where
  active : c.active = true
  state : c.strategy.state = leg.cancelled
  waiting : c.waiting ≠ .place

/-- While the cancel of the active order waits in the slot, no placement is sent, and none takes the
slot. -/
def CancelUndelayed (passes : List Pass) (c c' : MakerCore) : Prop :=
  c.waiting = .cancel → c.active = true → callTimes .place passes = [] ∧ c'.waiting ≠ .place

section Slot

variable {leg : MakerLeg} {c c' b : MakerCore} {sent : Bool}

theorem CoreMove.cancelWaits (hm : CoreMove leg c sent c') (h : CancelWaits leg c)
    (hcancelled : leg.cancelled ≠ .idle) : CancelWaits leg c' := by
  cases hm with
  | quiet state => exact fun hwaiting => (h hwaiting).imp_right state.trans
  | placeBlocked origin =>
    intro hwaiting
    cases origin with
    | deferred => cases hwaiting
    | decided idle =>
      exact (h hwaiting).imp_right fun hstate => absurd (hstate.symm.trans idle) hcancelled
  | cancelDeferred origin =>
    intro _
    cases origin with
    | deferred slot => exact h slot
    | decided _ state => exact .inr state
  | _ => exact fun hwaiting => by cases hwaiting

theorem CoreFill.cancelWaits (hf : CoreFill c c') (h : CancelWaits leg c) : CancelWaits leg c' := by
  cases hf with
  | ignored => exact h
  | closed => exact fun _ => .inl rfl

theorem CoreFill.waiting_eq (hf : CoreFill c c') : c'.waiting = c.waiting := by
  cases hf <;> rfl

theorem Cancelling.of_waits (h : CancelWaits leg c) (hwaiting : c.waiting = .cancel)
    (hactive : c.active = true) : Cancelling leg c where
  active := hactive
  state := (h hwaiting).resolve_left (by rw [hactive]; exact Bool.noConfusion)
  waiting := by rw [hwaiting]; exact Waiting.noConfusion

theorem Cancelling.not_places (h : Cancelling leg c) (hcancelled : leg.cancelled ≠ .idle)
    (hp : c.Places leg b) : False := by
  cases hp with
  | deferred slot => exact h.waiting slot
  | decided idle => exact hcancelled (h.state.symm.trans idle)

theorem Cancelling.state_of_cancels (h : Cancelling leg c) (hc : c.Cancels leg b) :
    b.strategy.state = leg.cancelled := by
  cases hc with
  | deferred => exact h.state
  | decided _ state => exact state

/-- No move of a strategy that waits for a cancel sends a placement or stores one. -/
theorem CoreMove.cancelling (hm : CoreMove leg c sent c') (h : Cancelling leg c)
    (hcancelled : leg.cancelled ≠ .idle) :
    sent = false ∧ c'.waiting ≠ .place ∧ (c'.active = true → Cancelling leg c') := by
  cases hm with
  | quiet state => exact ⟨rfl, h.waiting, fun _ => ⟨h.active, state.trans h.state, h.waiting⟩⟩
  | placeBlocked origin => exact (h.not_places hcancelled origin).elim
  | placeDeferred origin => exact (h.not_places hcancelled origin).elim
  | placeAcked origin => exact (h.not_places hcancelled origin).elim
  | placeNacked origin => exact (h.not_places hcancelled origin).elim
  | cancelDeferred origin =>
    have hstate := h.state_of_cancels origin
    exact ⟨rfl, Waiting.noConfusion, fun hactive => ⟨hactive, hstate, Waiting.noConfusion⟩⟩
  | cancelIdle _ inactive => exact absurd (h.active.symm.trans inactive) Bool.noConfusion
  | cancelAcked => exact ⟨rfl, Waiting.noConfusion, fun hactive => absurd hactive Bool.noConfusion⟩
  | cancelNacked origin =>
    have hstate := h.state_of_cancels origin
    exact ⟨rfl, Waiting.noConfusion, fun hactive => ⟨hactive, hstate, Waiting.noConfusion⟩⟩

theorem callTimes_eq_nil {kind : LimitedKind} {passes : List Pass}
    (h : kind ∉ passes.filterMap Pass.call) : callTimes kind passes = [] := by
  rw [callTimes, List.map_eq_nil_iff, List.filter_eq_nil_iff]
  intro p hp hcalled
  obtain ⟨hkind, hcall⟩ := of_decide_eq_true hcalled
  exact h (List.mem_filterMap.mpr ⟨p, hp, by rw [Pass.call, if_pos hcall, hkind]⟩)

end Slot

/-! ## The HL maker engine -/

/-- The readings of the steady clock during the call, in order. -/
def MakerEvent.readings : MakerEvent → List Int
  | .tick nowMs venues => [nowMs, venues.clock.retrySteadyMs, venues.clock.steadyMs]
  | _ => []

namespace MakerHedgeEngine

variable {cfg : EngineConfig} {venues : Venues} {s : MakerHedgeEngine}

def limiter (s : MakerHedgeEngine) : RateLimiter LimitedKind where
  last
    | .place => s.lastHlPlaceMs
    | .cancel => s.lastHlCancelMs
  slot := s.deferredHlAction.bind Action.limited
  retryAt := s.nextRetrySteadyMs

theorem limiter_placed (steadyMs : Int) :
    limiter { s with
        lastHlPlaceMs := steadyMs, nextRetrySteadyMs := none, deferredHlAction := none } =
      { last := Function.update s.limiter.last .place steadyMs, slot := none, retryAt := none } := by
  simp only [limiter, RateLimiter.mk.injEq, and_true]
  refine ⟨?_, rfl⟩
  funext kind
  cases kind <;> rfl

theorem limiter_cancelled (steadyMs : Int) :
    limiter { s with
        lastHlCancelMs := steadyMs, nextRetrySteadyMs := none, deferredHlAction := none } =
      { last := Function.update s.limiter.last .cancel steadyMs, slot := none, retryAt := none } := by
  simp only [limiter, RateLimiter.mk.injEq, and_true]
  refine ⟨?_, rfl⟩
  funext kind
  cases kind <;> rfl

/-- The passes of an outcome, with the kinds the limiter tells apart. -/
abbrev timedPasses (steadyMs : Int) (o : MakerOutcome) : List (LimitedKind × Int) :=
  (o.passes MakerObs.limited steadyMs).map Pass.timed

theorem executePlace_limiter (steadyMs : Int) (reason : String) (order : PendingMakerOrder)
    (snapshot : SpreadSnapshot) :
    s.limiter.Move cfg.hlOrderIntervalMs
      (timedPasses steadyMs (executePlaceHlMaker cfg venues steadyMs s reason order snapshot))
      (executePlaceHlMaker cfg venues steadyMs s reason order snapshot).state.limiter := by
  unfold executePlaceHlMaker
  split_ifs
  · exact .idle
  · by_cases hdue : cfg.hlOrderIntervalMs ≤ steadyMs - s.lastHlPlaceMs
    · have hpass := @RateLimiter.Move.passed _ _ cfg.hlOrderIntervalMs s.limiter .place steadyMs hdue
      rw [← limiter_placed] at hpass
      rw [hlPlaceRetryAtMs, if_pos hdue]
      simp only
      split_ifs
      · exact hpass
      · exact hpass
    · rw [hlPlaceRetryAtMs, if_neg hdue]
      exact .deferred LimitedKind.place steadyMs (not_le.mp hdue)

theorem executeCancel_limiter (steadyMs : Int) (reason : String) (order : PendingMakerOrder)
    (snapshot : SpreadSnapshot) :
    s.limiter.Move cfg.hlOrderIntervalMs
      (timedPasses steadyMs (executeCancelHlMaker cfg venues steadyMs s reason order snapshot))
      (executeCancelHlMaker cfg venues steadyMs s reason order snapshot).state.limiter := by
  unfold executeCancelHlMaker
  by_cases hdue : cfg.hlOrderIntervalMs ≤ steadyMs - s.lastHlCancelMs
  · have hpass := @RateLimiter.Move.passed _ _ cfg.hlOrderIntervalMs s.limiter .cancel steadyMs hdue
    rw [← limiter_cancelled] at hpass
    rw [hlCancelRetryAtMs, if_pos hdue]
    simp only
    cases s.activeHlOid with
    | none => exact hpass
    | some oid =>
      simp only
      split_ifs
      · exact hpass
      · exact hpass
      · exact hpass
  · rw [hlCancelRetryAtMs, if_neg hdue]
    exact .deferred LimitedKind.cancel steadyMs (not_le.mp hdue)

theorem executeSendLighterTakerHedge_limiter (steadyMs : Int) (intent : HedgeIntent)
    (snapshot : SpreadSnapshot) :
    s.limiter.Move cfg.hlOrderIntervalMs
      (timedPasses steadyMs (executeSendLighterTakerHedge cfg venues steadyMs s intent snapshot))
      (executeSendLighterTakerHedge cfg venues steadyMs s intent snapshot).state.limiter := by
  unfold executeSendLighterTakerHedge
  simp only
  split_ifs
  · exact .idle
  · split
    · exact .idle
    · exact .idle

theorem executeAction_limiter (steadyMs : Int) (action : Action) (snapshot : SpreadSnapshot) :
    s.limiter.Move cfg.hlOrderIntervalMs
      (timedPasses steadyMs (executeAction cfg venues steadyMs s action snapshot))
      (executeAction cfg venues steadyMs s action snapshot).state.limiter := by
  cases action with
  | placeHlMaker reason order => exact executePlace_limiter steadyMs reason order snapshot
  | cancelHlMaker reason order => exact executeCancel_limiter steadyMs reason order snapshot
  | sendLighterTakerHedge reason intent =>
    exact executeSendLighterTakerHedge_limiter steadyMs intent snapshot
  | _ => exact .idle

/-- The deferred action is taken out of its slot, or nothing happens to it. -/
theorem executeDeferred_limiter (nowMs : Int) (snapshot : SpreadSnapshot) :
    LimitedStep cfg.hlOrderIntervalMs s.limiter
      ((executeDeferredHlAction cfg venues s nowMs snapshot).passes MakerObs.limited
        venues.clock.retrySteadyMs)
      [venues.clock.retrySteadyMs]
      (executeDeferredHlAction cfg venues s nowMs snapshot).state.limiter := by
  unfold executeDeferredHlAction
  cases s.deferredHlAction with
  | none => exact .of_moves .idle .idle
  | some action =>
    simp only
    split_ifs
    · have htaken : s.limiter.Move cfg.hlOrderIntervalMs [] s.takeDeferred.limiter := .taken
      exact .of_moves htaken (executeAction_limiter _ action snapshot)
    · exact .of_moves .idle .idle

theorem runStrategy_limiter (nowMs : Int) (snapshot : SpreadSnapshot) :
    s.limiter.Move cfg.hlOrderIntervalMs
      (timedPasses venues.clock.steadyMs (runStrategy cfg venues s nowMs snapshot))
      (runStrategy cfg venues s nowMs snapshot).state.limiter := by
  unfold runStrategy
  generalize HlMakerLighterHedger.onMarketSnapshot cfg.strategy s.strategy snapshot nowMs
    s.hlPositionBase = r
  obtain ⟨h, action⟩ := r
  have hexecute := @executeAction_limiter cfg venues { s with strategy := h } venues.clock.steadyMs
    action snapshot
  cases action with
  | placeHlMaker reason order =>
    simp only
    split_ifs
    · exact .idle
    · exact hexecute
  | _ => exact hexecute

theorem onTradeEvent_unlimited (trade : TradeEvent) (steadyMs : Int) :
    (onTradeEvent cfg venues s trade).state.limiter = s.limiter ∧
      (onTradeEvent cfg venues s trade).passes MakerObs.limited steadyMs = [] := by
  unfold onTradeEvent
  cases s.activeHlOid with
  | none => exact ⟨rfl, rfl⟩
  | some oid =>
    cases s.strategy.pendingMaker with
    | none => exact ⟨rfl, rfl⟩
    | some order =>
      simp only
      split_ifs
      · exact ⟨rfl, rfl⟩
      · exact ⟨rfl, rfl⟩
      · unfold sendSpeculative
        simp only
        split_ifs
        · exact ⟨rfl, rfl⟩
        · exact ⟨rfl, rfl⟩
      · exact ⟨rfl, rfl⟩
      · unfold skipTrade
        simp only
        split_ifs
        · exact ⟨rfl, rfl⟩
        · exact ⟨rfl, rfl⟩

theorem onHlFill_unlimited (fillPrice size : ℚ) (snapshot : SpreadSnapshot) (oid : String)
    (hlFee : ℚ) (steadyMs : Int) :
    (onHlFill cfg venues s fillPrice size snapshot oid hlFee).state.limiter = s.limiter ∧
      (onHlFill cfg venues s fillPrice size snapshot oid hlFee).passes MakerObs.limited steadyMs =
        [] := by
  unfold onHlFill
  cases s.fillPath oid size with
  | hedge =>
    unfold hedgeFill
    simp only
    split_ifs <;> exact ⟨rfl, rfl⟩
  | _ => exact ⟨rfl, rfl⟩

/-! ### Runs -/

/-- The engine as a machine that observes what gets past the limiters. The deferred action is
retried at one reading of the clock and the decided one executed at another. -/
def limitedStep (cfg : EngineConfig) (s : MakerHedgeEngine) :
    MakerEvent → MakerHedgeEngine × List Pass
  | .tick nowMs venues =>
    let snapshot := collectSnapshot cfg venues
    let deferred := executeDeferredHlAction cfg venues s nowMs snapshot
    ((onMarketData cfg venues s nowMs).state,
      deferred.passes MakerObs.limited venues.clock.retrySteadyMs ++
        if deferred.events.isEmpty then
          (runStrategy cfg venues deferred.state nowMs snapshot).passes MakerObs.limited
            venues.clock.steadyMs
        else [])
  | .trade trade venues =>
    let o := onTradeEvent cfg venues s trade
    (o.state, o.passes MakerObs.limited venues.clock.steadyMs)
  | .fill fillPrice fillSizeBase snapshot oid hlFee venues =>
    let o := onHlFill cfg venues s fillPrice fillSizeBase snapshot oid hlFee
    (o.state, o.passes MakerObs.limited venues.clock.steadyMs)

def limited (cfg : EngineConfig) : EventMachine MakerHedgeEngine MakerEvent Pass where
  step := limitedStep cfg

theorem limitedStep_state (e : MakerEvent) : (limitedStep cfg s e).1 = (step cfg s e).1 := by
  cases e <;> rfl

theorem limitedStep_call (e : MakerEvent) :
    (limitedStep cfg s e).2.filterMap Pass.call = (step cfg s e).2.filterMap MakerObs.limited := by
  cases e with
  | tick nowMs venues =>
    simp only [limitedStep, step, onMarketData, List.filterMap_append, Outcome.passes_call]
    split_ifs
    · rw [Outcome.passes_call, List.filterMap_append]
    · rw [List.filterMap_nil, List.append_nil]
  | trade trade venues => exact Outcome.passes_call _
  | fill fillPrice size snapshot oid hlFee venues => exact Outcome.passes_call _

theorem limitedStep_limited (s : MakerHedgeEngine) (e : MakerEvent) :
    LimitedStep cfg.hlOrderIntervalMs s.limiter (limitedStep cfg s e).2 e.readings
      (limitedStep cfg s e).1.limiter := by
  cases e with
  | tick nowMs venues =>
    have hdeferred := @executeDeferred_limiter cfg venues s nowMs (collectSnapshot cfg venues)
    simp only [limitedStep, onMarketData]
    split_ifs
    · exact (hdeferred.append (.of_moves .idle (runStrategy_limiter nowMs _))).mono
        (List.sublist_cons_self ..)
    · rw [List.append_nil]
      exact hdeferred.mono (.cons _ (.cons_cons _ (List.nil_sublist _)))
  | trade trade venues =>
    obtain ⟨hlimiter, hpasses⟩ :=
      @onTradeEvent_unlimited cfg venues s trade venues.clock.steadyMs
    exact .of_unlimited hlimiter hpasses _
  | fill fillPrice size snapshot oid hlFee venues =>
    obtain ⟨hlimiter, hpasses⟩ :=
      @onHlFill_unlimited cfg venues s fillPrice size snapshot oid hlFee venues.clock.steadyMs
    exact .of_unlimited hlimiter hpasses _

/-- Without their times, the passes that called HL are the placements and cancels of the run. -/
theorem obs_limited (s : MakerHedgeEngine) (es : List MakerEvent) :
    ((limited cfg).obs s es).filterMap Pass.call =
      ((machine cfg).obs s es).filterMap MakerObs.limited :=
  EventMachine.filterMap_obs (fun _ => limitedStep_state) (fun _ => limitedStep_call) s es

/-- What the limiter needs of the state. -/
structure Limitable (s : MakerHedgeEngine) : Prop where
  deferred : DeferredMaker s
  cancel : CancelWaits HlMakerLighterHedger.leg s.core

theorem Limitable.step (h : Limitable s) (e : MakerEvent) :
    Limitable (MakerHedgeEngine.step cfg s e).1 := by
  refine @step_keeps cfg s (fun _ s => Limitable s) [] h.deferred e ?_ ?_ h
  · intro past t l t' ht hm
    exact ⟨hm.deferredMaker ht.deferred,
      hm.core.cancelWaits ht.cancel StrategyState.noConfusion⟩
  · intro oid size l t' _ hm
    exact ⟨hm.deferredMaker h.deferred, hm.core.cancelWaits h.cancel⟩

theorem place_not_mem {l : List MakerObs} (h : l.any (·.isPlacement) = false) :
    LimitedKind.place ∉ l.filterMap MakerObs.limited := by
  intro hmem
  obtain ⟨o, ho, hkind⟩ := List.mem_filterMap.mp hmem
  have hno := List.any_eq_false.mp h o ho
  cases o with
  | placeLimit => exact hno rfl
  | _ => cases hkind

theorem Moves.cancelling_of_quiet {ok : MakerHedgeEngine → PendingMakerOrder → Prop}
    {s s' : MakerHedgeEngine} {l : List MakerObs} (hms : Moves cfg ok s l s') (hl : l = [])
    (h : Cancelling HlMakerLighterHedger.leg s.core) :
    Cancelling HlMakerLighterHedger.leg s'.core := by
  induction hms with
  | refl => exact h
  | cons hm _ ih =>
    obtain ⟨hl, hl'⟩ := List.append_eq_nil_iff.mp hl
    refine ih hl' ((hm.core.cancelling h StrategyState.noConfusion).2.2 ?_)
    rw [MakerHedgeEngine.core, hm.active_of_quiet hl]
    exact h.active

theorem limitedStep_undelayed (h : Limitable s) (e : MakerEvent) :
    CancelUndelayed (limitedStep cfg s e).2 s.core (limitedStep cfg s e).1.core := by
  intro hwaiting hactive
  have hc := Cancelling.of_waits h.cancel hwaiting hactive
  suffices hstep : (MakerHedgeEngine.step cfg s e).2.any (·.isPlacement) = false ∧
      (MakerHedgeEngine.step cfg s e).1.core.waiting ≠ .place by
    rw [← limitedStep_state] at hstep
    refine ⟨callTimes_eq_nil ?_, hstep.2⟩
    rw [limitedStep_call]
    exact place_not_mem hstep.1
  cases e with
  | tick nowMs venues =>
    obtain ⟨s₁, hquiet, hlast⟩ := @onMarketData_move cfg (fun _ _ => True) s h.deferred nowMs venues
      (fun _ _ _ _ => trivial) fun _ _ => trivial
    have hc₁ := Moves.cancelling_of_quiet hquiet rfl hc
    obtain ⟨hsent, hslot, -⟩ := hlast.core.cancelling hc₁ StrategyState.noConfusion
    exact ⟨hsent, hslot⟩
  | trade trade venues =>
    rcases @onTradeEvent_move cfg (fun _ _ => True) s trade venues with hidle | hlast
    · simp only [MakerHedgeEngine.step, hidle]
      exact ⟨rfl, hc.waiting⟩
    · obtain ⟨hsent, hslot, -⟩ := hlast.core.cancelling hc StrategyState.noConfusion
      exact ⟨hsent, hslot⟩
  | fill fillPrice size snapshot oid hlFee venues =>
    have hm := @onHlFill_fillMove cfg s fillPrice size snapshot oid hlFee venues
    refine ⟨hm.sends_no_placement, ?_⟩
    exact hm.core.waiting_eq ▸ hc.waiting

theorem start_kept (journalAttached : Bool) (p₀ : ℚ) :
    (start journalAttached p₀).limiter.Kept cfg.hlOrderIntervalMs (fun _ => 0) [] := by
  have hlast : (start journalAttached p₀).limiter.last = fun _ => 0 := by
    funext kind
    cases kind <;> rfl
  rw [← hlast]
  exact .init rfl rfl

theorem start_limitable (journalAttached : Bool) (p₀ : ℚ) :
    Limitable (start journalAttached p₀) :=
  ⟨.of_none rfl, fun hwaiting => nomatch hwaiting⟩

theorem Limitable.limited (h : Limitable s) {action : Action}
    (hslot : action ∈ s.deferredHlAction) : action.limited.isSome = true := by
  rcases h.deferred action hslot with ⟨reason, order, rfl⟩ | ⟨reason, order, rfl⟩ <;> rfl

theorem reachable_limitable (cfg : EngineConfig) (journalAttached : Bool) (p₀ : ℚ)
    (es : List MakerEvent) :
    (limited cfg).Always (start journalAttached p₀) (fun _ s => Limitable s) es := by
  refine EventMachine.invariant (start_limitable journalAttached p₀) (fun _ s e h => ?_) es
  rw [show ((limited cfg).step s e).1 = (MakerHedgeEngine.step cfg s e).1 from limitedStep_state e]
  exact h.step e

theorem always_rateLimited (cfg : EngineConfig) (journalAttached : Bool) (p₀ : ℚ)
    {es : List MakerEvent} (hclock : (es.flatMap MakerEvent.readings).Pairwise (· ≤ ·)) :
    (limited cfg).Always (start journalAttached p₀) (fun passes s =>
      RateLimited cfg.hlOrderIntervalMs passes s.deferredHlAction s.nextRetrySteadyMs) es := by
  intro pre hpre
  have hlimitable := reachable_limitable cfg journalAttached p₀ es pre hpre
  have hkept := LimitedStep.kept_always (m := limited cfg) limitedStep_limited
    (start_kept journalAttached p₀) es pre hpre
  have hinOrder := LimitedStep.obs_inOrder (m := limited cfg) limitedStep_limited
    (start journalAttached p₀) pre
  obtain ⟨post, rfl⟩ := hpre
  rw [List.flatMap_append] at hclock
  have hsorted := (hclock.sublist (List.sublist_append_left _ _)).sublist hinOrder
  exact .of_kept hkept hsorted rfl fun action hslot => hlimitable.limited hslot

theorem throughout_undelayed (cfg : EngineConfig) (journalAttached : Bool) (p₀ : ℚ)
    (es : List MakerEvent) :
    (limited cfg).Throughout (start journalAttached p₀) (fun _ s e =>
      CancelUndelayed (limitedStep cfg s e).2 s.core (limitedStep cfg s e).1.core) es :=
  fun _ e hpre =>
    limitedStep_undelayed ((reachable_limitable cfg journalAttached p₀ es).before hpre) e

end MakerHedgeEngine

/-! ## The Lighter maker engine -/

def LighterMakerEvent.readings : LighterMakerEvent → List Int
  | .tick nowMs venues => [nowMs, venues.clock.retrySteadyMs, venues.clock.steadyMs]
  | _ => []

namespace LighterMakerTakerEngine

variable {cfg : EngineConfig} {venues : Venues} {s : LighterMakerTakerEngine}

def limiter (s : LighterMakerTakerEngine) : RateLimiter LimitedKind where
  last
    | .place => s.lastLighterPlaceMs
    | .cancel => s.lastLighterCancelMs
  slot := s.deferredLighterAction.bind Action.limited
  retryAt := s.nextRetrySteadyMs

theorem limiter_placed (steadyMs : Int) :
    limiter { s with
        lastLighterPlaceMs := steadyMs, nextRetrySteadyMs := none, deferredLighterAction := none } =
      { last := Function.update s.limiter.last .place steadyMs, slot := none, retryAt := none } := by
  simp only [limiter, RateLimiter.mk.injEq, and_true]
  refine ⟨?_, rfl⟩
  funext kind
  cases kind <;> rfl

theorem limiter_cancelled (steadyMs : Int) :
    limiter { s with
        lastLighterCancelMs := steadyMs, nextRetrySteadyMs := none
        deferredLighterAction := none } =
      { last := Function.update s.limiter.last .cancel steadyMs, slot := none, retryAt := none } := by
  simp only [limiter, RateLimiter.mk.injEq, and_true]
  refine ⟨?_, rfl⟩
  funext kind
  cases kind <;> rfl

abbrev timedPasses (steadyMs : Int) (o : LighterMakerOutcome) : List (LimitedKind × Int) :=
  (o.passes LighterMakerObs.limited steadyMs).map Pass.timed

theorem executePlace_limiter (steadyMs : Int) (reason : String) (order : PendingMakerOrder) :
    s.limiter.Move cfg.lighterOrderIntervalMs
      (timedPasses steadyMs (executePlaceLighterMaker cfg venues steadyMs s reason order))
      (executePlaceLighterMaker cfg venues steadyMs s reason order).state.limiter := by
  unfold executePlaceLighterMaker
  by_cases hdue : cfg.lighterOrderIntervalMs ≤ steadyMs - s.lastLighterPlaceMs
  · have hpass := @RateLimiter.Move.passed _ _ cfg.lighterOrderIntervalMs s.limiter .place steadyMs
      hdue
    rw [← limiter_placed] at hpass
    rw [lighterPlaceRetryAtMs, if_pos hdue]
    simp only
    split_ifs
    · exact hpass
    · exact hpass
  · rw [lighterPlaceRetryAtMs, if_neg hdue]
    exact .deferred LimitedKind.place steadyMs (not_le.mp hdue)

theorem executeCancel_limiter (steadyMs : Int) (reason : String) (order : PendingMakerOrder) :
    s.limiter.Move cfg.lighterOrderIntervalMs
      (timedPasses steadyMs (executeCancelLighterMaker cfg venues steadyMs s reason order))
      (executeCancelLighterMaker cfg venues steadyMs s reason order).state.limiter := by
  unfold executeCancelLighterMaker
  by_cases hdue : cfg.lighterOrderIntervalMs ≤ steadyMs - s.lastLighterCancelMs
  · have hpass := @RateLimiter.Move.passed _ _ cfg.lighterOrderIntervalMs s.limiter .cancel steadyMs
      hdue
    rw [← limiter_cancelled] at hpass
    rw [lighterCancelRetryAtMs, if_pos hdue]
    simp only
    cases s.activeLighterOrderIndex with
    | none => exact hpass
    | some orderIndex =>
      simp only
      split_ifs
      · exact hpass
      · exact hpass
  · rw [lighterCancelRetryAtMs, if_neg hdue]
    exact .deferred LimitedKind.cancel steadyMs (not_le.mp hdue)

/-- A hedge neither places nor cancels a maker order. -/
theorem executeSendHlTakerHedge_unlimited (intent : HlHedgeIntent) (snapshot : SpreadSnapshot)
    (steadyMs : Int) :
    (executeSendHlTakerHedge cfg venues s intent snapshot).state.limiter = s.limiter ∧
      (executeSendHlTakerHedge cfg venues s intent snapshot).passes LighterMakerObs.limited
        steadyMs = [] := by
  unfold executeSendHlTakerHedge
  simp only
  split_ifs <;> exact ⟨rfl, rfl⟩

theorem executeAction_limiter (steadyMs : Int) (action : Action) (snapshot : SpreadSnapshot) :
    s.limiter.Move cfg.lighterOrderIntervalMs
      (timedPasses steadyMs (executeAction cfg venues steadyMs s action snapshot))
      (executeAction cfg venues steadyMs s action snapshot).state.limiter := by
  cases action with
  | placeLighterMaker reason order => exact executePlace_limiter steadyMs reason order
  | cancelLighterMaker reason order => exact executeCancel_limiter steadyMs reason order
  | sendHlTakerHedge reason intent =>
    obtain ⟨hstate, hpasses⟩ :=
      @executeSendHlTakerHedge_unlimited cfg venues s intent snapshot steadyMs
    simp only [executeAction, timedPasses, hstate, hpasses]
    exact .idle
  | _ => exact .idle

theorem executeDeferred_limiter (nowMs : Int) (snapshot : SpreadSnapshot) :
    LimitedStep cfg.lighterOrderIntervalMs s.limiter
      ((executeDeferredLighterAction cfg venues s nowMs snapshot).passes LighterMakerObs.limited
        venues.clock.retrySteadyMs)
      [venues.clock.retrySteadyMs]
      (executeDeferredLighterAction cfg venues s nowMs snapshot).state.limiter := by
  unfold executeDeferredLighterAction
  cases s.deferredLighterAction with
  | none => exact .of_moves .idle .idle
  | some action =>
    simp only
    split_ifs
    · have htaken : s.limiter.Move cfg.lighterOrderIntervalMs [] s.takeDeferred.limiter := .taken
      exact .of_moves htaken (executeAction_limiter _ action snapshot)
    · exact .of_moves .idle .idle

theorem runStrategy_limiter (nowMs : Int) (snapshot : SpreadSnapshot) :
    s.limiter.Move cfg.lighterOrderIntervalMs
      (timedPasses venues.clock.steadyMs (runStrategy cfg venues s nowMs snapshot))
      (runStrategy cfg venues s nowMs snapshot).state.limiter := by
  unfold runStrategy
  generalize LighterMakerHlHedger.onMarketSnapshot cfg.strategy s.strategy snapshot nowMs = r
  obtain ⟨h, action⟩ := r
  exact @executeAction_limiter cfg venues { s with strategy := h } venues.clock.steadyMs action
    snapshot

theorem onLighterFill_unlimited (fillPrice size : ℚ) (snapshot : SpreadSnapshot) (orderIndex : Int)
    (steadyMs : Int) :
    (onLighterFill cfg venues s fillPrice size snapshot orderIndex).state.limiter = s.limiter ∧
      (onLighterFill cfg venues s fillPrice size snapshot orderIndex).passes
        LighterMakerObs.limited steadyMs = [] := by
  unfold onLighterFill
  split_ifs
  · cases hpending : s.strategy.pendingMaker with
    | none =>
      simp only [LighterMakerHlHedger.onLighterMakerFill, hpending]
      exact ⟨rfl, rfl⟩
    | some order =>
      simp only [LighterMakerHlHedger.onLighterMakerFill, hpending, executeAction]
      exact executeSendHlTakerHedge_unlimited _ snapshot steadyMs
  · exact ⟨rfl, rfl⟩

/-! ### Runs -/

/-- The engine as a machine that observes what gets past the limiters. -/
def limitedStep (cfg : EngineConfig) (s : LighterMakerTakerEngine) :
    LighterMakerEvent → LighterMakerTakerEngine × List Pass
  | .tick nowMs venues =>
    let snapshot := collectSnapshot cfg venues
    let deferred := executeDeferredLighterAction cfg venues s nowMs snapshot
    ((onMarketData cfg venues s nowMs).state,
      deferred.passes LighterMakerObs.limited venues.clock.retrySteadyMs ++
        if deferred.events.isEmpty then
          (runStrategy cfg venues deferred.state nowMs snapshot).passes LighterMakerObs.limited
            venues.clock.steadyMs
        else [])
  | .fill fillPrice fillSizeBase snapshot orderIndex venues =>
    let o := onLighterFill cfg venues s fillPrice fillSizeBase snapshot orderIndex
    (o.state, o.passes LighterMakerObs.limited venues.clock.steadyMs)

def limited (cfg : EngineConfig) :
    EventMachine LighterMakerTakerEngine LighterMakerEvent Pass where
  step := limitedStep cfg

theorem limitedStep_state (e : LighterMakerEvent) :
    (limitedStep cfg s e).1 = (step cfg s e).1 := by
  cases e <;> rfl

theorem limitedStep_call (e : LighterMakerEvent) :
    (limitedStep cfg s e).2.filterMap Pass.call =
      (step cfg s e).2.filterMap LighterMakerObs.limited := by
  cases e with
  | tick nowMs venues =>
    simp only [limitedStep, step, onMarketData, List.filterMap_append, Outcome.passes_call]
    split_ifs
    · rw [Outcome.passes_call, List.filterMap_append]
    · rw [List.filterMap_nil, List.append_nil]
  | fill fillPrice size snapshot orderIndex venues => exact Outcome.passes_call _

theorem limitedStep_limited (s : LighterMakerTakerEngine) (e : LighterMakerEvent) :
    LimitedStep cfg.lighterOrderIntervalMs s.limiter (limitedStep cfg s e).2 e.readings
      (limitedStep cfg s e).1.limiter := by
  cases e with
  | tick nowMs venues =>
    have hdeferred := @executeDeferred_limiter cfg venues s nowMs (collectSnapshot cfg venues)
    simp only [limitedStep, onMarketData]
    split_ifs
    · exact (hdeferred.append (.of_moves .idle (runStrategy_limiter nowMs _))).mono
        (List.sublist_cons_self ..)
    · rw [List.append_nil]
      exact hdeferred.mono (.cons _ (.cons_cons _ (List.nil_sublist _)))
  | fill fillPrice size snapshot orderIndex venues =>
    obtain ⟨hlimiter, hpasses⟩ :=
      @onLighterFill_unlimited cfg venues s fillPrice size snapshot orderIndex venues.clock.steadyMs
    exact .of_unlimited hlimiter hpasses _

theorem obs_limited (s : LighterMakerTakerEngine) (es : List LighterMakerEvent) :
    ((limited cfg).obs s es).filterMap Pass.call =
      ((machine cfg).obs s es).filterMap LighterMakerObs.limited :=
  EventMachine.filterMap_obs (fun _ => limitedStep_state) (fun _ => limitedStep_call) s es

structure Limitable (s : LighterMakerTakerEngine) : Prop where
  deferred : LighterMaker.DeferredMaker s
  cancel : CancelWaits LighterMakerHlHedger.leg s.core

theorem Limitable.step (h : Limitable s) (e : LighterMakerEvent) :
    Limitable (LighterMakerTakerEngine.step cfg s e).1 := by
  refine @LighterMaker.step_preserves cfg s (fun _ s => Limitable s) [] h.deferred e ?_ ?_ h
  · intro past t l t' ht hm
    exact ⟨hm.deferredMaker ht.deferred,
      hm.core.cancelWaits ht.cancel StrategyState.noConfusion⟩
  · intro orderIndex size l t' _ hm
    exact ⟨hm.deferredMaker h.deferred, hm.core.cancelWaits h.cancel⟩

theorem place_not_mem {l : List LighterMakerObs} (h : l.any (·.isPlacement) = false) :
    LimitedKind.place ∉ l.filterMap LighterMakerObs.limited := by
  intro hmem
  obtain ⟨o, ho, hkind⟩ := List.mem_filterMap.mp hmem
  have hno := List.any_eq_false.mp h o ho
  cases o with
  | placeLimit => exact hno rfl
  | _ => cases hkind

theorem QuietMoves.cancelling {s' : LighterMakerTakerEngine}
    (hms : LighterMaker.QuietMoves cfg s s') (h : Cancelling LighterMakerHlHedger.leg s.core) :
    Cancelling LighterMakerHlHedger.leg s'.core := by
  cases hms with
  | refl => exact h
  | single hm =>
    refine (hm.core.cancelling h StrategyState.noConfusion).2.2 ?_
    rw [LighterMakerTakerEngine.core, hm.active_of_quiet rfl]
    exact h.active

theorem limitedStep_undelayed (h : Limitable s) (e : LighterMakerEvent) :
    CancelUndelayed (limitedStep cfg s e).2 s.core (limitedStep cfg s e).1.core := by
  intro hwaiting hactive
  have hc := Cancelling.of_waits h.cancel hwaiting hactive
  suffices hstep : (LighterMakerTakerEngine.step cfg s e).2.any (·.isPlacement) = false ∧
      (LighterMakerTakerEngine.step cfg s e).1.core.waiting ≠ .place by
    rw [← limitedStep_state] at hstep
    refine ⟨callTimes_eq_nil ?_, hstep.2⟩
    rw [limitedStep_call]
    exact place_not_mem hstep.1
  cases e with
  | tick nowMs venues =>
    obtain ⟨s₁, hquiet, hlast⟩ := @LighterMaker.onMarketData_move cfg s h.deferred nowMs venues
    obtain ⟨hsent, hslot, -⟩ :=
      hlast.core.cancelling (QuietMoves.cancelling hquiet hc) StrategyState.noConfusion
    exact ⟨hsent, hslot⟩
  | fill fillPrice size snapshot orderIndex venues =>
    have hm := @LighterMaker.onLighterFill_fillMove cfg s fillPrice size snapshot orderIndex venues
    exact ⟨hm.sends_no_placement, hm.core.waiting_eq ▸ hc.waiting⟩

theorem start_kept (journalAttached : Bool) :
    (start journalAttached).limiter.Kept cfg.lighterOrderIntervalMs (fun _ => 0) [] := by
  have hlast : (start journalAttached).limiter.last = fun _ => 0 := by
    funext kind
    cases kind <;> rfl
  rw [← hlast]
  exact .init rfl rfl

theorem start_limitable (journalAttached : Bool) : Limitable (start journalAttached) :=
  ⟨.of_none rfl, fun hwaiting => nomatch hwaiting⟩

theorem Limitable.limited (h : Limitable s) {action : Action}
    (hslot : action ∈ s.deferredLighterAction) : action.limited.isSome = true := by
  rcases h.deferred action hslot with ⟨reason, order, rfl⟩ | ⟨reason, order, rfl⟩ <;> rfl

theorem reachable_limitable (cfg : EngineConfig) (journalAttached : Bool)
    (es : List LighterMakerEvent) :
    (limited cfg).Always (start journalAttached) (fun _ s => Limitable s) es := by
  refine EventMachine.invariant (start_limitable journalAttached) (fun _ s e h => ?_) es
  rw [show ((limited cfg).step s e).1 = (LighterMakerTakerEngine.step cfg s e).1
    from limitedStep_state e]
  exact h.step e

theorem always_rateLimited (cfg : EngineConfig) (journalAttached : Bool)
    {es : List LighterMakerEvent}
    (hclock : (es.flatMap LighterMakerEvent.readings).Pairwise (· ≤ ·)) :
    (limited cfg).Always (start journalAttached) (fun passes s =>
      RateLimited cfg.lighterOrderIntervalMs passes s.deferredLighterAction
        s.nextRetrySteadyMs) es := by
  intro pre hpre
  have hlimitable := reachable_limitable cfg journalAttached es pre hpre
  have hkept := LimitedStep.kept_always (m := limited cfg) limitedStep_limited
    (start_kept journalAttached) es pre hpre
  have hinOrder := LimitedStep.obs_inOrder (m := limited cfg) limitedStep_limited
    (start journalAttached) pre
  obtain ⟨post, rfl⟩ := hpre
  rw [List.flatMap_append] at hclock
  have hsorted := (hclock.sublist (List.sublist_append_left _ _)).sublist hinOrder
  exact .of_kept hkept hsorted rfl fun action hslot => hlimitable.limited hslot

theorem throughout_undelayed (cfg : EngineConfig) (journalAttached : Bool)
    (es : List LighterMakerEvent) :
    (limited cfg).Throughout (start journalAttached) (fun _ s e =>
      CancelUndelayed (limitedStep cfg s e).2 s.core (limitedStep cfg s e).1.core) es :=
  fun _ e hpre =>
    limitedStep_undelayed ((reachable_limitable cfg journalAttached es).before hpre) e

end LighterMakerTakerEngine

/-! ## Both engines -/

/-- In every run whose steady clock does not go back, both engines keep their limits, and no
placement delays the cancel of an active order. -/
theorem rate_limits (cfg : EngineConfig) (journalAttached : Bool) (p₀ : ℚ) (es : List MakerEvent)
    (les : List LighterMakerEvent)
    (hclock : (es.flatMap MakerEvent.readings).Pairwise (· ≤ ·))
    (hlighterClock : (les.flatMap LighterMakerEvent.readings).Pairwise (· ≤ ·)) :
    ((MakerHedgeEngine.limited cfg).Always (MakerHedgeEngine.start journalAttached p₀)
        (fun passes s =>
          RateLimited cfg.hlOrderIntervalMs passes s.deferredHlAction s.nextRetrySteadyMs) es ∧
      (MakerHedgeEngine.limited cfg).Throughout (MakerHedgeEngine.start journalAttached p₀)
        (fun _ s e => CancelUndelayed (MakerHedgeEngine.limitedStep cfg s e).2 s.core
          (MakerHedgeEngine.limitedStep cfg s e).1.core) es) ∧
    ((LighterMakerTakerEngine.limited cfg).Always (LighterMakerTakerEngine.start journalAttached)
        (fun passes s => RateLimited cfg.lighterOrderIntervalMs passes s.deferredLighterAction
          s.nextRetrySteadyMs) les ∧
      (LighterMakerTakerEngine.limited cfg).Throughout
        (LighterMakerTakerEngine.start journalAttached)
        (fun _ s e => CancelUndelayed (LighterMakerTakerEngine.limitedStep cfg s e).2 s.core
          (LighterMakerTakerEngine.limitedStep cfg s e).1.core) les) :=
  ⟨⟨MakerHedgeEngine.always_rateLimited cfg journalAttached p₀ hclock,
      MakerHedgeEngine.throughout_undelayed cfg journalAttached p₀ es⟩,
    LighterMakerTakerEngine.always_rateLimited cfg journalAttached hlighterClock,
    LighterMakerTakerEngine.throughout_undelayed cfg journalAttached les⟩

/-! A cancel after a rejected placement calls nothing, and still sets the limiter that a later cancel
waits for. -/

def slowConfig : EngineConfig := { sampleConfig with hlOrderIntervalMs := 1000 }

def emptyCancel : List MakerEvent :=
  [tickUp 1000 "1", tickDown 2000 "", tickUpRejecting 3000, tickDown 3500 "", fillOf "1" 0.25,
    tickUp 4000 "2", tickDown 4200 ""]

theorem rate_limits_emptyCancel :
    RateLimited 1000
        ((MakerHedgeEngine.limited slowConfig).obs (MakerHedgeEngine.start false 0) emptyCancel)
        ((MakerHedgeEngine.limited slowConfig).final (MakerHedgeEngine.start false 0)
          emptyCancel).deferredHlAction
        ((MakerHedgeEngine.limited slowConfig).final (MakerHedgeEngine.start false 0)
          emptyCancel).nextRetrySteadyMs ∧
      RateLimited 500
        ((LighterMakerTakerEngine.limited slowConfig).obs (LighterMakerTakerEngine.start false)
          [LighterMaker.tickUp 1000, LighterMaker.tickDown 2000])
        ((LighterMakerTakerEngine.limited slowConfig).final (LighterMakerTakerEngine.start false)
          [LighterMaker.tickUp 1000, LighterMaker.tickDown 2000]).deferredLighterAction
        ((LighterMakerTakerEngine.limited slowConfig).final (LighterMakerTakerEngine.start false)
          [LighterMaker.tickUp 1000, LighterMaker.tickDown 2000]).nextRetrySteadyMs := by
  obtain ⟨⟨hmaker, -⟩, hlighter, -⟩ := rate_limits slowConfig false 0 emptyCancel
    [LighterMaker.tickUp 1000, LighterMaker.tickDown 2000] (by decide) (by decide)
  exact ⟨hmaker.last, hlighter.last⟩

def slowerConfig : EngineConfig := { sampleConfig with hlOrderIntervalMs := 2000 }

/-- The cancel of order `"2"` waits for its limiter when a part of the order is filled. -/
def partFilled : List MakerEvent :=
  [tickUp 2000 "1", tickDown 3500 "", tickUp 4000 "2", tickDown 4100 "", fillOf "2" 0.25]

/-- The only call for a cancel is at 2000, and the stored cancel waits until 4500. In the second run
order `"2"` rests on HL with the remainder and is not active any more: the next placement takes the
slot from its cancel. -/
theorem emptyCancel_retry :
    (callTimes .cancel ((MakerHedgeEngine.limited slowConfig).obs
        (MakerHedgeEngine.start false 0) emptyCancel) = [2000] ∧
      ((MakerHedgeEngine.limited slowConfig).final (MakerHedgeEngine.start false 0)
        emptyCancel).core.waiting = .cancel ∧
      ((MakerHedgeEngine.limited slowConfig).final (MakerHedgeEngine.start false 0)
        emptyCancel).nextRetrySteadyMs = some 4500 ∧
      2000 + slowConfig.hlOrderIntervalMs ≠ 4500 ∧
      (emptyCancel.flatMap MakerEvent.readings).Pairwise (· ≤ ·)) ∧
    (((MakerHedgeEngine.limited slowerConfig).final (MakerHedgeEngine.start false 0)
        partFilled).core.waiting = .cancel ∧
      ((MakerHedgeEngine.limited slowerConfig).final (MakerHedgeEngine.start false 0)
        (partFilled ++ [tickUp 5000 "3"])).core.waiting = .place ∧
      "2" ∈ (orderTally ((MakerHedgeEngine.machine slowerConfig).obs
        (MakerHedgeEngine.start false 0) (partFilled ++ [tickUp 5000 "3"]))).live.map Prod.fst ∧
      ((partFilled ++ [tickUp 5000 "3"]).flatMap MakerEvent.readings).Pairwise (· ≤ ·)) := by
  decide +kernel

end Arb
