import HlLighterArb.LighterMaker.Moves
import HlLighterArb.Maker.OrderBook
import Mathlib.Tactic.FieldSimp

/-!
# HlLighterArb.Progress

Which states an engine can still place a maker order from. Given ticks at times of the exchanges'
choosing, with books as wide as the entry threshold and every request acknowledged, an engine
places again from every reachable state that is not `Stranded`. From a stranded one no run of ticks
helps, whatever the books show and the exchanges answer.

* `wideTick`: a market that is exactly `spreadBps` apart, in a given direction.
* `MakerHedgeEngine.canPlace_iff`, `LighterMakerTakerEngine.canPlace_iff`: in every reachable state
  the engine can place if and only if it is not stranded.
* `MakerHedgeEngine.stranded_sends_nothing`, `LighterMakerTakerEngine.stranded_sends_nothing`: from
  a stranded state no run of ticks sends a placement.
* `canPlace_iff_not_stranded`: both engines together.
-/

namespace Arb

/-! ## Markets that make an engine act -/

/-- A tick at `atMs`, with books around the two mids and exchanges that acknowledge everything. -/
structure MarketTick where
  atMs : Int
  hlMid : ℚ
  lighterMid : ℚ

def MarketTick.venues (k : MarketTick) : Venues :=
  obligingVenues k.hlMid k.lighterMid k.atMs "placed"

/-- The times of the ticks start at `t₀` or later and never go back. -/
def TimesFrom (t₀ : Int) : List MarketTick → Prop
  | [] => True
  | k :: ks => t₀ ≤ k.atMs ∧ TimesFrom k.atMs ks

/-- The mid that is `spreadBps` above a mid of 2. -/
def farMid (spreadBps : ℚ) : ℚ :=
  2 * (20000 + spreadBps) / (20000 - spreadBps)

def wideTick (spreadBps : ℚ) (d : Direction) (atMs : Int) : MarketTick where
  atMs := atMs
  hlMid := match d with
    | .shortLighterLongHl => 2
    | .longLighterShortHl => farMid spreadBps
  lighterMid := match d with
    | .shortLighterLongHl => farMid spreadBps
    | .longLighterShortHl => 2

def MarketTick.snapshot (k : MarketTick) : SpreadSnapshot :=
  spreadSnapshot (bookAround k.hlMid) (bookAround k.lighterMid)

theorem bookAround_mid {mid : ℚ} (h : 1 < mid) : (bookAround mid).mid = mid := by
  rw [Bbo.mid_of_pos (show 0 < mid - 1 by linarith) (show 0 < mid + 1 by linarith)]
  simp only [bookAround]
  ring

theorem farMid_gt {spreadBps : ℚ} (hpos : 0 < spreadBps) (hmax : spreadBps < 20000) :
    2 < farMid spreadBps := by
  rw [farMid, lt_div_iff₀ (by linarith)]
  linarith

theorem farMid_apart {spreadBps : ℚ} (hpos : 0 < spreadBps) (hmax : spreadBps < 20000) :
    (farMid spreadBps - 2) / ((farMid spreadBps + 2) / 2) * 10000 = spreadBps := by
  have hne : 20000 - spreadBps ≠ 0 := by linarith
  have hlow : farMid spreadBps - 2 = 4 * spreadBps / (20000 - spreadBps) := by
    rw [farMid, div_sub' hne]
    ring
  have hhigh : farMid spreadBps + 2 = 80000 / (20000 - spreadBps) := by
    rw [farMid, div_add' _ _ _ hne]
    ring
  rw [hlow, hhigh]
  field_simp
  ring

/-- A wide market is valid, exactly `spreadBps` apart, and in its direction. -/
theorem wideTick_snapshot {spreadBps : ℚ} (hpos : 0 < spreadBps) (hmax : spreadBps < 20000)
    (d : Direction) (atMs : Int) {age : Int} (hage : 0 ≤ age) :
    (wideTick spreadBps d atMs).snapshot.valid age = true ∧
      |(wideTick spreadBps d atMs).snapshot.crossSpreadBps| = spreadBps ∧
      directionForSpread (wideTick spreadBps d atMs).snapshot.crossSpreadBps = d := by
  have hfar := farMid_gt hpos hmax
  have hnear : (bookAround 2).mid = 2 := bookAround_mid (by norm_num)
  have hwide : (bookAround (farMid spreadBps)).mid = farMid spreadBps :=
    bookAround_mid (by linarith)
  have hapart := farMid_apart hpos hmax
  have hages : ∀ mid, (bookAround mid).quoteAgeMs ≤ age := fun _ => hage
  rw [SpreadSnapshot.valid_iff]
  cases d with
  | shortLighterLongHl =>
    have hcross : (wideTick spreadBps .shortLighterLongHl atMs).snapshot.crossSpreadBps =
        spreadBps := by
      simp only [MarketTick.snapshot, wideTick, spreadSnapshot, hnear, hwide]
      rw [if_pos (by linarith), add_comm 2, hapart]
    rw [hcross, abs_of_pos hpos, directionForSpread, if_pos hpos.le]
    exact ⟨⟨hwide.symm ▸ (by linarith), hnear.symm ▸ (by norm_num), hages _, hages _⟩, rfl, rfl⟩
  | longLighterShortHl =>
    have hcross : (wideTick spreadBps .longLighterShortHl atMs).snapshot.crossSpreadBps =
        -spreadBps := by
      simp only [MarketTick.snapshot, wideTick, spreadSnapshot, hnear, hwide]
      rw [if_pos (by linarith), ← neg_sub, neg_div, neg_mul, hapart]
    rw [hcross, abs_neg, abs_of_pos hpos, directionForSpread, if_neg (by linarith)]
    exact ⟨⟨hnear.symm ▸ (by norm_num), hwide.symm ▸ (by linarith), hages _, hages _⟩, rfl, rfl⟩

def Direction.opposite : Direction → Direction
  | .shortLighterLongHl => .longLighterShortHl
  | .longLighterShortHl => .shortLighterLongHl

theorem Direction.opposite_ne (d : Direction) : d.opposite ≠ d := by
  cases d <;> exact Direction.noConfusion

theorem effectiveSpreadBps_le (cfg : HedgerConfig) (spread pos : ℚ) :
    HlMakerLighterHedger.effectiveSpreadBps cfg spread pos ≤ cfg.spreadBps := by
  simp only [HlMakerLighterHedger.effectiveSpreadBps]
  split_ifs with h1 h2 h3 h4 h5 <;> first | exact le_refl _ | exact (not_le.mp h2).le

/-- The entry spread of an engine that some market can reach, with quotes that can be fresh. -/
structure Enterable (cfg : EngineConfig) : Prop where
  spread : cfg.strategy.spreadBps < 20000
  age : 0 ≤ cfg.strategy.maxQuoteAgeMs

/-! ## Runs of ticks

Either engine is a machine whose ticks come from `MarketTick`s; `sends` tells its placements. -/

section Ticks

variable {σ ε ο : Type} {m : EventMachine σ ε ο} {tick : MarketTick → ε} {sends : ο → Bool} {s : σ}

/-- One tick that sends is enough. -/
theorem exists_sends_of_tick (h : ∀ t₀, ∃ k : MarketTick, t₀ ≤ k.atMs ∧
      (m.step s (tick k)).2.any sends = true) (t₀ : Int) :
    ∃ ks, TimesFrom t₀ ks ∧ (m.obs s (ks.map tick)).any sends = true := by
  obtain ⟨k, hat, hsend⟩ := h t₀
  refine ⟨[k], ⟨hat, trivial⟩, ?_⟩
  rw [List.map_cons, EventMachine.obs_cons, List.any_append]
  exact Bool.or_eq_true_iff.mpr (.inl hsend)

/-- So is one tick to a state from which ticks send. -/
theorem exists_sends_of_next (h : ∀ t₀, ∃ k : MarketTick, t₀ ≤ k.atMs ∧
      ∀ t₁, ∃ ks, TimesFrom t₁ ks ∧ (m.obs (m.step s (tick k)).1 (ks.map tick)).any sends = true)
    (t₀ : Int) : ∃ ks, TimesFrom t₀ ks ∧ (m.obs s (ks.map tick)).any sends = true := by
  obtain ⟨k, hat, hnext⟩ := h t₀
  obtain ⟨ks, htimes, hsend⟩ := hnext k.atMs
  refine ⟨k :: ks, ⟨hat, htimes⟩, ?_⟩
  rw [List.map_cons, EventMachine.obs_cons, List.any_append]
  exact Bool.or_eq_true_iff.mpr (.inr hsend)

/-- Where every event of a kind keeps `P` and sends nothing, no run of such events sends. -/
theorem sends_nothing {P : σ → Prop} {kind : ε → Prop} (hstep : ∀ s e, kind e → P s →
      P (m.step s e).1 ∧ (m.step s e).2.any sends = false) (es : List ε) (hes : ∀ e ∈ es, kind e)
    (h : P s) : (m.obs s es).any sends = false := by
  induction es generalizing s with
  | nil => rfl
  | cons e es ih =>
    obtain ⟨he, hrest⟩ := List.forall_mem_cons.mp hes
    obtain ⟨hnext, hquiet⟩ := hstep s e he h
    rw [EventMachine.obs_cons, List.any_append]
    exact Bool.or_eq_false_iff.mpr ⟨hquiet, ih hrest hnext⟩

end Ticks

/-- Every waiting period ends. -/
theorem exists_late (t₀ rearm disarmed interval placed cancelled : Int) (retry : Option Int) :
    ∃ t, t₀ ≤ t ∧ rearm ≤ t - disarmed ∧ interval ≤ t - placed ∧ interval ≤ t - cancelled ∧
      ∀ retryAt, retry = some retryAt → retryAt ≤ t := by
  refine ⟨max t₀ (max (rearm + disarmed) (max (interval + placed) (max (interval + cancelled)
    (retry.getD 0)))), by omega, by omega, by omega, by omega, ?_⟩
  rintro retryAt rfl
  rw [Option.getD_some]
  omega

/-- The event is a call of `on_market_data`, at any time, with any books and any answers. -/
def MakerEvent.IsTick (e : MakerEvent) : Prop :=
  ∃ nowMs venues, e = .tick nowMs venues

def LighterMakerEvent.IsTick (e : LighterMakerEvent) : Prop :=
  ∃ nowMs venues, e = .tick nowMs venues

/-! ## The HL-maker engine -/

namespace MakerHedgeEngine

variable {cfg : EngineConfig} {s : MakerHedgeEngine}

def tickEvent (k : MarketTick) : MakerEvent :=
  .tick k.atMs k.venues

theorem isTick_tickEvents (ks : List MarketTick) : ∀ e ∈ ks.map tickEvent, e.IsTick :=
  List.forall_mem_map.mpr fun k _ => ⟨k.atMs, k.venues, rfl⟩

/-- Whatever the time is, some further ticks make the engine send a maker order. -/
def CanPlace (cfg : EngineConfig) (s : MakerHedgeEngine) : Prop :=
  ∀ t₀, ∃ ks, TimesFrom t₀ ks ∧
    ((machine cfg).obs s (ks.map tickEvent)).any (·.isPlacement) = true

/-- No run of ticks makes the engine send a maker order. -/
def NeverPlaces (cfg : EngineConfig) (s : MakerHedgeEngine) : Prop :=
  ∀ es : List MakerEvent, (∀ e ∈ es, e.IsTick) →
    ((machine cfg).obs s es).any (·.isPlacement) = false

/-- At `t` no limit on the rate of calls or of entries applies any more. -/
structure LateEnough (cfg : EngineConfig) (s : MakerHedgeEngine) (t : Int) : Prop where
  rearm : cfg.strategy.minRearmMs ≤ t - s.strategy.lastDisarmMs
  place : cfg.hlOrderIntervalMs ≤ t - s.lastHlPlaceMs
  cancel : cfg.hlOrderIntervalMs ≤ t - s.lastHlCancelMs
  retry : s.retryDue t = true

theorem exists_lateEnough (cfg : EngineConfig) (s : MakerHedgeEngine) (t₀ : Int) :
    ∃ t, t₀ ≤ t ∧ LateEnough cfg s t := by
  obtain ⟨t, ht, hrearm, hplace, hcancel, hretry⟩ :=
    exists_late t₀ cfg.strategy.minRearmMs s.strategy.lastDisarmMs cfg.hlOrderIntervalMs
      s.lastHlPlaceMs s.lastHlCancelMs s.nextRetrySteadyMs
  refine ⟨t, ht, hrearm, hplace, hcancel, ?_⟩
  unfold retryDue
  cases hs : s.nextRetrySteadyMs with
  | none => rfl
  | some retryAt => exact decide_eq_true (hretry retryAt hs)

/-- The direction that never grows the position. -/
def reducingDirection (s : MakerHedgeEngine) : Direction :=
  if 0 ≤ s.hlPositionBase then .longLighterShortHl else .shortLighterLongHl

theorem limitBlocks_reducing (cfg : EngineConfig) (s : MakerHedgeEngine) (mid : ℚ) :
    s.limitBlocks cfg mid s.reducingDirection.isBuyHl = false := by
  unfold limitBlocks reducingDirection
  split_ifs with h
  · simp [Direction.isBuyHl, not_lt.mpr h]
  · simp [Direction.isBuyHl, h]

/-- Idle, unarmed, nothing deferred: the next wide market makes the engine place. -/
structure Ready (s : MakerHedgeEngine) : Prop where
  idle : s.strategy.state = .idle
  unarmed : s.strategy.gate.armed = false
  nothing : s.deferredHlAction = none

theorem executePlace_calls (venues : Venues) (steadyMs : Int) (reason : String)
    (order : PendingMakerOrder) (snapshot : SpreadSnapshot)
    (allowed : s.limitBlocks cfg snapshot.hl.mid order.isBuy = false)
    (late : cfg.hlOrderIntervalMs ≤ steadyMs - s.lastHlPlaceMs) :
    (executePlaceHlMaker cfg venues steadyMs s reason order snapshot).calls =
        [.placeLimit (limitRequest cfg order)
          (venues.hl.placeLimitOrder (limitRequest cfg order))] ∧
      (executePlaceHlMaker cfg venues steadyMs s reason order snapshot).events ≠ [] := by
  have hretry : s.hlPlaceRetryAtMs cfg steadyMs = none := if_pos late
  simp only [executePlaceHlMaker, allowed, hretry, Bool.false_eq_true, if_false]
  split_ifs <;> exact ⟨rfl, List.cons_ne_nil _ _⟩

theorem runStrategy_sends (venues : Venues) (snapshot : SpreadSnapshot) (nowMs : Int)
    (idle : s.strategy.state = .idle) (unarmed : s.strategy.gate.armed = false)
    (valid : snapshot.valid cfg.strategy.maxQuoteAgeMs = true)
    (wide : cfg.strategy.spreadBps ≤ |snapshot.crossSpreadBps|)
    (direction : directionForSpread snapshot.crossSpreadBps = s.reducingDirection)
    (rearm : cfg.strategy.minRearmMs ≤ nowMs - s.strategy.lastDisarmMs)
    (late : cfg.hlOrderIntervalMs ≤ venues.clock.steadyMs - s.lastHlPlaceMs) :
    (runStrategy cfg venues s nowMs snapshot).calls.any (·.isPlacement) = true := by
  have hentry := (effectiveSpreadBps_le cfg.strategy snapshot.crossSpreadBps s.hlPositionBase).trans
    wide
  have haction := @Hedger.onSnapshot_places HlMakerLighterHedger.leg cfg.strategy s.strategy
    snapshot _ (HlMakerLighterHedger.buildMakerOrder cfg.strategy snapshot)
    (fun gate => if gate.entrySpreadBps < cfg.strategy.spreadBps then
      "spread reached close threshold" else "spread reached entry threshold")
    nowMs idle unarmed valid hentry (decide_eq_true rearm)
  have hside := HlMakerLighterHedger.buildMakerOrder_isBuy cfg.strategy snapshot
    (armedGate snapshot.crossSpreadBps (HlMakerLighterHedger.effectiveSpreadBps cfg.strategy
      snapshot.crossSpreadBps s.hlPositionBase))
  replace hside := hside.trans (congrArg Direction.isBuyHl direction)
  unfold runStrategy
  rw [HlMakerLighterHedger.onMarketSnapshot_eq]
  generalize Hedger.onSnapshot _ _ _ _ _ _ _ _ = r at haction ⊢
  obtain ⟨h, action⟩ := r
  simp only at haction
  subst haction
  generalize HlMakerLighterHedger.buildMakerOrder cfg.strategy snapshot _ = order at hside ⊢
  have hallowed : s.limitBlocks cfg snapshot.hl.mid order.isBuy = false := by
    rw [hside]
    exact limitBlocks_reducing cfg s _
  have hcheck : ¬ (s.positionLimitReached cfg snapshot.hl.mid &&
      ((0 ≤ s.hlPositionBase && order.isBuy) || (s.hlPositionBase < 0 && !order.isBuy))) = true :=
    Bool.eq_false_iff.mp hallowed
  simp only [HlMakerLighterHedger.leg, if_neg hcheck, executeAction]
  have hplace := @executePlace_calls cfg { s with strategy := h } venues venues.clock.steadyMs
  rw [(hplace _ order snapshot hallowed late).1]
  rfl

theorem onMarketData_of_nothing (venues : Venues) (nowMs : Int) (h : s.deferredHlAction = none) :
    (onMarketData cfg venues s nowMs).calls =
        (runStrategy cfg venues s nowMs (collectSnapshot cfg venues)).calls ∧
      (onMarketData cfg venues s nowMs).state =
        (runStrategy cfg venues s nowMs (collectSnapshot cfg venues)).state := by
  simp [onMarketData, executeDeferredHlAction, h]

/-- A wide tick in the reducing direction makes a ready engine place. -/
theorem Ready.sends (hready : Ready s) (hcfg : Enterable cfg) {t : Int}
    (hlate : LateEnough cfg s t) :
    (step cfg s (tickEvent (wideTick cfg.strategy.spreadBps s.reducingDirection t))).2.any
      (·.isPlacement) = true := by
  obtain ⟨hvalid, hspread, hdirection⟩ := wideTick_snapshot cfg.strategy.spread_pos hcfg.spread
    s.reducingDirection t hcfg.age
  have hcalls := (@onMarketData_of_nothing cfg s
    (wideTick cfg.strategy.spreadBps s.reducingDirection t).venues t hready.nothing).1
  simp only [step, tickEvent]
  rw [show (wideTick cfg.strategy.spreadBps s.reducingDirection t).atMs = t from rfl, hcalls]
  exact runStrategy_sends _ _ t hready.idle hready.unarmed hvalid hspread.ge hdirection hlate.rearm
    hlate.place

/-- So it does when a placement waits: it is sent, or blocked and decided anew. -/
theorem deferredPlace_sends (hcfg : Enterable cfg) {t : Int} (hlate : LateEnough cfg s t)
    {reason : String} {order : PendingMakerOrder}
    (slot : s.deferredHlAction = some (.placeHlMaker reason order)) :
    (step cfg s (tickEvent (wideTick cfg.strategy.spreadBps s.reducingDirection t))).2.any
      (·.isPlacement) = true := by
  obtain ⟨hvalid, hspread, hdirection⟩ := wideTick_snapshot cfg.strategy.spread_pos hcfg.spread
    s.reducingDirection t hcfg.age
  generalize hk : wideTick cfg.strategy.spreadBps s.reducingDirection t = k at *
  have hat : k.atMs = t := hk ▸ rfl
  have hdeferred : executeDeferredHlAction cfg k.venues s k.atMs k.snapshot =
      executePlaceHlMaker cfg k.venues k.atMs s.takeDeferred reason order k.snapshot := by
    rw [executeDeferredHlAction, slot]
    exact if_pos (hat ▸ hlate.retry)
  change (onMarketData cfg k.venues s k.atMs).calls.any _ = true
  simp only [onMarketData]
  rw [show collectSnapshot cfg k.venues = k.snapshot from rfl, hdeferred]
  cases hblocks : s.takeDeferred.limitBlocks cfg k.snapshot.hl.mid order.isBuy with
  | true =>
    have hreset : executePlaceHlMaker cfg k.venues k.atMs s.takeDeferred reason order k.snapshot =
        { state := s.takeDeferred.resetStrategy } := by
      rw [executePlaceHlMaker, if_pos hblocks]
    rw [hreset]
    subst hat
    exact @runStrategy_sends cfg s.takeDeferred.resetStrategy k.venues k.snapshot k.atMs rfl
      rfl hvalid hspread.ge hdirection hlate.rearm hlate.place
  | false =>
    obtain ⟨hcalls, hevents⟩ := executePlace_calls k.venues k.atMs reason order k.snapshot hblocks
      (hat ▸ hlate.place)
    rw [if_neg (by simpa [List.isEmpty_iff] using hevents), hcalls]
    rfl

/-- An acknowledged cancel, or a cancel of an idle engine, leaves the engine ready. -/
theorem executeCancel_ready (venues : Venues) (steadyMs : Int) (reason : String)
    (order : PendingMakerOrder) (snapshot : SpreadSnapshot)
    (acks : ∀ oid, (venues.hl.cancelOrder cfg.hlCoin oid cfg.dryRun).ok = true)
    (late : cfg.hlOrderIntervalMs ≤ steadyMs - s.lastHlCancelMs)
    (h : s.strategy.state = .idle ∧ s.strategy.gate.armed = false ∨ s.activeHlOid ≠ none) :
    Ready (executeCancelHlMaker cfg venues steadyMs s reason order snapshot).state ∧
      (executeCancelHlMaker cfg venues steadyMs s reason order snapshot).events ≠ [] := by
  have hretry : s.hlCancelRetryAtMs cfg steadyMs = none := if_pos late
  simp only [executeCancelHlMaker, hretry]
  cases hactive : s.activeHlOid with
  | none =>
    obtain ⟨hidle, hunarmed⟩ := h.resolve_right (fun hne => hne hactive)
    exact ⟨⟨hidle, hunarmed, rfl⟩, List.cons_ne_nil _ _⟩
  | some oid =>
    simp only [acks oid, if_true]
    split_ifs <;> exact ⟨⟨rfl, rfl, rfl⟩, List.cons_ne_nil _ _⟩

theorem deferredCancel_ready (k : MarketTick) (hlate : LateEnough cfg s k.atMs) {reason : String}
    {order : PendingMakerOrder} (slot : s.deferredHlAction = some (.cancelHlMaker reason order))
    (h : s.strategy.state = .idle ∧ s.strategy.gate.armed = false ∨ s.activeHlOid ≠ none) :
    Ready (step cfg s (tickEvent k)).1 := by
  have hdeferred : executeDeferredHlAction cfg k.venues s k.atMs k.snapshot =
      executeCancelHlMaker cfg k.venues k.atMs s.takeDeferred reason order k.snapshot := by
    rw [executeDeferredHlAction, slot]
    exact if_pos hlate.retry
  obtain ⟨hready, hevents⟩ := @executeCancel_ready cfg s.takeDeferred k.venues k.atMs reason order
    k.snapshot (fun _ => rfl) hlate.cancel h
  change Ready (onMarketData cfg k.venues s k.atMs).state
  simp only [onMarketData]
  rw [show collectSnapshot cfg k.venues = k.snapshot from rfl, hdeferred,
    if_neg (by simpa [List.isEmpty_iff] using hevents)]
  exact hready

/-- A wide tick against the pending order cancels it and leaves the engine ready. -/
theorem pendingCancel_ready (hcfg : Enterable cfg) {t : Int} (hlate : LateEnough cfg s t)
    {order : PendingMakerOrder} (pending : s.strategy.state = .pendingHlMaker)
    (hasOrder : s.strategy.pendingMaker = some order) (active : s.activeHlOid ≠ none)
    (nothing : s.deferredHlAction = none) :
    Ready (step cfg s (tickEvent (wideTick cfg.strategy.spreadBps order.direction.opposite t))).1 := by
  obtain ⟨hvalid, -, hdirection⟩ := wideTick_snapshot cfg.strategy.spread_pos hcfg.spread
    order.direction.opposite t hcfg.age
  generalize hk : wideTick cfg.strategy.spreadBps order.direction.opposite t = k at *
  have hat : k.atMs = t := hk ▸ rfl
  have hagainst : directionForSpread k.snapshot.crossSpreadBps ≠ order.direction :=
    hdirection ▸ order.direction.opposite_ne
  have haction := @Hedger.onSnapshot_cancels HlMakerLighterHedger.leg cfg.strategy s.strategy
    k.snapshot (HlMakerLighterHedger.effectiveSpreadBps cfg.strategy k.snapshot.crossSpreadBps
      s.hlPositionBase) (HlMakerLighterHedger.buildMakerOrder cfg.strategy k.snapshot)
    (fun gate => if gate.entrySpreadBps < cfg.strategy.spreadBps then
      "spread reached close threshold" else "spread reached entry threshold")
    k.atMs order pending StrategyState.noConfusion hasOrder hvalid hagainst
  change Ready (onMarketData cfg k.venues s k.atMs).state
  rw [(onMarketData_of_nothing k.venues k.atMs nothing).2]
  rw [show collectSnapshot cfg k.venues = k.snapshot from rfl]
  unfold runStrategy
  rw [HlMakerLighterHedger.onMarketSnapshot_eq]
  generalize Hedger.onSnapshot _ _ _ _ _ _ _ _ = r at haction ⊢
  obtain ⟨h, action⟩ := r
  simp only at haction
  subst haction
  exact (@executeCancel_ready cfg { s with strategy := h } k.venues k.atMs _ order k.snapshot
    (fun _ => rfl) (hat ▸ hlate.cancel) (.inr active)).1

/-! ### Reachable states -/

/-- A call keeps what holds of every reachable state. -/
theorem step_inv (h : DeferredMaker s ∧ CoreInv HlMakerLighterHedger.leg s.core) (e : MakerEvent) :
    DeferredMaker (step cfg s e).1 ∧ CoreInv HlMakerLighterHedger.leg (step cfg s e).1.core := by
  refine @step_keeps cfg s (fun _ s => DeferredMaker s ∧ CoreInv HlMakerLighterHedger.leg s.core)
    [] h.1 e ?_ ?_ h
  · rintro past t l' t' ⟨ht, hc⟩ hm
    exact ⟨hm.deferredMaker ht, hm.core.inv hc StrategyState.noConfusion StrategyState.noConfusion⟩
  · intro oid size l' t' _ hm
    exact ⟨hm.deferredMaker h.1, hm.core.inv h.2⟩

theorem start_inv (journalAttached : Bool) (p₀ : ℚ) :
    DeferredMaker (start journalAttached p₀) ∧
      CoreInv HlMakerLighterHedger.leg (start journalAttached p₀).core :=
  ⟨.of_none rfl, .inl rfl, fun _ => rfl, fun hne => absurd rfl hne⟩

theorem reachable_inv (cfg : EngineConfig) (journalAttached : Bool) (p₀ : ℚ)
    (es : List MakerEvent) :
    (machine cfg).Always (start journalAttached p₀)
      (fun _ s => DeferredMaker s ∧ CoreInv HlMakerLighterHedger.leg s.core) es :=
  EventMachine.invariant (start_inv journalAttached p₀) (fun _ _ e h => step_inv h e) es

/-- No run of ticks makes a stranded engine place, at any prices and with any answers. -/
theorem stranded_sends_nothing (hdef : DeferredMaker s)
    (h : Stranded HlMakerLighterHedger.leg s.core) : NeverPlaces cfg s := by
  intro es hes
  refine sends_nothing (P := fun s => DeferredMaker s ∧
    Stranded HlMakerLighterHedger.leg s.core) ?_ es hes ⟨hdef, h⟩
  rintro s _ ⟨nowMs, venues, rfl⟩ ⟨hdef, h⟩
  have hkeep := @step_keeps cfg s (fun past t => (DeferredMaker t ∧
    Stranded HlMakerLighterHedger.leg t.core) ∧ past.any (·.isPlacement) = false) [] hdef
    (.tick nowMs venues) ?_ (fun _ _ _ _ hd => hd.elim) ⟨⟨hdef, h⟩, rfl⟩
  · exact hkeep
  · rintro past t l t' ⟨⟨ht, hs⟩, hpast⟩ hm
    obtain ⟨hstranded, hsent⟩ :=
      hm.core.stranded hs StrategyState.noConfusion StrategyState.noConfusion
    exact ⟨⟨hm.deferredMaker ht, hstranded⟩, by rw [List.any_append, hpast, hsent]; rfl⟩

theorem CanPlace.of_sends
    (h : ∀ t, LateEnough cfg s t → ∃ k : MarketTick, k.atMs = t ∧
      (step cfg s (tickEvent k)).2.any (·.isPlacement) = true) : CanPlace cfg s := by
  refine exists_sends_of_tick fun t₀ => ?_
  obtain ⟨t, ht, hlate⟩ := exists_lateEnough cfg s t₀
  obtain ⟨k, hat, hsend⟩ := h t hlate
  exact ⟨k, hat ▸ ht, hsend⟩

theorem CanPlace.of_ready (hcfg : Enterable cfg)
    (h : ∀ t, LateEnough cfg s t → ∃ k : MarketTick, k.atMs = t ∧
      Ready (step cfg s (tickEvent k)).1) : CanPlace cfg s := by
  refine exists_sends_of_next fun t₀ => ?_
  obtain ⟨t, ht, hlate⟩ := exists_lateEnough cfg s t₀
  obtain ⟨k, hat, hready⟩ := h t hlate
  exact ⟨k, hat ▸ ht, CanPlace.of_sends fun _ hlate' => ⟨_, rfl, hready.sends hcfg hlate'⟩⟩

/-- A state that is not stranded has a way to place. -/
theorem canPlace_of_not_stranded (hcfg : Enterable cfg) (hdef : DeferredMaker s)
    (hcore : CoreInv HlMakerLighterHedger.leg s.core)
    (h : ¬ Stranded HlMakerLighterHedger.leg s.core) : CanPlace cfg s := by
  cases hslot : s.deferredHlAction with
  | some action =>
    rcases hdef action hslot with ⟨reason, order, rfl⟩ | ⟨reason, order, rfl⟩
    · exact .of_sends fun t hlate => ⟨_, rfl, deferredPlace_sends hcfg hlate hslot⟩
    · have hwaiting : s.core.waiting = .cancel := by simp [MakerHedgeEngine.core, hslot]
      refine .of_ready hcfg fun t hlate =>
        ⟨⟨t, 2, 2⟩, rfl, deferredCancel_ready ⟨t, 2, 2⟩ hlate hslot ?_⟩
      by_cases hidle : s.strategy.state = .idle
      · exact .inl ⟨hidle, hcore.unarmed hidle⟩
      · refine .inr fun hnone => h ⟨hidle, by rw [hwaiting]; exact Waiting.noConfusion, .inl ?_⟩
        simp [MakerHedgeEngine.core, hnone]
  | none =>
    have hwaiting : s.core.waiting = .nothing := by simp [MakerHedgeEngine.core, hslot]
    by_cases hidle : s.strategy.state = .idle
    · have hready : Ready s := ⟨hidle, hcore.unarmed hidle, hslot⟩
      exact .of_sends fun t hlate => ⟨_, rfl, hready.sends hcfg hlate⟩
    · have hactive : s.activeHlOid ≠ none := by
        refine fun hnone => h ⟨hidle, by rw [hwaiting]; exact Waiting.noConfusion, .inl ?_⟩
        simp [MakerHedgeEngine.core, hnone]
      have hpending : s.strategy.state = .pendingHlMaker := by
        rcases hcore.state with hs | hs | hs
        · exact absurd hs hidle
        · exact hs
        · exact absurd ⟨hidle, by rw [hwaiting]; exact Waiting.noConfusion, .inr ⟨hs, hwaiting⟩⟩ h
      obtain ⟨order, horder⟩ := Option.isSome_iff_exists.mp (hcore.pending hidle)
      exact .of_ready hcfg fun t hlate =>
        ⟨_, rfl, pendingCancel_ready hcfg hlate hpending horder hactive hslot⟩

theorem canPlace_iff (hcfg : Enterable cfg) (journalAttached : Bool) (p₀ : ℚ)
    (es : List MakerEvent) :
    CanPlace cfg ((machine cfg).final (start journalAttached p₀) es) ↔
      ¬ Stranded HlMakerLighterHedger.leg
        ((machine cfg).final (start journalAttached p₀) es).core := by
  obtain ⟨hdef, hcore⟩ := (reachable_inv cfg journalAttached p₀ es).last
  refine ⟨fun hcan hstranded => ?_, canPlace_of_not_stranded hcfg hdef hcore⟩
  obtain ⟨ks, -, hsent⟩ := hcan 0
  rw [stranded_sends_nothing hdef hstranded _ (isTick_tickEvents ks)] at hsent
  cases hsent

end MakerHedgeEngine

/-! ## The Lighter-maker engine -/

namespace LighterMakerTakerEngine

variable {cfg : EngineConfig} {s : LighterMakerTakerEngine}

def tickEvent (k : MarketTick) : LighterMakerEvent :=
  .tick k.atMs k.venues

theorem isTick_tickEvents (ks : List MarketTick) : ∀ e ∈ ks.map tickEvent, e.IsTick :=
  List.forall_mem_map.mpr fun k _ => ⟨k.atMs, k.venues, rfl⟩

/-- Whatever the time is, some further ticks make the engine send a maker order. -/
def CanPlace (cfg : EngineConfig) (s : LighterMakerTakerEngine) : Prop :=
  ∀ t₀, ∃ ks, TimesFrom t₀ ks ∧
    ((machine cfg).obs s (ks.map tickEvent)).any (·.isPlacement) = true

/-- No run of ticks makes the engine send a maker order. -/
def NeverPlaces (cfg : EngineConfig) (s : LighterMakerTakerEngine) : Prop :=
  ∀ es : List LighterMakerEvent, (∀ e ∈ es, e.IsTick) →
    ((machine cfg).obs s es).any (·.isPlacement) = false

/-- At `t` no limit on the rate of calls or of entries applies any more. -/
structure LateEnough (cfg : EngineConfig) (s : LighterMakerTakerEngine) (t : Int) : Prop where
  rearm : cfg.strategy.minRearmMs ≤ t - s.strategy.lastDisarmMs
  place : cfg.lighterOrderIntervalMs ≤ t - s.lastLighterPlaceMs
  cancel : cfg.lighterOrderIntervalMs ≤ t - s.lastLighterCancelMs
  retry : s.retryDue t = true

theorem exists_lateEnough (cfg : EngineConfig) (s : LighterMakerTakerEngine) (t₀ : Int) :
    ∃ t, t₀ ≤ t ∧ LateEnough cfg s t := by
  obtain ⟨t, ht, hrearm, hplace, hcancel, hretry⟩ :=
    exists_late t₀ cfg.strategy.minRearmMs s.strategy.lastDisarmMs cfg.lighterOrderIntervalMs
      s.lastLighterPlaceMs s.lastLighterCancelMs s.nextRetrySteadyMs
  refine ⟨t, ht, hrearm, hplace, hcancel, ?_⟩
  unfold retryDue
  cases hs : s.nextRetrySteadyMs with
  | none => rfl
  | some retryAt => exact decide_eq_true (hretry retryAt hs)

/-- Idle, unarmed, nothing deferred: the next wide market makes the engine place. -/
structure Ready (s : LighterMakerTakerEngine) : Prop where
  idle : s.strategy.state = .idle
  unarmed : s.strategy.gate.armed = false
  nothing : s.deferredLighterAction = none

theorem executePlace_calls (venues : Venues) (steadyMs : Int) (reason : String)
    (order : PendingMakerOrder)
    (late : cfg.lighterOrderIntervalMs ≤ steadyMs - s.lastLighterPlaceMs) :
    (executePlaceLighterMaker cfg venues steadyMs s reason order).calls =
        [.placeLimit (limitRequest cfg order)
          (venues.lighter.placeLimitOrder (limitRequest cfg order))] ∧
      (executePlaceLighterMaker cfg venues steadyMs s reason order).events ≠ [] := by
  have hretry : s.lighterPlaceRetryAtMs cfg steadyMs = none := if_pos late
  simp only [executePlaceLighterMaker, hretry]
  split_ifs <;> exact ⟨rfl, List.cons_ne_nil _ _⟩

theorem onMarketData_of_nothing (venues : Venues) (nowMs : Int)
    (h : s.deferredLighterAction = none) :
    (onMarketData cfg venues s nowMs).calls =
        (runStrategy cfg venues s nowMs (collectSnapshot cfg venues)).calls ∧
      (onMarketData cfg venues s nowMs).state =
        (runStrategy cfg venues s nowMs (collectSnapshot cfg venues)).state := by
  simp [onMarketData, executeDeferredLighterAction, h]

/-- A wide tick makes a ready engine place. -/
theorem Ready.sends (hready : Ready s) (hcfg : Enterable cfg) {t : Int}
    (hlate : LateEnough cfg s t) (d : Direction) :
    (step cfg s (tickEvent (wideTick cfg.strategy.spreadBps d t))).2.any
      (·.isPlacement) = true := by
  obtain ⟨hvalid, hspread, -⟩ := wideTick_snapshot cfg.strategy.spread_pos hcfg.spread d t hcfg.age
  generalize hk : wideTick cfg.strategy.spreadBps d t = k at *
  have hat : k.atMs = t := hk ▸ rfl
  subst hat
  have haction := @Hedger.onSnapshot_places LighterMakerHlHedger.leg cfg.strategy s.strategy
    k.snapshot cfg.strategy.spreadBps (LighterMakerHlHedger.buildMakerOrder cfg.strategy k.snapshot)
    (fun _ => "spread reached entry threshold") k.atMs hready.idle hready.unarmed hvalid hspread.ge
    (decide_eq_true hlate.rearm)
  change (onMarketData cfg k.venues s k.atMs).calls.any _ = true
  rw [(onMarketData_of_nothing k.venues k.atMs hready.nothing).1,
    show collectSnapshot cfg k.venues = k.snapshot from rfl]
  unfold runStrategy
  rw [LighterMakerHlHedger.onMarketSnapshot_eq]
  generalize Hedger.onSnapshot _ _ _ _ _ _ _ _ = r at haction ⊢
  obtain ⟨h, action⟩ := r
  simp only at haction
  subst haction
  have hplace := @executePlace_calls cfg { s with strategy := h } k.venues k.atMs
  simp only [LighterMakerHlHedger.leg, executeAction]
  rw [show k.venues.clock.steadyMs = k.atMs from rfl, (hplace _ _ hlate.place).1]
  rfl

/-- So does any tick when a placement waits. -/
theorem deferredPlace_sends (k : MarketTick) (hlate : LateEnough cfg s k.atMs) {reason : String}
    {order : PendingMakerOrder}
    (slot : s.deferredLighterAction = some (.placeLighterMaker reason order)) :
    (step cfg s (tickEvent k)).2.any (·.isPlacement) = true := by
  have hdeferred : executeDeferredLighterAction cfg k.venues s k.atMs k.snapshot =
      executePlaceLighterMaker cfg k.venues k.atMs s.takeDeferred reason order := by
    rw [executeDeferredLighterAction, slot]
    exact if_pos hlate.retry
  obtain ⟨hcalls, hevents⟩ := @executePlace_calls cfg s.takeDeferred k.venues k.atMs reason order
    hlate.place
  change (onMarketData cfg k.venues s k.atMs).calls.any _ = true
  simp only [onMarketData]
  rw [show collectSnapshot cfg k.venues = k.snapshot from rfl, hdeferred,
    if_neg (by simpa [List.isEmpty_iff] using hevents), hcalls]
  rfl

/-- An acknowledged cancel, or a cancel of an idle engine, leaves the engine ready. -/
theorem executeCancel_ready (venues : Venues) (steadyMs : Int) (reason : String)
    (order : PendingMakerOrder)
    (acks : ∀ orderIndex, (venues.lighter.cancelOrder orderIndex cfg.dryRun).ok = true)
    (late : cfg.lighterOrderIntervalMs ≤ steadyMs - s.lastLighterCancelMs)
    (h : s.strategy.state = .idle ∧ s.strategy.gate.armed = false ∨
      s.activeLighterOrderIndex ≠ none) :
    Ready (executeCancelLighterMaker cfg venues steadyMs s reason order).state ∧
      (executeCancelLighterMaker cfg venues steadyMs s reason order).events ≠ [] := by
  have hretry : s.lighterCancelRetryAtMs cfg steadyMs = none := if_pos late
  simp only [executeCancelLighterMaker, hretry]
  cases hactive : s.activeLighterOrderIndex with
  | none =>
    obtain ⟨hidle, hunarmed⟩ := h.resolve_right (fun hne => hne hactive)
    exact ⟨⟨hidle, hunarmed, rfl⟩, List.cons_ne_nil _ _⟩
  | some orderIndex =>
    simp only [acks orderIndex, if_true]
    exact ⟨⟨rfl, rfl, rfl⟩, List.cons_ne_nil _ _⟩

theorem deferredCancel_ready (k : MarketTick) (hlate : LateEnough cfg s k.atMs) {reason : String}
    {order : PendingMakerOrder}
    (slot : s.deferredLighterAction = some (.cancelLighterMaker reason order))
    (h : s.strategy.state = .idle ∧ s.strategy.gate.armed = false ∨
      s.activeLighterOrderIndex ≠ none) :
    Ready (step cfg s (tickEvent k)).1 := by
  have hdeferred : executeDeferredLighterAction cfg k.venues s k.atMs k.snapshot =
      executeCancelLighterMaker cfg k.venues k.atMs s.takeDeferred reason order := by
    rw [executeDeferredLighterAction, slot]
    exact if_pos hlate.retry
  obtain ⟨hready, hevents⟩ := @executeCancel_ready cfg s.takeDeferred k.venues k.atMs reason order
    (fun _ => rfl) hlate.cancel h
  change Ready (onMarketData cfg k.venues s k.atMs).state
  simp only [onMarketData]
  rw [show collectSnapshot cfg k.venues = k.snapshot from rfl, hdeferred,
    if_neg (by simpa [List.isEmpty_iff] using hevents)]
  exact hready

/-- A wide tick against the pending order cancels it and leaves the engine ready. -/
theorem pendingCancel_ready (hcfg : Enterable cfg) {t : Int} (hlate : LateEnough cfg s t)
    {order : PendingMakerOrder} (pending : s.strategy.state = .pendingLighterMaker)
    (hasOrder : s.strategy.pendingMaker = some order) (active : s.activeLighterOrderIndex ≠ none)
    (nothing : s.deferredLighterAction = none) :
    Ready (step cfg s (tickEvent (wideTick cfg.strategy.spreadBps order.direction.opposite t))).1 := by
  obtain ⟨hvalid, -, hdirection⟩ := wideTick_snapshot cfg.strategy.spread_pos hcfg.spread
    order.direction.opposite t hcfg.age
  generalize hk : wideTick cfg.strategy.spreadBps order.direction.opposite t = k at *
  have hat : k.atMs = t := hk ▸ rfl
  subst hat
  have hagainst : directionForSpread k.snapshot.crossSpreadBps ≠ order.direction :=
    hdirection ▸ order.direction.opposite_ne
  have haction := @Hedger.onSnapshot_cancels LighterMakerHlHedger.leg cfg.strategy s.strategy
    k.snapshot cfg.strategy.spreadBps (LighterMakerHlHedger.buildMakerOrder cfg.strategy k.snapshot)
    (fun _ => "spread reached entry threshold") k.atMs order pending StrategyState.noConfusion
    hasOrder hvalid hagainst
  change Ready (onMarketData cfg k.venues s k.atMs).state
  rw [(onMarketData_of_nothing k.venues k.atMs nothing).2,
    show collectSnapshot cfg k.venues = k.snapshot from rfl]
  unfold runStrategy
  rw [LighterMakerHlHedger.onMarketSnapshot_eq]
  generalize Hedger.onSnapshot _ _ _ _ _ _ _ _ = r at haction ⊢
  obtain ⟨h, action⟩ := r
  simp only at haction
  subst haction
  exact (@executeCancel_ready cfg { s with strategy := h } k.venues k.atMs _ order
    (fun _ => rfl) hlate.cancel (.inr active)).1

/-! ### Reachable states -/

/-- A call keeps what holds of every reachable state. -/
theorem step_inv (h : LighterMaker.DeferredMaker s ∧ CoreInv LighterMakerHlHedger.leg s.core)
    (e : LighterMakerEvent) : LighterMaker.DeferredMaker (step cfg s e).1 ∧
      CoreInv LighterMakerHlHedger.leg (step cfg s e).1.core := by
  refine @LighterMaker.step_preserves cfg s (fun _ s => LighterMaker.DeferredMaker s ∧
    CoreInv LighterMakerHlHedger.leg s.core) [] h.1 e ?_ ?_ h
  · rintro past t l' t' ⟨ht, hc⟩ hm
    exact ⟨hm.deferredMaker ht, hm.core.inv hc StrategyState.noConfusion StrategyState.noConfusion⟩
  · intro orderIndex size l' t' _ hm
    exact ⟨hm.deferredMaker h.1, hm.core.inv h.2⟩

theorem start_inv (journalAttached : Bool) :
    LighterMaker.DeferredMaker (start journalAttached) ∧
      CoreInv LighterMakerHlHedger.leg (start journalAttached).core :=
  ⟨.of_none rfl, .inl rfl, fun _ => rfl, fun hne => absurd rfl hne⟩

theorem reachable_inv (cfg : EngineConfig) (journalAttached : Bool)
    (es : List LighterMakerEvent) :
    (machine cfg).Always (start journalAttached)
      (fun _ s => LighterMaker.DeferredMaker s ∧ CoreInv LighterMakerHlHedger.leg s.core) es :=
  EventMachine.invariant (start_inv journalAttached) (fun _ _ e h => step_inv h e) es

/-- No run of ticks makes a stranded engine place, at any prices and with any answers. -/
theorem stranded_sends_nothing (hdef : LighterMaker.DeferredMaker s)
    (h : Stranded LighterMakerHlHedger.leg s.core) : NeverPlaces cfg s := by
  intro es hes
  refine sends_nothing (P := fun s => LighterMaker.DeferredMaker s ∧
    Stranded LighterMakerHlHedger.leg s.core) ?_ es hes ⟨hdef, h⟩
  rintro s _ ⟨nowMs, venues, rfl⟩ ⟨hdef, h⟩
  have hkeep := @LighterMaker.step_preserves cfg s (fun past t => (LighterMaker.DeferredMaker t ∧
    Stranded LighterMakerHlHedger.leg t.core) ∧ past.any (·.isPlacement) = false) [] hdef
    (.tick nowMs venues) ?_ (fun _ _ _ _ hd => hd.elim) ⟨⟨hdef, h⟩, rfl⟩
  · exact hkeep
  · rintro past t l t' ⟨⟨ht, hs⟩, hpast⟩ hm
    obtain ⟨hstranded, hsent⟩ :=
      hm.core.stranded hs StrategyState.noConfusion StrategyState.noConfusion
    exact ⟨⟨hm.deferredMaker ht, hstranded⟩, by rw [List.any_append, hpast, hsent]; rfl⟩

theorem CanPlace.of_sends
    (h : ∀ t, LateEnough cfg s t → ∃ k : MarketTick, k.atMs = t ∧
      (step cfg s (tickEvent k)).2.any (·.isPlacement) = true) : CanPlace cfg s := by
  refine exists_sends_of_tick fun t₀ => ?_
  obtain ⟨t, ht, hlate⟩ := exists_lateEnough cfg s t₀
  obtain ⟨k, hat, hsend⟩ := h t hlate
  exact ⟨k, hat ▸ ht, hsend⟩

theorem CanPlace.of_ready (hcfg : Enterable cfg)
    (h : ∀ t, LateEnough cfg s t → ∃ k : MarketTick, k.atMs = t ∧
      Ready (step cfg s (tickEvent k)).1) : CanPlace cfg s := by
  refine exists_sends_of_next fun t₀ => ?_
  obtain ⟨t, ht, hlate⟩ := exists_lateEnough cfg s t₀
  obtain ⟨k, hat, hready⟩ := h t hlate
  exact ⟨k, hat ▸ ht, CanPlace.of_sends fun _ hlate' =>
    ⟨_, rfl, hready.sends hcfg hlate' .shortLighterLongHl⟩⟩

/-- A state that is not stranded has a way to place. -/
theorem canPlace_of_not_stranded (hcfg : Enterable cfg) (hdef : LighterMaker.DeferredMaker s)
    (hcore : CoreInv LighterMakerHlHedger.leg s.core)
    (h : ¬ Stranded LighterMakerHlHedger.leg s.core) : CanPlace cfg s := by
  cases hslot : s.deferredLighterAction with
  | some action =>
    rcases hdef action hslot with ⟨reason, order, rfl⟩ | ⟨reason, order, rfl⟩
    · exact .of_sends fun t hlate =>
        ⟨⟨t, 2, 2⟩, rfl, deferredPlace_sends ⟨t, 2, 2⟩ hlate hslot⟩
    · have hwaiting : s.core.waiting = .cancel := by simp [LighterMakerTakerEngine.core, hslot]
      refine .of_ready hcfg fun t hlate =>
        ⟨⟨t, 2, 2⟩, rfl, deferredCancel_ready ⟨t, 2, 2⟩ hlate hslot ?_⟩
      by_cases hidle : s.strategy.state = .idle
      · exact .inl ⟨hidle, hcore.unarmed hidle⟩
      · refine .inr fun hnone => h ⟨hidle, by rw [hwaiting]; exact Waiting.noConfusion, .inl ?_⟩
        simp [LighterMakerTakerEngine.core, hnone]
  | none =>
    have hwaiting : s.core.waiting = .nothing := by simp [LighterMakerTakerEngine.core, hslot]
    by_cases hidle : s.strategy.state = .idle
    · have hready : Ready s := ⟨hidle, hcore.unarmed hidle, hslot⟩
      exact .of_sends fun t hlate => ⟨_, rfl, hready.sends hcfg hlate .shortLighterLongHl⟩
    · have hactive : s.activeLighterOrderIndex ≠ none := by
        refine fun hnone => h ⟨hidle, by rw [hwaiting]; exact Waiting.noConfusion, .inl ?_⟩
        simp [LighterMakerTakerEngine.core, hnone]
      have hpending : s.strategy.state = .pendingLighterMaker := by
        rcases hcore.state with hs | hs | hs
        · exact absurd hs hidle
        · exact hs
        · exact absurd ⟨hidle, by rw [hwaiting]; exact Waiting.noConfusion, .inr ⟨hs, hwaiting⟩⟩ h
      obtain ⟨order, horder⟩ := Option.isSome_iff_exists.mp (hcore.pending hidle)
      exact .of_ready hcfg fun t hlate =>
        ⟨_, rfl, pendingCancel_ready hcfg hlate hpending horder hactive hslot⟩

theorem canPlace_iff (hcfg : Enterable cfg) (journalAttached : Bool)
    (es : List LighterMakerEvent) :
    CanPlace cfg ((machine cfg).final (start journalAttached) es) ↔
      ¬ Stranded LighterMakerHlHedger.leg
        ((machine cfg).final (start journalAttached) es).core := by
  obtain ⟨hdef, hcore⟩ := (reachable_inv cfg journalAttached es).last
  refine ⟨fun hcan hstranded => ?_, canPlace_of_not_stranded hcfg hdef hcore⟩
  obtain ⟨ks, -, hsent⟩ := hcan 0
  rw [stranded_sends_nothing hdef hstranded _ (isTick_tickEvents ks)] at hsent
  cases hsent

end LighterMakerTakerEngine

/-! ## Both engines -/

/-- In every reachable state of either engine, it can place again if and only if it is not
stranded; and from a stranded one it places at no tick of any run. -/
theorem canPlace_iff_not_stranded (cfg : EngineConfig) (hcfg : Enterable cfg)
    (journalAttached : Bool) (p₀ : ℚ) (es : List MakerEvent) (fs : List LighterMakerEvent) :
    ((MakerHedgeEngine.CanPlace cfg
        ((MakerHedgeEngine.machine cfg).final (MakerHedgeEngine.start journalAttached p₀) es) ↔
      ¬ Stranded HlMakerLighterHedger.leg
        ((MakerHedgeEngine.machine cfg).final (MakerHedgeEngine.start journalAttached p₀) es).core) ∧
    (LighterMakerTakerEngine.CanPlace cfg
        ((LighterMakerTakerEngine.machine cfg).final
          (LighterMakerTakerEngine.start journalAttached) fs) ↔
      ¬ Stranded LighterMakerHlHedger.leg
        ((LighterMakerTakerEngine.machine cfg).final
          (LighterMakerTakerEngine.start journalAttached) fs).core)) ∧
    (Stranded HlMakerLighterHedger.leg
        ((MakerHedgeEngine.machine cfg).final (MakerHedgeEngine.start journalAttached p₀) es).core →
      MakerHedgeEngine.NeverPlaces cfg
        ((MakerHedgeEngine.machine cfg).final (MakerHedgeEngine.start journalAttached p₀) es)) ∧
    (Stranded LighterMakerHlHedger.leg
        ((LighterMakerTakerEngine.machine cfg).final
          (LighterMakerTakerEngine.start journalAttached) fs).core →
      LighterMakerTakerEngine.NeverPlaces cfg
        ((LighterMakerTakerEngine.machine cfg).final
          (LighterMakerTakerEngine.start journalAttached) fs)) :=
  ⟨⟨MakerHedgeEngine.canPlace_iff hcfg journalAttached p₀ es,
      LighterMakerTakerEngine.canPlace_iff hcfg journalAttached fs⟩,
    MakerHedgeEngine.stranded_sends_nothing (MakerHedgeEngine.reachable_inv cfg _ _ es).last.1,
    LighterMakerTakerEngine.stranded_sends_nothing
      (LighterMakerTakerEngine.reachable_inv cfg _ fs).last.1⟩

theorem sampleConfig_enterable : Enterable sampleConfig where
  spread := show (2 : ℚ) < 20000 by norm_num
  age := by decide

/-- After a cancel that was acknowledged both engines can place again. -/
theorem canPlace_after_cancel :
    MakerHedgeEngine.CanPlace sampleConfig
        ((MakerHedgeEngine.machine sampleConfig).final (MakerHedgeEngine.start false 0)
          [tickUp 1000 "1", tickDown 2000 ""]) ∧
      LighterMakerTakerEngine.CanPlace sampleConfig
        ((LighterMakerTakerEngine.machine sampleConfig).final (LighterMakerTakerEngine.start false)
          [.tick 1000 (obligingVenues 100 110 1000 ""),
            .tick 2000 (obligingVenues 110 100 2000 "")]) := by
  obtain ⟨⟨hl, lighter⟩, -⟩ := canPlace_iff_not_stranded sampleConfig sampleConfig_enterable false 0
    [tickUp 1000 "1", tickDown 2000 ""]
    [.tick 1000 (obligingVenues 100 110 1000 ""), .tick 2000 (obligingVenues 110 100 2000 "")]
  exact ⟨hl.mpr (by decide +kernel), lighter.mpr (by decide +kernel)⟩

/-- A tick on which HL rejects the placement. -/
def tickUpRejecting (nowMs : Int) : MakerEvent :=
  .tick nowMs { obligingVenues 100 110 nowMs "" with
    hl := { obligingHl 100 "" with placeLimitOrder := fun _ => { ok := false } } }

/-- A rejected placement and a spread that reverts leave the strategy in `CancelledPendingConfirm`,
with no order live and far from the position limit; no run of ticks makes it place again. -/
theorem rejected_placement_wedges :
    ((MakerHedgeEngine.machine sampleConfig).final (MakerHedgeEngine.start false 0)
        [tickUpRejecting 1000, tickDown 2000 ""]).strategy.state = .cancelledPendingConfirm ∧
      (orderTally ((MakerHedgeEngine.machine sampleConfig).obs (MakerHedgeEngine.start false 0)
        [tickUpRejecting 1000, tickDown 2000 ""])).live = [] ∧
      ((MakerHedgeEngine.machine sampleConfig).final (MakerHedgeEngine.start false 0)
        [tickUpRejecting 1000, tickDown 2000 ""]).hlPositionBase = 0 ∧
      ¬ MakerHedgeEngine.CanPlace sampleConfig
        ((MakerHedgeEngine.machine sampleConfig).final (MakerHedgeEngine.start false 0)
          [tickUpRejecting 1000, tickDown 2000 ""]) ∧
      MakerHedgeEngine.NeverPlaces sampleConfig
        ((MakerHedgeEngine.machine sampleConfig).final (MakerHedgeEngine.start false 0)
          [tickUpRejecting 1000, tickDown 2000 ""]) := by
  have hstranded : Stranded HlMakerLighterHedger.leg
      ((MakerHedgeEngine.machine sampleConfig).final (MakerHedgeEngine.start false 0)
        [tickUpRejecting 1000, tickDown 2000 ""]).core := by decide +kernel
  refine ⟨by decide +kernel, by decide +kernel, by decide +kernel, fun hcan => ?_,
    MakerHedgeEngine.stranded_sends_nothing
      (MakerHedgeEngine.reachable_inv sampleConfig false 0 _).last.1 hstranded⟩
  exact (MakerHedgeEngine.canPlace_iff sampleConfig_enterable false 0 _).mp hcan hstranded

end Arb
