import HlLighterArb.Live.Sighted

/-!
# HlLighterArb.Live.KillSwitch

What an active kill switch stops. It is looked at behind the drained queues, so it keeps the engine
from ticking and not from answering the trades of the iteration; and the cancel of its own path goes
past the engine, which keeps the order as its active one.

* `KilledIterations`: whole iterations with the switch on at every moment.
* `speculates`: the trade passes every guard of `on_trade_event`.
* `killed_step`: with the switch on, such a trade is the only way to new exposure.
* `killSwitch_stops_iff`: the switch stops new exposure exactly in the runs without such trades.
-/

namespace Arb

open MakerHedgeEngine

/-! ## New exposure -/

def MakerObs.isSpeculative : MakerObs → Bool
  | .ioc .speculative _ _ => true
  | _ => false

/-- A maker placement or a speculative hedge. -/
def MakerObs.isExposure (o : MakerObs) : Bool :=
  o.isPlacement || o.isSpeculative

/-- The trade passes every guard of `on_trade_event`. -/
def MakerHedgeEngine.speculates (cfg : EngineConfig) (s : MakerHedgeEngine) (trade : TradeEvent)
    (venues : Venues) : Bool :=
  match s.activeHlOid, s.strategy.pendingMaker with
  | some _, some order =>
    !s.speculativeHedgeSent && !s.staleTrade trade && priceCrossed cfg order trade &&
      (collectSnapshot cfg venues).valid cfg.strategy.maxQuoteAgeMs
  | _, _ => false

/-- The direct cancel of `oid` was acknowledged, and `oid` not given to an order since. -/
def directlyCancelled (oid : String) (l : List LoopObs) : Bool :=
  l.foldl (fun cancelled o => match o with
    | .directCancel oid' ack => cancelled || ack.ok && oid' = oid
    | .engine (.placeLimit _ ack) => cancelled && !(ack.ok && ack.oid = oid)
    | _ => cancelled) false

section Calls

variable {cfg : EngineConfig} {s : MakerHedgeEngine} {venues : Venues}

/-- A trade that some guard stops calls no exchange. -/
theorem onTradeEvent_quiet {trade : TradeEvent} (h : s.speculates cfg trade venues = false) :
    (onTradeEvent cfg venues s trade).calls = [] := by
  unfold speculates at h
  unfold onTradeEvent
  cases hactive : s.activeHlOid with
  | none => rfl
  | some oid =>
    cases hpending : s.strategy.pendingMaker with
    | none => rfl
    | some order =>
      simp only [hactive, hpending] at h ⊢
      split_ifs with hsent hstale hcrossed hvalid
      · rfl
      · rfl
      · simp [hsent, hstale, hcrossed, hvalid] at h
      · rfl
      · rfl

theorem onTradeEvent_calls (trade : TradeEvent) :
    (onTradeEvent cfg venues s trade).calls.any (·.isExposure) = s.speculates cfg trade venues ∧
      (onTradeEvent cfg venues s trade).calls.any (·.isSpeculative) =
        s.speculates cfg trade venues := by
  unfold onTradeEvent speculates
  cases s.activeHlOid with
  | none => exact ⟨rfl, rfl⟩
  | some oid =>
    cases s.strategy.pendingMaker with
    | none => exact ⟨rfl, rfl⟩
    | some order =>
      simp only
      split_ifs with hsent hstale hcrossed hvalid
      · simp [hsent]
      · simp [hstale]
      · unfold sendSpeculative
        simp only
        split_ifs <;>
          simp [hsent, hstale, hcrossed, hvalid, MakerObs.isExposure, MakerObs.isSpeculative]
      · simp [hvalid]
      · simp [skipTrade, hcrossed]

/-- A fill places nothing and speculates on nothing. -/
theorem FillMove.calm {s' : MakerHedgeEngine} {oid : String} {size : ℚ} {l : List MakerObs}
    (hm : FillMove cfg s oid size l s') :
    l.any (·.isExposure) = false ∧ l.any (·.isSpeculative) = false := by
  cases hm <;> exact ⟨rfl, rfl⟩

theorem executeAction_unspeculative (steadyMs : Int) (action : Action) (snapshot : SpreadSnapshot) :
    (executeAction cfg venues steadyMs s action snapshot).calls.any (·.isSpeculative) = false := by
  cases action with
  | placeHlMaker reason order =>
    simp only [executeAction, executePlaceHlMaker]
    split
    · simp
    · split
      · simp
      · split_ifs <;> simp [MakerObs.isSpeculative]
  | cancelHlMaker reason order =>
    simp only [executeAction, executeCancelHlMaker]
    split
    · simp
    · split
      · simp
      · split_ifs <;> simp [MakerObs.isSpeculative]
  | sendLighterTakerHedge reason intent =>
    simp only [executeAction, executeSendLighterTakerHedge]
    split_ifs
    · simp [MakerObs.isSpeculative]
    · split <;> simp [MakerObs.isSpeculative, executeUnwindHlPosition]
  | unwindHlPosition reason =>
    simp [executeAction, executeUnwindHlPosition, MakerObs.isSpeculative]
  | _ => simp [executeAction]

/-- A tick speculates on nothing. -/
theorem onMarketData_unspeculative (nowMs : Int) :
    (onMarketData cfg venues s nowMs).calls.any (·.isSpeculative) = false := by
  have hdeferred : (executeDeferredHlAction cfg venues s nowMs
      (collectSnapshot cfg venues)).calls.any (·.isSpeculative) = false := by
    unfold executeDeferredHlAction
    split
    · rfl
    · split_ifs
      · exact executeAction_unspeculative _ _ _
      · rfl
  have hdecided : ∀ t, (runStrategy cfg venues t nowMs
      (collectSnapshot cfg venues)).calls.any (·.isSpeculative) = false := by
    intro t
    unfold runStrategy
    simp only
    split
    · split_ifs
      · rfl
      · exact executeAction_unspeculative _ _ _
    · exact executeAction_unspeculative _ _ _
  simp only [onMarketData]
  split_ifs
  · rw [List.any_append, hdeferred, hdecided]
    rfl
  · exact hdeferred

end Calls

/-! ## Steps of the loop -/

namespace LiveLoop

/-- The main thread is at the top of an iteration. -/
def atHead (s : LiveLoop) : Bool :=
  match s.pc with
  | .drainFills => true
  | _ => false

theorem atHead_iff {s : LiveLoop} : s.atHead = true ↔ s.pc = .drainFills := by
  unfold atHead
  split
  · next hpc => exact iff_of_true rfl hpc
  · next hpc => exact iff_of_false Bool.false_ne_true hpc

/-- The engine is about to tick. -/
def aboutToTick (s : LiveLoop) : Bool :=
  match s.pc with
  | .marketData _ => true
  | _ => false

/-- The event is a drained trade that passes every guard of `on_trade_event`. -/
def speculates (cfg : EngineConfig) (s : LiveLoop) (e : LoopEvent) : Bool :=
  match s.engineCall e with
  | some (.trade trade venues) => s.engine.speculates cfg trade venues
  | _ => false

section Steps

variable {cfg : EngineConfig} {s : LiveLoop} {e : LoopEvent}

theorem aboutToTick_of_call {nowMs : Int} {venues : Venues}
    (h : s.engineCall e = some (.tick nowMs venues)) : s.aboutToTick = true := by
  unfold engineCall at h
  split at h
  case h_3 hpc => simp [aboutToTick, hpc]
  all_goals cases h

/-- Unless the engine is about to tick, a trade that passes the guards is the only way to new
exposure. -/
theorem step_exposure (h : s.aboutToTick = false) (e : LoopEvent) :
    (engineObs (s.step cfg e).2).any (·.isExposure) = s.speculates cfg e := by
  cases hcall : s.engineCall e with
  | none =>
    rw [(step_of_no_call hcall).obs, speculates, hcall]
    rfl
  | some call =>
    rw [(step_of_call hcall).2, speculates, hcall]
    cases call with
    | tick nowMs venues =>
      rw [aboutToTick_of_call hcall] at h
      cases h
    | trade trade venues => exact (onTradeEvent_calls trade).1
    | fill fillPrice size snapshot oid hlFee venues =>
      exact (onHlFill_fillMove fillPrice size snapshot oid hlFee venues).calm.1

theorem step_speculative (e : LoopEvent) :
    (engineObs (s.step cfg e).2).any (·.isSpeculative) = s.speculates cfg e := by
  cases hcall : s.engineCall e with
  | none =>
    rw [(step_of_no_call hcall).obs, speculates, hcall]
    rfl
  | some call =>
    rw [(step_of_call hcall).2, speculates, hcall]
    cases call with
    | tick nowMs venues => exact onMarketData_unspeculative nowMs
    | trade trade venues => exact (onTradeEvent_calls trade).2
    | fill fillPrice size snapshot oid hlFee venues =>
      exact (onHlFill_fillMove fillPrice size snapshot oid hlFee venues).calm.2

/-- The switch keeps the engine from ticking. -/
theorem killed_step (hkilled : s.risk.killSwitch = true) (h : s.aboutToTick = false)
    (e : LoopEvent) : (s.step cfg e).1.aboutToTick = false := by
  cases e with
  | next venues response =>
    simp only [step]
    unfold next
    cases hpc : s.pc with
    | killCheck t =>
      simp only
      rw [if_pos hkilled]
      rfl
    | marketData t => simp [aboutToTick, hpc] at h
    | drainFills => simpa [hpc] using h
    | drainTrades => simpa [hpc] using h
    | infinite minus => simpa [hpc] using h
    | feedCheck t | staleCheck t =>
      simp only
      split_ifs <;> rfl
    | reconcile t =>
      simp only
      split <;> rfl
    | _ => rfl
  | callback venues =>
    simp only [step]
    unfold callback
    split
    · exact h
    · rw [if_neg fun hoff => hoff hkilled]
      exact h
  | fill fillPrice size snapshot oid hlFee venues =>
    simp only [step]
    split <;> exact h
  | trade trade venues =>
    simp only [step]
    split <;> exact h
  | fillsDrained =>
    simp only [step]
    split
    · rfl
    · exact h
  | snapshot snap nowMs =>
    simp only [step]
    split
    · split_ifs <;> rfl
    · exact h
  | readError reason => exact h
  | handshake => exact h
  | subscriptionResponse => exact h

end Steps

/-! ## Runs -/

/-- Whole iterations, with the kill switch on at every moment. -/
structure KilledIterations (cfg : EngineConfig) (s : LiveLoop) (es : List LoopEvent) : Prop where
  head : s.atHead = true
  back : ((machine cfg).final s es).atHead = true
  killed : (machine cfg).Always s (fun _ t => t.risk.killSwitch = true) es

/-- No killed iteration of the run sends a maker placement or a speculative hedge. -/
def KilledCalm (cfg : EngineConfig) (s : LiveLoop) (es : List LoopEvent) : Prop :=
  ∀ pre mid, pre ++ mid <+: es → KilledIterations cfg ((machine cfg).final s pre) mid →
    (engineObs ((machine cfg).obs ((machine cfg).final s pre) mid)).any (·.isExposure) = false

/-- No killed iteration of the run drains a trade that passes the guards. -/
def KilledQuiet (cfg : EngineConfig) (s : LiveLoop) (es : List LoopEvent) : Prop :=
  ∀ pre mid, pre ++ mid <+: es → KilledIterations cfg ((machine cfg).final s pre) mid →
    (machine cfg).Throughout ((machine cfg).final s pre)
      (fun _ t e => t.speculates cfg e = false) mid

/-- The step sends no speculative hedge for an order that was cancelled directly. -/
def SparesCancelled (cfg : EngineConfig) (past : List LoopObs) (s : LiveLoop) (e : LoopEvent) :
    Prop :=
  ∀ oid, s.engine.activeHlOid = some oid → directlyCancelled oid past = true →
    (engineObs (s.step cfg e).2).any (·.isSpeculative) = false

/-- The step drains no trade that passes the guards while the active order is cancelled directly. -/
def QuietForCancelled (cfg : EngineConfig) (past : List LoopObs) (s : LiveLoop) (e : LoopEvent) :
    Prop :=
  ∀ oid, s.engine.activeHlOid = some oid → directlyCancelled oid past = true →
    s.speculates cfg e = false

theorem KilledIterations.not_aboutToTick {cfg : EngineConfig} {s : LiveLoop} {es : List LoopEvent}
    (h : KilledIterations cfg s es) :
    (machine cfg).Always s (fun _ t => t.aboutToTick = false) es := by
  have hstart : s.aboutToTick = false := by
    rw [aboutToTick, atHead_iff.mp h.head]
  have hkilled : (machine cfg).Throughout s (fun _ t _ => t.risk.killSwitch = true) es :=
    fun _ _ hp => h.killed.before hp
  exact EventMachine.always_of_throughout (m := machine cfg)
    (P := fun _ t => t.aboutToTick = false) (C := fun _ t _ => t.risk.killSwitch = true) hstart
    (fun _ _ e hquiet hkilled => killed_step hkilled hquiet e) hkilled

/-- A killed stretch brings no new exposure exactly when no trade of it passes the guards. -/
theorem KilledIterations.calm_iff {cfg : EngineConfig} {s : LiveLoop} {es : List LoopEvent}
    (h : KilledIterations cfg s es) :
    (engineObs ((machine cfg).obs s es)).any (·.isExposure) = false ↔
      (machine cfg).Throughout s (fun _ t e => t.speculates cfg e = false) es := by
  rw [EventMachine.obs_iff_throughout
    (P := fun l => (engineObs l).any (·.isExposure) = false) rfl engineObs_any_append es]
  refine h.not_aboutToTick.throughout_congr fun _ t e ht => ?_
  rw [← step_exposure ht e]
  rfl

/-- The kill switch stops new exposure exactly in the runs in which no trade that passes the guards
of `on_trade_event` is drained in a killed iteration, or for an order that was cancelled directly. -/
theorem killSwitch_stops_iff (cfg : EngineConfig) (journalAttached : Bool) (p₀ : ℚ)
    (es : List LoopEvent) :
    KilledCalm cfg (start journalAttached p₀) es ∧
        (machine cfg).Throughout (start journalAttached p₀) (SparesCancelled cfg) es ↔
      KilledQuiet cfg (start journalAttached p₀) es ∧
        (machine cfg).Throughout (start journalAttached p₀) (QuietForCancelled cfg) es := by
  refine and_congr ?_ ?_
  · exact forall₃_congr fun pre mid _ => forall_congr' fun h => h.calm_iff
  · have hstep : ∀ past s e, SparesCancelled cfg past s e ↔ QuietForCancelled cfg past s e := by
      intro past s e
      simp only [SparesCancelled, QuietForCancelled, step_speculative]
    exact ⟨fun h => h.mono fun past s e => (hstep past s e).mp,
      fun h => h.mono fun past s e => (hstep past s e).mpr⟩

/-! ## A run -/

/-- An iteration in which the engine ticks; an order placed gets this oid. -/
def ticking (nowMs : Int) (oid : String) : List LoopEvent :=
  [.fillsDrained, .snapshot (snapAged 0) nowMs] ++
    List.replicate 5 (.next (obligingVenues 100 110 nowMs oid) none)

/-- The feed is lost, and its callback cancels the active order. -/
def feedLost : List LoopEvent :=
  [.readError "eof", .callback (obligingVenues 100 110 1500 "")]

/-- An iteration that drains a trade and stops at the kill switch. -/
def killedIteration : List LoopEvent :=
  [.fillsDrained, .trade { coin := "HYPE", price := 98, size := 1 } (obligingVenues 100 110 0 ""),
    .snapshot (snapAged 0) 2000] ++ List.replicate 4 (.next (obligingVenues 100 110 2000 "") none)

/-- The order `"7"` is cancelled by the callback, and in the next iteration, with the switch on all
the while, a trade through its price is hedged. -/
theorem hedged_while_killed :
    ¬ KilledCalm sampleConfig (start false 0)
        (feedUp ++ ticking 1000 "7" ++ feedLost ++ killedIteration) ∧
    ¬ (machine sampleConfig).Throughout (start false 0) (SparesCancelled sampleConfig)
        (feedUp ++ ticking 1000 "7" ++ feedLost ++ killedIteration) := by
  constructor
  · intro h
    have hkilled : KilledIterations sampleConfig ((machine sampleConfig).final (start false 0)
        (feedUp ++ ticking 1000 "7" ++ feedLost)) killedIteration :=
      ⟨by decide +kernel, by decide +kernel, by decide +kernel⟩
    have hcalm := h _ _ (List.prefix_refl _) hkilled
    revert hcalm
    decide +kernel
  · intro h
    have hpre : feedUp ++ ticking 1000 "7" ++ feedLost ++ killedIteration.take 1 ++
        [.trade { coin := "HYPE", price := 98, size := 1 } (obligingVenues 100 110 0 "")] <+:
          feedUp ++ ticking 1000 "7" ++ feedLost ++ killedIteration := by
      rw [List.append_assoc _ (killedIteration.take 1)]
      exact (List.prefix_append_right_inj _).mpr ⟨killedIteration.drop 2, rfl⟩
    have hspared := h _ _ hpre "7" (by decide +kernel) (by decide +kernel)
    revert hspared
    decide +kernel

end LiveLoop

end Arb
