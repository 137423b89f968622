import HlLighterArb.Decisions
import HlLighterArb.Live.Drive
import HlLighterArb.Live.KillSwitch
import HlLighterArb.Maker.Placements
import HlLighterArb.Maker.Stuck

/-!
# HlLighterArb.Live.HedgeBreaker

The hedge-failure breaker. `RiskGuard` counts failed hedges and latches the kill switch at the
limit, but the loop reports no hedge to it, neither a failed nor a confirmed one.

* `heard`: the risk guard, were it told how the hedge of every accepted fill ended.
* `Tripped`: by then the failures in a row have reached the limit.
* `holds_iff_nothingToPlace`: after a trip a run places no order exactly when no tick of it has one
  to send.
* `breakerHolds_of_quiet`: so it is where nothing waits at a trip and the books are quiet after it.
* `stopsPlacing_iff_stuck`: from the top of an iteration a trip stops all continuations exactly when
  the engine is stuck anyway.
-/

namespace Arb

open MakerHedgeEngine

/-! ## What the breaker should hear -/

/-- An accepted fill ends with its hedge, sent for it or ahead of it. -/
def RiskGuard.hear (g : RiskGuard) : MakerObs → RiskGuard
  | .fill _ _ .perfectMatch => g.onHedgeSuccess
  | .fill _ _ .overshoot => g.onHedgeSuccess
  | .ioc .hedge _ ack => if ack.ok ∧ ack.fillConfirmed then g.onHedgeSuccess else g.onHedgeFailure
  | .ioc .correction _ ack =>
    if ack.ok ∧ ack.fillConfirmed then g.onHedgeSuccess else g.onHedgeFailure
  | .ioc .speculative _ ack => if ack.ok ∧ ack.fillConfirmed then g.onHedgeSuccess else g
  | _ => g

namespace LiveLoop

/-- The risk guard, were it told of every hedge. -/
def heard (risk : RiskConfig) (l : List LoopObs) : RiskGuard :=
  (engineObs l).foldl RiskGuard.hear { config := risk }

/-- The hedges of the last fills have failed, as many in a row as the limit says. -/
def Tripped (risk : RiskConfig) (l : List LoopObs) : Prop :=
  risk.maxConsecutiveHedgeFailures ≤ (heard risk l).consecutiveHedgeFailures

instance (risk : RiskConfig) (l : List LoopObs) : Decidable (Tripped risk l) :=
  inferInstanceAs (Decidable (_ ≤ _))

/-- `reset_kill_switch` is called while the switch is on for failed hedges. -/
def resetsBreaker (s : LiveLoop) (e : LoopEvent) : Bool :=
  match s.pc, e with
  | .resetFeed _, .next _ _ => s.risk.killSwitchReason = "consecutive hedge failures exceeded"
  | .resetStale _, .next _ _ => s.risk.killSwitchReason = "consecutive hedge failures exceeded"
  | _, _ => false

/-- These events place no order. -/
def Silent (cfg : EngineConfig) (s : LiveLoop) (es : List LoopEvent) : Prop :=
  (engineObs ((machine cfg).obs s es)).any (·.isPlacement) = false

instance (cfg : EngineConfig) (s : LiveLoop) (es : List LoopEvent) : Decidable (Silent cfg s es) :=
  inferInstanceAs (Decidable (_ = _))

/-- After a trip the run places no order until the switch is reset for it. -/
def BreakerHolds (cfg : EngineConfig) (risk : RiskConfig) (s : LiveLoop) (es : List LoopEvent) :
    Prop :=
  ∀ pre mid, pre ++ mid <+: es → Tripped risk ((machine cfg).obs s pre) →
    (machine cfg).Throughout ((machine cfg).final s pre)
      (fun _ t e => t.resetsBreaker e = false) mid →
    Silent cfg ((machine cfg).final s pre) mid

/-- The step ticks the engine, which has an order to send. -/
def Places (cfg : EngineConfig) (s : LiveLoop) (e : LoopEvent) : Prop :=
  ∃ nowMs venues order, s.engineCall e = some (.tick nowMs venues) ∧
    Maker.Sends cfg s.engine nowMs venues order

/-- After a trip no tick of the run has an order to send. -/
def NothingToPlace (cfg : EngineConfig) (risk : RiskConfig) (s : LiveLoop) (es : List LoopEvent) :
    Prop :=
  ∀ pre mid, pre ++ mid <+: es → Tripped risk ((machine cfg).obs s pre) →
    (machine cfg).Throughout ((machine cfg).final s pre) (fun _ t e => ¬ t.Places cfg e) mid

/-- If the breaker has tripped by the end of the run, no continuation places an order until the
switch is reset for it. -/
def StopsPlacing (cfg : EngineConfig) (risk : RiskConfig) (s : LiveLoop) (es : List LoopEvent) :
    Prop :=
  Tripped risk ((machine cfg).obs s es) →
    ∀ fs, (machine cfg).Throughout ((machine cfg).final s es)
      (fun _ t e => t.resetsBreaker e = false) fs → Silent cfg ((machine cfg).final s es) fs

/-- The loop as it starts, with the limits `risk`. -/
def startWith (risk : RiskConfig) (journalAttached : Bool) (p₀ : ℚ) : LiveLoop :=
  { start journalAttached p₀ with risk := { config := risk } }

section Steps

variable {cfg : EngineConfig} {s : LiveLoop} {e : LoopEvent}

/-- The switch is never on for failed hedges. -/
theorem KnownReason.ne_failures {g : RiskGuard} (h : KnownReason g) :
    g.killSwitchReason ≠ "consecutive hedge failures exceeded" := by
  intro hreason
  rcases h with ⟨-, hnone⟩ | ⟨-, hfeed | hstale⟩
  · rw [hreason] at hnone
    revert hnone
    decide
  · rw [hreason] at hfeed
    revert hfeed
    decide +kernel
  · rw [hreason] at hstale
    revert hstale
    decide

theorem LoopInv.no_reset (h : LoopInv s) (e : LoopEvent) : s.resetsBreaker e = false := by
  unfold resetsBreaker
  split
  · exact decide_eq_false h.risk.ne_failures
  · exact decide_eq_false h.risk.ne_failures
  · rfl

theorem not_places (h : ∀ nowMs venues, s.engineCall e ≠ some (.tick nowMs venues)) :
    ¬ s.Places cfg e :=
  fun ⟨nowMs, venues, _, hticks, _⟩ => h nowMs venues hticks

/-- A step places an order exactly when it ticks an engine that has one to send. -/
theorem LoopInv.step_silent_iff (h : LoopInv s) (e : LoopEvent) :
    (engineObs (s.step cfg e).2).any (·.isPlacement) = false ↔ ¬ s.Places cfg e := by
  cases hcall : s.engineCall e with
  | none =>
    rw [(step_of_no_call hcall).obs]
    exact iff_of_true rfl (not_places fun _ _ => by simp [hcall])
  | some call =>
    rw [(step_of_call hcall).2]
    cases call with
    | tick nowMs venues =>
      rw [← Bool.not_eq_true, Maker.tick_places_iff h.engine.1]
      refine not_congr ⟨?_, ?_⟩
      · rintro ⟨order, hsends⟩
        exact ⟨nowMs, venues, order, hcall, hsends⟩
      · rintro ⟨_, _, order, hticks, hsends⟩
        rw [hcall] at hticks
        cases hticks
        exact ⟨order, hsends⟩
    | trade trade venues =>
      exact iff_of_true (Maker.trade_places_nothing trade venues)
        (not_places fun _ _ => by simp [hcall])
    | fill fillPrice size snapshot oid hlFee venues =>
      have hmove :=
        @onHlFill_fillMove cfg s.engine fillPrice size snapshot oid hlFee venues
      exact iff_of_true (Maker.fillMove_places_nothing hmove)
        (not_places fun _ _ => by simp [hcall])

/-- Events place no order exactly when no tick among them has one to send. -/
theorem LoopInv.silent_iff (h : LoopInv s) (es : List LoopEvent) :
    Silent cfg s es ↔ (machine cfg).Throughout s (fun _ t e => ¬ t.Places cfg e) es := by
  rw [Silent, EventMachine.obs_iff_throughout
    (P := fun l => (engineObs l).any (·.isPlacement) = false) rfl engineObs_any_append es]
  exact (h.always es).throughout_congr fun _ t e ht => ht.step_silent_iff e

/-- From a state with the invariant no reset is one for failed hedges. -/
theorem LoopInv.no_resets (h : LoopInv s) (es : List LoopEvent) :
    (machine cfg).Throughout s (fun _ t e => t.resetsBreaker e = false) es :=
  fun pre e _ => (h.final pre).no_reset e

/-! ### From the top of an iteration -/

/-- The loop never places an order again once its engine is stuck. -/
theorem LoopInv.silent_of_stuck (h : LoopInv s) (hstuck : Stuck s.engine) (es : List LoopEvent) :
    Silent cfg s es := by
  refine (EventMachine.invariant (m := machine cfg) (P := fun l t => LoopInv t ∧ Stuck t.engine ∧
    (engineObs l).any (·.isPlacement) = false) ⟨h, hstuck, rfl⟩ ?_ es).last.2.2
  rintro l t e ⟨ht, hstuck, hsilent⟩
  have hstep : Stuck (t.step cfg e).1.engine ∧
      (engineObs (t.step cfg e).2).any (·.isPlacement) = false := by
    cases hcall : t.engineCall e with
    | some call =>
      rw [(step_of_call hcall).1, (step_of_call hcall).2]
      exact hstuck.step ht.engine.1 call
    | none =>
      have hidles := @step_of_no_call cfg t e hcall
      rw [hidles.obs]
      rcases hidles.engine with heq | ⟨pos, heq⟩
      · exact ⟨heq ▸ hstuck, rfl⟩
      · exact ⟨heq ▸ ⟨hstuck.stranded, hstuck.forgotten⟩, rfl⟩
  exact ⟨ht.step e, hstep.1, (engineObs_any_append _ _).mpr ⟨hsilent, hstep.2⟩⟩

theorem engineToTick_cases (cfg : EngineConfig) (s : LiveLoop) :
    engineToTick cfg s = s.engine ∨ ∃ pos, engineToTick cfg s = s.engine.setHlPosition pos := by
  unfold engineToTick
  split_ifs
  · exact s.syncPosition_cases _
  · exact .inl rfl

/-- From the top of an iteration some continuation places an order, unless the engine is
stranded. -/
theorem LoopInv.exists_placement (h : LoopInv s) (hcfg : Enterable cfg) (hhead : s.pc = .drainFills)
    (hfree : ¬ Stranded HlMakerLighterHedger.leg s.engine.core) : ∃ es, ¬ Silent cfg s es := by
  obtain ⟨hup, hengine, hquiet⟩ := @revival_up cfg s hhead (obligingVenues 100 101 0 "")
  generalize hrevived : (machine cfg).final s (revival (obligingVenues 100 101 0 "")) = s₁ at *
  have hinv : LoopInv s₁ := hrevived ▸ h.final _
  have hcan : CanPlace cfg (engineToTick cfg s₁) := by
    rcases engineToTick_cases cfg s₁ with heq | ⟨pos, heq⟩
    · rw [heq, hengine]
      exact canPlace_of_not_stranded hcfg h.engine.1 h.engine.2 hfree
    · rw [heq, hengine]
      exact canPlace_of_not_stranded hcfg h.engine.1 h.engine.2 hfree
  obtain ⟨ks, -, hsent⟩ := hcan 0
  cases ks with
  | nil => cases hsent
  | cons k ks =>
    obtain ⟨es, hobs⟩ := @exists_run_of_ticks cfg s₁ hup hinv k ks
    refine ⟨revival (obligingVenues 100 101 0 "") ++ es, ?_⟩
    rw [Silent, EventMachine.obs_append, engineObs_any_append, hrevived, hobs, hsent]
    exact fun hsilent => Bool.noConfusion hsilent.2

/-- From the top of an iteration no continuation places an order exactly when the engine is
stuck. -/
theorem LoopInv.always_silent_iff (h : LoopInv s) (hcfg : Enterable cfg) (hhead : s.atHead = true) :
    (∀ es, Silent cfg s es) ↔ Stuck s.engine := by
  refine ⟨fun hsilent => ?_, fun hstuck es => h.silent_of_stuck hstuck es⟩
  have hpc := atHead_iff.mp hhead
  have hstranded : Stranded HlMakerLighterHedger.leg s.engine.core := by
    by_contra hfree
    obtain ⟨es, hplaces⟩ := h.exists_placement hcfg hpc hfree
    exact hplaces (hsilent es)
  refine ⟨hstranded, ?_⟩
  by_contra hrecent
  -- a fill of the order not forgotten makes the engine idle, and an idle engine can place
  obtain ⟨oid, size, hidle⟩ := @exists_fill_idle cfg s.engine hrecent 0 (snapAged 0) 0
    (obligingVenues 100 101 0 "")
  have hcall : s.engineCall (.fill 0 size (snapAged 0) oid 0 (obligingVenues 100 101 0 "")) =
      some (.fill 0 size (snapAged 0) oid 0 (obligingVenues 100 101 0 "")) := by
    simp [engineCall, hpc]
  have hfilled := @step_of_call cfg s _ _ hcall
  have hhead' : (s.step cfg (.fill 0 size (snapAged 0) oid 0
      (obligingVenues 100 101 0 ""))).1.pc = .drainFills := by
    simp [LiveLoop.step, hpc, LiveLoop.call]
  have hfree : ¬ Stranded HlMakerLighterHedger.leg (s.step cfg (.fill 0 size (snapAged 0) oid 0
      (obligingVenues 100 101 0 ""))).1.engine.core := by
    rw [hfilled.1]
    exact fun hstill => hstill.1 hidle
  obtain ⟨es, hplaces⟩ := (h.step _).exists_placement hcfg hhead' hfree
  refine hplaces ?_
  have hboth := hsilent (.fill 0 size (snapAged 0) oid 0 (obligingVenues 100 101 0 "") :: es)
  rw [Silent, EventMachine.obs_cons, engineObs_any_append] at hboth
  exact hboth.2

end Steps

/-! ## Runs -/

theorem loopInv_start (risk : RiskConfig) (journalAttached : Bool) (p₀ : ℚ) :
    LoopInv (startWith risk journalAttached p₀) :=
  ⟨MakerHedgeEngine.start_inv journalAttached p₀, .inl ⟨rfl, rfl⟩⟩

/-- The breaker holds in a run exactly when no tick of it has an order to send after a trip. -/
theorem holds_iff_nothingToPlace (cfg : EngineConfig) (risk : RiskConfig) (journalAttached : Bool)
    (p₀ : ℚ) (es : List LoopEvent) :
    BreakerHolds cfg risk (startWith risk journalAttached p₀) es ↔
      NothingToPlace cfg risk (startWith risk journalAttached p₀) es := by
  refine forall₂_congr fun pre mid => forall₂_congr fun _ _ => ?_
  have hinv : LoopInv ((machine cfg).final (startWith risk journalAttached p₀) pre) :=
    (loopInv_start risk journalAttached p₀).final pre
  rw [hinv.silent_iff mid]
  exact ⟨fun h => h (hinv.no_resets mid), fun h _ => h⟩

/-! ### Quiet markets -/

/-- The step ticks the engine on books that carry an order. -/
def TicksBusy (cfg : EngineConfig) (s : LiveLoop) (e : LoopEvent) : Prop :=
  ∃ nowMs venues, s.engineCall e = some (.tick nowMs venues) ∧
    ¬ Maker.QuietBooks cfg (collectSnapshot cfg venues)

/-- With no placement waiting, quiet books leave nothing to place. -/
theorem LoopInv.step_quiet {cfg : EngineConfig} {s : LiveLoop} {e : LoopEvent} (h : LoopInv s)
    (hslot : Maker.slotOrder s.engine = none) (hquiet : ¬ s.TicksBusy cfg e) :
    Maker.slotOrder (s.step cfg e).1.engine = none ∧ ¬ s.Places cfg e := by
  cases hcall : s.engineCall e with
  | none =>
    refine ⟨?_, not_places fun _ _ => by simp [hcall]⟩
    rcases (@step_of_no_call cfg s e hcall).engine with heq | ⟨pos, heq⟩
    · rwa [heq]
    · rw [heq]
      exact hslot
  | some call =>
    rw [(step_of_call hcall).1]
    cases call with
    | tick nowMs venues =>
      have hbooks : Maker.QuietBooks cfg (collectSnapshot cfg venues) := by
        by_contra hbusy
        exact hquiet ⟨nowMs, venues, hcall, hbusy⟩
      constructor
      · by_contra hwaits
        obtain ⟨order, horder⟩ := Option.ne_none_iff_exists'.mp hwaits
        rcases Maker.tick_slot_asked h.engine.1 h.engine.2.unarmed horder with hwas | hasked
        · rw [hslot] at hwas
          cases hwas
        · exact hbooks.not_asked hasked
      · rintro ⟨nowMs', venues', order, hticks, hsends⟩
        rw [hcall] at hticks
        cases hticks
        rcases Maker.sends_asked h.engine.2.unarmed hsends with hwas | hasked
        · rw [hslot] at hwas
          cases hwas
        · exact hbooks.not_asked hasked
    | trade trade venues =>
      exact ⟨(Maker.trade_slot trade).trans hslot, not_places fun _ _ => by simp [hcall]⟩
    | fill fillPrice size snapshot oid hlFee venues =>
      have hmove := @onHlFill_fillMove cfg s.engine fillPrice size snapshot oid hlFee venues
      exact ⟨(Maker.fill_slot hmove).trans hslot, not_places fun _ _ => by simp [hcall]⟩

/-- The breaker holds where at each trip no placement waits, and the books are quiet after it. -/
theorem breakerHolds_of_quiet {cfg : EngineConfig} {risk : RiskConfig} {journalAttached : Bool}
    {p₀ : ℚ} {es : List LoopEvent}
    (h : ∀ pre mid, pre ++ mid <+: es →
      Tripped risk ((machine cfg).obs (startWith risk journalAttached p₀) pre) →
      Maker.slotOrder ((machine cfg).final (startWith risk journalAttached p₀) pre).engine = none ∧
        (machine cfg).Throughout ((machine cfg).final (startWith risk journalAttached p₀) pre)
          (fun _ t e => ¬ t.TicksBusy cfg e) mid) :
    BreakerHolds cfg risk (startWith risk journalAttached p₀) es := by
  refine (holds_iff_nothingToPlace cfg risk journalAttached p₀ es).mpr fun pre mid hp htripped => ?_
  obtain ⟨hslot, hquiet⟩ := h pre mid hp htripped
  have hinv : LoopInv ((machine cfg).final (startWith risk journalAttached p₀) pre) :=
    (loopInv_start risk journalAttached p₀).final pre
  have hwaits : (machine cfg).Always ((machine cfg).final (startWith risk journalAttached p₀) pre)
      (fun _ t => LoopInv t ∧ Maker.slotOrder t.engine = none) mid :=
    EventMachine.always_of_throughout ⟨hinv, hslot⟩
      (fun _ _ e ht hbusy => ⟨ht.1.step e, (ht.1.step_quiet ht.2 hbusy).1⟩) hquiet
  intro pre' e hp'
  obtain ⟨ht, hnone⟩ := hwaits.before hp'
  exact (ht.step_quiet hnone (hquiet pre' e hp')).2

/-- A run that ends at the top of an iteration has stopped placing exactly when the breaker has not
tripped or the engine is stuck. -/
theorem stopsPlacing_iff_stuck (cfg : EngineConfig) (hcfg : Enterable cfg) (risk : RiskConfig)
    (journalAttached : Bool) (p₀ : ℚ) (es : List LoopEvent)
    (hhead : ((machine cfg).final (startWith risk journalAttached p₀) es).atHead = true) :
    StopsPlacing cfg risk (startWith risk journalAttached p₀) es ↔
      (Tripped risk ((machine cfg).obs (startWith risk journalAttached p₀) es) →
        Stuck ((machine cfg).final (startWith risk journalAttached p₀) es).engine) := by
  have hinv : LoopInv ((machine cfg).final (startWith risk journalAttached p₀) es) :=
    (loopInv_start risk journalAttached p₀).final es
  refine imp_congr_right fun _ => ?_
  rw [← hinv.always_silent_iff hcfg hhead]
  exact forall_congr' fun fs => ⟨fun h => h (hinv.no_resets fs), fun h _ => h⟩

/-- In a run the breaker holds exactly when no tick has an order to send after a trip; and where an
iteration starts it has stopped the loop for good exactly when it has not tripped, or the engine was
stuck anyway. -/
theorem breaker_iff (cfg : EngineConfig) (risk : RiskConfig) (journalAttached : Bool) (p₀ : ℚ)
    (es : List LoopEvent) :
    (BreakerHolds cfg risk (startWith risk journalAttached p₀) es ↔
      NothingToPlace cfg risk (startWith risk journalAttached p₀) es) ∧
    (Enterable cfg →
      ((machine cfg).final (startWith risk journalAttached p₀) es).atHead = true →
      (StopsPlacing cfg risk (startWith risk journalAttached p₀) es ↔
        (Tripped risk ((machine cfg).obs (startWith risk journalAttached p₀) es) →
          Stuck ((machine cfg).final (startWith risk journalAttached p₀) es).engine))) :=
  ⟨holds_iff_nothingToPlace cfg risk journalAttached p₀ es,
    fun hcfg hhead => stopsPlacing_iff_stuck cfg hcfg risk journalAttached p₀ es hhead⟩

/-- A fill of a quarter whose hedge Lighter rejects. -/
def rejectedFill (oid : String) : LoopEvent :=
  .fill 100 0.25 (snapAged 0) oid 0
    { obligingVenues 100 110 0 "" with
      lighter := { obligingLighter 110 1 with placeIocOrder := fun _ => {} } }

/-- The hedges of three fills of order `"1"` are rejected, and the loop can place on. -/
theorem not_stopped_after_failures :
    ¬ StopsPlacing sampleConfig {} (startWith {} false 0)
      (feedUp ++ ticking 1000 "1" ++ List.replicate 3 (rejectedFill "1")) := by
  rw [(breaker_iff sampleConfig {} false 0 (feedUp ++ ticking 1000 "1" ++
    List.replicate 3 (rejectedFill "1"))).2 sampleConfig_enterable (by decide +kernel)]
  intro h
  have hstuck := h (by decide +kernel)
  exact absurd hstuck.forgotten (by decide +kernel)

/-- The next iteration does place, an order `"2"`. -/
theorem places_after_failures :
    ¬ BreakerHolds sampleConfig {} (startWith {} false 0)
      (feedUp ++ ticking 1000 "1" ++ List.replicate 3 (rejectedFill "1") ++ ticking 5000 "2") := by
  intro h
  have hsilent := h _ _ (List.prefix_refl _) (by decide +kernel) (by decide +kernel)
  revert hsilent
  decide +kernel

end LiveLoop

end Arb
