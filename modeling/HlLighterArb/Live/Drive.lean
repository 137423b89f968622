import HlLighterArb.Live.Sighted
import HlLighterArb.Progress

/-!
# HlLighterArb.Live.Drive

Driving the loop. Whatever has happened, the feed can come back; from then on an iteration with
fresh quotes ticks the engine, whether the kill switch was on or not, and so the loop can take its
engine through any run of ticks.

* `LoopInv`: what holds of the engine and of the kill switch at every moment.
* `exists_ticksOnce`: some iteration resets the switch and ticks the engine once.
* `exists_run_of_ticks`: every run of ticks of the engine is the run of some iterations.
-/

namespace Arb

open MakerHedgeEngine

namespace LiveLoop

/-! ## What holds at every moment -/

/-- The switch is off, or on for the feed or for stale quotes. -/
def KnownReason (g : RiskGuard) : Prop :=
  g.killSwitch = false ∧ g.killSwitchReason = "" ∨
    g.killSwitch = true ∧
      (isFeedReason g.killSwitchReason = true ∨ g.killSwitchReason = "stale quotes detected")

structure LoopInv (s : LiveLoop) : Prop where
  engine : DeferredMaker s.engine ∧ CoreInv HlMakerLighterHedger.leg s.engine.core
  risk : KnownReason s.risk

/-- What a step may do to the kill switch. -/
inductive RiskMove (g : RiskGuard) : RiskGuard → Prop where
  | same : RiskMove g g
  | feed {reason : String} (h : isFeedReason reason = true) :
      RiskMove g (g.activateKillSwitch reason)
  | stale : RiskMove g (g.activateKillSwitch "stale quotes detected")
  | reset : RiskMove g g.resetKillSwitch

section Steps

variable {cfg : EngineConfig} {s : LiveLoop} {e : LoopEvent}

theorem step_riskMove (s : LiveLoop) (e : LoopEvent) : RiskMove s.risk (s.step cfg e).1.risk := by
  cases e with
  | next venues response =>
    simp only [step]
    unfold next
    cases s.pc with
    | feedCheck t | staleCheck t | killCheck t =>
      simp only
      split_ifs <;> exact .same
    | latchFeed t => exact .feed rfl
    | latchStale t => exact .stale
    | resetFeed t | resetStale t => exact .reset
    | reconcile t =>
      simp only
      split <;> exact .same
    | _ => exact .same
  | callback venues =>
    simp only [step]
    unfold callback
    split
    · exact .same
    · next reason _ =>
      split_ifs
      · exact .same
      · exact .feed (isFeedReason_disconnected reason)
  | fill fillPrice size snapshot oid hlFee venues =>
    simp only [step]
    split <;> exact .same
  | trade trade venues =>
    simp only [step]
    split <;> exact .same
  | fillsDrained =>
    simp only [step]
    split <;> exact .same
  | snapshot snap nowMs =>
    simp only [step]
    split
    · split_ifs <;> exact .same
    · exact .same
  | readError reason => exact .same
  | handshake => exact .same
  | subscriptionResponse => exact .same

theorem RiskMove.knownReason {g g' : RiskGuard} (hm : RiskMove g g') (h : KnownReason g) :
    KnownReason g' := by
  cases hm with
  | same => exact h
  | feed hreason => exact .inr ⟨rfl, .inl hreason⟩
  | stale => exact .inr ⟨rfl, .inr rfl⟩
  | reset => exact .inl ⟨rfl, rfl⟩

/-- A position sync leaves the invariant of the engine alone, and so does every call. -/
theorem engine_inv_step (h : DeferredMaker s.engine ∧ CoreInv HlMakerLighterHedger.leg s.engine.core)
    (e : LoopEvent) : DeferredMaker (s.step cfg e).1.engine ∧
      CoreInv HlMakerLighterHedger.leg (s.step cfg e).1.engine.core := by
  cases hcall : s.engineCall e with
  | some call =>
    rw [(step_of_call hcall).1]
    exact MakerHedgeEngine.step_inv h call
  | none =>
    rcases (@step_of_no_call cfg s e hcall).engine with heq | ⟨pos, heq⟩
    · rw [heq]
      exact h
    · rw [heq]
      exact h

theorem LoopInv.step (h : LoopInv s) (e : LoopEvent) : LoopInv (s.step cfg e).1 :=
  ⟨engine_inv_step h.engine e, (step_riskMove s e).knownReason h.risk⟩

theorem LoopInv.always (h : LoopInv s) (es : List LoopEvent) :
    (machine cfg).Always s (fun _ t => LoopInv t) es :=
  EventMachine.invariant (m := machine cfg) (P := fun _ t => LoopInv t) h
    (fun _ _ e ht => ht.step e) es

theorem LoopInv.final (h : LoopInv s) (es : List LoopEvent) : LoopInv ((machine cfg).final s es) :=
  (h.always es).last

end Steps

/-! ## Iterations that tick -/

/-- At the top of an iteration, with the fills subscribed. -/
structure Up (s : LiveLoop) : Prop where
  head : s.pc = .drainFills
  subscribed : s.feed.isSubscribed = true

/-- The engine as the tick of the next iteration finds it, when the position query fails. -/
def engineToTick (cfg : EngineConfig) (s : LiveLoop) : MakerHedgeEngine :=
  if s.feedKilled then s.syncPosition 0 else s.engine

def freshTick (nowMs : Int) : LoopTick where
  snap := snapAged 0
  nowMs := nowMs
  fillsSubscribed := true

/-- The first `n` steps of an iteration with fresh quotes, behind its snapshot. -/
def approach (n : Nat) (nowMs : Int) (venues : Venues) : List LoopEvent :=
  .fillsDrained :: .snapshot (snapAged 0) nowMs :: List.replicate n (.next venues none)

section Drive

variable {cfg : EngineConfig} {s : LiveLoop}

theorem snapAged_usable :
    ¬ ((snapAged 0).hl.bid ≤ 0 ∨ (snapAged 0).lighter.bid ≤ 0) ∧
      ¬ (5000 < (snapAged 0).lighter.quoteAgeMs ∨ 5000 < (snapAged 0).hl.quoteAgeMs) := by
  decide +kernel

/-- With the switch off four steps lead to the tick. -/
theorem approach_off (hup : Up s) (hoff : s.risk.killSwitch = false) (nowMs : Int)
    (venues : Venues) :
    (machine cfg).exec s (approach 4 nowMs venues) =
      ({ s with pc := .marketData (freshTick nowMs) }, [.read true]) := by
  obtain ⟨engine, risk, feed, pc⟩ := s
  obtain ⟨rfl, hsub⟩ := hup
  simp only at hoff hsub
  simp [approach, List.replicate, EventMachine.exec, machine, step, next, hsub, hoff, feedKilled,
    snapAged_usable, freshTick]

/-- With the switch on for stale quotes it takes one more, which resets it. -/
theorem approach_stale (hup : Up s) (hon : s.risk.killSwitch = true)
    (hstale : s.risk.killSwitchReason = "stale quotes detected") (nowMs : Int) (venues : Venues) :
    (machine cfg).exec s (approach 5 nowMs venues) =
      ({ s with risk := s.risk.resetKillSwitch, pc := .marketData (freshTick nowMs) },
        [.read true]) := by
  obtain ⟨engine, risk, feed, pc⟩ := s
  obtain ⟨rfl, hsub⟩ := hup
  simp only at hon hsub hstale
  have hfeed : isFeedReason "stale quotes detected" = false := by decide +kernel
  simp [approach, List.replicate, EventMachine.exec, machine, step, next, hsub, hon, hstale, hfeed,
    feedKilled, snapAged_usable, freshTick, RiskGuard.resetKillSwitch]

/-- With the switch on for the feed the position is reconciled and the switch reset. -/
theorem approach_feed (hup : Up s) (hkilled : s.feedKilled = true) (nowMs : Int)
    (venues : Venues) :
    (machine cfg).exec s (approach 6 nowMs venues) =
      ({ s with
          engine := s.syncPosition 0
          risk := s.risk.resetKillSwitch
          pc := .marketData (freshTick nowMs) }, [.read true, .reconciled]) := by
  obtain ⟨engine, risk, feed, pc⟩ := s
  obtain ⟨rfl, hsub⟩ := hup
  simp only at hsub
  obtain ⟨hon, hreason⟩ := feedKilled_iff.mp hkilled
  simp only at hon hreason
  simp [approach, List.replicate, EventMachine.exec, machine, step, next, hsub, hon, hreason,
    feedKilled, snapAged_usable, freshTick, RiskGuard.resetKillSwitch, syncPosition, queryHlPosition]

/-- The events are an iteration that ticks the engine, and leave the switch off. -/
structure TicksOnce (cfg : EngineConfig) (s : LiveLoop) (nowMs : Int) (venues : Venues)
    (es : List LoopEvent) : Prop where
  up : Up ((machine cfg).final s es)
  off : ((machine cfg).final s es).risk.killSwitch = false
  engine : ((machine cfg).final s es).engine =
    (MakerHedgeEngine.step cfg (engineToTick cfg s) (.tick nowMs venues)).1
  obs : engineObs ((machine cfg).obs s es) =
    (MakerHedgeEngine.step cfg (engineToTick cfg s) (.tick nowMs venues)).2

/-- Steps that lead to the tick with the switch off, and show nothing of the engine. -/
theorem TicksOnce.of_approach (hup : Up s) {n : Nat} {nowMs : Int} {venues : Venues} (s' : LiveLoop)
    {l : List LoopObs} (hfeed : s'.feed = s.feed) (hoff : s'.risk.killSwitch = false)
    (hengine : s'.engine = engineToTick cfg s) (hquiet : engineObs l = [])
    (hexec : (machine cfg).exec s (approach n nowMs venues) =
      ({ s' with pc := .marketData (freshTick nowMs) }, l)) :
    TicksOnce cfg s nowMs venues (approach n nowMs venues ++ [.next venues none]) := by
  have hfinal : (machine cfg).final s (approach n nowMs venues) =
      { s' with pc := .marketData (freshTick nowMs) } := congrArg Prod.fst hexec
  have hobs : (machine cfg).obs s (approach n nowMs venues) = l := congrArg Prod.snd hexec
  have hlast : (machine cfg).final s (approach n nowMs venues ++ [.next venues none]) =
      { s' with
        engine := (MakerHedgeEngine.step cfg s'.engine (.tick nowMs venues)).1
        pc := .drainFills } := by
    rw [EventMachine.final_snoc, hfinal]
    rfl
  refine ⟨⟨?_, ?_⟩, ?_, ?_, ?_⟩
  · rw [hlast]
  · rw [hlast]
    exact hfeed ▸ hup.subscribed
  · rw [hlast]
    exact hoff
  · rw [hlast, ← hengine]
  · rw [EventMachine.obs_snoc, hfinal, hobs, engineObs_append, hquiet, ← hengine]
    exact engineObs_map _

/-- Some iteration ticks the engine, and leaves the switch off. -/
theorem exists_ticksOnce (hup : Up s) (hrisk : KnownReason s.risk) (nowMs : Int)
    (venues : Venues) : ∃ es, TicksOnce cfg s nowMs venues es := by
  rcases hrisk with ⟨hoff, -⟩ | ⟨hon, hreason⟩
  · have hsame : engineToTick cfg s = s.engine := if_neg (by simp [feedKilled, hoff])
    exact ⟨_, .of_approach hup s rfl hoff hsame.symm rfl (approach_off hup hoff nowMs venues)⟩
  · by_cases hkilled : s.feedKilled = true
    · have hsynced : s.syncPosition 0 = engineToTick cfg s :=
        (if_pos hkilled).symm
      exact ⟨_, .of_approach hup
        { s with
          engine := s.syncPosition 0
          risk := s.risk.resetKillSwitch }
        rfl rfl hsynced rfl (approach_feed hup hkilled nowMs venues)⟩
    · have hstale := hreason.resolve_left fun hfeed => hkilled (feedKilled_iff.mpr ⟨hon, hfeed⟩)
      have hsame : engineToTick cfg s = s.engine := if_neg hkilled
      exact ⟨_, .of_approach hup { s with risk := s.risk.resetKillSwitch } rfl rfl hsame.symm rfl
        (approach_stale hup hon hstale nowMs venues)⟩

/-- The loop can take its engine through any run of ticks. -/
theorem exists_run_of_ticks (hup : Up s) (hinv : LoopInv s) (k : MarketTick)
    (ks : List MarketTick) :
    ∃ es, engineObs ((machine cfg).obs s es) =
      (MakerHedgeEngine.machine cfg).obs (engineToTick cfg s) ((k :: ks).map tickEvent) := by
  induction ks generalizing s k with
  | nil =>
    obtain ⟨es, hticks⟩ := @exists_ticksOnce cfg s hup hinv.risk k.atMs k.venues
    refine ⟨es, ?_⟩
    rw [hticks.obs, List.map_singleton, EventMachine.obs_cons, EventMachine.obs_nil,
      List.append_nil]
    rfl
  | cons k' ks ih =>
    obtain ⟨es, hticks⟩ := @exists_ticksOnce cfg s hup hinv.risk k.atMs k.venues
    obtain ⟨fs, hrest⟩ := ih hticks.up (hinv.final es) k'
    have hengine : engineToTick cfg ((machine cfg).final s es) =
        (MakerHedgeEngine.step cfg (engineToTick cfg s) (tickEvent k)).1 := by
      rw [engineToTick, if_neg (by simp [feedKilled, hticks.off]), hticks.engine]
      rfl
    refine ⟨es ++ fs, ?_⟩
    rw [EventMachine.obs_append, engineObs_append, hticks.obs, hrest, hengine, List.map_cons,
      EventMachine.obs_cons]
    rfl

/-- The feed comes back, behind the callback of its loss. -/
def revival (venues : Venues) : List LoopEvent :=
  [.callback venues, .handshake, .subscriptionResponse]

/-- Whatever has happened to the feed, it can come back. -/
theorem revival_up (hhead : s.pc = .drainFills) (venues : Venues) :
    Up ((machine cfg).final s (revival venues)) ∧
      ((machine cfg).final s (revival venues)).engine = s.engine ∧
      engineObs ((machine cfg).obs s (revival venues)) = [] := by
  have hcalled : (s.callback cfg venues).1.pc = .drainFills ∧
      (s.callback cfg venues).1.feed.disconnecting = none ∧
      (s.callback cfg venues).1.engine = s.engine ∧
      engineObs (s.callback cfg venues).2 = [] := by
    unfold callback
    split
    · next hnone => exact ⟨hhead, hnone, rfl, rfl⟩
    · split_ifs
      · exact ⟨hhead, rfl, rfl, rfl⟩
      · exact ⟨hhead, rfl, rfl, engineObs_cancelActive venues⟩
  obtain ⟨hpc, hdisconnecting, hengine, hquiet⟩ := hcalled
  simp only [revival, machine, EventMachine.final_cons, EventMachine.final_nil,
    EventMachine.obs_cons, EventMachine.obs_nil, step, List.append_nil]
  refine ⟨⟨hpc, ?_⟩, hengine, hquiet⟩
  simp [HlFillFeed.onHandshake, HlFillFeed.onSubscriptionResponse, HlFillFeed.isSubscribed,
    hdisconnecting]

end Drive

end LiveLoop

end Arb
