import HlLighterArb.LighterMaker.Fills
import HlLighterArb.LighterMaker.Placements
import HlLighterArb.Maker.Fills
import HlLighterArb.Maker.Placements
import HlLighterArb.Progress

/-!
# HlLighterArb.Justified

Whether a placement is justified by the snapshot of the tick that sends it. An order just decided
always is. A deferred order was justified when it was decided, and is sent from the slot before the
strategy looks at the new snapshot.

* `Supports`: the snapshot is valid and its spread is in the band of the order.
* `placementsJustified_iff`: in a run of either engine all placements are justified exactly when
  every deferred placement comes due on a snapshot that supports it.
-/

namespace Arb

/-- The snapshot is valid, and its spread has the order's direction and is in its band. -/
structure Supports (cfg : HedgerConfig) (snapshot : SpreadSnapshot) (order : PendingMakerOrder) :
    Prop where
  valid : snapshot.valid cfg.maxQuoteAgeMs = true
  direction : directionForSpread snapshot.crossSpreadBps = order.direction
  band : max 0 (order.entrySpreadBps - cfg.cancelBandBps) ≤ |snapshot.crossSpreadBps|

/-- An order decided on the way out of `idle` is supported by the snapshot it was decided on. -/
theorem Hedger.onSnapshot_supports {leg : MakerLeg} {cfg : HedgerConfig} {h : Hedger}
    {snapshot : SpreadSnapshot} {threshold : ℚ} {build : SignalGate → PendingMakerOrder}
    {reason : SignalGate → String} {nowMs : Int} {why : String} {order : PendingMakerOrder}
    (idle : h.state = .idle) (unarmed : h.gate.armed = false)
    (hbuild : ∀ g, (build g).direction = g.direction ∧ (build g).entrySpreadBps = g.entrySpreadBps)
    (hplace : ∀ r x, leg.place r x = leg.place why order → x = order)
    (hnone : leg.place why order ≠ .none)
    (hdecided : (h.onSnapshot leg cfg snapshot threshold build reason nowMs).2 =
      leg.place why order) : Supports cfg snapshot order := by
  rw [onSnapshot_idle idle unarmed] at hdecided
  split_ifs at hdecided with henter
  · have horder := hplace _ _ hdecided
    obtain ⟨hdirection, hentry⟩ := hbuild (armedGate snapshot.crossSpreadBps threshold)
    refine ⟨henter.1, ?_, ?_⟩
    · rw [← horder, hdirection]
      rfl
    · have hthreshold : order.entrySpreadBps = threshold := by
        rw [← horder, hentry]
        rfl
      rw [hthreshold]
      have hwide := henter.2.1
      have hband := cfg.cancel_band_nonneg
      exact max_le (abs_nonneg _) (by linarith)
  · exact absurd hdecided.symm hnone

/-! ## `MakerHedgeEngine` -/

namespace Maker

open MakerHedgeEngine

/-- Each placement of the call is an order that its snapshot supports. -/
def PlacementsJustified (cfg : EngineConfig) (s : MakerHedgeEngine) : MakerEvent → Prop
  | .tick nowMs venues => ∀ request ack,
    .placeLimit request ack ∈ (onMarketData cfg venues s nowMs).calls →
      ∃ order, Sends cfg s nowMs venues order ∧ request = limitRequest cfg order ∧
        Supports cfg.strategy (collectSnapshot cfg venues) order
  | _ => True

/-- A deferred placement that comes due is supported by the snapshot of that tick. -/
def DeferredSupported (cfg : EngineConfig) (s : MakerHedgeEngine) : MakerEvent → Prop
  | .tick nowMs venues => ∀ order, SendsDeferred cfg s nowMs venues order →
    Supports cfg.strategy (collectSnapshot cfg venues) order
  | _ => True

variable {cfg : EngineConfig} {s : MakerHedgeEngine}

theorem strategyAsked_unarmed {nowMs : Int} {venues : Venues}
    (unarmed : s.strategy.state = .idle → s.strategy.gate.armed = false)
    (idle : (strategyAsked cfg s nowMs venues).state = .idle) :
    (strategyAsked cfg s nowMs venues).gate.armed = false := by
  unfold strategyAsked at idle ⊢
  split
  · rename_i hslot
    split_ifs with hblock
    · rfl
    · rw [hslot] at idle
      simp only [hblock] at idle
      exact unarmed idle
  · rename_i hslot
    refine unarmed ?_
    split at idle
    · rename_i hplace
      exact absurd hplace (hslot _ _)
    · exact idle

/-- A strategy decides on an order out of `idle` only. -/
theorem idle_of_asked {h : Hedger} {snapshot : SpreadSnapshot} {nowMs : Int} {p : ℚ}
    {reason : String} {order : PendingMakerOrder}
    (hdecided : (HlMakerLighterHedger.onMarketSnapshot cfg.strategy h snapshot nowMs p).2 =
      .placeHlMaker reason order) : h.state = .idle := by
  have hd := HlMakerLighterHedger.onMarketSnapshot_decided cfg.strategy h snapshot nowMs p
  rw [hdecided] at hd
  generalize (HlMakerLighterHedger.onMarketSnapshot _ _ _ _ _).1 = h' at hd
  cases hd with
  | place _ idle => exact idle
  | cancel _ _ _ _ _ _ _ _ act => cases act

theorem supports_of_asked {h : Hedger} {snapshot : SpreadSnapshot} {nowMs : Int} {p : ℚ}
    {reason : String} {order : PendingMakerOrder}
    (unarmed : h.state = .idle → h.gate.armed = false)
    (hdecided : (HlMakerLighterHedger.onMarketSnapshot cfg.strategy h snapshot nowMs p).2 =
      .placeHlMaker reason order) : Supports cfg.strategy snapshot order := by
  have hidle := idle_of_asked hdecided
  rw [HlMakerLighterHedger.onMarketSnapshot_eq] at hdecided
  refine Hedger.onSnapshot_supports hidle (unarmed hidle) (fun g => ⟨rfl, rfl⟩)
    (fun r x hsame => ?_) (fun hnone => ?_) hdecided
  · cases hsame
    rfl
  · cases hnone

theorem SendsDecided.supported {nowMs : Int} {venues : Venues} {order : PendingMakerOrder}
    (unarmed : s.strategy.state = .idle → s.strategy.gate.armed = false)
    (h : SendsDecided cfg s nowMs venues order) :
    Supports cfg.strategy (collectSnapshot cfg venues) order := by
  obtain ⟨-, -, -, reason, hdecided⟩ := h
  exact supports_of_asked (strategyAsked_unarmed unarmed) hdecided

/-- A call sends justified orders exactly when its deferred placement is supported. -/
theorem placementsJustified_step (hdef : DeferredMaker s)
    (unarmed : s.strategy.state = .idle → s.strategy.gate.armed = false) (e : MakerEvent) :
    PlacementsJustified cfg s e ↔ DeferredSupported cfg s e := by
  cases e with
  | tick nowMs venues =>
    constructor
    · intro h order hdeferred
      obtain ⟨sent, hsends, -, hsupports⟩ :=
        h _ _ ((placeLimit_mem_iff hdef).mpr ⟨order, .inl hdeferred, rfl, rfl⟩)
      rwa [Sends.unique (.inl hdeferred) hsends]
    · intro h request ack hm
      obtain ⟨order, hsends, hrequest, -⟩ := (placeLimit_mem_iff hdef).mp hm
      refine ⟨order, hsends, hrequest, ?_⟩
      rcases hsends with hdeferred | hdecided
      · exact h order hdeferred
      · exact hdecided.supported unarmed
  | _ => exact Iff.rfl

end Maker

/-! ## `LighterMakerTakerEngine` -/

namespace LighterMaker

open LighterMakerTakerEngine

def PlacementsJustified (cfg : EngineConfig) (s : LighterMakerTakerEngine) :
    LighterMakerEvent → Prop
  | .tick nowMs venues => ∀ request ack,
    .placeLimit request ack ∈ (onMarketData cfg venues s nowMs).calls →
      ∃ order, Sends cfg s nowMs venues order ∧ request = limitRequest cfg order ∧
        Supports cfg.strategy (collectSnapshot cfg venues) order
  | _ => True

def DeferredSupported (cfg : EngineConfig) (s : LighterMakerTakerEngine) :
    LighterMakerEvent → Prop
  | .tick nowMs venues => ∀ order, SendsDeferred cfg s nowMs venues order →
    Supports cfg.strategy (collectSnapshot cfg venues) order
  | _ => True

variable {cfg : EngineConfig} {s : LighterMakerTakerEngine}

theorem SendsDecided.supported {nowMs : Int} {venues : Venues} {order : PendingMakerOrder}
    (unarmed : s.strategy.state = .idle → s.strategy.gate.armed = false)
    (h : SendsDecided cfg s nowMs venues order) :
    Supports cfg.strategy (collectSnapshot cfg venues) order := by
  obtain ⟨-, -, hdecides⟩ := h
  have hidle := ((decides_iff unarmed).mp hdecides).1
  obtain ⟨reason, hdecided⟩ := hdecides
  rw [LighterMakerHlHedger.onMarketSnapshot_eq] at hdecided
  refine Hedger.onSnapshot_supports hidle (unarmed hidle) (fun g => ⟨rfl, rfl⟩)
    (fun r x hsame => ?_) (fun hnone => ?_) hdecided
  · cases hsame
    rfl
  · cases hnone

theorem placementsJustified_step (hdef : DeferredMaker s)
    (unarmed : s.strategy.state = .idle → s.strategy.gate.armed = false) (e : LighterMakerEvent) :
    PlacementsJustified cfg s e ↔ DeferredSupported cfg s e := by
  cases e with
  | tick nowMs venues =>
    constructor
    · intro h order hdeferred
      obtain ⟨sent, hsends, -, hsupports⟩ :=
        h _ _ ((placeLimit_mem_iff hdef).mpr ⟨order, .inl hdeferred, rfl, rfl⟩)
      rwa [Sends.unique (.inl hdeferred) hsends]
    · intro h request ack hm
      obtain ⟨order, hsends, hrequest, -⟩ := (placeLimit_mem_iff hdef).mp hm
      refine ⟨order, hsends, hrequest, ?_⟩
      rcases hsends with hdeferred | hdecided
      · exact h order hdeferred
      · exact hdecided.supported unarmed
  | fill => exact Iff.rfl

/-- A tick with Lighter below HL. -/
def tickDown (nowMs : Int) : LighterMakerEvent :=
  .tick nowMs (obligingVenues 110 100 nowMs "")

end LighterMaker

/-! ## Runs -/

/-- In a run of either engine all placements are justified exactly when every deferred placement
comes due on a snapshot that supports it. -/
theorem placementsJustified_iff (cfg : EngineConfig) (journalAttached : Bool) (p₀ : ℚ)
    (es : List MakerEvent) (fs : List LighterMakerEvent) :
    ((MakerHedgeEngine.machine cfg).Throughout (MakerHedgeEngine.start journalAttached p₀)
        (fun _ s e => Maker.PlacementsJustified cfg s e) es ↔
      (MakerHedgeEngine.machine cfg).Throughout (MakerHedgeEngine.start journalAttached p₀)
        (fun _ s e => Maker.DeferredSupported cfg s e) es) ∧
    ((LighterMakerTakerEngine.machine cfg).Throughout (LighterMakerTakerEngine.start journalAttached)
        (fun _ s e => LighterMaker.PlacementsJustified cfg s e) fs ↔
      (LighterMakerTakerEngine.machine cfg).Throughout
        (LighterMakerTakerEngine.start journalAttached)
        (fun _ s e => LighterMaker.DeferredSupported cfg s e) fs) := by
  constructor
  · exact (MakerHedgeEngine.reachable_inv cfg journalAttached p₀ es).throughout_congr
      fun _ _ e h => Maker.placementsJustified_step h.1 h.2.unarmed e
  · exact (LighterMakerTakerEngine.reachable_inv cfg journalAttached fs).throughout_congr
      fun _ _ e h => LighterMaker.placementsJustified_step h.1 h.2.unarmed e

def Action.hlOrder : Action → Option PendingMakerOrder
  | .placeHlMaker _ order => some order
  | _ => Option.none

def Action.lighterOrder : Action → Option PendingMakerOrder
  | .placeLighterMaker _ order => some order
  | _ => Option.none

theorem Action.hlOrder_slot {slot : Option Action} {order : PendingMakerOrder}
    (h : slot.bind Action.hlOrder = some order) :
    ∃ reason, slot = some (.placeHlMaker reason order) := by
  obtain ⟨action, rfl, haction⟩ := Option.bind_eq_some_iff.mp h
  cases action with
  | placeHlMaker reason sent =>
    cases haction
    exact ⟨reason, rfl⟩
  | _ => cases haction

theorem Action.lighterOrder_slot {slot : Option Action} {order : PendingMakerOrder}
    (h : slot.bind Action.lighterOrder = some order) :
    ∃ reason, slot = some (.placeLighterMaker reason order) := by
  obtain ⟨action, rfl, haction⟩ := Option.bind_eq_some_iff.mp h
  cases action with
  | placeLighterMaker reason sent =>
    cases haction
    exact ⟨reason, rfl⟩
  | _ => cases haction

/-- An order to go long HL waits for the limiter, the spread turns, and the order is sent all the
same, by either engine. -/
theorem deferred_against_spread :
    ¬ (MakerHedgeEngine.machine sampleConfig).Throughout (MakerHedgeEngine.start false 0)
        (fun _ s e => Maker.PlacementsJustified sampleConfig s e)
        [tickUp 1000 "1", fillOf "1" 0.25, tickUp 1100 "", tickDown 1300 "2"] ∧
    ¬ (LighterMakerTakerEngine.machine sampleConfig).Throughout
        (LighterMakerTakerEngine.start false)
        (fun _ s e => LighterMaker.PlacementsJustified sampleConfig s e)
        [LighterMaker.tickUp 1000, LighterMaker.fillOf 1 1, LighterMaker.tickUp 1100,
          LighterMaker.tickDown 1600] := by
  constructor
  · intro h
    have hinv := (MakerHedgeEngine.reachable_inv sampleConfig false 0
      [tickUp 1000 "1", fillOf "1" 0.25, tickUp 1100 ""]).last
    have hstep := (Maker.placementsJustified_step hinv.1 hinv.2.unarmed _).mp
      (h [tickUp 1000 "1", fillOf "1" 0.25, tickUp 1100 ""] (tickDown 1300 "2")
        (List.prefix_refl _))
    have hruns : Maker.deferredRuns sampleConfig ((MakerHedgeEngine.machine sampleConfig).final
        (MakerHedgeEngine.start false 0) [tickUp 1000 "1", fillOf "1" 0.25, tickUp 1100 ""]) 1300
        (obligingVenues 110 100 1300 "2") = true := by decide +kernel
    have hslot : (((MakerHedgeEngine.machine sampleConfig).final (MakerHedgeEngine.start false 0)
        [tickUp 1000 "1", fillOf "1" 0.25, tickUp 1100 ""]).deferredHlAction.bind
          Action.hlOrder).map (·.direction) = some .shortLighterLongHl := by decide +kernel
    obtain ⟨order, hbind, hdirection⟩ := Option.map_eq_some_iff.mp hslot
    obtain ⟨reason, hdeferred⟩ := Action.hlOrder_slot hbind
    have hagainst := (hstep order ⟨hruns, reason, hdeferred⟩).direction
    rw [hdirection] at hagainst
    revert hagainst
    decide +kernel
  · intro h
    have hinv := (LighterMakerTakerEngine.reachable_inv sampleConfig false
      [LighterMaker.tickUp 1000, LighterMaker.fillOf 1 1, LighterMaker.tickUp 1100]).last
    have hstep := (LighterMaker.placementsJustified_step hinv.1 hinv.2.unarmed _).mp
      (h [LighterMaker.tickUp 1000, LighterMaker.fillOf 1 1, LighterMaker.tickUp 1100]
        (LighterMaker.tickDown 1600) (List.prefix_refl _))
    have hruns : LighterMaker.deferredRuns sampleConfig
        ((LighterMakerTakerEngine.machine sampleConfig).final (LighterMakerTakerEngine.start false)
          [LighterMaker.tickUp 1000, LighterMaker.fillOf 1 1, LighterMaker.tickUp 1100]) 1600
        (obligingVenues 110 100 1600 "") = true := by decide +kernel
    have hslot : (((LighterMakerTakerEngine.machine sampleConfig).final
        (LighterMakerTakerEngine.start false)
        [LighterMaker.tickUp 1000, LighterMaker.fillOf 1 1, LighterMaker.tickUp 1100]
        ).deferredLighterAction.bind Action.lighterOrder).map (·.direction) =
          some .shortLighterLongHl := by decide +kernel
    obtain ⟨order, hbind, hdirection⟩ := Option.map_eq_some_iff.mp hslot
    obtain ⟨reason, hdeferred⟩ := Action.lighterOrder_slot hbind
    have hagainst := (hstep order ⟨hruns, reason, hdeferred⟩).direction
    rw [hdirection] at hagainst
    revert hagainst
    decide +kernel

end Arb
