import HlLighterArb.Lib.Machine
import HlLighterArb.Strategy

/-!
# HlLighterArb.StrategyTwins

The two strategies side by side. A configuration whose close threshold is off, or not below the
entry threshold, makes them one machine under two sets of names.

* `StrategyCall`: what a caller can do with either strategy; `callMachine`: each strategy under it.
* `StrategyState.mirror`: the renaming of the states, the two venues swapped.
* `Twins`: corresponding states of the two strategies; `Corresponds`: corresponding actions.
* `twins_bisimulation`: every call keeps them.
-/

namespace Arb

/-- A call of either strategy. Its maker venue fills, its hedge venue fills or rejects. -/
inductive StrategyCall where
  | marketSnapshot (snapshot : SpreadSnapshot) (nowMs : Int) (hlPositionBase : ℚ)
  | makerFill (fillPrice fillSizeBase : ℚ) (snapshot : SpreadSnapshot)
  | hedgeFill (fillPrice : ℚ)
  | hedgeReject
  | reset

namespace HlMakerLighterHedger

def step (cfg : HedgerConfig) (h : Hedger) : StrategyCall → Hedger × List Action
  | .marketSnapshot snapshot nowMs hlPositionBase =>
    let (h, action) := onMarketSnapshot cfg h snapshot nowMs hlPositionBase
    (h, [action])
  | .makerFill fillPrice fillSizeBase snapshot =>
    let (h, action) := onHlMakerFill h fillPrice fillSizeBase snapshot
    (h, [action])
  | .hedgeFill fillPrice => (onLighterHedgeFill h fillPrice, [])
  | .hedgeReject =>
    let (h, action) := onLighterHedgeReject h
    (h, [action])
  | .reset => (h.reset, [])

def callMachine (cfg : HedgerConfig) : EventMachine Hedger StrategyCall Action := ⟨step cfg⟩

end HlMakerLighterHedger

namespace LighterMakerHlHedger

/-- This strategy is not told a position. -/
def step (cfg : HedgerConfig) (h : Hedger) : StrategyCall → Hedger × List Action
  | .marketSnapshot snapshot nowMs _ =>
    let (h, action) := onMarketSnapshot cfg h snapshot nowMs
    (h, [action])
  | .makerFill fillPrice fillSizeBase snapshot =>
    let (h, action) := onLighterMakerFill h fillPrice fillSizeBase snapshot
    (h, [action])
  | .hedgeFill fillPrice => (onHlHedgeFill h fillPrice, [])
  | .hedgeReject =>
    let (h, action) := onHlHedgeReject h
    (h, [action])
  | .reset => (h.reset, [])

def callMachine (cfg : HedgerConfig) : EventMachine Hedger StrategyCall Action := ⟨step cfg⟩

end LighterMakerHlHedger

/-! ## The renaming -/

def StrategyState.mirror : StrategyState → StrategyState
  | .idle => .idle
  | .pendingHlMaker => .pendingLighterMaker
  | .cancelledPendingConfirm => .cancelledPendingLighterConfirm
  | .hlFilledPendingLighterHedge => .lighterFilledPendingHlHedge
  | .pendingLighterMaker => .pendingHlMaker
  | .cancelledPendingLighterConfirm => .cancelledPendingConfirm
  | .lighterFilledPendingHlHedge => .hlFilledPendingLighterHedge
  | .open => .open
  | .unwindingHl => .unwindingLighter
  | .unwindingLighter => .unwindingHl
  | .error => .error

theorem StrategyState.mirror_mirror (s : StrategyState) : s.mirror.mirror = s := by
  cases s <;> rfl

theorem StrategyState.mirror_eq_iff {s t : StrategyState} : s.mirror = t ↔ s = t.mirror := by
  constructor
  · rintro rfl
    exact s.mirror_mirror.symm
  · rintro rfl
    exact t.mirror_mirror

/-- The orders are on opposite sides of their venues, in one direction. -/
structure TwinOrders (o o' : PendingMakerOrder) : Prop where
  direction : o.direction = o'.direction
  isBuy : o.isBuy = !o'.isBuy
  sizeBase : o.sizeBase = o'.sizeBase
  triggerSpreadBps : o.triggerSpreadBps = o'.triggerSpreadBps
  entrySpreadBps : o.entrySpreadBps = o'.entrySpreadBps

structure TwinPositions (p p' : OpenHedgePosition) : Prop where
  direction : p.direction = p'.direction
  sizeBase : p.sizeBase = p'.sizeBase
  makerPrice : p.hlFillPrice = p'.lighterFillPrice
  hedgePrice : p.lighterFillPrice = p'.hlFillPrice

/-- The states of the two strategies correspond. An armed gate has the entry threshold. -/
structure Twins (cfg : HedgerConfig) (h h' : Hedger) : Prop where
  state : h'.state = h.state.mirror
  gate : h'.gate = h.gate
  cooldown : h'.lastDisarmMs = h.lastDisarmMs
  pending : Option.Rel TwinOrders h.pendingMaker h'.pendingMaker
  opened : Option.Rel TwinPositions h.openPosition h'.openPosition
  entry : h.gate.armed = true → h.gate.entrySpreadBps = cfg.spreadBps

/-- An action of the strategy that makes on HL, and its counterpart. -/
inductive Corresponds : Action → Action → Prop where
  | none : Corresponds .none .none
  | place (reason : String) {o o' : PendingMakerOrder} (orders : TwinOrders o o') :
      Corresponds (.placeHlMaker reason o) (.placeLighterMaker reason o')
  | cancel (reason : String) {o o' : PendingMakerOrder} (orders : TwinOrders o o') :
      Corresponds (.cancelHlMaker reason o) (.cancelLighterMaker reason o')
  | hedge (reason reason' : String) {i : HedgeIntent} {i' : HlHedgeIntent}
      (side : i.isAsk = i'.isBuy) (sizeBase : i.sizeBase = i'.sizeBase) :
      Corresponds (.sendLighterTakerHedge reason i) (.sendHlTakerHedge reason' i')
  | unwind (reason reason' : String) :
      Corresponds (.unwindHlPosition reason) (.unwindLighterPosition reason')

/-! ## Every call keeps them -/

theorem rel_cases {α β : Type} {r : α → β → Prop} {x : Option α} {y : Option β}
    (h : Option.Rel r x y) :
    x = none ∧ y = none ∨ ∃ a b, x = some a ∧ y = some b ∧ r a b := by
  cases h with
  | none => exact .inl ⟨rfl, rfl⟩
  | some hab => exact .inr ⟨_, _, rfl, rfl, hab⟩

/-- Without a close threshold below the entry threshold there is one threshold. -/
theorem HlMakerLighterHedger.effectiveSpreadBps_eq {cfg : HedgerConfig}
    (hclose : cfg.closeSpreadBps ≤ 0 ∨ cfg.spreadBps ≤ cfg.closeSpreadBps)
    (crossSpreadBps hlPositionBase : ℚ) :
    effectiveSpreadBps cfg crossSpreadBps hlPositionBase = cfg.spreadBps := by
  have hle : cfg.spreadBps ≤ if 0 < cfg.closeSpreadBps then cfg.closeSpreadBps
      else cfg.spreadBps := by
    rcases hclose with hoff | hwide
    · rw [if_neg (not_lt.mpr hoff)]
    · rw [if_pos (cfg.spread_pos.trans_le hwide)]
      exact hwide
  rw [effectiveSpreadBps]
  exact if_pos hle

theorem buildMakerOrder_twins (cfg : HedgerConfig) (snapshot : SpreadSnapshot)
    (gate : SignalGate) :
    TwinOrders (HlMakerLighterHedger.buildMakerOrder cfg snapshot gate)
      (LighterMakerHlHedger.buildMakerOrder cfg snapshot gate) where
  direction := rfl
  isBuy := by
    rw [HlMakerLighterHedger.buildMakerOrder_isBuy, LighterMakerHlHedger.buildMakerOrder_isBuy,
      Bool.not_not]
    rfl
  sizeBase := rfl
  triggerSpreadBps := rfl
  entrySpreadBps := rfl

namespace Twins

variable {cfg : HedgerConfig} {h h' : Hedger}

theorem start (cfg : HedgerConfig) : Twins cfg {} {} where
  state := rfl
  gate := rfl
  cooldown := rfl
  pending := .none
  opened := .none
  entry := fun harmed => absurd harmed Bool.false_ne_true

theorem state_eq_iff (t : Twins cfg h h') (s : StrategyState) :
    h'.state = s.mirror ↔ h.state = s := by
  rw [t.state, StrategyState.mirror_eq_iff, s.mirror_mirror]

theorem stepGate (t : Twins cfg h h') (crossSpreadBps : ℚ) (nowMs : Int) :
    Twins cfg
      (h.stepGate HlMakerLighterHedger.leg cfg crossSpreadBps cfg.spreadBps nowMs)
      (h'.stepGate LighterMakerHlHedger.leg cfg crossSpreadBps cfg.spreadBps nowMs) := by
  have hidle : (h'.state = .idle ∨ h'.state = .cancelledPendingLighterConfirm) ↔
      (h.state = .idle ∨ h.state = .cancelledPendingConfirm) :=
    or_congr (t.state_eq_iff .idle) (t.state_eq_iff .cancelledPendingConfirm)
  have harm : h'.canArm cfg nowMs = h.canArm cfg nowMs := by
    rw [Hedger.canArm, Hedger.canArm, t.cooldown]
  have hcooldown : (if h'.state = .idle ∨ h'.state = .cancelledPendingLighterConfirm then nowMs
      else h'.lastDisarmMs) = if h.state = .idle ∨ h.state = .cancelledPendingConfirm then nowMs
      else h.lastDisarmMs := by
    simp only [hidle, t.cooldown]
  simp only [Hedger.stepGate, t.gate, harm]
  by_cases harmed : h.gate.armed = true
  · rw [if_pos harmed, if_pos harmed]
    by_cases hoff : directionForSpread crossSpreadBps ≠ h.gate.direction ∨
        |crossSpreadBps| < cancelThresholdBps cfg h.gate.entrySpreadBps
    · rw [if_pos hoff, if_pos hoff]
      exact { t with gate := rfl, cooldown := hcooldown, entry := fun h => absurd h (by simp) }
    · rw [if_neg hoff, if_neg hoff]
      exact t
  · rw [if_neg harmed, if_neg harmed]
    split_ifs
    · exact { t with gate := rfl, entry := fun _ => rfl }
    · exact t

/-- The entry reason is the one for the entry threshold. -/
theorem reason_eq (t : Twins cfg h h') (harmed : h.gate.armed = true) :
    (if h.gate.entrySpreadBps < cfg.spreadBps then "spread reached close threshold"
      else "spread reached entry threshold") = "spread reached entry threshold" := by
  rw [t.entry harmed, if_neg (lt_irrefl _)]

theorem decide (t : Twins cfg h h') (snapshot : SpreadSnapshot) (crossSpreadBps : ℚ)
    (nowMs : Int) :
    let r := h.decide HlMakerLighterHedger.leg cfg crossSpreadBps
      (HlMakerLighterHedger.buildMakerOrder cfg snapshot)
      (fun gate => if gate.entrySpreadBps < cfg.spreadBps then "spread reached close threshold"
        else "spread reached entry threshold") nowMs
    let r' := h'.decide LighterMakerHlHedger.leg cfg crossSpreadBps
      (LighterMakerHlHedger.buildMakerOrder cfg snapshot)
      (fun _ => "spread reached entry threshold") nowMs
    Twins cfg r.1 r'.1 ∧ Corresponds r.2 r'.2 := by
  unfold Hedger.decide
  by_cases hidle : h.state = .idle
  · have hidle' : h'.state = .idle := (t.state_eq_iff .idle).mpr hidle
    rw [if_pos hidle, if_pos hidle', t.gate]
    split_ifs with harmed
    · have horders := buildMakerOrder_twins cfg snapshot h.gate
      simp only [t.reason_eq harmed]
      exact ⟨{ t with state := rfl, gate := rfl, pending := .some horders }, .place _ horders⟩
    · exact ⟨t, .none⟩
  have hidle' : h'.state ≠ .idle := mt (t.state_eq_iff .idle).mp hidle
  rw [if_neg hidle, if_neg hidle']
  by_cases hpending : h.state = .pendingHlMaker
  · have hpending' : h'.state = .pendingLighterMaker :=
      (t.state_eq_iff .pendingHlMaker).mpr hpending
    rw [if_pos (show h.state = HlMakerLighterHedger.leg.pending from hpending),
      if_pos (show h'.state = LighterMakerHlHedger.leg.pending from hpending'), t.gate]
    rcases rel_cases t.pending with ⟨ho, ho'⟩ | ⟨o, o', ho, ho', horders⟩
    · rw [ho, ho']
      exact ⟨t, .none⟩
    · rw [ho, ho']
      simp only [horders.direction, horders.entrySpreadBps]
      split_ifs
      · exact ⟨{ state := rfl, gate := by simp [Hedger.disarm], cooldown := rfl,
                 pending := .some horders, opened := t.opened,
                 entry := fun h => absurd h Bool.false_ne_true }, .cancel _ horders⟩
      · exact ⟨t, .none⟩
  · have hpending' : h'.state ≠ .pendingLighterMaker :=
      mt (t.state_eq_iff .pendingHlMaker).mp hpending
    rw [if_neg (show h.state ≠ HlMakerLighterHedger.leg.pending from hpending),
      if_neg (show h'.state ≠ LighterMakerHlHedger.leg.pending from hpending')]
    exact ⟨t, .none⟩

theorem marketSnapshot (t : Twins cfg h h')
    (hclose : cfg.closeSpreadBps ≤ 0 ∨ cfg.spreadBps ≤ cfg.closeSpreadBps)
    (snapshot : SpreadSnapshot) (nowMs : Int) (hlPositionBase : ℚ) :
    let r := HlMakerLighterHedger.onMarketSnapshot cfg h snapshot nowMs hlPositionBase
    let r' := LighterMakerHlHedger.onMarketSnapshot cfg h' snapshot nowMs
    Twins cfg r.1 r'.1 ∧ Corresponds r.2 r'.2 := by
  simp only [HlMakerLighterHedger.onMarketSnapshot_eq, LighterMakerHlHedger.onMarketSnapshot_eq,
    HlMakerLighterHedger.effectiveSpreadBps_eq hclose, Hedger.onSnapshot]
  split_ifs
  · exact (t.stepGate snapshot.crossSpreadBps nowMs).decide snapshot snapshot.crossSpreadBps nowMs
  · exact ⟨t, .none⟩

theorem makerFill (t : Twins cfg h h') (fillPrice fillSizeBase : ℚ) (snapshot : SpreadSnapshot) :
    let r := HlMakerLighterHedger.onHlMakerFill h fillPrice fillSizeBase snapshot
    let r' := LighterMakerHlHedger.onLighterMakerFill h' fillPrice fillSizeBase snapshot
    Twins cfg r.1 r'.1 ∧ Corresponds r.2 r'.2 := by
  simp only [HlMakerLighterHedger.onHlMakerFill, LighterMakerHlHedger.onLighterMakerFill]
  rcases rel_cases t.pending with ⟨ho, ho'⟩ | ⟨o, o', ho, ho', horders⟩
  · rw [ho, ho']
    exact ⟨t, .none⟩
  · rw [ho, ho']
    refine ⟨{ t with state := rfl, pending := .none, opened := .some ?_ }, .hedge _ _ ?_ rfl⟩
    · exact ⟨horders.direction, rfl, rfl, rfl⟩
    · simp only [HlMakerLighterHedger.buildLighterHedge, LighterMakerHlHedger.buildHlHedge,
        horders.direction]

theorem hedgeFill (t : Twins cfg h h') (fillPrice : ℚ) :
    Twins cfg (HlMakerLighterHedger.onLighterHedgeFill h fillPrice)
      (LighterMakerHlHedger.onHlHedgeFill h' fillPrice) := by
  simp only [HlMakerLighterHedger.onLighterHedgeFill, LighterMakerHlHedger.onHlHedgeFill]
  rcases rel_cases t.opened with ⟨hp, hp'⟩ | ⟨p, p', hp, hp', hpositions⟩
  · rw [hp, hp']
    exact t
  · rw [hp, hp']
    exact { t with
      state := rfl
      opened := .some ⟨hpositions.direction, hpositions.sizeBase, hpositions.makerPrice, rfl⟩ }

theorem hedgeReject (t : Twins cfg h h') :
    let r := HlMakerLighterHedger.onLighterHedgeReject h
    let r' := LighterMakerHlHedger.onHlHedgeReject h'
    Twins cfg r.1 r'.1 ∧ Corresponds r.2 r'.2 := by
  simp only [HlMakerLighterHedger.onLighterHedgeReject, LighterMakerHlHedger.onHlHedgeReject]
  rcases rel_cases t.opened with ⟨hp, hp'⟩ | ⟨p, p', hp, hp', -⟩
  · rw [hp, hp']
    exact ⟨t, .none⟩
  · have hopened := t.opened
    rw [hp, hp'] at hopened ⊢
    exact ⟨{ t with state := rfl, opened := hopened }, .unwind _ _⟩

theorem reset (t : Twins cfg h h') : Twins cfg h.reset h'.reset where
  state := rfl
  gate := rfl
  cooldown := t.cooldown
  pending := .none
  opened := .none
  entry := fun harmed => absurd harmed Bool.false_ne_true

end Twins

/-- Every call takes corresponding states to corresponding states, with corresponding actions. -/
theorem twins_bisimulation {cfg : HedgerConfig}
    (hclose : cfg.closeSpreadBps ≤ 0 ∨ cfg.spreadBps ≤ cfg.closeSpreadBps) :
    EventMachine.Bisimulation (HlMakerLighterHedger.callMachine cfg)
      (LighterMakerHlHedger.callMachine cfg)
      (Twins cfg) Corresponds := by
  intro h h' call t
  cases call with
  | marketSnapshot snapshot nowMs hlPositionBase =>
    obtain ⟨hstate, haction⟩ := t.marketSnapshot hclose snapshot nowMs hlPositionBase
    exact ⟨hstate, .cons haction .nil⟩
  | makerFill fillPrice fillSizeBase snapshot =>
    obtain ⟨hstate, haction⟩ := t.makerFill fillPrice fillSizeBase snapshot
    exact ⟨hstate, .cons haction .nil⟩
  | hedgeFill fillPrice => exact ⟨t.hedgeFill fillPrice, .nil⟩
  | hedgeReject =>
    obtain ⟨hstate, haction⟩ := t.hedgeReject
    exact ⟨hstate, .cons haction .nil⟩
  | reset => exact ⟨t.reset, .nil⟩

/-- Without a close threshold below the entry threshold the strategies are one machine: whatever
the calls, they are in corresponding states with corresponding actions behind them. -/
theorem strategies_bisimilar (cfg : HedgerConfig)
    (hclose : cfg.closeSpreadBps ≤ 0 ∨ cfg.spreadBps ≤ cfg.closeSpreadBps)
    (calls : List StrategyCall) :
    Twins cfg ((HlMakerLighterHedger.callMachine cfg).final {} calls)
        ((LighterMakerHlHedger.callMachine cfg).final {} calls) ∧
      List.Forall₂ Corresponds ((HlMakerLighterHedger.callMachine cfg).obs {} calls)
        ((LighterMakerHlHedger.callMachine cfg).obs {} calls) :=
  (twins_bisimulation hclose).run (Twins.start cfg) calls

/-- A maker order that is placed, filled and hedged. -/
def hedgedCalls : List StrategyCall :=
  let snapshot : SpreadSnapshot :=
    { lighter := { bid := 101, ask := 102 }
      hl := { bid := 100, ask := 101 }
      crossSpreadBps := 60 }
  [.marketSnapshot snapshot 1000 0, .makerFill 100 1 snapshot, .hedgeFill 101]

theorem strategies_bisimilar_hedged :
    let cfg : HedgerConfig :=
      { spread_pos := StrategyConfig.default_spread_pos
        cancel_band_nonneg := StrategyConfig.default_cancel_band_nonneg }
    Twins cfg ((HlMakerLighterHedger.callMachine cfg).final {} hedgedCalls)
        ((LighterMakerHlHedger.callMachine cfg).final {} hedgedCalls) ∧
      List.Forall₂ Corresponds ((HlMakerLighterHedger.callMachine cfg).obs {} hedgedCalls)
        ((LighterMakerHlHedger.callMachine cfg).obs {} hedgedCalls) :=
  strategies_bisimilar _ (.inl le_rfl) hedgedCalls

end Arb
