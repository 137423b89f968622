import HlLighterArb.Core
import HlLighterArb.Lib.Machine

/-!
# HlLighterArb.Hysteresis

`HlMakerLighterHedger` as an automaton. The class keeps the entry of an order twice, in its signal
gate and in `pending_maker_`, and moves the gate in every state; what it emits is the simple rule of
a hysteresis with a cooldown.

* `onSnapshot_idle`, `onSnapshot_pending`, `onSnapshot_waiting`: what a snapshot does in each state.
* `HedgerInv`: an idle gate is unarmed, the gate of a pending order is the order's, and the cooldown
  runs from the last cancel.
* `Entry`: what a placement is justified by.
* `hysteresis`: every placement is an `Entry`, and an order is cancelled by exactly the first
  snapshot that `Breaks` it.
-/

namespace Arb

/-- The spread has left the band that keeps an order of this direction and entry. -/
def Reverted (cfg : HedgerConfig) (crossSpreadBps : ℚ) (order : PendingMakerOrder) : Prop :=
  directionForSpread crossSpreadBps ≠ order.direction ∨
    |crossSpreadBps| < max 0 (order.entrySpreadBps - cfg.cancelBandBps)

instance (cfg : HedgerConfig) (crossSpreadBps : ℚ) (order : PendingMakerOrder) :
    Decidable (Reverted cfg crossSpreadBps order) :=
  inferInstanceAs (Decidable (_ ∨ _))

theorem cancelThresholdBps_eq_max (cfg : HedgerConfig) (entrySpreadBps : ℚ) :
    cancelThresholdBps cfg entrySpreadBps = max 0 (entrySpreadBps - cfg.cancelBandBps) := by
  unfold cancelThresholdBps
  split_ifs with h
  · rw [max_eq_right h.le]
  · rw [max_eq_left (not_lt.mp h)]

theorem reverted_iff {cfg : HedgerConfig} {crossSpreadBps : ℚ} {order : PendingMakerOrder} :
    Reverted cfg crossSpreadBps order ↔ directionForSpread crossSpreadBps ≠ order.direction ∨
      |crossSpreadBps| < cancelThresholdBps cfg order.entrySpreadBps := by
  rw [cancelThresholdBps_eq_max]
  rfl

/-- The gate as it stays armed for `order`. -/
def gateOf (order : PendingMakerOrder) : SignalGate where
  armed := true
  direction := order.direction
  entrySpreadBps := order.entrySpreadBps

/-! ## A snapshot in each state -/

namespace Hedger

variable {leg : MakerLeg} {cfg : HedgerConfig} {h : Hedger} {snapshot : SpreadSnapshot}
  {threshold : ℚ} {build : SignalGate → PendingMakerOrder} {reason : SignalGate → String}
  {nowMs : Int} {order : PendingMakerOrder}

theorem onSnapshot_idle (idle : h.state = .idle) (unarmed : h.gate.armed = false) :
    h.onSnapshot leg cfg snapshot threshold build reason nowMs =
      if snapshot.valid cfg.maxQuoteAgeMs = true ∧ threshold ≤ |snapshot.crossSpreadBps| ∧
          h.canArm cfg nowMs = true then
        ({ h with
            gate := armedGate snapshot.crossSpreadBps threshold
            pendingMaker := some (build (armedGate snapshot.crossSpreadBps threshold))
            state := leg.pending },
          leg.place (reason (armedGate snapshot.crossSpreadBps threshold))
            (build (armedGate snapshot.crossSpreadBps threshold)))
      else (h, .none) := by
  unfold onSnapshot
  by_cases hvalid : snapshot.valid cfg.maxQuoteAgeMs = true
  · by_cases harm : threshold ≤ |snapshot.crossSpreadBps| ∧ h.canArm cfg nowMs = true
    · simp [hvalid, harm, stepGate, unarmed, Hedger.decide, idle, armedGate]
    · simp [hvalid, harm, stepGate, unarmed, Hedger.decide, idle]
  · simp [hvalid]

theorem onSnapshot_pending (pending : h.state = leg.pending) (hpending : leg.pending ≠ .idle)
    (hdistinct : leg.pending ≠ leg.cancelled) (wasOrder : h.pendingMaker = some order)
    (gate : h.gate = gateOf order) :
    h.onSnapshot leg cfg snapshot threshold build reason nowMs =
      if snapshot.valid cfg.maxQuoteAgeMs = true ∧ Reverted cfg snapshot.crossSpreadBps order then
        ({ h with
            gate := { gateOf order with armed := false }
            state := leg.cancelled
            lastDisarmMs := nowMs },
          leg.cancel "spread mean-reverted below cancel threshold" order)
      else (h, .none) := by
  unfold onSnapshot
  by_cases hvalid : snapshot.valid cfg.maxQuoteAgeMs = true
  · by_cases hreverted : Reverted cfg snapshot.crossSpreadBps order
    · have hgate := reverted_iff.mp hreverted
      simp [hvalid, hreverted, hgate, stepGate, gate, gateOf, Hedger.decide, pending, hpending,
        hdistinct, wasOrder, disarm]
    · have hgate := mt reverted_iff.mpr hreverted
      simp [hvalid, hreverted, hgate, stepGate, gate, gateOf, Hedger.decide, pending, hpending,
        wasOrder]
  · simp [hvalid]

theorem stepGate_time (h : Hedger) (leg : MakerLeg) (cfg : HedgerConfig) (crossSpreadBps threshold : ℚ)
    (nowMs : Int) :
    (h.stepGate leg cfg crossSpreadBps threshold nowMs).lastDisarmMs = h.lastDisarmMs ∨
      (h.stepGate leg cfg crossSpreadBps threshold nowMs).lastDisarmMs = nowMs := by
  unfold stepGate
  simp only
  repeat' split
  all_goals simp

/-- In the other states a snapshot only moves the gate and the cooldown. -/
theorem onSnapshot_waiting (busy : h.state ≠ .idle) (other : h.state ≠ leg.pending) :
    (h.onSnapshot leg cfg snapshot threshold build reason nowMs).2 = .none ∧
      ∃ gate lastDisarmMs, (lastDisarmMs = h.lastDisarmMs ∨ lastDisarmMs = nowMs) ∧
        (h.onSnapshot leg cfg snapshot threshold build reason nowMs).1 =
          { h with gate, lastDisarmMs } := by
  unfold onSnapshot
  split_ifs
  · obtain ⟨hstate, hpending, hopen⟩ :=
      h.stepGate_frame leg cfg snapshot.crossSpreadBps threshold nowMs
    have htime := h.stepGate_time leg cfg snapshot.crossSpreadBps threshold nowMs
    generalize h.stepGate leg cfg snapshot.crossSpreadBps threshold nowMs = g at *
    have hquiet : g.decide leg cfg snapshot.crossSpreadBps build reason nowMs = (g, .none) := by
      rw [Hedger.decide, if_neg (hstate ▸ busy), if_neg (hstate ▸ other)]
    rw [hquiet]
    refine ⟨rfl, g.gate, g.lastDisarmMs, htime, ?_⟩
    rw [← hstate, ← hpending, ← hopen]
  · exact ⟨rfl, _, _, .inl rfl, rfl⟩

end Hedger

/-! ## The automaton -/

inductive HedgerEvent where
  | marketSnapshot (snapshot : SpreadSnapshot) (nowMs : Int) (hlPositionBase : ℚ)
  | hlMakerFill (fillPrice fillSizeBase : ℚ) (snapshot : SpreadSnapshot)
  | lighterHedgeFill (fillPrice : ℚ)
  | lighterHedgeReject
  | reset

/-- The time a call is given. -/
def HedgerEvent.time : HedgerEvent → Option Int
  | .marketSnapshot _ nowMs _ => some nowMs
  | _ => none

/-- A call and the action it returned. -/
structure Emitted where
  event : HedgerEvent
  action : Action

def Action.cancelsHl : Action → Bool
  | .cancelHlMaker _ _ => true
  | _ => false

namespace HlMakerLighterHedger

def call (cfg : HedgerConfig) (h : Hedger) : HedgerEvent → Hedger × Action
  | .marketSnapshot snapshot nowMs hlPositionBase =>
    onMarketSnapshot cfg h snapshot nowMs hlPositionBase
  | .hlMakerFill fillPrice fillSizeBase snapshot => onHlMakerFill h fillPrice fillSizeBase snapshot
  | .lighterHedgeFill fillPrice => (onLighterHedgeFill h fillPrice, .none)
  | .lighterHedgeReject => onLighterHedgeReject h
  | .reset => (h.reset, .none)

def machine (cfg : HedgerConfig) : EventMachine Hedger HedgerEvent Emitted where
  step h e := ((call cfg h e).1, [⟨e, (call cfg h e).2⟩])

end HlMakerLighterHedger

open HlMakerLighterHedger

/-- No call comes before an earlier one. -/
def InOrder (past : List Emitted) (e : HedgerEvent) : Prop :=
  ∀ o ∈ past, ∀ t ∈ o.event.time, ∀ now ∈ e.time, t ≤ now

structure HedgerInv (past : List Emitted) (h : Hedger) : Prop where
  unarmed : h.state = .idle → h.gate.armed = false
  held : h.state = .pendingHlMaker → ∃ order, h.pendingMaker = some order ∧ h.gate = gateOf order
  closed : h.state = .idle ∨ h.state = .pendingHlMaker ∨ h.state = .cancelledPendingConfirm →
    h.openPosition = none
  cooldown : ∀ o ∈ past, o.action.cancelsHl = true → ∀ t ∈ o.event.time, t ≤ h.lastDisarmMs

/-- What a placement is justified by: an idle strategy, a valid snapshot at least as wide as the
effective threshold, which is only lowered for an order that reduces the position, and no cancel
within the cooldown. -/
structure Entry (cfg : HedgerConfig) (past : List Emitted) (h : Hedger) (snapshot : SpreadSnapshot)
    (nowMs : Int) (hlPositionBase : ℚ) (order : PendingMakerOrder) : Prop where
  idle : h.state = .idle
  valid : snapshot.valid cfg.maxQuoteAgeMs = true
  effective : order.entrySpreadBps = effectiveSpreadBps cfg snapshot.crossSpreadBps hlPositionBase
  wide : order.entrySpreadBps ≤ |snapshot.crossSpreadBps|
  reduces : order.entrySpreadBps < cfg.spreadBps →
    hlPositionBase < 0 ∧ order.isBuy = true ∨ 0 < hlPositionBase ∧ order.isBuy = false
  rearmed : ∀ o ∈ past, o.action.cancelsHl = true → ∀ t ∈ o.event.time, cfg.minRearmMs ≤ nowMs - t

/-- The call shows the strategy a valid snapshot that has left the band of `order`. -/
def HedgerEvent.Breaks (cfg : HedgerConfig) (order : PendingMakerOrder) : HedgerEvent → Prop
  | .marketSnapshot snapshot _ _ =>
    snapshot.valid cfg.maxQuoteAgeMs = true ∧ Reverted cfg snapshot.crossSpreadBps order
  | _ => False

instance (cfg : HedgerConfig) (order : PendingMakerOrder) :
    (e : HedgerEvent) → Decidable (e.Breaks cfg order)
  | .marketSnapshot _ _ _ => inferInstanceAs (Decidable (_ ∧ _))
  | .hlMakerFill _ _ _ => .isFalse id
  | .lighterHedgeFill _ => .isFalse id
  | .lighterHedgeReject => .isFalse id
  | .reset => .isFalse id

/-- A fill or a reset. -/
def HedgerEvent.ends : HedgerEvent → Bool
  | .hlMakerFill _ _ _ => true
  | .reset => true
  | _ => false

/-! ## What a call keeps -/

section Step

variable {cfg : HedgerConfig} {past : List Emitted} {h : Hedger} {order : PendingMakerOrder}

theorem effectiveSpreadBps_reduces {crossSpreadBps hlPositionBase : ℚ}
    (hlow : effectiveSpreadBps cfg crossSpreadBps hlPositionBase < cfg.spreadBps) :
    (hlPositionBase < 0 ∧ directionForSpread crossSpreadBps = .shortLighterLongHl) ∨
      (0 < hlPositionBase ∧ directionForSpread crossSpreadBps = .longLighterShortHl) := by
  unfold effectiveSpreadBps at hlow
  simp only at hlow
  split_ifs at hlow with hclose hspread hreduces hspread hreduces
  · exact absurd hlow (lt_irrefl _)
  · exact hreduces
  · exact absurd hlow (lt_irrefl _)
  · exact absurd hlow (lt_irrefl _)
  · exact hreduces
  · exact absurd hlow (lt_irrefl _)

/-- The cooldown runs from the last cancel, when a call keeps the disarm time or sets it to its own
time, and sets it if it cancels. -/
theorem HedgerInv.cooldown_snoc (hinv : HedgerInv past h) {e : HedgerEvent} (he : InOrder past e)
    {action : Action} {lastDisarmMs : Int}
    (htime : lastDisarmMs = h.lastDisarmMs ∨ lastDisarmMs ∈ e.time)
    (hset : action.cancelsHl = true → lastDisarmMs ∈ e.time) :
    ∀ o ∈ past ++ [⟨e, action⟩], o.action.cancelsHl = true → ∀ t ∈ o.event.time,
      t ≤ lastDisarmMs := by
  intro o ho hcancel t ht
  rcases List.mem_append.mp ho with hpast | hlast
  · rcases htime with rfl | hnow
    · exact hinv.cooldown o hpast hcancel t ht
    · exact he o hpast t ht _ hnow
  · rw [List.mem_singleton.mp hlast] at hcancel ht
    have hnow := hset hcancel
    rw [Option.mem_def] at hnow ht
    rw [hnow] at ht
    exact (Option.some.inj ht).ge

/-- The order is out: pending, with the gate its own. -/
structure Out (h : Hedger) (order : PendingMakerOrder) : Prop where
  state : h.state = .pendingHlMaker
  pending : h.pendingMaker = some order
  gate : h.gate = gateOf order
  closed : h.openPosition = none

/-- The cancel of the order has been emitted. -/
structure Cancelled (h : Hedger) : Prop where
  state : h.state = .cancelledPendingConfirm
  closed : h.openPosition = none

theorem HedgerInv.out (hinv : HedgerInv past h) (hstate : h.state = .pendingHlMaker) :
    ∃ order, Out h order := by
  obtain ⟨order, horder, hgate⟩ := hinv.held hstate
  exact ⟨order, hstate, horder, hgate, hinv.closed (.inr (.inl hstate))⟩

theorem HedgerInv.of_filled (hinv : HedgerInv past h) {e : HedgerEvent} (he : InOrder past e)
    {h' : Hedger} {action : Action} (idle : h'.state ≠ .idle) (pending : h'.state ≠ .pendingHlMaker)
    (cancelled : h'.state ≠ .cancelledPendingConfirm) (time : h'.lastDisarmMs = h.lastDisarmMs)
    (quiet : action.cancelsHl = false) : HedgerInv (past ++ [⟨e, action⟩]) h' where
  unarmed hidle := absurd hidle idle
  held hpending := absurd hpending pending
  closed hstate := by
    rcases hstate with hs | hs | hs
    · exact absurd hs idle
    · exact absurd hs pending
    · exact absurd hs cancelled
  cooldown := hinv.cooldown_snoc he (.inl time) fun hcancel => by rw [quiet] at hcancel; cases hcancel

/-- A call that does nothing. -/
theorem HedgerInv.idle_call (hinv : HedgerInv past h) {e : HedgerEvent} (he : InOrder past e) :
    HedgerInv (past ++ [⟨e, .none⟩]) h :=
  ⟨hinv.unarmed, hinv.held, hinv.closed,
    hinv.cooldown_snoc he (.inl rfl) fun hcancel => by cases hcancel⟩

theorem snapshot_idle (idle : h.state = .idle) (unarmed : h.gate.armed = false)
    (snapshot : SpreadSnapshot) (nowMs : Int) (pos : ℚ) :
    ∃ reason gate, gate = armedGate snapshot.crossSpreadBps
        (effectiveSpreadBps cfg snapshot.crossSpreadBps pos) ∧
      onMarketSnapshot cfg h snapshot nowMs pos =
        if snapshot.valid cfg.maxQuoteAgeMs = true ∧
            gate.entrySpreadBps ≤ |snapshot.crossSpreadBps| ∧ h.canArm cfg nowMs = true then
          ({ h with
              gate
              pendingMaker := some (buildMakerOrder cfg snapshot gate)
              state := .pendingHlMaker },
            .placeHlMaker reason (buildMakerOrder cfg snapshot gate))
        else (h, .none) :=
  ⟨_, _, rfl, (onMarketSnapshot_eq ..).trans (Hedger.onSnapshot_idle idle unarmed)⟩

theorem snapshot_waiting (busy : h.state ≠ .idle) (other : h.state ≠ .pendingHlMaker)
    (snapshot : SpreadSnapshot) (nowMs : Int) (pos : ℚ) :
    ∃ gate lastDisarmMs, (lastDisarmMs = h.lastDisarmMs ∨ lastDisarmMs = nowMs) ∧
      onMarketSnapshot cfg h snapshot nowMs pos = ({ h with gate, lastDisarmMs }, .none) := by
  obtain ⟨hnone, gate, lastDisarmMs, htime, heq⟩ := @Hedger.onSnapshot_waiting leg cfg h snapshot
    (effectiveSpreadBps cfg snapshot.crossSpreadBps pos) (buildMakerOrder cfg snapshot)
    (fun gate => if gate.entrySpreadBps < cfg.spreadBps then "spread reached close threshold"
      else "spread reached entry threshold") nowMs busy other
  rw [← onMarketSnapshot_eq] at hnone heq
  exact ⟨gate, lastDisarmMs, htime, Prod.ext heq hnone⟩

theorem snapshot_out (hout : Out h order) (snapshot : SpreadSnapshot) (nowMs : Int) (pos : ℚ) :
    onMarketSnapshot cfg h snapshot nowMs pos =
      if HedgerEvent.Breaks cfg order (.marketSnapshot snapshot nowMs pos) then
        ({ h with
            gate := { gateOf order with armed := false }
            state := .cancelledPendingConfirm
            lastDisarmMs := nowMs },
          .cancelHlMaker "spread mean-reverted below cancel threshold" order)
      else (h, .none) := by
  rw [onMarketSnapshot_eq]
  exact Hedger.onSnapshot_pending hout.state (by simp [leg]) (by simp [leg]) hout.pending hout.gate

theorem HedgerInv.step (hinv : HedgerInv past h) {e : HedgerEvent} (he : InOrder past e) :
    HedgerInv (past ++ ((machine cfg).step h e).2) ((machine cfg).step h e).1 := by
  change HedgerInv (past ++ [⟨e, (call cfg h e).2⟩]) (call cfg h e).1
  cases e with
  | marketSnapshot snapshot nowMs pos =>
    rw [call]
    by_cases hidle : h.state = .idle
    · obtain ⟨reason, gate, rfl, heq⟩ :=
        @snapshot_idle cfg h hidle (hinv.unarmed hidle) snapshot nowMs pos
      rw [heq]
      split_ifs
      · refine ⟨fun hs => ?_, fun _ => ⟨_, rfl, rfl⟩, fun _ => hinv.closed (.inl hidle),
          hinv.cooldown_snoc he (.inl rfl) fun hcancel => ?_⟩
        · cases hs
        · cases hcancel
      · exact hinv.idle_call he
    · by_cases hpending : h.state = .pendingHlMaker
      · obtain ⟨order, hout⟩ := hinv.out hpending
        rw [snapshot_out hout]
        split_ifs
        · refine ⟨fun hs => ?_, fun hs => ?_, fun _ => hout.closed,
            hinv.cooldown_snoc he (.inr rfl) fun _ => rfl⟩
          · cases hs
          · cases hs
        · exact hinv.idle_call he
      · obtain ⟨gate, lastDisarmMs, htime, heq⟩ :=
          @snapshot_waiting cfg h hidle hpending snapshot nowMs pos
        rw [heq]
        refine ⟨fun hs => absurd hs hidle, fun hs => absurd hs hpending, hinv.closed,
          hinv.cooldown_snoc he ?_ fun hcancel => ?_⟩
        · rcases htime with hsame | hnow
          · exact .inl hsame
          · exact .inr (by simp [HedgerEvent.time, hnow])
        · cases hcancel
  | hlMakerFill fillPrice fillSizeBase snapshot =>
    simp only [call, onHlMakerFill]
    cases h.pendingMaker with
    | none => exact hinv.idle_call he
    | some order => exact hinv.of_filled he (by simp) (by simp) (by simp) rfl rfl
  | lighterHedgeFill fillPrice =>
    simp only [call, onLighterHedgeFill]
    cases h.openPosition with
    | none => exact hinv.idle_call he
    | some pos => exact hinv.of_filled he (by simp) (by simp) (by simp) rfl rfl
  | lighterHedgeReject =>
    simp only [call, onLighterHedgeReject]
    cases h.openPosition with
    | none => exact hinv.idle_call he
    | some pos => exact hinv.of_filled he (by simp) (by simp) (by simp) rfl rfl
  | reset =>
    refine ⟨fun _ => rfl, fun hs => ?_, fun _ => rfl,
      hinv.cooldown_snoc he (.inl rfl) fun hcancel => ?_⟩
    · cases hs
    · cases hcancel

/-- A placement is an entry, and leaves its order out. -/
theorem HedgerInv.places (hinv : HedgerInv past h) {e : HedgerEvent} {reason : String}
    (hplace : (call cfg h e).2 = .placeHlMaker reason order) :
    (∃ snapshot nowMs pos, e = .marketSnapshot snapshot nowMs pos ∧
      Entry cfg past h snapshot nowMs pos order) ∧ Out (call cfg h e).1 order := by
  cases e with
  | marketSnapshot snapshot nowMs pos =>
    rw [call] at hplace ⊢
    by_cases hidle : h.state = .idle
    · obtain ⟨reason, gate, rfl, heq⟩ :=
        @snapshot_idle cfg h hidle (hinv.unarmed hidle) snapshot nowMs pos
      rw [heq] at hplace ⊢
      -- a snapshot that arms nothing places nothing
      split_ifs at hplace ⊢ with hentry
      cases hplace
      obtain ⟨hvalid, hwide, harm⟩ := hentry
      refine ⟨⟨snapshot, nowMs, pos, rfl, hidle, hvalid, rfl, hwide, fun hlow => ?_, ?_⟩,
        rfl, rfl, rfl, hinv.closed (.inl hidle)⟩
      · rcases effectiveSpreadBps_reduces hlow with ⟨hpos, hdir⟩ | ⟨hpos, hdir⟩
        · exact .inl ⟨hpos, by simp [buildMakerOrder, armedGate, hdir]⟩
        · exact .inr ⟨hpos, by simp [buildMakerOrder, armedGate, hdir]⟩
      · intro o ho hcancel t ht
        have hlast := hinv.cooldown o ho hcancel t ht
        have hcan : cfg.minRearmMs ≤ nowMs - h.lastDisarmMs := by simpa [Hedger.canArm] using harm
        omega
    · by_cases hpending : h.state = .pendingHlMaker
      · obtain ⟨order, hout⟩ := hinv.out hpending
        rw [snapshot_out hout] at hplace
        split_ifs at hplace
      · obtain ⟨gate, lastDisarmMs, -, heq⟩ :=
          @snapshot_waiting cfg h hidle hpending snapshot nowMs pos
        rw [heq] at hplace
        cases hplace
  | hlMakerFill =>
    simp only [call, onHlMakerFill] at hplace
    split at hplace <;> cases hplace
  | lighterHedgeFill => cases hplace
  | lighterHedgeReject =>
    simp only [call, onLighterHedgeReject] at hplace
    split at hplace <;> cases hplace
  | reset => cases hplace

/-- While an order is out, a call that does not end it cancels it exactly if it breaks it. -/
theorem Out.next (hout : Out h order) {e : HedgerEvent} (hends : e.ends = false) :
    (e.Breaks cfg order → (call cfg h e).2.cancelsHl = true ∧ Cancelled (call cfg h e).1) ∧
      (¬ e.Breaks cfg order → (call cfg h e).2.cancelsHl = false ∧ Out (call cfg h e).1 order) := by
  cases e with
  | marketSnapshot snapshot nowMs pos =>
    rw [call, snapshot_out hout]
    constructor
    · intro hbreaks
      rw [if_pos hbreaks]
      exact ⟨rfl, rfl, hout.closed⟩
    · intro hkeeps
      rw [if_neg hkeeps]
      exact ⟨rfl, hout⟩
  | lighterHedgeFill =>
    refine ⟨fun hbreaks => hbreaks.elim, fun _ => ⟨rfl, ?_⟩⟩
    simpa [call, onLighterHedgeFill, hout.closed] using hout
  | lighterHedgeReject =>
    refine ⟨fun hbreaks => hbreaks.elim, fun _ => ?_⟩
    simpa [call, onLighterHedgeReject, hout.closed, Action.cancelsHl] using hout
  | hlMakerFill => cases hends
  | reset => cases hends

/-- An order is cancelled once. -/
theorem Cancelled.next (hcancelled : Cancelled h) {e : HedgerEvent} (hends : e.ends = false) :
    (call cfg h e).2.cancelsHl = false ∧ Cancelled (call cfg h e).1 := by
  cases e with
  | marketSnapshot snapshot nowMs pos =>
    obtain ⟨gate, lastDisarmMs, -, heq⟩ := @snapshot_waiting cfg h
      (by simp [hcancelled.state]) (by simp [hcancelled.state]) snapshot nowMs pos
    rw [call, heq]
    exact ⟨rfl, hcancelled.state, hcancelled.closed⟩
  | lighterHedgeFill =>
    refine ⟨rfl, ?_⟩
    simpa [call, onLighterHedgeFill, hcancelled.closed] using hcancelled
  | lighterHedgeReject =>
    simpa [call, onLighterHedgeReject, hcancelled.closed, Action.cancelsHl]
      using hcancelled
  | hlMakerFill => cases hends
  | reset => cases hends

/-- Only a snapshot cancels. -/
theorem call_ends_quiet {e : HedgerEvent} (hends : e.ends = true) :
    (call cfg h e).2.cancelsHl = false ∧ ¬ e.Breaks cfg order := by
  cases e with
  | hlMakerFill =>
    refine ⟨?_, id⟩
    simp only [call, onHlMakerFill]
    split <;> rfl
  | reset => exact ⟨rfl, id⟩
  | _ => cases hends

end Step

/-! ## Runs -/

section Runs

variable {cfg : HedgerConfig} {h : Hedger} {order : PendingMakerOrder} {es : List HedgerEvent}

theorem Cancelled.final (hcancelled : Cancelled h) (hends : ∀ e ∈ es, e.ends = false) :
    Cancelled ((machine cfg).final h es) := by
  induction es generalizing h with
  | nil => exact hcancelled
  | cons e es ih =>
    obtain ⟨he, hes⟩ := List.forall_mem_cons.mp hends
    exact ih (hcancelled.next he).2 hes

/-- Through calls that do not end it, an order stays out until the first call that breaks it. -/
theorem Out.final (hout : Out h order) (hends : ∀ e ∈ es, e.ends = false) :
    ((∀ e ∈ es, ¬ e.Breaks cfg order) → Out ((machine cfg).final h es) order) ∧
      ((∃ e ∈ es, e.Breaks cfg order) → Cancelled ((machine cfg).final h es)) := by
  induction es generalizing h with
  | nil => exact ⟨fun _ => hout, by simp⟩
  | cons e es ih =>
    obtain ⟨he, hes⟩ := List.forall_mem_cons.mp hends
    obtain ⟨hbroken, hkept⟩ := @Out.next cfg h order hout e he
    by_cases hbreaks : e.Breaks cfg order
    · refine ⟨fun hnone => absurd hbreaks (hnone e (List.mem_cons_self ..)), fun _ => ?_⟩
      exact (hbroken hbreaks).2.final hes
    · obtain ⟨hstays, hcancels⟩ := ih (hkept hbreaks).2 hes
      refine ⟨fun hnone => hstays fun x hx => hnone x (List.mem_cons_of_mem _ hx), ?_⟩
      rintro ⟨x, hx, hxbreaks⟩
      rcases List.mem_cons.mp hx with rfl | hmem
      · exact absurd hxbreaks hbreaks
      · exact hcancels ⟨x, hmem, hxbreaks⟩

/-- After a placement and calls that do not end its order, a call cancels exactly when it is the
first to break the order. -/
theorem Out.cancels_iff (hout : Out h order) (hends : ∀ e ∈ es, e.ends = false) (e : HedgerEvent) :
    (call cfg ((machine cfg).final h es) e).2.cancelsHl = true ↔
      e.Breaks cfg order ∧ ∀ x ∈ es, ¬ x.Breaks cfg order := by
  obtain ⟨hstays, hcancels⟩ := @Out.final cfg h order es hout hends
  cases he : e.ends with
  | true =>
    obtain ⟨hquiet, hkeeps⟩ := @call_ends_quiet cfg ((machine cfg).final h es) order e he
    simp [hquiet, hkeeps]
  | false =>
    by_cases hnone : ∀ x ∈ es, ¬ x.Breaks cfg order
    · obtain ⟨hbroken, hkept⟩ := @Out.next cfg _ order (hstays hnone) e he
      refine ⟨fun hcancel => ⟨?_, hnone⟩, fun hboth => (hbroken hboth.1).1⟩
      by_contra hkeeps
      rw [(hkept hkeeps).1] at hcancel
      cases hcancel
    · have hquiet := (@Cancelled.next cfg _ (hcancels (by simpa using hnone)) e he).1
      rw [hquiet]
      exact iff_of_false Bool.false_ne_true fun hboth => hnone hboth.2

theorem machine_events (cfg : HedgerConfig) (h : Hedger) (es : List HedgerEvent) :
    ((machine cfg).obs h es).map (·.event) = es := by
  induction es generalizing h with
  | nil => rfl
  | cons e es ih =>
    rw [EventMachine.obs_cons, List.map_append, ih]
    rfl

theorem inOrder_throughout (cfg : HedgerConfig) (h : Hedger) {es : List HedgerEvent}
    (hsorted : (es.filterMap HedgerEvent.time).Pairwise (· ≤ ·)) :
    (machine cfg).Throughout h (fun past _ e => InOrder past e) es := by
  rintro pre e ⟨post, rfl⟩ o ho t ht now hnow
  rw [List.append_assoc, List.filterMap_append, List.pairwise_append] at hsorted
  refine hsorted.2.2 t ?_ now ?_
  · refine List.mem_filterMap.mpr ⟨o.event, ?_, ht⟩
    rw [← machine_events cfg h pre]
    exact List.mem_map_of_mem ho
  · exact List.mem_filterMap.mpr ⟨e, List.mem_append_left _ (List.mem_singleton_self _), hnow⟩

end Runs

theorem hedgerInv_always {cfg : HedgerConfig} {es : List HedgerEvent}
    (hsorted : (es.filterMap HedgerEvent.time).Pairwise (· ≤ ·)) :
    (machine cfg).Always {} HedgerInv es := by
  refine EventMachine.always_of_throughout ?_ (fun past h e hinv he => hinv.step he)
    (inOrder_throughout cfg {} hsorted)
  exact ⟨fun _ => rfl, fun hs => (by cases hs), fun _ => rfl, fun o ho => by cases ho⟩

/-- The strategy is the hysteresis automaton: in a run whose snapshots come in order every
placement is an entry, and after a placement, until a fill or a reset, a call cancels exactly when
it is the first valid snapshot that has left the band of the order. -/
theorem hysteresis (cfg : HedgerConfig) (es : List HedgerEvent)
    (hsorted : (es.filterMap HedgerEvent.time).Pairwise (· ≤ ·)) :
    (machine cfg).Throughout {} (fun past h e => ∀ reason order,
      (call cfg h e).2 = .placeHlMaker reason order → ∃ snapshot nowMs hlPositionBase,
        e = .marketSnapshot snapshot nowMs hlPositionBase ∧
          Entry cfg past h snapshot nowMs hlPositionBase order) es ∧
    ∀ pre e mid f post reason order, es = pre ++ e :: (mid ++ f :: post) →
      (call cfg ((machine cfg).final {} pre) e).2 = .placeHlMaker reason order →
      (∀ x ∈ mid, x.ends = false) →
      ((call cfg ((machine cfg).final {} (pre ++ e :: mid)) f).2.cancelsHl = true ↔
        f.Breaks cfg order ∧ ∀ x ∈ mid, ¬ x.Breaks cfg order) := by
  have hinv := @hedgerInv_always cfg es hsorted
  constructor
  · intro pre e hpre reason order hplace
    exact ((hinv.before hpre).places hplace).1
  · rintro pre e mid f post reason order rfl hplace hends
    have hout := ((hinv pre (List.prefix_append _ _)).places hplace).2
    rw [EventMachine.final_append, EventMachine.final_cons]
    exact hout.cancels_iff hends f

/-- The default configuration: a 2 bps entry with a band of half a basis point. -/
def defaultHedgerConfig : HedgerConfig where
  spread_pos := StrategyConfig.default_spread_pos
  cancel_band_nonneg := StrategyConfig.default_cancel_band_nonneg

/-- Books around 100 with the given cross spread. -/
def spreadAt (nowMs : Int) (crossSpreadBps : ℚ) : HedgerEvent :=
  .marketSnapshot
    { lighter := { bid := 99, ask := 101 }
      hl := { bid := 99, ask := 101 }
      crossSpreadBps } nowMs 0

/-- An entry at 3 bps is kept at 1.75 and cancelled at 1.25. -/
theorem hysteresis_sample :
    (call defaultHedgerConfig ((machine defaultHedgerConfig).final {}
        [spreadAt 1000 3, spreadAt 1100 1.75]) (spreadAt 1200 1.25)).2.cancelsHl = true ↔
      (spreadAt 1200 1.25).Breaks defaultHedgerConfig
          { price := 99 / (1 + 2 / 10000), sizeBase := 25 / 100, triggerSpreadBps := 3,
            entrySpreadBps := 2 } ∧
        ∀ x ∈ [spreadAt 1100 1.75], ¬ x.Breaks defaultHedgerConfig
          { price := 99 / (1 + 2 / 10000), sizeBase := 25 / 100, triggerSpreadBps := 3,
            entrySpreadBps := 2 } :=
  (hysteresis defaultHedgerConfig [spreadAt 1000 3, spreadAt 1100 1.75, spreadAt 1200 1.25]
    (by decide +kernel)).2 [] (spreadAt 1000 3) [spreadAt 1100 1.75] (spreadAt 1200 1.25) []
    "spread reached entry threshold" _ rfl (by decide +kernel) (by decide)

end Arb
