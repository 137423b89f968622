import HlLighterArb.Strategy

/-!
# HlLighterArb.Core

What the two engines have in common, whatever their venues: a strategy, at most one order they can
cancel, and one slot for an action that waits for the rate limiter. `CoreMove` is what a tick can
do to these three and `CoreFill` what a fill can; both engines refine them.

* `CoreInv`: what holds of the core in every reachable state.
* `Stranded`: the strategy waits for an order, or for a cancel, that nothing will bring.
* `CoreMove.stranded`: no tick leads out of `Stranded`, and none places an order there.
* `onSnapshot_places`, `onSnapshot_cancels`: the snapshots that make a strategy place and cancel.
-/

namespace Arb

/-- The kind of action in the deferred slot. -/
inductive Waiting where
  | nothing
  | place
  | cancel
  deriving DecidableEq

structure MakerCore where
  strategy : Hedger
  active : Bool
  waiting : Waiting

namespace MakerCore

/-- A placement is about to be executed in `b`: taken out of the slot, or just decided. -/
inductive Places (leg : MakerLeg) (c : MakerCore) : MakerCore → Prop where
  | deferred (slot : c.waiting = .place) : Places leg c { c with waiting := .nothing }
  | decided {h : Hedger} (idle : c.strategy.state = .idle) (state : h.state = leg.pending)
      (pending : h.pendingMaker.isSome = true) : Places leg c { c with strategy := h }

/-- A cancel is about to be executed in `b`. -/
inductive Cancels (leg : MakerLeg) (c : MakerCore) : MakerCore → Prop where
  | deferred (slot : c.waiting = .cancel) : Cancels leg c { c with waiting := .nothing }
  | decided {h : Hedger} (wasPending : c.strategy.state = leg.pending)
      (state : h.state = leg.cancelled) (pending : h.pendingMaker.isSome = true) :
      Cancels leg c { c with strategy := h }

end MakerCore

/-- One branch of a tick. The label says whether a placement was sent. -/
inductive CoreMove (leg : MakerLeg) (c : MakerCore) : Bool → MakerCore → Prop where
  | quiet {h : Hedger} (state : h.state = c.strategy.state)
      (pending : h.pendingMaker = c.strategy.pendingMaker)
      (gate : c.strategy.state = .idle → h.gate.armed = true → c.strategy.gate.armed = true) :
      CoreMove leg c false { c with strategy := h }
  | placeBlocked {b : MakerCore} (origin : c.Places leg b) :
      CoreMove leg c false { b with strategy := b.strategy.reset }
  | placeDeferred {b : MakerCore} (origin : c.Places leg b) :
      CoreMove leg c false { b with waiting := .place }
  | placeAcked {b : MakerCore} (origin : c.Places leg b) :
      CoreMove leg c true { b with active := true, waiting := .nothing }
  | placeNacked {b : MakerCore} (origin : c.Places leg b) :
      CoreMove leg c true { b with waiting := .nothing }
  | cancelDeferred {b : MakerCore} (origin : c.Cancels leg b) :
      CoreMove leg c false { b with waiting := .cancel }
  | cancelIdle {b : MakerCore} (origin : c.Cancels leg b) (inactive : c.active = false) :
      CoreMove leg c false { b with waiting := .nothing }
  | cancelAcked {b : MakerCore} (origin : c.Cancels leg b) (active : c.active = true) :
      CoreMove leg c false { strategy := b.strategy.reset, active := false, waiting := .nothing }
  | cancelNacked {b : MakerCore} (origin : c.Cancels leg b) (active : c.active = true) :
      CoreMove leg c false { b with waiting := .nothing }

/-- A fill changes nothing here, or closes the order. -/
inductive CoreFill (c : MakerCore) : MakerCore → Prop where
  | ignored : CoreFill c c
  | closed : CoreFill c { c with strategy := c.strategy.reset, active := false }

/-- The strategy is in one of three states; an idle one has its gate unarmed, another one has an
order. -/
structure CoreInv (leg : MakerLeg) (c : MakerCore) : Prop where
  state : c.strategy.state = .idle ∨ c.strategy.state = leg.pending ∨
    c.strategy.state = leg.cancelled
  unarmed : c.strategy.state = .idle → c.strategy.gate.armed = false
  pending : c.strategy.state ≠ .idle → c.strategy.pendingMaker.isSome = true

/-- The strategy waits although no order is out, or for a cancel that was already tried, and no
placement waits in the slot. -/
def Stranded (leg : MakerLeg) (c : MakerCore) : Prop :=
  c.strategy.state ≠ .idle ∧ c.waiting ≠ .place ∧
    (c.active = false ∨ c.strategy.state = leg.cancelled ∧ c.waiting = .nothing)

instance (leg : MakerLeg) (c : MakerCore) : Decidable (Stranded leg c) :=
  inferInstanceAs (Decidable (_ ∧ _ ∧ (_ ∨ _ ∧ _)))

section Moves

variable {leg : MakerLeg} {c c' b : MakerCore} {sent : Bool}

theorem CoreInv.of_reset (waiting : Waiting) (active : Bool) (h : Hedger) :
    CoreInv leg { strategy := h.reset, active, waiting } :=
  ⟨.inl rfl, fun _ => rfl, fun hne => absurd rfl hne⟩

theorem CoreInv.of_strategy (h : CoreInv leg c) (heq : c'.strategy = c.strategy) :
    CoreInv leg c' :=
  ⟨heq ▸ h.state, heq ▸ h.unarmed, heq ▸ h.pending⟩

theorem CoreInv.of_busy (state : c.strategy.state = leg.pending ∨ c.strategy.state = leg.cancelled)
    (busy : c.strategy.state ≠ .idle) (pending : c.strategy.pendingMaker.isSome = true) :
    CoreInv leg c :=
  ⟨.inr state, fun hidle => absurd hidle busy, fun _ => pending⟩

theorem MakerCore.Places.inv (hp : c.Places leg b) (h : CoreInv leg c)
    (hpending : leg.pending ≠ .idle) : CoreInv leg b := by
  cases hp with
  | deferred => exact h.of_strategy rfl
  | decided _ state pending => exact .of_busy (.inl state) (by rw [state]; exact hpending) pending

theorem MakerCore.Cancels.inv (hc : c.Cancels leg b) (h : CoreInv leg c)
    (hcancelled : leg.cancelled ≠ .idle) : CoreInv leg b := by
  cases hc with
  | deferred => exact h.of_strategy rfl
  | decided _ state pending => exact .of_busy (.inr state) (by rw [state]; exact hcancelled) pending

theorem CoreMove.inv (hm : CoreMove leg c sent c') (h : CoreInv leg c)
    (hpending : leg.pending ≠ .idle) (hcancelled : leg.cancelled ≠ .idle) : CoreInv leg c' := by
  cases hm with
  | quiet state pending gate =>
    refine ⟨state ▸ h.state, fun hidle => ?_, fun hbusy => pending ▸ h.pending (state ▸ hbusy)⟩
    have hwas : c.strategy.state = .idle := state.symm.trans hidle
    by_contra harmed
    have hgate := gate hwas (by simpa using harmed)
    rw [h.unarmed hwas] at hgate
    cases hgate
  | placeBlocked => exact .of_reset _ _ _
  | placeDeferred origin => exact (origin.inv h hpending).of_strategy rfl
  | placeAcked origin => exact (origin.inv h hpending).of_strategy rfl
  | placeNacked origin => exact (origin.inv h hpending).of_strategy rfl
  | cancelDeferred origin => exact (origin.inv h hcancelled).of_strategy rfl
  | cancelIdle origin => exact (origin.inv h hcancelled).of_strategy rfl
  | cancelAcked => exact .of_reset _ _ _
  | cancelNacked origin => exact (origin.inv h hcancelled).of_strategy rfl

theorem CoreFill.inv (hf : CoreFill c c') (h : CoreInv leg c) : CoreInv leg c' := by
  cases hf with
  | ignored => exact h
  | closed => exact .of_reset _ _ _

/-- A stranded strategy is about to place nothing. -/
theorem Stranded.not_places (h : Stranded leg c) (hp : c.Places leg b) : False := by
  cases hp with
  | deferred slot => exact h.2.1 slot
  | decided idle => exact h.1 idle

/-- A stranded strategy only cancels when no order is out. -/
theorem Stranded.inactive_of_cancels (h : Stranded leg c) (hc : c.Cancels leg b)
    (hdistinct : leg.pending ≠ leg.cancelled) : c.active = false := by
  rcases h.2.2 with hinactive | ⟨hstate, hwaiting⟩
  · exact hinactive
  · cases hc with
    | deferred slot => rw [hwaiting] at slot; cases slot
    | decided wasPending => exact absurd (wasPending.symm.trans hstate) hdistinct

theorem MakerCore.Cancels.busy (hc : c.Cancels leg b) (h : c.strategy.state ≠ .idle)
    (hcancelled : leg.cancelled ≠ .idle) : b.strategy.state ≠ .idle ∧ b.active = c.active := by
  cases hc with
  | deferred => exact ⟨h, rfl⟩
  | decided _ state => exact ⟨by rw [state]; exact hcancelled, rfl⟩

/-- No tick leads out of a stranded state, and none sends a placement there. -/
theorem CoreMove.stranded (hm : CoreMove leg c sent c') (h : Stranded leg c)
    (hcancelled : leg.cancelled ≠ .idle) (hdistinct : leg.pending ≠ leg.cancelled) :
    Stranded leg c' ∧ sent = false := by
  cases hm with
  | quiet state => exact ⟨⟨state ▸ h.1, h.2.1, state ▸ h.2.2⟩, rfl⟩
  | placeBlocked origin => exact (h.not_places origin).elim
  | placeDeferred origin => exact (h.not_places origin).elim
  | placeAcked origin => exact (h.not_places origin).elim
  | placeNacked origin => exact (h.not_places origin).elim
  | cancelDeferred origin =>
    obtain ⟨hbusy, hactive⟩ := origin.busy h.1 hcancelled
    have hinactive := h.inactive_of_cancels origin hdistinct
    exact ⟨⟨hbusy, Waiting.noConfusion, .inl (hactive.trans hinactive)⟩, rfl⟩
  | cancelIdle origin inactive =>
    obtain ⟨hbusy, hactive⟩ := origin.busy h.1 hcancelled
    exact ⟨⟨hbusy, Waiting.noConfusion, .inl (hactive.trans inactive)⟩, rfl⟩
  | cancelAcked origin active =>
    rw [h.inactive_of_cancels origin hdistinct] at active
    cases active
  | cancelNacked origin active =>
    rw [h.inactive_of_cancels origin hdistinct] at active
    cases active

end Moves

/-! ## Snapshots that make a strategy act -/

/-- The gate as an entry at `threshold` arms it. -/
def armedGate (crossSpreadBps threshold : ℚ) : SignalGate where
  armed := true
  direction := directionForSpread crossSpreadBps
  entrySpreadBps := threshold

theorem Hedger.onSnapshot_places {leg : MakerLeg} {cfg : HedgerConfig} {h : Hedger}
    {snapshot : SpreadSnapshot} {threshold : ℚ} (build : SignalGate → PendingMakerOrder)
    (reason : SignalGate → String) {nowMs : Int} (idle : h.state = .idle)
    (unarmed : h.gate.armed = false) (valid : snapshot.valid cfg.maxQuoteAgeMs = true)
    (wide : threshold ≤ |snapshot.crossSpreadBps|) (rearm : h.canArm cfg nowMs = true) :
    (h.onSnapshot leg cfg snapshot threshold build reason nowMs).2 =
      leg.place (reason (armedGate snapshot.crossSpreadBps threshold))
        (build (armedGate snapshot.crossSpreadBps threshold)) := by
  have hgate : h.stepGate leg cfg snapshot.crossSpreadBps threshold nowMs =
      { h with gate := armedGate snapshot.crossSpreadBps threshold } := by
    simp [stepGate, unarmed, wide, rearm, armedGate]
  rw [onSnapshot, if_pos valid, hgate]
  simp [Hedger.decide, idle, armedGate]

theorem Hedger.onSnapshot_cancels {leg : MakerLeg} {cfg : HedgerConfig} {h : Hedger}
    {snapshot : SpreadSnapshot} {threshold : ℚ} (build : SignalGate → PendingMakerOrder)
    (reason : SignalGate → String) {nowMs : Int} {order : PendingMakerOrder}
    (pending : h.state = leg.pending) (hpending : leg.pending ≠ .idle)
    (wasOrder : h.pendingMaker = some order) (valid : snapshot.valid cfg.maxQuoteAgeMs = true)
    (against : directionForSpread snapshot.crossSpreadBps ≠ order.direction) :
    (h.onSnapshot leg cfg snapshot threshold build reason nowMs).2 =
      leg.cancel "spread mean-reverted below cancel threshold" order := by
  obtain ⟨hstate, horder, -⟩ := h.stepGate_frame leg cfg snapshot.crossSpreadBps threshold nowMs
  rw [pending] at hstate
  rw [wasOrder] at horder
  rw [onSnapshot, if_pos valid, decide, if_neg (by rw [hstate]; exact hpending), if_pos hstate]
  simp only [horder]
  rw [if_pos (.inr (.inl against))]

end Arb
