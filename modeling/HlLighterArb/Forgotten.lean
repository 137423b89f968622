import HlLighterArb.Hl.LimitOrder
import HlLighterArb.Lighter.LimitOrder

/-!
# HlLighterArb.Forgotten

Orders the exchange accepted although the engine was told they failed. An engine learns of its
orders only from acknowledgements: a call that timed out or lost its connection leaves no oid, a
call whose order was not seen resting leaves no order index, and a fill is matched by these alone.

* `acceptedHedged_iff`: on neither venue is such a fill ever hedged, whatever the order in which
  acceptance, confirmation, deadline and fill occur.
-/

namespace Arb

/-- On either venue, a run hedges every fill of a forgotten order exactly when none is delivered. -/
theorem acceptedHedged_iff (cfg : EngineConfig) (feedCfg : AccountFeedConfig)
    (waiter journalAttached : Bool) (p₀ : ℚ) :
    (∀ es : List HlSystemEvent,
      (HlMakerSystem.machine cfg).Throughout (HlMakerSystem.start journalAttached p₀)
          (HlMakerSystem.HedgesForgotten cfg) es ↔
        (HlMakerSystem.machine cfg).Throughout (HlMakerSystem.start journalAttached p₀)
          (fun past _ e => ∀ oid size, e.Delivers oid size →
            ¬ HlMakerSystem.Forgotten past oid) es) ∧
    (∀ es : List LighterSystemEvent,
      (LighterMakerSystem.machine cfg feedCfg waiter).Throughout
          (LighterMakerSystem.start feedCfg journalAttached)
          (LighterMakerSystem.HedgesForgotten cfg feedCfg waiter) es ↔
        (LighterMakerSystem.machine cfg feedCfg waiter).Throughout
          (LighterMakerSystem.start feedCfg journalAttached)
          (fun past _ e => ∀ orderIndex size, e.Delivers orderIndex size →
            ¬ LighterMakerSystem.Forgotten past orderIndex) es) :=
  ⟨HlMakerSystem.forgottenHedged_iff cfg journalAttached p₀,
    LighterMakerSystem.forgottenHedged_iff cfg feedCfg waiter journalAttached⟩

/-- The HL order is written and its response does not come in time. -/
def hlUnanswered : List HlSystemEvent :=
  [.transport (.io (.handshake true)),
    .tick 1000 "\x7b\x7d" [.io .runPosted] (obligingVenues 100 110 1000 ""), .accept 1 "7"]

def hlFill : HlSystemEvent :=
  .fill 100 1 (spreadSnapshot (bookAround 100) (bookAround 110)) "7" 0 (obligingVenues 100 110 0 "")

/-- The Lighter order is accepted by `sendTx` and not seen resting. -/
def lighterUnconfirmed : List LighterSystemEvent :=
  [.tick 1000 { clientOrderIndex := 1, txHash := "h", response := "\x7b\"code\":200\x7d" }
      (obligingVenues 100 110 1000 ""),
    .accept 1 7]

def lighterFill : LighterSystemEvent :=
  .fill 111 1 (spreadSnapshot (bookAround 100) (bookAround 110)) 7 (obligingVenues 100 110 0 "")

/-- On both venues the fill of the order that was accepted is dropped. -/
theorem forgotten_fill_dropped :
    ¬ (HlMakerSystem.machine sampleConfig).Throughout (HlMakerSystem.start false 0)
        (HlMakerSystem.HedgesForgotten sampleConfig) (hlUnanswered ++ [hlFill]) ∧
    ¬ (LighterMakerSystem.machine sampleConfig {} true).Throughout
        (LighterMakerSystem.start {} false)
        (LighterMakerSystem.HedgesForgotten sampleConfig {} true)
        (lighterUnconfirmed ++ [lighterFill]) := by
  constructor
  · intro h
    have hplaced : HlSystemObs.placed 1 false ∈
        (HlMakerSystem.machine sampleConfig).obs (HlMakerSystem.start false 0) hlUnanswered := by
      decide +kernel
    have haccepted : HlSystemObs.accepted 1 "7" ∈
        (HlMakerSystem.machine sampleConfig).obs (HlMakerSystem.start false 0) hlUnanswered := by
      decide +kernel
    have hunacked : "7" ∉ ackedOids (HlMakerSystem.engineObs
        ((HlMakerSystem.machine sampleConfig).obs (HlMakerSystem.start false 0) hlUnanswered)) := by
      decide +kernel
    have hhedged := h hlUnanswered hlFill (List.prefix_refl _) "7" 1 ⟨rfl, rfl⟩
      ⟨⟨1, hplaced, haccepted⟩, hunacked⟩
    revert hhedged
    decide +kernel
  · intro h
    have hplaced : LighterSystemObs.placed 1 false ∈
        (LighterMakerSystem.machine sampleConfig {} true).obs (LighterMakerSystem.start {} false)
          lighterUnconfirmed := by
      decide +kernel
    have haccepted : LighterSystemObs.accepted 1 7 ∈
        (LighterMakerSystem.machine sampleConfig {} true).obs (LighterMakerSystem.start {} false)
          lighterUnconfirmed := by
      decide +kernel
    have hunconfirmed : LighterMaker.restingRequest 7 (LighterMakerSystem.engineObs
        ((LighterMakerSystem.machine sampleConfig {} true).obs (LighterMakerSystem.start {} false)
          lighterUnconfirmed)) = none := by
      decide +kernel
    have hhedged := h lighterUnconfirmed lighterFill (List.prefix_refl _) 7 1 ⟨rfl, rfl⟩
      ⟨⟨1, hplaced, haccepted⟩, hunconfirmed⟩
    revert hhedged
    decide +kernel

end Arb
