import HlLighterArb.Journal.Rows
import HlLighterArb.LighterMaker.Fills

/-!
# HlLighterArb.Journal.Complete

Which fills have a row in the journal. The paths that reconcile a speculative hedge return without
one, and so does the branch of the Lighter-maker engine whose HL hedge is not filled.

* `JournalsFill`: a fill that is acted on leaves one row with its price, size and order.
* `journal_complete_iff`: every call of a run does, exactly in the runs of `NormalPath`, and of
  `HedgeFilled` in the Lighter-maker engine.
-/

namespace Arb

open MakerHedgeEngine

/-! ## Every fill has its row -/

/-- A fill that is acted on leaves one row with its price, its size and its order, and nothing else
leaves a row. -/
def JournalsFill (cfg : EngineConfig) (s : MakerHedgeEngine) (e : MakerEvent) : Prop :=
  match e with
  | .fill fillPrice size _ oid _ _ =>
    if s.fillPath oid size = .unknownOid then recorded cfg s e = []
    else ∃ row, recorded cfg s e = [row] ∧ row.hlPx = fillPrice ∧ row.hlSz = size ∧
      row.hlOid = oid
  | _ => recorded cfg s e = []

/-- No fill of an order that the engine knows belongs to an outstanding speculative hedge. -/
def NormalPath (s : MakerHedgeEngine) : MakerEvent → Prop
  | .fill _ _ _ oid _ _ =>
    oid ∈ s.recentlyPlacedOids → ¬ (s.speculativeHedgeSent ∧ oid = s.speculativeHedgeOid)
  | _ => True

theorem fillPath_hedge_iff {s : MakerHedgeEngine} {oid : String} {size : ℚ} :
    s.fillPath oid size = .hedge ↔
      oid ∈ s.recentlyPlacedOids ∧ ¬ (s.speculativeHedgeSent ∧ oid = s.speculativeHedgeOid) := by
  unfold fillPath
  split_ifs with hknown hspec
  · exact iff_of_false id fun h => h.2 hspec
  · exact iff_of_false id fun h => h.2 hspec
  · exact iff_of_false id fun h => h.2 hspec
  · exact iff_of_true rfl ⟨hknown, hspec⟩
  · exact iff_of_false id fun h => hknown h.1

theorem fillPath_unknown_iff {s : MakerHedgeEngine} {oid : String} {size : ℚ} :
    s.fillPath oid size = .unknownOid ↔ oid ∉ s.recentlyPlacedOids := by
  unfold fillPath
  split_ifs with hunknown <;> simp_all

theorem journalsFill_step {cfg : EngineConfig} {s : MakerHedgeEngine}
    (attached : s.journalAttached = true) (e : MakerEvent) :
    JournalsFill cfg s e ↔ NormalPath s e := by
  cases e with
  | tick nowMs venues => exact iff_of_true (onMarketData_journal ..) trivial
  | trade trade venues => exact iff_of_true (onTradeEvent_journal ..) trivial
  | fill fillPrice size snapshot oid hlFee venues =>
    simp only [JournalsFill, NormalPath, recorded]
    by_cases hknown : oid ∈ s.recentlyPlacedOids
    · have hpath : s.fillPath oid size ≠ .unknownOid := fun h => fillPath_unknown_iff.mp h hknown
      rw [if_neg hpath]
      by_cases hhedge : s.fillPath oid size = .hedge
      · obtain ⟨row, hjournal, hpx, hsz, hoid, -⟩ :=
          @hedgeFill_row cfg s attached fillPrice size snapshot oid hlFee venues
        rw [onHlFill_of_hedge hhedge, hjournal]
        exact iff_of_true ⟨row, rfl, hpx, hsz, hoid⟩ fun _ => (fillPath_hedge_iff.mp hhedge).2
      · rw [onHlFill_journal_of_not_hedge hhedge]
        refine iff_of_false ?_ fun hnormal => hhedge (fillPath_hedge_iff.mpr ⟨hknown, hnormal hknown⟩)
        rintro ⟨row, hrow, -⟩
        cases hrow
    · have hpath : s.fillPath oid size = .unknownOid := fillPath_unknown_iff.mpr hknown
      rw [if_pos hpath, onHlFill_journal_of_not_hedge (by rw [hpath]; exact FillPath.noConfusion)]
      exact iff_of_true rfl fun h => absurd h hknown

theorem PlaceFrom.journal_eq {s b : MakerHedgeEngine} {order : PendingMakerOrder}
    (h : PlaceFrom s order b) : b.journalAttached = s.journalAttached := by
  cases h <;> rfl

theorem CancelFrom.journal_eq {s b : MakerHedgeEngine} {order : PendingMakerOrder}
    (h : CancelFrom s order b) : b.journalAttached = s.journalAttached := by
  cases h <;> rfl

theorem Move.journal_eq {cfg : EngineConfig} {ok : MakerHedgeEngine → PendingMakerOrder → Prop}
    {s s' : MakerHedgeEngine} {l : List MakerObs} (hm : Move cfg ok s l s') :
    s'.journalAttached = s.journalAttached := by
  cases hm with
  | quiet => rfl
  | placeBlocked origin => exact origin.journal_eq
  | placeDeferred origin => exact origin.journal_eq
  | placeAcked origin => exact origin.journal_eq
  | placeNacked origin => exact origin.journal_eq
  | cancelDeferred origin => exact origin.journal_eq
  | cancelIdle origin => exact origin.journal_eq
  | cancelAcked origin => exact origin.journal_eq
  | cancelNacked origin => exact origin.journal_eq
  | tradeIgnored => rfl
  | speculated => rfl
  | speculationFailed => rfl

theorem FillMove.journal_eq {cfg : EngineConfig} {s s' : MakerHedgeEngine} {oid : String} {size : ℚ}
    {l : List MakerObs} (hm : FillMove cfg s oid size l s') :
    s'.journalAttached = s.journalAttached := by
  cases hm <;> rfl

/-- A journal stays attached. -/
theorem attached_always (cfg : EngineConfig) (p₀ : ℚ) (es : List MakerEvent) :
    (machine cfg).Always (start true p₀)
      (fun _ s => DeferredMaker s ∧ s.journalAttached = true) es := by
  refine EventMachine.invariant ⟨.of_none rfl, rfl⟩ ?_ es
  rintro l s e ⟨hdef, hattached⟩
  refine @step_keeps cfg s (fun _ s => DeferredMaker s ∧ s.journalAttached = true) l hdef e ?_ ?_
    ⟨hdef, hattached⟩
  · rintro past t l' t' ⟨hd, ha⟩ hm
    exact ⟨hm.deferredMaker hd, hm.journal_eq.trans ha⟩
  · intro oid size l' t' _ hm
    exact ⟨hm.deferredMaker hdef, hm.journal_eq.trans hattached⟩

theorem maker_journal_iff (cfg : EngineConfig) (p₀ : ℚ) (es : List MakerEvent) :
    (machine cfg).Throughout (start true p₀) (fun _ s e => JournalsFill cfg s e) es ↔
      (machine cfg).Throughout (start true p₀) (fun _ s e => NormalPath s e) es :=
  (attached_always cfg p₀ es).throughout_congr fun _ _ e h => journalsFill_step h.2 e

/-! ## The Lighter-maker engine -/

namespace LighterMakerTakerEngine

/-- What one call records. -/
def recorded (cfg : EngineConfig) (s : LighterMakerTakerEngine) :
    LighterMakerEvent → List JournalEntry
  | .tick nowMs venues => (onMarketData cfg venues s nowMs).journal
  | .fill fillPrice fillSizeBase snapshot orderIndex venues =>
    (onLighterFill cfg venues s fillPrice fillSizeBase snapshot orderIndex).journal

/-- A fill that is acted on leaves one row with its price, its size and its order, and nothing else
leaves a row. -/
def JournalsFill (cfg : EngineConfig) (s : LighterMakerTakerEngine) (e : LighterMakerEvent) : Prop :=
  match e with
  | .fill fillPrice size _ orderIndex _ =>
    if s.activeLighterOrderIndex = some orderIndex then
      ∃ row, recorded cfg s e = [row] ∧ row.ltFillPx = fillPrice ∧ row.ltSz = size ∧
        row.ltTx = toString orderIndex
    else recorded cfg s e = []
  | _ => recorded cfg s e = []

/-- HL fills some of the hedge of every fill that is acted on. -/
def HedgeFilled (cfg : EngineConfig) (s : LighterMakerTakerEngine) : LighterMakerEvent → Prop
  | .fill _ size snapshot orderIndex venues =>
    ∀ order, s.activeLighterOrderIndex = some orderIndex → s.strategy.pendingMaker = some order →
      (venues.hl.placeIocOrder (hedgeRequest cfg snapshot order.direction size)).ok ∧
        0 < (venues.hl.placeIocOrder
          (hedgeRequest cfg snapshot order.direction size)).filledSize
  | _ => True

section Rows

variable {cfg : EngineConfig} {s : LighterMakerTakerEngine}

theorem executePlace_journal (venues : Venues) (steadyMs : Int) (reason : String)
    (order : PendingMakerOrder) :
    (executePlaceLighterMaker cfg venues steadyMs s reason order).journal = [] := by
  unfold executePlaceLighterMaker
  cases s.lighterPlaceRetryAtMs cfg steadyMs with
  | some => rfl
  | none =>
    simp only
    split_ifs <;> rfl

theorem executeCancel_journal (venues : Venues) (steadyMs : Int) (reason : String)
    (order : PendingMakerOrder) :
    (executeCancelLighterMaker cfg venues steadyMs s reason order).journal = [] := by
  unfold executeCancelLighterMaker
  cases s.lighterCancelRetryAtMs cfg steadyMs with
  | some => rfl
  | none => cases s.activeLighterOrderIndex <;> rfl

theorem onMarketData_journal (hdef : LighterMaker.DeferredMaker s) (venues : Venues)
    (nowMs : Int) : (onMarketData cfg venues s nowMs).journal = [] := by
  have hdeferred : (executeDeferredLighterAction cfg venues s nowMs
      (collectSnapshot cfg venues)).journal = [] := by
    unfold executeDeferredLighterAction
    cases hslot : s.deferredLighterAction with
    | none => rfl
    | some action =>
      simp only
      split_ifs
      · rcases hdef action hslot with ⟨reason, order, rfl⟩ | ⟨reason, order, rfl⟩
        · exact executePlace_journal ..
        · exact executeCancel_journal ..
      · rfl
  have hdecided : ∀ t : LighterMakerTakerEngine,
      (runStrategy cfg venues t nowMs (collectSnapshot cfg venues)).journal = [] := by
    intro t
    have hd := LighterMakerHlHedger.onMarketSnapshot_decided cfg.strategy t.strategy
      (collectSnapshot cfg venues) nowMs
    unfold runStrategy
    generalize LighterMakerHlHedger.onMarketSnapshot cfg.strategy t.strategy
      (collectSnapshot cfg venues) nowMs = r at hd ⊢
    obtain ⟨h, action⟩ := r
    cases hd with
    | quiet => rfl
    | place reason _ _ _ _ act =>
      simp only at act
      subst act
      exact executePlace_journal ..
    | cancel reason _ _ _ _ _ _ _ act =>
      simp only at act
      subst act
      exact executeCancel_journal ..
  simp only [onMarketData]
  split_ifs
  · exact hdecided _
  · exact hdeferred

/-- A fill that is acted on is journaled when its hedge is filled. -/
theorem onLighterFill_row (attached : s.journalAttached = true) {orderIndex : Int}
    {order : PendingMakerOrder} (active : s.activeLighterOrderIndex = some orderIndex)
    (pending : s.strategy.pendingMaker = some order) (fillPrice size : ℚ)
    (snapshot : SpreadSnapshot) {venues : Venues} {ack : HlIocOrderAck}
    (hack : venues.hl.placeIocOrder (hedgeRequest cfg snapshot order.direction size) = ack)
    (hfilled : ack.ok ∧ 0 < ack.filledSize) :
    ∃ row, (onLighterFill cfg venues s fillPrice size snapshot orderIndex).journal = [row] ∧
      row.ltFillPx = fillPrice ∧ row.ltSz = size ∧ row.ltTx = toString orderIndex := by
  subst hack
  simp only [onLighterFill, if_pos active, LighterMakerHlHedger.onLighterMakerFill, pending,
    executeAction, LighterMakerHlHedger.buildHlHedge]
  simp only [hedgeRequest] at hfilled
  unfold executeSendHlTakerHedge
  simp only
  rw [if_pos hfilled]
  simp only [attached, if_true, LighterMakerHlHedger.onHlHedgeFill, active]
  exact ⟨_, rfl, rfl, rfl, rfl⟩

theorem onLighterFill_unhedged {orderIndex : Int} {order : PendingMakerOrder}
    (active : s.activeLighterOrderIndex = some orderIndex)
    (pending : s.strategy.pendingMaker = some order) (fillPrice size : ℚ)
    (snapshot : SpreadSnapshot) {venues : Venues} {ack : HlIocOrderAck}
    (hack : venues.hl.placeIocOrder (hedgeRequest cfg snapshot order.direction size) = ack)
    (hfailed : ¬ (ack.ok ∧ 0 < ack.filledSize)) :
    (onLighterFill cfg venues s fillPrice size snapshot orderIndex).journal = [] := by
  subst hack
  simp only [onLighterFill, if_pos active, LighterMakerHlHedger.onLighterMakerFill, pending,
    executeAction, LighterMakerHlHedger.buildHlHedge]
  simp only [hedgeRequest] at hfailed
  unfold executeSendHlTakerHedge
  simp only
  rw [if_neg hfailed]

theorem journalsFill_step {past : List LighterMakerObs} (h : LighterMaker.Coupled cfg past s)
    (attached : s.journalAttached = true) (e : LighterMakerEvent) :
    JournalsFill cfg s e ↔ HedgeFilled cfg s e := by
  cases e with
  | tick nowMs venues => exact iff_of_true (onMarketData_journal h.kind venues nowMs) trivial
  | fill fillPrice size snapshot orderIndex venues =>
    simp only [JournalsFill, HedgeFilled, recorded]
    by_cases active : s.activeLighterOrderIndex = some orderIndex
    · rw [if_pos active]
      obtain ⟨order, hholds, -⟩ := h.held orderIndex active
      have pending := hholds.pending
      generalize hack : venues.hl.placeIocOrder
        (hedgeRequest cfg snapshot order.direction size) = ack
      have hcondition : (∀ o, s.activeLighterOrderIndex = some orderIndex →
          s.strategy.pendingMaker = some o →
          (venues.hl.placeIocOrder (hedgeRequest cfg snapshot o.direction size)).ok ∧
            0 < (venues.hl.placeIocOrder
              (hedgeRequest cfg snapshot o.direction size)).filledSize) ↔
          ack.ok ∧ 0 < ack.filledSize := by
        rw [pending]
        simp [active, hack]
      rw [hcondition]
      by_cases hfilled : ack.ok ∧ 0 < ack.filledSize
      · exact iff_of_true
          (onLighterFill_row attached active pending fillPrice size snapshot hack hfilled) hfilled
      · rw [onLighterFill_unhedged active pending fillPrice size snapshot hack hfilled]
        refine iff_of_false ?_ hfilled
        rintro ⟨row, hrow, -⟩
        cases hrow
    · rw [if_neg active]
      refine iff_of_true ?_ fun order hactive => absurd hactive active
      rw [onLighterFill, if_neg active]

end Rows

end LighterMakerTakerEngine

namespace LighterMaker

theorem PlaceFrom.journal_eq {s b : LighterMakerTakerEngine} {order : PendingMakerOrder}
    (h : PlaceFrom s order b) : b.journalAttached = s.journalAttached := by
  cases h <;> rfl

theorem CancelFrom.journal_eq {s b : LighterMakerTakerEngine} {order : PendingMakerOrder}
    (h : CancelFrom s order b) : b.journalAttached = s.journalAttached := by
  cases h <;> rfl

theorem Move.journal_eq {cfg : EngineConfig} {s s' : LighterMakerTakerEngine}
    {l : List LighterMakerObs} (hm : Move cfg s l s') : s'.journalAttached = s.journalAttached := by
  cases hm with
  | quiet => rfl
  | placeDeferred origin => exact origin.journal_eq
  | placeAcked origin => exact origin.journal_eq
  | placeNacked origin => exact origin.journal_eq
  | cancelDeferred origin => exact origin.journal_eq
  | cancelIdle origin => exact origin.journal_eq
  | cancelAcked origin => exact origin.journal_eq
  | cancelNacked origin => exact origin.journal_eq

theorem FillMove.journal_eq {cfg : EngineConfig} {s s' : LighterMakerTakerEngine}
    {orderIndex : Int} {size : ℚ} {l : List LighterMakerObs}
    (hm : FillMove cfg s orderIndex size l s') : s'.journalAttached = s.journalAttached := by
  cases hm <;> rfl

/-- A journal stays attached. -/
theorem attached_always (cfg : EngineConfig) (es : List LighterMakerEvent) :
    (LighterMakerTakerEngine.machine cfg).Always (LighterMakerTakerEngine.start true)
      (fun l s => Coupled cfg l s ∧ s.journalAttached = true) es := by
  refine EventMachine.invariant ⟨coupled_start cfg true, rfl⟩ ?_ es
  rintro l s e ⟨hcoupled, hattached⟩
  refine ⟨hcoupled.step e, ?_⟩
  refine @step_preserves cfg s (fun _ s => s.journalAttached = true) l hcoupled.kind e ?_ ?_
    hattached
  · exact fun _ _ _ _ ha hm => hm.journal_eq.trans ha
  · exact fun _ _ _ _ _ hm => hm.journal_eq.trans hattached

theorem journal_iff (cfg : EngineConfig) (es : List LighterMakerEvent) :
    (LighterMakerTakerEngine.machine cfg).Throughout (LighterMakerTakerEngine.start true)
        (fun _ s e => LighterMakerTakerEngine.JournalsFill cfg s e) es ↔
      (LighterMakerTakerEngine.machine cfg).Throughout (LighterMakerTakerEngine.start true)
        (fun _ s e => LighterMakerTakerEngine.HedgeFilled cfg s e) es :=
  (attached_always cfg es).throughout_congr
    fun _ _ e h => LighterMakerTakerEngine.journalsFill_step h.1 h.2 e

end LighterMaker

/-- With a journal attached, every fill that is acted on has its row exactly in the runs of the
maker engine in which no fill is reconciled against a speculative hedge, and in those of the
Lighter-maker engine in which HL fills every hedge. -/
theorem journal_complete_iff (cfg : EngineConfig) :
    (∀ (p₀ : ℚ) (es : List MakerEvent),
      (machine cfg).Throughout (start true p₀) (fun _ s e => JournalsFill cfg s e) es ↔
        (machine cfg).Throughout (start true p₀) (fun _ s e => NormalPath s e) es) ∧
    ∀ es : List LighterMakerEvent,
      (LighterMakerTakerEngine.machine cfg).Throughout (LighterMakerTakerEngine.start true)
          (fun _ s e => LighterMakerTakerEngine.JournalsFill cfg s e) es ↔
        (LighterMakerTakerEngine.machine cfg).Throughout (LighterMakerTakerEngine.start true)
          (fun _ s e => LighterMakerTakerEngine.HedgeFilled cfg s e) es :=
  ⟨maker_journal_iff cfg, LighterMaker.journal_iff cfg⟩

/-- A fill of 2 of the Lighter order, with HL rejecting the hedge. -/
def LighterMaker.fillUnhedged (orderIndex : Int) (size : ℚ) : LighterMakerEvent :=
  .fill 111 size (spreadSnapshot (bookAround 100) (bookAround 110)) orderIndex
    { obligingVenues 100 110 0 "" with
      hl := { obligingHl 100 "" with placeIocOrder := fun _ => { ok := false } } }

/-- A fill that a speculative hedge covers leaves no row, and neither does a Lighter fill whose
hedge HL rejects. -/
theorem fills_without_row :
    ¬ (machine sampleConfig).Throughout (start true 0) (fun _ s e => JournalsFill sampleConfig s e)
        [tickUp 1000 "1", crossingTrade, fillOf "1" 1] ∧
      ¬ (LighterMakerTakerEngine.machine sampleConfig).Throughout
        (LighterMakerTakerEngine.start true)
        (fun _ s e => LighterMakerTakerEngine.JournalsFill sampleConfig s e)
        [LighterMaker.tickUp 1000, LighterMaker.fillUnhedged 1 1] := by
  constructor
  · intro h
    have hrow := h [tickUp 1000 "1", crossingTrade] (fillOf "1" 1) (List.prefix_refl _)
    have hpath : ((machine sampleConfig).final (start true 0)
        [tickUp 1000 "1", crossingTrade]).fillPath "1" 1 = .perfectMatch := by decide +kernel
    simp only [JournalsFill, fillOf, hpath, reduceCtorEq, if_false] at hrow
    obtain ⟨row, hrow, -⟩ := hrow
    have hnone : recorded sampleConfig ((machine sampleConfig).final (start true 0)
        [tickUp 1000 "1", crossingTrade]) (fillOf "1" 1) = [] := by decide +kernel
    rw [fillOf] at hnone
    rw [hnone] at hrow
    cases hrow
  · intro h
    have hrow := h [LighterMaker.tickUp 1000] (LighterMaker.fillUnhedged 1 1) (List.prefix_refl _)
    have hactive : ((LighterMakerTakerEngine.machine sampleConfig).final
        (LighterMakerTakerEngine.start true) [LighterMaker.tickUp 1000]).activeLighterOrderIndex =
          some 1 := by decide +kernel
    simp only [LighterMakerTakerEngine.JournalsFill, LighterMaker.fillUnhedged, hactive,
      if_true] at hrow
    obtain ⟨row, hrow, -⟩ := hrow
    have hnone : LighterMakerTakerEngine.recorded sampleConfig
        ((LighterMakerTakerEngine.machine sampleConfig).final (LighterMakerTakerEngine.start true)
          [LighterMaker.tickUp 1000]) (LighterMaker.fillUnhedged 1 1) = [] := by decide +kernel
    rw [LighterMaker.fillUnhedged] at hnone
    rw [hnone] at hrow
    cases hrow

end Arb
