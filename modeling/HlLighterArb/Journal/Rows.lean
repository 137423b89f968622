import HlLighterArb.Maker.Position
import HlLighterArb.Maker.SpeculativeMatch

/-!
# HlLighterArb.Journal.Rows

The rows the maker engine records in the journal over a run.

* `recorded`: the rows of one call. Only a fill leaves any.
* `Recent`: the order a fill can belong to was sent on the side of `last_maker_direction_`.
* `sideOfFill_iff`: the side of a row is the side of the order that filled, in the runs whose
  journaled hedges are all confirmed.
-/

namespace Arb

namespace MakerHedgeEngine

/-- What one call records. -/
def recorded (cfg : EngineConfig) (s : MakerHedgeEngine) : MakerEvent → List JournalEntry
  | .tick nowMs venues => (onMarketData cfg venues s nowMs).journal
  | .trade trade venues => (onTradeEvent cfg venues s trade).journal
  | .fill fillPrice fillSizeBase snapshot oid hlFee venues =>
    (onHlFill cfg venues s fillPrice fillSizeBase snapshot oid hlFee).journal

/-! ## Only fills are journaled -/

section Quiet

variable {cfg : EngineConfig} {s : MakerHedgeEngine}

theorem executePlace_journal (venues : Venues) (steadyMs : Int) (reason : String)
    (order : PendingMakerOrder) (snapshot : SpreadSnapshot) :
    (executePlaceHlMaker cfg venues steadyMs s reason order snapshot).journal = [] := by
  unfold executePlaceHlMaker
  split_ifs
  · rfl
  · cases s.hlPlaceRetryAtMs cfg steadyMs with
    | some => rfl
    | none =>
      simp only
      split_ifs <;> rfl

theorem executeCancel_journal (venues : Venues) (steadyMs : Int) (reason : String)
    (order : PendingMakerOrder) (snapshot : SpreadSnapshot) :
    (executeCancelHlMaker cfg venues steadyMs s reason order snapshot).journal = [] := by
  unfold executeCancelHlMaker
  cases s.hlCancelRetryAtMs cfg steadyMs with
  | some => rfl
  | none =>
    cases s.activeHlOid with
    | none => rfl
    | some oid =>
      simp only
      split_ifs <;> rfl

theorem executeSendLighterTakerHedge_journal (venues : Venues) (steadyMs : Int)
    (intent : HedgeIntent) (snapshot : SpreadSnapshot) :
    (executeSendLighterTakerHedge cfg venues steadyMs s intent snapshot).journal = [] := by
  simp only [executeSendLighterTakerHedge]
  split_ifs
  · rfl
  · unfold HlMakerLighterHedger.onLighterHedgeReject
    cases s.strategy.openPosition <;> rfl

theorem executeAction_journal (venues : Venues) (steadyMs : Int) (action : Action)
    (snapshot : SpreadSnapshot) :
    (executeAction cfg venues steadyMs s action snapshot).journal = [] := by
  cases action with
  | placeHlMaker => exact executePlace_journal ..
  | cancelHlMaker => exact executeCancel_journal ..
  | sendLighterTakerHedge => exact executeSendLighterTakerHedge_journal ..
  | _ => rfl

theorem onMarketData_journal (venues : Venues) (nowMs : Int) :
    (onMarketData cfg venues s nowMs).journal = [] := by
  have hdeferred : (executeDeferredHlAction cfg venues s nowMs
      (collectSnapshot cfg venues)).journal = [] := by
    unfold executeDeferredHlAction
    cases s.deferredHlAction with
    | none => rfl
    | some action =>
      simp only
      split_ifs
      · exact executeAction_journal ..
      · rfl
  have hdecided : ∀ t : MakerHedgeEngine,
      (runStrategy cfg venues t nowMs (collectSnapshot cfg venues)).journal = [] := by
    intro t
    simp only [runStrategy]
    split
    · split_ifs
      · rfl
      · exact executeAction_journal ..
    · exact executeAction_journal ..
  simp only [onMarketData]
  split_ifs
  · exact hdecided _
  · exact hdeferred

theorem onTradeEvent_journal (venues : Venues) (trade : TradeEvent) :
    (onTradeEvent cfg venues s trade).journal = [] := by
  unfold onTradeEvent
  split
  · split_ifs
    · rfl
    · rfl
    · simp only [sendSpeculative]
      split_ifs <;> rfl
    · rfl
  · rfl

/-! ## The row of a fill on the normal path -/

/-- The answer to the Lighter hedge of a fill on the normal path. -/
def hedgeAck (cfg : EngineConfig) (s : MakerHedgeEngine) (size : ℚ) (snapshot : SpreadSnapshot)
    (venues : Venues) : LighterIocAck :=
  venues.lighter.placeIocOrder (iocRequest cfg snapshot s.lastMakerDirection.isBuyHl 10 size)

theorem side_iff (isBuy : Bool) : (if isBuy then 'B' else 'S') = 'B' ↔ isBuy = true := by
  cases isBuy <;> decide

/-- The side the failure branches write. -/
theorem side_inverted_iff (isBuy : Bool) :
    (if isBuy then 'S' else 'B') = 'B' ↔ ¬ isBuy = true := by
  cases isBuy <;> decide

/-- Where the journal is attached the row holds the fill. Its side is that of the order when the
hedge is confirmed, and the other one when it is not. -/
theorem hedgeFill_row (attached : s.journalAttached = true) (fillPrice size : ℚ)
    (snapshot : SpreadSnapshot) (oid : String) (hlFee : ℚ) (venues : Venues) :
    ∃ row, (hedgeFill cfg venues s fillPrice size snapshot oid hlFee).journal = [row] ∧
      row.hlPx = fillPrice ∧ row.hlSz = size ∧ row.hlOid = oid ∧
      (row.hlSide = 'B' ↔ ((hedgeAck cfg s size snapshot venues).ok ∧
          (hedgeAck cfg s size snapshot venues).fillConfirmed ↔
        s.lastMakerDirection.isBuyHl = true)) := by
  simp only [hedgeFill, attached, if_true]
  unfold hedgeAck
  generalize venues.lighter.placeIocOrder
    (iocRequest cfg snapshot s.lastMakerDirection.isBuyHl 10 size) = ack
  by_cases hfilled : ack.ok ∧ ack.fillConfirmed
  · rw [if_pos hfilled]
    refine ⟨_, rfl, rfl, rfl, rfl, ?_⟩
    simp only [hfilled, and_self, true_iff]
    exact side_iff _
  · rw [if_neg hfilled]
    simp only [hfilled, false_iff]
    by_cases hok : ack.ok = true
    · rw [if_pos hok]
      exact ⟨_, rfl, rfl, rfl, rfl, side_inverted_iff _⟩
    · rw [if_neg hok]
      exact ⟨_, rfl, rfl, rfl, rfl, side_inverted_iff _⟩

theorem hedgeFill_detached (detached : s.journalAttached = false) (fillPrice size : ℚ)
    (snapshot : SpreadSnapshot) (oid : String) (hlFee : ℚ) (venues : Venues) :
    (hedgeFill cfg venues s fillPrice size snapshot oid hlFee).journal = [] := by
  simp only [hedgeFill, detached, Bool.false_eq_true, if_false]
  split_ifs <;> rfl

/-- The paths that reconcile a speculative hedge leave no row. -/
theorem onHlFill_journal_of_not_hedge {size : ℚ} {oid : String}
    (h : s.fillPath oid size ≠ .hedge) (fillPrice : ℚ) (snapshot : SpreadSnapshot) (hlFee : ℚ)
    (venues : Venues) :
    (onHlFill cfg venues s fillPrice size snapshot oid hlFee).journal = [] := by
  unfold onHlFill
  cases hpath : s.fillPath oid size with
  | hedge => exact absurd hpath h
  | _ => rfl

theorem onHlFill_of_hedge {size : ℚ} {oid : String} (h : s.fillPath oid size = .hedge)
    (fillPrice : ℚ) (snapshot : SpreadSnapshot) (hlFee : ℚ) (venues : Venues) :
    onHlFill cfg venues s fillPrice size snapshot oid hlFee =
      hedgeFill cfg venues s fillPrice size snapshot oid hlFee := by
  rw [onHlFill, h]

end Quiet

end MakerHedgeEngine

open MakerHedgeEngine

/-! ## The side of a row -/

/-- The order a fill can belong to was acknowledged last under its oid, on the side of
`last_maker_direction_`. -/
def Recent (l : List MakerObs) (s : MakerHedgeEngine) : Prop :=
  ∀ oid ∈ s.recentlyPlacedOids, ∃ request, sentUnder oid l = some request ∧
    request.isBuy = s.lastMakerDirection.isBuyHl

section Side

variable {cfg : EngineConfig} {ok : MakerHedgeEngine → PendingMakerOrder → Prop}
  {s s' : MakerHedgeEngine} {l past : List MakerObs}

/-- A step that places nothing and knows no new oid. -/
theorem Recent.frame (h : Recent past s) (quiet : ∀ o ∈ l, o.isPlacement = false)
    (placed : s'.recentlyPlacedOids ⊆ s.recentlyPlacedOids)
    (direction : s'.lastMakerDirection = s.lastMakerDirection) : Recent (past ++ l) s' := by
  intro oid hoid
  obtain ⟨request, hsent, hside⟩ := h oid (placed hoid)
  exact ⟨request, (sentUnder_append quiet).trans hsent, by rw [direction, hside]⟩

theorem Move.recentOrder (hm : Move cfg ok s l s') (hslot : Slot s) (h : Recent past s) :
    Recent (past ++ l) s' := by
  by_cases hquiet : l.any (·.isPlacement) = false
  · exact h.frame (by simpa using hquiet) (hm.recent hquiet ▸ List.Subset.refl _)
      (hm.direction hquiet)
  · cases hm with
    | @placeAcked order b origin _ ack acked =>
      intro oid hoid
      have heq : oid = ack.oid := List.mem_singleton.mp hoid
      refine ⟨limitRequest cfg order, ?_, (origin.held hslot).1⟩
      rw [sentUnder_append_placeLimit, if_pos ⟨acked, heq.symm⟩]
    | placeNacked origin nacked =>
      intro oid hoid
      obtain ⟨request, hsent, hside⟩ := h oid (origin.recent ▸ hoid)
      refine ⟨request, ?_, hside.trans (congrArg Direction.isBuyHl origin.direction_eq.symm)⟩
      rw [sentUnder_append_placeLimit, if_neg (by simp [nacked]), hsent]
    | cancelAcked _ _ _ unwind _ _ _ unwinds =>
      refine absurd ?_ hquiet
      rw [unwinds]
      split_ifs <;> rfl
    | _ => exact absurd rfl hquiet

theorem FillMove.recentOrder {oid : String} {size : ℚ} (hm : FillMove cfg s oid size l s')
    (h : Recent past s) : Recent (past ++ l) s' := by
  cases hm with
  | unknown => exact h.frame (by simp [MakerObs.isPlacement]) (List.Subset.refl _) rfl
  | perfect => exact h.frame (by simp [MakerObs.isPlacement]) List.erase_subset rfl
  | correction => exact h.frame (by simp [MakerObs.isPlacement]) List.erase_subset rfl
  | overshoot => exact h.frame (by simp [MakerObs.isPlacement]) (List.Subset.refl _) rfl
  | hedged => exact h.frame (by simp [MakerObs.isPlacement]) (List.Subset.refl _) rfl
  | unwound => exact h.frame (by simp [MakerObs.isPlacement]) (List.Subset.refl _) rfl

end Side

/-- In every run the order a fill can belong to is the one its oid was given to. -/
theorem recent_always (cfg : EngineConfig) (journalAttached : Bool) (p₀ : ℚ)
    (es : List MakerEvent) :
    (machine cfg).Always (start journalAttached p₀) (fun l s => Slot s ∧ Recent l s) es := by
  refine EventMachine.invariant ⟨.of_none rfl, fun oid hoid => by cases hoid⟩ ?_ es
  rintro l s e ⟨hslot, hrecent⟩
  refine @step_keeps cfg s (fun l s => Slot s ∧ Recent l s) l hslot.kind e ?_ ?_ ⟨hslot, hrecent⟩
  · rintro past t l' t' ⟨hs, hr⟩ hm
    exact ⟨hm.slot hs, hm.recentOrder hs hr⟩
  · intro oid size l' t' _ hm
    exact ⟨hm.slot hslot, hm.recentOrder hrecent⟩

/-- Every row of the call is on the side of the order acknowledged under its oid. -/
def SideOfFill (cfg : EngineConfig) (l : List MakerObs) (s : MakerHedgeEngine) (e : MakerEvent) :
    Prop :=
  ∀ row ∈ recorded cfg s e, ∃ request, sentUnder row.hlOid l = some request ∧
    (row.hlSide = 'B' ↔ request.isBuy = true)

/-- A fill that is journaled has its hedge confirmed. -/
def JournaledHedgeConfirmed (cfg : EngineConfig) (s : MakerHedgeEngine) : MakerEvent → Prop
  | .fill _ size snapshot oid _ venues =>
    s.journalAttached = true → s.fillPath oid size = .hedge →
      (hedgeAck cfg s size snapshot venues).ok ∧
        (hedgeAck cfg s size snapshot venues).fillConfirmed
  | _ => True

theorem sideOfFill_step {cfg : EngineConfig} {l : List MakerObs} {s : MakerHedgeEngine}
    (h : Recent l s) (e : MakerEvent) : SideOfFill cfg l s e ↔ JournaledHedgeConfirmed cfg s e := by
  cases e with
  | tick nowMs venues =>
    refine iff_of_true (fun row hrow => ?_) trivial
    rw [recorded, onMarketData_journal] at hrow
    cases hrow
  | trade trade venues =>
    refine iff_of_true (fun row hrow => ?_) trivial
    rw [recorded, onTradeEvent_journal] at hrow
    cases hrow
  | fill fillPrice size snapshot oid hlFee venues =>
    by_cases hpath : s.fillPath oid size = .hedge
    · have hmem : oid ∈ s.recentlyPlacedOids := by
        by_contra hunknown
        rw [fillPath, if_pos hunknown] at hpath
        cases hpath
      obtain ⟨request, hsent, hside⟩ := h oid hmem
      cases hattached : s.journalAttached with
      | false =>
        refine iff_of_true (fun row hrow => ?_) fun hfalse => ?_
        · rw [recorded, onHlFill_of_hedge hpath, hedgeFill_detached hattached] at hrow
          cases hrow
        · rw [hattached] at hfalse
          cases hfalse
      | true =>
        obtain ⟨row, hjournal, -, -, hoid, hrowSide⟩ :=
          @hedgeFill_row cfg s hattached fillPrice size snapshot oid hlFee venues
        have hrecorded : recorded cfg s (.fill fillPrice size snapshot oid hlFee venues) =
            [row] := by
          rw [recorded, onHlFill_of_hedge hpath, hjournal]
        simp only [SideOfFill, hrecorded, List.mem_singleton, forall_eq, hoid, hsent,
          Option.some.injEq, exists_eq_left', hrowSide, hside, JournaledHedgeConfirmed, hattached,
          hpath, forall_const]
        tauto
    · refine iff_of_true (fun row hrow => ?_) fun _ hhedge => absurd hhedge hpath
      rw [recorded, onHlFill_journal_of_not_hedge hpath] at hrow
      cases hrow

/-- The rows of a run are on the side of their fills exactly when every journaled hedge is
confirmed: the failure branches write the other side. -/
theorem sideOfFill_iff (cfg : EngineConfig) (journalAttached : Bool) (p₀ : ℚ)
    (es : List MakerEvent) :
    (machine cfg).Throughout (start journalAttached p₀) (SideOfFill cfg) es ↔
      (machine cfg).Throughout (start journalAttached p₀)
        (fun _ s e => JournaledHedgeConfirmed cfg s e) es :=
  (recent_always cfg journalAttached p₀ es).throughout_congr
    fun _ _ e h => sideOfFill_step h.2 e

/-- HL has bought, the hedge is rejected, and the row says that HL sold. -/
theorem failed_hedge_wrong_side :
    ¬ (machine sampleConfig).Throughout (start true 0) (SideOfFill sampleConfig)
      [tickUp 1000 "1", fillUnwound "1" 1] := by
  intro h
  have hsent : sentUnder "1" ((machine sampleConfig).obs (start true 0) [tickUp 1000 "1"]) =
      some (bidOf 1) := by decide +kernel
  have hrows : (recorded sampleConfig
      ((machine sampleConfig).final (start true 0) [tickUp 1000 "1"])
      (fillUnwound "1" 1)).map (fun row => (row.type, row.hlOid, row.hlSide)) =
        [('F', "1", 'S')] := by decide +kernel
  obtain ⟨row, hrecorded, hrow⟩ := List.map_eq_singleton_iff.mp hrows
  obtain ⟨request, hunder, hside⟩ := h [tickUp 1000 "1"] (fillUnwound "1" 1)
    (List.prefix_refl _) row (by rw [hrecorded]; exact List.mem_singleton_self row)
  simp only [Prod.mk.injEq] at hrow
  rw [hrow.2.1, hsent] at hunder
  cases hunder
  rw [hrow.2.2] at hside
  exact absurd (hside.mpr rfl) (by decide)

end Arb
