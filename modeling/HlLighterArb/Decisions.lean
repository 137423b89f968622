import HlLighterArb.Justified

/-!
# HlLighterArb.Decisions

Where the orders of an engine come from. An order waits in the slot for deferred actions for any
number of ticks, and is sent on a snapshot it was not decided on.

* `DecidedOn`: the snapshot supports the order, and the order is built from it.
* `slotOrder`: the placement in the slot; `tick_slot`: it was there before or is decided now.
* `Maker.fromBooks`, `LighterMaker.fromBooks`: in every run each order sent was decided on the books
  of one of the run's ticks, and a speculative hedge goes out on a valid snapshot.
-/

namespace Arb

/-- The snapshot supports the order, and the order is built from it. -/
structure DecidedOn (cfg : HedgerConfig)
    (build : HedgerConfig → SpreadSnapshot → SignalGate → PendingMakerOrder)
    (snapshot : SpreadSnapshot) (order : PendingMakerOrder) : Prop where
  supports : Supports cfg snapshot order
  built : ∃ gate, order = build cfg snapshot gate

/-! ## `MakerHedgeEngine` -/

namespace Maker

open MakerHedgeEngine

/-- The placement in the slot. -/
def slotOrder (s : MakerHedgeEngine) : Option PendingMakerOrder :=
  s.deferredHlAction.bind Action.hlOrder

variable {cfg : EngineConfig} {s : MakerHedgeEngine} {nowMs : Int} {venues : Venues}
  {order : PendingMakerOrder}

/-- The order is decided on the books of this snapshot. -/
def Decided (cfg : EngineConfig) (snapshot : SpreadSnapshot) (order : PendingMakerOrder) : Prop :=
  DecidedOn cfg.strategy HlMakerLighterHedger.buildMakerOrder snapshot order

theorem decided_of_asked {h : Hedger} {snapshot : SpreadSnapshot} {reason : String} {p : ℚ}
    (unarmed : h.state = .idle → h.gate.armed = false)
    (hdecided : (HlMakerLighterHedger.onMarketSnapshot cfg.strategy h snapshot nowMs p).2 =
      .placeHlMaker reason order) : Decided cfg snapshot order := by
  refine ⟨supports_of_asked unarmed hdecided, ?_⟩
  have hd := HlMakerLighterHedger.onMarketSnapshot_decided cfg.strategy h snapshot nowMs p
  rw [hdecided] at hd
  generalize (HlMakerLighterHedger.onMarketSnapshot _ _ _ _ _).1 = h' at hd
  cases hd with
  | place _ _ _ _ _ act =>
    cases act
    exact ⟨_, rfl⟩
  | cancel _ _ _ _ _ _ _ _ act => cases act

/-- A placement leaves the slot as it was, puts its order there, or empties it. -/
theorem executePlace_slot {steadyMs : Int} {reason : String} {placed : PendingMakerOrder}
    {snapshot : SpreadSnapshot}
    (h : slotOrder (executePlaceHlMaker cfg venues steadyMs s reason placed snapshot).state =
      some order) : slotOrder s = some order ∨ placed = order := by
  unfold executePlaceHlMaker at h
  split_ifs at h with hblock
  · exact .inl h
  · cases hretry : s.hlPlaceRetryAtMs cfg steadyMs with
    | none =>
      simp only [hretry] at h
      split at h <;> cases h
    | some retryAt =>
      simp only [hretry] at h
      cases h
      exact .inr rfl

/-- A cancel leaves no placement in the slot. -/
theorem executeCancel_slot {steadyMs : Int} {reason : String} {placed : PendingMakerOrder}
    {snapshot : SpreadSnapshot} :
    slotOrder (executeCancelHlMaker cfg venues steadyMs s reason placed snapshot).state = none := by
  unfold executeCancelHlMaker
  cases s.hlCancelRetryAtMs cfg steadyMs with
  | some retryAt => rfl
  | none =>
    cases s.activeHlOid with
    | none => rfl
    | some oid =>
      simp only
      split_ifs <;> rfl

/-- Running the deferred action empties the slot or leaves the same order in it. -/
theorem executeDeferred_slot (hdef : DeferredMaker s) (snapshot : SpreadSnapshot)
    (h : slotOrder (executeDeferredHlAction cfg venues s nowMs snapshot).state = some order) :
    slotOrder s = some order := by
  unfold executeDeferredHlAction at h
  cases hslot : s.deferredHlAction with
  | none =>
    rw [hslot] at h
    exact h
  | some action =>
    simp only [hslot] at h
    split_ifs at h with hdue
    · rcases hdef action hslot with ⟨reason, placed, rfl⟩ | ⟨reason, placed, rfl⟩
      · rcases executePlace_slot h with hempty | rfl
        · cases hempty
        · rw [slotOrder, hslot]
          rfl
      · exact absurd (executeCancel_slot.symm.trans h) (Option.some_ne_none order).symm
    · exact h

/-- Asking the strategy leaves the order of the slot there, or empties it, or puts the order
decided on there. -/
theorem runStrategy_slot {snapshot : SpreadSnapshot}
    (h : slotOrder (runStrategy cfg venues s nowMs snapshot).state = some order) :
    slotOrder s = some order ∨
      ∃ reason, (HlMakerLighterHedger.onMarketSnapshot cfg.strategy s.strategy snapshot nowMs
        s.hlPositionBase).2 = .placeHlMaker reason order := by
  have hd := HlMakerLighterHedger.onMarketSnapshot_decided cfg.strategy s.strategy snapshot nowMs
    s.hlPositionBase
  unfold runStrategy at h
  generalize HlMakerLighterHedger.onMarketSnapshot cfg.strategy s.strategy snapshot nowMs
    s.hlPositionBase = r at hd h ⊢
  obtain ⟨h', action⟩ := r
  cases hd with
  | quiet => exact .inl h
  | place reason _ _ _ _ act =>
    simp only at act
    subst act
    simp only [HlMakerLighterHedger.leg] at h
    split_ifs at h with hblock
    · exact .inl h
    · rcases executePlace_slot h with hslot | rfl
      · exact .inl hslot
      · exact .inr ⟨reason, rfl⟩
  | cancel reason _ _ _ _ _ _ _ act =>
    simp only at act
    subst act
    exact absurd (executeCancel_slot.symm.trans h) (Option.some_ne_none order).symm

/-- The strategy, with its gate off while it is idle, decides on the order. -/
def Asked (cfg : EngineConfig) (nowMs : Int) (snapshot : SpreadSnapshot)
    (order : PendingMakerOrder) : Prop :=
  ∃ (h : Hedger) (p : ℚ) (reason : String), (h.state = .idle → h.gate.armed = false) ∧
    (HlMakerLighterHedger.onMarketSnapshot cfg.strategy h snapshot nowMs p).2 =
      .placeHlMaker reason order

/-- The order in the slot after a tick was there before, or is decided on at the tick. -/
theorem tick_slot_asked (hdef : DeferredMaker s)
    (unarmed : s.strategy.state = .idle → s.strategy.gate.armed = false)
    (h : slotOrder (onMarketData cfg venues s nowMs).state = some order) :
    slotOrder s = some order ∨ Asked cfg nowMs (collectSnapshot cfg venues) order := by
  simp only [onMarketData] at h
  split_ifs at h with hevents
  · rcases runStrategy_slot h with hslot | ⟨reason, hdecided⟩
    · exact .inl (executeDeferred_slot hdef _ hslot)
    · refine .inr ⟨_, _, reason, fun hidle => ?_, hdecided⟩
      cases hruns : deferredRuns cfg s nowMs venues with
      | true =>
        have hran := (@executeDeferred_of_runs cfg s nowMs venues {} {} hdef hruns).1
        exact absurd (by simpa using hevents) hran
      | false =>
        have hasked := (executeDeferred_unrun hdef hruns).strategy
        rw [hasked] at hidle ⊢
        exact strategyAsked_unarmed unarmed hidle
  · exact .inl (executeDeferred_slot hdef _ h)

/-- An order that a tick sends waited in the slot, or is decided on at the tick. -/
theorem sends_asked (unarmed : s.strategy.state = .idle → s.strategy.gate.armed = false)
    (h : Sends cfg s nowMs venues order) :
    slotOrder s = some order ∨ Asked cfg nowMs (collectSnapshot cfg venues) order := by
  rcases h with ⟨-, reason, hslot⟩ | ⟨-, -, -, reason, hdecided⟩
  · rw [slotOrder, hslot]
    exact .inl rfl
  · exact .inr ⟨_, _, reason, strategyAsked_unarmed unarmed, hdecided⟩

theorem Asked.decided {snapshot : SpreadSnapshot} (h : Asked cfg nowMs snapshot order) :
    Decided cfg snapshot order := by
  obtain ⟨_, _, _, hunarmed, hdecided⟩ := h
  exact decided_of_asked hunarmed hdecided

/-- The order in the slot after a tick was there before, or is decided on the books of the tick. -/
theorem tick_slot (hdef : DeferredMaker s)
    (unarmed : s.strategy.state = .idle → s.strategy.gate.armed = false)
    (h : slotOrder (onMarketData cfg venues s nowMs).state = some order) :
    slotOrder s = some order ∨ Decided cfg (collectSnapshot cfg venues) order :=
  (tick_slot_asked hdef unarmed h).imp_right Asked.decided

/-- An order that a tick sends waited in the slot, or is decided on the books of the tick. -/
theorem tick_sends (hdef : DeferredMaker s)
    (unarmed : s.strategy.state = .idle → s.strategy.gate.armed = false)
    {request : HlLimitOrderRequest} {ack : HlLimitOrderAck}
    (h : .placeLimit request ack ∈ (onMarketData cfg venues s nowMs).calls) :
    ∃ order, request = limitRequest cfg order ∧
      (slotOrder s = some order ∨ Decided cfg (collectSnapshot cfg venues) order) := by
  obtain ⟨order, hsends, hrequest, -⟩ := (placeLimit_mem_iff hdef).mp h
  exact ⟨order, hrequest, (sends_asked unarmed hsends).imp_right Asked.decided⟩

/-- The books carry no order: they are stale, one-sided or closer than the threshold. -/
def QuietBooks (cfg : EngineConfig) (snapshot : SpreadSnapshot) : Prop :=
  snapshot.valid cfg.strategy.maxQuoteAgeMs = true → ∀ p, |snapshot.crossSpreadBps| <
    HlMakerLighterHedger.effectiveSpreadBps cfg.strategy snapshot.crossSpreadBps p

/-- On quiet books the strategy decides on no order. -/
theorem QuietBooks.not_asked {snapshot : SpreadSnapshot} (h : QuietBooks cfg snapshot) :
    ¬ Asked cfg nowMs snapshot order := by
  rintro ⟨g, p, reason, hunarmed, hdecided⟩
  have hidle := idle_of_asked hdecided
  rw [HlMakerLighterHedger.onMarketSnapshot_eq, Hedger.onSnapshot_idle hidle (hunarmed hidle),
    if_neg fun henter => absurd henter.2.1 (not_le.mpr (h henter.1 p))] at hdecided
  cases hdecided

/-! ### Trades and fills -/

theorem trade_slot (trade : TradeEvent) :
    slotOrder (onTradeEvent cfg venues s trade).state = slotOrder s := by
  simp only [onTradeEvent]
  split
  · split_ifs
    · rfl
    · rfl
    · simp only [sendSpeculative]
      split_ifs <;> rfl
    · rfl
    · rfl
  · rfl

/-- A speculative hedge goes out on a valid snapshot. -/
theorem trade_speculates {trade : TradeEvent} {request : LighterIocRequest} {ack : LighterIocAck}
    (h : .ioc .speculative request ack ∈ (onTradeEvent cfg venues s trade).calls) :
    (collectSnapshot cfg venues).valid cfg.strategy.maxQuoteAgeMs = true := by
  simp only [onTradeEvent] at h
  split at h
  · split_ifs at h with hsent hstale hcrossed hvalid
    · cases h
    · cases h
    · exact hvalid
    · cases h
    · simp [skipTrade] at h
  · cases h

theorem fill_slot {oid : String} {size : ℚ} {l : List MakerObs} {s' : MakerHedgeEngine}
    (h : FillMove cfg s oid size l s') : slotOrder s' = slotOrder s := by
  cases h <;> rfl

/-! ### Runs -/

/-- Where an order comes from: a placement from the books of a tick, a speculative hedge from those
of a trade. -/
def Sourced (cfg : EngineConfig) (es : List MakerEvent) : MakerObs → Prop
  | .placeLimit request _ => ∃ nowMs venues order, .tick nowMs venues ∈ es ∧
      Decided cfg (collectSnapshot cfg venues) order ∧ request = limitRequest cfg order
  | .ioc .speculative _ _ => ∃ trade venues, .trade trade venues ∈ es ∧
      (collectSnapshot cfg venues).valid cfg.strategy.maxQuoteAgeMs = true
  | _ => True

theorem Sourced.mono {es fs : List MakerEvent} {o : MakerObs} (h : Sourced cfg es o)
    (hsub : es ⊆ fs) : Sourced cfg fs o := by
  cases o with
  | placeLimit request ack =>
    obtain ⟨nowMs, venues, order, hmem, hrest⟩ := h
    exact ⟨nowMs, venues, order, hsub hmem, hrest⟩
  | ioc purpose request ack =>
    cases purpose with
    | speculative =>
      obtain ⟨trade, venues, hmem, hvalid⟩ := h
      exact ⟨trade, venues, hsub hmem, hvalid⟩
    | _ => trivial
  | _ => trivial

/-- An observation that is neither a placement nor a speculative hedge. -/
def isDerived : MakerObs → Bool
  | .placeLimit _ _ => false
  | .ioc .speculative _ _ => false
  | _ => true

theorem sourced_of_derived {es : List MakerEvent} {o : MakerObs} (h : isDerived o = true) :
    Sourced cfg es o := by
  cases o with
  | placeLimit request ack => cases h
  | ioc purpose request ack =>
    cases purpose with
    | speculative => cases h
    | _ => trivial
  | _ => trivial

theorem executePlace_calls {steadyMs : Int} {reason : String} {placed : PendingMakerOrder}
    {snapshot : SpreadSnapshot} :
    ∀ o ∈ (executePlaceHlMaker cfg venues steadyMs s reason placed snapshot).calls,
      o.isPlacement = true := by
  unfold executePlaceHlMaker
  split_ifs
  · simp
  · cases s.hlPlaceRetryAtMs cfg steadyMs with
    | some retryAt => simp
    | none =>
      simp only
      split_ifs
      · exact List.forall_mem_singleton.mpr rfl
      · exact List.forall_mem_singleton.mpr rfl

theorem executeCancel_calls {steadyMs : Int} {reason : String} {placed : PendingMakerOrder}
    {snapshot : SpreadSnapshot} :
    ∀ o ∈ (executeCancelHlMaker cfg venues steadyMs s reason placed snapshot).calls,
      isDerived o = true := by
  unfold executeCancelHlMaker
  cases s.hlCancelRetryAtMs cfg steadyMs with
  | some retryAt => simp
  | none =>
    cases s.activeHlOid with
    | none => simp
    | some oid =>
      simp only
      split_ifs <;> simp [isDerived]

/-- What a tick sends is a placement or follows from an order that is out. -/
theorem tick_calls (hdef : DeferredMaker s) :
    ∀ o ∈ (onMarketData cfg venues s nowMs).calls, o.isPlacement = true ∨ isDerived o = true := by
  have hdeferred : ∀ snapshot, ∀ o ∈
      (executeDeferredHlAction cfg venues s nowMs snapshot).calls,
      o.isPlacement = true ∨ isDerived o = true := by
    intro snapshot o ho
    unfold executeDeferredHlAction at ho
    cases hslot : s.deferredHlAction with
    | none =>
      rw [hslot] at ho
      cases ho
    | some action =>
      simp only [hslot] at ho
      split_ifs at ho
      · rcases hdef action hslot with ⟨reason, placed, rfl⟩ | ⟨reason, placed, rfl⟩
        · exact .inl (executePlace_calls o ho)
        · exact .inr (executeCancel_calls o ho)
      · cases ho
  have hdecided : ∀ (b : MakerHedgeEngine) snapshot, ∀ o ∈
      (runStrategy cfg venues b nowMs snapshot).calls,
      o.isPlacement = true ∨ isDerived o = true := by
    intro b snapshot o ho
    have hd := HlMakerLighterHedger.onMarketSnapshot_decided cfg.strategy b.strategy snapshot
      nowMs b.hlPositionBase
    unfold runStrategy at ho
    generalize HlMakerLighterHedger.onMarketSnapshot cfg.strategy b.strategy snapshot nowMs
      b.hlPositionBase = r at hd ho
    obtain ⟨h', action⟩ := r
    cases hd with
    | quiet => cases ho
    | place reason _ _ _ _ act =>
      simp only at act
      subst act
      simp only [HlMakerLighterHedger.leg] at ho
      split_ifs at ho
      · cases ho
      · exact .inl (executePlace_calls o ho)
    | cancel reason _ _ _ _ _ _ _ act =>
      simp only at act
      subst act
      exact .inr (executeCancel_calls o ho)
  intro o ho
  simp only [onMarketData] at ho
  split_ifs at ho
  · rcases List.mem_append.mp ho with ho | ho
    · exact hdeferred _ o ho
    · exact hdecided _ _ o ho
  · exact hdeferred _ o ho

theorem fill_calls {oid : String} {size : ℚ} {l : List MakerObs} {s' : MakerHedgeEngine}
    (h : FillMove cfg s oid size l s') : ∀ o ∈ l, isDerived o = true := by
  cases h <;> simp [isDerived]

theorem trade_calls (trade : TradeEvent) :
    ∀ o ∈ (onTradeEvent cfg venues s trade).calls, o.isPlacement = false := by
  have h : (onTradeEvent cfg venues s trade).calls.any MakerObs.isPlacement = false :=
    trade_places_nothing trade venues
  rw [List.any_eq_false] at h
  exact fun o ho => Bool.eq_false_iff.mpr (h o ho)

/-- The orders of a run and the one in the slot come from its ticks and trades. -/
structure FromBooks (cfg : EngineConfig) (es : List MakerEvent) (l : List MakerObs)
    (s : MakerHedgeEngine) : Prop where
  sent : ∀ o ∈ l, Sourced cfg es o
  waits : ∀ order, slotOrder s = some order → ∃ nowMs venues, .tick nowMs venues ∈ es ∧
    Decided cfg (collectSnapshot cfg venues) order

theorem FromBooks.step {es : List MakerEvent} {l : List MakerObs} (h : FromBooks cfg es l s)
    (hdef : DeferredMaker s) (unarmed : s.strategy.state = .idle → s.strategy.gate.armed = false)
    (e : MakerEvent) :
    FromBooks cfg (es ++ [e]) (l ++ (MakerHedgeEngine.step cfg s e).2)
      (MakerHedgeEngine.step cfg s e).1 := by
  have hsub : es ⊆ es ++ [e] := List.subset_append_left es [e]
  have hlast : e ∈ es ++ [e] := List.mem_append_right _ (List.mem_singleton_self e)
  have hsent : (∀ o ∈ (MakerHedgeEngine.step cfg s e).2, Sourced cfg (es ++ [e]) o) →
      ∀ o ∈ l ++ (MakerHedgeEngine.step cfg s e).2, Sourced cfg (es ++ [e]) o := by
    intro hnew o ho
    rcases List.mem_append.mp ho with ho | ho
    · exact (h.sent o ho).mono hsub
    · exact hnew o ho
  have hwaits : ∀ order, slotOrder s = some order → ∃ nowMs venues,
      .tick nowMs venues ∈ es ++ [e] ∧ Decided cfg (collectSnapshot cfg venues) order := by
    intro order hslot
    obtain ⟨nowMs, venues, hmem, hdecided⟩ := h.waits order hslot
    exact ⟨nowMs, venues, hsub hmem, hdecided⟩
  cases e with
  | tick nowMs venues =>
    refine ⟨hsent fun o ho => ?_, fun order hslot => ?_⟩
    · rcases tick_calls hdef o ho with hplaces | hderived
      · cases o with
        | placeLimit request ack =>
          obtain ⟨order, hrequest, hfrom⟩ := tick_sends hdef unarmed ho
          rcases hfrom with hslot | hdecided
          · obtain ⟨nowMs', venues', hmem, hdecided⟩ := hwaits order hslot
            exact ⟨nowMs', venues', order, hmem, hdecided, hrequest⟩
          · exact ⟨nowMs, venues, order, hlast, hdecided, hrequest⟩
        | _ => cases hplaces
      · exact sourced_of_derived hderived
    · rcases tick_slot hdef unarmed hslot with hslot | hdecided
      · exact hwaits order hslot
      · exact ⟨nowMs, venues, hlast, hdecided⟩
  | trade trade venues =>
    refine ⟨hsent fun o ho => ?_, fun order hslot => hwaits order ?_⟩
    · cases o with
      | placeLimit request ack => cases trade_calls trade _ ho
      | ioc purpose request ack =>
        cases purpose with
        | speculative => exact ⟨trade, venues, hlast, trade_speculates ho⟩
        | _ => trivial
      | _ => trivial
    · exact (trade_slot trade).symm.trans hslot
  | fill fillPrice size snapshot oid hlFee venues =>
    have hfill := @onHlFill_fillMove cfg s fillPrice size snapshot oid hlFee venues
    refine ⟨hsent fun o ho => sourced_of_derived (fill_calls hfill o ho),
      fun order hslot => hwaits order ?_⟩
    exact (fill_slot hfill).symm.trans hslot

end Maker

/-! ## `LighterMakerTakerEngine` -/

namespace LighterMaker

open LighterMakerTakerEngine

def slotOrder (s : LighterMakerTakerEngine) : Option PendingMakerOrder :=
  s.deferredLighterAction.bind Action.lighterOrder

variable {cfg : EngineConfig} {s : LighterMakerTakerEngine} {nowMs : Int} {venues : Venues}
  {order : PendingMakerOrder}

def Decided (cfg : EngineConfig) (snapshot : SpreadSnapshot) (order : PendingMakerOrder) : Prop :=
  DecidedOn cfg.strategy LighterMakerHlHedger.buildMakerOrder snapshot order

theorem decided_of_asked {snapshot : SpreadSnapshot} {reason : String}
    (unarmed : s.strategy.state = .idle → s.strategy.gate.armed = false)
    (hdecided : (LighterMakerHlHedger.onMarketSnapshot cfg.strategy s.strategy snapshot nowMs).2 =
      .placeLighterMaker reason order) : Decided cfg snapshot order := by
  obtain ⟨hidle, -, -, -, hbuilt⟩ := (decides_iff unarmed).mp ⟨reason, hdecided⟩
  rw [LighterMakerHlHedger.onMarketSnapshot_eq] at hdecided
  refine ⟨Hedger.onSnapshot_supports hidle (unarmed hidle) (fun g => ⟨rfl, rfl⟩)
    (fun r x hsame => ?_) (fun hnone => ?_) hdecided, _, hbuilt⟩
  · cases hsame
    rfl
  · cases hnone

theorem executePlace_slot {steadyMs : Int} {reason : String} {placed : PendingMakerOrder}
    (h : slotOrder (executePlaceLighterMaker cfg venues steadyMs s reason placed).state =
      some order) : placed = order := by
  unfold executePlaceLighterMaker at h
  cases hretry : s.lighterPlaceRetryAtMs cfg steadyMs with
  | none =>
    simp only [hretry] at h
    split at h <;> cases h
  | some retryAt =>
    simp only [hretry] at h
    cases h
    rfl

theorem executeCancel_slot {steadyMs : Int} {reason : String} {placed : PendingMakerOrder} :
    slotOrder (executeCancelLighterMaker cfg venues steadyMs s reason placed).state = none := by
  unfold executeCancelLighterMaker
  cases s.lighterCancelRetryAtMs cfg steadyMs with
  | some retryAt => rfl
  | none =>
    cases s.activeLighterOrderIndex with
    | none => rfl
    | some orderIndex =>
      simp only
      split_ifs <;> rfl

theorem executeDeferred_slot (hdef : DeferredMaker s) (snapshot : SpreadSnapshot)
    (h : slotOrder (executeDeferredLighterAction cfg venues s nowMs snapshot).state = some order) :
    slotOrder s = some order := by
  unfold executeDeferredLighterAction at h
  cases hslot : s.deferredLighterAction with
  | none =>
    rw [hslot] at h
    exact h
  | some action =>
    simp only [hslot] at h
    split_ifs at h with hdue
    · rcases hdef action hslot with ⟨reason, placed, rfl⟩ | ⟨reason, placed, rfl⟩
      · rw [slotOrder, hslot, ← executePlace_slot h]
        rfl
      · exact absurd (executeCancel_slot.symm.trans h) (Option.some_ne_none order).symm
    · exact h

theorem runStrategy_slot {snapshot : SpreadSnapshot}
    (h : slotOrder (runStrategy cfg venues s nowMs snapshot).state = some order) :
    slotOrder s = some order ∨
      ∃ reason, (LighterMakerHlHedger.onMarketSnapshot cfg.strategy s.strategy snapshot nowMs).2 =
        .placeLighterMaker reason order := by
  have hd := LighterMakerHlHedger.onMarketSnapshot_decided cfg.strategy s.strategy snapshot nowMs
  unfold runStrategy at h
  generalize LighterMakerHlHedger.onMarketSnapshot cfg.strategy s.strategy snapshot nowMs = r
    at hd h ⊢
  obtain ⟨h', action⟩ := r
  cases hd with
  | quiet => exact .inl h
  | place reason _ _ _ _ act =>
    simp only at act
    subst act
    rw [← executePlace_slot h]
    exact .inr ⟨reason, rfl⟩
  | cancel reason _ _ _ _ _ _ _ act =>
    simp only at act
    subst act
    exact absurd (executeCancel_slot.symm.trans h) (Option.some_ne_none order).symm

theorem tick_slot (hdef : DeferredMaker s)
    (unarmed : s.strategy.state = .idle → s.strategy.gate.armed = false)
    (h : slotOrder (onMarketData cfg venues s nowMs).state = some order) :
    slotOrder s = some order ∨ Decided cfg (collectSnapshot cfg venues) order := by
  simp only [onMarketData] at h
  split_ifs at h with hevents
  · rcases runStrategy_slot h with hslot | ⟨reason, hdecided⟩
    · exact .inl (executeDeferred_slot hdef _ hslot)
    · refine .inr (decided_of_asked ?_ hdecided)
      cases hruns : deferredRuns cfg s nowMs venues with
      | true =>
        have hran := (@executeDeferred_of_runs cfg s nowMs venues {} {} hdef
          (collectSnapshot cfg venues) hruns).1
        exact absurd (by simpa using hevents) hran
      | false =>
        have hasked := (executeDeferred_of_not_runs hdef (collectSnapshot cfg venues) hruns).2.2.1
        rwa [hasked]
  · exact .inl (executeDeferred_slot hdef _ h)

theorem tick_sends (hdef : DeferredMaker s)
    (unarmed : s.strategy.state = .idle → s.strategy.gate.armed = false)
    {request : LighterLimitOrderRequest} {ack : LighterLimitOrderAck}
    (h : .placeLimit request ack ∈ (onMarketData cfg venues s nowMs).calls) :
    ∃ order, request = limitRequest cfg order ∧
      (slotOrder s = some order ∨ Decided cfg (collectSnapshot cfg venues) order) := by
  obtain ⟨order, hsends, hrequest, -⟩ := (placeLimit_mem_iff hdef).mp h
  refine ⟨order, hrequest, ?_⟩
  rcases hsends with ⟨-, reason, hslot⟩ | ⟨-, -, reason, hdecided⟩
  · rw [slotOrder, hslot]
    exact .inl rfl
  · exact .inr (decided_of_asked unarmed hdecided)

theorem fill_slot {orderIndex : Int} {size : ℚ} {l : List LighterMakerObs}
    {s' : LighterMakerTakerEngine} (h : FillMove cfg s orderIndex size l s') :
    slotOrder s' = slotOrder s := by
  cases h <;> rfl

/-! ### Runs -/

/-- A placement comes from the books of a tick. -/
def Sourced (cfg : EngineConfig) (es : List LighterMakerEvent) : LighterMakerObs → Prop
  | .placeLimit request _ => ∃ nowMs venues order, .tick nowMs venues ∈ es ∧
      Decided cfg (collectSnapshot cfg venues) order ∧ request = limitRequest cfg order
  | _ => True

theorem Sourced.mono {es fs : List LighterMakerEvent} {o : LighterMakerObs}
    (h : Sourced cfg es o) (hsub : es ⊆ fs) : Sourced cfg fs o := by
  cases o with
  | placeLimit request ack =>
    obtain ⟨nowMs, venues, order, hmem, hrest⟩ := h
    exact ⟨nowMs, venues, order, hsub hmem, hrest⟩
  | _ => trivial

structure FromBooks (cfg : EngineConfig) (es : List LighterMakerEvent) (l : List LighterMakerObs)
    (s : LighterMakerTakerEngine) : Prop where
  sent : ∀ o ∈ l, Sourced cfg es o
  waits : ∀ order, slotOrder s = some order → ∃ nowMs venues, .tick nowMs venues ∈ es ∧
    Decided cfg (collectSnapshot cfg venues) order

theorem FromBooks.step {es : List LighterMakerEvent} {l : List LighterMakerObs}
    (h : FromBooks cfg es l s) (hdef : DeferredMaker s)
    (unarmed : s.strategy.state = .idle → s.strategy.gate.armed = false) (e : LighterMakerEvent) :
    FromBooks cfg (es ++ [e]) (l ++ (LighterMakerTakerEngine.step cfg s e).2)
      (LighterMakerTakerEngine.step cfg s e).1 := by
  have hsub : es ⊆ es ++ [e] := List.subset_append_left es [e]
  have hlast : e ∈ es ++ [e] := List.mem_append_right _ (List.mem_singleton_self e)
  have hsent : (∀ o ∈ (LighterMakerTakerEngine.step cfg s e).2, Sourced cfg (es ++ [e]) o) →
      ∀ o ∈ l ++ (LighterMakerTakerEngine.step cfg s e).2, Sourced cfg (es ++ [e]) o := by
    intro hnew o ho
    rcases List.mem_append.mp ho with ho | ho
    · exact (h.sent o ho).mono hsub
    · exact hnew o ho
  have hwaits : ∀ order, slotOrder s = some order → ∃ nowMs venues,
      .tick nowMs venues ∈ es ++ [e] ∧ Decided cfg (collectSnapshot cfg venues) order := by
    intro order hslot
    obtain ⟨nowMs, venues, hmem, hdecided⟩ := h.waits order hslot
    exact ⟨nowMs, venues, hsub hmem, hdecided⟩
  cases e with
  | tick nowMs venues =>
    refine ⟨hsent fun o ho => ?_, fun order hslot => ?_⟩
    · cases o with
      | placeLimit request ack =>
        obtain ⟨order, hrequest, hfrom⟩ := tick_sends hdef unarmed ho
        rcases hfrom with hslot | hdecided
        · obtain ⟨nowMs', venues', hmem, hdecided⟩ := hwaits order hslot
          exact ⟨nowMs', venues', order, hmem, hdecided, hrequest⟩
        · exact ⟨nowMs, venues, order, hlast, hdecided, hrequest⟩
      | _ => trivial
    · rcases tick_slot hdef unarmed hslot with hslot | hdecided
      · exact hwaits order hslot
      · exact ⟨nowMs, venues, hlast, hdecided⟩
  | fill fillPrice size snapshot orderIndex venues =>
    have hfill := @onLighterFill_fillMove cfg s fillPrice size snapshot orderIndex venues
    have hnone := hfill.sends_no_placement
    refine ⟨hsent fun o ho => ?_, fun order hslot => hwaits order ?_⟩
    · cases o with
      | placeLimit request ack =>
        rw [List.any_eq_false] at hnone
        exact absurd rfl (hnone _ ho)
      | _ => trivial
    · exact (fill_slot hfill).symm.trans hslot

end LighterMaker

end Arb
