import HlLighterArb.LighterMaker.Moves
import HlLighterArb.Maker.Fills

/-!
# HlLighterArb.Marketable

The prices of the Lighter IOCs. Both engines set a limit a fixed number of basis points through the
mid, and an IOC executes where its limit reaches the other side of the book.

* `Marketable book request`: the limit is through the touch of `book`.
* `IocPurpose.slippageBps`: the constant of each place in the source that sends one.
* `marketable_iff`: the two agree on the books no wider than the slippage, and on no others.
* `iocs_marketable_iff`: so for every IOC that either engine sends.
-/

namespace Arb

/-- Both sides are there, and do not cross. -/
def Bbo.Proper (b : Bbo) : Prop :=
  0 < b.bid ∧ b.bid ≤ b.ask

/-- From the mid to either side is at most `slippageBps`. -/
def Bbo.Within (b : Bbo) (slippageBps : ℚ) : Prop :=
  (b.ask - b.bid) * 10000 ≤ slippageBps * (b.ask + b.bid)

instance Bbo.decidableProper (b : Bbo) : Decidable b.Proper :=
  inferInstanceAs (Decidable (_ ∧ _))

instance Bbo.decidableWithin (b : Bbo) (slippageBps : ℚ) : Decidable (b.Within slippageBps) :=
  inferInstanceAs (Decidable (_ ≤ _))

/-- A sell at most at the bid, a buy at least at the ask. -/
def Marketable (book : Bbo) (request : LighterIocRequest) : Prop :=
  if request.isAsk then request.price ≤ book.bid else book.ask ≤ request.price

instance Marketable.decidable (book : Bbo) (request : LighterIocRequest) :
    Decidable (Marketable book request) := by
  unfold Marketable
  infer_instance

/-- `kSlippageBps` where an IOC is sent for the purpose; for `takerHedge`, which carries the price
of its intent, that of `aggressive_lighter_price`. -/
def IocPurpose.slippageBps : IocPurpose → ℚ
  | .hedge => 10
  | .correction => 10
  | .takerHedge => 10
  | .overshootUnwind => 15
  | .speculative => 15
  | .cancelUnwind => 15
  | .makerUnwind => 15

/-- The limit is the slippage of its purpose through the mid. -/
def PricedAt (mid : ℚ) (purpose : IocPurpose) (request : LighterIocRequest) : Prop :=
  request.price = takerPrice mid request.isAsk purpose.slippageBps

/-- A limit off the mid is through the touch of the books no wider than the slippage. -/
theorem marketable_iff {book : Bbo} {purpose : IocPurpose} {request : LighterIocRequest}
    (hbook : book.Proper) (hpriced : PricedAt book.mid purpose request) :
    Marketable book request ↔ book.Within purpose.slippageBps := by
  obtain ⟨hbid, hask⟩ := hbook
  have hmid : book.mid = (book.bid + book.ask) / 2 := Bbo.mid_of_pos hbid (hbid.trans_le hask)
  rw [PricedAt, hmid] at hpriced
  unfold Marketable Bbo.Within
  cases hside : request.isAsk with
  | true =>
    simp only [hside, takerPrice, if_true] at hpriced ⊢
    rw [hpriced]
    constructor <;> intro h <;> linarith
  | false =>
    simp only [hside, takerPrice, Bool.false_eq_true, if_false] at hpriced ⊢
    rw [hpriced]
    constructor <;> intro h <;> linarith

/-! ## The maker engine -/

/-- The Lighter book the call sees. -/
def MakerEvent.lighterBook (cfg : EngineConfig) : MakerEvent → Bbo
  | .tick _ venues => venues.lighter.getBbo cfg.lighterMarketId
  | .trade _ venues => venues.lighter.getBbo cfg.lighterMarketId
  | .fill _ _ snapshot _ _ _ => snapshot.lighter

section MakerEngine

open MakerHedgeEngine

/-- An IOC is priced off `mid`. -/
def MakerObs.Priced (mid : ℚ) : MakerObs → Prop
  | .ioc purpose request _ => PricedAt mid purpose request
  | _ => True

variable {cfg : EngineConfig} {s : MakerHedgeEngine} {venues : Venues} {mid : ℚ}

theorem executePlace_priced (steadyMs : Int) (reason : String) (order : PendingMakerOrder)
    (snapshot : SpreadSnapshot) :
    ∀ o ∈ (executePlaceHlMaker cfg venues steadyMs s reason order snapshot).calls,
      o.Priced mid := by
  unfold executePlaceHlMaker
  split_ifs
  · exact List.forall_mem_nil _
  · cases s.hlPlaceRetryAtMs cfg steadyMs with
    | some retryAt => exact List.forall_mem_nil _
    | none =>
      simp only
      split_ifs
      · exact List.forall_mem_singleton.mpr trivial
      · exact List.forall_mem_singleton.mpr trivial

theorem executeCancel_priced (steadyMs : Int) (reason : String) (order : PendingMakerOrder)
    (snapshot : SpreadSnapshot) :
    ∀ o ∈ (executeCancelHlMaker cfg venues steadyMs s reason order snapshot).calls,
      o.Priced snapshot.lighter.mid := by
  unfold executeCancelHlMaker
  cases s.hlCancelRetryAtMs cfg steadyMs with
  | some retryAt => exact List.forall_mem_nil _
  | none =>
    simp only
    cases s.activeHlOid with
    | none => exact List.forall_mem_nil _
    | some oid =>
      simp only
      split_ifs
      · exact List.forall_mem_cons.mpr ⟨trivial, List.forall_mem_singleton.mpr rfl⟩
      · exact List.forall_mem_singleton.mpr trivial
      · exact List.forall_mem_singleton.mpr trivial

theorem executeDeferred_priced (hdef : DeferredMaker s) (nowMs : Int) (snapshot : SpreadSnapshot) :
    ∀ o ∈ (executeDeferredHlAction cfg venues s nowMs snapshot).calls,
      o.Priced snapshot.lighter.mid := by
  unfold executeDeferredHlAction
  cases hslot : s.deferredHlAction with
  | none => exact List.forall_mem_nil _
  | some action =>
    simp only
    split_ifs
    · rcases hdef action hslot with ⟨reason, order, rfl⟩ | ⟨reason, order, rfl⟩
      · exact executePlace_priced _ reason order snapshot
      · exact executeCancel_priced _ reason order snapshot
    · exact List.forall_mem_nil _

theorem runStrategy_priced (nowMs : Int) (snapshot : SpreadSnapshot) :
    ∀ o ∈ (runStrategy cfg venues s nowMs snapshot).calls, o.Priced snapshot.lighter.mid := by
  have hd := HlMakerLighterHedger.onMarketSnapshot_decided cfg.strategy s.strategy snapshot nowMs
    s.hlPositionBase
  unfold runStrategy
  generalize HlMakerLighterHedger.onMarketSnapshot cfg.strategy s.strategy snapshot nowMs
    s.hlPositionBase = r at hd ⊢
  obtain ⟨h, action⟩ := r
  cases hd with
  | quiet => exact List.forall_mem_nil _
  | place reason _ _ _ _ act =>
    simp only at act
    subst act
    simp only [HlMakerLighterHedger.leg]
    split_ifs
    · exact List.forall_mem_nil _
    · exact executePlace_priced _ reason _ snapshot
  | cancel reason _ _ _ _ _ _ _ act =>
    simp only at act
    subst act
    exact executeCancel_priced _ reason _ snapshot

theorem onMarketData_priced (hdef : DeferredMaker s) (nowMs : Int) :
    ∀ o ∈ (onMarketData cfg venues s nowMs).calls,
      o.Priced (collectSnapshot cfg venues).lighter.mid := by
  have hdeferred := @executeDeferred_priced cfg s venues hdef nowMs (collectSnapshot cfg venues)
  simp only [onMarketData]
  split_ifs
  · exact List.forall_mem_append.mpr ⟨hdeferred, runStrategy_priced nowMs _⟩
  · exact hdeferred

theorem onTradeEvent_priced (trade : TradeEvent) :
    ∀ o ∈ (onTradeEvent cfg venues s trade).calls,
      o.Priced (collectSnapshot cfg venues).lighter.mid := by
  unfold onTradeEvent
  cases s.activeHlOid with
  | none => exact List.forall_mem_nil _
  | some oid =>
    cases s.strategy.pendingMaker with
    | none => exact List.forall_mem_nil _
    | some order =>
      simp only
      split_ifs
      · exact List.forall_mem_nil _
      · exact List.forall_mem_nil _
      · simp only [sendSpeculative]
        split_ifs
        · exact List.forall_mem_singleton.mpr rfl
        · exact List.forall_mem_singleton.mpr rfl
      · exact List.forall_mem_nil _
      · exact List.forall_mem_nil _

theorem onHlFill_priced (fillPrice size : ℚ) (snapshot : SpreadSnapshot) (oid : String)
    (hlFee : ℚ) :
    ∀ o ∈ (onHlFill cfg venues s fillPrice size snapshot oid hlFee).calls,
      o.Priced snapshot.lighter.mid := by
  unfold onHlFill
  cases s.fillPath oid size with
  | unknownOid => exact List.forall_mem_nil _
  | perfectMatch => exact List.forall_mem_nil _
  | correction => exact List.forall_mem_singleton.mpr rfl
  | overshoot => exact List.forall_mem_singleton.mpr rfl
  | hedge =>
    simp only
    generalize hack : venues.lighter.placeIocOrder
      (iocRequest cfg snapshot s.lastMakerDirection.isBuyHl 10 size) = ack
    by_cases hfilled : ack.ok ∧ ack.fillConfirmed
    · rw [(hedgeFill_filled fillPrice size snapshot oid hlFee hack hfilled).2]
      exact List.forall_mem_singleton.mpr rfl
    · rw [(hedgeFill_unfilled fillPrice size snapshot oid hlFee hack hfilled).2]
      exact List.forall_mem_cons.mpr ⟨rfl, List.forall_mem_singleton.mpr trivial⟩

theorem step_priced (hdef : DeferredMaker s) (e : MakerEvent) :
    ∀ o ∈ (step cfg s e).2, o.Priced (e.lighterBook cfg).mid := by
  cases e with
  | tick nowMs venues => exact onMarketData_priced hdef nowMs
  | trade trade venues => exact onTradeEvent_priced trade
  | fill fillPrice size snapshot oid hlFee venues =>
    exact List.forall_mem_cons.mpr ⟨trivial, onHlFill_priced fillPrice size snapshot oid hlFee⟩

end MakerEngine

/-! ## The Lighter-maker engine -/

/-- The Lighter book the call sees. -/
def LighterMakerEvent.lighterBook (cfg : EngineConfig) : LighterMakerEvent → Bbo
  | .tick _ venues => venues.lighter.getBbo cfg.lighterMarketId
  | .fill _ _ snapshot _ _ => snapshot.lighter

/-- An IOC is priced off `mid`. -/
def LighterMakerObs.Priced (mid : ℚ) : LighterMakerObs → Prop
  | .ioc purpose request _ => PricedAt mid purpose request
  | _ => True

namespace LighterMaker

open LighterMakerTakerEngine

variable {cfg : EngineConfig} {s : LighterMakerTakerEngine} {venues : Venues} {mid : ℚ}

theorem executePlace_priced (steadyMs : Int) (reason : String) (order : PendingMakerOrder) :
    ∀ o ∈ (executePlaceLighterMaker cfg venues steadyMs s reason order).calls, o.Priced mid := by
  unfold executePlaceLighterMaker
  cases s.lighterPlaceRetryAtMs cfg steadyMs with
  | some retryAt => exact List.forall_mem_nil _
  | none =>
    simp only
    split_ifs
    · exact List.forall_mem_singleton.mpr trivial
    · exact List.forall_mem_singleton.mpr trivial

theorem executeCancel_priced (steadyMs : Int) (reason : String) (order : PendingMakerOrder) :
    ∀ o ∈ (executeCancelLighterMaker cfg venues steadyMs s reason order).calls, o.Priced mid := by
  unfold executeCancelLighterMaker
  cases s.lighterCancelRetryAtMs cfg steadyMs with
  | some retryAt => exact List.forall_mem_nil _
  | none =>
    simp only
    cases s.activeLighterOrderIndex with
    | none => exact List.forall_mem_nil _
    | some orderIndex => exact List.forall_mem_singleton.mpr trivial

theorem executeSendHlTakerHedge_priced (intent : HlHedgeIntent) (snapshot : SpreadSnapshot) :
    ∀ o ∈ (executeSendHlTakerHedge cfg venues s intent snapshot).calls,
      o.Priced snapshot.lighter.mid := by
  obtain ⟨-, ack, ⟨-, hcalls⟩ | ⟨-, unwindAck, hcalls⟩⟩ :=
    @executeSendHlTakerHedge_cases cfg s venues intent snapshot
  · rw [hcalls]
    exact List.forall_mem_singleton.mpr trivial
  · rw [hcalls]
    exact List.forall_mem_cons.mpr ⟨trivial, List.forall_mem_singleton.mpr rfl⟩

/-- Whatever the action, and whatever the state it is executed in. -/
theorem executeAction_priced (steadyMs : Int) (action : Action) (snapshot : SpreadSnapshot) :
    ∀ o ∈ (executeAction cfg venues steadyMs s action snapshot).calls,
      o.Priced snapshot.lighter.mid := by
  cases action with
  | placeLighterMaker reason order => exact executePlace_priced steadyMs reason order
  | cancelLighterMaker reason order => exact executeCancel_priced steadyMs reason order
  | sendHlTakerHedge reason intent => exact executeSendHlTakerHedge_priced intent snapshot
  | unwindLighterPosition reason => exact List.forall_mem_singleton.mpr rfl
  | _ => exact List.forall_mem_nil _

theorem executeDeferred_priced (nowMs : Int) (snapshot : SpreadSnapshot) :
    ∀ o ∈ (executeDeferredLighterAction cfg venues s nowMs snapshot).calls,
      o.Priced snapshot.lighter.mid := by
  unfold executeDeferredLighterAction
  cases s.deferredLighterAction with
  | none => exact List.forall_mem_nil _
  | some action =>
    simp only
    split_ifs
    · exact executeAction_priced _ action snapshot
    · exact List.forall_mem_nil _

theorem step_priced (e : LighterMakerEvent) :
    ∀ o ∈ (step cfg s e).2, o.Priced (e.lighterBook cfg).mid := by
  cases e with
  | tick nowMs venues =>
    have hdeferred := @executeDeferred_priced cfg s venues nowMs (collectSnapshot cfg venues)
    simp only [step, onMarketData]
    split_ifs
    · exact List.forall_mem_append.mpr
        ⟨hdeferred, executeAction_priced _ _ (collectSnapshot cfg venues)⟩
    · exact hdeferred
  | fill fillPrice size snapshot orderIndex venues =>
    refine List.forall_mem_cons.mpr ⟨trivial, ?_⟩
    unfold onLighterFill
    split_ifs
    · exact executeAction_priced _ _ snapshot
    · exact List.forall_mem_nil _

end LighterMaker

/-- A Lighter IOC sent on a proper book is marketable exactly when the book is within the slippage
of its purpose: over every run of either engine, and in any call of the Lighter maker's
`execute_action`, which also covers the unwind that no run reaches. -/
theorem iocs_marketable_iff (cfg : EngineConfig) (journalAttached : Bool) :
    (∀ (p₀ : ℚ) (es : List MakerEvent) (e : MakerEvent), (e.lighterBook cfg).Proper →
      ∀ purpose request ack, .ioc purpose request ack ∈
          (MakerHedgeEngine.step cfg ((MakerHedgeEngine.machine cfg).final
            (MakerHedgeEngine.start journalAttached p₀) es) e).2 →
        (Marketable (e.lighterBook cfg) request ↔
          (e.lighterBook cfg).Within purpose.slippageBps)) ∧
    (∀ (es : List LighterMakerEvent) (e : LighterMakerEvent), (e.lighterBook cfg).Proper →
      ∀ purpose request ack, .ioc purpose request ack ∈
          (LighterMakerTakerEngine.step cfg ((LighterMakerTakerEngine.machine cfg).final
            (LighterMakerTakerEngine.start journalAttached) es) e).2 →
        (Marketable (e.lighterBook cfg) request ↔
          (e.lighterBook cfg).Within purpose.slippageBps)) ∧
    ∀ (s : LighterMakerTakerEngine) (venues : Venues) (steadyMs : Int) (action : Action)
        (snapshot : SpreadSnapshot), snapshot.lighter.Proper →
      ∀ purpose request ack, .ioc purpose request ack ∈
          (LighterMakerTakerEngine.executeAction cfg venues steadyMs s action snapshot).calls →
        (Marketable snapshot.lighter request ↔ snapshot.lighter.Within purpose.slippageBps) := by
  refine ⟨fun p₀ es e hbook purpose request ack hmem => ?_,
    fun es e hbook purpose request ack hmem => ?_,
    fun s venues steadyMs action snapshot hbook purpose request ack hmem => ?_⟩
  · have hdef := (followsOrder_always cfg journalAttached p₀ es).last.1
    exact marketable_iff hbook (step_priced hdef e _ hmem)
  · exact marketable_iff hbook (LighterMaker.step_priced e _ hmem)
  · exact marketable_iff hbook (LighterMaker.executeAction_priced steadyMs action snapshot _ hmem)

/-- A mid of 2000 quoted two wide is 5 bps to either side. -/
theorem narrow_hedge_marketable :
    Marketable (bookAround 2000) (MakerHedgeEngine.iocRequest sampleConfig
      (spreadSnapshot (bookAround 100) (bookAround 2000)) true 10 1) :=
  ((iocs_marketable_iff sampleConfig false).1 0 [tickUp 1000 "1"]
    (.fill 100 1 (spreadSnapshot (bookAround 100) (bookAround 2000)) "1" 0
      (obligingVenues 100 2000 0 "")) (by decide +kernel) .hedge _
    { ok := true, fillConfirmed := true, confirmedSize := 1, fillPrice := 2000 }
    (by decide +kernel)).mpr (by decide +kernel)

/-- A mid of 110 quoted two wide: 15 bps through it is still short of the bid. -/
theorem hedge_not_marketable :
    ¬ ∀ (cfg : EngineConfig) (es : List MakerEvent) (e : MakerEvent), (e.lighterBook cfg).Proper →
      ∀ purpose request ack, .ioc purpose request ack ∈
          (MakerHedgeEngine.step cfg
            ((MakerHedgeEngine.machine cfg).final (MakerHedgeEngine.start false 0) es) e).2 →
        Marketable (e.lighterBook cfg) request := by
  intro hall
  have hmem : MakerObs.ioc .hedge (MakerHedgeEngine.iocRequest sampleConfig
      (spreadSnapshot (bookAround 100) (bookAround 110)) true 10 1)
      { ok := true, fillConfirmed := true, confirmedSize := 1, fillPrice := 110 } ∈
      (MakerHedgeEngine.step sampleConfig ((MakerHedgeEngine.machine sampleConfig).final
        (MakerHedgeEngine.start false 0) [tickUp 1000 "1"]) (fillOf "1" 1)).2 := by decide +kernel
  exact absurd (hall sampleConfig [tickUp 1000 "1"] (fillOf "1" 1) (by decide +kernel) _ _ _ hmem)
    (by decide +kernel)

end Arb
