import HlLighterArb.Maker.Fills

/-!
# HlLighterArb.Maker.IocSizes

The sizes of the Lighter orders the maker engine sends. An order is as large as a positive pair size
makes it, the speculative hedge as large as the order, and a cancel takes back what the hedge was;
the sizes of the reconciliation are differences. `on_hl_fill` compares a difference with 0.001 by
`<` and `>` only, so a fill of exactly 0.001 more than the hedge is neither a match nor a
correction and falls into the overshoot branch, where the size is its negative.

* `Sized`: the pending order and an outstanding hedge have positive sizes.
* `ioc_sizes_iff`: a run sends positive sizes only, exactly when no fill lies 0.001 above its hedge.
-/

namespace Arb

open MakerHedgeEngine

/-- The strategy holds no order of size zero or less. -/
def Hedger.Sized (h : Hedger) : Prop :=
  ∀ order, h.pendingMaker = some order → 0 < order.sizeBase

/-- The pending order and the outstanding speculative hedge have positive sizes. -/
structure Sized (s : MakerHedgeEngine) : Prop where
  pending : s.strategy.Sized
  hedge : s.speculativeHedgeSent = true → 0 < s.speculativeHedgeSize

/-- Every Lighter order in the list asks for a positive size. -/
def PositiveIocs (l : List MakerObs) : Prop :=
  ∀ purpose request ack, .ioc purpose request ack ∈ l → 0 < request.size

/-- The fill is one of the order with the outstanding hedge, and exactly 0.001 larger. -/
def OnTolerance (s : MakerHedgeEngine) : MakerEvent → Prop
  | .fill _ size _ oid _ _ => oid ∈ s.recentlyPlacedOids ∧ s.speculativeHedgeSent = true ∧
      oid = s.speculativeHedgeOid ∧ size - s.speculativeHedgeSize = 0.001
  | _ => False

theorem positiveIocs_append {l l' : List MakerObs} :
    PositiveIocs (l ++ l') ↔ PositiveIocs l ∧ PositiveIocs l' := by
  constructor
  · intro h
    exact ⟨fun p r a hmem => h p r a (List.mem_append_left _ hmem),
      fun p r a hmem => h p r a (List.mem_append_right _ hmem)⟩
  · rintro ⟨hl, hl'⟩ p r a hmem
    rcases List.mem_append.mp hmem with hmem | hmem
    · exact hl p r a hmem
    · exact hl' p r a hmem

theorem positiveIocs_nil : PositiveIocs [] := fun _ _ _ hmem => by cases hmem

theorem positiveIocs_cons_plain {o : MakerObs} {l : List MakerObs}
    (h : ∀ purpose request ack, o ≠ .ioc purpose request ack) :
    PositiveIocs (o :: l) ↔ PositiveIocs l := by
  constructor
  · exact fun hl p r a hmem => hl p r a (List.mem_cons_of_mem _ hmem)
  · intro hl p r a hmem
    rcases List.mem_cons.mp hmem with heq | hmem
    · exact absurd heq.symm (h p r a)
    · exact hl p r a hmem

theorem positiveIocs_cons_ioc {purpose : IocPurpose} {request : LighterIocRequest}
    {ack : LighterIocAck} {l : List MakerObs} :
    PositiveIocs (.ioc purpose request ack :: l) ↔ 0 < request.size ∧ PositiveIocs l := by
  constructor
  · exact fun hl => ⟨hl purpose request ack (List.mem_cons_self ..),
      fun p r a hmem => hl p r a (List.mem_cons_of_mem _ hmem)⟩
  · rintro ⟨hsize, hl⟩ p r a hmem
    rcases List.mem_cons.mp hmem with heq | hmem
    · cases heq
      exact hsize
    · exact hl p r a hmem

/-! ## The order -/

theorem Hedger.Sized.of_none {h : Hedger} (hnone : h.pendingMaker = none) : h.Sized := by
  intro order horder
  rw [hnone] at horder
  cases horder

theorem Hedger.Sized.congr {h h' : Hedger} (hs : h.Sized) (heq : h'.pendingMaker = h.pendingMaker) :
    h'.Sized :=
  fun order horder => hs order (heq ▸ horder)

/-- With positive mids a positive pair size is a positive base size. -/
theorem pairSizeBase_pos {cfg : HedgerConfig} {snapshot : SpreadSnapshot} {age : Int}
    (hpair : 0 < cfg.pairSizeUsd) (hvalid : snapshot.valid age = true) :
    0 < pairSizeBase cfg snapshot := by
  obtain ⟨hlighter, hhl, -⟩ := SpreadSnapshot.valid_iff.mp hvalid
  have havg : 0 < (snapshot.lighter.mid + snapshot.hl.mid) / 2 := by linarith
  rw [pairSizeBase]
  simp only [if_pos havg]
  exact div_pos hpair havg

theorem onMarketSnapshot_sized {cfg : HedgerConfig} {h : Hedger} (hpair : 0 < cfg.pairSizeUsd)
    (hs : h.Sized) (snapshot : SpreadSnapshot) (nowMs : Int) (pos : ℚ) :
    (HlMakerLighterHedger.onMarketSnapshot cfg h snapshot nowMs pos).1.Sized := by
  have hd := HlMakerLighterHedger.onMarketSnapshot_decided cfg h snapshot nowMs pos
  by_cases hvalid : snapshot.valid cfg.maxQuoteAgeMs = true
  · generalize HlMakerLighterHedger.onMarketSnapshot cfg h snapshot nowMs pos = r at hd ⊢
    obtain ⟨h', action⟩ := r
    cases hd with
    | quiet _ pending => exact hs.congr pending
    | place _ _ _ pending =>
      intro order horder
      rw [pending] at horder
      cases horder
      exact pairSizeBase_pos hpair hvalid
    | cancel _ _ wasOrder _ pending => exact hs.congr (pending.trans wasOrder.symm)
  · rw [HlMakerLighterHedger.onMarketSnapshot_eq, Hedger.onSnapshot, if_neg hvalid]
    exact hs

/-! ## Ticks -/

/-- An outcome that leaves positive sizes and sent only positive ones. -/
structure SizedOut (out : MakerOutcome) : Prop where
  state : Sized out.state
  calls : PositiveIocs out.calls

section Ticks

variable {cfg : EngineConfig} {s : MakerHedgeEngine} {venues : Venues}

theorem Sized.resetStrategy (h : Sized s) : Sized s.resetStrategy :=
  ⟨.of_none rfl, h.hedge⟩

theorem executePlace_sized (h : Sized s) (steadyMs : Int) (reason : String)
    (order : PendingMakerOrder) (snapshot : SpreadSnapshot) :
    SizedOut (executePlaceHlMaker cfg venues steadyMs s reason order snapshot) := by
  unfold executePlaceHlMaker
  split_ifs
  · exact ⟨h.resetStrategy, positiveIocs_nil⟩
  · cases s.hlPlaceRetryAtMs cfg steadyMs with
    | some retryAt => exact ⟨⟨h.pending, h.hedge⟩, positiveIocs_nil⟩
    | none =>
      have hplace : ∀ request ack, PositiveIocs [.placeLimit request ack] := fun request ack =>
        (positiveIocs_cons_plain (by simp)).mpr positiveIocs_nil
      simp only
      split_ifs
      · exact ⟨⟨h.pending, fun hsent => by cases hsent⟩, hplace _ _⟩
      · exact ⟨⟨h.pending, h.hedge⟩, hplace _ _⟩

theorem executeCancel_sized (h : Sized s) (steadyMs : Int) (reason : String)
    (order : PendingMakerOrder) (snapshot : SpreadSnapshot) :
    SizedOut (executeCancelHlMaker cfg venues steadyMs s reason order snapshot) := by
  unfold executeCancelHlMaker
  cases s.hlCancelRetryAtMs cfg steadyMs with
  | some retryAt => exact ⟨⟨h.pending, h.hedge⟩, positiveIocs_nil⟩
  | none =>
    have hcancel : ∀ {oid ack l}, PositiveIocs l → PositiveIocs (.cancel oid ack :: l) :=
      fun hl => (positiveIocs_cons_plain (by simp)).mpr hl
    cases s.activeHlOid with
    | none =>
      simp only
      exact ⟨⟨h.pending, h.hedge⟩, positiveIocs_nil⟩
    | some oid =>
      simp only
      split_ifs with hack hsent
      · exact ⟨⟨.of_none rfl, fun hs => by cases hs⟩,
          hcancel (positiveIocs_cons_ioc.mpr ⟨h.hedge hsent, positiveIocs_nil⟩)⟩
      · exact ⟨⟨.of_none rfl, fun hs => by cases hs⟩, hcancel positiveIocs_nil⟩
      · exact ⟨⟨h.pending, h.hedge⟩, hcancel positiveIocs_nil⟩

theorem executeDeferred_sized (hdef : DeferredMaker s) (h : Sized s) (nowMs : Int)
    (snapshot : SpreadSnapshot) :
    SizedOut (executeDeferredHlAction cfg venues s nowMs snapshot) := by
  unfold executeDeferredHlAction
  cases hslot : s.deferredHlAction with
  | none => exact ⟨h, positiveIocs_nil⟩
  | some action =>
    simp only
    split_ifs
    · rcases hdef action hslot with ⟨reason, order, rfl⟩ | ⟨reason, order, rfl⟩
      · exact executePlace_sized (s := s.takeDeferred) ⟨h.pending, h.hedge⟩ _ reason order snapshot
      · exact executeCancel_sized (s := s.takeDeferred) ⟨h.pending, h.hedge⟩ _ reason order snapshot
    · exact ⟨h, positiveIocs_nil⟩

theorem runStrategy_sized (hpair : 0 < cfg.strategy.pairSizeUsd) (h : Sized s) (nowMs : Int)
    (snapshot : SpreadSnapshot) : SizedOut (runStrategy cfg venues s nowMs snapshot) := by
  have hd := HlMakerLighterHedger.onMarketSnapshot_decided cfg.strategy s.strategy snapshot nowMs
    s.hlPositionBase
  have hsized := onMarketSnapshot_sized hpair h.pending snapshot nowMs s.hlPositionBase
  unfold runStrategy
  generalize HlMakerLighterHedger.onMarketSnapshot cfg.strategy s.strategy snapshot nowMs
    s.hlPositionBase = r at hd hsized ⊢
  obtain ⟨strategy, action⟩ := r
  have hnext : Sized { s with strategy } := ⟨hsized, h.hedge⟩
  cases hd with
  | quiet => exact ⟨hnext, positiveIocs_nil⟩
  | place reason _ _ _ _ act =>
    simp only at act
    subst act
    simp only [HlMakerLighterHedger.leg]
    split_ifs
    · exact ⟨hnext.resetStrategy, positiveIocs_nil⟩
    · exact executePlace_sized hnext _ reason _ snapshot
  | cancel reason _ _ _ _ _ _ _ act =>
    simp only at act
    subst act
    exact executeCancel_sized hnext _ reason _ snapshot

theorem onMarketData_sized (hpair : 0 < cfg.strategy.pairSizeUsd) (hdef : DeferredMaker s)
    (h : Sized s) (nowMs : Int) : SizedOut (onMarketData cfg venues s nowMs) := by
  have hdeferred := @executeDeferred_sized cfg s venues hdef h nowMs (collectSnapshot cfg venues)
  simp only [onMarketData]
  split_ifs
  · have hdecided := @runStrategy_sized cfg _ venues hpair hdeferred.state nowMs
      (collectSnapshot cfg venues)
    exact ⟨hdecided.state, positiveIocs_append.mpr ⟨hdeferred.calls, hdecided.calls⟩⟩
  · exact hdeferred

end Ticks

/-! ## Trades and fills -/

section Steps

variable {cfg : EngineConfig} {s : MakerHedgeEngine} {venues : Venues}

theorem onTradeEvent_sized (h : Sized s) (trade : TradeEvent) :
    SizedOut (onTradeEvent cfg venues s trade) := by
  have hidle : SizedOut { state := s } := ⟨h, positiveIocs_nil⟩
  unfold onTradeEvent
  cases s.activeHlOid with
  | none => exact hidle
  | some oid =>
    cases hpending : s.strategy.pendingMaker with
    | none => exact hidle
    | some order =>
      have hsize : 0 < order.sizeBase := h.pending order hpending
      have hcalls : ∀ ack, PositiveIocs [.ioc .speculative (iocRequest cfg
          (collectSnapshot cfg venues) order.direction.isBuyHl 15 order.sizeBase) ack] :=
        fun ack => positiveIocs_cons_ioc.mpr ⟨hsize, positiveIocs_nil⟩
      simp only
      split_ifs
      · exact hidle
      · exact hidle
      · simp only [sendSpeculative]
        split_ifs
        · exact ⟨⟨h.pending, fun _ => hsize⟩, hcalls _⟩
        · exact ⟨⟨h.pending, fun hsent => by cases hsent⟩, hcalls _⟩
      · exact hidle
      · exact ⟨⟨h.pending, h.hedge⟩, positiveIocs_nil⟩

/-- An overshoot is one of the order with the outstanding hedge, and not less than 0.001 away. -/
theorem overshoot_path {oid : String} {size : ℚ} (hpath : s.fillPath oid size = .overshoot) :
    oid ∈ s.recentlyPlacedOids ∧ s.speculativeHedgeSent = true ∧ oid = s.speculativeHedgeOid ∧
      ¬ |size - s.speculativeHedgeSize| < 0.001 ∧ ¬ 0.001 < size - s.speculativeHedgeSize := by
  unfold fillPath at hpath
  split_ifs at hpath with hknown hspec hmatch habove
  exact ⟨hknown, hspec.1, hspec.2, hmatch, habove⟩

/-- An overshoot takes back a positive size unless the fill lies 0.001 above the hedge. -/
theorem overshoot_size_iff {oid : String} {size : ℚ} (hpath : s.fillPath oid size = .overshoot) :
    0 < -(size - s.speculativeHedgeSize) ↔ size - s.speculativeHedgeSize ≠ 0.001 := by
  obtain ⟨-, -, -, hmatch, habove⟩ := overshoot_path hpath
  constructor
  · intro hpos heq
    rw [heq] at hpos
    norm_num at hpos
  · intro hne
    rcases abs_cases (size - s.speculativeHedgeSize) with ⟨habs, -⟩ | ⟨-, hneg⟩
    · rw [habs] at hmatch
      exact absurd (le_antisymm (not_lt.mp habove) (not_lt.mp hmatch)) hne
    · linarith

theorem OnTolerance.overshoot {fillPrice size hlFee : ℚ} {snapshot : SpreadSnapshot} {oid : String}
    (h : OnTolerance s (.fill fillPrice size snapshot oid hlFee venues)) :
    s.fillPath oid size = .overshoot := by
  obtain ⟨hknown, hsent, hoid, hdiff⟩ := h
  rw [fillPath, if_neg (not_not.mpr hknown), if_pos ⟨hsent, hoid⟩, hdiff]
  norm_num

theorem FillMove.sized {s' : MakerHedgeEngine} {oid : String} {size : ℚ} {l : List MakerObs}
    (hm : FillMove cfg s oid size l s') (h : Sized s) : Sized s' := by
  have hreset : ∀ {t : MakerHedgeEngine}, t.speculativeHedgeSent = false →
      t.strategy.pendingMaker = none → Sized t := by
    intro t hsent hnone
    exact ⟨.of_none hnone, fun hs => by rw [hsent] at hs; cases hs⟩
  cases hm with
  | unknown => exact h
  | perfect => exact hreset rfl rfl
  | correction => exact hreset rfl rfl
  | overshoot => exact ⟨h.pending, fun hs => by cases hs⟩
  | hedged => exact ⟨.of_none rfl, h.hedge⟩
  | unwound => exact ⟨.of_none rfl, h.hedge⟩

/-- A fill of positive size sends positive sizes unless it lies 0.001 above its hedge. -/
theorem FillMove.positive_iff {s' : MakerHedgeEngine} {fillPrice size hlFee : ℚ}
    {snapshot : SpreadSnapshot} {oid : String} {l : List MakerObs}
    (hm : FillMove cfg s oid size l s') (hsize : 0 < size) :
    PositiveIocs l ↔ ¬ OnTolerance s (.fill fillPrice size snapshot oid hlFee venues) := by
  have hother : s.fillPath oid size ≠ .overshoot →
      ¬ OnTolerance s (.fill fillPrice size snapshot oid hlFee venues) :=
    fun hne hon => hne hon.overshoot
  have hfill : ∀ {path l}, PositiveIocs (.fill oid size path :: l) ↔ PositiveIocs l :=
    positiveIocs_cons_plain (by simp)
  cases hm with
  | unknown path => exact iff_of_true (hfill.mpr positiveIocs_nil) (hother (by rw [path]; simp))
  | perfect path => exact iff_of_true (hfill.mpr positiveIocs_nil) (hother (by rw [path]; simp))
  | correction path snapshot' ack =>
    refine iff_of_true (hfill.mpr (positiveIocs_cons_ioc.mpr ⟨?_, positiveIocs_nil⟩))
      (hother (by rw [path]; simp))
    have habove : 0.001 < size - s.speculativeHedgeSize := by
      unfold fillPath at path
      split_ifs at path with _ _ _ habove
      exact habove
    exact lt_trans (by norm_num) habove
  | overshoot path snapshot' ack =>
    obtain ⟨hknown, hsent, hoid, -⟩ := overshoot_path path
    rw [hfill, positiveIocs_cons_ioc, and_iff_left positiveIocs_nil]
    refine (overshoot_size_iff path).trans ?_
    exact not_congr ⟨fun hdiff => ⟨hknown, hsent, hoid, hdiff⟩, fun hon => hon.2.2.2⟩
  | hedged path =>
    exact iff_of_true (hfill.mpr (positiveIocs_cons_ioc.mpr ⟨hsize, positiveIocs_nil⟩))
      (hother (by rw [path]; simp))
  | unwound path =>
    have hreduce : ∀ isBuy ack, PositiveIocs [.reduce isBuy size ack] := fun isBuy ack =>
      (positiveIocs_cons_plain (by simp)).mpr positiveIocs_nil
    exact iff_of_true (hfill.mpr (positiveIocs_cons_ioc.mpr ⟨hsize, hreduce _ _⟩))
      (hother (by rw [path]; simp))

end Steps

/-! ## Runs -/

/-- The fill messages of the run have positive sizes. -/
def PositiveFills (es : List MakerEvent) : Prop :=
  ∀ e ∈ es, ∀ oid size, e.Delivers oid size → 0 < size

theorem PositiveFills.delivers {es pre : List MakerEvent} {e : MakerEvent} (h : PositiveFills es)
    (hp : pre ++ [e] <+: es) : ∀ oid size, e.Delivers oid size → 0 < size :=
  h e (hp.subset (by simp))

/-- What every step with a positive fill keeps holds always in a run of positive fills. -/
theorem PositiveFills.always {cfg : EngineConfig} {journalAttached : Bool} {p₀ : ℚ}
    {es : List MakerEvent} {P : List MakerObs → MakerHedgeEngine → Prop} (h : PositiveFills es)
    (h0 : P [] (start journalAttached p₀))
    (hstep : ∀ l s e, DeferredMaker s → P l s → (∀ oid size, e.Delivers oid size → 0 < size) →
      P (l ++ (step cfg s e).2) (step cfg s e).1) :
    (machine cfg).Always (start journalAttached p₀) (fun l s => DeferredMaker s ∧ P l s) es := by
  have hboth : (machine cfg).Always (start journalAttached p₀)
      (fun l s => (DeferredMaker s ∧ FollowsOrder (orderLife l) s) ∧ P l s) es := by
    refine EventMachine.always_of_throughout
      (C := fun _ _ (e : MakerEvent) => ∀ oid size, e.Delivers oid size → 0 < size)
      ⟨⟨.of_none rfl, followsOrder_start journalAttached p₀⟩, h0⟩ ?_ fun _ _ hp => h.delivers hp
    rintro l s e ⟨⟨hdef, hfollows⟩, hP⟩ he
    exact ⟨followsOrder_step hdef hfollows e, hstep l s e hdef hP he⟩
  exact hboth.mono fun _ _ hls => ⟨hls.1.1, hls.2⟩

/-- What a step keeps, and when it sends positive sizes only. -/
theorem step_sized {cfg : EngineConfig} {s : MakerHedgeEngine}
    (hpair : 0 < cfg.strategy.pairSizeUsd) (hdef : DeferredMaker s) (h : Sized s) {e : MakerEvent}
    (hfill : ∀ oid size, e.Delivers oid size → 0 < size) :
    Sized (step cfg s e).1 ∧ (PositiveIocs (step cfg s e).2 ↔ ¬ OnTolerance s e) := by
  cases e with
  | tick nowMs venues =>
    have hout := @onMarketData_sized cfg s venues hpair hdef h nowMs
    exact ⟨hout.state, iff_of_true hout.calls id⟩
  | trade trade venues =>
    have hout := @onTradeEvent_sized cfg s venues h trade
    exact ⟨hout.state, iff_of_true hout.calls id⟩
  | fill fillPrice size snapshot oid hlFee venues =>
    have hmove := @onHlFill_fillMove cfg s fillPrice size snapshot oid hlFee venues
    exact ⟨hmove.sized h, hmove.positive_iff (hfill oid size ⟨rfl, rfl⟩)⟩

/-- A run with a positive pair size and positive fills asks Lighter for positive sizes only, exactly
when no fill lies 0.001 above the hedge outstanding for its order. -/
theorem ioc_sizes_iff (cfg : EngineConfig) (hpair : 0 < cfg.strategy.pairSizeUsd)
    (journalAttached : Bool) (p₀ : ℚ) (es : List MakerEvent) (hfills : PositiveFills es) :
    PositiveIocs ((machine cfg).obs (start journalAttached p₀) es) ↔
      (machine cfg).Throughout (start journalAttached p₀) (fun _ s e => ¬ OnTolerance s e) es := by
  have hinv : (machine cfg).Always (start journalAttached p₀)
      (fun _ s => DeferredMaker s ∧ Sized s) es :=
    hfills.always ⟨.of_none rfl, fun hs => by cases hs⟩ fun _ _ _ hdef hs he =>
      (step_sized hpair hdef hs he).1
  have hstep : ∀ pre e, pre ++ [e] <+: es →
      (PositiveIocs ((machine cfg).step ((machine cfg).final (start journalAttached p₀) pre) e).2 ↔
        ¬ OnTolerance ((machine cfg).final (start journalAttached p₀) pre) e) := by
    intro pre e hp
    obtain ⟨hdef, hs⟩ := hinv.before hp
    exact (step_sized hpair hdef hs (hfills.delivers hp)).2
  rw [EventMachine.obs_iff_throughout positiveIocs_nil fun _ _ => positiveIocs_append]
  constructor
  · intro h pre e hp
    exact (hstep pre e hp).mp (h pre e hp)
  · intro h pre e hp
    exact (hstep pre e hp).mpr (h pre e hp)

instance (s : MakerHedgeEngine) : (e : MakerEvent) → Decidable (OnTolerance s e)
  | .fill _ size _ oid _ _ => inferInstanceAs (Decidable (oid ∈ s.recentlyPlacedOids ∧
      s.speculativeHedgeSent = true ∧ oid = s.speculativeHedgeOid ∧
      size - s.speculativeHedgeSize = 0.001))
  | .tick _ _ => .isFalse id
  | .trade _ _ => .isFalse id

/-- An order hedged ahead of its fill, filled in part, and hedged for the rest. -/
theorem ioc_sizes_partial :
    PositiveIocs ((machine sampleConfig).obs (start false 0)
      [tickUp 1000 "1", crossingTrade, fillOf "1" 0.25, fillOf "1" 0.75]) := by
  refine (ioc_sizes_iff sampleConfig (by decide +kernel) false 0 _ ?_).mpr (by decide +kernel)
  intro e he oid size hdelivers
  simp only [List.mem_cons, List.not_mem_nil, or_false] at he
  rcases he with rfl | rfl | rfl | rfl
  · exact hdelivers.elim
  · exact hdelivers.elim
  · obtain ⟨-, rfl⟩ := hdelivers
    norm_num
  · obtain ⟨-, rfl⟩ := hdelivers
    norm_num

/-- Quoted a thousand times higher the order has size 0.001. Its hedge meets a fill of 0.002. -/
def twiceTheHedge : List MakerEvent :=
  [.tick 1000 (obligingVenues 100000 110000 1000 "1"),
    .trade { coin := "HYPE", price := 98000, size := 0.001 } (obligingVenues 100000 110000 0 ""),
    .fill 100000 0.002 (spreadSnapshot (bookAround 100000) (bookAround 110000)) "1" 0
      (obligingVenues 100000 110000 0 "")]

theorem negative_overshoot :
    ¬ PositiveIocs ((machine sampleConfig).obs (start false 0) twiceTheHedge) := by
  intro h
  have hmem : MakerObs.ioc .overshootUnwind (iocRequest sampleConfig
      (spreadSnapshot (bookAround 100000) (bookAround 110000)) false 15 (-0.001))
      { ok := true, fillConfirmed := true, confirmedSize := -0.001, fillPrice := 110000 } ∈
      (machine sampleConfig).obs (start false 0) twiceTheHedge := by decide +kernel
  have hsize := h _ _ _ hmem
  exact absurd hsize (by decide +kernel)

end Arb
