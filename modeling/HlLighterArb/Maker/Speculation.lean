import HlLighterArb.Live.KillSwitch
import HlLighterArb.Maker.IocSizes
import HlLighterArb.Maker.PositionCap

/-!
# HlLighterArb.Maker.Speculation

How much a speculative hedge may hedge. `on_trade_event` always hedges the whole pending order. A
fill that falls short of the hedge ends it and leaves the order active, so the next crossing trade
hedges the whole order again, whatever has filled of it; the engine counts no fills.

* `orderFills`: size and accepted fills of an order, by the acknowledgements and fill messages.
* `HedgeCovered`: an outstanding hedge is no larger than what its order can still fill.
* `FitsOrder`: a trade that is hedged finds the pending order no larger than that.
* `speculation_iff`: the runs that keep the first are those whose trades all meet the second.
* `hedgesCovered_of_noOvershoot`: those in which no fill falls short of its hedge are among them.
-/

namespace Arb

open MakerHedgeEngine

/-- The size of an order and what it has filled. -/
structure OrderFills where
  size : ℚ := 0
  filled : ℚ := 0

namespace OrderFills

def unfilled (f : OrderFills) : ℚ := f.size - f.filled

def next (oid : String) (f : OrderFills) : MakerObs → OrderFills
  | .placeLimit request ack => if ack.ok ∧ ack.oid = oid then { size := request.size } else f
  | .fill o size path =>
    if o = oid ∧ path ≠ .unknownOid then { f with filled := f.filled + size } else f
  | .cancel _ _ => f
  | .ioc _ _ _ => f
  | .reduce _ _ _ => f

end OrderFills

/-- The order acknowledged last under `oid`, with the fills accepted for it. -/
def orderFills (oid : String) (l : List MakerObs) : OrderFills :=
  l.foldl (OrderFills.next oid) {}

theorem orderFills_append (oid : String) (l l' : List MakerObs) :
    orderFills oid (l ++ l') = l'.foldl (OrderFills.next oid) (orderFills oid l) := by
  simp [orderFills]

/-- The outstanding speculative hedge is no larger than what its order can still fill. -/
def HedgeCovered (l : List MakerObs) (s : MakerHedgeEngine) : Prop :=
  s.speculativeHedgeSent = true →
    s.speculativeHedgeSize ≤ (orderFills s.speculativeHedgeOid l).unfilled

/-- A speculative hedge is only sent for an order that is not filled. -/
def HedgesOpenOrder (cfg : EngineConfig) (l : List MakerObs) (s : MakerHedgeEngine)
    (e : MakerEvent) : Prop :=
  (step cfg s e).2.any (·.isSpeculative) = true →
    ∀ oid, s.activeHlOid = some oid → 0 < (orderFills oid l).unfilled

/-- Lighter fills and confirms the hedge of `order`. -/
def HedgeConfirmed (cfg : EngineConfig) (venues : Venues) (order : PendingMakerOrder) : Prop :=
  let ack := venues.lighter.placeIocOrder
    (iocRequest cfg (collectSnapshot cfg venues) order.direction.isBuyHl 15 order.sizeBase)
  ack.ok = true ∧ ack.fillConfirmed = true

/-- A trade that is hedged finds the active order unfilled, and the pending order no larger than
what the active one can still fill if the hedge is confirmed. -/
def FitsOrder (cfg : EngineConfig) (l : List MakerObs) (s : MakerHedgeEngine) : MakerEvent → Prop
  | .trade trade venues => s.speculates cfg trade venues = true →
      ∀ oid order, s.activeHlOid = some oid → s.strategy.pendingMaker = some order →
        0 < (orderFills oid l).unfilled ∧
          (HedgeConfirmed cfg venues order → order.sizeBase ≤ (orderFills oid l).unfilled)
  | _ => True

/-- A trade that is hedged finds the active order without fills, or at least not filled if the hedge
is not confirmed. -/
def FreshOrder (cfg : EngineConfig) (l : List MakerObs) (s : MakerHedgeEngine) : MakerEvent → Prop
  | .trade trade venues => s.speculates cfg trade venues = true →
      ∀ oid order, s.activeHlOid = some oid → s.strategy.pendingMaker = some order →
        (orderFills oid l).filled < (orderFills oid l).size ∧
          (HedgeConfirmed cfg venues order → (orderFills oid l).filled = 0)
  | _ => True

/-! ## Hedges and the order they are for -/

/-- `HedgeCovered`, read off the observations alone. -/
def Covered (l : List MakerObs) : Prop :=
  ∀ oid size, (orderLife l).last = some oid → (orderLife l).hedged = some size →
    size ≤ (orderFills oid l).unfilled

section Covered

variable {l l' : List MakerObs} {s : MakerHedgeEngine}

theorem hedgeCovered_iff (h : FollowsOrder (orderLife l) s) : HedgeCovered l s ↔ Covered l := by
  constructor
  · intro hcovered oid size hlast hhedged
    obtain ⟨hsize, hlast'⟩ := h.hedge size hhedged
    have hoid : s.speculativeHedgeOid = oid := Option.some.inj (hlast'.symm.trans hlast)
    have hsent : s.speculativeHedgeSent = true := by rw [h.sent, hhedged, Option.isSome_some]
    rw [← hsize, ← hoid]
    exact hcovered hsent
  · intro hcovered hsent
    obtain ⟨size, hhedged⟩ := Option.isSome_iff_exists.mp (h.sent ▸ hsent)
    obtain ⟨hsize, hlast⟩ := h.hedge size hhedged
    rw [hsize]
    exact hcovered _ size hlast hhedged

/-- Only a speculative hedge can break the cover: anything else leaves the hedge and its order as
they are, or ends the hedge. -/
theorem Covered.snoc (h : Covered l) {o : MakerObs} (ho : o.isSpeculative = false) :
    Covered (l ++ [o]) := by
  intro oid size hlast hhedged
  rw [orderLife_append, List.foldl_cons, List.foldl_nil] at hlast hhedged
  rw [orderFills_append, List.foldl_cons, List.foldl_nil]
  cases o with
  | placeLimit request ack =>
    simp only [OrderLife.next] at hlast hhedged
    split_ifs at hlast hhedged with hack
    rw [OrderFills.next, if_neg fun hok => hack hok.1]
    exact h oid size hlast hhedged
  | fill o fillSize path =>
    simp only [OrderLife.next] at hlast hhedged
    by_cases hown : (orderLife l).last = some o
    · rw [if_pos hown] at hlast hhedged
      cases hbefore : (orderLife l).hedged with
      | none =>
        simp only [hbefore] at hhedged
        cases hhedged
      | some hedgeSize =>
        simp only [hbefore] at hhedged
        cases hhedged
    · rw [if_neg hown] at hlast hhedged
      have hne : o ≠ oid := by
        rintro rfl
        exact hown hlast
      rw [OrderFills.next, if_neg fun hok => hne hok.1]
      exact h oid size hlast hhedged
  | cancel o ack =>
    simp only [OrderLife.next] at hlast hhedged
    split_ifs at hlast hhedged
    exact h oid size hlast hhedged
  | ioc purpose request ack =>
    cases purpose with
    | speculative => cases ho
    | _ => exact h oid size hlast hhedged
  | reduce => exact h oid size hlast hhedged

theorem Covered.append (h : Covered l) (hquiet : l'.any (·.isSpeculative) = false) :
    Covered (l ++ l') := by
  induction l' using List.reverseRecOn with
  | nil => rwa [List.append_nil]
  | append_singleton l' o ih =>
    rw [List.any_append, Bool.or_eq_false_iff] at hquiet
    rw [← List.append_assoc]
    exact (ih hquiet.1).snoc (by simpa using hquiet.2)

/-- A speculative hedge covers what it is confirmed for. -/
theorem covered_speculative {request : LighterIocRequest} {ack : LighterIocAck}
    {oid : String} (hlast : (orderLife l).last = some oid) :
    Covered (l ++ [.ioc .speculative request ack]) ↔
      (ack.ok = true ∧ ack.fillConfirmed = true → request.size ≤ (orderFills oid l).unfilled) := by
  have hlife : orderLife (l ++ [.ioc .speculative request ack]) =
      { orderLife l with
        hedged := if ack.ok ∧ ack.fillConfirmed then some request.size else none } := by
    rw [orderLife_append]
    rfl
  have hfills : ∀ o, orderFills o (l ++ [.ioc .speculative request ack]) = orderFills o l := by
    intro o
    rw [orderFills_append]
    rfl
  constructor
  · intro hnext hack
    have hcovered := hnext oid request.size (by rw [hlife]; exact hlast)
      (by rw [hlife, if_pos hack])
    rwa [hfills] at hcovered
  · intro hfits o size hlast' hhedged
    rw [hlife] at hlast' hhedged
    rw [hfills]
    obtain rfl : oid = o := Option.some.inj (hlast.symm.trans hlast')
    simp only at hhedged
    split_ifs at hhedged with hack
    cases hhedged
    exact hfits hack

end Covered

/-! ## Steps -/

section Steps

variable {cfg : EngineConfig} {s : MakerHedgeEngine} {l : List MakerObs} {venues : Venues}
  {trade : TradeEvent}

/-- A trade that passes every guard is hedged with the whole pending order. -/
theorem onTradeEvent_speculates (h : s.speculates cfg trade venues = true) :
    ∃ oid order, s.activeHlOid = some oid ∧ s.strategy.pendingMaker = some order ∧
      onTradeEvent cfg venues s trade =
        sendSpeculative cfg venues s trade order oid (collectSnapshot cfg venues) := by
  unfold speculates at h
  split at h
  · next oid order hactive hpending =>
    simp only [Bool.and_eq_true, Bool.not_eq_true'] at h
    obtain ⟨⟨⟨hsent, hstale⟩, hcrossed⟩, hvalid⟩ := h
    refine ⟨oid, order, hactive, hpending, ?_⟩
    simp only [onTradeEvent, hactive, hpending, hsent, hstale, hcrossed, hvalid, if_true,
      Bool.false_eq_true, if_false]
  · cases h

theorem sendSpeculative_calls (order : PendingMakerOrder) (oid : String)
    (snapshot : SpreadSnapshot) :
    (sendSpeculative cfg venues s trade order oid snapshot).calls =
      [.ioc .speculative (iocRequest cfg snapshot order.direction.isBuyHl 15 order.sizeBase)
        (venues.lighter.placeIocOrder
          (iocRequest cfg snapshot order.direction.isBuyHl 15 order.sizeBase))] := by
  simp only [sendSpeculative]
  split_ifs <;> rfl

/-- A trade that is not hedged calls no exchange, and neither a tick nor a fill speculates. -/
theorem step_unspeculative {e : MakerEvent}
    (h : ∀ trade venues, e = .trade trade venues → s.speculates cfg trade venues = false) :
    (step cfg s e).2.any (·.isSpeculative) = false := by
  cases e with
  | tick nowMs venues => exact onMarketData_unspeculative nowMs
  | trade trade venues =>
    exact (onTradeEvent_calls trade).2.trans (h trade venues rfl)
  | fill fillPrice size snapshot oid hlFee venues =>
    exact (onHlFill_fillMove fillPrice size snapshot oid hlFee venues).calm.2

/-- The trade that is hedged fits the order. -/
theorem covered_step_iff (hdef : DeferredMaker s) (hfollows : FollowsOrder (orderLife l) s)
    (h : HedgeCovered l s) (e : MakerEvent) :
    HedgeCovered (l ++ (step cfg s e).2) (step cfg s e).1 ↔
      ∀ trade venues, e = .trade trade venues → s.speculates cfg trade venues = true →
        ∀ oid order, s.activeHlOid = some oid → s.strategy.pendingMaker = some order →
          HedgeConfirmed cfg venues order → order.sizeBase ≤ (orderFills oid l).unfilled := by
  rw [hedgeCovered_iff (followsOrder_step hdef hfollows e).2]
  have hcovered := (hedgeCovered_iff hfollows).mp h
  by_cases hspec : ∃ trade venues, e = .trade trade venues ∧ s.speculates cfg trade venues = true
  · obtain ⟨trade, venues, rfl, hspec⟩ := hspec
    obtain ⟨oid, order, hactive, hpending, hsend⟩ := onTradeEvent_speculates hspec
    have hcalls : (step cfg s (.trade trade venues)).2 = _ :=
      (congrArg Outcome.calls hsend).trans (sendSpeculative_calls order oid _)
    rw [hcalls, covered_speculative (hfollows.active oid hactive)]
    constructor
    · rintro hfits trade' venues' heq - oid' order' hactive' hpending' hack
      cases heq
      obtain rfl : oid = oid' := Option.some.inj (hactive.symm.trans hactive')
      obtain rfl : order = order' := Option.some.inj (hpending.symm.trans hpending')
      exact hfits hack
    · intro hfits hack
      exact hfits trade venues rfl hspec oid order hactive hpending hack
  · push Not at hspec
    have hquiet := @step_unspeculative cfg s e fun trade venues heq =>
      Bool.eq_false_iff.mpr (hspec trade venues heq)
    exact iff_of_true (hcovered.append hquiet) fun trade venues heq hs =>
      absurd hs (hspec trade venues heq)

theorem hedgesOpenOrder_iff (e : MakerEvent) :
    HedgesOpenOrder cfg l s e ↔
      ∀ trade venues, e = .trade trade venues → s.speculates cfg trade venues = true →
        ∀ oid, s.activeHlOid = some oid → 0 < (orderFills oid l).unfilled := by
  constructor
  · rintro h trade venues rfl hspec
    exact h ((onTradeEvent_calls trade).2.trans hspec)
  · intro h hsends
    by_contra hno
    push Not at hno
    obtain ⟨oid, hactive, hfilled⟩ := hno
    rw [step_unspeculative fun trade venues heq => Bool.eq_false_iff.mpr fun hspec =>
      absurd (h trade venues heq hspec oid hactive) (not_lt.mpr hfilled)] at hsends
    cases hsends

theorem fitsOrder_iff (e : MakerEvent) :
    FitsOrder cfg l s e ↔
      (∀ trade venues, e = .trade trade venues → s.speculates cfg trade venues = true →
        ∀ oid, s.activeHlOid = some oid → 0 < (orderFills oid l).unfilled) ∧
      ∀ trade venues, e = .trade trade venues → s.speculates cfg trade venues = true →
        ∀ oid order, s.activeHlOid = some oid → s.strategy.pendingMaker = some order →
          HedgeConfirmed cfg venues order → order.sizeBase ≤ (orderFills oid l).unfilled := by
  cases e with
  | trade trade venues =>
    constructor
    · intro h
      refine ⟨?_, ?_⟩
      · rintro trade' venues' heq hspec oid hactive
        cases heq
        obtain ⟨_, order, _, hpending, -⟩ := onTradeEvent_speculates hspec
        exact (h hspec oid order hactive hpending).1
      · rintro trade' venues' heq hspec oid order hactive hpending
        cases heq
        exact (h hspec oid order hactive hpending).2
    · rintro ⟨hopen, hfits⟩ hspec oid order hactive hpending
      exact ⟨hopen trade venues rfl hspec oid hactive,
        hfits trade venues rfl hspec oid order hactive hpending⟩
  | tick => exact iff_of_true trivial ⟨fun _ _ heq => (by cases heq), fun _ _ heq => (by cases heq)⟩
  | fill => exact iff_of_true trivial ⟨fun _ _ heq => (by cases heq), fun _ _ heq => (by cases heq)⟩

end Steps

/-! ## Runs -/

/-- What the engine should keep to: its hedge is covered in every state, and it hedges open orders
only. -/
def HedgesCovered (cfg : EngineConfig) (s : MakerHedgeEngine) (es : List MakerEvent) : Prop :=
  (machine cfg).Always s HedgeCovered es ∧ (machine cfg).Throughout s (HedgesOpenOrder cfg) es

theorem hedgesCovered_iff (cfg : EngineConfig) (journalAttached : Bool) (p₀ : ℚ)
    (es : List MakerEvent) :
    HedgesCovered cfg (start journalAttached p₀) es ↔
      (machine cfg).Throughout (start journalAttached p₀) (FitsOrder cfg) es := by
  have hreach := followsOrder_always cfg journalAttached p₀ es
  have halways := (machine cfg).always_iff_throughout (s := start journalAttached p₀)
    (P := fun l s => (DeferredMaker s ∧ FollowsOrder (orderLife l) s) ∧ HedgeCovered l s)
    (C := fun l s e => ∀ trade venues, e = MakerEvent.trade trade venues →
      s.speculates cfg trade venues = true → ∀ oid order, s.activeHlOid = some oid →
        s.strategy.pendingMaker = some order → HedgeConfirmed cfg venues order →
          order.sizeBase ≤ (orderFills oid l).unfilled) ?_ ?_ es
  · constructor
    · rintro ⟨hcovered, hopen⟩ pre e hp
      have hfits := halways.mp (fun pre hp => ⟨hreach pre hp, hcovered pre hp⟩)
      exact (fitsOrder_iff e).mpr ⟨(hedgesOpenOrder_iff e).mp (hopen pre e hp), hfits pre e hp⟩
    · intro h
      refine ⟨?_, fun pre e hp => ?_⟩
      · exact (halways.mpr fun pre e hp => ((fitsOrder_iff e).mp (h pre e hp)).2).mono
          fun _ _ hP => hP.2
      · exact (hedgesOpenOrder_iff e).mpr ((fitsOrder_iff e).mp (h pre e hp)).1
  · exact ⟨⟨.of_none rfl, followsOrder_start journalAttached p₀⟩, fun hsent => by cases hsent⟩
  · rintro l s e ⟨⟨hdef, hfollows⟩, hcovered⟩
    rw [← covered_step_iff hdef hfollows hcovered e]
    exact and_iff_right (followsOrder_step hdef hfollows e)

/-! ## Runs without orphans -/

theorem orderFills_size (oid : String) (l : List MakerObs) :
    (orderFills oid l).size = ((sentUnder oid l).map (·.size)).getD 0 := by
  induction l using List.reverseRecOn with
  | nil => rfl
  | append_singleton l o ih =>
    rw [orderFills_append, List.foldl_cons, List.foldl_nil]
    cases o with
    | placeLimit request ack =>
      rw [sentUnder_append_placeLimit]
      simp only [OrderFills.next]
      split_ifs
      · rfl
      · exact ih
    | fill o size path =>
      rw [sentUnder_append (by simp [MakerObs.isPlacement])]
      simp only [OrderFills.next]
      split_ifs <;> exact ih
    | _ =>
      rw [sentUnder_append (by simp [MakerObs.isPlacement])]
      exact ih

/-- The fills observed have positive sizes. -/
def FillsPositive (l : List MakerObs) : Prop :=
  ∀ oid size path, .fill oid size path ∈ l → 0 < size

theorem orderFills_filled_nonneg {l : List MakerObs} (h : FillsPositive l) (oid : String) :
    0 ≤ (orderFills oid l).filled := by
  induction l using List.reverseRecOn with
  | nil => exact le_rfl
  | append_singleton l o ih =>
    have hprev := ih fun o size path hmem => h o size path (List.mem_append_left _ hmem)
    rw [orderFills_append, List.foldl_cons, List.foldl_nil]
    cases o with
    | placeLimit request ack =>
      simp only [OrderFills.next]
      split_ifs
      · exact le_rfl
      · exact hprev
    | fill o size path =>
      have hsize := h o size path (List.mem_append_right _ (List.mem_singleton.mpr rfl))
      simp only [OrderFills.next]
      split_ifs
      · exact add_nonneg hprev hsize.le
      · exact hprev
    | _ => exact hprev

theorem step_fillsPositive {cfg : EngineConfig} {s : MakerHedgeEngine} {l : List MakerObs}
    (hdef : DeferredMaker s) (h : FillsPositive l) {e : MakerEvent}
    (he : ∀ oid size, e.Delivers oid size → 0 < size) : FillsPositive (l ++ (step cfg s e).2) := by
  refine @step_keeps cfg s (fun l _ => FillsPositive l) l hdef e ?_ ?_ h
  · intro past t l' t' hpast hm oid size path hmem
    rcases List.mem_append.mp hmem with hmem | hmem
    · exact hpast oid size path hmem
    · exact absurd hmem (hm.no_fill oid size path)
  · intro oid size l' t' hdelivers hm o fillSize path hmem
    rcases List.mem_append.mp hmem with hmem | hmem
    · exact h o fillSize path hmem
    · have hsize : fillSize = size := by
        cases hm <;> simp at hmem <;> exact hmem.2.1
      rw [hsize]
      exact he oid size hdelivers

/-- Without orphans the pending order is the active one, so a hedge fits exactly when nothing has
filled. -/
theorem fitsOrder_iff_fresh {cfg : EngineConfig} {s : MakerHedgeEngine} {l : List MakerObs}
    (hcoupled : CoupledInv cfg l s) (hfills : FillsPositive l) (e : MakerEvent) :
    FitsOrder cfg l s e ↔ FreshOrder cfg l s e := by
  cases e with
  | tick => exact Iff.rfl
  | fill => exact Iff.rfl
  | trade trade venues =>
    refine forall_congr' fun hspec => forall_congr' fun oid => forall_congr' fun order =>
      forall_congr' fun hactive => forall_congr' fun hpending => ?_
    obtain ⟨order', hholds, hsent, -⟩ := hcoupled.coupled oid hactive
    obtain rfl : order = order' :=
      Option.some.inj (hpending.symm.trans (Hedger.holds_iff.mp hholds).2)
    have hsize : (orderFills oid l).size = order.sizeBase := by
      rw [orderFills_size, hsent]
      rfl
    have hfilled := orderFills_filled_nonneg hfills oid
    rw [OrderFills.unfilled, hsize, sub_pos]
    refine and_congr_right fun hopen => imp_congr_right fun _ => ?_
    constructor
    · intro hfits
      linarith
    · intro hzero
      rw [hzero, sub_zero]

/-! ## Runs in which no fill falls short of its hedge -/

/-- Nothing has filled of the active order. -/
def Unfilled (l : List MakerObs) (s : MakerHedgeEngine) : Prop :=
  ∀ oid, s.activeHlOid = some oid → (orderFills oid l).filled = 0

/-- The fill does not end a hedge that is larger. -/
def NoOvershoot (s : MakerHedgeEngine) (e : MakerEvent) : Prop :=
  ∀ oid size, e.Delivers oid size → s.fillPath oid size ≠ .overshoot

section Whole

variable {cfg : EngineConfig} {ok : MakerHedgeEngine → PendingMakerOrder → Prop}
  {s s' : MakerHedgeEngine} {past l : List MakerObs}

theorem Unfilled.of_inactive (h : s.activeHlOid = none) : Unfilled l s := by
  intro oid hactive
  rw [h] at hactive
  cases hactive

theorem Unfilled.frame (h : Unfilled past s) (hactive : s'.activeHlOid = s.activeHlOid)
    (hfills : ∀ oid, orderFills oid (past ++ l) = orderFills oid past) :
    Unfilled (past ++ l) s' := by
  intro oid ho
  rw [hfills]
  exact h oid (hactive ▸ ho)

theorem Move.unfilled (hm : Move cfg ok s l s') (h : Unfilled past s) :
    Unfilled (past ++ l) s' := by
  cases hm with
  | placeBlocked origin => exact h.frame origin.active_eq fun oid => orderFills_append oid past []
  | placeDeferred origin => exact h.frame origin.active_eq fun oid => orderFills_append oid past []
  | placeAcked origin _ acked =>
    intro oid ho
    cases ho
    rw [orderFills_append, List.foldl_cons, List.foldl_nil, OrderFills.next, if_pos ⟨acked, rfl⟩]
  | placeNacked origin nacked =>
    refine h.frame origin.active_eq fun oid => ?_
    rw [orderFills_append, List.foldl_cons, List.foldl_nil, OrderFills.next,
      if_neg fun hok => by rw [nacked] at hok; cases hok.1]
  | cancelDeferred origin => exact h.frame origin.active_eq fun oid => orderFills_append oid past []
  | cancelIdle origin => exact h.frame origin.active_eq fun oid => orderFills_append oid past []
  | cancelAcked => exact .of_inactive rfl
  | cancelNacked origin => exact h.frame origin.active_eq fun oid => orderFills_append oid past _
  | _ => exact h.frame rfl fun oid => orderFills_append oid past _

theorem FillMove.unfilled {oid : String} {size : ℚ} (hm : FillMove cfg s oid size l s')
    (h : Unfilled past s) (hwhole : s.fillPath oid size ≠ .overshoot) :
    Unfilled (past ++ l) s' := by
  cases hm with
  | unknown =>
    refine h.frame rfl fun o => ?_
    rw [orderFills_append, List.foldl_cons, List.foldl_nil, OrderFills.next,
      if_neg fun hok => hok.2 rfl]
  | overshoot path => exact absurd path hwhole
  | _ => exact .of_inactive rfl

theorem step_unfilled (hdef : DeferredMaker s) (h : Unfilled past s) {e : MakerEvent}
    (hwhole : NoOvershoot s e) : Unfilled (past ++ (step cfg s e).2) (step cfg s e).1 :=
  step_keeps hdef e (fun _ _ _ _ hu hm => hm.unfilled hu)
    (fun oid size _ _ hdelivers hm => hm.unfilled h (hwhole oid size hdelivers)) h

/-- A hedged trade finds an order of its own size, with nothing filled. -/
theorem CoupledInv.fitsOrder (h : CoupledInv cfg past s) (hsized : Sized s)
    (hunfilled : Unfilled past s) (e : MakerEvent) : FitsOrder cfg past s e := by
  cases e with
  | tick => trivial
  | fill => trivial
  | trade trade venues =>
    intro hspec oid order hactive hpending
    obtain ⟨order', hholds, hsent, -⟩ := h.coupled oid hactive
    obtain rfl : order = order' :=
      Option.some.inj (hpending.symm.trans (Hedger.holds_iff.mp hholds).2)
    have hsize : (orderFills oid past).unfilled = order.sizeBase := by
      rw [OrderFills.unfilled, hunfilled oid hactive, orderFills_size, hsent, sub_zero]
      rfl
    rw [hsize]
    exact ⟨hsized.pending order hpending, fun _ => le_rfl⟩

end Whole

/-- Where no orphan is placed and no fill falls short of the hedge it is matched with, hedges are
covered and hedged orders open. -/
theorem hedgesCovered_of_noOvershoot {cfg : EngineConfig} (hpair : 0 < cfg.strategy.pairSizeUsd)
    {journalAttached : Bool} {p₀ : ℚ} {es : List MakerEvent} (hfills : PositiveFills es)
    (hclean : (machine cfg).Throughout (start journalAttached p₀)
      (fun _ s e => NoOrphan cfg s e) es)
    (hwhole : (machine cfg).Throughout (start journalAttached p₀)
      (fun _ s e => NoOvershoot s e) es) : HedgesCovered cfg (start journalAttached p₀) es := by
  have hsized : (machine cfg).Always (start journalAttached p₀)
      (fun _ s => DeferredMaker s ∧ Sized s) es :=
    hfills.always ⟨.of_none rfl, fun hs => by cases hs⟩ fun _ _ _ hdef hs he =>
      (step_sized hpair hdef hs he).1
  have hunfilled : (machine cfg).Always (start journalAttached p₀)
      (fun l s => (DeferredMaker s ∧ FollowsOrder (orderLife l) s) ∧ Unfilled l s) es := by
    refine EventMachine.always_of_throughout
      ⟨⟨.of_none rfl, followsOrder_start journalAttached p₀⟩, .of_inactive rfl⟩ ?_ hwhole
    rintro l s e ⟨⟨hdef, hfollows⟩, hu⟩ hno
    exact ⟨followsOrder_step hdef hfollows e, step_unfilled hdef hu hno⟩
  refine (hedgesCovered_iff cfg journalAttached p₀ es).mpr fun pre e hp => ?_
  exact ((coupledInv_always hclean).before hp).fitsOrder (hsized.before hp).2
    (hunfilled.before hp).2 e

/-- A run keeps its hedges covered and its hedged orders open exactly when every hedged trade finds
an order it fits; where no orphan is placed and fills are positive, exactly when every hedged trade
finds an order without fills. -/
theorem speculation_iff (cfg : EngineConfig) (journalAttached : Bool) (p₀ : ℚ)
    (es : List MakerEvent) :
    (HedgesCovered cfg (start journalAttached p₀) es ↔
      (machine cfg).Throughout (start journalAttached p₀) (FitsOrder cfg) es) ∧
    ((machine cfg).Throughout (start journalAttached p₀) (fun _ s e => NoOrphan cfg s e) es →
      PositiveFills es →
      (HedgesCovered cfg (start journalAttached p₀) es ↔
        (machine cfg).Throughout (start journalAttached p₀) (FreshOrder cfg) es)) := by
  have hiff := hedgesCovered_iff cfg journalAttached p₀ es
  refine ⟨hiff, fun hclean hfills => hiff.trans ?_⟩
  have hpositive : (machine cfg).Always (start journalAttached p₀)
      (fun l s => DeferredMaker s ∧ FillsPositive l) es :=
    hfills.always (fun _ _ _ hmem => by cases hmem) fun _ _ _ hdef hl he =>
      step_fillsPositive hdef hl he
  have hboth : (machine cfg).Always (start journalAttached p₀)
      (fun l s => CoupledInv cfg l s ∧ FillsPositive l) es :=
    fun pre hp => ⟨coupledInv_always hclean pre hp, (hpositive pre hp).2⟩
  exact hboth.throughout_congr fun l s e h => fitsOrder_iff_fresh h.1 h.2 e

/-- An order of 1 is hedged and fills by half, is hedged whole again and fills up, and is then
hedged whole once more. -/
def refilledRun : List MakerEvent :=
  [tickUp 1000 "1", crossingTrade, fillOf "1" 0.5, crossingTrade, fillOf "1" 0.5, crossingTrade]

/-- The last trade hedges the whole of an order that has filled up. -/
theorem filled_order_hedged :
    ¬ ∀ es : List MakerEvent, PositiveFills es →
      HedgesCovered sampleConfig (start false 0) es := by
  intro hall
  have hpositive : PositiveFills refilledRun := by
    intro e he oid size hdelivers
    simp only [refilledRun, List.mem_cons, List.not_mem_nil, or_false] at he
    rcases he with rfl | rfl | rfl | rfl | rfl | rfl
    · exact hdelivers.elim
    · exact hdelivers.elim
    · obtain ⟨-, rfl⟩ := hdelivers
      norm_num
    · exact hdelivers.elim
    · obtain ⟨-, rfl⟩ := hdelivers
      norm_num
    · exact hdelivers.elim
  have hlast := (hall refilledRun hpositive).1.last
  exact absurd (hlast (by decide +kernel)) (by decide +kernel)

end Arb
