import HlLighterArb.Maker.Coupling
import HlLighterArb.Maker.Placements
import HlLighterArb.Maker.Speculation

/-!
# HlLighterArb.Maker.Residual

Whether an order leaves an unhedged quantity behind. Six places send an order that should close
one: the hedge, the correction, the overshoot unwind, the speculative hedge, the cancel unwind and
the HL unwind. Only the hedge looks at its answer, and none looks at how much was executed.

* `orderLedger`: for the order acknowledged last, what HL filled, what Lighter executed for it net
  of unwinds, and what was unwound on HL.
* `uncovered`: what a call leaves uncovered, by the path it takes in the state before it and the
  answers of the exchanges.
* `shortfall_eq`: the same read off the calls it makes.
* `residual_iff`: when every step so far left nothing uncovered, a closing step leaves the ledger
  balanced exactly if it leaves nothing uncovered.
-/

namespace Arb

open MakerHedgeEngine

/-- The books of the order acknowledged last. A Lighter execution counts for the order when it is
against the order's side, and as an unwind when it is on it. -/
structure OrderLedger where
  isBuy : Bool := true
  filled : ℚ := 0
  hedged : ℚ := 0
  unwound : ℚ := 0

def OrderLedger.executed (g : OrderLedger) (request : LighterIocRequest) (ack : LighterIocAck) : ℚ :=
  if request.isAsk = g.isBuy then ack.executed else -ack.executed

def OrderLedger.next (g : OrderLedger) : MakerObs → OrderLedger
  | .fill _ size path => if path = .unknownOid then g else { g with filled := g.filled + size }
  | .placeLimit request ack => if ack.ok then { isBuy := request.isBuy } else g
  | .cancel _ _ => g
  | .ioc _ request ack => { g with hedged := g.hedged + g.executed request ack }
  | .reduce _ _ ack => { g with unwound := g.unwound + ack.filledSize }

def orderLedger (l : List MakerObs) : OrderLedger :=
  l.foldl OrderLedger.next {}

theorem orderLedger_append (l l' : List MakerObs) :
    orderLedger (l ++ l') = l'.foldl OrderLedger.next (orderLedger l) := by
  simp [orderLedger]

def OrderLedger.Balanced (g : OrderLedger) : Prop :=
  g.filled = g.hedged + g.unwound

instance (g : OrderLedger) : Decidable g.Balanced :=
  inferInstanceAs (Decidable (_ = _))

/-- What a fill leaves uncovered: the difference to the hedge it is matched with, a hedge or a
correction executed short, an unwind not executed. -/
def fillUncovered (cfg : EngineConfig) (s : MakerHedgeEngine) (size : ℚ) (snapshot : SpreadSnapshot)
    (oid : String) (venues : Venues) : ℚ :=
  let isAsk := s.lastMakerDirection.isBuyHl
  match s.fillPath oid size with
  | .unknownOid => 0
  | .perfectMatch => size - s.speculativeHedgeSize
  | .correction =>
    let request := iocRequest cfg snapshot isAsk 10 (size - s.speculativeHedgeSize)
    request.size - (venues.lighter.placeIocOrder request).executed
  | .overshoot =>
    let request := iocRequest cfg snapshot (!isAsk) 15 (-(size - s.speculativeHedgeSize))
    (venues.lighter.placeIocOrder request).executed - request.size
  | .hedge =>
    let ack := venues.lighter.placeIocOrder (iocRequest cfg snapshot isAsk 10 size)
    if ack.ok ∧ ack.fillConfirmed then size - ack.executed
    else size - ack.executed -
      (venues.hl.reducePosition cfg.hlCoin (!isAsk) size cfg.dryRun).filledSize

/-- What an acknowledged cancel leaves uncovered: the unwind of its speculative hedge that is not
executed. -/
def tickUncovered (cfg : EngineConfig) (s : MakerHedgeEngine) (nowMs : Int) (venues : Venues) : ℚ :=
  match Maker.cancelSent cfg s nowMs venues with
  | none => 0
  | some oid =>
    let request := s.cancelUnwindRequest cfg (collectSnapshot cfg venues)
    if (venues.hl.cancelOrder cfg.hlCoin oid cfg.dryRun).ok ∧ s.speculativeHedgeSent then
      (venues.lighter.placeIocOrder request).executed - request.size
    else 0

/-- What a trade leaves uncovered: a speculative hedge that did not execute what is recorded for it,
on the side of the active order. -/
def tradeUncovered (cfg : EngineConfig) (s : MakerHedgeEngine) (trade : TradeEvent)
    (venues : Venues) : ℚ :=
  match s.strategy.pendingMaker with
  | none => 0
  | some order =>
    if s.speculates cfg trade venues then
      let ack := venues.lighter.placeIocOrder
        (iocRequest cfg (collectSnapshot cfg venues) order.direction.isBuyHl 15 order.sizeBase)
      (if ack.ok ∧ ack.fillConfirmed then order.sizeBase else 0) -
        if order.direction.isBuyHl = s.lastMakerDirection.isBuyHl then ack.executed
        else -ack.executed
    else 0

def uncovered (cfg : EngineConfig) (s : MakerHedgeEngine) : MakerEvent → ℚ
  | .tick nowMs venues => tickUncovered cfg s nowMs venues
  | .trade trade venues => tradeUncovered cfg s trade venues
  | .fill _ size snapshot oid _ venues => fillUncovered cfg s size snapshot oid venues

/-- The call leaves nothing uncovered. -/
def Settles (cfg : EngineConfig) (s : MakerHedgeEngine) (e : MakerEvent) : Prop :=
  uncovered cfg s e = 0

instance (cfg : EngineConfig) (s : MakerHedgeEngine) (e : MakerEvent) :
    Decidable (Settles cfg s e) :=
  inferInstanceAs (Decidable (_ = _))

/-- `uncovered`, read off what a call sends and the answers to it. -/
def shortfall (past : List MakerObs) : List MakerObs → ℚ
  | [.fill _ size .perfectMatch] => size - (orderLife past).hedged.getD 0
  | [.fill _ size .hedge, .ioc _ _ ack, .reduce _ _ unwind] =>
    size - ack.executed - unwind.filledSize
  | [.fill _ _ .overshoot, .ioc _ request ack] => ack.executed - request.size
  | [.fill _ _ _, .ioc _ request ack] => request.size - ack.executed
  | [.cancel _ _, .ioc _ request ack] => ack.executed - request.size
  | [.ioc _ request ack] =>
    (if ack.ok ∧ ack.fillConfirmed then request.size else 0) -
      (orderLedger past).executed request ack
  | _ => 0

/-- An accepted fill or an acknowledged cancel. -/
def MakerObs.closing : MakerObs → Bool
  | .fill _ _ path => path ≠ .unknownOid
  | .cancel _ ack => ack.ok
  | _ => false

/-- The call processes an accepted fill or a cancel acknowledgement and ends with the strategy idle
and no speculative hedge recorded. -/
def Closes (cfg : EngineConfig) (s : MakerHedgeEngine) (e : MakerEvent) : Prop :=
  (∃ o ∈ (step cfg s e).2, o.closing = true) ∧
    (step cfg s e).1.strategy.state = .idle ∧ (step cfg s e).1.speculativeHedgeSent = false

instance (cfg : EngineConfig) (s : MakerHedgeEngine) (e : MakerEvent) :
    Decidable (Closes cfg s e) :=
  inferInstanceAs (Decidable (_ ∧ _))

/-- A closing call leaves the order's ledger balanced. -/
def NoSilentResidual (cfg : EngineConfig) (l : List MakerObs) (s : MakerHedgeEngine)
    (e : MakerEvent) : Prop :=
  Closes cfg s e → (orderLedger (l ++ (step cfg s e).2)).Balanced

instance (cfg : EngineConfig) (l : List MakerObs) (s : MakerHedgeEngine) (e : MakerEvent) :
    Decidable (NoSilentResidual cfg l s e) :=
  inferInstanceAs (Decidable (_ → _))

/-! ## One step and the residual -/

def MakerHedgeEngine.outstanding (s : MakerHedgeEngine) : ℚ :=
  if s.speculativeHedgeSent then s.speculativeHedgeSize else 0

/-- What the ledger and the outstanding hedge do not account for. -/
def OrderLedger.residual (g : OrderLedger) (s : MakerHedgeEngine) : ℚ :=
  g.filled + s.outstanding - g.hedged - g.unwound

theorem outstanding_unsent {s : MakerHedgeEngine} (h : s.speculativeHedgeSent = false) :
    s.outstanding = 0 := by
  simp [outstanding, h]

theorem outstanding_sent {s : MakerHedgeEngine} (h : s.speculativeHedgeSent = true) :
    s.outstanding = s.speculativeHedgeSize := by
  simp [outstanding, h]

/-- Without a hedge recorded, the ledger is balanced when there is no residual. -/
theorem OrderLedger.balanced_iff {g : OrderLedger} {s : MakerHedgeEngine}
    (h : s.speculativeHedgeSent = false) : g.Balanced ↔ g.residual s = 0 := by
  rw [Balanced, residual, outstanding_unsent h]
  constructor <;> intro hg <;> linarith

/-- The ledger is on the side of `last_maker_direction_`. -/
structure LedgerInv (l : List MakerObs) (s : MakerHedgeEngine) : Prop where
  slot : Slot s
  follows : FollowsOrder (orderLife l) s
  side : (orderLedger l).isBuy = s.lastMakerDirection.isBuyHl

theorem OrderLedger.isBuy_of_foldl {l : List MakerObs} (quiet : ∀ o ∈ l, o.isPlacement = false)
    (g : OrderLedger) : (l.foldl OrderLedger.next g).isBuy = g.isBuy := by
  induction l generalizing g with
  | nil => rfl
  | cons o l ih =>
    have ho := quiet o (List.mem_cons_self ..)
    have hnext : (g.next o).isBuy = g.isBuy := by
      cases o with
      | placeLimit => cases ho
      | fill o size path => simp only [OrderLedger.next]; split_ifs <;> rfl
      | _ => rfl
    exact (ih (fun x hx => quiet x (List.mem_cons_of_mem _ hx)) _).trans hnext

section Moves

variable {cfg : EngineConfig} {ok : MakerHedgeEngine → PendingMakerOrder → Prop}
  {s s' b : MakerHedgeEngine} {past l : List MakerObs} {order : PendingMakerOrder}

theorem PlaceFrom.outstanding_eq (hp : PlaceFrom s order b) : b.outstanding = s.outstanding := by
  cases hp <;> rfl

theorem CancelFrom.outstanding_eq (hc : CancelFrom s order b) : b.outstanding = s.outstanding := by
  cases hc <;> rfl

theorem Move.isBuy_eq (hm : Move cfg ok s l s') (hslot : Slot s)
    (h : (orderLedger past).isBuy = s.lastMakerDirection.isBuyHl) :
    (orderLedger (past ++ l)).isBuy = s'.lastMakerDirection.isBuyHl := by
  have hframe : (∀ o ∈ l, o.isPlacement = false) → s'.lastMakerDirection = s.lastMakerDirection →
      (orderLedger (past ++ l)).isBuy = s'.lastMakerDirection.isBuyHl := by
    intro hquiet hdirection
    rw [orderLedger_append, OrderLedger.isBuy_of_foldl hquiet, hdirection, h]
  cases hm with
  | placeBlocked origin => exact hframe (by simp) (by cases origin <;> rfl)
  | placeDeferred origin => exact hframe (by simp) (by cases origin <;> rfl)
  | placeAcked origin _ acked =>
    rw [orderLedger_append]
    simp only [List.foldl_cons, List.foldl_nil, OrderLedger.next, acked, if_true]
    exact (origin.held hslot).1
  | placeNacked origin nacked =>
    rw [orderLedger_append]
    simp only [List.foldl_cons, List.foldl_nil, OrderLedger.next, nacked]
    cases origin <;> exact h
  | cancelDeferred origin => exact hframe (by simp) origin.direction_eq
  | cancelIdle origin => exact hframe (by simp) origin.direction_eq
  | cancelAcked origin _ _ unwind _ _ _ unwinds =>
    have hquiet : ∀ o ∈ unwind, o.isPlacement = false := by
      rw [unwinds]
      split_ifs <;> simp [MakerObs.isPlacement]
    exact hframe (List.forall_mem_cons.mpr ⟨rfl, hquiet⟩) origin.direction_eq
  | cancelNacked origin => exact hframe (by simp [MakerObs.isPlacement]) origin.direction_eq
  | _ => exact hframe (by simp [MakerObs.isPlacement]) rfl

theorem FillMove.isBuy_eq {oid : String} {size : ℚ} (hm : FillMove cfg s oid size l s')
    (h : (orderLedger past).isBuy = s.lastMakerDirection.isBuyHl) :
    (orderLedger (past ++ l)).isBuy = s'.lastMakerDirection.isBuyHl := by
  rw [orderLedger_append, OrderLedger.isBuy_of_foldl (by cases hm <;> simp [MakerObs.isPlacement]), h]
  cases hm <;> rfl

theorem Move.ledgerInv (hm : Move cfg ok s l s') (h : LedgerInv past s) :
    LedgerInv (past ++ l) s' :=
  ⟨hm.slot h.slot, orderLife_append past l ▸ hm.followsOrder h.follows, hm.isBuy_eq h.slot h.side⟩

theorem FillMove.ledgerInv {oid : String} {size : ℚ} (hm : FillMove cfg s oid size l s')
    (h : LedgerInv past s) : LedgerInv (past ++ l) s' :=
  ⟨hm.slot h.slot, orderLife_append past l ▸ hm.followsOrder h.follows, hm.isBuy_eq h.side⟩

/-- A move adds its shortfall to the residual, or places an order and starts from zero. -/
theorem Move.residual_eq (hm : Move cfg ok s l s') (h : LedgerInv past s) :
    (orderLedger (past ++ l)).residual s' =
        (orderLedger past).residual s + shortfall past l ∨
      (orderLedger (past ++ l)).residual s' = 0 ∧ ∃ request ack, l = [.placeLimit request ack] := by
  rw [orderLedger_append]
  have hsame : ∀ {g : OrderLedger} {t : MakerHedgeEngine}, t.outstanding = s.outstanding →
      g.residual t = g.residual s := by
    intro g t ht
    rw [OrderLedger.residual, ht, OrderLedger.residual]
  cases hm with
  | quiet => exact .inl (add_zero _).symm
  | placeBlocked origin => exact .inl ((hsame origin.outstanding_eq).trans (add_zero _).symm)
  | placeDeferred origin => exact .inl ((hsame origin.outstanding_eq).trans (add_zero _).symm)
  | placeAcked origin _ acked =>
    refine .inr ⟨?_, _, _, rfl⟩
    simp [OrderLedger.next, acked, OrderLedger.residual, outstanding, acceptPlacement,
      clearSpeculative]
  | placeNacked origin nacked =>
    simp only [List.foldl_cons, List.foldl_nil, OrderLedger.next, nacked]
    exact .inl ((hsame origin.outstanding_eq).trans (add_zero _).symm)
  | cancelDeferred origin => exact .inl ((hsame origin.outstanding_eq).trans (add_zero _).symm)
  | cancelIdle origin => exact .inl ((hsame origin.outstanding_eq).trans (add_zero _).symm)
  | cancelAcked origin _ _ unwind _ snapshot venues unwinds =>
    left
    have hside : (orderLedger past).isBuy = s.lastMakerDirection.isBuyHl := h.side
    rw [unwinds]
    by_cases hsent : s.speculativeHedgeSent = true
    · simp only [if_pos hsent, List.foldl_cons, List.foldl_nil, OrderLedger.next,
        OrderLedger.residual, OrderLedger.executed, outstanding_sent hsent, shortfall, hside,
        cancelUnwindRequest, iocRequest, Bool.not_eq_eq_eq_not, Bool.eq_not_self, if_false]
      rw [outstanding_unsent rfl]
      ring
    · simp only [if_neg hsent, List.foldl_cons, List.foldl_nil, OrderLedger.next, shortfall,
        add_zero]
      exact hsame ((outstanding_unsent rfl).trans (outstanding_unsent (by simpa using hsent)).symm)
  | cancelNacked origin => exact .inl ((hsame origin.outstanding_eq).trans (add_zero _).symm)
  | tradeIgnored => exact .inl (add_zero _).symm
  | speculated active pending unsent snapshot filled =>
    left
    simp only [List.foldl_cons, List.foldl_nil, OrderLedger.next, OrderLedger.residual, shortfall,
      if_pos filled, outstanding_unsent unsent, iocRequest]
    rw [outstanding_sent rfl]
    ring
  | speculationFailed active pending unsent snapshot failed =>
    left
    simp only [List.foldl_cons, List.foldl_nil, OrderLedger.next, OrderLedger.residual, shortfall,
      if_neg failed, outstanding_unsent unsent]
    rw [outstanding_unsent rfl]
    ring

theorem FillMove.residual_eq {oid : String} {size : ℚ} (hm : FillMove cfg s oid size l s')
    (h : LedgerInv past s) :
    (orderLedger (past ++ l)).residual s' =
      (orderLedger past).residual s + shortfall past l := by
  rw [orderLedger_append]
  have hside : (orderLedger past).isBuy = s.lastMakerDirection.isBuyHl := h.side
  have hsent : (orderLife past).hedged = some s.speculativeHedgeSize →
      s.outstanding = s.speculativeHedgeSize := by
    intro hhedged
    exact outstanding_sent (by rw [h.follows.sent, hhedged]; rfl)
  cases hm with
  | unknown => exact (add_zero _).symm
  | perfect path =>
    obtain ⟨-, hhedged⟩ := h.follows.reconciled (.inl path)
    simp only [List.foldl_cons, List.foldl_nil, OrderLedger.next, reduceCtorEq, if_false,
      OrderLedger.residual, shortfall, hhedged, Option.getD_some, hsent hhedged]
    rw [outstanding_unsent rfl]
    ring
  | correction path =>
    obtain ⟨-, hhedged⟩ := h.follows.reconciled (.inr (.inl path))
    simp only [List.foldl_cons, List.foldl_nil, OrderLedger.next, reduceCtorEq, if_false,
      OrderLedger.residual, OrderLedger.executed, shortfall, hside, iocRequest, if_true,
      hsent hhedged]
    rw [outstanding_unsent rfl]
    ring
  | overshoot path =>
    obtain ⟨-, hhedged⟩ := h.follows.reconciled (.inr (.inr path))
    simp only [List.foldl_cons, List.foldl_nil, OrderLedger.next, reduceCtorEq, if_false,
      OrderLedger.residual, OrderLedger.executed, shortfall, hside, iocRequest,
      Bool.not_eq_eq_eq_not, Bool.eq_not_self, hsent hhedged]
    rw [outstanding_unsent rfl]
    ring
  | hedged path =>
    simp only [List.foldl_cons, List.foldl_nil, OrderLedger.next, reduceCtorEq, if_false,
      OrderLedger.residual, OrderLedger.executed, shortfall, hside, iocRequest, if_true]
    rw [show (s.applyHlFill size).closeHedged.outstanding = s.outstanding from rfl]
    ring
  | unwound path =>
    simp only [List.foldl_cons, List.foldl_nil, OrderLedger.next, reduceCtorEq, if_false,
      OrderLedger.residual, OrderLedger.executed, shortfall, hside, iocRequest, if_true]
    rw [show s.closeHedged.outstanding = s.outstanding from rfl]
    ring

/-- Moves that observe nothing leave the residual. -/
theorem Moves.residual_eq (hm : Moves cfg ok s l s') (hl : l = []) (h : LedgerInv past s) :
    LedgerInv past s' ∧ (orderLedger past).residual s' = (orderLedger past).residual s := by
  induction hm with
  | refl => exact ⟨h, rfl⟩
  | cons hmove _ ih =>
    obtain ⟨rfl, rfl⟩ := List.append_eq_nil_iff.mp hl
    have hinv := hmove.ledgerInv h
    have hres := hmove.residual_eq h
    rw [List.append_nil] at hinv hres
    obtain ⟨hlast, hrest⟩ := ih rfl hinv
    rcases hres with hres | ⟨-, request, ack, hne⟩
    · exact ⟨hlast, hrest.trans (hres.trans (add_zero _))⟩
    · cases hne

end Moves

/-- A call adds its shortfall to the residual, or all it observes is a placement and there is no
residual. -/
theorem step_residual {cfg : EngineConfig} {past : List MakerObs} {s : MakerHedgeEngine}
    (e : MakerEvent) (h : LedgerInv past s) :
    LedgerInv (past ++ (step cfg s e).2) (step cfg s e).1 ∧
      ((orderLedger (past ++ (step cfg s e).2)).residual (step cfg s e).1 =
          (orderLedger past).residual s + shortfall past (step cfg s e).2 ∨
        (orderLedger (past ++ (step cfg s e).2)).residual (step cfg s e).1 = 0 ∧
          ∃ request ack, (step cfg s e).2 = [.placeLimit request ack]) := by
  cases e with
  | tick nowMs venues =>
    obtain ⟨s₁, hquiet, hlast⟩ := @onMarketData_move cfg (fun _ _ => True) s h.slot.kind nowMs
      venues (fun _ _ _ _ => trivial) fun _ _ => trivial
    obtain ⟨hinv, hres⟩ := hquiet.residual_eq rfl h
    refine ⟨hlast.ledgerInv hinv, ?_⟩
    rw [← hres]
    exact hlast.residual_eq hinv
  | trade trade venues =>
    rcases @onTradeEvent_move cfg (fun _ _ => True) s trade venues with hidle | hmove
    · have hl : (step cfg s (.trade trade venues)).2 = [] := congrArg Outcome.calls hidle
      have hs : (step cfg s (.trade trade venues)).1 = s := congrArg Outcome.state hidle
      rw [hl, hs, List.append_nil]
      exact ⟨h, .inl (add_zero _).symm⟩
    · exact ⟨hmove.ledgerInv h, hmove.residual_eq h⟩
  | fill fillPrice size snapshot oid hlFee venues =>
    have hmove := @onHlFill_fillMove cfg s fillPrice size snapshot oid hlFee venues
    exact ⟨hmove.ledgerInv h, .inl (hmove.residual_eq h)⟩

section Calls

variable {cfg : EngineConfig} {s : MakerHedgeEngine} {past : List MakerObs} {venues : Venues}

theorem tick_shortfall (h : LedgerInv past s) (nowMs : Int) :
    shortfall past (onMarketData cfg venues s nowMs).calls = tickUncovered cfg s nowMs venues := by
  unfold tickUncovered
  rcases @Maker.onMarketData_calls cfg s nowMs venues h.slot.kind with hcancel | ⟨hnone, hplace⟩
  · rw [hcancel]
    cases Maker.cancelSent cfg s nowMs venues with
    | none => rfl
    | some oid =>
      simp only [Maker.cancelRequests]
      split_ifs <;> rfl
  · rw [hnone]
    rcases hplace with hplace | ⟨request, ack, hplace⟩ <;> rw [hplace] <;> rfl

theorem trade_shortfall (h : LedgerInv past s) (trade : TradeEvent) :
    shortfall past (onTradeEvent cfg venues s trade).calls = tradeUncovered cfg s trade venues := by
  unfold tradeUncovered
  cases hspec : s.speculates cfg trade venues with
  | true =>
    obtain ⟨oid, order, -, hpending, hsend⟩ := onTradeEvent_speculates hspec
    rw [hsend, sendSpeculative_calls, hpending, ← h.side]
    rfl
  | false =>
    rw [onTradeEvent_quiet hspec]
    cases s.strategy.pendingMaker <;> rfl

theorem fill_shortfall (h : LedgerInv past s) (fillPrice size : ℚ) (snapshot : SpreadSnapshot)
    (oid : String) (hlFee : ℚ) :
    shortfall past (step cfg s (.fill fillPrice size snapshot oid hlFee venues)).2 =
      fillUncovered cfg s size snapshot oid venues := by
  simp only [step, onHlFill, fillUncovered]
  cases hpath : s.fillPath oid size with
  | unknownOid => rfl
  | perfectMatch =>
    obtain ⟨-, hhedged⟩ := h.follows.reconciled (.inl hpath)
    simp only [reconcilePerfect, shortfall, hhedged, Option.getD_some]
  | correction => rfl
  | overshoot => rfl
  | hedge =>
    simp only
    generalize hack : venues.lighter.placeIocOrder
      (iocRequest cfg snapshot s.lastMakerDirection.isBuyHl 10 size) = ack
    split_ifs with hfilled
    · rw [(hedgeFill_filled fillPrice size snapshot oid hlFee hack hfilled).2]
      rfl
    · rw [(hedgeFill_unfilled fillPrice size snapshot oid hlFee hack hfilled).2]
      rfl

theorem shortfall_eq (h : LedgerInv past s) (e : MakerEvent) :
    shortfall past (step cfg s e).2 = uncovered cfg s e := by
  cases e with
  | tick nowMs venues => exact tick_shortfall h nowMs
  | trade trade venues => exact trade_shortfall h trade
  | fill fillPrice size snapshot oid hlFee venues =>
    exact fill_shortfall h fillPrice size snapshot oid hlFee

end Calls

/-! ## Runs -/

theorem residual_always {cfg : EngineConfig} {journalAttached : Bool} {p₀ : ℚ}
    {es : List MakerEvent}
    (h : (machine cfg).Throughout (start journalAttached p₀) (fun _ => Settles cfg) es) :
    (machine cfg).Always (start journalAttached p₀)
      (fun l s => LedgerInv l s ∧ (orderLedger l).residual s = 0) es := by
  refine EventMachine.always_of_throughout ?_ ?_ h
  · refine ⟨⟨.of_none rfl, followsOrder_start journalAttached p₀, rfl⟩, ?_⟩
    simp [orderLedger, OrderLedger.residual, outstanding, start, setHlPosition]
  · rintro l s e ⟨hinv, hzero⟩ hsettles
    obtain ⟨hnext, hres⟩ := @step_residual cfg l s e hinv
    refine ⟨hnext, ?_⟩
    rcases hres with hres | ⟨hres, -⟩
    · rw [hzero, zero_add, shortfall_eq hinv] at hres
      exact hres.trans hsettles
    · exact hres

/-- After a run that settled, a closing call leaves the ledger balanced exactly if it settles. -/
theorem closes_balanced_iff {cfg : EngineConfig} {journalAttached : Bool} {p₀ : ℚ}
    {es : List MakerEvent}
    (h : (machine cfg).Throughout (start journalAttached p₀) (fun _ => Settles cfg) es)
    (e : MakerEvent)
    (hcloses : Closes cfg ((machine cfg).final (start journalAttached p₀) es) e) :
    (orderLedger ((machine cfg).obs (start journalAttached p₀) (es ++ [e]))).Balanced ↔
      Settles cfg ((machine cfg).final (start journalAttached p₀) es) e := by
  obtain ⟨hinv, hzero⟩ := (residual_always h).last
  obtain ⟨⟨o, ho, hclosing⟩, -, hunsent⟩ := hcloses
  obtain ⟨-, hres⟩ := @step_residual cfg _ _ e hinv
  rw [EventMachine.obs_snoc]
  refine (OrderLedger.balanced_iff hunsent).trans ?_
  rcases hres with hres | ⟨-, request, ack, hplaced⟩
  · rw [hzero, zero_add, shortfall_eq hinv] at hres
    exact iff_of_eq (congrArg (· = 0) hres)
  · rw [hplaced, List.mem_singleton] at ho
    rw [ho] at hclosing
    cases hclosing

/-- Runs whose calls settle leave no silent residual, and the call after them leaves none exactly
if it settles too. -/
theorem residual_iff (cfg : EngineConfig) (journalAttached : Bool) (p₀ : ℚ)
    (es : List MakerEvent)
    (h : (machine cfg).Throughout (start journalAttached p₀) (fun _ => Settles cfg) es) :
    (machine cfg).Throughout (start journalAttached p₀) (NoSilentResidual cfg) es ∧
      ∀ e, Closes cfg ((machine cfg).final (start journalAttached p₀) es) e →
        ((orderLedger ((machine cfg).obs (start journalAttached p₀) (es ++ [e]))).Balanced ↔
          Settles cfg ((machine cfg).final (start journalAttached p₀) es) e) := by
  refine ⟨fun pre e hpre hcloses => ?_, closes_balanced_iff h⟩
  have hsettled := h.take ((List.prefix_append pre [e]).trans hpre)
  have hbalanced := (closes_balanced_iff hsettled e hcloses).mpr (h pre e hpre)
  rwa [EventMachine.obs_snoc] at hbalanced

/-- A speculative hedge unwound for what its order does not fill, the rest hedged. -/
theorem residual_overshoot :
    (machine sampleConfig).Throughout (start false 0) (NoSilentResidual sampleConfig)
      [tickUp 1000 "1", crossingTrade, fillOf "1" 0.25, fillOf "1" 0.75] :=
  (residual_iff sampleConfig false 0 _ (by decide +kernel)).1

/-- A tick that cancels, with the Lighter exchange rejecting the unwind. -/
def tickDownRejecting (nowMs : Int) : MakerEvent :=
  .tick nowMs { obligingVenues 110 100 nowMs "" with
    lighter := { obligingLighter 100 1 with placeIocOrder := fun _ => { ok := false } } }

/-- The cancel forgets a speculative hedge whose unwind was rejected. -/
theorem rejected_unwind_residual :
    ¬ (machine sampleConfig).Throughout (start false 0) (NoSilentResidual sampleConfig)
      [tickUp 1000 "1", crossingTrade, tickDownRejecting 2000] := by
  decide +kernel

end Arb
