import HlLighterArb.LighterMaker.Moves
import Mathlib.Algebra.BigOperators.Group.List.Basic
import Mathlib.Tactic.Ring

/-!
# HlLighterArb.LighterMaker.Fills

Which fills of its orders `LighterMakerTakerEngine` hedges. The active index is the only link from
a fill to its order: the first fill of an order clears it, whatever is left of the order, and so
does an acknowledged cancel, whatever fill is still queued behind it.

* `openOrder`: the order placed last, until its first fill or an acknowledged cancel.
* `Coupled`: the active index is the open order, and the strategy holds that order.
* `fillsCovered_iff`: a run covers every fill of a placed order exactly when every such fill is one
  of the open order and is answered by its size.
-/

namespace Arb

open LighterMakerTakerEngine

namespace LighterMaker

/-- The order placed last and confirmed resting, until its first fill or an acknowledged cancel. -/
def nextOpen (opened : Option Int) : LighterMakerObs → Option Int
  | .placeLimit _ ack => if ack.ok ∧ ack.restingConfirmed then some ack.orderIndex else opened
  | .cancel _ ack => if ack.ok then none else opened
  | .fill orderIndex _ _ => if opened = some orderIndex then none else opened
  | _ => opened

def openOrder (l : List LighterMakerObs) : Option Int :=
  l.foldl nextOpen none

/-- The request that was last placed and confirmed resting under `orderIndex`. -/
def restingRequest (orderIndex : Int) (l : List LighterMakerObs) :
    Option LighterLimitOrderRequest :=
  l.foldl (fun sent o => match o with
    | .placeLimit request ack =>
      if (ack.ok ∧ ack.restingConfirmed) ∧ ack.orderIndex = orderIndex then some request else sent
    | _ => sent) none

/-- What a taker order takes off a fill of a maker order on side `isAsk`: HL orders in the maker's
direction and Lighter orders against it count, the others count against. -/
def coveredBy (isAsk : Bool) : LighterMakerObs → ℚ
  | .hlIoc request ack => if request.isBuy = isAsk then ack.filledSize else -ack.filledSize
  | .ioc _ request ack => if request.isAsk = isAsk then -ack.executed else ack.executed
  | _ => 0

def covered (isAsk : Bool) (l : List LighterMakerObs) : ℚ :=
  (l.map (coveredBy isAsk)).sum

/-- A fill of a placed order is covered by what the taker orders of the call fill. -/
def CoversFills (cfg : EngineConfig) (past : List LighterMakerObs) (s : LighterMakerTakerEngine)
    (e : LighterMakerEvent) : Prop :=
  ∀ orderIndex size request, e.Delivers orderIndex size →
    restingRequest orderIndex past = some request → covered request.isAsk (step cfg s e).2 = size

/-- What the two exchanges fill of the taker orders for a fill of `size`. -/
def answered (cfg : EngineConfig) (s : LighterMakerTakerEngine) (size : ℚ)
    (snapshot : SpreadSnapshot) (venues : Venues) : ℚ :=
  let ack := venues.hl.placeIocOrder (hedgeRequest cfg snapshot s.lastMakerDirection size)
  if ack.ok ∧ 0 < ack.filledSize then ack.filledSize
  else ack.filledSize + (venues.lighter.placeIocOrder
    (unwindRequest cfg snapshot (s.lastMakerDirection = .longLighterShortHl) size)).executed

/-- A fill of a placed order is one of the open order and is answered by its size. -/
def AnsweredInFull (cfg : EngineConfig) (past : List LighterMakerObs) (s : LighterMakerTakerEngine) :
    LighterMakerEvent → Prop
  | .fill _ size snapshot orderIndex venues =>
    restingRequest orderIndex past ≠ none →
      if openOrder past = some orderIndex then answered cfg s size snapshot venues = size
      else size = 0
  | _ => True

/-! ## The histories -/

section Histories

variable {orderIndex : Int} {l l' : List LighterMakerObs}

theorem openOrder_append : openOrder (l ++ l') = l'.foldl nextOpen (openOrder l) := by
  simp [openOrder]

theorem restingRequest_append_placeLimit {request : LighterLimitOrderRequest}
    {ack : LighterLimitOrderAck} :
    restingRequest orderIndex (l ++ [.placeLimit request ack]) =
      if (ack.ok ∧ ack.restingConfirmed) ∧ ack.orderIndex = orderIndex then some request
      else restingRequest orderIndex l := by
  simp [restingRequest]

theorem restingRequest_append (h : ∀ o ∈ l', o.isPlacement = false) :
    restingRequest orderIndex (l ++ l') = restingRequest orderIndex l := by
  induction l' generalizing l with
  | nil => simp
  | cons o l' ih =>
    have ho : restingRequest orderIndex (l ++ [o]) = restingRequest orderIndex l := by
      have hplain := h o (List.mem_cons_self ..)
      cases o <;> first | (simp [restingRequest]; done) | cases hplain
    have hrest := @ih (l ++ [o]) fun x hx => h x (List.mem_cons_of_mem _ hx)
    rw [List.append_assoc, List.singleton_append] at hrest
    exact hrest.trans ho

end Histories

/-! ## The active index follows the open order -/

/-- The strategy holds `order`, on the side of its direction. -/
structure Holds (h : Hedger) (order : PendingMakerOrder) : Prop where
  busy : h.state ≠ .idle
  pending : h.pendingMaker = some order
  side : order.isBuy = !order.direction.isBuyHl

/-- The active index is the open order, which the strategy holds; a placement waits only while
there is none. -/
structure Coupled (cfg : EngineConfig) (past : List LighterMakerObs) (s : LighterMakerTakerEngine) :
    Prop where
  kind : DeferredMaker s
  active : s.activeLighterOrderIndex = openOrder past
  held : ∀ orderIndex, s.activeLighterOrderIndex = some orderIndex →
    ∃ order, Holds s.strategy order ∧ s.lastMakerDirection = order.direction ∧
      restingRequest orderIndex past = some (limitRequest cfg order)
  waiting : ∀ reason order, s.deferredLighterAction = some (.placeLighterMaker reason order) →
    s.activeLighterOrderIndex = none ∧ Holds s.strategy order

section Moves

variable {cfg : EngineConfig} {s s' b : LighterMakerTakerEngine} {order : PendingMakerOrder}
  {past l : List LighterMakerObs}

theorem Holds.of_eq {h h' : Hedger} (hh : Holds h order) (state : h'.state = h.state)
    (pending : h'.pendingMaker = h.pendingMaker) : Holds h' order :=
  ⟨state ▸ hh.busy, pending ▸ hh.pending, hh.side⟩

/-- A placement is only about to be executed when no order is active, and the strategy holds it. -/
theorem Coupled.place (h : Coupled cfg past s) (hp : PlaceFrom s order b) :
    b.activeLighterOrderIndex = none ∧ openOrder past = none ∧ Holds b.strategy order := by
  cases hp with
  | deferred slot =>
    obtain ⟨hactive, hheld⟩ := h.waiting _ _ slot
    exact ⟨hactive, h.active ▸ hactive, hheld⟩
  | decided idle state pending side =>
    have hactive : s.activeLighterOrderIndex = none := by
      by_contra hne
      obtain ⟨orderIndex, horder⟩ := Option.ne_none_iff_exists'.mp hne
      obtain ⟨order, hholds, -⟩ := h.held orderIndex horder
      exact hholds.busy idle
    refine ⟨hactive, h.active ▸ hactive, ⟨?_, pending, side⟩⟩
    rw [state]
    exact StrategyState.noConfusion

/-- A cancel about to be executed has kept the order, its index and its direction. -/
theorem CancelFrom.holds (hc : CancelFrom s order b) {x : PendingMakerOrder}
    (h : Holds s.strategy x) :
    Holds b.strategy x ∧ b.lastMakerDirection = s.lastMakerDirection := by
  cases hc with
  | deferred => exact ⟨h, rfl⟩
  | decided wasPending wasOrder state pending =>
    refine ⟨⟨?_, ?_, h.side⟩, rfl⟩
    · rw [state]
      exact StrategyState.noConfusion
    · rw [pending, ← wasOrder]
      exact h.pending

/-- No order is active, none is open, and nothing waits to be placed. -/
theorem Coupled.of_inactive (kind : DeferredMaker s) (active : s.activeLighterOrderIndex = none)
    (opened : openOrder past = none)
    (waiting : ∀ reason order, s.deferredLighterAction = some (.placeLighterMaker reason order) →
      Holds s.strategy order) : Coupled cfg past s where
  kind := kind
  active := active.trans opened.symm
  held orderIndex ho := by rw [active] at ho; cases ho
  waiting reason order ho := ⟨active, waiting reason order ho⟩

/-- A step that keeps the active index and the orders held, and moves neither history. -/
theorem Coupled.frame (h : Coupled cfg past s) (kind : DeferredMaker s')
    (quiet : ∀ o ∈ l, o.isPlacement = false) (opened : openOrder (past ++ l) = openOrder past)
    (active : s'.activeLighterOrderIndex = s.activeLighterOrderIndex)
    (holds : ∀ order, Holds s.strategy order →
      Holds s'.strategy order ∧ s'.lastMakerDirection = s.lastMakerDirection)
    (deferred : ∀ reason order, s'.deferredLighterAction = some (.placeLighterMaker reason order) →
      s.deferredLighterAction = some (.placeLighterMaker reason order)) :
    Coupled cfg (past ++ l) s' where
  kind := kind
  active := by rw [active, opened, h.active]
  held orderIndex ho := by
    obtain ⟨order, hholds, hdirection, hrequest⟩ := h.held orderIndex (active ▸ ho)
    obtain ⟨hholds', hdirection'⟩ := holds order hholds
    exact ⟨order, hholds', hdirection'.trans hdirection,
      (restingRequest_append quiet).trans hrequest⟩
  waiting reason order ho := by
    obtain ⟨hactive, hholds⟩ := h.waiting reason order (deferred reason order ho)
    exact ⟨active.trans hactive, (holds order hholds).1⟩

theorem Move.coupled (hm : Move cfg s l s') (h : Coupled cfg past s) :
    Coupled cfg (past ++ l) s' := by
  have hkind := hm.deferredMaker h.kind
  cases hm with
  | quiet state pending =>
    exact h.frame hkind (by simp) (by simp)
      rfl (fun order hholds => ⟨hholds.of_eq state pending, rfl⟩) fun _ _ ho => ho
  | placeDeferred origin =>
    obtain ⟨hactive, hopened, hholds⟩ := h.place origin
    refine .of_inactive hkind hactive (by simpa using hopened) fun _ _ ho => ?_
    cases ho
    exact hholds
  | @placeAcked order b origin ack acked =>
    obtain ⟨-, -, hholds⟩ := h.place origin
    refine ⟨hkind, ?_, fun orderIndex ho => ?_, fun _ _ ho => by cases ho⟩
    · simp [openOrder_append, nextOpen, acked]
    · cases ho
      exact ⟨order, hholds, rfl, by simp [restingRequest_append_placeLimit, acked]⟩
  | placeNacked origin nacked =>
    obtain ⟨hactive, hopened, -⟩ := h.place origin
    refine .of_inactive hkind hactive ?_ fun _ _ ho => by cases ho
    simp [openOrder_append, nextOpen, nacked, hopened]
  | cancelDeferred origin =>
    exact h.frame hkind (by simp) (by simp) origin.active_eq (fun _ => origin.holds)
      fun _ _ ho => by cases ho
  | cancelIdle origin =>
    exact h.frame hkind (by simp) (by simp) origin.active_eq (fun _ => origin.holds)
      fun _ _ ho => by cases ho
  | cancelAcked origin active acked =>
    refine .of_inactive hkind rfl ?_ fun _ _ ho => by cases ho
    simp [openOrder_append, nextOpen, acked]
  | cancelNacked origin active nacked =>
    exact h.frame hkind (by simp [LighterMakerObs.isPlacement])
      (by simp [openOrder_append, nextOpen, nacked]) origin.active_eq (fun _ => origin.holds)
      fun _ _ ho => by cases ho

theorem FillMove.coupled {orderIndex : Int} {size : ℚ} (hm : FillMove cfg s orderIndex size l s')
    (h : Coupled cfg past s) : Coupled cfg (past ++ l) s' := by
  have hkind := hm.deferredMaker h.kind
  -- an active order excludes a waiting placement
  have halone : s.activeLighterOrderIndex = some orderIndex → ∀ reason order,
      s.deferredLighterAction = some (.placeLighterMaker reason order) → False := by
    intro hactive reason order ho
    have hnone := (h.waiting reason order ho).1
    rw [hactive] at hnone
    cases hnone
  cases hm with
  | ignored inactive =>
    rw [h.active] at inactive
    exact h.frame hkind (by simp [LighterMakerObs.isPlacement])
      (by simp [openOrder_append, nextOpen, inactive]) rfl (fun _ hholds => ⟨hholds, rfl⟩)
      fun _ _ ho => ho
  | unheld active none_pending =>
    obtain ⟨order, hholds, -⟩ := h.held orderIndex active
    rw [hholds.pending] at none_pending
    cases none_pending
  | hedged active =>
    refine .of_inactive hkind rfl ?_ fun reason order ho => (halone active reason order ho).elim
    simp [openOrder_append, nextOpen, ← h.active, active]
  | unwound active =>
    refine .of_inactive hkind rfl ?_ fun reason order ho => (halone active reason order ho).elim
    simp [openOrder_append, nextOpen, ← h.active, active]

/-- What the call of a fill covers: what the exchanges answer if the order is the open one, nothing
otherwise. -/
theorem Coupled.covered_fill (h : Coupled cfg past s) {orderIndex : Int}
    {request : LighterLimitOrderRequest} (hrequest : restingRequest orderIndex past = some request)
    (fillPrice size : ℚ) (snapshot : SpreadSnapshot) (venues : Venues) :
    covered request.isAsk (step cfg s (.fill fillPrice size snapshot orderIndex venues)).2 =
      if openOrder past = some orderIndex then answered cfg s size snapshot venues else 0 := by
  rw [← h.active]
  simp only [step, onLighterFill, covered, List.map_cons, List.sum_cons, coveredBy, zero_add]
  by_cases hactive : s.activeLighterOrderIndex = some orderIndex
  · obtain ⟨order, hholds, hdirection, hsent⟩ := h.held orderIndex hactive
    have hask : request.isAsk = order.direction.isBuyHl := by
      rw [hsent] at hrequest
      cases hrequest
      simp [limitRequest, hholds.side]
    rw [if_pos hactive, if_pos hactive, hask, answered, hdirection]
    simp only [LighterMakerHlHedger.onLighterMakerFill, hholds.pending, executeAction,
      executeSendHlTakerHedge, LighterMakerHlHedger.buildHlHedge, hedgeRequest]
    -- the HL order is on the maker's direction, the Lighter order against its side
    cases order.direction <;> split_ifs <;> simp [coveredBy, Direction.isBuyHl, unwindRequest]
  · simp [if_neg hactive]

theorem Coupled.covers_iff (h : Coupled cfg past s) (e : LighterMakerEvent) :
    CoversFills cfg past s e ↔ AnsweredInFull cfg past s e := by
  cases e with
  | tick nowMs venues => exact iff_of_true (fun _ _ _ hd => hd.elim) trivial
  | fill fillPrice size snapshot orderIndex venues =>
    constructor
    · intro hcovers hsent
      obtain ⟨request, hrequest⟩ := Option.ne_none_iff_exists'.mp hsent
      have htotal := hcovers orderIndex size request ⟨rfl, rfl⟩ hrequest
      rw [h.covered_fill hrequest] at htotal
      split_ifs with hopen
      · rwa [if_pos hopen] at htotal
      · rw [if_neg hopen] at htotal
        exact htotal.symm
    · rintro hanswered _ _ request ⟨rfl, rfl⟩ hrequest
      have hfull := hanswered (by rw [hrequest]; exact Option.some_ne_none _)
      rw [h.covered_fill hrequest]
      split_ifs with hopen
      · rwa [if_pos hopen] at hfull
      · rw [if_neg hopen] at hfull
        exact hfull.symm

end Moves

/-! ## Runs -/

theorem coupled_start (cfg : EngineConfig) (journalAttached : Bool) :
    Coupled cfg [] (start journalAttached) :=
  .of_inactive (.of_none rfl) rfl rfl fun _ _ ho => by cases ho

theorem Coupled.step {cfg : EngineConfig} {past : List LighterMakerObs}
    {s : LighterMakerTakerEngine} (h : Coupled cfg past s) (e : LighterMakerEvent) :
    Coupled cfg (past ++ (step cfg s e).2) (step cfg s e).1 :=
  step_preserves h.kind e (fun _ _ _ _ hI hm => hm.coupled hI) (fun _ _ _ _ _ hm => hm.coupled h) h

theorem coupled_always (cfg : EngineConfig) (journalAttached : Bool) (es : List LighterMakerEvent) :
    (machine cfg).Always (start journalAttached) (Coupled cfg) es :=
  EventMachine.invariant (coupled_start cfg journalAttached) (fun _ _ e h => h.step e) es

/-- A run covers every fill of a placed order exactly when every such fill is the first of the
order placed last, with no cancel acknowledged in between, and the exchanges fill its size. -/
theorem fillsCovered_iff (cfg : EngineConfig) (journalAttached : Bool)
    (es : List LighterMakerEvent) :
    (machine cfg).Throughout (start journalAttached) (CoversFills cfg) es ↔
      (machine cfg).Throughout (start journalAttached) (AnsweredInFull cfg) es :=
  (coupled_always cfg journalAttached es).throughout_congr fun _ _ e h => h.covers_iff e

/-- A tick with Lighter above HL; an order placed gets index 1. -/
def tickUp (nowMs : Int) : LighterMakerEvent :=
  .tick nowMs (obligingVenues 100 110 nowMs "")

def fillOf (orderIndex : Int) (size : ℚ) : LighterMakerEvent :=
  .fill 111 size (spreadSnapshot (bookAround 100) (bookAround 110)) orderIndex
    (obligingVenues 100 110 0 "")

/-- Order 1 fills in two parts: the first part is hedged in full, the second is dropped. -/
theorem second_part_uncovered :
    ¬ (machine sampleConfig).Throughout (start false) (CoversFills sampleConfig)
      [tickUp 1000, fillOf 1 0.25, fillOf 1 0.75] := by
  intro h
  have hplaced : restingRequest 1 ((machine sampleConfig).obs (start false)
      [tickUp 1000, fillOf 1 0.25]) ≠ none := by decide +kernel
  obtain ⟨request, hrequest⟩ := Option.ne_none_iff_exists'.mp hplaced
  have hfill := h [tickUp 1000, fillOf 1 0.25] (fillOf 1 0.75) (List.prefix_refl _) 1 0.75 request
    ⟨rfl, rfl⟩ hrequest
  have hnothing : (step sampleConfig ((machine sampleConfig).final (start false)
      [tickUp 1000, fillOf 1 0.25]) (fillOf 1 0.75)).2 = [.fill 1 0.75 false] := by decide +kernel
  rw [hnothing] at hfill
  norm_num [covered, coveredBy] at hfill

end LighterMaker

end Arb
