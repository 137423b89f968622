import HlLighterArb.Maker.Fills

/-!
# HlLighterArb.Maker.Coupling

The engine's active oid and the strategy's pending order are two copies of one order. `on_hl_fill`
resets the strategy without emptying the deferred slot, so a placement that waits for the rate
limiter can be sent after the strategy has forgotten it.

* `Coupled`: the order out under the active oid is the one the strategy holds.
* `Slot`: what the deferred slot can hold, in every reachable state.
* `NoOrphan`: this call does not get a deferred placement acknowledged while the strategy is idle.
* `coupled_iff`: a run keeps `Coupled` exactly when all its calls meet `NoOrphan`.
-/

namespace Arb

open MakerHedgeEngine

/-- The request that was acknowledged last under `oid`. -/
def sentUnder (oid : String) (l : List MakerObs) : Option HlLimitOrderRequest :=
  l.foldl (fun sent o => match o with
    | .placeLimit request ack => if ack.ok ∧ ack.oid = oid then some request else sent
    | _ => sent) none

theorem sentUnder_append_placeLimit {oid : String} {l : List MakerObs}
    {request : HlLimitOrderRequest} {ack : HlLimitOrderAck} :
    sentUnder oid (l ++ [.placeLimit request ack]) =
      if ack.ok ∧ ack.oid = oid then some request else sentUnder oid l := by
  simp [sentUnder]

theorem sentUnder_append {oid : String} {l l' : List MakerObs}
    (h : ∀ o ∈ l', o.isPlacement = false) : sentUnder oid (l ++ l') = sentUnder oid l := by
  induction l' generalizing l with
  | nil => simp
  | cons o l' ih =>
    have ho : sentUnder oid (l ++ [o]) = sentUnder oid l := by
      have hplain := h o (List.mem_cons_self ..)
      cases o <;> first | (simp [sentUnder]; done) | cases hplain
    have hrest := @ih (l ++ [o]) fun x hx => h x (List.mem_cons_of_mem _ hx)
    rw [List.append_assoc, List.singleton_append] at hrest
    exact hrest.trans ho

/-- The order out under the active oid is the one the strategy holds: same direction, side, price
and size as the request that was sent, and `last_maker_direction_` its direction. -/
def Coupled (cfg : EngineConfig) (l : List MakerObs) (s : MakerHedgeEngine) : Prop :=
  ∀ oid, s.activeHlOid = some oid → ∃ order, s.strategy.holds order = true ∧
    sentUnder oid l = some (limitRequest cfg order) ∧ order.isBuy = order.direction.isBuyHl ∧
    s.lastMakerDirection = order.direction

/-! ## The deferred slot -/

/-- A deferred action is a placement or a cancel; a deferred placement is on the side of its
direction, and the strategy holds it unless it was reset since. -/
structure Slot (s : MakerHedgeEngine) : Prop where
  kind : DeferredMaker s
  side : ∀ reason order, s.deferredHlAction = some (.placeHlMaker reason order) →
    order.isBuy = order.direction.isBuyHl
  held : ∀ reason order, s.deferredHlAction = some (.placeHlMaker reason order) →
    s.strategy.state = .idle ∨ s.strategy.holds order = true

theorem Hedger.holds_of_eq {h h' : Hedger} {order : PendingMakerOrder}
    (state : h'.state = h.state) (pending : h'.pendingMaker = h.pendingMaker) :
    h'.holds order = h.holds order := by
  rw [Hedger.holds, Hedger.holds, state, pending]

/-- An idle strategy holds nothing. -/
theorem Hedger.not_idle_of_holds {h : Hedger} {order : PendingMakerOrder}
    (hh : h.holds order = true) : h.state ≠ .idle := by
  rcases (Hedger.holds_iff.mp hh).1 with hs | hs <;> rw [hs] <;> exact StrategyState.noConfusion

section Moves

variable {cfg : EngineConfig} {ok : MakerHedgeEngine → PendingMakerOrder → Prop}
  {s s' b : MakerHedgeEngine} {order : PendingMakerOrder}

theorem Slot.of_no_placement (hkind : DeferredMaker s)
    (h : ∀ reason order, s.deferredHlAction ≠ some (.placeHlMaker reason order)) : Slot s :=
  ⟨hkind, fun r o ho => absurd ho (h r o), fun r o ho => absurd ho (h r o)⟩

theorem Slot.of_none (h : s.deferredHlAction = none) : Slot s := by
  refine .of_no_placement (.of_none h) fun r o ho => ?_
  rw [h] at ho
  cases ho

/-- The slot is untouched and the strategy holds what it held, or is idle. -/
theorem Slot.frame (h : Slot s) (slot : s'.deferredHlAction = s.deferredHlAction)
    (strategy : s'.strategy.state = .idle ∨
      s'.strategy.state = s.strategy.state ∧ s'.strategy.pendingMaker = s.strategy.pendingMaker) :
    Slot s' where
  kind a ha := h.kind a (slot ▸ ha)
  side reason order ho := h.side reason order (slot ▸ ho)
  held reason order ho := by
    rcases strategy with hidle | ⟨hstate, hpending⟩
    · exact .inl hidle
    · rw [hstate, Hedger.holds_of_eq hstate hpending]
      exact h.held reason order (slot ▸ ho)

/-- A placement about to be executed is on its side, and held unless the strategy is idle. -/
theorem PlaceFrom.held (hp : PlaceFrom s order b) (h : Slot s) :
    order.isBuy = order.direction.isBuyHl ∧
      (b.strategy.state = .idle ∨ b.strategy.holds order = true) := by
  cases hp with
  | deferred slot => exact ⟨h.side _ _ slot, h.held _ _ slot⟩
  | decided idle state pending side =>
    exact ⟨side, .inr (Hedger.holds_iff.mpr ⟨.inl state, pending⟩)⟩

/-- A cancel about to be executed has kept what the strategy holds. -/
theorem CancelFrom.holds_eq (hc : CancelFrom s order b) {x : PendingMakerOrder} :
    b.strategy.holds x = s.strategy.holds x := by
  cases hc with
  | deferred => rfl
  | decided wasPending wasOrder state pending =>
    simp [Hedger.holds, wasPending, wasOrder, state, pending]

theorem Move.slot {l : List MakerObs} (hm : Move cfg ok s l s') (h : Slot s) : Slot s' := by
  have hkind := hm.deferredMaker h.kind
  cases hm with
  | quiet state pending => exact h.frame rfl (.inr ⟨state, pending⟩)
  | placeBlocked origin =>
    cases origin with
    | deferred => exact .of_none rfl
    | decided => exact h.frame rfl (.inl rfl)
  | placeDeferred origin reason retryAt =>
    obtain ⟨hside, hheld⟩ := origin.held h
    refine ⟨hkind, fun r o ho => ?_, fun r o ho => ?_⟩
    · cases ho
      exact hside
    · cases ho
      exact hheld
  | placeAcked => exact .of_none rfl
  | placeNacked => exact .of_none rfl
  | cancelDeferred => exact .of_no_placement hkind fun r o ho => by cases ho
  | cancelIdle => exact .of_none rfl
  | cancelAcked => exact .of_none rfl
  | cancelNacked => exact .of_none rfl
  | tradeIgnored => exact h.frame rfl (.inr ⟨rfl, rfl⟩)
  | speculated => exact h.frame rfl (.inr ⟨rfl, rfl⟩)
  | speculationFailed => exact h.frame rfl (.inr ⟨rfl, rfl⟩)

theorem FillMove.slot {oid : String} {size : ℚ} {l : List MakerObs}
    (hm : FillMove cfg s oid size l s') (h : Slot s) : Slot s' := by
  cases hm with
  | unknown => exact h
  | perfect => exact h.frame rfl (.inl rfl)
  | correction => exact h.frame rfl (.inl rfl)
  | overshoot => exact h.frame rfl (.inr ⟨rfl, rfl⟩)
  | hedged => exact h.frame rfl (.inl rfl)
  | unwound => exact h.frame rfl (.inl rfl)

/-! ## Coupling is inductive under `NoOrphan` -/

/-- The coupling, with what keeps it inductive: while an order is out, nothing else waits to be
placed. -/
structure CoupledInv (cfg : EngineConfig) (l : List MakerObs) (s : MakerHedgeEngine) : Prop where
  slot : Slot s
  coupled : Coupled cfg l s
  alone : s.activeHlOid ≠ none →
    ∀ reason order, s.deferredHlAction ≠ some (.placeHlMaker reason order)

theorem CoupledInv.of_inactive {l : List MakerObs} (slot : Slot s) (h : s.activeHlOid = none) :
    CoupledInv cfg l s := by
  refine ⟨slot, fun oid ho => ?_, fun hne => absurd h hne⟩
  rw [h] at ho
  cases ho

/-- A placement is only about to be executed when no order is out. -/
theorem CoupledInv.inactive {l : List MakerObs} (h : CoupledInv cfg l s)
    (hp : PlaceFrom s order b) : b.activeHlOid = none := by
  rw [hp.active_eq]
  by_contra hne
  obtain ⟨oid, hoid⟩ := Option.ne_none_iff_exists'.mp hne
  cases hp with
  | deferred slot => exact h.alone hne _ _ slot
  | decided idle =>
    obtain ⟨order, hholds, -⟩ := h.coupled oid hoid
    exact Hedger.not_idle_of_holds hholds idle

/-- A step that sends no placement and keeps what the strategy holds, the active oid and its
direction. -/
theorem CoupledInv.frame {past l : List MakerObs} (h : CoupledInv cfg past s) (slot : Slot s')
    (quiet : ∀ o ∈ l, o.isPlacement = false) (active : s'.activeHlOid = s.activeHlOid)
    (holds : ∀ x, s'.strategy.holds x = s.strategy.holds x)
    (direction : s'.lastMakerDirection = s.lastMakerDirection)
    (deferred : ∀ reason order, s'.deferredHlAction = some (.placeHlMaker reason order) →
      s.deferredHlAction = some (.placeHlMaker reason order)) :
    CoupledInv cfg (past ++ l) s' where
  slot := slot
  coupled oid ho := by
    obtain ⟨order, hholds, hsent, hside, hdir⟩ := h.coupled oid (active ▸ ho)
    exact ⟨order, (holds order).trans hholds, (sentUnder_append quiet).trans hsent, hside,
      direction.trans hdir⟩
  alone hne reason order ho := h.alone (active ▸ hne) reason order (deferred reason order ho)

theorem Move.coupledInv {past l : List MakerObs}
    (hm : Move cfg (fun b order => b.strategy.holds order = true) s l s')
    (h : CoupledInv cfg past s) : CoupledInv cfg (past ++ l) s' := by
  have hslot := hm.slot h.slot
  cases hm with
  | quiet state pending =>
    exact h.frame hslot (by simp) rfl (fun x => Hedger.holds_of_eq state pending) rfl
      fun _ _ ho => ho
  | placeBlocked origin =>
    have hinactive := h.inactive origin
    exact .of_inactive hslot hinactive
  | placeDeferred origin =>
    have hinactive := h.inactive origin
    exact .of_inactive hslot hinactive
  | @placeAcked order b origin holds ack acked venues steadyMs =>
    refine ⟨hslot, fun oid ho => ?_, fun _ _ _ hd => by cases hd⟩
    cases ho
    exact ⟨order, holds, by rw [sentUnder_append_placeLimit, if_pos ⟨acked, rfl⟩],
      (origin.held h.slot).1, rfl⟩
  | placeNacked origin =>
    have hinactive := h.inactive origin
    exact .of_inactive hslot hinactive
  | cancelDeferred origin =>
    exact h.frame hslot (by simp) origin.active_eq (fun _ => origin.holds_eq) origin.direction_eq
      fun _ _ ho => by cases ho
  | cancelIdle origin inactive =>
    exact .of_inactive hslot (origin.active_eq.trans inactive)
  | cancelAcked => exact .of_inactive hslot rfl
  | cancelNacked origin =>
    exact h.frame hslot (by simp [MakerObs.isPlacement]) origin.active_eq
      (fun _ => origin.holds_eq) origin.direction_eq fun _ _ ho => by cases ho
  | tradeIgnored => exact h.frame hslot (by simp) rfl (fun _ => rfl) rfl fun _ _ ho => ho
  | speculated =>
    exact h.frame hslot (by simp [MakerObs.isPlacement]) rfl (fun _ => rfl) rfl fun _ _ ho => ho
  | speculationFailed =>
    exact h.frame hslot (by simp [MakerObs.isPlacement]) rfl (fun _ => rfl) rfl fun _ _ ho => ho

theorem FillMove.coupledInv {past l : List MakerObs} {oid : String} {size : ℚ}
    (hm : FillMove cfg s oid size l s') (h : CoupledInv cfg past s) :
    CoupledInv cfg (past ++ l) s' := by
  have hslot := hm.slot h.slot
  cases hm with
  | unknown =>
    exact h.frame hslot (by simp [MakerObs.isPlacement]) rfl (fun _ => rfl) rfl fun _ _ ho => ho
  | perfect => exact .of_inactive hslot rfl
  | correction => exact .of_inactive hslot rfl
  | overshoot =>
    exact h.frame hslot (by simp [MakerObs.isPlacement]) rfl (fun _ => rfl) rfl fun _ _ ho => ho
  | hedged => exact .of_inactive hslot rfl
  | unwound => exact .of_inactive hslot rfl

end Moves

/-- The call does not get a deferred placement acknowledged while the strategy is idle. -/
def NoOrphan (cfg : EngineConfig) (s : MakerHedgeEngine) : MakerEvent → Prop
  | .tick nowMs venues => deferredAcked cfg s nowMs venues ≠ none → s.strategy.state ≠ .idle
  | _ => True

instance (cfg : EngineConfig) (s : MakerHedgeEngine) : (e : MakerEvent) → Decidable (NoOrphan cfg s e)
  | .tick nowMs venues => inferInstanceAs (Decidable
      (deferredAcked cfg s nowMs venues ≠ none → s.strategy.state ≠ .idle))
  | .trade _ _ => .isTrue trivial
  | .fill _ _ _ _ _ _ => .isTrue trivial

theorem deferredAcked_slot {cfg : EngineConfig} {s : MakerHedgeEngine} {nowMs : Int}
    {venues : Venues} {order : PendingMakerOrder}
    (h : deferredAcked cfg s nowMs venues = some order) :
    ∃ reason, s.deferredHlAction = some (.placeHlMaker reason order) := by
  unfold deferredAcked at h
  split at h
  · rename_i reason o hslot
    split_ifs at h
    cases h
    exact ⟨reason, hslot⟩
  · cases h

/-- In a call that sends no orphan, only orders the strategy holds are placed. -/
theorem NoOrphan.step_preserves {cfg : EngineConfig} {s : MakerHedgeEngine} {e : MakerEvent}
    {I : List MakerObs → MakerHedgeEngine → Prop} {past : List MakerObs}
    (hclean : NoOrphan cfg s e) (hslot : Slot s)
    (hmove : ∀ past s l s', I past s →
      Move cfg (fun b order => b.strategy.holds order = true) s l s' → I (past ++ l) s')
    (hfill : ∀ oid size l s', e.Delivers oid size → FillMove cfg s oid size l s' →
      I (past ++ l) s')
    (h : I past s) : I (past ++ (step cfg s e).2) (step cfg s e).1 := by
  refine Arb.step_preserves hslot.kind e (fun _ _ _ _ _ _ hb => hb) ?_ hmove hfill h
  rintro nowMs venues order rfl hacked
  obtain ⟨reason, hdeferred⟩ := deferredAcked_slot hacked
  have hbusy := hclean (by rw [hacked]; exact Option.some_ne_none _)
  exact (hslot.held reason order hdeferred).resolve_left hbusy

/-- A deferred placement acknowledged while the strategy is idle breaks the coupling. -/
theorem deferredAcked_uncouples {cfg : EngineConfig} {l : List MakerObs} {s : MakerHedgeEngine}
    {nowMs : Int} {venues : Venues} {order : PendingMakerOrder}
    (hacked : deferredAcked cfg s nowMs venues = some order) (hidle : s.strategy.state = .idle) :
    ¬ Coupled cfg l (onMarketData cfg venues s nowMs).state := by
  obtain ⟨reason, hslot⟩ := deferredAcked_slot hacked
  have hrun : s.retryDue nowMs = true ∧
      s.limitBlocks cfg (collectSnapshot cfg venues).hl.mid order.isBuy = false ∧
      s.hlPlaceRetryAtMs cfg venues.clock.retrySteadyMs = none ∧
      (venues.hl.placeLimitOrder (limitRequest cfg order)).ok = true := by
    rw [deferredAcked, hslot] at hacked
    simp only at hacked
    split_ifs at hacked with h
    exact h
  obtain ⟨hdue, hblock, hretry, hack⟩ := hrun
  have hblock' : s.takeDeferred.limitBlocks cfg (collectSnapshot cfg venues).hl.mid order.isBuy =
      false := hblock
  have hretry' : s.takeDeferred.hlPlaceRetryAtMs cfg venues.clock.retrySteadyMs = none := hretry
  have hdeferred : executeDeferredHlAction cfg venues s nowMs (collectSnapshot cfg venues) =
      executePlaceHlMaker cfg venues venues.clock.retrySteadyMs s.takeDeferred reason order
        (collectSnapshot cfg venues) := by
    rw [executeDeferredHlAction, hslot]
    exact if_pos hdue
  simp only [onMarketData, hdeferred, executePlaceHlMaker, hblock', hretry', hack, if_true,
    Bool.false_eq_true, if_false, List.isEmpty_cons]
  intro hcoupled
  obtain ⟨held, hholds, -⟩ := hcoupled _ rfl
  exact Hedger.not_idle_of_holds hholds hidle

theorem coupledInv_start (cfg : EngineConfig) (journalAttached : Bool) (p₀ : ℚ) :
    CoupledInv cfg [] (start journalAttached p₀) :=
  .of_inactive (.of_none rfl) rfl

/-- Runs without orphans keep the coupling. -/
theorem coupledInv_always {cfg : EngineConfig} {journalAttached : Bool} {p₀ : ℚ}
    {es : List MakerEvent}
    (h : (machine cfg).Throughout (start journalAttached p₀) (fun _ s e => NoOrphan cfg s e) es) :
    (machine cfg).Always (start journalAttached p₀) (CoupledInv cfg) es := by
  refine EventMachine.always_of_throughout (coupledInv_start cfg journalAttached p₀) ?_ h
  intro l s e hinv hclean
  exact hclean.step_preserves hinv.slot (fun _ _ _ _ hI hm => hm.coupledInv hI)
    (fun _ _ _ _ _ hm => hm.coupledInv hinv) hinv

theorem coupled_iff (cfg : EngineConfig) (journalAttached : Bool) (p₀ : ℚ) (es : List MakerEvent) :
    (machine cfg).Always (start journalAttached p₀) (Coupled cfg) es ↔
      (machine cfg).Throughout (start journalAttached p₀) (fun _ s e => NoOrphan cfg s e) es := by
  constructor
  · intro h pre e hpre
    cases e with
    | tick nowMs venues =>
      intro hacked hidle
      obtain ⟨order, horder⟩ := Option.ne_none_iff_exists'.mp hacked
      have hnext := h _ hpre
      rw [EventMachine.final_snoc] at hnext
      exact deferredAcked_uncouples horder hidle hnext
    | _ => trivial
  · exact fun h => (coupledInv_always h).mono fun _ _ hinv => hinv.coupled

/-- Order `"1"` fills in part; the next order waits for the limiter while another part of `"1"`
fills, and is then placed as `"2"` with the strategy idle. -/
theorem orphan_uncoupled :
    ¬ (machine sampleConfig).Always (start false 0) (Coupled sampleConfig)
      [tickUp 1000 "1", fillOf "1" 0.25, tickUp 1100 "", fillOf "1" 0.25, tickUp 1300 "2"] := by
  intro h
  have hactive : ((machine sampleConfig).final (start false 0)
      [tickUp 1000 "1", fillOf "1" 0.25, tickUp 1100 "", fillOf "1" 0.25, tickUp 1300 "2"]
      ).activeHlOid = some "2" := by decide +kernel
  obtain ⟨order, hholds, -⟩ := h.last "2" hactive
  refine Hedger.not_idle_of_holds hholds ?_
  decide +kernel

end Arb
