import HlLighterArb.Maker.Coupling

/-!
# HlLighterArb.Maker.OrderBook

How many maker orders are working on HL. `on_hl_fill` forgets the active oid at the first fill it
hedges, whether or not the fill completes the order; the rest of the order stays on the book and
the next tick may place another one.

* `orderTally`: the orders live on HL, by the acknowledgements and fill messages of the run.
* `SingleLive`: at most one order is live, and it is the active one.
* `FillSettles`: a fill of a live order completes it or falls short of an outstanding speculative
  hedge.
* `singleLive_always`: runs whose calls meet `FillSettles` and `NoOrphan` keep `SingleLive`.
-/

namespace Arb

open MakerHedgeEngine

/-- What every oid has filled, and the live orders with their sizes: acknowledged, not completely
filled, not acknowledged as cancelled. -/
structure OrderTally where
  filled : String → ℚ := fun _ => 0
  live : List (String × ℚ) := []

def OrderTally.next (t : OrderTally) : MakerObs → OrderTally
  | .placeLimit request ack =>
    if ack.ok ∧ t.filled ack.oid < request.size then
      { t with live := t.live ++ [(ack.oid, request.size)] }
    else t
  | .fill oid size _ =>
    let filled := fun o => if o = oid then t.filled o + size else t.filled o
    { filled, live := t.live.filter fun x => filled x.1 < x.2 }
  | .cancel oid ack =>
    if ack.ok then { t with live := t.live.filter fun x => x.1 ≠ oid } else t
  | .ioc _ _ _ => t
  | .reduce _ _ _ => t

def orderTally (l : List MakerObs) : OrderTally :=
  l.foldl OrderTally.next {}

theorem orderTally_append (l l' : List MakerObs) :
    orderTally (l ++ l') = l'.foldl OrderTally.next (orderTally l) := by
  simp [orderTally]

/-- At most one order is live, and a live order can be cancelled: its oid is the active one. -/
def SingleLive (l : List MakerObs) (s : MakerHedgeEngine) : Prop :=
  (orderTally l).live.length ≤ 1 ∧ ∀ x ∈ (orderTally l).live, s.activeHlOid = some x.1

instance (l : List MakerObs) (s : MakerHedgeEngine) : Decidable (SingleLive l s) :=
  inferInstanceAs (Decidable (_ ∧ _))

/-- The fill is short of the outstanding speculative hedge. -/
def OrderLife.short (life : OrderLife) (size : ℚ) : Prop :=
  ∃ hedgeSize ∈ life.hedged, ¬ coversHedge size hedgeSize

instance (life : OrderLife) (size : ℚ) : Decidable (life.short size) :=
  inferInstanceAs (Decidable (∃ hedgeSize ∈ life.hedged, ¬ coversHedge size hedgeSize))

/-- A fill of a live order completes it or is short of the outstanding speculative hedge. -/
def FillSettles (l : List MakerObs) : MakerEvent → Prop
  | .fill _ size _ oid _ _ => ∀ x ∈ (orderTally l).live, x.1 = oid →
      x.2 ≤ (orderTally l).filled oid + size ∨ (orderLife l).short size
  | _ => True

instance (l : List MakerObs) : (e : MakerEvent) → Decidable (FillSettles l e)
  | .fill _ size _ oid _ _ => inferInstanceAs (Decidable (∀ x ∈ (orderTally l).live, x.1 = oid →
      x.2 ≤ (orderTally l).filled oid + size ∨ (orderLife l).short size))
  | .tick _ _ => .isTrue trivial
  | .trade _ _ => .isTrue trivial

namespace SingleLive

variable {past l : List MakerObs} {s s' : MakerHedgeEngine} {oid : String} {size : ℚ}

theorem of_empty (h : (orderTally l).live = []) : SingleLive l s := by
  simp [SingleLive, h]

theorem empty_of_inactive (h : SingleLive past s) (inactive : s.activeHlOid = none) :
    (orderTally past).live = [] := by
  rw [List.eq_nil_iff_forall_not_mem]
  intro x hx
  have hactive := h.2 x hx
  rw [inactive] at hactive
  cases hactive

/-- A step that only drops live orders and keeps the active oid. -/
theorem frame (h : SingleLive past s)
    (live : (orderTally (past ++ l)).live.Sublist (orderTally past).live)
    (active : s'.activeHlOid = s.activeHlOid) : SingleLive (past ++ l) s' :=
  ⟨live.length_le.trans h.1, fun x hx => active.trans (h.2 x (live.subset hx))⟩

/-- A fill that completes the live order leaves none. -/
theorem closes (h : SingleLive past s) (hfollows : FollowsOrder (orderLife past) s)
    (hlast : (orderLife past).last = some oid) (path : FillPath)
    (hcomplete : ∀ x ∈ (orderTally past).live, x.1 = oid →
      x.2 ≤ (orderTally past).filled oid + size) :
    ((orderTally past).next (.fill oid size path)).live = [] := by
  rw [List.eq_nil_iff_forall_not_mem]
  intro x hx
  simp only [OrderTally.next, List.mem_filter, decide_eq_true_eq] at hx
  obtain ⟨hmem, hopen⟩ := hx
  -- the only live order is the active one, which is the one acknowledged last
  have hoid : x.1 = oid := by
    have hx := hfollows.active x.1 (h.2 x hmem)
    rw [hlast] at hx
    exact (Option.some.inj hx).symm
  rw [if_pos hoid, hoid] at hopen
  exact absurd (hcomplete x hmem hoid) (not_le.mpr hopen)

end SingleLive

section Moves

variable {cfg : EngineConfig} {s s' : MakerHedgeEngine} {past l : List MakerObs}

/-- Single liveness, with the invariants that keep it. -/
structure LiveInv (cfg : EngineConfig) (l : List MakerObs) (s : MakerHedgeEngine) : Prop where
  coupled : CoupledInv cfg l s
  follows : FollowsOrder (orderLife l) s
  single : SingleLive l s

theorem Move.singleLive
    (hm : Move cfg (fun b order => b.strategy.holds order = true) s l s')
    (h : LiveInv cfg past s) : SingleLive (past ++ l) s' := by
  have hsame : ∀ {s'' : MakerHedgeEngine}, l.foldl OrderTally.next (orderTally past) =
      orderTally past → s''.activeHlOid = s.activeHlOid → SingleLive (past ++ l) s'' := by
    intro s'' htally hactive
    refine h.single.frame ?_ hactive
    rw [orderTally_append, htally]
  cases hm with
  | quiet => exact hsame rfl rfl
  | placeBlocked origin => exact hsame rfl origin.active_eq
  | placeDeferred origin => exact hsame rfl origin.active_eq
  | placeAcked origin _ acked =>
    -- no order is out when a placement is sent, so the new one is alone
    have hempty : (orderTally past).live = [] :=
      h.single.empty_of_inactive (origin.active_eq ▸ h.coupled.inactive origin)
    simp only [SingleLive, orderTally_append, List.foldl_cons, List.foldl_nil, OrderTally.next,
      acked, true_and]
    split_ifs <;> simp [hempty, acceptPlacement, clearSpeculative]
  | placeNacked origin nacked =>
    exact hsame (by simp [OrderTally.next, nacked]) origin.active_eq
  | cancelDeferred origin => exact hsame rfl origin.active_eq
  | cancelIdle origin => exact hsame rfl origin.active_eq
  | cancelAcked origin active acked unwind _ snapshot venues unwinds =>
    refine .of_empty ?_
    have hunwind : ∀ t : OrderTally, unwind.foldl OrderTally.next t = t := by
      intro t
      rw [unwinds]
      split_ifs <;> rfl
    rw [orderTally_append, List.foldl_cons, hunwind, List.eq_nil_iff_forall_not_mem]
    intro x hx
    simp only [OrderTally.next, acked, if_true, List.mem_filter, decide_eq_true_eq] at hx
    have hx1 := h.single.2 x hx.1
    rw [active] at hx1
    exact hx.2 (Option.some.inj hx1).symm
  | cancelNacked origin _ nacked =>
    exact hsame (by simp [OrderTally.next, nacked]) origin.active_eq
  | tradeIgnored => exact hsame rfl rfl
  | speculated => exact hsame rfl rfl
  | speculationFailed => exact hsame rfl rfl

theorem FillMove.singleLive {oid : String} {size : ℚ} (hm : FillMove cfg s oid size l s')
    (h : LiveInv cfg past s)
    (hsettles : ∀ x ∈ (orderTally past).live, x.1 = oid →
      x.2 ≤ (orderTally past).filled oid + size ∨ (orderLife past).short size) :
    SingleLive (past ++ l) s' := by
  -- a fill that is not short of a hedge completes the order
  have hcovering : ∀ path, (orderLife past).last = some oid →
      (∀ hedgeSize, (orderLife past).hedged = some hedgeSize → coversHedge size hedgeSize) →
      ((orderTally past).next (.fill oid size path)).live = [] := by
    intro path hlast hcovers
    refine h.single.closes h.follows hlast path fun x hx hoid => (hsettles x hx hoid).resolve_right ?_
    rintro ⟨hedgeSize, hmem, hshort⟩
    exact hshort (hcovers hedgeSize hmem)
  have hdrop : ∀ path,
      ((orderTally past).next (.fill oid size path)).live.Sublist (orderTally past).live :=
    fun _ => List.filter_sublist
  cases hm with
  | unknown =>
    refine h.single.frame ?_ rfl
    rw [orderTally_append]
    exact hdrop .unknownOid
  | perfect path =>
    obtain ⟨hlast, hhedged⟩ := h.follows.reconciled (.inl path)
    refine .of_empty ?_
    rw [orderTally_append]
    refine hcovering .perfectMatch hlast fun hedgeSize hsome => ?_
    rw [hhedged] at hsome
    exact Option.some.inj hsome ▸ FollowsOrder.perfect_covers path
  | correction path =>
    obtain ⟨hlast, hhedged⟩ := h.follows.reconciled (.inr (.inl path))
    refine .of_empty ?_
    rw [orderTally_append]
    refine hcovering .correction hlast fun hedgeSize hsome => ?_
    rw [hhedged] at hsome
    exact Option.some.inj hsome ▸ FollowsOrder.correction_covers path
  | overshoot =>
    refine h.single.frame ?_ rfl
    rw [orderTally_append]
    exact hdrop .overshoot
  | hedged path =>
    obtain ⟨hlast, hhedged⟩ := h.follows.hedge_path path
    refine .of_empty ?_
    rw [orderTally_append]
    exact hcovering .hedge hlast fun hedgeSize hsome => by rw [hhedged] at hsome; cases hsome
  | unwound path =>
    obtain ⟨hlast, hhedged⟩ := h.follows.hedge_path path
    refine .of_empty ?_
    rw [orderTally_append]
    exact hcovering .hedge hlast fun hedgeSize hsome => by rw [hhedged] at hsome; cases hsome

end Moves

theorem liveInv_always {cfg : EngineConfig} {journalAttached : Bool} {p₀ : ℚ}
    {es : List MakerEvent}
    (h : (machine cfg).Throughout (start journalAttached p₀)
      (fun l s e => NoOrphan cfg s e ∧ FillSettles l e) es) :
    (machine cfg).Always (start journalAttached p₀) (LiveInv cfg) es := by
  refine EventMachine.always_of_throughout ?_ ?_ h
  · exact ⟨coupledInv_start cfg journalAttached p₀, followsOrder_start journalAttached p₀,
      .of_empty rfl⟩
  · rintro l s e hinv ⟨hclean, hsettles⟩
    refine hclean.step_preserves hinv.coupled.slot ?_ ?_ hinv
    · intro past t l' t' ht hm
      exact ⟨hm.coupledInv ht.coupled, orderLife_append past l' ▸ hm.followsOrder ht.follows,
        hm.singleLive ht⟩
    · intro oid size l' t' hdelivers hm
      refine ⟨hm.coupledInv hinv.coupled, orderLife_append l l' ▸ hm.followsOrder hinv.follows,
        hm.singleLive hinv ?_⟩
      cases e with
      | fill =>
        obtain ⟨rfl, rfl⟩ := hdelivers
        exact hsettles
      | _ => exact hdelivers.elim

/-- In a run that sends no orphan and whose fills settle their order, never two maker orders are
working, and the one that is can be cancelled. -/
theorem singleLive_always (cfg : EngineConfig) (journalAttached : Bool) (p₀ : ℚ)
    (es : List MakerEvent)
    (h : (machine cfg).Throughout (start journalAttached p₀)
      (fun l s e => NoOrphan cfg s e ∧ FillSettles l e) es) :
    (machine cfg).Always (start journalAttached p₀) SingleLive es :=
  (liveInv_always h).mono fun _ _ hinv => hinv.single

/-- An order filled in two parts, the first one short of the speculative hedge, then the next. -/
theorem singleLive_two_orders :
    (machine sampleConfig).Always (start false 0) SingleLive
      [tickUp 1000 "1", crossingTrade, fillOf "1" 0.25, fillOf "1" 0.75, tickDown 2000 "2"] :=
  singleLive_always sampleConfig false 0 _ (by decide +kernel)

/-- Order `"1"` fills in part and stays on the book; the next tick places `"2"` beside it. -/
theorem partial_fill_two_live :
    ¬ (machine sampleConfig).Always (start false 0) SingleLive
      [tickUp 1000 "1", fillOf "1" 0.25, tickUp 1300 "2"] := by
  decide +kernel

end Arb
