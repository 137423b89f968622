import HlLighterArb.Maker.Coupling

/-!
# HlLighterArb.Maker.Delta

Delta neutrality: what the engine has asked Lighter for, what HL has filled, and the speculative
hedge still waiting for its fill add up to zero. The speculative hedge is sent on the side of the
strategy's pending order and reconciled on the side of `last_maker_direction_`; the two are the
same order as long as no orphan is placed.

* `deltaLedger`: the two net positions, by the requests and fill messages of the run.
* `delta`: the residual in a state.
* `delta_always`: in runs without orphans whose Lighter orders fill in full, the residual is at most
  0.001 for every perfect match.
-/

namespace Arb

open MakerHedgeEngine

def signedBase (isBuy : Bool) (size : ℚ) : ℚ :=
  if isBuy then size else -size

@[simp] theorem signedBase_neg (isBuy : Bool) (x : ℚ) :
    signedBase isBuy (-x) = -signedBase isBuy x := by
  cases isBuy <;> simp [signedBase]

@[simp] theorem signedBase_not (isBuy : Bool) (x : ℚ) :
    signedBase (!isBuy) x = -signedBase isBuy x := by
  cases isBuy <;> simp [signedBase]

theorem signedBase_sub (isBuy : Bool) (x y : ℚ) :
    signedBase isBuy (x - y) = signedBase isBuy x - signedBase isBuy y := by
  cases isBuy <;> simp only [signedBase, if_true, if_false, Bool.false_eq_true]
  ring

@[simp] theorem abs_signedBase (isBuy : Bool) (x : ℚ) : |signedBase isBuy x| = |x| := by
  cases isBuy <;> simp [signedBase]

@[simp] theorem iocRequest_signedSize (cfg : EngineConfig) (snapshot : SpreadSnapshot)
    (isAsk : Bool) (bps size : ℚ) :
    (iocRequest cfg snapshot isAsk bps size).signedSize = -signedBase isAsk size := by
  cases isAsk <;> simp [iocRequest, LighterIocRequest.signedSize, signedBase]

/-- The side of the order acknowledged last under each oid, the signed base quantity of all Lighter
orders sent and of all HL fills acted on, and the number of perfect matches. -/
structure DeltaLedger where
  buys : String → Bool := fun _ => true
  lighter : ℚ := 0
  hl : ℚ := 0
  matched : ℕ := 0

def DeltaLedger.next (d : DeltaLedger) : MakerObs → DeltaLedger
  | .fill oid size path =>
    if path = .unknownOid then d
    else { d with
      hl := d.hl + signedBase (d.buys oid) size
      matched := if path = .perfectMatch then d.matched + 1 else d.matched }
  | .placeLimit request ack =>
    if ack.ok then { d with buys := fun o => if o = ack.oid then request.isBuy else d.buys o } else d
  | .cancel _ _ => d
  | .ioc _ request _ => { d with lighter := d.lighter + request.signedSize }
  | .reduce _ _ _ => d

def deltaLedger (l : List MakerObs) : DeltaLedger :=
  l.foldl DeltaLedger.next {}

theorem deltaLedger_append (l l' : List MakerObs) :
    deltaLedger (l ++ l') = l'.foldl DeltaLedger.next (deltaLedger l) := by
  simp [deltaLedger]

/-- The speculative hedge that waits for its fill, on the side of the order it was sent for. -/
def DeltaLedger.waiting (d : DeltaLedger) (s : MakerHedgeEngine) : ℚ :=
  if s.speculativeHedgeSent then
    signedBase (d.buys s.speculativeHedgeOid) s.speculativeHedgeSize
  else 0

/-- What is left when the Lighter orders, the HL fills and the waiting hedge are added up. -/
def DeltaLedger.delta (d : DeltaLedger) (s : MakerHedgeEngine) : ℚ :=
  d.lighter + d.hl + d.waiting s

/-- A Lighter order that is acknowledged, confirmed and filled in full. -/
def MakerObs.IocFilled : MakerObs → Prop
  | .ioc _ request ack => ack.ok ∧ ack.fillConfirmed ∧ ack.confirmedSize = request.size
  | _ => True

instance : (o : MakerObs) → Decidable o.IocFilled
  | .ioc _ _ _ => inferInstanceAs (Decidable (_ ∧ _ ∧ _))
  | .fill _ _ _ => .isTrue trivial
  | .placeLimit _ _ => .isTrue trivial
  | .cancel _ _ => .isTrue trivial
  | .reduce _ _ _ => .isTrue trivial

theorem OrderLife.last_of_foldl {l : List MakerObs} (quiet : ∀ o ∈ l, o.isPlacement = false)
    {life : OrderLife} {oid : String} (h : (l.foldl OrderLife.next life).last = some oid) :
    life.last = some oid := by
  induction l generalizing life with
  | nil => exact h
  | cons o l ih =>
    have hnext := ih (fun x hx => quiet x (List.mem_cons_of_mem _ hx)) h
    have ho := quiet o (List.mem_cons_self ..)
    cases o with
    | placeLimit => cases ho
    | fill o size path =>
      simp only [OrderLife.next] at hnext
      split_ifs at hnext
      · split at hnext
        · exact hnext
        · simp only at hnext
          split_ifs at hnext
          exact hnext
      · exact hnext
    | cancel o ack =>
      simp only [OrderLife.next] at hnext
      split_ifs at hnext <;> exact hnext
    | ioc purpose request ack => cases purpose <;> exact hnext
    | reduce => exact hnext

theorem DeltaLedger.buys_of_foldl {l : List MakerObs} (quiet : ∀ o ∈ l, o.isPlacement = false)
    (d : DeltaLedger) : (l.foldl DeltaLedger.next d).buys = d.buys := by
  induction l generalizing d with
  | nil => rfl
  | cons o l ih =>
    have ho := quiet o (List.mem_cons_self ..)
    have hnext : (d.next o).buys = d.buys := by
      cases o with
      | placeLimit => cases ho
      | fill o size path => simp only [DeltaLedger.next]; split_ifs <;> rfl
      | _ => rfl
    exact (ih (fun x hx => quiet x (List.mem_cons_of_mem _ hx)) _).trans hnext

/-! ## Sides -/

/-- The order acknowledged last is on the side of `last_maker_direction_`. -/
structure Sided (l : List MakerObs) (s : MakerHedgeEngine) : Prop where
  slot : Slot s
  follows : FollowsOrder (orderLife l) s
  side : ∀ oid, (orderLife l).last = some oid →
    (deltaLedger l).buys oid = s.lastMakerDirection.isBuyHl

/-- The ledger's sides are the engine's, and a hedge is only waiting while its order is out. -/
structure SideInv (cfg : EngineConfig) (l : List MakerObs) (s : MakerHedgeEngine) : Prop where
  coupled : CoupledInv cfg l s
  follows : FollowsOrder (orderLife l) s
  side : ∀ oid, (orderLife l).last = some oid →
    (deltaLedger l).buys oid = s.lastMakerDirection.isBuyHl
  waiting : s.speculativeHedgeSent = true → s.activeHlOid = some s.speculativeHedgeOid

section Moves

variable {cfg : EngineConfig} {ok : MakerHedgeEngine → PendingMakerOrder → Prop}
  {s s' b : MakerHedgeEngine} {past l : List MakerObs} {order : PendingMakerOrder}

theorem PlaceFrom.sent_eq (hp : PlaceFrom s order b) :
    b.speculativeHedgeSent = s.speculativeHedgeSent := by
  cases hp <;> rfl

theorem CancelFrom.hedge_eq (hc : CancelFrom s order b) :
    b.speculativeHedgeSent = s.speculativeHedgeSent ∧
      b.speculativeHedgeSize = s.speculativeHedgeSize ∧
      b.speculativeHedgeOid = s.speculativeHedgeOid := by
  cases hc <;> exact ⟨rfl, rfl, rfl⟩

theorem Move.sided (hm : Move cfg ok s l s') (h : Sided past s) : Sided (past ++ l) s' := by
  refine ⟨hm.slot h.slot, orderLife_append past l ▸ hm.followsOrder h.follows, fun oid hlast => ?_⟩
  rw [orderLife_append] at hlast
  rw [deltaLedger_append]
  by_cases hquiet : l.any (·.isPlacement) = false
  · have hplain : ∀ o ∈ l, o.isPlacement = false := by simpa using hquiet
    rw [DeltaLedger.buys_of_foldl hplain, hm.direction hquiet]
    exact h.side oid (OrderLife.last_of_foldl hplain hlast)
  · cases hm with
    | @placeAcked order b origin holds ack acked venues steadyMs =>
      have hoid : ack.oid = oid := by simpa [OrderLife.next, acked] using hlast
      simp only [List.foldl_cons, List.foldl_nil, DeltaLedger.next, acked, if_true, hoid]
      exact (origin.held h.slot).1
    | placeNacked origin nacked =>
      simp only [List.foldl_cons, List.foldl_nil, OrderLife.next, DeltaLedger.next, nacked]
        at hlast ⊢
      exact (h.side oid hlast).trans (congrArg Direction.isBuyHl origin.direction_eq.symm)
    | cancelAcked _ _ _ unwind _ _ _ unwinds =>
      refine absurd ?_ hquiet
      rw [unwinds]
      split_ifs <;> rfl
    | _ => exact absurd rfl hquiet

theorem FillMove.sided {oid : String} {size : ℚ} (hm : FillMove cfg s oid size l s')
    (h : Sided past s) : Sided (past ++ l) s' := by
  refine ⟨hm.slot h.slot, orderLife_append past l ▸ hm.followsOrder h.follows, fun o hlast => ?_⟩
  have hquiet : ∀ x ∈ l, x.isPlacement = false := by cases hm <;> simp [MakerObs.isPlacement]
  have hdirection : s'.lastMakerDirection = s.lastMakerDirection := by cases hm <;> rfl
  rw [orderLife_append] at hlast
  rw [deltaLedger_append, DeltaLedger.buys_of_foldl hquiet, hdirection]
  exact h.side o (OrderLife.last_of_foldl hquiet hlast)

theorem SideInv.sided (h : SideInv cfg past s) : Sided past s :=
  ⟨h.coupled.slot, h.follows, h.side⟩

theorem SideInv.of_sided (h : Sided past s) (coupled : CoupledInv cfg past s)
    (waiting : s.speculativeHedgeSent = true → s.activeHlOid = some s.speculativeHedgeOid) :
    SideInv cfg past s :=
  ⟨coupled, h.follows, h.side, waiting⟩

theorem SideInv.hedge_side (h : SideInv cfg past s) (hsent : s.speculativeHedgeSent = true) :
    (deltaLedger past).buys s.speculativeHedgeOid = s.lastMakerDirection.isBuyHl :=
  h.side _ (h.follows.active _ (h.waiting hsent))

/-- No hedge is waiting when a placement is sent. -/
theorem SideInv.unsent (h : SideInv cfg past s) (hp : PlaceFrom s order b) :
    s.speculativeHedgeSent = false := by
  by_contra hsent
  have hactive := h.waiting (by simpa using hsent)
  have hnone := h.coupled.inactive hp
  rw [hp.active_eq, hactive] at hnone
  cases hnone

theorem Move.sideInv (hm : Move cfg (fun b order => b.strategy.holds order = true) s l s')
    (h : SideInv cfg past s) : SideInv cfg (past ++ l) s' := by
  refine .of_sided (hm.sided h.sided) (hm.coupledInv h.coupled) ?_
  -- before a placement no hedge waits, and a cancel changes none of the fields of the hedge
  have hplace : ∀ {x b}, PlaceFrom s x b → b.speculativeHedgeSent = true →
      b.activeHlOid = some b.speculativeHedgeOid := by
    intro x b hp hsent
    rw [hp.sent_eq, h.unsent hp] at hsent
    cases hsent
  have hcancel : ∀ {x b}, CancelFrom s x b → b.speculativeHedgeSent = true →
      b.activeHlOid = some b.speculativeHedgeOid := by
    intro x b hc hsent
    obtain ⟨hs, -, ho⟩ := hc.hedge_eq
    rw [hc.active_eq, ho]
    exact h.waiting (hs ▸ hsent)
  cases hm with
  | quiet => exact h.waiting
  | placeBlocked origin =>
    have hwaits := hplace origin
    exact hwaits
  | placeDeferred origin =>
    have hwaits := hplace origin
    exact hwaits
  | placeAcked => exact fun hsent => by cases hsent
  | placeNacked origin =>
    have hwaits := hplace origin
    exact hwaits
  | cancelDeferred origin =>
    have hwaits := hcancel origin
    exact hwaits
  | cancelIdle origin =>
    have hwaits := hcancel origin
    exact hwaits
  | cancelAcked => exact fun hsent => by cases hsent
  | cancelNacked origin =>
    have hwaits := hcancel origin
    exact hwaits
  | tradeIgnored => exact h.waiting
  | speculated active => exact fun _ => active
  | speculationFailed => exact fun hsent => by cases hsent

theorem FillMove.sideInv {oid : String} {size : ℚ} (hm : FillMove cfg s oid size l s')
    (h : SideInv cfg past s) : SideInv cfg (past ++ l) s' := by
  refine .of_sided (hm.sided h.sided) (hm.coupledInv h.coupled) ?_
  -- on the normal path no hedge is waiting
  have hhedge : s.fillPath oid size = .hedge → ¬ s.speculativeHedgeSent = true := by
    intro hpath
    rw [h.follows.sent, (h.follows.hedge_path hpath).2]
    exact Bool.false_ne_true
  cases hm with
  | unknown => exact h.waiting
  | perfect => exact fun hsent => by cases hsent
  | correction => exact fun hsent => by cases hsent
  | overshoot => exact fun hsent => by cases hsent
  | hedged path => exact fun hsent => absurd hsent (hhedge path)
  | unwound path => exact fun hsent => absurd hsent (hhedge path)

/-! ## The residual -/

theorem DeltaLedger.waiting_unsent {d : DeltaLedger} (h : s.speculativeHedgeSent = false) :
    d.waiting s = 0 := by
  simp [DeltaLedger.waiting, h]

theorem SideInv.waiting_sent (h : SideInv cfg past s) (hsent : s.speculativeHedgeSent = true) :
    (deltaLedger past).waiting s =
      signedBase s.lastMakerDirection.isBuyHl s.speculativeHedgeSize := by
  rw [DeltaLedger.waiting, if_pos hsent, h.hedge_side hsent]

/-- While an order is out, the strategy's pending order is on the side of `last_maker_direction_`. -/
theorem SideInv.pending_side (h : SideInv cfg past s) {oid : String}
    (active : s.activeHlOid = some oid) (pending : s.strategy.pendingMaker = some order) :
    order.direction = s.lastMakerDirection := by
  obtain ⟨held, hholds, -, -, hdirection⟩ := h.coupled.coupled oid active
  have hpending := (Hedger.holds_iff.mp hholds).2
  rw [pending] at hpending
  cases hpending
  exact hdirection.symm

/-- A move of a tick or a trade keeps the residual. -/
theorem Move.delta_eq (hm : Move cfg (fun b order => b.strategy.holds order = true) s l s')
    (h : SideInv cfg past s) (hfilled : ∀ o ∈ l, o.IocFilled) :
    (deltaLedger (past ++ l)).delta s' = (deltaLedger past).delta s ∧
      (deltaLedger (past ++ l)).matched = (deltaLedger past).matched := by
  rw [deltaLedger_append]
  cases hm with
  | quiet => exact ⟨rfl, rfl⟩
  | placeBlocked origin => cases origin <;> exact ⟨rfl, rfl⟩
  | placeDeferred origin => cases origin <;> exact ⟨rfl, rfl⟩
  | placeAcked origin _ acked =>
    -- the placement forgets the speculative fields, but no hedge was waiting
    simp [DeltaLedger.delta, DeltaLedger.next, acked, h.unsent origin, DeltaLedger.waiting,
      acceptPlacement, clearSpeculative]
  | placeNacked origin nacked =>
    simp only [List.foldl_cons, List.foldl_nil, DeltaLedger.next, nacked]
    cases origin <;> exact ⟨rfl, rfl⟩
  | cancelDeferred origin => cases origin <;> exact ⟨rfl, rfl⟩
  | cancelIdle origin => cases origin <;> exact ⟨rfl, rfl⟩
  | cancelAcked origin _ _ unwind _ snapshot _ unwinds =>
    -- the cancel takes the waiting hedge back on Lighter
    rw [unwinds]
    by_cases hsent : s.speculativeHedgeSent = true
    · simp only [hsent, if_true, List.foldl_cons, List.foldl_nil, DeltaLedger.next,
        DeltaLedger.delta, h.waiting_sent hsent, cancelUnwindRequest, iocRequest_signedSize,
        signedBase_not, and_true]
      rw [DeltaLedger.waiting_unsent rfl]
      ring
    · simp only [if_neg hsent, List.foldl_cons, List.foldl_nil, DeltaLedger.next,
        DeltaLedger.delta, DeltaLedger.waiting_unsent (by simpa using hsent), and_true]
      rw [DeltaLedger.waiting_unsent rfl]
  | cancelNacked origin => cases origin <;> exact ⟨rfl, rfl⟩
  | tradeIgnored => exact ⟨rfl, rfl⟩
  | @speculated oid order active pending unsent snapshot ack filled =>
    have hside : (deltaLedger past).buys oid = order.direction.isBuyHl := by
      rw [h.pending_side active pending]
      exact h.side oid (h.follows.active oid active)
    simp only [List.foldl_cons, List.foldl_nil, DeltaLedger.next, DeltaLedger.delta,
      DeltaLedger.waiting, iocRequest_signedSize, unsent, hside, if_true, Bool.false_eq_true,
      if_false, and_true]
    ring
  | speculationFailed _ _ _ snapshot failed =>
    have hack := hfilled _ (List.mem_singleton_self _)
    exact absurd ⟨hack.1, hack.2.1⟩ failed

/-- A fill moves the residual only by the rounding that a perfect match forgives. -/
theorem FillMove.delta_le {oid : String} {size : ℚ} (hm : FillMove cfg s oid size l s')
    (h : SideInv cfg past s) (hfilled : ∀ o ∈ l, o.IocFilled) :
    |(deltaLedger (past ++ l)).delta s' - (deltaLedger past).delta s| ≤
      0.001 * (((deltaLedger (past ++ l)).matched : ℚ) - (deltaLedger past).matched) := by
  rw [deltaLedger_append]
  have hsent : (∃ hedgeSize, (orderLife past).hedged = some hedgeSize) →
      s.speculativeHedgeSent = true := by
    rintro ⟨hedgeSize, hsome⟩
    rw [h.follows.sent, hsome]
    rfl
  cases hm with
  | unknown => simp [DeltaLedger.next]
  | perfect path =>
    obtain ⟨hlast, hhedged⟩ := h.follows.reconciled (.inl path)
    have hclose : |size - s.speculativeHedgeSize| < 0.001 := by
      unfold fillPath at path
      split_ifs at path with _ _ hmatch
      exact hmatch
    simp only [List.foldl_cons, List.foldl_nil, DeltaLedger.next, reduceCtorEq, if_false,
      DeltaLedger.delta, h.waiting_sent (hsent ⟨_, hhedged⟩), h.side oid hlast, if_true]
    rw [DeltaLedger.waiting_unsent rfl]
    calc _ = |signedBase s.lastMakerDirection.isBuyHl (size - s.speculativeHedgeSize)| := by
            rw [signedBase_sub]; ring_nf
      _ ≤ 0.001 := by rw [abs_signedBase]; exact hclose.le
      _ = _ := by push_cast; ring
  | correction path =>
    obtain ⟨hlast, hhedged⟩ := h.follows.reconciled (.inr (.inl path))
    simp only [List.foldl_cons, List.foldl_nil, DeltaLedger.next, reduceCtorEq, if_false,
      DeltaLedger.delta, h.waiting_sent (hsent ⟨_, hhedged⟩), h.side oid hlast,
      iocRequest_signedSize, signedBase_sub]
    rw [DeltaLedger.waiting_unsent rfl]
    ring_nf
    simp
  | overshoot path =>
    obtain ⟨hlast, hhedged⟩ := h.follows.reconciled (.inr (.inr path))
    simp only [List.foldl_cons, List.foldl_nil, DeltaLedger.next, reduceCtorEq, if_false,
      DeltaLedger.delta, h.waiting_sent (hsent ⟨_, hhedged⟩), h.side oid hlast,
      iocRequest_signedSize, signedBase_not, signedBase_neg, signedBase_sub]
    rw [DeltaLedger.waiting_unsent rfl]
    ring_nf
    simp
  | hedged path =>
    obtain ⟨hlast, hhedged⟩ := h.follows.hedge_path path
    have hunsent : s.speculativeHedgeSent = false := by rw [h.follows.sent, hhedged]; rfl
    simp only [List.foldl_cons, List.foldl_nil, DeltaLedger.next, reduceCtorEq, if_false,
      DeltaLedger.delta, DeltaLedger.waiting_unsent hunsent, h.side oid hlast,
      iocRequest_signedSize]
    rw [@DeltaLedger.waiting_unsent (s.applyHlFill size).closeHedged _ hunsent]
    ring_nf
    simp
  | unwound _ _ failed =>
    have hack := hfilled _ (List.mem_cons_of_mem _ (List.mem_cons_self ..))
    exact absurd ⟨hack.1, hack.2.1⟩ failed

end Moves

/-- The residual is what the perfect matches account for, when all Lighter orders filled. -/
def Neutral (l : List MakerObs) (s : MakerHedgeEngine) : Prop :=
  |(deltaLedger l).delta s| ≤ 0.001 * (deltaLedger l).matched

instance (l : List MakerObs) (s : MakerHedgeEngine) : Decidable (Neutral l s) :=
  inferInstanceAs (Decidable (_ ≤ _))

theorem neutral_always {cfg : EngineConfig} {journalAttached : Bool} {p₀ : ℚ}
    {es : List MakerEvent}
    (h : (machine cfg).Throughout (start journalAttached p₀) (fun _ s e => NoOrphan cfg s e) es) :
    (machine cfg).Always (start journalAttached p₀)
      (fun l s => SideInv cfg l s ∧ ((∀ o ∈ l, o.IocFilled) → Neutral l s)) es := by
  refine EventMachine.always_of_throughout ?_ ?_ h
  · refine ⟨⟨coupledInv_start cfg journalAttached p₀, followsOrder_start journalAttached p₀,
      fun oid hlast => (by cases hlast), fun hsent => by cases hsent⟩, fun _ => ?_⟩
    simp [Neutral, deltaLedger, DeltaLedger.delta, DeltaLedger.waiting, start, setHlPosition]
  · rintro l s e ⟨hinv, hneutral⟩ hclean
    refine @NoOrphan.step_preserves cfg s e (fun l s => SideInv cfg l s ∧
      ((∀ o ∈ l, o.IocFilled) → Neutral l s)) l hclean hinv.coupled.slot ?_ ?_ ⟨hinv, hneutral⟩
    · rintro past t l' t' ⟨hside, hpast⟩ hm
      refine ⟨hm.sideInv hside, fun hfilled => ?_⟩
      obtain ⟨hbefore, hnow⟩ := List.forall_mem_append.mp hfilled
      obtain ⟨hdelta, hmatched⟩ := hm.delta_eq hside hnow
      rw [Neutral, hdelta, hmatched]
      exact hpast hbefore
    · intro oid size l' t' _ hm
      refine ⟨hm.sideInv hinv, fun hfilled => ?_⟩
      obtain ⟨hbefore, hnow⟩ := List.forall_mem_append.mp hfilled
      have hstep := hm.delta_le hinv hnow
      have hpast := hneutral hbefore
      simp only [Neutral] at hpast ⊢
      linarith [abs_sub_abs_le_abs_sub ((deltaLedger (l ++ l')).delta t') ((deltaLedger l).delta s)]

/-- In a run that sends no orphan and whose Lighter orders all fill in full, every state is delta
neutral up to 0.001 for each perfect match. -/
theorem delta_always (cfg : EngineConfig) (journalAttached : Bool) (p₀ : ℚ)
    (es : List MakerEvent)
    (hclean : (machine cfg).Throughout (start journalAttached p₀)
      (fun _ s e => NoOrphan cfg s e) es)
    (hfilled : ∀ o ∈ (machine cfg).obs (start journalAttached p₀) es, o.IocFilled) :
    (machine cfg).Always (start journalAttached p₀) Neutral es := by
  intro pre hpre
  have hobs : (machine cfg).obs (start journalAttached p₀) pre <+:
      (machine cfg).obs (start journalAttached p₀) es := EventMachine.obs_prefix hpre
  exact (neutral_always hclean pre hpre).2 fun o ho => hfilled o (hobs.subset ho)

/-- A speculative hedge short of its order, reconciled by an overshoot and a normal hedge. -/
theorem delta_overshoot :
    (machine sampleConfig).Always (start false 0) Neutral
      [tickUp 1000 "1", crossingTrade, fillOf "1" 0.25, fillOf "1" 0.75] :=
  delta_always sampleConfig false 0 _ (by decide +kernel) (by decide +kernel)

/-- With `"2"` placed while the strategy is idle, a hedge is sent for the order pending behind it;
the placement of that order as `"3"` forgets the hedge. -/
theorem orphan_not_neutral :
    ¬ ((∀ o ∈ (machine sampleConfig).obs (start false 0)
        [tickUp 1000 "1", fillOf "1" 0.25, tickUp 1100 "", fillOf "1" 0.25, tickUp 1300 "2",
          tickUp 1350 "", crossingTrade, tickUp 1600 "3"], o.IocFilled) →
      (machine sampleConfig).Always (start false 0) Neutral
        [tickUp 1000 "1", fillOf "1" 0.25, tickUp 1100 "", fillOf "1" 0.25, tickUp 1300 "2",
          tickUp 1350 "", crossingTrade, tickUp 1600 "3"]) := by
  decide +kernel

end Arb
