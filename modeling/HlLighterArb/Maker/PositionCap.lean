import HlLighterArb.Maker.OrderBook
import HlLighterArb.Maker.Position

/-!
# HlLighterArb.Maker.PositionCap

How far `hl_position_base_` can go. The limit is checked when a placement is sent, not when it
fills, so the position can pass the limit by what the order acknowledged last may still fill. A fill
moves the position between where it is and where the rest of that order would take it.

* `FillsWithin q`: orders ask for at most `q` and never fill more than they ask for.
* `Capped B`: the position is within `B`, and stays so when the order acknowledged last fills up.
* `position_capped`: with the HL mid at least `m` the position stays within the larger of where it
  started and `max_position_usd / m + q`.
-/

namespace Arb

open MakerHedgeEngine

/-- A fill is not negative; an acknowledged order asks for at most `q` and has not `filled` more
than it asks for. -/
def MakerObs.Within (q : ℚ) (filled : String → ℚ) : MakerObs → Prop
  | .fill _ size _ => 0 ≤ size
  | .placeLimit request ack => ack.ok = true → request.size ≤ q ∧ filled ack.oid ≤ request.size
  | _ => True

instance (q : ℚ) (filled : String → ℚ) : (o : MakerObs) → Decidable (o.Within q filled)
  | .fill _ size _ => inferInstanceAs (Decidable (0 ≤ size))
  | .placeLimit _ _ => inferInstanceAs (Decidable (_ → _ ∧ _))
  | .cancel _ _ => .isTrue trivial
  | .ioc _ _ _ => .isTrue trivial
  | .reduce _ _ _ => .isTrue trivial

/-- No order of the run asks for more than `q`, and none fills more than it asks for. -/
def FillsWithin (q : ℚ) (l : List MakerObs) : Prop :=
  ∀ o ∈ l, o.Within q (orderTally l).filled

instance (q : ℚ) (l : List MakerObs) : Decidable (FillsWithin q l) :=
  inferInstanceAs (Decidable (∀ o ∈ l, _))

/-- The tick sees an HL mid of at least `m`. -/
def MidAtLeast (cfg : EngineConfig) (m : ℚ) : MakerEvent → Prop
  | .tick _ venues => m ≤ (collectSnapshot cfg venues).hl.mid
  | _ => True

instance (cfg : EngineConfig) (m : ℚ) : (e : MakerEvent) → Decidable (MidAtLeast cfg m e)
  | .tick _ venues => inferInstanceAs (Decidable (m ≤ (collectSnapshot cfg venues).hl.mid))
  | .trade _ _ => .isTrue trivial
  | .fill _ _ _ _ _ _ => .isTrue trivial

/-- The position is within `B`, and still is after the rest of the order acknowledged last. -/
structure Capped (B : ℚ) (l : List MakerObs) (s : MakerHedgeEngine) : Prop where
  position : |s.hlPositionBase| ≤ B
  rest : ∀ oid, (orderLife l).last = some oid → ∃ request ack, .placeLimit request ack ∈ l ∧
    ack.ok = true ∧ ack.oid = oid ∧ |s.hlPositionBase + signedBase s.lastMakerDirection.isBuyHl
      (request.size - (orderTally l).filled oid)| ≤ B

/-! ## What has filled -/

theorem OrderTally.filled_of_foldl {l : List MakerObs}
    (quiet : ∀ oid size path, .fill oid size path ∉ l) (t : OrderTally) : (l.foldl OrderTally.next t).filled = t.filled := by
  induction l generalizing t with
  | nil => rfl
  | cons o l ih =>
    have hnext : (t.next o).filled = t.filled := by
      cases o with
      | fill oid size path => exact absurd (List.mem_cons_self ..) (quiet oid size path)
      | placeLimit => simp only [OrderTally.next]; split_ifs <;> rfl
      | cancel => simp only [OrderTally.next]; split_ifs <;> rfl
      | _ => rfl
    rw [List.foldl_cons,
      ih (fun oid size path hm => quiet oid size path (List.mem_cons_of_mem _ hm)), hnext]

/-- What an oid has filled does not shrink. -/
theorem OrderTally.filled_le_foldl {l : List MakerObs}
    (nonneg : ∀ oid size path, .fill oid size path ∈ l → 0 ≤ size) (t : OrderTally) (oid : String) :
    t.filled oid ≤ (l.foldl OrderTally.next t).filled oid := by
  induction l generalizing t with
  | nil => exact le_rfl
  | cons o l ih =>
    refine le_trans ?_ (ih (fun o x p hm => nonneg o x p (List.mem_cons_of_mem _ hm)) (t.next o))
    cases o with
    | fill o size path =>
      have hsize := nonneg o size path (List.mem_cons_self ..)
      simp only [OrderTally.next]
      split_ifs <;> linarith
    | placeLimit => simp only [OrderTally.next]; split_ifs <;> exact le_rfl
    | cancel => simp only [OrderTally.next]; split_ifs <;> exact le_rfl
    | _ => exact le_rfl

theorem FillsWithin.nonneg {q : ℚ} {l : List MakerObs} (h : FillsWithin q l) (oid : String)
    (size : ℚ) (path : FillPath) (hm : .fill oid size path ∈ l) : 0 ≤ size :=
  h _ hm

theorem FillsWithin.placed {q : ℚ} {l : List MakerObs} (h : FillsWithin q l)
    {request : HlLimitOrderRequest} {ack : HlLimitOrderAck} (hm : .placeLimit request ack ∈ l)
    (acked : ack.ok = true) :
    request.size ≤ q ∧ (orderTally l).filled ack.oid ≤ request.size :=
  h _ hm acked

theorem FillsWithin.take {q : ℚ} {l l' : List MakerObs} (h : FillsWithin q (l ++ l')) :
    FillsWithin q l := by
  intro o hm
  have ho := h o (List.mem_append_left _ hm)
  cases o with
  | placeLimit request ack =>
    intro hack
    refine ⟨(ho hack).1, le_trans ?_ (ho hack).2⟩
    rw [orderTally_append]
    exact OrderTally.filled_le_foldl
      (fun oid size path hm => h.nonneg oid size path (List.mem_append_right _ hm)) _ _
  | _ => exact ho

theorem FillsWithin.filled_nonneg {q : ℚ} {l : List MakerObs} (h : FillsWithin q l) (oid : String) :
    0 ≤ (orderTally l).filled oid :=
  OrderTally.filled_le_foldl h.nonneg {} oid

/-! ## Staying within a bound -/

/-- Between two positions within `B` every position is. -/
theorem abs_add_signedBase_le {B pos x r : ℚ} {isBuy : Bool} (hpos : |pos| ≤ B)
    (hrest : |pos + signedBase isBuy r| ≤ B) (hx : 0 ≤ x) (hxr : x ≤ r) :
    |pos + signedBase isBuy x| ≤ B := by
  rw [abs_le] at *
  cases isBuy <;> simp only [signedBase, if_true, if_false, Bool.false_eq_true] at * <;>
    constructor <;> linarith

/-- An order that the limit lets through at a mid of at least `m` keeps within the bound. -/
theorem limit_admits {cfg : EngineConfig} {s : MakerHedgeEngine} {mid m q B r : ℚ} {isBuy : Bool}
    (hopen : s.limitBlocks cfg mid isBuy = false) (hm : 0 < m) (hmid : m ≤ mid)
    (hcap : 0 < cfg.strategy.maxPositionUsd) (hB : cfg.strategy.maxPositionUsd / m + q ≤ B)
    (hpos : |s.hlPositionBase| ≤ B) (hr : 0 ≤ r) (hrq : r ≤ q) :
    |s.hlPositionBase + signedBase isBuy r| ≤ B := by
  have hroom : 0 < cfg.strategy.maxPositionUsd / m := div_pos hcap hm
  by_cases hreached : s.positionLimitReached cfg mid = true
  · -- the order takes the position towards zero, or across it by less than `q`
    simp only [limitBlocks, hreached, Bool.true_and, Bool.or_eq_false_iff, Bool.and_eq_false_iff,
      decide_eq_false_iff_not, not_le, not_lt, Bool.not_eq_false'] at hopen
    rw [abs_le] at hpos ⊢
    cases isBuy <;> simp [signedBase] at hopen ⊢ <;> constructor <;> linarith
  · have hbelow : |s.hlPositionBase| * mid < cfg.strategy.maxPositionUsd := by
      have hmid0 : ¬ mid ≤ 0 := by linarith
      simpa [positionLimitReached, hmid0] using hreached
    have hsmall : |s.hlPositionBase| < cfg.strategy.maxPositionUsd / m := by
      rw [lt_div_iff₀ hm]
      exact lt_of_le_of_lt (mul_le_mul_of_nonneg_left hmid (abs_nonneg _)) hbelow
    calc |s.hlPositionBase + signedBase isBuy r|
        ≤ |s.hlPositionBase| + |signedBase isBuy r| := abs_add_le _ _
      _ = |s.hlPositionBase| + r := by rw [abs_signedBase, abs_of_nonneg hr]
      _ ≤ B := by linarith

section Moves

variable {cfg : EngineConfig} {ok : MakerHedgeEngine → PendingMakerOrder → Prop}
  {s s' : MakerHedgeEngine} {past l : List MakerObs} {B q m : ℚ}

/-- The order acknowledged in `b` has passed the limit at a mid of at least `m`. -/
def AdmittedAt (cfg : EngineConfig) (m : ℚ) (b : MakerHedgeEngine) (order : PendingMakerOrder) :
    Prop :=
  ∃ mid, m ≤ mid ∧ b.limitBlocks cfg mid order.isBuy = false

theorem Move.no_fill (hm : Move cfg ok s l s') (oid : String) (size : ℚ) (path : FillPath) :
    .fill oid size path ∉ l := by
  cases hm with
  | cancelAcked _ _ _ unwind _ _ _ unwinds => rw [unwinds]; split_ifs <;> simp
  | _ => simp

theorem Move.capped (hm : Move cfg (AdmittedAt cfg m) s l s') (hside : Sided past s)
    (hm0 : 0 < m) (hcap : 0 < cfg.strategy.maxPositionUsd)
    (hB : cfg.strategy.maxPositionUsd / m + q ≤ B) (hfills : FillsWithin q (past ++ l))
    (h : Capped B past s) : Capped B (past ++ l) s' := by
  have hposition : s'.hlPositionBase = s.hlPositionBase :=
    (@Move.position_eq cfg _ s s' past l hm).1
  have hfilled : (orderTally (past ++ l)).filled = (orderTally past).filled := by
    rw [orderTally_append, OrderTally.filled_of_foldl hm.no_fill]
  refine ⟨hposition ▸ h.position, fun oid hlast => ?_⟩
  rw [orderLife_append] at hlast
  rw [hposition, hfilled]
  have hframe : (∀ o ∈ l, o.isPlacement = false) → s'.lastMakerDirection = s.lastMakerDirection →
      ∃ request ack, .placeLimit request ack ∈ past ++ l ∧ ack.ok = true ∧ ack.oid = oid ∧
        |s.hlPositionBase + signedBase s'.lastMakerDirection.isBuyHl
          (request.size - (orderTally past).filled oid)| ≤ B := by
    intro hquiet hdirection
    obtain ⟨request, ack, hmem, hrest⟩ := h.rest oid (OrderLife.last_of_foldl hquiet hlast)
    exact ⟨request, ack, List.mem_append_left _ hmem, hdirection ▸ hrest⟩
  cases hm with
  | placeBlocked origin => exact hframe (by simp) origin.direction_eq
  | placeDeferred origin => exact hframe (by simp) origin.direction_eq
  | @placeAcked order b origin holds ack acked venues steadyMs =>
    obtain ⟨mid, hmid, hopen⟩ := holds
    have hoid : ack.oid = oid := by simpa [OrderLife.next, acked] using hlast
    have hmem : MakerObs.placeLimit (limitRequest cfg order) ack ∈
        past ++ [.placeLimit (limitRequest cfg order) ack] :=
      List.mem_append_right _ (List.mem_singleton_self _)
    obtain ⟨hsize, htotal⟩ := hfills.placed hmem acked
    have hnonneg := hfills.take.filled_nonneg oid
    rw [hfilled, hoid] at htotal
    have hadmits := limit_admits (r := (limitRequest cfg order).size - (orderTally past).filled oid)
      hopen hm0 hmid hcap hB (origin.position_eq ▸ h.position) (by linarith) (by linarith)
    rw [origin.position_eq, (origin.held hside.slot).1] at hadmits
    exact ⟨_, ack, hmem, acked, hoid, hadmits⟩
  | placeNacked origin nacked =>
    obtain ⟨request, ack, hmem, hrest⟩ := h.rest oid (by simpa [OrderLife.next, nacked] using hlast)
    exact ⟨request, ack, List.mem_append_left _ hmem, origin.direction_eq ▸ hrest⟩
  | cancelDeferred origin => exact hframe (by simp) origin.direction_eq
  | cancelIdle origin => exact hframe (by simp) origin.direction_eq
  | cancelAcked origin _ _ unwind _ _ _ unwinds =>
    have hquiet : ∀ o ∈ unwind, o.isPlacement = false := by
      rw [unwinds]
      split_ifs <;> simp [MakerObs.isPlacement]
    exact hframe (List.forall_mem_cons.mpr ⟨rfl, hquiet⟩) origin.direction_eq
  | cancelNacked origin => exact hframe (by simp [MakerObs.isPlacement]) origin.direction_eq
  | _ => exact hframe (by simp [MakerObs.isPlacement]) rfl

/-- A fill message is counted once, and only a fill of the order acknowledged last is booked. -/
theorem FillMove.booked {oid : String} {size : ℚ} (hm : FillMove cfg s oid size l s')
    (h : FollowsOrder (orderLife past) s) :
    (s'.hlPositionBase = s.hlPositionBase ∨
      (orderLife past).last = some oid ∧ s'.hlPositionBase =
        s.hlPositionBase + signedBase s.lastMakerDirection.isBuyHl size) ∧
    s'.lastMakerDirection = s.lastMakerDirection ∧ (∀ o ∈ l, o.isPlacement = false) ∧
    (∀ o, (orderTally (past ++ l)).filled o =
      if o = oid then (orderTally past).filled o + size else (orderTally past).filled o) ∧
    ∃ path, .fill oid size path ∈ l := by
  have htally : ∀ path rest, (∀ o x p, MakerObs.fill o x p ∉ rest) → ∀ o,
      (orderTally (past ++ .fill oid size path :: rest)).filled o =
        if o = oid then (orderTally past).filled o + size else (orderTally past).filled o := by
    intro path rest hrest o
    rw [orderTally_append, List.foldl_cons, OrderTally.filled_of_foldl hrest]
    rfl
  cases hm with
  | unknown => exact ⟨.inl rfl, rfl, by simp [MakerObs.isPlacement], htally _ _ (by simp), by simp⟩
  | perfect path =>
    have hlast := (h.reconciled (.inl path)).1
    exact ⟨.inr ⟨hlast, rfl⟩, rfl, by simp [MakerObs.isPlacement], htally _ _ (by simp), by simp⟩
  | correction path =>
    have hlast := (h.reconciled (.inr (.inl path))).1
    exact ⟨.inr ⟨hlast, rfl⟩, rfl, by simp [MakerObs.isPlacement], htally _ _ (by simp), by simp⟩
  | overshoot path =>
    have hlast := (h.reconciled (.inr (.inr path))).1
    exact ⟨.inr ⟨hlast, rfl⟩, rfl, by simp [MakerObs.isPlacement], htally _ _ (by simp), by simp⟩
  | hedged path =>
    have hlast := (h.hedge_path path).1
    exact ⟨.inr ⟨hlast, rfl⟩, rfl, by simp [MakerObs.isPlacement], htally _ _ (by simp), by simp⟩
  | unwound => exact ⟨.inl rfl, rfl, by simp [MakerObs.isPlacement], htally _ _ (by simp), by simp⟩

theorem FillMove.capped {oid : String} {size : ℚ} (hm : FillMove cfg s oid size l s')
    (hside : Sided past s) (hfills : FillsWithin q (past ++ l)) (h : Capped B past s) :
    Capped B (past ++ l) s' := by
  obtain ⟨hbooked, hdirection, hquiet, hfilled, path, hmem⟩ := hm.booked hside.follows
  have hsize : 0 ≤ size := hfills.nonneg oid size path (List.mem_append_right _ hmem)
  -- the fill is part of what its order may still fill
  have hpart : (orderLife past).last = some oid → ∃ request ack, .placeLimit request ack ∈ past ∧
      ack.ok = true ∧ ack.oid = oid ∧ |s.hlPositionBase + signedBase s.lastMakerDirection.isBuyHl
        (request.size - (orderTally past).filled oid)| ≤ B ∧
      size ≤ request.size - (orderTally past).filled oid := by
    intro hlast
    obtain ⟨request, ack, hplaced, hack, hoid, hrest⟩ := h.rest oid hlast
    have htotal := (hfills.placed (List.mem_append_left _ hplaced) hack).2
    rw [hfilled, hoid, if_pos rfl] at htotal
    exact ⟨request, ack, hplaced, hack, hoid, hrest, by linarith⟩
  refine ⟨?_, fun o ho => ?_⟩
  · rcases hbooked with hsame | ⟨hlast, hmoved⟩
    · exact hsame ▸ h.position
    · obtain ⟨request, ack, -, -, -, hrest, hle⟩ := hpart hlast
      rw [hmoved]
      exact abs_add_signedBase_le h.position hrest hsize hle
  · rw [orderLife_append] at ho
    have hlast : (orderLife past).last = some o := OrderLife.last_of_foldl hquiet ho
    rw [hfilled, hdirection]
    by_cases heq : o = oid
    · subst heq
      obtain ⟨request, ack, hplaced, hack, hoid, hrest, hle⟩ := hpart hlast
      refine ⟨request, ack, List.mem_append_left _ hplaced, hack, hoid, ?_⟩
      rw [if_pos rfl, ← sub_sub]
      rcases hbooked with hsame | ⟨-, hmoved⟩
      · rw [hsame]
        exact abs_add_signedBase_le h.position hrest (by linarith) (by linarith)
      · rw [hmoved, signedBase_sub _ _ size, add_assoc, add_sub_cancel]
        exact hrest
    · have hsame : s'.hlPositionBase = s.hlPositionBase := by
        rcases hbooked with hsame | ⟨hother, -⟩
        · exact hsame
        · rw [hlast] at hother
          exact absurd (Option.some.inj hother) heq
      obtain ⟨request, ack, hplaced, hack, hoid, hrest⟩ := h.rest o hlast
      rw [if_neg heq, hsame]
      exact ⟨request, ack, List.mem_append_left _ hplaced, hack, hoid, hrest⟩

end Moves

/-! ## Runs -/

/-- A call keeps the position capped, if its tick sees an HL mid of at least `m`. -/
theorem step_capped {cfg : EngineConfig} {m q B : ℚ} (hm : 0 < m)
    (hcap : 0 < cfg.strategy.maxPositionUsd) (hB : cfg.strategy.maxPositionUsd / m + q ≤ B)
    {l : List MakerObs} {s : MakerHedgeEngine} {e : MakerEvent} (hside : Sided l s)
    (hmid : MidAtLeast cfg m e) (h : FillsWithin q l → Capped B l s) :
    Sided (l ++ (step cfg s e).2) (step cfg s e).1 ∧
      (FillsWithin q (l ++ (step cfg s e).2) →
        Capped B (l ++ (step cfg s e).2) (step cfg s e).1) := by
  refine @step_preserves cfg (AdmittedAt cfg m) s
    (fun l s => Sided l s ∧ (FillsWithin q l → Capped B l s)) l hside.slot.kind e
    ?_ ?_ ?_ ?_ ⟨hside, h⟩
  · rintro nowMs venues b order rfl hopen -
    exact ⟨_, hmid, hopen⟩
  · rintro nowMs venues order rfl hdeferred
    refine ⟨_, hmid, ?_⟩
    unfold deferredAcked at hdeferred
    split at hdeferred
    · split_ifs at hdeferred with hsent
      cases hdeferred
      exact hsent.2.1
    · cases hdeferred
  · rintro past t l' t' ⟨ht, hpast⟩ hmove
    exact ⟨hmove.sided ht, fun hfills => hmove.capped ht hm hcap hB hfills (hpast hfills.take)⟩
  · intro oid size l' t' _ hfill
    exact ⟨hfill.sided hside, fun hfills => hfill.capped hside hfills (h hfills.take)⟩

/-- The position cap: with the HL mid at least `m` on every tick, requests of at most `q` and no
order filled beyond its request, the position never passes where it started or
`max_position_usd / m + q`. -/
theorem position_capped (cfg : EngineConfig) (journalAttached : Bool) (p₀ m q : ℚ)
    (es : List MakerEvent) (hcap : 0 < cfg.strategy.maxPositionUsd) (hm : 0 < m)
    (hmid : ∀ e ∈ es, MidAtLeast cfg m e)
    (hfills : FillsWithin q ((machine cfg).obs (start journalAttached p₀) es)) :
    (machine cfg).Always (start journalAttached p₀)
      (fun _ s => |s.hlPositionBase| ≤ max |p₀| (cfg.strategy.maxPositionUsd / m + q)) es := by
  have hthroughout : (machine cfg).Throughout (start journalAttached p₀)
      (fun _ _ e => MidAtLeast cfg m e) es := by
    intro pre e hpre
    exact hmid e (hpre.subset (List.mem_append_right _ (List.mem_singleton_self _)))
  have hstart : Capped (max |p₀| (cfg.strategy.maxPositionUsd / m + q)) []
      (start journalAttached p₀) :=
    ⟨le_max_left _ _, fun oid hlast => by cases hlast⟩
  have hinv := EventMachine.always_of_throughout
    (P := fun l s => Sided l s ∧ (FillsWithin q l →
      Capped (max |p₀| (cfg.strategy.maxPositionUsd / m + q)) l s))
    ⟨sided_start journalAttached p₀, fun _ => hstart⟩
    (fun l s e h hmid => step_capped hm hcap (le_max_right _ _) h.1 hmid h.2) hthroughout
  intro pre hpre
  obtain ⟨rest, hrest⟩ : (machine cfg).obs (start journalAttached p₀) pre <+:
      (machine cfg).obs (start journalAttached p₀) es := EventMachine.obs_prefix hpre
  exact ((hinv pre hpre).2 (hrest ▸ hfills).take).position

/-- At an HL mid of 100 with requests of 1: a short position is bought back, filled in two parts
around a speculative hedge. -/
theorem position_capped_sample :
    (machine sampleConfig).Always (start false (-1 / 2))
      (fun _ s => |s.hlPositionBase| ≤ max |(-1 / 2 : ℚ)| (100 / 100 + 1))
      [tickUp 1000 "1", crossingTrade, fillOf "1" 0.25, fillOf "1" 0.75] :=
  position_capped sampleConfig false (-1 / 2) 100 1 _ (by decide +kernel) (by norm_num)
    (by decide +kernel) (by decide +kernel)

end Arb
