import HlLighterArb.Maker.Moves

/-!
# HlLighterArb.Maker.Fills

Which fill messages `on_hl_fill` acts on. The engine keeps a set of recently placed oids, clears it
at every acknowledged placement and erases from it in two branches of the reconciliation, so the
set never holds more than the order acknowledged last.

* `orderLife`: the order acknowledged last and the speculative hedge outstanding for it, read off
  the messages and acknowledgements alone.
* `followsOrder_always`: the engine's oid set and speculative fields are those of `orderLife`.
* `fillsActedOn_iff`: a run acts on every fill of an acknowledged order exactly when every such fill
  is one of the order acknowledged last, not yet closed by a reconciled fill.
-/

namespace Arb

open MakerHedgeEngine

/-- The order acknowledged last, until a reconciled fill closes it, and the size of the speculative
hedge that is outstanding for it. -/
structure OrderLife where
  last : Option String := none
  hedged : Option ℚ := none
  deriving DecidableEq

/-- A fill that is not short of the speculative hedge. -/
def coversHedge (size hedgeSize : ℚ) : Prop :=
  |size - hedgeSize| < 0.001 ∨ 0.001 < size - hedgeSize

instance (size hedgeSize : ℚ) : Decidable (coversHedge size hedgeSize) :=
  inferInstanceAs (Decidable (_ ∨ _))

def OrderLife.next (life : OrderLife) : MakerObs → OrderLife
  | .fill oid size _ =>
    if life.last = some oid then
      match life.hedged with
      | none => life
      | some hedgeSize =>
        { last := if coversHedge size hedgeSize then none else life.last, hedged := none }
    else life
  | .placeLimit _ ack => if ack.ok then { last := some ack.oid, hedged := none } else life
  | .cancel _ ack => if ack.ok then { life with hedged := none } else life
  | .ioc .speculative request ack =>
    { life with hedged := if ack.ok ∧ ack.fillConfirmed then some request.size else none }
  | .ioc _ _ _ => life
  | .reduce _ _ _ => life

def orderLife (l : List MakerObs) : OrderLife :=
  l.foldl OrderLife.next {}

theorem orderLife_append (l l' : List MakerObs) :
    orderLife (l ++ l') = l'.foldl OrderLife.next (orderLife l) := by
  simp [orderLife]

/-- The oids of the acknowledged placements. -/
def ackedOids (l : List MakerObs) : List String :=
  l.filterMap fun
    | .placeLimit _ ack => if ack.ok then some ack.oid else none
    | _ => none

/-- The order acknowledged last has been acknowledged. -/
theorem OrderLife.last_acked {l : List MakerObs} {oid : String}
    (h : (orderLife l).last = some oid) : oid ∈ ackedOids l := by
  induction l using List.reverseRecOn with
  | nil => cases h
  | append_singleton l o ih =>
    rw [orderLife_append] at h
    have hkept : (orderLife l).last = some oid → oid ∈ ackedOids (l ++ [o]) := by
      intro hlast
      rw [ackedOids, List.filterMap_append]
      exact List.mem_append_left _ (ih hlast)
    simp only [List.foldl_cons, List.foldl_nil, OrderLife.next] at h
    cases o with
    | placeLimit request ack =>
      simp only at h
      split_ifs at h with hack
      · obtain rfl : ack.oid = oid := by simpa using h
        simp [ackedOids, hack]
      · exact hkept h
    | fill o size path =>
      refine hkept ?_
      simp only at h
      split_ifs at h with hlast
      · cases hhedged : (orderLife l).hedged with
        | none => simpa [hhedged] using h
        | some hedgeSize =>
          simp only [hhedged] at h
          split_ifs at h
          exact h
      · exact h
    | cancel o ack =>
      refine hkept ?_
      simp only at h
      split_ifs at h <;> exact h
    | ioc purpose request ack =>
      refine hkept ?_
      cases purpose <;> exact h
    | reduce => exact hkept h

/-! ## The engine follows the order -/

/-- The engine's fields agree with the life of the order acknowledged last. -/
structure FollowsOrder (life : OrderLife) (s : MakerHedgeEngine) : Prop where
  placed : s.recentlyPlacedOids = life.last.toList
  active : ∀ oid, s.activeHlOid = some oid → life.last = some oid
  sent : s.speculativeHedgeSent = life.hedged.isSome
  hedge : ∀ size, life.hedged = some size →
    s.speculativeHedgeSize = size ∧ life.last = some s.speculativeHedgeOid

namespace FollowsOrder

variable {life : OrderLife} {s : MakerHedgeEngine} {oid : String} {size : ℚ}

theorem unknown_iff (h : FollowsOrder life s) :
    s.fillPath oid size = .unknownOid ↔ life.last ≠ some oid := by
  have hmem : oid ∈ s.recentlyPlacedOids ↔ life.last = some oid := by
    rw [h.placed, Option.mem_toList]
  unfold fillPath
  by_cases hlast : life.last = some oid
  · simp only [hmem.mpr hlast, not_true_eq_false, if_false, hlast, ne_eq, iff_false]
    split_ifs <;> simp
  · simp [mt hmem.mp hlast, hlast]

/-- A fill on a reconciliation path is one of the order the hedge was sent for. -/
theorem reconciled (h : FollowsOrder life s)
    (hpath : s.fillPath oid size = .perfectMatch ∨ s.fillPath oid size = .correction ∨
      s.fillPath oid size = .overshoot) :
    life.last = some oid ∧ life.hedged = some s.speculativeHedgeSize := by
  have hsent : s.speculativeHedgeSent = true ∧ oid = s.speculativeHedgeOid := by
    unfold fillPath at hpath
    split_ifs at hpath with hknown hspec <;> simp_all
  obtain ⟨hedgeSize, hhedged⟩ := Option.isSome_iff_exists.mp (h.sent ▸ hsent.1)
  obtain ⟨hsize, hlast⟩ := h.hedge hedgeSize hhedged
  exact ⟨hsent.2 ▸ hlast, by rw [hhedged, hsize]⟩

/-- A fill on the normal path is one of the order acknowledged last, with no hedge outstanding. -/
theorem hedge_path (h : FollowsOrder life s) (hpath : s.fillPath oid size = .hedge) :
    life.last = some oid ∧ life.hedged = none := by
  have hlast : life.last = some oid := by
    by_contra hne
    rw [h.unknown_iff.mpr hne] at hpath
    cases hpath
  refine ⟨hlast, ?_⟩
  cases hhedged : life.hedged with
  | none => rfl
  | some hedgeSize =>
    obtain ⟨-, hspec⟩ := h.hedge hedgeSize hhedged
    have hoid : oid = s.speculativeHedgeOid := by simpa [hlast] using hspec
    have hsent : s.speculativeHedgeSent = true := by rw [h.sent, hhedged]; rfl
    unfold fillPath at hpath
    simp only [hsent, ← hoid, and_self, if_true] at hpath
    split_ifs at hpath

theorem perfect_covers (hpath : s.fillPath oid size = .perfectMatch) :
    coversHedge size s.speculativeHedgeSize := by
  unfold fillPath at hpath
  split_ifs at hpath with _ _ hmatch
  exact .inl hmatch

theorem correction_covers (hpath : s.fillPath oid size = .correction) :
    coversHedge size s.speculativeHedgeSize := by
  unfold fillPath at hpath
  split_ifs at hpath with _ _ _ hmore
  exact .inr hmore

theorem overshoot_short (hpath : s.fillPath oid size = .overshoot) :
    ¬ coversHedge size s.speculativeHedgeSize := by
  unfold fillPath at hpath
  split_ifs at hpath with _ _ hmatch hmore
  rintro (h | h)
  · exact hmatch h
  · exact hmore h

/-- A step that touches neither the oids nor the speculative fields. -/
theorem frame {s' : MakerHedgeEngine} (h : FollowsOrder life s)
    (placed : s'.recentlyPlacedOids = s.recentlyPlacedOids)
    (active : s'.activeHlOid = s.activeHlOid ∨ s'.activeHlOid = none)
    (sent : s'.speculativeHedgeSent = s.speculativeHedgeSent)
    (specSize : s'.speculativeHedgeSize = s.speculativeHedgeSize)
    (specOid : s'.speculativeHedgeOid = s.speculativeHedgeOid) : FollowsOrder life s' where
  placed := placed.trans h.placed
  active oid ho := by
    rcases active with ha | ha
    · exact h.active oid (ha ▸ ho)
    · rw [ha] at ho
      cases ho
  sent := sent.trans h.sent
  hedge size hs := by rw [specSize, specOid]; exact h.hedge size hs

/-- The speculative fields cleared, the hedge no longer outstanding. -/
theorem clear {s' : MakerHedgeEngine} (h : FollowsOrder life s)
    (placed : s'.recentlyPlacedOids = s.recentlyPlacedOids)
    (active : s'.activeHlOid = s.activeHlOid ∨ s'.activeHlOid = none)
    (sent : s'.speculativeHedgeSent = false) :
    FollowsOrder { life with hedged := none } s' where
  placed := placed.trans h.placed
  active oid ho := by
    rcases active with ha | ha
    · exact h.active oid (ha ▸ ho)
    · rw [ha] at ho
      cases ho
  sent := sent
  hedge size hs := by cases hs

theorem closed (h : FollowsOrder life s) (hlast : life.last = some oid) :
    FollowsOrder {} ((s.applyHlFill size).closeReconciled oid) where
  placed := by
    change s.recentlyPlacedOids.erase oid = []
    rw [h.placed, hlast]
    simp
  active o ho := by cases ho
  sent := rfl
  hedge size hs := by cases hs

end FollowsOrder

section Moves

variable {cfg : EngineConfig} {ok : MakerHedgeEngine → PendingMakerOrder → Prop}
  {s s' b : MakerHedgeEngine} {order : PendingMakerOrder} {life : OrderLife}

theorem PlaceFrom.followsOrder (hp : PlaceFrom s order b) (h : FollowsOrder life s) :
    FollowsOrder life b := by
  cases hp <;> exact h.frame rfl (.inl rfl) rfl rfl rfl

theorem CancelFrom.followsOrder (hc : CancelFrom s order b) (h : FollowsOrder life s) :
    FollowsOrder life b := by
  cases hc <;> exact h.frame rfl (.inl rfl) rfl rfl rfl

theorem Move.followsOrder {l : List MakerObs} (hm : Move cfg ok s l s')
    (h : FollowsOrder life s) : FollowsOrder (l.foldl OrderLife.next life) s' := by
  cases hm with
  | quiet => exact h.frame rfl (.inl rfl) rfl rfl rfl
  | placeBlocked origin => exact (origin.followsOrder h).frame rfl (.inl rfl) rfl rfl rfl
  | placeDeferred origin _ _ => exact (origin.followsOrder h).frame rfl (.inl rfl) rfl rfl rfl
  | placeAcked origin _ acked venues steadyMs =>
    simp only [List.foldl_cons, List.foldl_nil, OrderLife.next, acked, if_true]
    exact ⟨rfl, fun _ ho => ho, rfl, fun _ hs => by cases hs⟩
  | placeNacked origin nacked steadyMs =>
    simp only [List.foldl_cons, List.foldl_nil, OrderLife.next, nacked]
    exact (origin.followsOrder h).frame rfl (.inl rfl) rfl rfl rfl
  | cancelDeferred origin _ _ => exact (origin.followsOrder h).frame rfl (.inl rfl) rfl rfl rfl
  | cancelIdle origin _ _ => exact (origin.followsOrder h).frame rfl (.inl rfl) rfl rfl rfl
  | cancelAcked origin active acked unwind steadyMs snapshot venues unwinds =>
    have hunwind : ∀ life : OrderLife, unwind.foldl OrderLife.next life = life := by
      intro life
      rw [unwinds]
      split_ifs <;> rfl
    simp only [List.foldl_cons, OrderLife.next, acked, if_true, hunwind]
    exact (origin.followsOrder h).clear rfl (.inr rfl) rfl
  | cancelNacked origin _ nacked steadyMs =>
    simp only [List.foldl_cons, List.foldl_nil, OrderLife.next, nacked]
    exact (origin.followsOrder h).frame rfl (.inl rfl) rfl rfl rfl
  | tradeIgnored => exact h.frame rfl (.inl rfl) rfl rfl rfl
  | speculated active pending unsent snapshot filled =>
    simp only [List.foldl_cons, List.foldl_nil, OrderLife.next, filled, and_self, if_true]
    refine ⟨h.placed, h.active, rfl, fun size hs => ?_⟩
    cases hs
    exact ⟨rfl, h.active _ active⟩
  | speculationFailed active pending unsent snapshot failed =>
    simp only [List.foldl_cons, List.foldl_nil, OrderLife.next, failed, if_false]
    exact h.clear rfl (.inl rfl) rfl

theorem FillMove.followsOrder {oid : String} {size : ℚ} {l : List MakerObs}
    (hm : FillMove cfg s oid size l s') (h : FollowsOrder life s) :
    FollowsOrder (l.foldl OrderLife.next life) s' := by
  cases hm with
  | unknown path =>
    simp only [List.foldl_cons, List.foldl_nil, OrderLife.next, h.unknown_iff.mp path, if_false]
    exact h
  | perfect path =>
    obtain ⟨hlast, hhedged⟩ := h.reconciled (.inl path)
    have hcovers := FollowsOrder.perfect_covers path
    simp only [List.foldl_cons, List.foldl_nil, OrderLife.next, hlast, hhedged, hcovers, if_true]
    exact h.closed hlast
  | correction path snapshot ack =>
    obtain ⟨hlast, hhedged⟩ := h.reconciled (.inr (.inl path))
    have hcovers := FollowsOrder.correction_covers path
    simp only [List.foldl_cons, List.foldl_nil, OrderLife.next, hlast, hhedged, hcovers, if_true]
    exact h.closed hlast
  | overshoot path snapshot ack =>
    obtain ⟨hlast, hhedged⟩ := h.reconciled (.inr (.inr path))
    have hshort := FollowsOrder.overshoot_short path
    simp only [List.foldl_cons, List.foldl_nil, OrderLife.next, hlast, hhedged, hshort, if_true,
      if_false]
    exact hlast ▸ h.clear rfl (.inl rfl) rfl
  | hedged path snapshot filled =>
    obtain ⟨hlast, hhedged⟩ := h.hedge_path path
    simp only [List.foldl_cons, List.foldl_nil, OrderLife.next, hlast, hhedged, if_true]
    exact h.frame rfl (.inr rfl) rfl rfl rfl
  | unwound path snapshot failed unwind =>
    obtain ⟨hlast, hhedged⟩ := h.hedge_path path
    simp only [List.foldl_cons, List.foldl_nil, OrderLife.next, hlast, hhedged, if_true]
    exact h.frame rfl (.inr rfl) rfl rfl rfl

end Moves

theorem followsOrder_start (journalAttached : Bool) (p₀ : ℚ) :
    FollowsOrder (orderLife []) (start journalAttached p₀) :=
  ⟨rfl, fun _ ho => (by cases ho), rfl, fun _ hs => by cases hs⟩

/-- A call keeps the engine's fields those of the order acknowledged last. -/
theorem followsOrder_step {cfg : EngineConfig} {l : List MakerObs} {s : MakerHedgeEngine}
    (hdef : DeferredMaker s) (hfollows : FollowsOrder (orderLife l) s) (e : MakerEvent) :
    DeferredMaker (step cfg s e).1 ∧
      FollowsOrder (orderLife (l ++ (step cfg s e).2)) (step cfg s e).1 := by
  refine @step_keeps cfg s (fun l s => DeferredMaker s ∧ FollowsOrder (orderLife l) s) l hdef e
    ?_ ?_ ⟨hdef, hfollows⟩
  · rintro past t l' t' ⟨ht, hf⟩ hm
    exact ⟨hm.deferredMaker ht, orderLife_append past l' ▸ hm.followsOrder hf⟩
  · intro oid size l' t' _ hm
    exact ⟨hm.deferredMaker hdef, orderLife_append l l' ▸ hm.followsOrder hfollows⟩

/-- In every run the engine's fields are those of the order acknowledged last. -/
theorem followsOrder_always (cfg : EngineConfig) (journalAttached : Bool) (p₀ : ℚ)
    (es : List MakerEvent) :
    (machine cfg).Always (start journalAttached p₀)
      (fun l s => DeferredMaker s ∧ FollowsOrder (orderLife l) s) es :=
  EventMachine.invariant ⟨.of_none rfl, followsOrder_start journalAttached p₀⟩
    (fun _ _ e h => followsOrder_step h.1 h.2 e) es

/-! ## Fills acted on -/

/-- Every fill message for an oid acknowledged earlier in the run is acted on. -/
def FillsActedOn (cfg : EngineConfig) (s : MakerHedgeEngine) (es : List MakerEvent) : Prop :=
  (machine cfg).Throughout s
    (fun l t e => ∀ oid size, oid ∈ ackedOids l → e.Delivers oid size →
      t.fillPath oid size ≠ .unknownOid) es

theorem fillsActedOn_iff (cfg : EngineConfig) (journalAttached : Bool) (p₀ : ℚ)
    (es : List MakerEvent) :
    FillsActedOn cfg (start journalAttached p₀) es ↔
      (machine cfg).Throughout (start journalAttached p₀)
        (fun l _ e => ∀ oid size, oid ∈ ackedOids l → e.Delivers oid size →
          (orderLife l).last = some oid) es := by
  have hreach := followsOrder_always cfg journalAttached p₀ es
  have hknown : ∀ pre e, pre ++ [e] <+: es → ∀ oid size,
      (((machine cfg).final (start journalAttached p₀) pre).fillPath oid size ≠ .unknownOid ↔
        (orderLife ((machine cfg).obs (start journalAttached p₀) pre)).last = some oid) := by
    intro pre e hpre oid size
    have hfollows := (hreach.before hpre).2
    rw [ne_eq, hfollows.unknown_iff, ne_eq, not_not]
  constructor
  · intro h pre e hpre oid size hacked he
    exact (hknown pre e hpre oid size).mp (h pre e hpre oid size hacked he)
  · intro h pre e hpre oid size hacked he
    exact (hknown pre e hpre oid size).mpr (h pre e hpre oid size hacked he)

/-! ## A fill that is dropped -/

/-- A tick with Lighter above HL, which wants an HL buy; an order placed gets `oid`. -/
def tickUp (nowMs : Int) (oid : String) : MakerEvent :=
  .tick nowMs (obligingVenues 100 110 nowMs oid)

/-- A tick with Lighter below HL. -/
def tickDown (nowMs : Int) (oid : String) : MakerEvent :=
  .tick nowMs (obligingVenues 110 100 nowMs oid)

/-- A trade through the bid of HL quoted around 100, with Lighter around 110. -/
def crossingTrade : MakerEvent :=
  .trade { coin := "HYPE", price := 98, size := 1 } (obligingVenues 100 110 0 "")

def fillOf (oid : String) (size : ℚ) : MakerEvent :=
  .fill 100 size (spreadSnapshot (bookAround 100) (bookAround 110)) oid 0
    (obligingVenues 100 110 0 "")

/-- Order `"1"` is placed and cancelled, `"2"` is placed, and then a fill of `"1"` arrives. -/
theorem late_fill_dropped :
    ¬ FillsActedOn sampleConfig (start false 0)
      [tickUp 1000 "1", tickDown 2000 "", tickUp 3000 "2", fillOf "1" 1] := by
  intro h
  have hacked : "1" ∈ ackedOids ((machine sampleConfig).obs (start false 0)
      [tickUp 1000 "1", tickDown 2000 "", tickUp 3000 "2"]) := by decide +kernel
  refine h [tickUp 1000 "1", tickDown 2000 "", tickUp 3000 "2"] (fillOf "1" 1)
    (List.prefix_refl _) "1" 1 hacked ⟨rfl, rfl⟩ ?_
  decide +kernel

end Arb
