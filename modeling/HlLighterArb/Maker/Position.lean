import HlLighterArb.Maker.Delta
import Mathlib.Algebra.BigOperators.Group.List.Basic

/-!
# HlLighterArb.Maker.Position

Whether `hl_position_base_` is the position of the account. `on_hl_fill` adds an accepted fill in
four of its branches; in the two branches of a failed hedge it adds nothing, counting on the unwind
to take the whole fill back.

* `Tracks`: the engine's position is the one it started from, the accepted fills and what
  `reduce_position` filled.
* `UnwindsInFull`: a fill whose hedge fails is unwound completely.
* `tracks_iff`: a run tracks the account exactly when all its calls unwind in full.
-/

namespace Arb

open MakerHedgeEngine

/-- The signed base quantity a `reduce_position` order filled. -/
def MakerObs.reduced : MakerObs → ℚ
  | .reduce isBuy _ ack => signedBase isBuy ack.filledSize
  | _ => 0

def netReduced (l : List MakerObs) : ℚ :=
  (l.map MakerObs.reduced).sum

/-- `hl_position_base_` is the position started from, the accepted fills, each on the side of its
order, and what the unwinds filled. -/
def Tracks (p₀ : ℚ) (l : List MakerObs) (s : MakerHedgeEngine) : Prop :=
  s.hlPositionBase = p₀ + (deltaLedger l).hl + netReduced l

instance (p₀ : ℚ) (l : List MakerObs) (s : MakerHedgeEngine) : Decidable (Tracks p₀ l s) :=
  inferInstanceAs (Decidable (_ = _))

/-- The Lighter order of a fill is not filled and confirmed. -/
def HedgeFails (cfg : EngineConfig) (s : MakerHedgeEngine) (size : ℚ) (snapshot : SpreadSnapshot)
    (venues : Venues) : Prop :=
  let ack := venues.lighter.placeIocOrder
    (iocRequest cfg snapshot s.lastMakerDirection.isBuyHl 10 size)
  ¬ (ack.ok ∧ ack.fillConfirmed)

instance (cfg : EngineConfig) (s : MakerHedgeEngine) (size : ℚ) (snapshot : SpreadSnapshot)
    (venues : Venues) : Decidable (HedgeFails cfg s size snapshot venues) :=
  inferInstanceAs (Decidable (¬ (_ ∧ _)))

/-- A fill on the normal path whose hedge fails is bought or sold back completely. -/
def UnwindsInFull (cfg : EngineConfig) (s : MakerHedgeEngine) : MakerEvent → Prop
  | .fill _ size snapshot oid _ venues =>
    s.fillPath oid size = .hedge → HedgeFails cfg s size snapshot venues →
      (venues.hl.reducePosition cfg.hlCoin (!s.lastMakerDirection.isBuyHl) size
        cfg.dryRun).filledSize = size
  | _ => True

instance (cfg : EngineConfig) (s : MakerHedgeEngine) :
    (e : MakerEvent) → Decidable (UnwindsInFull cfg s e)
  | .fill _ size snapshot oid _ venues => inferInstanceAs (Decidable (s.fillPath oid size = .hedge →
      HedgeFails cfg s size snapshot venues → (venues.hl.reducePosition cfg.hlCoin
        (!s.lastMakerDirection.isBuyHl) size cfg.dryRun).filledSize = size))
  | .tick _ _ => .isTrue trivial
  | .trade _ _ => .isTrue trivial

/-! ## What a call adds to the position -/

theorem netReduced_append (l l' : List MakerObs) :
    netReduced (l ++ l') = netReduced l + netReduced l' := by
  simp [netReduced]

theorem netReduced_of_none {l : List MakerObs} (h : ∀ o ∈ l, o.reduced = 0) : netReduced l = 0 :=
  List.sum_eq_zero (by simpa using h)

section Moves

variable {cfg : EngineConfig} {ok : MakerHedgeEngine → PendingMakerOrder → Prop}
  {s s' b : MakerHedgeEngine} {past l : List MakerObs} {order : PendingMakerOrder}

theorem PlaceFrom.position_eq (hp : PlaceFrom s order b) : b.hlPositionBase = s.hlPositionBase := by
  cases hp <;> rfl

theorem CancelFrom.position_eq (hc : CancelFrom s order b) :
    b.hlPositionBase = s.hlPositionBase := by
  cases hc <;> rfl

/-- A tick or a trade moves neither the position nor what it is compared with. -/
theorem Move.position_eq (hm : Move cfg ok s l s') :
    s'.hlPositionBase = s.hlPositionBase ∧ (deltaLedger (past ++ l)).hl = (deltaLedger past).hl ∧
      netReduced l = 0 := by
  rw [deltaLedger_append]
  cases hm with
  | placeBlocked origin => exact ⟨origin.position_eq, rfl, rfl⟩
  | placeDeferred origin => exact ⟨origin.position_eq, rfl, rfl⟩
  | placeAcked origin _ acked =>
    refine ⟨origin.position_eq, ?_, netReduced_of_none (by simp [MakerObs.reduced])⟩
    simp [DeltaLedger.next, acked]
  | placeNacked origin nacked =>
    refine ⟨origin.position_eq, ?_, netReduced_of_none (by simp [MakerObs.reduced])⟩
    simp [DeltaLedger.next, nacked]
  | cancelDeferred origin => exact ⟨origin.position_eq, rfl, rfl⟩
  | cancelIdle origin => exact ⟨origin.position_eq, rfl, rfl⟩
  | cancelAcked origin _ _ unwind _ _ _ unwinds =>
    refine ⟨origin.position_eq, ?_, netReduced_of_none ?_⟩ <;> rw [unwinds] <;> split_ifs <;>
      simp [DeltaLedger.next, MakerObs.reduced]
  | cancelNacked origin =>
    exact ⟨origin.position_eq, rfl, netReduced_of_none (by simp [MakerObs.reduced])⟩
  | _ => exact ⟨rfl, rfl, netReduced_of_none (by simp [MakerObs.reduced])⟩

/-- An accepted fill is booked on the side of its order, by the engine and by the ledger. -/
theorem Sided.applyHlFill (h : Sided past s) {oid : String} (size : ℚ)
    (hlast : (orderLife past).last = some oid) :
    (s.applyHlFill size).hlPositionBase =
      s.hlPositionBase + signedBase ((deltaLedger past).buys oid) size := by
  rw [h.side oid hlast]
  rfl

theorem signedBase_inj {isBuy : Bool} {x y : ℚ} (h : signedBase isBuy x = signedBase isBuy y) :
    x = y := by
  cases isBuy <;> simpa [signedBase] using h

/-- After a fill the position tracks the account if it did before, unless the fill is unwound by
more or less than its size. -/
theorem fill_tracks_iff {p₀ : ℚ} (h : Sided past s) (htracks : Tracks p₀ past s)
    (fillPrice size : ℚ) (snapshot : SpreadSnapshot) (oid : String) (hlFee : ℚ) (venues : Venues) :
    Tracks p₀ (past ++ (step cfg s (.fill fillPrice size snapshot oid hlFee venues)).2)
        (step cfg s (.fill fillPrice size snapshot oid hlFee venues)).1 ↔
      UnwindsInFull cfg s (.fill fillPrice size snapshot oid hlFee venues) := by
  have hbooked : (orderLife past).last = some oid → _ := h.applyHlFill size
  rw [Tracks] at htracks
  simp only [Tracks, UnwindsInFull, step, onHlFill, deltaLedger_append, netReduced_append,
    List.foldl_cons, DeltaLedger.next]
  generalize netReduced past = reduced at *
  cases hpath : s.fillPath oid size with
  | unknownOid => simp [htracks, netReduced, MakerObs.reduced]
  | perfectMatch =>
    have hpos := hbooked (h.follows.reconciled (.inl hpath)).1
    simp [reconcilePerfect, closeReconciled, clearSpeculative, netReduced, MakerObs.reduced, hpos,
      htracks]
    ring
  | correction =>
    have hpos := hbooked (h.follows.reconciled (.inr (.inl hpath))).1
    simp [reconcileCorrection, closeReconciled, clearSpeculative, netReduced, MakerObs.reduced,
      DeltaLedger.next, hpos, htracks]
    ring
  | overshoot =>
    have hpos := hbooked (h.follows.reconciled (.inr (.inr hpath))).1
    simp [reconcileOvershoot, clearSpeculative, netReduced, MakerObs.reduced, DeltaLedger.next,
      hpos, htracks]
    ring
  | hedge =>
    have hlast := (h.follows.hedge_path hpath).1
    simp only [hedgeFill]
    by_cases hfails : HedgeFails cfg s size snapshot venues
    · -- the fill is not booked, and the unwind takes back what it fills
      rw [if_neg hfails]
      simp [closeHedged, netReduced, MakerObs.reduced, DeltaLedger.next, hfails, htracks,
        h.side oid hlast]
      generalize (venues.hl.reducePosition _ _ _ _).filledSize = unwound
      constructor
      · intro heq
        exact @signedBase_inj s.lastMakerDirection.isBuyHl unwound size (by linarith)
      · rintro rfl
        ring
    · rw [if_pos (not_not.mp hfails)]
      have hpos := hbooked hlast
      simp [closeHedged, netReduced, MakerObs.reduced, DeltaLedger.next, hfails, hpos, htracks]
      ring

end Moves

/-! ## Runs -/

/-- A call keeps the sides, and keeps tracking the account exactly if it unwinds in full. -/
theorem step_tracks {cfg : EngineConfig} {p₀ : ℚ} {l : List MakerObs} {s : MakerHedgeEngine}
    (h : Sided l s) (e : MakerEvent) :
    Sided (l ++ (step cfg s e).2) (step cfg s e).1 ∧
      (Tracks p₀ l s →
        (Tracks p₀ (l ++ (step cfg s e).2) (step cfg s e).1 ↔ UnwindsInFull cfg s e)) := by
  have hsided : Sided (l ++ (step cfg s e).2) (step cfg s e).1 := by
    refine @step_keeps cfg s Sided l h.slot.kind e ?_ ?_ h
    · exact fun past t l' t' ht hm => hm.sided ht
    · exact fun oid size l' t' _ hm => hm.sided h
  refine ⟨hsided, fun htracks => ?_⟩
  -- ticks and trades are made of moves, which all keep tracking
  have hmoves : (∀ past t l' t', Tracks p₀ past t → Move cfg (fun _ _ => True) t l' t' →
      Tracks p₀ (past ++ l') t') := by
    intro past t l' t' ht hm
    obtain ⟨hpos, hhl, hreduced⟩ := @Move.position_eq cfg _ t t' past l' hm
    rw [Tracks, hpos, hhl, netReduced_append, hreduced, add_zero]
    exact ht
  cases e with
  | fill => exact fill_tracks_iff h htracks _ _ _ _ _ _
  | tick nowMs venues =>
    refine iff_of_true ?_ trivial
    exact @step_keeps cfg s (Tracks p₀) l h.slot.kind (.tick nowMs venues) hmoves
      (fun _ _ _ _ hd _ => hd.elim) htracks
  | trade trade venues =>
    refine iff_of_true ?_ trivial
    exact @step_keeps cfg s (Tracks p₀) l h.slot.kind (.trade trade venues) hmoves
      (fun _ _ _ _ hd _ => hd.elim) htracks

theorem sided_start (journalAttached : Bool) (p₀ : ℚ) : Sided [] (start journalAttached p₀) :=
  ⟨.of_none rfl, followsOrder_start journalAttached p₀, fun _ hlast => by cases hlast⟩

theorem tracks_start (journalAttached : Bool) (p₀ : ℚ) :
    Tracks p₀ [] (start journalAttached p₀) := by
  simp [Tracks, deltaLedger, netReduced, start, setHlPosition]

/-- In every run the order acknowledged last is on the engine's side. -/
theorem sided_always (cfg : EngineConfig) (journalAttached : Bool) (p₀ : ℚ)
    (es : List MakerEvent) :
    (machine cfg).Always (start journalAttached p₀) Sided es :=
  EventMachine.invariant (sided_start journalAttached p₀)
    (fun _ _ e h => (@step_tracks cfg p₀ _ _ h e).1) es

/-- A run tracks the account in every state exactly when every fill whose hedge fails is unwound
by its size. -/
theorem tracks_iff (cfg : EngineConfig) (journalAttached : Bool) (p₀ : ℚ) (es : List MakerEvent) :
    (machine cfg).Always (start journalAttached p₀) (Tracks p₀) es ↔
      (machine cfg).Throughout (start journalAttached p₀) (fun _ s e => UnwindsInFull cfg s e) es := by
  have hsided := sided_always cfg journalAttached p₀ es
  have hboth : (machine cfg).Always (start journalAttached p₀)
      (fun l s => Sided l s ∧ Tracks p₀ l s) es ↔
        (machine cfg).Throughout (start journalAttached p₀)
          (fun _ s e => UnwindsInFull cfg s e) es := by
    refine EventMachine.always_iff_throughout
      ⟨sided_start journalAttached p₀, tracks_start journalAttached p₀⟩ ?_ es
    rintro l s e ⟨hs, ht⟩
    obtain ⟨hnext, hiff⟩ := @step_tracks cfg p₀ l s hs e
    exact (and_iff_right hnext).trans (hiff ht)
  rw [← hboth]
  exact ⟨fun h pre hp => ⟨hsided pre hp, h pre hp⟩, fun h => h.mono fun _ _ hp => hp.2⟩

/-- A fill of 1 with Lighter rejecting the hedge and HL filling `unwound` of the unwind. -/
def fillUnwound (oid : String) (unwound : ℚ) : MakerEvent :=
  .fill 100 1 (spreadSnapshot (bookAround 100) (bookAround 110)) oid 0
    { obligingVenues 100 110 0 "" with
      hl := { obligingHl 100 "" with
        reducePosition := fun _ _ _ _ => { ok := true, filledSize := unwound } }
      lighter := { obligingLighter 110 1 with placeIocOrder := fun _ => { ok := false } } }

/-- The hedge of a fill is rejected and its unwind fills a quarter: HL holds the other three. -/
theorem partial_unwind_untracked :
    ¬ (machine sampleConfig).Always (start false 0) (Tracks 0)
      [tickUp 1000 "1", fillUnwound "1" 0.25] := by
  decide +kernel

end Arb
