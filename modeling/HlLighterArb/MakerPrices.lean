import HlLighterArb.Core
import Mathlib.Algebra.Order.Field.Rat
import Mathlib.Tactic.Positivity

/-!
# HlLighterArb.MakerPrices

The prices the two strategies quote. An order is anchored at the other venue, a spread away, and
clamped to its own side of the book it is posted to.

* `HlMakerLighterHedger.buildMakerOrder_locks`, `LighterMakerHlHedger.buildMakerOrder_locks`: the
  order of a gate, on books with both sides.
* `maker_orders_lock_in_the_spread`: every order the strategies emit.
-/

namespace Arb

/-- Both sides of a book are there exactly when it has a mid. -/
theorem Bbo.mid_pos_iff {b : Bbo} : 0 < b.mid ↔ 0 < b.bid ∧ 0 < b.ask := by
  constructor
  · intro h
    unfold Bbo.mid at h
    split_ifs at h with hmissing
    · exact absurd h (lt_irrefl 0)
    · push Not at hmissing
      exact hmissing
  · rintro ⟨hb, ha⟩
    rw [Bbo.mid_of_pos hb ha]
    linarith

/-- A valid snapshot has both books, each with both sides. -/
structure SpreadSnapshot.Sided (s : SpreadSnapshot) : Prop where
  lighterBid : 0 < s.lighter.bid
  lighterAsk : 0 < s.lighter.ask
  hlBid : 0 < s.hl.bid
  hlAsk : 0 < s.hl.ask

theorem SpreadSnapshot.sided_of_valid {s : SpreadSnapshot} {age : Int} (h : s.valid age = true) :
    s.Sided := by
  obtain ⟨hl, hh, -, -⟩ := SpreadSnapshot.valid_iff.mp h
  obtain ⟨lighterBid, lighterAsk⟩ := Bbo.mid_pos_iff.mp hl
  obtain ⟨hlBid, hlAsk⟩ := Bbo.mid_pos_iff.mp hh
  exact ⟨lighterBid, lighterAsk, hlBid, hlAsk⟩

/-- An HL maker order leaves the spread to the Lighter book and stays on its side of the HL one. -/
structure LocksHl (s : SpreadSnapshot) (r : ℚ) (order : PendingMakerOrder) : Prop where
  buy : order.isBuy = true →
    order.price * (1 + r) ≤ s.lighter.bid ∧ 0 < order.price ∧ order.price ≤ s.hl.bid
  sell : order.isBuy = false →
    s.lighter.ask ≤ order.price * (1 - r) ∧ s.hl.ask ≤ order.price

/-- A Lighter maker order leaves the spread to the HL book and stays on its side of the Lighter
one. -/
structure LocksLighter (s : SpreadSnapshot) (r : ℚ) (order : PendingMakerOrder) : Prop where
  sell : order.isBuy = false → s.hl.ask * (1 + r) ≤ order.price ∧ s.lighter.ask ≤ order.price
  buy : order.isBuy = true →
    0 < order.price ∧ order.price ≤ s.hl.bid * (1 - r) ∧ order.price ≤ s.lighter.bid

section Orders

variable {s : SpreadSnapshot} {gate : SignalGate}

theorem HlMakerLighterHedger.buildMakerOrder_locks (cfg : HedgerConfig) (hs : s.Sided)
    (hpos : 0 < gate.entrySpreadBps) (hlt : gate.entrySpreadBps < 10000) :
    LocksHl s (gate.entrySpreadBps / 10000) (buildMakerOrder cfg s gate) := by
  have hr : 0 < gate.entrySpreadBps / 10000 := by positivity
  have hr1 : gate.entrySpreadBps / 10000 < 1 := by rw [div_lt_one (by norm_num)]; exact hlt
  cases hdir : gate.direction with
  | shortLighterLongHl =>
    have htarget : lighterAnchoredHlPrice s .shortLighterLongHl gate.entrySpreadBps =
        s.lighter.bid / (1 + gate.entrySpreadBps / 10000) := by
      simp [lighterAnchoredHlPrice, not_le.mpr hs.lighterBid]
    have hprice : (buildMakerOrder cfg s gate).price =
        min (s.lighter.bid / (1 + gate.entrySpreadBps / 10000)) s.hl.bid := by
      simp only [buildMakerOrder, hdir, htarget]
    refine ⟨fun _ => ?_, fun hsell => by simp [buildMakerOrder, hdir] at hsell⟩
    rw [hprice]
    refine ⟨?_, lt_min (div_pos hs.lighterBid (by linarith)) hs.hlBid, min_le_right _ _⟩
    exact (le_div_iff₀ (by linarith)).mp (min_le_left _ _)
  | longLighterShortHl =>
    have htarget : lighterAnchoredHlPrice s .longLighterShortHl gate.entrySpreadBps =
        s.lighter.ask / (1 - gate.entrySpreadBps / 10000) := by
      simp [lighterAnchoredHlPrice, not_le.mpr hs.lighterAsk, not_le.mpr hr1]
    have hprice : (buildMakerOrder cfg s gate).price =
        max (s.lighter.ask / (1 - gate.entrySpreadBps / 10000)) s.hl.ask := by
      simp only [buildMakerOrder, hdir, htarget]
    refine ⟨fun hbuy => by simp [buildMakerOrder, hdir] at hbuy, fun _ => ?_⟩
    rw [hprice]
    refine ⟨?_, le_max_right _ _⟩
    exact (div_le_iff₀ (by linarith)).mp (le_max_left _ _)

theorem LighterMakerHlHedger.buildMakerOrder_locks (cfg : HedgerConfig) (hs : s.Sided)
    (hlt : gate.entrySpreadBps < 10000) :
    LocksLighter s (gate.entrySpreadBps / 10000) (buildMakerOrder cfg s gate) := by
  have hr1 : gate.entrySpreadBps / 10000 < 1 := by rw [div_lt_one (by norm_num)]; exact hlt
  cases hdir : gate.direction with
  | shortLighterLongHl =>
    have hprice : (buildMakerOrder cfg s gate).price =
        max (s.hl.ask * (1 + gate.entrySpreadBps / 10000)) s.lighter.ask := by
      simp [buildMakerOrder, hdir, hlAnchoredLighterPrice, not_le.mpr hs.hlAsk]
    refine ⟨fun _ => ?_, fun hbuy => by simp [buildMakerOrder, hdir] at hbuy⟩
    rw [hprice]
    exact ⟨le_max_left _ _, le_max_right _ _⟩
  | longLighterShortHl =>
    have hprice : (buildMakerOrder cfg s gate).price =
        min (s.hl.bid * (1 - gate.entrySpreadBps / 10000)) s.lighter.bid := by
      simp [buildMakerOrder, hdir, hlAnchoredLighterPrice, not_le.mpr hs.hlBid]
    refine ⟨fun hsell => by simp [buildMakerOrder, hdir] at hsell, fun _ => ?_⟩
    rw [hprice]
    exact ⟨lt_min (mul_pos hs.hlBid (by linarith)) hs.lighterBid, min_le_left _ _,
      min_le_right _ _⟩

end Orders

/-! ## The orders that are emitted -/

/-- A strategy acts on valid snapshots only, and what it places is the order of its own gate. -/
theorem Hedger.onSnapshot_place {h : Hedger} {leg : MakerLeg} {cfg : HedgerConfig}
    {snapshot : SpreadSnapshot} {threshold : ℚ} {build : SignalGate → PendingMakerOrder}
    {reason : SignalGate → String} {nowMs : Int} {r : String} {order : PendingMakerOrder}
    (hleg : ∀ r o, leg.place r o ≠ .none) (hcancel : ∀ r o r' o', leg.place r o ≠ leg.cancel r' o')
    (hinj : ∀ r o r' o', leg.place r o = leg.place r' o' → o = o')
    (hact : (h.onSnapshot leg cfg snapshot threshold build reason nowMs).2 = leg.place r order) :
    snapshot.Sided ∧ ∃ gate, order = build gate := by
  have hvalid : snapshot.valid cfg.maxQuoteAgeMs = true := by
    by_contra hinvalid
    rw [onSnapshot, if_neg hinvalid] at hact
    exact hleg _ _ hact.symm
  refine ⟨SpreadSnapshot.sided_of_valid hvalid, ?_⟩
  have hd := h.onSnapshot_decided cfg hleg snapshot threshold build reason nowMs
  rw [hact] at hd
  generalize (h.onSnapshot leg cfg snapshot threshold build reason nowMs).1 = h' at hd
  generalize ha : leg.place r order = a at hd
  cases hd with
  | quiet => exact (hleg _ _ ha).elim
  | place _ _ _ _ _ act => exact ⟨_, hinj _ _ _ _ (ha.trans act)⟩
  | cancel _ _ _ _ _ _ _ _ act => exact (hcancel _ _ _ _ (ha.trans act)).elim

theorem HlMakerLighterHedger.onMarketSnapshot_place {cfg : HedgerConfig} {h : Hedger}
    {snapshot : SpreadSnapshot} {nowMs : Int} {pos : ℚ} {r : String} {order : PendingMakerOrder}
    (hact : (onMarketSnapshot cfg h snapshot nowMs pos).2 = .placeHlMaker r order) :
    snapshot.Sided ∧ ∃ gate, order = buildMakerOrder cfg snapshot gate := by
  rw [onMarketSnapshot_eq] at hact
  exact Hedger.onSnapshot_place (fun _ _ => by simp [leg]) (fun _ _ _ _ => by simp [leg])
    (fun _ _ _ _ ho => (Action.placeHlMaker.inj ho).2) hact

theorem LighterMakerHlHedger.onMarketSnapshot_place {cfg : HedgerConfig} {h : Hedger}
    {snapshot : SpreadSnapshot} {nowMs : Int} {r : String} {order : PendingMakerOrder}
    (hact : (onMarketSnapshot cfg h snapshot nowMs).2 = .placeLighterMaker r order) :
    snapshot.Sided ∧ ∃ gate, order = buildMakerOrder cfg snapshot gate := by
  rw [onMarketSnapshot_eq] at hact
  exact Hedger.onSnapshot_place (fun _ _ => by simp [leg]) (fun _ _ _ _ => by simp [leg])
    (fun _ _ _ _ ho => (Action.placeLighterMaker.inj ho).2) hact

/-- Every maker order that a strategy emits, in any state, keeps the entry spread and rests. -/
theorem maker_orders_lock_in_the_spread (cfg : HedgerConfig) (h : Hedger)
    (snapshot : SpreadSnapshot) (nowMs : Int) (pos : ℚ) (reason : String)
    (order : PendingMakerOrder) (hpos : 0 < order.entrySpreadBps)
    (hlt : order.entrySpreadBps < 10000) :
    ((HlMakerLighterHedger.onMarketSnapshot cfg h snapshot nowMs pos).2 =
        .placeHlMaker reason order →
      LocksHl snapshot (order.entrySpreadBps / 10000) order) ∧
    ((LighterMakerHlHedger.onMarketSnapshot cfg h snapshot nowMs).2 =
        .placeLighterMaker reason order →
      LocksLighter snapshot (order.entrySpreadBps / 10000) order) := by
  constructor
  · intro hact
    obtain ⟨hs, gate, rfl⟩ := HlMakerLighterHedger.onMarketSnapshot_place hact
    exact HlMakerLighterHedger.buildMakerOrder_locks cfg hs hpos hlt
  · intro hact
    obtain ⟨hs, gate, rfl⟩ := LighterMakerHlHedger.onMarketSnapshot_place hact
    exact LighterMakerHlHedger.buildMakerOrder_locks cfg hs hlt

/-- Lighter trades forty basis points above HL. -/
def wideSnapshot : SpreadSnapshot where
  lighter := { bid := 100.4, ask := 100.5 }
  hl := { bid := 100, ask := 100.1 }
  crossSpreadBps := 40

theorem maker_orders_lock_in_the_spread_wide :
    let cfg : HedgerConfig :=
      { spread_pos := StrategyConfig.default_spread_pos
        cancel_band_nonneg := StrategyConfig.default_cancel_band_nonneg }
    LocksHl wideSnapshot (2 / 10000)
        (HlMakerLighterHedger.buildMakerOrder cfg wideSnapshot (armedGate 40 2)) ∧
      LocksLighter wideSnapshot (2 / 10000)
        (LighterMakerHlHedger.buildMakerOrder cfg wideSnapshot (armedGate 40 2)) := by
  intro cfg
  exact ⟨(maker_orders_lock_in_the_spread cfg {} wideSnapshot 1000 0
      "spread reached entry threshold"
      (HlMakerLighterHedger.buildMakerOrder cfg wideSnapshot (armedGate 40 2))
      (by decide +kernel) (by decide +kernel)).1 (by decide +kernel),
    (maker_orders_lock_in_the_spread cfg {} wideSnapshot 1000 0
      "spread reached entry threshold"
      (LighterMakerHlHedger.buildMakerOrder cfg wideSnapshot (armedGate 40 2))
      (by decide +kernel) (by decide +kernel)).2 (by decide +kernel)⟩

end Arb
