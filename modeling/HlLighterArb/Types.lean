import Mathlib.Algebra.Order.Ring.Rat
import Mathlib.Data.Rat.Cast.Order
import Mathlib.Tactic.Linarith
import Mathlib.Tactic.NormNum
import Mathlib.Tactic.Ring

/-!
# HlLighterArb.Types

The shared records of the bot. A `double` is an exact rational, an `int64` millisecond count an
`Int`, an exchange order id a `String`, and a `std::string` a `String` with one character a byte.

`Action` carries its payload in the constructor where the source has a tag and optional fields, so
a placement without an order cannot be built.
-/

namespace Arb

inductive Direction where
  | shortLighterLongHl
  | longLighterShortHl
  deriving DecidableEq, Repr

inductive StrategyState where
  | idle
  | pendingHlMaker
  | cancelledPendingConfirm
  | hlFilledPendingLighterHedge
  | pendingLighterMaker
  | cancelledPendingLighterConfirm
  | lighterFilledPendingHlHedge
  | open
  | unwindingHl
  | unwindingLighter
  | error
  deriving DecidableEq, Repr

structure Bbo where
  bid : ℚ := 0
  ask : ℚ := 0
  quoteAgeMs : Int := 0
  deriving DecidableEq

/-- Zero when either side of the book is missing. -/
def Bbo.mid (b : Bbo) : ℚ :=
  if b.bid ≤ 0 ∨ b.ask ≤ 0 then 0 else (b.bid + b.ask) / 2

structure SpreadSnapshot where
  lighter : Bbo
  hl : Bbo
  crossSpreadBps : ℚ := 0
  deriving DecidableEq

def SpreadSnapshot.valid (s : SpreadSnapshot) (maxQuoteAgeMs : Int) : Bool :=
  0 < s.lighter.mid && 0 < s.hl.mid &&
    s.lighter.quoteAgeMs ≤ maxQuoteAgeMs && s.hl.quoteAgeMs ≤ maxQuoteAgeMs

structure TradeEvent where
  coin : String
  price : ℚ := 0
  size : ℚ := 0
  isBuy : Bool := true
  timestampNs : Nat := 0
  exchangeTimeMs : Nat := 0

structure StrategyConfig where
  spreadBps : ℚ := 2
  closeSpreadBps : ℚ := 0
  cancelBandBps : ℚ := 0.5
  pairSizeUsd : ℚ := 25
  maxPositionUsd : ℚ := 100
  maxQuoteAgeMs : Int := 1500
  minRearmMs : Int := 500

structure PendingMakerOrder where
  direction : Direction := .shortLighterLongHl
  isBuy : Bool := true
  price : ℚ := 0
  sizeBase : ℚ := 0
  triggerSpreadBps : ℚ := 0
  entrySpreadBps : ℚ := 0
  deriving DecidableEq

structure OpenHedgePosition where
  direction : Direction := .shortLighterLongHl
  sizeBase : ℚ := 0
  hlFillPrice : ℚ := 0
  lighterFillPrice : ℚ := 0
  deriving DecidableEq

structure HedgeIntent where
  isAsk : Bool := false
  limitPrice : ℚ := 0
  sizeBase : ℚ := 0
  deriving DecidableEq

structure HlHedgeIntent where
  isBuy : Bool := true
  limitPrice : ℚ := 0
  sizeBase : ℚ := 0
  deriving DecidableEq

inductive Action where
  | none
  | placeHlMaker (reason : String) (makerOrder : PendingMakerOrder)
  | cancelHlMaker (reason : String) (makerOrder : PendingMakerOrder)
  | placeLighterMaker (reason : String) (makerOrder : PendingMakerOrder)
  | cancelLighterMaker (reason : String) (makerOrder : PendingMakerOrder)
  | sendLighterTakerHedge (reason : String) (hedgeIntent : HedgeIntent)
  | sendHlTakerHedge (reason : String) (hlHedgeIntent : HlHedgeIntent)
  | unwindHlPosition (reason : String)
  | unwindLighterPosition (reason : String)
  deriving DecidableEq

/-- The side of the HL leg: long HL is an HL buy. -/
def Direction.isBuyHl : Direction → Bool
  | .shortLighterLongHl => true
  | .longLighterShortHl => false

/-! ## Books and snapshots -/

theorem Bbo.mid_of_pos {b : Bbo} (hb : 0 < b.bid) (ha : 0 < b.ask) :
    b.mid = (b.bid + b.ask) / 2 := by
  rw [Bbo.mid, if_neg]
  rintro (h | h) <;> linarith

theorem SpreadSnapshot.valid_iff {s : SpreadSnapshot} {age : Int} :
    s.valid age = true ↔ 0 < s.lighter.mid ∧ 0 < s.hl.mid ∧
      s.lighter.quoteAgeMs ≤ age ∧ s.hl.quoteAgeMs ≤ age := by
  simp [SpreadSnapshot.valid, and_assoc]

end Arb
