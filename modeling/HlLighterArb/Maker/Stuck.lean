import HlLighterArb.Progress

/-!
# HlLighterArb.Maker.Stuck

When `MakerHedgeEngine` has placed its last order, whatever is still to come. A stranded engine is
freed by a fill of an order it has not forgotten, and by nothing else.

* `Stuck`: stranded, and no order left whose fill would be accepted.
* `Stuck.step`: no call leads out, and none places.
* `exists_fill_idle`: while an order is not forgotten, some fill of it makes the engine idle.
-/

namespace Arb

open MakerHedgeEngine

/-- The engine is stranded, and has forgotten all its orders. -/
structure Stuck (s : MakerHedgeEngine) : Prop where
  stranded : Stranded HlMakerLighterHedger.leg s.core
  forgotten : s.recentlyPlacedOids = []

section Moves

variable {cfg : EngineConfig} {ok : MakerHedgeEngine → PendingMakerOrder → Prop}
  {s s' b : MakerHedgeEngine} {order : PendingMakerOrder} {l : List MakerObs}

theorem Stuck.move (h : Stuck s) (hm : Move cfg ok s l s') :
    Stuck s' ∧ l.any (·.isPlacement) = false := by
  obtain ⟨hstranded, hsent⟩ :=
    hm.core.stranded h.stranded StrategyState.noConfusion StrategyState.noConfusion
  exact ⟨⟨hstranded, (hm.recent hsent).trans h.forgotten⟩, hsent⟩

theorem Stuck.fillMove {oid : String} {size : ℚ} (h : Stuck s) (hm : FillMove cfg s oid size l s') :
    s' = s ∧ l.any (·.isPlacement) = false := by
  have hunknown : s.fillPath oid size = .unknownOid := by
    rw [fillPath, h.forgotten]
    exact if_pos (List.not_mem_nil)
  cases hm with
  | unknown => exact ⟨rfl, rfl⟩
  | perfect path => rw [hunknown] at path; cases path
  | correction path => rw [hunknown] at path; cases path
  | overshoot path => rw [hunknown] at path; cases path
  | hedged path => rw [hunknown] at path; cases path
  | unwound path => rw [hunknown] at path; cases path

/-- No call frees a stuck engine, and none makes it place. -/
theorem Stuck.step (h : Stuck s) (hdef : DeferredMaker s) (e : MakerEvent) :
    Stuck (step cfg s e).1 ∧ (MakerHedgeEngine.step cfg s e).2.any (·.isPlacement) = false := by
  have hkeep := @step_keeps cfg s (fun past t => Stuck t ∧ past.any (·.isPlacement) = false) []
    hdef e ?_ ?_ ⟨h, rfl⟩
  · simpa using hkeep
  · rintro past t l t' ⟨ht, hpast⟩ hm
    obtain ⟨ht', hsent⟩ := ht.move hm
    exact ⟨ht', by rw [List.any_append, hpast, hsent]; rfl⟩
  · intro oid size l t' _ hm
    obtain ⟨rfl, hsent⟩ := h.fillMove hm
    exact ⟨h, by simpa using hsent⟩

/-- A fill that is accepted makes the engine idle, unless it overshoots. -/
theorem FillMove.idle {oid : String} {size : ℚ} (hm : FillMove cfg s oid size l s')
    (accepted : s.fillPath oid size ≠ .unknownOid) (within : s.fillPath oid size ≠ .overshoot) :
    s'.strategy.state = .idle := by
  cases hm with
  | unknown path => exact absurd path accepted
  | overshoot path => exact absurd path within
  | _ => rfl

/-- While an order is not forgotten, some fill of it makes the engine idle. -/
theorem exists_fill_idle (h : s.recentlyPlacedOids ≠ []) (fillPrice : ℚ)
    (snapshot : SpreadSnapshot) (hlFee : ℚ) (venues : Venues) :
    ∃ oid size, (step cfg s (.fill fillPrice size snapshot oid hlFee venues)).1.strategy.state =
      .idle := by
  obtain ⟨oid, hoid⟩ := List.exists_mem_of_ne_nil _ h
  have hidle : ∀ size, s.fillPath oid size = .perfectMatch ∨ s.fillPath oid size = .hedge →
      (step cfg s (.fill fillPrice size snapshot oid hlFee venues)).1.strategy.state = .idle := by
    intro size hpath
    refine (onHlFill_fillMove fillPrice size snapshot oid hlFee venues).idle ?_ ?_ <;>
      rcases hpath with hpath | hpath <;> rw [hpath] <;> exact FillPath.noConfusion
  by_cases hspeculated : s.speculativeHedgeSent ∧ oid = s.speculativeHedgeOid
  · refine ⟨oid, s.speculativeHedgeSize, hidle _ (.inl ?_)⟩
    rw [fillPath, if_neg (not_not.mpr hoid), if_pos hspeculated, if_pos (by norm_num)]
  · refine ⟨oid, 0, hidle _ (.inr ?_)⟩
    rw [fillPath, if_neg (not_not.mpr hoid), if_neg hspeculated]

end Moves

end Arb
