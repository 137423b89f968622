import HlLighterArb.Lib.Flow

/-!
# Lib.Simulation

A machine with more detail over one with less. Every step of the fine machine is played by some
steps of the coarse one, which it chooses from its state, and both show the same.

* `Simulates`: what one step has to satisfy, from states of an invariant.
* `Simulates.run`, `Simulates.taken`: then a run of the fine machine ends where the run it plays
  ends, shows what that run shows, and takes in what it takes in.
-/

namespace EventMachine

variable {σ ε ο σ' ε' ο' κ : Type}

/-- Every step of `m` from a state of `Inv` is played by the events `plays` of `m'`, on the image of
its state. `see` and `see'` are what is compared of the observations. -/
structure Simulates (m : EventMachine σ ε ο) (m' : EventMachine σ' ε' ο') (Inv : σ → Prop)
    (image : σ → σ') (plays : σ → ε → List ε') (see : ο → Option κ) (see' : ο' → Option κ) :
    Prop where
  keeps : ∀ s e, Inv s → Inv (m.step s e).1
  state : ∀ s e, Inv s → image (m.step s e).1 = m'.final (image s) (plays s e)
  shows : ∀ s e, Inv s →
    (m.step s e).2.filterMap see = (m'.obs (image s) (plays s e)).filterMap see'

variable {m : EventMachine σ ε ο} {m' : EventMachine σ' ε' ο'} {Inv : σ → Prop} {image : σ → σ'}
  {plays : σ → ε → List ε'} {see : ο → Option κ} {see' : ο' → Option κ} {s : σ}

theorem Simulates.run (h : Simulates m m' Inv image plays see see') (h0 : Inv s) (es : List ε) :
    image (m.final s es) = m'.final (image s) (m.taken plays s es) ∧
      (m.obs s es).filterMap see
        = (m'.obs (image s) (m.taken plays s es)).filterMap see' := by
  induction es generalizing s with
  | nil => exact ⟨rfl, rfl⟩
  | cons e es ih =>
    obtain ⟨hfinal, hobs⟩ := ih (h.keeps s e h0)
    rw [final_cons, obs_cons, taken, final_append, obs_append, List.filterMap_append,
      List.filterMap_append, hfinal, hobs, h.state s e h0, h.shows s e h0]
    exact ⟨rfl, rfl⟩

/-- What the run that is played takes in, step by step of the fine machine. -/
theorem Simulates.taken {α : Type} (h : Simulates m m' Inv image plays see see') (h0 : Inv s)
    (takes : σ' → ε' → List α) (es : List ε) :
    m'.taken takes (image s) (m.taken plays s es) =
      m.taken (fun t e => m'.taken takes (image t) (plays t e)) s es := by
  induction es generalizing s with
  | nil => rfl
  | cons e es ih =>
    rw [EventMachine.taken, EventMachine.taken, taken_append, ← h.state s e h0,
      ih (h.keeps s e h0)]

end EventMachine
