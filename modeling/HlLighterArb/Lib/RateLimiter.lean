import Mathlib.Data.List.Chain
import Mathlib.Logic.Function.Basic
import Mathlib.Tactic.Common

/-!
# Lib.RateLimiter

A limiter for actions of several kinds, with one slot for an action that came too early. A kind may
pass once in every `interval`; the limiter remembers when each kind last passed, and when the action
in the slot may be tried again.

* `Move interval r passes r'`: what the limiter does with an action, and what passes.
* `Kept`: what holds after every sequence of moves; `Kept.move` is its step.
* `Kept.apart`: any two passes of a kind are an interval apart, when time does not go back.
-/

structure RateLimiter (κ : Type) where
  last : κ → Int
  slot : Option κ
  retryAt : Option Int

namespace RateLimiter

section Moves

variable {κ : Type} [DecidableEq κ]

/-- A pass is a kind and a time. -/
inductive Move (interval : Int) (r : RateLimiter κ) : List (κ × Int) → RateLimiter κ → Prop where
  | idle : Move interval r [] r
  | taken : Move interval r [] { r with slot := none, retryAt := none }
  | deferred (k : κ) (now : Int) (early : now - r.last k < interval) :
      Move interval r [] { r with slot := some k, retryAt := some (r.last k + interval) }
  | passed (k : κ) (now : Int) (due : interval ≤ now - r.last k) :
      Move interval r [(k, now)]
        { last := Function.update r.last k now, slot := none, retryAt := none }

/-- When the kind passed. -/
def times (past : List (κ × Int)) (k : κ) : List Int :=
  (past.filter fun p => p.1 = k).map Prod.snd

theorem times_append (past passes : List (κ × Int)) (k : κ) :
    times (past ++ passes) k = times past k ++ times passes k := by
  simp [times]

theorem times_self (k : κ) (now : Int) : times [(k, now)] k = [now] := by
  simp [times]

theorem times_of_ne {k j : κ} (h : j ≠ k) (now : Int) : times [(k, now)] j = [] := by
  simp [times, h.symm]

/-- After the passes `past`, from a limiter whose kinds last passed at `start`. -/
structure Kept (interval : Int) (start : κ → Int) (past : List (κ × Int)) (r : RateLimiter κ) :
    Prop where
  retryAt : r.retryAt = r.slot.map fun k => r.last k + interval
  last : ∀ k, r.last k = (times past k).getLast?.getD (start k)
  chain : ∀ k, (times past k).IsChain fun t t' => interval ≤ t' - t

variable {interval : Int} {start : κ → Int} {past passes : List (κ × Int)} {r r' : RateLimiter κ}

theorem Move.length_le (hm : Move interval r passes r') : passes.length ≤ 1 := by
  cases hm with
  | passed => exact le_rfl
  | _ => exact Nat.zero_le 1

theorem Kept.init (slot : r.slot = none) (retryAt : r.retryAt = none) :
    Kept interval r.last [] r where
  retryAt := by rw [retryAt, slot, Option.map_none]
  last _ := rfl
  chain _ := .nil

theorem Kept.move (h : Kept interval start past r) (hm : Move interval r passes r') :
    Kept interval start (past ++ passes) r' := by
  cases hm with
  | idle => rwa [List.append_nil]
  | taken =>
    rw [List.append_nil]
    exact ⟨rfl, h.last, h.chain⟩
  | deferred k now early =>
    rw [List.append_nil]
    exact ⟨rfl, h.last, h.chain⟩
  | passed k now due =>
    refine ⟨rfl, fun j => ?_, fun j => ?_⟩
    · by_cases hj : j = k
      · subst hj
        rw [times_append, times_self, List.getLast?_append]
        exact Function.update_self ..
      · rw [times_append, times_of_ne hj, List.append_nil]
        exact (Function.update_of_ne hj ..).trans (h.last j)
    · by_cases hj : j = k
      · subst hj
        rw [times_append, times_self]
        refine List.isChain_append.mpr ⟨h.chain j, .singleton now, ?_⟩
        intro t ht t' ht'
        obtain rfl := Option.mem_some_iff.mp ht'
        rw [h.last j, Option.mem_def.mp ht] at due
        exact due
      · rw [times_append, times_of_ne hj, List.append_nil]
        exact h.chain j

end Moves

/-- Neighbours an interval apart and in order are all an interval apart. -/
theorem pairwise_of_isChain {interval : Int} {l : List Int} (hsorted : l.Pairwise (· ≤ ·))
    (hchain : l.IsChain fun t t' => interval ≤ t' - t) :
    l.Pairwise fun t t' => interval ≤ t' - t := by
  induction l with
  | nil => exact .nil
  | cons t l ih =>
    obtain ⟨-, hsorted⟩ := List.pairwise_cons.mp hsorted
    cases l with
    | nil => exact List.pairwise_singleton _ t
    | cons u l =>
      obtain ⟨hgap, hchain⟩ := List.isChain_cons_cons.mp hchain
      refine List.pairwise_cons.mpr ⟨fun v hv => ?_, ih hsorted hchain⟩
      rcases List.mem_cons.mp hv with rfl | hv
      · exact hgap
      · have hle := (List.pairwise_cons.mp hsorted).1 v hv
        omega

theorem Kept.apart {κ : Type} [DecidableEq κ] {interval : Int} {start : κ → Int}
    {past : List (κ × Int)} {r : RateLimiter κ} (h : Kept interval start past r) {k : κ}
    (hsorted : (times past k).Pairwise (· ≤ ·)) :
    (times past k).Pairwise fun t t' => interval ≤ t' - t :=
  pairwise_of_isChain hsorted (h.chain k)

end RateLimiter
