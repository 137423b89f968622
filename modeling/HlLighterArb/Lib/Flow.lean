import HlLighterArb.Lib.Machine
import Mathlib.Data.List.Perm.Subperm

/-!
# Lib.Flow

What flows through a machine: events bring items in, the state holds items, and observations show
items that are given out.

* `taken`: the items the events of a run bring in, in order.
* `Shrinks`: a way to compare lists of items that append respects. Equality is for a queue that
  loses nothing, permutations for what may change the order, sub-multisets for what may drop items.
* `flow`: where every step compares what it gives out and then holds with what it held and took in,
  so does the run.
-/

namespace EventMachine

variable {σ ε ο α : Type}

/-- A comparison of lists that append respects. -/
structure Shrinks (R : List α → List α → Prop) : Prop where
  refl : ∀ l, R l l
  trans : ∀ {a b c}, R a b → R b c → R a c
  append_left : ∀ l {a b}, R a b → R (l ++ a) (l ++ b)
  append_right : ∀ l {a b}, R a b → R (a ++ l) (b ++ l)

theorem shrinks_eq : @Shrinks α Eq where
  refl _ := rfl
  trans := Eq.trans
  append_left l _ _ h := congrArg (l ++ ·) h
  append_right l _ _ h := congrArg (· ++ l) h

theorem shrinks_perm : @Shrinks α List.Perm where
  refl := List.Perm.refl
  trans := List.Perm.trans
  append_left l _ _ h := h.append_left l
  append_right l _ _ h := h.append_right l

theorem shrinks_subperm : @Shrinks α List.Subperm where
  refl := List.Subperm.refl
  trans := List.Subperm.trans
  append_left l _ _ h := (List.subperm_append_left l).mpr h
  append_right l _ _ h := (List.subperm_append_right l).mpr h

section Run

variable (m : EventMachine σ ε ο) (takes : σ → ε → List α)

/-- The items the events of a run bring in. -/
def taken (s : σ) : List ε → List α
  | [] => []
  | e :: es => takes s e ++ taken (m.step s e).1 es

theorem taken_append (s : σ) (es fs : List ε) :
    m.taken takes s (es ++ fs) = m.taken takes s es ++ m.taken takes (m.final s es) fs := by
  induction es generalizing s with
  | nil => rfl
  | cons e es ih => rw [List.cons_append, taken, taken, ih, List.append_assoc, final_cons]

theorem taken_snoc (s : σ) (es : List ε) (e : ε) :
    m.taken takes s (es ++ [e]) = m.taken takes s es ++ takes (m.final s es) e := by
  rw [taken_append, taken, taken, List.append_nil]

/-- Items that the observations of a step show to be taken in. -/
theorem taken_obs (see : ο → Option α) (s : σ) (es : List ε) :
    m.taken (fun t e => (m.step t e).2.filterMap see) s es = (m.obs s es).filterMap see := by
  induction es generalizing s with
  | nil => rfl
  | cons e es ih => rw [taken, ih, obs_cons, List.filterMap_append]

theorem taken_filterMap {β : Type} (f : α → Option β) (s : σ) (es : List ε) :
    (m.taken takes s es).filterMap f = m.taken (fun t e => (takes t e).filterMap f) s es := by
  induction es generalizing s with
  | nil => rfl
  | cons e es ih => rw [taken, taken, List.filterMap_append, ih]

/-- The same where an observation shows any number of them. -/
theorem taken_flatMap (see : ο → List α) (s : σ) (es : List ε) :
    m.taken (fun t e => (m.step t e).2.flatMap see) s es = (m.obs s es).flatMap see := by
  induction es generalizing s with
  | nil => rfl
  | cons e es ih => rw [taken, ih, obs_cons, List.flatMap_append]

end Run

variable {m : EventMachine σ ε ο} {takes : σ → ε → List α} {holds : σ → List α}
  {gives : ο → Option α} {R : List α → List α → Prop} {s : σ}

/-- A step of which what is given out and then held compares with what was held and taken in. -/
def Flows (m : EventMachine σ ε ο) (takes : σ → ε → List α) (holds : σ → List α)
    (gives : ο → Option α) (R : List α → List α → Prop) (t : σ) (e : ε) : Prop :=
  R ((m.step t e).2.filterMap gives ++ holds (m.step t e).1) (holds t ++ takes t e)

/-- A run whose steps all compare compares as a whole. -/
theorem flow (hR : Shrinks R) {es : List ε}
    (h : m.Throughout s (fun _ t e => Flows m takes holds gives R t e) es) :
    R ((m.obs s es).filterMap gives ++ holds (m.final s es)) (holds s ++ m.taken takes s es) := by
  induction es using List.reverseRecOn with
  | nil =>
    rw [obs_nil, final_nil, taken, List.filterMap_nil, List.nil_append, List.append_nil]
    exact hR.refl _
  | append_singleton es e ih =>
    obtain ⟨hes, he⟩ := throughout_snoc.mp h
    rw [obs_snoc, final_snoc, taken_snoc, List.filterMap_append, List.append_assoc,
      ← List.append_assoc]
    have hlast := hR.append_left ((m.obs s es).filterMap gives) he
    rw [← List.append_assoc] at hlast
    rw [List.append_assoc] at hlast ⊢
    refine hR.trans hlast ?_
    rw [← List.append_assoc, ← List.append_assoc]
    exact hR.append_right _ (ih hes)

end EventMachine
