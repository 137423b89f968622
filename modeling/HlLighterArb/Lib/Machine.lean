import Mathlib.Data.List.Forall2
import Mathlib.Data.List.Infix
import Mathlib.Tactic.Common

/-!
# Lib.Machine

Deterministic machines driven by events. A step takes a state and an event to the next state and
the list of observations it makes; everything nondeterministic about a run (what the outside world
answers, how threads interleave) is in the events.

* `exec`, `final`, `obs`: a run from a state over a list of events.
* `Always P`: `P` holds of the observations and the state after every prefix of a run.
* `Throughout C`: `C` holds of the observations and the state before every event of a run, and of
  the event.

The rules: `invariant` (an inductive property holds always), `invariant_of_part` (so does one of a
part of a system), `always_of_throughout` (a property
that is inductive under a step condition holds always in the runs whose steps all meet it) and
`always_iff_throughout` (when the condition is also forced by the property, the two are the same
set of runs). For a given run both are decided by running it. `Bisimulation.run`: two machines whose
steps keep a relation keep it over runs.
-/

/-- A deterministic machine over states `σ`, events `ε` and observations `ο`. -/
structure EventMachine (σ ε ο : Type) where
  step : σ → ε → σ × List ο

namespace EventMachine

variable {σ ε ο : Type} (m : EventMachine σ ε ο)

def exec (s : σ) : List ε → σ × List ο
  | [] => (s, [])
  | e :: es => ((exec (m.step s e).1 es).1, (m.step s e).2 ++ (exec (m.step s e).1 es).2)

/-- The state a run ends in. -/
def final (s : σ) (es : List ε) : σ := (m.exec s es).1

/-- What a run observes, in order. -/
def obs (s : σ) (es : List ε) : List ο := (m.exec s es).2

@[simp] theorem final_nil (s : σ) : m.final s [] = s := rfl
@[simp] theorem obs_nil (s : σ) : m.obs s [] = [] := rfl

@[simp] theorem final_cons (s : σ) (e : ε) (es : List ε) :
    m.final s (e :: es) = m.final (m.step s e).1 es := rfl

@[simp] theorem obs_cons (s : σ) (e : ε) (es : List ε) :
    m.obs s (e :: es) = (m.step s e).2 ++ m.obs (m.step s e).1 es := rfl

theorem final_append (s : σ) (es fs : List ε) :
    m.final s (es ++ fs) = m.final (m.final s es) fs := by
  induction es generalizing s with
  | nil => rfl
  | cons e es ih => simp only [List.cons_append, final_cons, ih]

theorem obs_append (s : σ) (es fs : List ε) :
    m.obs s (es ++ fs) = m.obs s es ++ m.obs (m.final s es) fs := by
  induction es generalizing s with
  | nil => rfl
  | cons e es ih => simp only [List.cons_append, obs_cons, final_cons, ih, List.append_assoc]

theorem final_snoc (s : σ) (es : List ε) (e : ε) :
    m.final s (es ++ [e]) = (m.step (m.final s es) e).1 := by
  rw [final_append]; rfl

theorem obs_snoc (s : σ) (es : List ε) (e : ε) :
    m.obs s (es ++ [e]) = m.obs s es ++ (m.step (m.final s es) e).2 := by
  rw [obs_append]; simp

theorem obs_prefix {m : EventMachine σ ε ο} {s : σ} {es fs : List ε} (h : es <+: fs) :
    m.obs s es <+: m.obs s fs := by
  obtain ⟨gs, rfl⟩ := h
  exact ⟨m.obs (m.final s es) gs, (m.obs_append s es gs).symm⟩

/-- Machines that take the same steps, and observe the same of each, observe the same of a run. -/
theorem filterMap_obs {ο' κ : Type} {m : EventMachine σ ε ο} {m' : EventMachine σ ε ο'}
    {f : ο → Option κ} {g : ο' → Option κ}
    (hstate : ∀ s e, (m.step s e).1 = (m'.step s e).1)
    (hobs : ∀ s e, (m.step s e).2.filterMap f = (m'.step s e).2.filterMap g) (s : σ)
    (es : List ε) : (m.obs s es).filterMap f = (m'.obs s es).filterMap g := by
  induction es generalizing s with
  | nil => rfl
  | cons e es ih =>
    rw [obs_cons, obs_cons, List.filterMap_append, List.filterMap_append, ih, hobs, hstate]

/-- Events that make the same step make the same run. -/
theorem exec_map {m : EventMachine σ ε ο} {f : ε → ε} (h : ∀ s e, m.step s (f e) = m.step s e)
    (s : σ) (es : List ε) : m.exec s (es.map f) = m.exec s es := by
  induction es generalizing s with
  | nil => rfl
  | cons e es ih => rw [List.map_cons, exec, exec, h, ih]

/-- `P` holds of the observations and the state after every prefix of the run. -/
def Always (s : σ) (P : List ο → σ → Prop) (es : List ε) : Prop :=
  ∀ pre, pre <+: es → P (m.obs s pre) (m.final s pre)

/-- `C` holds of the observations and the state before every event of the run, and the event. -/
def Throughout (s : σ) (C : List ο → σ → ε → Prop) (es : List ε) : Prop :=
  ∀ pre e, pre ++ [e] <+: es → C (m.obs s pre) (m.final s pre) e

variable {m}
variable {s : σ} {P Q : List ο → σ → Prop} {C D : List ο → σ → ε → Prop}

theorem Always.last {es : List ε} (h : m.Always s P es) : P (m.obs s es) (m.final s es) :=
  h es (List.prefix_refl es)

/-- What holds always holds before every event. -/
theorem Always.before {es pre : List ε} {e : ε} (h : m.Always s P es) (hp : pre ++ [e] <+: es) :
    P (m.obs s pre) (m.final s pre) :=
  h pre ((List.prefix_append _ _).trans hp)

theorem Always.mono {es : List ε} (h : m.Always s P es) (hPQ : ∀ l t, P l t → Q l t) :
    m.Always s Q es :=
  fun pre hp => hPQ _ _ (h pre hp)

theorem Always.take {es fs : List ε} (h : m.Always s P es) (hfs : fs <+: es) :
    m.Always s P fs :=
  fun pre hp => h pre (hp.trans hfs)

theorem Throughout.take {es fs : List ε} (h : m.Throughout s C es) (hfs : fs <+: es) :
    m.Throughout s C fs :=
  fun pre e hp => h pre e (hp.trans hfs)

theorem Throughout.mono {es : List ε} (h : m.Throughout s C es)
    (hCD : ∀ l t e, C l t e → D l t e) : m.Throughout s D es :=
  fun pre e hp => hCD _ _ _ (h pre e hp)

/-- Two step conditions that agree wherever an invariant holds are met by the same runs. -/
theorem Always.throughout_congr {es : List ε} (h : m.Always s P es)
    (hCD : ∀ l t e, P l t → (C l t e ↔ D l t e)) : m.Throughout s C es ↔ m.Throughout s D es := by
  constructor
  · intro hC pre e hp
    exact (hCD _ _ _ (h.before hp)).mp (hC pre e hp)
  · intro hD pre e hp
    exact (hCD _ _ _ (h.before hp)).mpr (hD pre e hp)

theorem prefix_snoc_cases {α : Type} {pre es : List α} {e : α} (h : pre <+: es ++ [e]) :
    pre <+: es ∨ pre = es ++ [e] := by
  rcases List.prefix_concat_iff.mp (by simpa using h) with h | h
  · exact .inr (by simpa using h)
  · exact .inl h

theorem always_snoc {es : List ε} {e : ε} :
    m.Always s P (es ++ [e]) ↔
      m.Always s P es ∧ P (m.obs s (es ++ [e])) (m.final s (es ++ [e])) := by
  constructor
  · intro h
    exact ⟨h.take (List.prefix_append _ _), h.last⟩
  · rintro ⟨h, hl⟩ pre hp
    rcases prefix_snoc_cases hp with hp | rfl
    · exact h pre hp
    · exact hl

theorem throughout_snoc {es : List ε} {e : ε} :
    m.Throughout s C (es ++ [e]) ↔
      m.Throughout s C es ∧ C (m.obs s es) (m.final s es) e := by
  constructor
  · intro h
    exact ⟨h.take (List.prefix_append _ _), h es e (List.prefix_refl _)⟩
  · rintro ⟨h, hl⟩ pre x hp
    rcases prefix_snoc_cases hp with hp | hp
    · exact h pre x hp
    · obtain ⟨rfl, hx⟩ := List.append_inj' hp rfl
      cases hx
      exact hl

/-- What holds of a list exactly when it holds of its parts holds of the observations of a run
exactly when it holds of those of every step. -/
theorem obs_iff_throughout {P : List ο → Prop} (hnil : P [])
    (happend : ∀ l l', P (l ++ l') ↔ P l ∧ P l') (es : List ε) :
    P (m.obs s es) ↔ m.Throughout s (fun _ t e => P (m.step t e).2) es := by
  induction es using List.reverseRecOn with
  | nil => exact iff_of_true hnil fun pre e hp => absurd (List.prefix_nil.mp hp) (by simp)
  | append_singleton es e ih => rw [obs_snoc, happend, throughout_snoc, ih]

/-! ## Checking a given run -/

theorem always_nil : m.Always s P [] ↔ P [] s := by
  refine ⟨fun h => h.last, fun h pre hp => ?_⟩
  rw [List.prefix_nil.mp hp]
  exact h

theorem always_cons {e : ε} {es : List ε} :
    m.Always s P (e :: es) ↔
      P [] s ∧ m.Always (m.step s e).1 (fun l => P ((m.step s e).2 ++ l)) es := by
  constructor
  · intro h
    exact ⟨h [] List.nil_prefix, fun pre hp => h (e :: pre) (List.cons_prefix_cons.mpr ⟨rfl, hp⟩)⟩
  · rintro ⟨h0, h⟩ pre hp
    cases pre with
    | nil => exact h0
    | cons x pre =>
      obtain ⟨rfl, hpre⟩ := List.cons_prefix_cons.mp hp
      exact h pre hpre

theorem throughout_nil : m.Throughout s C [] := by
  intro pre e hp
  exact absurd (List.prefix_nil.mp hp) (by simp)

theorem throughout_cons {e : ε} {es : List ε} :
    m.Throughout s C (e :: es) ↔
      C [] s e ∧ m.Throughout (m.step s e).1 (fun l => C ((m.step s e).2 ++ l)) es := by
  constructor
  · intro h
    exact ⟨h [] e (List.cons_prefix_cons.mpr ⟨rfl, List.nil_prefix⟩),
      fun pre x hp => h (e :: pre) x (List.cons_prefix_cons.mpr ⟨rfl, hp⟩)⟩
  · rintro ⟨h0, h⟩ pre x hp
    cases pre with
    | nil =>
      obtain ⟨rfl, -⟩ := List.cons_prefix_cons.mp hp
      exact h0
    | cons y pre =>
      obtain ⟨rfl, hpre⟩ := List.cons_prefix_cons.mp hp
      exact h pre x hpre

/-- Whether a property holds always in a given run is decided by running it. -/
def decideAlways (m : EventMachine σ ε ο) : (es : List ε) → (s : σ) → (P : List ο → σ → Prop) →
    (∀ l t, Decidable (P l t)) → Decidable (m.Always s P es)
  | [], s, _, dec => @decidable_of_iff _ _ always_nil.symm (dec [] s)
  | e :: es, s, _, dec =>
    have := dec [] s
    have := decideAlways m es (m.step s e).1 _ fun l t => dec ((m.step s e).2 ++ l) t
    decidable_of_iff _ always_cons.symm

instance [dec : ∀ l t, Decidable (P l t)] (es : List ε) : Decidable (m.Always s P es) :=
  decideAlways m es s P dec

def decideThroughout (m : EventMachine σ ε ο) : (es : List ε) → (s : σ) →
    (C : List ο → σ → ε → Prop) → (∀ l t e, Decidable (C l t e)) → Decidable (m.Throughout s C es)
  | [], _, _, _ => .isTrue throughout_nil
  | e :: es, s, _, dec =>
    have := dec [] s e
    have := decideThroughout m es (m.step s e).1 _ fun l t => dec ((m.step s e).2 ++ l) t
    decidable_of_iff _ throughout_cons.symm

instance [dec : ∀ l t e, Decidable (C l t e)] (es : List ε) : Decidable (m.Throughout s C es) :=
  decideThroughout m es s C dec

/-! ## Rules -/

/-- A property that is inductive under the step condition `C` holds always in the runs whose
steps all meet `C`. -/
theorem always_of_throughout (h0 : P [] s)
    (hstep : ∀ l t e, P l t → C l t e → P (l ++ (m.step t e).2) (m.step t e).1)
    {es : List ε} (hC : m.Throughout s C es) : m.Always s P es := by
  induction es using List.reverseRecOn with
  | nil =>
    intro pre hp
    rw [List.prefix_nil.mp hp]
    exact h0
  | append_singleton es e ih =>
    obtain ⟨hes, he⟩ := throughout_snoc.mp hC
    have hprev := ih hes
    refine always_snoc.mpr ⟨hprev, ?_⟩
    rw [obs_snoc, final_snoc]
    exact hstep _ _ _ hprev.last he

/-- An inductive property holds always. -/
theorem invariant (h0 : P [] s)
    (hstep : ∀ l t e, P l t → P (l ++ (m.step t e).2) (m.step t e).1) (es : List ε) :
    m.Always s P es :=
  always_of_throughout (C := fun _ _ _ => True) h0 (fun l t e h _ => hstep l t e h)
    (fun _ _ _ => trivial)

/-- In a system each of whose steps is a step of one part or leaves it alone, an inductive property
of the part holds always. `see` is what observations show of the part. -/
theorem invariant_of_part {σ' ε' ο' : Type} (m' : EventMachine σ' ε' ο') (part : σ → σ')
    (see : List ο → List ο') {P : List ο' → σ' → Prop}
    (happend : ∀ l l', see (l ++ l') = see l ++ see l')
    (hstep : ∀ t e, part (m.step t e).1 = part t ∧ see (m.step t e).2 = [] ∨
      ∃ e', part (m.step t e).1 = (m'.step (part t) e').1 ∧
        see (m.step t e).2 = (m'.step (part t) e').2)
    (h0 : P (see []) (part s))
    (hkeep : ∀ l t e, P l t → P (l ++ (m'.step t e).2) (m'.step t e).1) (es : List ε) :
    m.Always s (fun l t => P (see l) (part t)) es := by
  refine invariant (P := fun l t => P (see l) (part t)) h0 ?_ es
  intro l t e h
  simp only [happend]
  rcases hstep t e with ⟨hpart, hsee⟩ | ⟨e', hpart, hsee⟩
  · rw [hpart, hsee, List.append_nil]
    exact h
  · rw [hpart, hsee]
    exact hkeep _ _ e' h

/-- When, from a state with the property, the next state has it exactly when the step meets the
condition, the property holds always exactly in the runs whose steps all meet the condition. -/
theorem always_iff_throughout (h0 : P [] s)
    (hstep : ∀ l t e, P l t → (P (l ++ (m.step t e).2) (m.step t e).1 ↔ C l t e))
    (es : List ε) : m.Always s P es ↔ m.Throughout s C es := by
  refine ⟨fun h => ?_, always_of_throughout h0 fun l t e hP hC => (hstep l t e hP).mpr hC⟩
  intro pre e hp
  have hnext := h (pre ++ [e]) hp
  rw [obs_snoc, final_snoc] at hnext
  exact (hstep _ _ _ (h.before hp)).mp hnext

/-! ## Two machines in step -/

section InStep

variable {σ' ο' : Type} {m' : EventMachine σ' ε ο'} {s' : σ'}

/-- From states in `R` every event takes both machines to states in `R`, and they observe as many
things, each in `Q` with its counterpart. -/
def Bisimulation (m : EventMachine σ ε ο) (m' : EventMachine σ' ε ο') (R : σ → σ' → Prop)
    (Q : ο → ο' → Prop) : Prop :=
  ∀ s s' e, R s s' →
    R (m.step s e).1 (m'.step s' e).1 ∧ List.Forall₂ Q (m.step s e).2 (m'.step s' e).2

variable {R : σ → σ' → Prop} {Q : ο → ο' → Prop}

/-- Machines in a bisimulation stay in step over every run. -/
theorem Bisimulation.run (h : Bisimulation m m' R Q) (h0 : R s s') (es : List ε) :
    R (m.final s es) (m'.final s' es) ∧ List.Forall₂ Q (m.obs s es) (m'.obs s' es) := by
  induction es generalizing s s' with
  | nil => exact ⟨h0, .nil⟩
  | cons e es ih =>
    obtain ⟨hstep, hobs⟩ := h s s' e h0
    obtain ⟨hfinal, hmore⟩ := ih hstep
    exact ⟨hfinal, List.rel_append hobs hmore⟩

end InStep

end EventMachine
