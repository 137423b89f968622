import HlLighterArb.Lib.Machine
import Mathlib.Algebra.Order.Ring.Nat

/-!
# HlLighterArb.Lighter.NonceRaces

`next_nonce` of `NativeLighterTrading`, operation by operation. The cache is an atomic; each load,
compare and exchange, and fetch and add on it is a step, and so is the answer to the query a caller
makes when it finds the cache empty. Any number of calls run at once, in any interleaving, and the
answers to their queries need not agree.

* `taken_consecutive`: the nonces taken, in the order they are taken, count up by one from the
  cache, or from one of the answers when the cache was empty.
-/

namespace Arb

/-- Where a call of `next_nonce` stands. -/
inductive NoncePc where
  /-- Has found the cache empty and queries the exchange. -/
  | fetching
  /-- Has the answer, and is about to compare and exchange. -/
  | exchanging (remoteNonce : UInt64)
  /-- Is about to fetch and add. -/
  | adding
  /-- Has returned a nonce, or has thrown. -/
  | done
  deriving DecidableEq

structure NonceCache where
  nonceCache : UInt64
  /-- The calls made so far. -/
  calls : Nat → Option NoncePc := fun _ => none

inductive NonceEvent where
  | load (call : Nat)
  | fetched (call : Nat) (remoteNonce : UInt64)
  | fetchThrows (call : Nat)
  | compareExchange (call : Nat)
  | fetchAdd (call : Nat)
  deriving DecidableEq

/-- A call of `next_nonce` returns. -/
structure NonceTaken where
  call : Nat
  nonce : UInt64
  deriving DecidableEq

namespace NonceCache

def setCall (s : NonceCache) (call : Nat) (pc : NoncePc) : NonceCache :=
  { s with calls := Function.update s.calls call (some pc) }

def step (s : NonceCache) : NonceEvent → NonceCache × List NonceTaken
  | .load call =>
    match s.calls call with
    | none => (s.setCall call (if s.nonceCache ≠ 0 then .adding else .fetching), [])
    | some _ => (s, [])
  | .fetched call remoteNonce =>
    match s.calls call with
    | some .fetching => (s.setCall call (.exchanging remoteNonce), [])
    | _ => (s, [])
  | .fetchThrows call =>
    match s.calls call with
    | some .fetching => (s.setCall call .done, [])
    | _ => (s, [])
  | .compareExchange call =>
    match s.calls call with
    | some (.exchanging remoteNonce) =>
      if s.nonceCache = 0 then
        ({ s.setCall call .done with nonceCache := remoteNonce + 1 }, [⟨call, remoteNonce⟩])
      else (s.setCall call .adding, [])
    | _ => (s, [])
  | .fetchAdd call =>
    match s.calls call with
    | some .adding =>
      ({ s.setCall call .done with nonceCache := s.nonceCache + 1 }, [⟨call, s.nonceCache⟩])
    | _ => (s, [])

def machine : EventMachine NonceCache NonceEvent NonceTaken := ⟨step⟩

@[simp] theorem machine_step (s : NonceCache) (e : NonceEvent) : machine.step s e = s.step e := rfl

/-- What a step does: it moves a call on, or takes a nonce from the answer of a call that finds the
cache still empty, or takes the nonce in the cache. -/
theorem step_cases (s : NonceCache) (e : NonceEvent) :
    s.step e = (s, []) ∨
    (∃ call pc, s.step e = (s.setCall call pc, []) ∧ (pc = .adding → s.nonceCache ≠ 0) ∧
      ∀ remoteNonce, pc = .exchanging remoteNonce → e = .fetched call remoteNonce) ∨
    (∃ call remoteNonce, s.calls call = some (.exchanging remoteNonce) ∧ s.nonceCache = 0 ∧
      s.step e = ({ s.setCall call .done with nonceCache := remoteNonce + 1 },
        [⟨call, remoteNonce⟩])) ∨
    ∃ call, s.calls call = some .adding ∧
      s.step e = ({ s.setCall call .done with nonceCache := s.nonceCache + 1 },
        [⟨call, s.nonceCache⟩]) := by
  cases e with
  | load call =>
    rw [step]
    split
    · refine .inr (.inl ⟨call, _, rfl, ?_, ?_⟩)
      · intro hpc hzero
        rw [if_neg (not_not_intro hzero)] at hpc
        cases hpc
      · intro remoteNonce hpc
        split_ifs at hpc
    · exact .inl rfl
  | fetched call remoteNonce =>
    rw [step]
    split
    · refine .inr (.inl ⟨call, _, rfl, fun hpc => (by cases hpc), fun remoteNonce' hpc => ?_⟩)
      cases hpc
      rfl
    · exact .inl rfl
  | fetchThrows call =>
    rw [step]
    split
    · exact .inr (.inl ⟨call, _, rfl, fun hpc => (by cases hpc), fun _ hpc => (by cases hpc)⟩)
    · exact .inl rfl
  | compareExchange call =>
    rw [step]
    split
    · next remoteNonce hcall =>
      split
      · next hzero => exact .inr (.inr (.inl ⟨call, remoteNonce, hcall, hzero, rfl⟩))
      · next hne =>
        exact .inr (.inl ⟨call, _, rfl, fun _ => hne, fun _ hpc => (by cases hpc)⟩)
    · exact .inl rfl
  | fetchAdd call =>
    rw [step]
    split
    · next hcall => exact .inr (.inr (.inr ⟨call, hcall, rfl⟩))
    · exact .inl rfl

/-- Where the nonces start: at the cache, or at an answer when the cache was empty. -/
def FirstNonce (start : UInt64) (Asked : UInt64 → Prop) (first : UInt64) : Prop :=
  if start = 0 then Asked first else first = start

/-- The nonces taken count up, and the cache is behind the last, unless it is still empty. `Asked`
holds of the answers to the queries. -/
structure Counts (start : UInt64) (Asked : UInt64 → Prop) (l : List NonceTaken) (s : NonceCache) :
    Prop where
  asked : ∀ call remoteNonce, s.calls call = some (.exchanging remoteNonce) → Asked remoteNonce
  adding : ∀ call, s.calls call = some .adding → s.nonceCache ≠ 0
  counted : (start = 0 ∧ l = [] ∧ s.nonceCache = 0) ∨
    s.nonceCache ≠ 0 ∧ ∃ first, FirstNonce start Asked first ∧
      l.map (fun taken => taken.nonce.toNat) = List.range' first.toNat l.length ∧
      s.nonceCache.toNat = first.toNat + l.length

section Step

variable {start : UInt64} {Asked : UInt64 → Prop} {l : List NonceTaken} {s : NonceCache}
  {bound : Nat}

theorem setCall_calls {call call' : Nat} {pc pc' : NoncePc}
    (h : (s.setCall call pc).calls call' = some pc') : pc = pc' ∨ s.calls call' = some pc' := by
  unfold setCall at h
  by_cases heq : call' = call
  · simp only [heq, Function.update_self, Option.some.injEq] at h
    exact .inl h
  · simp only [Function.update_of_ne heq] at h
    exact .inr h

/-- A nonce that is not the last does not wrap around. -/
theorem toNat_succ {u : UInt64} (h : u.toNat + 1 < 2 ^ 64) : (u + 1).toNat = u.toNat + 1 := by
  rw [UInt64.toNat_add, UInt64.toNat_one]
  exact Nat.mod_eq_of_lt h

theorem ne_zero_of_toNat {u : UInt64} {n : Nat} (h : u.toNat = n + 1) : u ≠ 0 := by
  rintro rfl
  exact absurd h (Nat.succ_ne_zero n).symm

theorem counts_init (start : UInt64) : Counts start Asked [] { nonceCache := start } := by
  refine ⟨fun _ _ h => (by cases h), fun _ h => (by cases h), ?_⟩
  by_cases hs : start = 0
  · exact .inl ⟨hs, rfl, hs⟩
  · exact .inr ⟨hs, start, (if_neg hs).mpr rfl, rfl, rfl⟩

theorem FirstNonce.le {first : UInt64} (h : FirstNonce start Asked first)
    (hasked : ∀ u, Asked u → u.toNat ≤ bound) (hstart : start.toNat ≤ bound) :
    first.toNat ≤ bound := by
  unfold FirstNonce at h
  split at h
  · exact hasked _ h
  · rw [h]
    exact hstart

/-- A call takes the nonce `u`, which comes next, and puts the one behind it in the cache. -/
theorem Counts.taken (h : Counts start Asked l s) {first u : UInt64} {call : Nat}
    (hfirst : FirstNonce start Asked first)
    (hlist : l.map (fun taken => taken.nonce.toNat) = List.range' first.toNat l.length)
    (hroom : first.toNat + l.length + 1 < 2 ^ 64) (hu : u.toNat = first.toNat + l.length) :
    Counts start Asked (l ++ [⟨call, u⟩]) { s.setCall call .done with nonceCache := u + 1 } := by
  have hsucc : (u + 1).toNat = u.toNat + 1 := toNat_succ (by omega)
  refine ⟨fun call' v hc => ?_, fun _ _ => ne_zero_of_toNat hsucc,
    .inr ⟨ne_zero_of_toNat hsucc, first, hfirst, ?_, ?_⟩⟩
  · exact h.asked call' v ((setCall_calls hc).resolve_left NoncePc.noConfusion)
  · rw [List.map_append, hlist, List.length_append, List.length_singleton, List.range'_concat,
      Nat.one_mul, List.map_singleton, hu]
  · rw [hsucc, hu, List.length_append, List.length_singleton, Nat.add_assoc]

theorem counts_step (hasked : ∀ u, Asked u → u.toNat ≤ bound) (hstart : start.toNat ≤ bound)
    (h : Counts start Asked l s) {e : NonceEvent} (hroom : bound + l.length + 1 < 2 ^ 64)
    (he : ∀ call u, e = .fetched call u → Asked u) :
    Counts start Asked (l ++ (s.step e).2) (s.step e).1 := by
  rcases step_cases s e with hstep | ⟨call, pc, hstep, hadding, hexch⟩ |
    ⟨call, remoteNonce, hcall, hzero, hstep⟩ | ⟨call, hcall, hstep⟩
  · rw [hstep, List.append_nil]
    exact h
  · rw [hstep, List.append_nil]
    refine ⟨fun call' u hc => ?_, fun call' hc => ?_, h.counted⟩
    · rcases setCall_calls hc with rfl | hc
      · exact he call u (hexch u rfl)
      · exact h.asked call' u hc
    · rcases setCall_calls hc with rfl | hc
      · exact hadding rfl
      · exact h.adding call' hc
  · have hnonce := h.asked call remoteNonce hcall
    have hempty : start = 0 ∧ l = [] := by
      rcases h.counted with ⟨hs, hl, -⟩ | ⟨hne, -⟩
      · exact ⟨hs, hl⟩
      · exact absurd hzero hne
    obtain ⟨rfl, rfl⟩ := hempty
    rw [hstep]
    refine h.taken ((if_pos rfl).mpr hnonce) rfl ?_ rfl
    have := hasked _ hnonce
    omega
  · have hne := h.adding call hcall
    rcases h.counted with ⟨-, -, hzero⟩ | ⟨-, first, hfirst, hlist, hcache⟩
    · exact absurd hzero hne
    · rw [hstep]
      refine h.taken hfirst hlist ?_ hcache
      have := hfirst.le hasked hstart
      omega

end Step

/-! ## Runs -/

theorem obs_length_le (s : NonceCache) (es : List NonceEvent) :
    (machine.obs s es).length ≤ es.length := by
  induction es using List.reverseRecOn with
  | nil => exact le_refl 0
  | append_singleton es e ih =>
    have hone : ∀ t : NonceCache, (t.step e).2.length ≤ 1 := by
      intro t
      rcases step_cases t e with h | ⟨_, _, h, -⟩ | ⟨_, _, -, -, h⟩ | ⟨_, -, h⟩
      all_goals
        rw [h]
        simp
    rw [EventMachine.obs_snoc, List.length_append, List.length_append]
    exact Nat.add_le_add ih (hone _)

/-- However any number of calls of `next_nonce` interleave, the nonces they take, in the order in
which they take them, count up by one: no two calls share a nonce and none is skipped. They start
at the cache or, when it was empty, at the answer to some query. -/
theorem taken_consecutive (start : UInt64) (es : List NonceEvent) (bound : Nat)
    (hstart : start.toNat ≤ bound) (hasked : ∀ call u, .fetched call u ∈ es → u.toNat ≤ bound)
    (hroom : bound + es.length < 2 ^ 64) :
    machine.obs { nonceCache := start } es = [] ∨
      ∃ first, FirstNonce start (fun u => ∃ call, .fetched call u ∈ es) first ∧
        (machine.obs { nonceCache := start } es).map (fun taken => taken.nonce.toNat)
          = List.range' first.toNat (machine.obs { nonceCache := start } es).length := by
  have hcounts : machine.Always { nonceCache := start }
      (Counts start (fun u => ∃ call, .fetched call u ∈ es)) es := by
    have hcond : machine.Throughout { nonceCache := start }
        (fun l _ e => bound + l.length + 1 < 2 ^ 64 ∧ e ∈ es) es := by
      intro pre e hp
      have hlen := hp.length_le
      have hobs := obs_length_le { nonceCache := start } pre
      rw [List.length_append, List.length_singleton] at hlen
      exact ⟨by omega, hp.subset (by simp)⟩
    refine EventMachine.always_of_throughout (counts_init start) ?_ hcond
    rintro l s e h ⟨hlen, he⟩
    refine counts_step ?_ hstart h hlen ?_
    · rintro u ⟨call, hu⟩
      exact hasked call u hu
    · rintro call u rfl
      exact ⟨call, he⟩
  rcases hcounts.last.counted with ⟨-, hnone, -⟩ | ⟨-, first, hfirst, hlist, -⟩
  · exact .inl hnone
  · exact .inr ⟨first, hfirst, hlist⟩

/-- Two calls find the cache empty and get different answers. The one that exchanges last adds. -/
def twoAnswers : List NonceEvent :=
  [.load 0, .load 1, .fetched 0 7, .fetched 1 9, .compareExchange 1, .compareExchange 0,
    .fetchAdd 0]

theorem taken_consecutive_two_answers :
    machine.obs { nonceCache := 0 } twoAnswers = [] ∨
      ∃ first, FirstNonce 0 (fun u => ∃ call, .fetched call u ∈ twoAnswers) first ∧
        (machine.obs { nonceCache := 0 } twoAnswers).map (fun taken => taken.nonce.toNat)
          = List.range' first.toNat (machine.obs { nonceCache := 0 } twoAnswers).length := by
  refine taken_consecutive 0 twoAnswers 9 (by decide) (fun call u h => ?_) (by decide)
  simp only [twoAnswers, List.mem_cons, List.not_mem_nil, reduceCtorEq, false_or, or_false,
    NonceEvent.fetched.injEq] at h
  rcases h with ⟨-, rfl⟩ | ⟨-, rfl⟩ <;> decide

end NonceCache

end Arb
