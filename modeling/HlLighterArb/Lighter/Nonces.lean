import HlLighterArb.Lib.Machine
import Mathlib.Data.List.Pairwise

/-!
# HlLighterArb.Lighter.Nonces

The nonces of `NativeLighterTrading`. A call takes the next nonce before it signs, and nothing puts
one back; the exchange moves on by one with each transaction that it accepts. The cache is filled
once, when the client is made.

* `LighterNonces`: the cache of the adapter, and the nonce the exchange expects.
* `signed_ahead`: a nonce is ahead of the exchange by the number of failed calls before it.
* `nonces_iff`: so a run signs the expected nonces exactly when no call follows a failed one.
-/

namespace Arb

/-- How a call goes on once it is not a dry run. -/
inductive TxOutcome where
  /-- A query before the nonce fails and the call throws; the client may have been made before. -/
  | unreachable (clientMade : Bool)
  | signError (err : String)
  | rejected (response : String)
  | accepted (response : String)
  /-- `send_signed_tx` throws, whatever the exchange has done. -/
  | lost (reached : Bool)
  deriving DecidableEq

/-- The exchange accepts the transaction of the call. -/
def TxOutcome.isAccepted : TxOutcome → Bool
  | .accepted _ => true
  | .lost reached => reached
  | _ => false

inductive TxKind where
  | placeLimit
  | cancel (orderIndex : Int)
  | placeIoc
  deriving DecidableEq

structure TxCall where
  kind : TxKind
  dryRun : Bool := false
  outcome : TxOutcome
  deriving DecidableEq

/-- The call returns before it touches the client: a dry run, or a cancel without an order index. -/
def TxCall.returnsEarly (c : TxCall) : Bool :=
  c.dryRun || match c.kind with
    | .cancel orderIndex => orderIndex ≤ 0
    | _ => false

/-- The call comes as far as `next_nonce`. -/
def TxCall.takesNonce (c : TxCall) : Bool :=
  !c.returnsEarly && match c.outcome with
    | .unreachable _ => false
    | _ => true

/-- The call takes a nonce that the exchange does not get to see, or refuses. -/
def TxCall.fails (c : TxCall) : Bool :=
  c.takesNonce && !c.outcome.isAccepted

structure LighterNonces where
  clientReady : Bool := false
  nonceCache : Nat := 0
  /-- What the exchange expects, and what `fetch_remote_next_nonce` reads. -/
  expectedNonce : Nat
  deriving DecidableEq

/-- A call signed `nonce` while the exchange expected `expected`. -/
inductive NonceObs where
  | signed (nonce expected : Nat) (accepted : Bool)
  deriving DecidableEq

def NonceObs.accepted : NonceObs → Bool
  | .signed _ _ accepted => accepted

namespace LighterNonces

def refreshNonceCache (s : LighterNonces) : LighterNonces :=
  { s with nonceCache := s.expectedNonce }

def ensureClient (s : LighterNonces) : LighterNonces :=
  if s.clientReady then s else { s.refreshNonceCache with clientReady := true }

/-- Calls come one at a time, so the compare and swap on an empty cache succeeds. -/
def nextNonce (s : LighterNonces) : Nat × LighterNonces :=
  if s.nonceCache ≠ 0 then (s.nonceCache, { s with nonceCache := s.nonceCache + 1 })
  else (s.expectedNonce, { s with nonceCache := s.expectedNonce + 1 })

def settle (s : LighterNonces) (accepted : Bool) : LighterNonces :=
  if accepted then { s with expectedNonce := s.expectedNonce + 1 } else s

def step (s : LighterNonces) (c : TxCall) : LighterNonces × List NonceObs :=
  if c.returnsEarly then (s, [])
  else match c.outcome with
    | .unreachable clientMade => (if clientMade then s.ensureClient else s, [])
    | outcome =>
      let (nonce, s) := s.ensureClient.nextNonce
      (s.settle outcome.isAccepted, [.signed nonce s.expectedNonce outcome.isAccepted])

def machine : EventMachine LighterNonces TxCall NonceObs where
  step := step

/-- Before the first call the client is not made. -/
def start (expectedNonce : Nat) : LighterNonces where
  expectedNonce

/-- The nonce that the next call to take one signs. -/
def upcoming (s : LighterNonces) : Nat :=
  if s.clientReady ∧ s.nonceCache ≠ 0 then s.nonceCache else s.expectedNonce

/-- The number of signed transactions that the exchange did not accept. -/
def refused (l : List NonceObs) : Nat :=
  l.countP fun o => !o.accepted

/-- The calls of a run are ahead of the exchange by its refused transactions. -/
def Ahead (l : List NonceObs) (s : LighterNonces) : Prop :=
  s.upcoming = s.expectedNonce + refused l

theorem refused_append (l l' : List NonceObs) : refused (l ++ l') = refused l + refused l' :=
  List.countP_append

/-- Making the client changes neither what comes next nor what is expected. -/
theorem ensureClient_upcoming (s : LighterNonces) :
    s.ensureClient.upcoming = s.upcoming ∧ s.ensureClient.expectedNonce = s.expectedNonce := by
  unfold ensureClient
  split_ifs with hready
  · exact ⟨rfl, rfl⟩
  · refine ⟨?_, rfl⟩
    simp only [upcoming, refreshNonceCache, hready, true_and]
    simp only [Bool.false_eq_true, false_and, if_false]
    exact ite_eq_right_iff.mpr fun _ => rfl

theorem ensureClient_ready (s : LighterNonces) : s.ensureClient.clientReady = true := by
  unfold ensureClient
  split_ifs with hready
  · exact hready
  · rfl

/-- With the client made, `next_nonce` takes the upcoming nonce and leaves the one behind it. -/
theorem nextNonce_eq {s : LighterNonces} (h : s.clientReady = true) :
    s.nextNonce = (s.upcoming, { s with nonceCache := s.upcoming + 1 }) := by
  unfold nextNonce upcoming
  simp only [h, true_and]
  split_ifs <;> rfl

/-- A call that takes a nonce signs the upcoming one. -/
theorem step_signs {c : TxCall} (h : c.takesNonce = true) (s : LighterNonces) :
    step s c = (({ s.ensureClient with nonceCache := s.upcoming + 1 }).settle c.outcome.isAccepted,
      [.signed s.upcoming s.expectedNonce c.outcome.isAccepted]) := by
  obtain ⟨hupcoming, hexpected⟩ := ensureClient_upcoming s
  obtain ⟨hearly, htakes⟩ := Bool.and_eq_true_iff.mp h
  rw [step, if_neg (by simpa using hearly)]
  cases houtcome : c.outcome with
  | unreachable => simp [houtcome] at htakes
  | _ =>
    simp only [nextNonce_eq s.ensureClient_ready, hupcoming, hexpected]

/-- Any other call leaves what comes next and what is expected. -/
theorem step_silent {c : TxCall} (h : c.takesNonce = false) (s : LighterNonces) :
    (step s c).2 = [] ∧ (step s c).1.upcoming = s.upcoming ∧
      (step s c).1.expectedNonce = s.expectedNonce := by
  unfold step
  split_ifs with hearly
  · exact ⟨rfl, rfl, rfl⟩
  · cases houtcome : c.outcome with
    | unreachable clientMade =>
      cases clientMade
      · exact ⟨rfl, rfl, rfl⟩
      · exact ⟨rfl, ensureClient_upcoming s⟩
    | _ => simp [TxCall.takesNonce, hearly, houtcome] at h

theorem settle_upcoming (s : LighterNonces) (accepted : Bool) (hready : s.clientReady = true)
    (hcache : s.nonceCache ≠ 0) : (s.settle accepted).upcoming = s.nonceCache := by
  cases accepted <;> exact if_pos ⟨hready, hcache⟩

theorem settle_expected (s : LighterNonces) (accepted : Bool) :
    (s.settle accepted).expectedNonce = s.expectedNonce + if accepted then 1 else 0 := by
  cases accepted <;> rfl

theorem ahead_step {l : List NonceObs} {s : LighterNonces} (h : Ahead l s) (c : TxCall) :
    Ahead (l ++ (step s c).2) (step s c).1 := by
  unfold Ahead at h ⊢
  cases htakes : c.takesNonce with
  | false =>
    obtain ⟨hobs, hupcoming, hexpected⟩ := step_silent htakes s
    rw [hobs, List.append_nil, hupcoming, hexpected, h]
  | true =>
    have hnext := settle_upcoming { s.ensureClient with nonceCache := s.upcoming + 1 }
      c.outcome.isAccepted s.ensureClient_ready (Nat.succ_ne_zero _)
    rw [step_signs htakes, refused_append, hnext, settle_expected, (ensureClient_upcoming s).2]
    simp only [h]
    -- an accepted transaction moves both on, a refused one the cache alone
    cases c.outcome.isAccepted <;> simp [refused, NonceObs.accepted] <;> omega

theorem ahead_always (expected : Nat) (calls : List TxCall) :
    machine.Always (start expected) Ahead calls :=
  machine.invariant rfl (fun _ _ c h => ahead_step h c) calls

/-- Every call signs the nonce that the exchange expects. -/
def InStep (l : List NonceObs) : Prop :=
  ∀ nonce expected accepted, .signed nonce expected accepted ∈ l → nonce = expected

theorem inStep_append {l l' : List NonceObs} : InStep (l ++ l') ↔ InStep l ∧ InStep l' := by
  simp only [InStep, List.mem_append]
  grind

theorem inStep_singleton {nonce expected : Nat} {accepted : Bool} :
    InStep [.signed nonce expected accepted] ↔ nonce = expected := by
  constructor
  · intro h
    exact h nonce expected accepted (List.mem_singleton.mpr rfl)
  · rintro rfl n e a hmem
    cases List.mem_singleton.mp hmem
    rfl

/-- The refused transactions of a run are those of its failing calls. -/
theorem refused_obs (expected : Nat) (calls : List TxCall) :
    refused (machine.obs (start expected) calls) = calls.countP TxCall.fails := by
  induction calls using List.reverseRecOn with
  | nil => rfl
  | append_singleton calls c ih =>
    rw [EventMachine.obs_snoc, refused_append, ih, List.countP_append, List.countP_singleton]
    congr 1
    change refused (step _ c).2 = _
    cases htakes : c.takesNonce with
    | false => simp [(step_silent htakes _).1, refused, TxCall.fails, htakes]
    | true => simp [step_signs htakes, refused, NonceObs.accepted, TxCall.fails, htakes]

/-- A nonce is ahead of the exchange by the number of failed calls before it. -/
theorem signed_ahead (expected : Nat) (calls : List TxCall) {c : TxCall}
    (htakes : c.takesNonce = true) :
    ∃ awaited, (step (machine.final (start expected) calls) c).2 =
      [.signed (awaited + calls.countP TxCall.fails) awaited c.outcome.isAccepted] := by
  have hahead := (ahead_always expected calls).last
  rw [Ahead, refused_obs] at hahead
  exact ⟨_, by rw [step_signs htakes, hahead]⟩

/-- A run signs the nonces that the exchange expects exactly when, of any two calls that take one,
the exchange accepts the transaction of the earlier. -/
theorem nonces_iff (expected : Nat) (calls : List TxCall) :
    InStep (machine.obs (start expected) calls) ↔
      calls.Pairwise fun c c' => c.takesNonce = true → c'.takesNonce = true →
        c.outcome.isAccepted = true := by
  induction calls using List.reverseRecOn with
  | nil => exact iff_of_true (fun _ _ _ hmem => by cases hmem) .nil
  | append_singleton calls c ih =>
    rw [EventMachine.obs_snoc, inStep_append, ih, List.pairwise_append]
    have hlast : InStep (step (machine.final (start expected) calls) c).2 ↔
        ∀ a ∈ calls, ∀ b ∈ [c], a.takesNonce = true → b.takesNonce = true →
          a.outcome.isAccepted = true := by
      cases htakes : c.takesNonce with
      | false =>
        rw [(step_silent htakes _).1]
        refine iff_of_true (fun _ _ _ hmem => by cases hmem) fun a _ b hb _ hbtakes => ?_
        rw [List.mem_singleton.mp hb, htakes] at hbtakes
        cases hbtakes
      | true =>
        obtain ⟨awaited, hstep⟩ := signed_ahead expected calls htakes
        have hfails : ∀ a : TxCall, ¬ a.fails = true ↔
            (a.takesNonce = true → a.outcome.isAccepted = true) := by
          intro a
          cases htakes : a.takesNonce <;> simp [TxCall.fails, htakes]
        rw [hstep, inStep_singleton, Nat.add_eq_left, List.countP_eq_zero]
        simp [htakes, hfails]
    change _ ∧ InStep (step _ c).2 ↔ _
    rw [hlast]
    simp

/-- A signer error uses up nonce 5; the next call signs 6. -/
theorem signer_error_shifts :
    ¬ ∀ (expected : Nat) (calls : List TxCall), InStep (machine.obs (start expected) calls) := by
  intro hall
  have hsigned : NonceObs.signed 6 5 true ∈ machine.obs (start 5)
      [{ kind := .placeIoc, outcome := .signError "invalid price" },
        { kind := .placeIoc, outcome := .accepted "" }] := by decide
  exact absurd (hall 5 _ 6 5 true hsigned) (by decide)

end LighterNonces

end Arb
