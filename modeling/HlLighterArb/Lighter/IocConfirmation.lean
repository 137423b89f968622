import HlLighterArb.Exchange
import HlLighterArb.Lib.Machine
import HlLighterArb.Lighter.PositionFeed
import Mathlib.Algebra.BigOperators.Group.List.Basic

/-!
# HlLighterArb.Lighter.IocConfirmation

`NativeLighterTrading::place_ioc_order` between its position baseline and its acknowledgement,
with the account it trades on and the position feed that reports to it. Calls come one at a time,
from the main thread; an order that was sent executes at any later moment, at most once and in any
amount; the feed's io thread moves at any moment. The query of the account is the true position at
the moment it is made. The wait is as long as the run makes it; its end and the query behind it are
one step, since what the feed delivers between the two reaches no one before the call returns.

* `Executed`: an order whose call returned a confirmed fill executed exactly the confirmed size.
* `Undisturbed`: what a confirming call compares is the account as its own order left it, the first
  that changed it since the baseline.
* `executed_always`: a run whose steps are all undisturbed keeps `Executed`.
* `silent_feed`: a feed that is sent the channel of an account never wakes a wait.
-/

namespace Arb

/-- Where a call of `place_ioc_order` is: at rest, behind its baseline query, or waiting for the
fill of an accepted transaction. -/
inductive IocPhase where
  | idle
  | sized (request : LighterIocRequest) (before : LighterPositionSnapshot)
  | waiting (request : LighterIocRequest) (before : LighterPositionSnapshot)
      (message txHash : String)

/-- What the signer and `send_signed_tx` answer: an error text or the hash of the transaction, and
the response body, unless the transport throws. -/
structure TxAnswer where
  signError : String := ""
  txHash : String := ""
  response : Option String := some ""

structure LighterTrading where
  account : LighterPositionSnapshot := {}
  feed : LighterPositionFeed := {}
  /-- Whether a position waiter was set. -/
  waiter : Bool := true
  phase : IocPhase := .idle
  calls : Nat := 0
  /-- Calls whose orders were sent and have not executed. -/
  unexecuted : List Nat := []
  /-- What orders of earlier calls executed since the baseline of this one. -/
  carried : ℚ := 0
  /-- The first change of the account since the baseline: the call whose order made it, and the
  position it left. -/
  firstChange : Option (Nat × ℚ) := none

inductive IocEvent where
  | begin (request : LighterIocRequest)
  | send (answer : TxAnswer)
  | wake
  | timeout
  | execute (call : Nat) (after : LighterPositionSnapshot)
  | feed (e : FeedEvent)

inductive IocObs where
  | sent (call : Nat)
  | returned (call : Nat) (ack : LighterIocAck)
  | threw (call : Nat)
  | executed (call : Nat) (moved : ℚ)
  | account (size : ℚ)
  | delivered (size : ℚ)
  deriving DecidableEq

def txResponseOk (body : List Char) : Bool :=
  Text.contains "\"code\":200".toList body || Text.contains "\"tx_hash\"".toList body

/-- The hash of an accepted transaction; `first_match_as_string` may throw. -/
def confirmedTxHash (body : List Char) (txHash : String) : Except String String :=
  if Text.contains "tx_hash".toList body then
    match Text.readAfter "\"tx_hash\":\"".toList quoted body with
    | some hash => .ok (String.ofList hash)
    | none => .error "failed to parse string field"
  else .ok txHash

/-- The predicted execution time, which sets the length of the wait; `std::stoull` may throw. -/
def predictedExecutionMs (body : List Char) : Except String (Option Nat) :=
  match Text.readAfter "\"predicted_execution_time_ms\":".toList unsignedDigits body with
  | none => .ok none
  | some value =>
    match Text.stoull value with
    | some n => .ok (some n)
    | none => .error "stoull"

/-- The fill price of a confirmed change of position. -/
def iocFillPrice (request : LighterIocRequest) (before after : LighterPositionSnapshot) : ℚ :=
  let delta := |after.size - before.size|
  if |before.size| + 0.001 < |after.size| then
    let valueBefore := |before.size| * before.avgEntryPrice
    let valueAfter := |after.size| * after.avgEntryPrice
    if 0.0001 < delta then |valueAfter - valueBefore| / delta else 0
  else if 0 < request.signalPrice then request.signalPrice
  else before.avgEntryPrice

/-- The acknowledgement of an accepted transaction, from the snapshot that shows its fill. -/
def confirmAck (request : LighterIocRequest) (before : LighterPositionSnapshot)
    (message txHash : String) (attempts : Nat) : Option LighterPositionSnapshot → LighterIocAck
  | some after =>
    { ok := true
      fillConfirmed := 0.001 < |after.size - before.size|
      message
      txHash
      confirmedSize := |after.size - before.size|
      fillPrice := iocFillPrice request before after
      confirmAttempts := attempts }
  | none => { ok := true, message, txHash, confirmAttempts := attempts }

def dryRunAck (request : LighterIocRequest) : LighterIocAck where
  ok := true
  fillConfirmed := true
  message := "dry-run"
  txHash := "dry_tx"
  confirmedSize := request.size
  fillPrice := request.price

namespace LighterTrading

/-- `place_ioc_order` up to its baseline. -/
def begin (s : LighterTrading) (request : LighterIocRequest) : LighterTrading × List IocObs :=
  match s.phase with
  | .idle =>
    if request.dryRun then
      ({ s with calls := s.calls + 1 }, [.returned (s.calls + 1) (dryRunAck request)])
    else
      ({ s with phase := .sized request s.account, calls := s.calls + 1, carried := 0
                firstChange := none }, [])
  | _ => (s, [])

def returnAck (s : LighterTrading) (ack : LighterIocAck) : LighterTrading × List IocObs :=
  ({ s with phase := .idle }, [.returned s.calls ack])

/-- `place_ioc_order` from its baseline to its wait: sign, send, read the response. -/
def send (s : LighterTrading) (answer : TxAnswer) : LighterTrading × List IocObs :=
  match s.phase with
  | .sized request before =>
    if answer.signError ≠ "" then s.returnAck { message := answer.signError }
    else
      let sent := { s with unexecuted := s.unexecuted ++ [s.calls], phase := .idle }
      match answer.response with
      | none => (sent, [.sent s.calls, .threw s.calls])
      | some body =>
        if ¬ txResponseOk body.toList then
          (sent, [.sent s.calls, .returned s.calls { message := body, txHash := answer.txHash }])
        else
          match confirmedTxHash body.toList answer.txHash, predictedExecutionMs body.toList with
          | .ok txHash, .ok _ =>
            ({ sent with phase := .waiting request before body txHash }, [.sent s.calls])
          | _, _ => (sent, [.sent s.calls, .threw s.calls])
  | _ => (s, [])

/-- The snapshot the waiter returns, when its predicate holds. -/
def woken (s : LighterTrading) (before : LighterPositionSnapshot) :
    Option LighterPositionSnapshot :=
  if s.waiter then s.feed.positionChange before.size else none

/-- The fallback query, when it shows a change of position. -/
def queried (s : LighterTrading) (before : LighterPositionSnapshot) :
    Option LighterPositionSnapshot :=
  if 0.001 < |s.account.size - before.size| then some s.account else none

/-- The waiter returns a snapshot. -/
def wake (s : LighterTrading) : LighterTrading × List IocObs :=
  match s.phase with
  | .waiting request before message txHash =>
    match s.woken before with
    | some after => s.returnAck (confirmAck request before message txHash 1 (some after))
    | none => (s, [])
  | _ => (s, [])

/-- The wait runs out, or there is no waiter: the account is queried once more. -/
def timeout (s : LighterTrading) : LighterTrading × List IocObs :=
  match s.phase with
  | .waiting request before message txHash =>
    match s.woken before with
    | some _ => (s, [])
    | none =>
      s.returnAck
        (confirmAck request before message txHash (if s.waiter then 2 else 1) (s.queried before))
  | _ => (s, [])

/-- The account behind the execution of an order. -/
def settle (s : LighterTrading) (call : Nat) (after : LighterPositionSnapshot) : LighterTrading :=
  { s with
    account := after
    unexecuted := s.unexecuted.erase call
    carried := if call = s.calls then s.carried else s.carried + (after.size - s.account.size)
    firstChange := s.firstChange.or
      (if after.size = s.account.size then none else some (call, after.size)) }

/-- The order of `call` executes. -/
def execute (s : LighterTrading) (call : Nat) (after : LighterPositionSnapshot) :
    LighterTrading × List IocObs :=
  if call ∈ s.unexecuted then
    (s.settle call after,
      [.executed call (after.size - s.account.size), .account after.size])
  else (s, [])

/-- What a message of the feed tells about the market: nothing unless it lists the market. -/
def delivery (cfg : PositionFeedConfig) (f f' : LighterPositionFeed) : FeedEvent → List IocObs
  | .message msg =>
    if f'.version ≠ f.version ∧ Text.contains (marketKey cfg.marketIndex) msg.toList then
      f'.latest.toList.map fun snap => .delivered snap.size
    else []
  | _ => []

def step (cfg : PositionFeedConfig) (s : LighterTrading) :
    IocEvent → LighterTrading × List IocObs
  | .begin request => s.begin request
  | .send answer => s.send answer
  | .wake => s.wake
  | .timeout => s.timeout
  | .execute call after => s.execute call after
  | .feed e => ({ s with feed := s.feed.step cfg e }, delivery cfg s.feed (s.feed.step cfg e) e)

def machine (cfg : PositionFeedConfig) : EventMachine LighterTrading IocEvent IocObs := ⟨step cfg⟩

/-- A client at rest with the given account. -/
def start (cfg : PositionFeedConfig) (waiter : Bool) (account : LighterPositionSnapshot) :
    LighterTrading where
  account
  feed := .start cfg
  waiter

/-! ## Orders and their executions -/

def movedBy (call : Nat) : IocObs → ℚ
  | .executed call' moved => if call' = call then moved else 0
  | _ => 0

/-- What the order of a call executed. -/
def executedBy (call : Nat) (l : List IocObs) : ℚ := (l.map (movedBy call)).sum

/-- An order that was sent and whose call returned a confirmed fill executed exactly the confirmed
size. -/
def Executed (l : List IocObs) : Prop :=
  ∀ call ack, .returned call ack ∈ l → ack.fillConfirmed = true → .sent call ∈ l →
    |executedBy call l| = ack.confirmedSize

/-- `snap` is as far from the baseline as the account would be with this call's order alone. -/
def OwnMove (s : LighterTrading) (before snap : LighterPositionSnapshot) : Prop :=
  |snap.size - before.size| = |s.account.size - before.size - s.carried|

/-- The snapshot a confirming call compares, the feed's or the account itself, lies as far from the
baseline as the account would with this call's order alone. -/
def Tracks (s : LighterTrading) : IocEvent → Prop
  | .wake => ∀ request before message txHash, s.phase = .waiting request before message txHash →
      ∀ snap, s.woken before = some snap → s.OwnMove before snap
  | .timeout => ∀ request before message txHash, s.phase = .waiting request before message txHash →
      s.woken before = none → ∀ snap, s.queried before = some snap → s.OwnMove before snap
  | _ => True

/-- The snapshot by which a step confirms a fill, if it does. -/
def compared (s : LighterTrading) : IocEvent → Option LighterPositionSnapshot
  | .wake =>
    match s.phase with
    | .waiting _ before _ _ => s.woken before
    | _ => none
  | .timeout =>
    match s.phase with
    | .waiting _ before _ _ => if (s.woken before).isSome then none else s.queried before
    | _ => none
  | _ => none

/-- What a confirming call compares is the account as its own order left it, and nothing changed
the account before: it is no snapshot of an earlier moment, nor the zero of a message without the
market, and no order of an earlier call executed late and came first. -/
def Undisturbed (s : LighterTrading) (e : IocEvent) : Prop :=
  ∀ snap ∈ s.compared e, s.firstChange = some (s.calls, snap.size)

instance (s : LighterTrading) (e : IocEvent) : Decidable (s.Undisturbed e) :=
  inferInstanceAs (Decidable (∀ snap ∈ s.compared e, _))

/-! ## What one step does -/

/-- A step that answers no waiting call. -/
inductive Move (s : LighterTrading) : LighterTrading → List IocObs → Prop where
  | fed (feed : LighterPositionFeed) (sizes : List ℚ) :
      Move s { s with feed } (sizes.map .delivered)
  | dryRun (request : LighterIocRequest) (idle : s.phase = .idle) :
      Move s { s with calls := s.calls + 1 } [.returned (s.calls + 1) (dryRunAck request)]
  | began (request : LighterIocRequest) (idle : s.phase = .idle) :
      Move s { s with phase := .sized request s.account, calls := s.calls + 1, carried := 0
                      firstChange := none } []
  | refused (request : LighterIocRequest) (before : LighterPositionSnapshot) (ack : LighterIocAck)
      (sized : s.phase = .sized request before) (unconfirmed : ack.fillConfirmed = false) :
      Move s { s with phase := .idle } [.returned s.calls ack]
  | dropped (request : LighterIocRequest) (before : LighterPositionSnapshot) (ack : LighterIocAck)
      (sized : s.phase = .sized request before) (unconfirmed : ack.fillConfirmed = false) :
      Move s { s with unexecuted := s.unexecuted ++ [s.calls], phase := .idle }
        [.sent s.calls, .returned s.calls ack]
  | threw (request : LighterIocRequest) (before : LighterPositionSnapshot)
      (sized : s.phase = .sized request before) :
      Move s { s with unexecuted := s.unexecuted ++ [s.calls], phase := .idle }
        [.sent s.calls, .threw s.calls]
  | accepted (request : LighterIocRequest) (before : LighterPositionSnapshot)
      (message txHash : String) (sized : s.phase = .sized request before) :
      Move s { s with
        unexecuted := s.unexecuted ++ [s.calls]
        phase := .waiting request before message txHash } [.sent s.calls]
  | executed (call : Nat) (after : LighterPositionSnapshot) (mem : call ∈ s.unexecuted) :
      Move s (s.settle call after)
        [.executed call (after.size - s.account.size), .account after.size]

/-- A step that answers the waiting call, with the snapshot it compares. -/
structure Answers (s : LighterTrading) (before : LighterPositionSnapshot)
    (after : Option LighterPositionSnapshot) (next : LighterTrading × List IocObs) : Prop where
  waiting : ∃ request message txHash attempts,
    s.phase = .waiting request before message txHash ∧
      next = s.returnAck (confirmAck request before message txHash attempts after)
  changed : ∀ snap, after = some snap → 0.001 < |snap.size - before.size|

theorem Move.quiet (s : LighterTrading) : Move s s [] := .fed s.feed []

section Steps

variable {cfg : PositionFeedConfig} {s s' : LighterTrading}

theorem begin_move (s : LighterTrading) (request : LighterIocRequest) :
    Move s (s.begin request).1 (s.begin request).2 := by
  unfold begin
  split
  · next idle =>
    split
    · exact .dryRun request idle
    · exact .began request idle
  · exact .quiet s

theorem send_move (s : LighterTrading) (answer : TxAnswer) :
    Move s (s.send answer).1 (s.send answer).2 := by
  unfold send
  split
  · next request before sized =>
    split
    · exact .refused request before _ sized rfl
    · dsimp only
      split
      · exact .threw request before sized
      · split
        · exact .dropped request before _ sized rfl
        · split
          · exact .accepted request before _ _ sized
          · exact .threw request before sized
  · exact .quiet s

theorem execute_move (s : LighterTrading) (call : Nat) (after : LighterPositionSnapshot) :
    Move s (s.execute call after).1 (s.execute call after).2 := by
  unfold execute
  split
  · next mem => exact .executed call after mem
  · exact .quiet s

theorem delivery_sizes (f f' : LighterPositionFeed) (e : FeedEvent) :
    ∃ sizes : List ℚ, delivery cfg f f' e = sizes.map .delivered := by
  unfold delivery
  split
  · split
    · exact ⟨f'.latest.toList.map LighterPositionSnapshot.size, by simp⟩
    · exact ⟨[], rfl⟩
  · exact ⟨[], rfl⟩

theorem feed_move (s : LighterTrading) (e : FeedEvent) :
    Move s (s.step cfg (.feed e)).1 (s.step cfg (.feed e)).2 := by
  obtain ⟨sizes, hsizes⟩ := @delivery_sizes cfg s.feed (s.feed.step cfg e) e
  simp only [step, hsizes]
  exact .fed _ sizes

theorem woken_changed {before snap : LighterPositionSnapshot} (h : s.woken before = some snap) :
    0.001 < |snap.size - before.size| := by
  rw [woken] at h
  split_ifs at h
  exact (LighterPositionFeed.positionChange_eq_some h).2

theorem queried_changed {before snap : LighterPositionSnapshot}
    (h : s.queried before = some snap) : 0.001 < |snap.size - before.size| := by
  rw [queried] at h
  split_ifs at h with hchange
  cases h
  exact hchange

/-- A waiting call has one baseline. -/
theorem waiting_before {request request' : LighterIocRequest}
    {before before' : LighterPositionSnapshot} {message message' txHash txHash' : String}
    (h : s.phase = .waiting request before message txHash)
    (h' : s.phase = .waiting request' before' message' txHash') : before = before' := by
  rw [h] at h'
  injection h'

theorem wake_cases (s : LighterTrading) :
    (s.Tracks .wake ∧ Move s s.wake.1 s.wake.2) ∨
      ∃ before after, s.Answers before after s.wake ∧
        (s.Tracks .wake ↔ ∀ snap, after = some snap → s.OwnMove before snap) := by
  unfold wake
  split
  · next request before message txHash waiting =>
    split
    · next snap hsnap =>
      refine .inr ⟨before, some snap, ⟨⟨request, message, txHash, 1, waiting, rfl⟩, ?_⟩, ?_⟩
      · rintro _ ⟨⟩
        exact woken_changed hsnap
      · constructor
        · rintro h _ ⟨⟩
          exact h _ _ _ _ waiting _ hsnap
        · rintro h r b m t hw x hx
          obtain rfl := waiting_before waiting hw
          exact h x (hsnap.symm.trans hx)
    · next hnone =>
      refine .inl ⟨fun r b m t hw x hx => ?_, .quiet s⟩
      obtain rfl := waiting_before waiting hw
      rw [hnone] at hx
      cases hx
  · next hidle => exact .inl ⟨fun r b m t hw => absurd hw (hidle r b m t), .quiet s⟩

theorem timeout_cases (s : LighterTrading) :
    (s.Tracks .timeout ∧ Move s s.timeout.1 s.timeout.2) ∨
      ∃ before after, s.Answers before after s.timeout ∧
        (s.Tracks .timeout ↔ ∀ snap, after = some snap → s.OwnMove before snap) := by
  unfold timeout
  split
  · next request before message txHash waiting =>
    split
    · next snap hsnap =>
      refine .inl ⟨fun r b m t hw hnone => ?_, .quiet s⟩
      obtain rfl := waiting_before waiting hw
      rw [hnone] at hsnap
      cases hsnap
    · next hnone =>
      refine .inr ⟨before, s.queried before,
        ⟨⟨request, message, txHash, _, waiting, rfl⟩, fun _ => queried_changed⟩, ?_⟩
      constructor
      · intro h
        exact h _ _ _ _ waiting hnone
      · rintro h r b m t hw -
        obtain rfl := waiting_before waiting hw
        exact h
  · next hidle => exact .inl ⟨fun r b m t hw => absurd hw (hidle r b m t), .quiet s⟩

/-- A step answers the waiting call, or is a move, which tracks. -/
theorem step_cases (cfg : PositionFeedConfig) (s : LighterTrading) (e : IocEvent) :
    (s.Tracks e ∧ Move s (s.step cfg e).1 (s.step cfg e).2) ∨
      ∃ before after, s.Answers before after (s.step cfg e) ∧
        (s.Tracks e ↔ ∀ snap, after = some snap → s.OwnMove before snap) := by
  cases e with
  | begin request => exact .inl ⟨trivial, begin_move s request⟩
  | send answer => exact .inl ⟨trivial, send_move s answer⟩
  | wake => exact wake_cases s
  | timeout => exact timeout_cases s
  | execute call after => exact .inl ⟨trivial, execute_move s call after⟩
  | feed e => exact .inl ⟨trivial, feed_move s e⟩

end Steps

/-! ## Executions -/

section Executions

variable {call call' : Nat} {l l' : List IocObs}

theorem executedBy_append : executedBy call (l ++ l') = executedBy call l + executedBy call l' := by
  simp [executedBy]

/-- Only executions move an account. -/
theorem executedBy_of_still (h : ∀ o ∈ l', movedBy call o = 0) :
    executedBy call (l ++ l') = executedBy call l := by
  have hzero : executedBy call l' = 0 := List.sum_eq_zero (by simpa using h)
  rw [executedBy_append, hzero, add_zero]

theorem executedBy_executed {moved size : ℚ} :
    executedBy call (l ++ [.executed call' moved, .account size]) =
      executedBy call l + if call' = call then moved else 0 := by
  rw [executedBy_append]
  simp [executedBy, movedBy]

end Executions

def baseline (s : LighterTrading) : Option LighterPositionSnapshot :=
  match s.phase with
  | .idle => none
  | .sized _ before => some before
  | .waiting _ before _ _ => some before

/-- Calls are numbered in order; an order executes only once it was sent, and only once; the
account is where the baseline, this call's order and the carried executions put it. -/
structure Booked (l : List IocObs) (s : LighterTrading) : Prop where
  sent : ∀ call, .sent call ∈ l → call ≤ s.calls
  returned : ∀ call ack, .returned call ack ∈ l → call ≤ s.calls
  unsent : ∀ call, .sent call ∉ l → executedBy call l = 0
  unexecuted : ∀ call ∈ s.unexecuted, .sent call ∈ l ∧ executedBy call l = 0
  once : s.unexecuted.Nodup
  confirmed : ∀ call ack, .returned call ack ∈ l → ack.fillConfirmed = true → .sent call ∈ l →
    0 < ack.confirmedSize
  pending : s.phase ≠ .idle → ∀ ack, .returned s.calls ack ∉ l
  unsigned : ∀ request before, s.phase = .sized request before → .sent s.calls ∉ l
  accepted : ∀ request before message txHash, s.phase = .waiting request before message txHash →
    .sent s.calls ∈ l
  balance : ∀ before, s.baseline = some before →
    s.account.size = before.size + executedBy s.calls l + s.carried

section Booked

variable {l obs : List IocObs} {s s' : LighterTrading}

theorem Booked.start (cfg : PositionFeedConfig) (waiter : Bool) (account : LighterPositionSnapshot) :
    Booked [] (start cfg waiter account) where
  sent _ h := by cases h
  returned _ _ h := by cases h
  unsent _ _ := rfl
  unexecuted _ h := by cases h
  once := List.nodup_nil
  confirmed _ _ h := by cases h
  pending h := absurd rfl h
  unsigned _ _ h := by cases h
  accepted _ _ _ _ h := by cases h
  balance _ h := by cases h

/-- A step that keeps the account, records nothing but `obs`, and makes no order executable. -/
theorem Booked.frame (h : Booked l s) (still : ∀ call, ∀ o ∈ obs, movedBy call o = 0)
    (account : s'.account = s.account) (unexecuted : s'.unexecuted = s.unexecuted)
    (sent : ∀ call, .sent call ∉ obs)
    (returned : ∀ call ack, .returned call ack ∈ obs → call ≤ s'.calls ∧
      (ack.fillConfirmed = true → .sent call ∈ l → 0 < ack.confirmedSize))
    (calls : s.calls ≤ s'.calls)
    (phase : s'.phase = .idle ∨ s'.phase = s.phase ∧ s'.calls = s.calls ∧
      s'.carried = s.carried ∧ ∀ ack, .returned s.calls ack ∉ obs) : Booked (l ++ obs) s' := by
  have hsent : ∀ call, IocObs.sent call ∈ l ++ obs ↔ .sent call ∈ l := fun call => by
    simp [sent call]
  have hmoved : ∀ call, executedBy call (l ++ obs) = executedBy call l := fun call =>
    executedBy_of_still (still call)
  refine ⟨?_, ?_, ?_, ?_, ?_, ?_, ?_, ?_, ?_, ?_⟩
  · intro call hc
    exact (h.sent call ((hsent call).mp hc)).trans calls
  · intro call ack hc
    rcases List.mem_append.mp hc with hc | hc
    · exact (h.returned call ack hc).trans calls
    · exact (returned call ack hc).1
  · intro call hc
    exact (hmoved call).trans (h.unsent call fun hl => hc ((hsent call).mpr hl))
  · intro call hc
    rw [unexecuted] at hc
    exact ⟨(hsent call).mpr (h.unexecuted call hc).1,
      (hmoved call).trans (h.unexecuted call hc).2⟩
  · rw [unexecuted]
    exact h.once
  · intro call ack hc hconf hs
    have hs' := (hsent call).mp hs
    rcases List.mem_append.mp hc with hc | hc
    · exact h.confirmed call ack hc hconf hs'
    · exact (returned call ack hc).2 hconf hs'
  · intro hne ack hc
    rcases phase with hidle | ⟨hp, hcalls, -, hnew⟩
    · exact hne hidle
    · rw [hcalls] at hc
      rcases List.mem_append.mp hc with hc | hc
      · exact h.pending (hp ▸ hne) ack hc
      · exact hnew ack hc
  · intro request before hsized
    rcases phase with hidle | ⟨hp, hcalls, -, -⟩
    · rw [hidle] at hsized
      cases hsized
    · rw [hcalls, hsent]
      exact h.unsigned request before (hp ▸ hsized)
  · intro request before message txHash hwaiting
    rcases phase with hidle | ⟨hp, hcalls, -, -⟩
    · rw [hidle] at hwaiting
      cases hwaiting
    · rw [hcalls, hsent]
      exact h.accepted request before message txHash (hp ▸ hwaiting)
  · intro before hb
    rcases phase with hidle | ⟨hp, hcalls, hcarried, -⟩
    · rw [baseline, hidle] at hb
      cases hb
    · rw [baseline, hp, ← baseline] at hb
      rw [account, hcalls, hcarried, hmoved]
      exact h.balance before hb

theorem baseline_sized {request : LighterIocRequest} {before : LighterPositionSnapshot}
    (h : s.phase = .sized request before) : s.baseline = some before := by
  rw [baseline, h]

/-- A new call takes the account for its baseline. -/
theorem Booked.began (h : Booked l s) (request : LighterIocRequest) :
    Booked l { s with phase := .sized request s.account, calls := s.calls + 1, carried := 0
                      firstChange := none } := by
  have hnew : ∀ call, call ≤ s.calls → call ≤ s.calls + 1 := fun _ hc => Nat.le_succ_of_le hc
  have hsent : IocObs.sent (s.calls + 1) ∉ l := fun hs => absurd (h.sent _ hs) (by simp)
  refine ⟨fun call hc => hnew _ (h.sent call hc), fun call ack hc => hnew _ (h.returned call ack hc),
    h.unsent, h.unexecuted, h.once, h.confirmed, ?_, ?_, ?_, ?_⟩
  · exact fun _ ack hc => absurd (h.returned _ ack hc) (by simp)
  · exact fun _ _ _ => hsent
  · rintro _ _ _ _ ⟨⟩
  · rintro before ⟨⟩
    simp [h.unsent _ hsent]

/-- Sending records the order; `rest` records nothing but an unconfirmed return, if the call
ends. -/
theorem Booked.sending (h : Booked l s) {request : LighterIocRequest}
    {before : LighterPositionSnapshot} (sized : s.phase = .sized request before)
    {rest : List IocObs} {phase : IocPhase}
    (hphase : phase = .idle ∨ rest = [] ∧ ∃ message txHash,
      phase = .waiting request before message txHash)
    (hrest : ∀ o ∈ rest, o = .threw s.calls ∨
      ∃ ack, ack.fillConfirmed = false ∧ o = .returned s.calls ack) :
    Booked (l ++ .sent s.calls :: rest)
      { s with unexecuted := s.unexecuted ++ [s.calls], phase } := by
  have hbusy : s.phase ≠ .idle := by
    rw [sized]
    exact IocPhase.noConfusion
  have hunsigned := h.unsigned request before sized
  have hsent : ∀ call, IocObs.sent call ∈ l ++ .sent s.calls :: rest ↔
      .sent call ∈ l ∨ call = s.calls := by
    intro call
    have hno : IocObs.sent call ∉ rest := by
      intro hc
      rcases hrest _ hc with h | ⟨ack, -, h⟩ <;> cases h
    simp [hno]
  have hmoved : ∀ call, executedBy call (l ++ .sent s.calls :: rest) = executedBy call l := by
    intro call
    refine executedBy_of_still fun o ho => ?_
    rcases List.mem_cons.mp ho with rfl | ho
    · rfl
    · rcases hrest o ho with rfl | ⟨ack, -, rfl⟩ <;> rfl
  have hreturned : ∀ call ack, IocObs.returned call ack ∈ l ++ .sent s.calls :: rest →
      .returned call ack ∈ l ∨ call = s.calls ∧ ack.fillConfirmed = false := by
    intro call ack hc
    rcases List.mem_append.mp hc with hc | hc
    · exact .inl hc
    · rcases List.mem_cons.mp hc with hc | hc
      · cases hc
      · rcases hrest _ hc with hc | ⟨_, hu, hc⟩
        · cases hc
        · cases hc
          exact .inr ⟨rfl, hu⟩
  refine ⟨?_, ?_, ?_, ?_, ?_, ?_, ?_, ?_, ?_, ?_⟩
  · intro call hc
    rcases (hsent call).mp hc with hc | rfl
    · exact h.sent call hc
    · exact le_rfl
  · intro call ack hc
    rcases hreturned call ack hc with hc | ⟨rfl, -⟩
    · exact h.returned call ack hc
    · exact le_rfl
  · intro call hc
    exact (hmoved call).trans (h.unsent call fun hl => hc ((hsent call).mpr (.inl hl)))
  · intro call hc
    rcases List.mem_append.mp hc with hc | hc
    · exact ⟨(hsent call).mpr (.inl (h.unexecuted call hc).1),
        (hmoved call).trans (h.unexecuted call hc).2⟩
    · obtain rfl := List.mem_singleton.mp hc
      exact ⟨(hsent _).mpr (.inr rfl), (hmoved _).trans (h.unsent _ hunsigned)⟩
  · refine List.nodup_append.mpr ⟨h.once, by simp, ?_⟩
    rintro call hc _ hc' rfl
    rw [List.mem_singleton.mp hc'] at hc
    exact hunsigned (h.unexecuted _ hc).1
  · intro call ack hc hconf hs
    rcases hreturned call ack hc with hc | ⟨rfl, hu⟩
    · rcases (hsent call).mp hs with hs | rfl
      · exact h.confirmed call ack hc hconf hs
      · exact absurd hc (h.pending hbusy ack)
    · rw [hu] at hconf
      cases hconf
  · intro hne ack hc
    rcases hphase with hidle | ⟨rfl, -⟩
    · exact hne hidle
    · exact h.pending hbusy ack (by simpa using hc)
  · intro request' before' hsized
    rcases hphase with hidle | ⟨-, message, txHash, hw⟩
    · cases hidle.symm.trans hsized
    · cases hw.symm.trans hsized
  · intro _ _ _ _ _
    exact (hsent _).mpr (.inr rfl)
  · intro before' hb
    rw [hmoved]
    refine h.balance before' ?_
    rcases hphase with rfl | ⟨-, message, txHash, rfl⟩
    · cases hb
    · rw [baseline_sized sized]
      exact hb

/-- An execution moves the account for its own call, or is carried. -/
theorem Booked.executed (h : Booked l s) {call : Nat} {after : LighterPositionSnapshot}
    (mem : call ∈ s.unexecuted) :
    Booked (l ++ [.executed call (after.size - s.account.size), .account after.size])
      (s.settle call after) := by
  have hsent : ∀ call', IocObs.sent call' ∈
      l ++ [.executed call (after.size - s.account.size), .account after.size] ↔
        .sent call' ∈ l := fun call' => by simp
  have hreturned : ∀ call' ack, IocObs.returned call' ack ∈
      l ++ [.executed call (after.size - s.account.size), .account after.size] ↔
        .returned call' ack ∈ l := fun call' ack => by simp
  refine ⟨?_, ?_, ?_, ?_, h.once.erase call, ?_, ?_, ?_, ?_, ?_⟩
  · exact fun call' hc => h.sent call' ((hsent call').mp hc)
  · exact fun call' ack hc => h.returned call' ack ((hreturned call' ack).mp hc)
  · intro call' hc
    have hunsent : IocObs.sent call' ∉ l := fun hl => hc ((hsent call').mpr hl)
    have hne : call ≠ call' := by
      rintro rfl
      exact hunsent (h.unexecuted call mem).1
    rw [executedBy_executed, if_neg hne, add_zero]
    exact h.unsent call' hunsent
  · intro call' hc
    obtain ⟨hne, hc⟩ := h.once.mem_erase_iff.mp hc
    refine ⟨(hsent call').mpr (h.unexecuted call' hc).1, ?_⟩
    rw [executedBy_executed, if_neg hne.symm, add_zero]
    exact (h.unexecuted call' hc).2
  · exact fun call' ack hc hconf hs =>
      h.confirmed call' ack ((hreturned call' ack).mp hc) hconf ((hsent call').mp hs)
  · exact fun hne ack hc => h.pending hne ack ((hreturned _ ack).mp hc)
  · exact fun request before hsized hs => h.unsigned request before hsized ((hsent _).mp hs)
  · exact fun request before message txHash hw =>
      (hsent _).mpr (h.accepted request before message txHash hw)
  · intro before hb
    have hbalance := h.balance before hb
    simp only [settle, executedBy_executed]
    by_cases heq : call = s.calls
    · simp only [if_pos heq]
      linarith
    · simp only [if_neg heq]
      linarith

theorem Move.booked (m : Move s s' obs) (h : Booked l s) : Booked (l ++ obs) s' := by
  cases m with
  | fed feed sizes =>
    exact h.frame (by simp [movedBy]) rfl rfl (by simp) (by simp) le_rfl
      (.inr ⟨rfl, rfl, rfl, by simp⟩)
  | dryRun request idle =>
    refine h.frame (by simp [movedBy]) rfl rfl (by simp) ?_ (Nat.le_succ _) (.inl idle)
    rintro call ack hc
    obtain ⟨rfl, rfl⟩ : call = s.calls + 1 ∧ ack = dryRunAck request := by simpa using hc
    exact ⟨le_rfl, fun _ hs => absurd (h.sent _ hs) (by simp)⟩
  | began request idle =>
    rw [List.append_nil]
    exact h.began request
  | refused request before ack sized unconfirmed =>
    refine h.frame (by simp [movedBy]) rfl rfl (by simp) ?_ le_rfl (.inl rfl)
    rintro call ack' hc
    obtain ⟨rfl, rfl⟩ : call = s.calls ∧ ack' = ack := by simpa using hc
    exact ⟨le_rfl, fun hconf => by rw [unconfirmed] at hconf; cases hconf⟩
  | dropped request before ack sized unconfirmed =>
    exact h.sending sized (.inl rfl) (by simp [unconfirmed])
  | threw request before sized => exact h.sending sized (.inl rfl) (by simp)
  | accepted request before message txHash sized =>
    exact h.sending sized (.inr ⟨rfl, message, txHash, rfl⟩) (by simp)
  | executed call after mem => exact h.executed mem

/-- An answer to the waiting call records its acknowledgement and nothing else. -/
theorem Answers.booked {before : LighterPositionSnapshot} {after : Option LighterPositionSnapshot}
    {next : LighterTrading × List IocObs} (a : s.Answers before after next) (h : Booked l s) :
    Booked (l ++ next.2) next.1 := by
  obtain ⟨⟨request, message, txHash, attempts, waiting, rfl⟩, changed⟩ := a
  refine h.frame (by simp [returnAck, movedBy]) rfl rfl (by simp [returnAck]) ?_ le_rfl (.inl rfl)
  intro call ack hc
  obtain ⟨rfl, rfl⟩ : call = s.calls ∧
      ack = confirmAck request before message txHash attempts after := by
    simpa [returnAck] using hc
  refine ⟨le_rfl, fun hconf _ => ?_⟩
  cases after with
  | none => cases hconf
  | some snap =>
    have := changed snap rfl
    exact lt_trans (by norm_num) this

/-- A move keeps every confirmed size executed: it returns no confirmed fill of a sent order, and
the orders it executes were not confirmed before. -/
theorem Move.keeps_executed (m : Move s s' obs) (h : Booked l s) (hx : Executed l) :
    Executed (l ++ obs) := by
  have hquiet : ∀ obs : List IocObs, (∀ call, ∀ o ∈ obs, movedBy call o = 0) →
      (∀ call ack, .returned call ack ∈ obs → ack.fillConfirmed = true →
        .sent call ∉ l ++ obs) →
      (∀ call, .sent call ∈ obs → ∀ ack, .returned call ack ∉ l) → Executed (l ++ obs) := by
    intro obs still hret hsent call ack hc hconf hs
    rw [executedBy_of_still (still call)]
    rcases List.mem_append.mp hc with hc | hc
    · rcases List.mem_append.mp hs with hs | hs
      · exact hx call ack hc hconf hs
      · exact absurd hc (hsent call hs ack)
    · exact absurd hs (hret call ack hc hconf)
  have hpending : ∀ {request before}, s.phase = .sized request before →
      ∀ ack, IocObs.returned s.calls ack ∉ l := fun hsized =>
    h.pending (by rw [hsized]; exact IocPhase.noConfusion)
  cases m with
  | fed feed sizes => exact hquiet _ (by simp [movedBy]) (by simp) (by simp)
  | dryRun request idle =>
    refine hquiet _ (by simp [movedBy]) ?_ (by simp)
    rintro call ack hc - hs
    obtain ⟨rfl, -⟩ : call = s.calls + 1 ∧ ack = dryRunAck request := by simpa using hc
    exact absurd (h.sent _ (by simpa using hs)) (by simp)
  | began request idle => exact hquiet _ (by simp) (by simp) (by simp)
  | refused request before ack sized unconfirmed =>
    exact hquiet _ (by simp [movedBy]) (by simp [unconfirmed]) (by simp)
  | dropped request before ack sized unconfirmed =>
    exact hquiet _ (by simp [movedBy]) (by simp [unconfirmed]) (by simpa using hpending sized)
  | threw request before sized =>
    exact hquiet _ (by simp [movedBy]) (by simp) (by simpa using hpending sized)
  | accepted request before message txHash sized =>
    exact hquiet _ (by simp [movedBy]) (by simp) (by simpa using hpending sized)
  | executed call after mem =>
    intro call' ack hc hconf hs
    have hc' : IocObs.returned call' ack ∈ l := by simpa using hc
    have hs' : IocObs.sent call' ∈ l := by simpa using hs
    have hold := hx call' ack hc' hconf hs'
    rw [executedBy_executed]
    by_cases heq : call = call'
    · have hpos := h.confirmed call' ack hc' hconf hs'
      rw [← heq, (h.unexecuted call mem).2, abs_zero] at hold
      exact absurd hold hpos.ne
    · rwa [if_neg heq, add_zero]

/-- An answer keeps every confirmed size executed exactly when the snapshot it compares shows this
call's own move. -/
theorem Answers.keeps_executed_iff {before : LighterPositionSnapshot}
    {after : Option LighterPositionSnapshot} {next : LighterTrading × List IocObs}
    (a : s.Answers before after next) (h : Booked l s) (hx : Executed l) :
    Executed (l ++ next.2) ↔ ∀ snap, after = some snap → s.OwnMove before snap := by
  obtain ⟨⟨request, message, txHash, attempts, waiting, rfl⟩, changed⟩ := a
  have hsent := h.accepted _ _ _ _ waiting
  have hown : executedBy s.calls l = s.account.size - before.size - s.carried := by
    have := h.balance before (by rw [baseline, waiting])
    linarith
  have hmoved : ∀ call ack, executedBy call (l ++ [.returned s.calls ack]) = executedBy call l :=
    fun call ack => executedBy_of_still (by simp [movedBy])
  simp only [returnAck]
  constructor
  · rintro h' snap rfl
    have := h' s.calls _ (List.mem_append_right _ (List.mem_singleton_self _))
      (by simpa [confirmAck] using changed snap rfl) (List.mem_append_left _ hsent)
    rw [hmoved, hown] at this
    exact this.symm
  · intro htracks call ack hc hconf hs
    rw [hmoved]
    rcases List.mem_append.mp hc with hc | hc
    · exact hx call ack hc hconf (by simpa using hs)
    · obtain ⟨rfl, rfl⟩ : call = s.calls ∧
          ack = confirmAck request before message txHash attempts after := by simpa using hc
      cases after with
      | none => cases hconf
      | some snap =>
        rw [hown]
        exact (htracks snap rfl).symm

end Booked

theorem booked_step (cfg : PositionFeedConfig) {l : List IocObs} {s : LighterTrading} (e : IocEvent)
    (h : Booked l s) : Booked (l ++ (s.step cfg e).2) (s.step cfg e).1 := by
  rcases step_cases cfg s e with ⟨-, m⟩ | ⟨before, after, a, -⟩
  · exact m.booked h
  · exact a.booked h

theorem executed_step_iff (cfg : PositionFeedConfig) {l : List IocObs} {s : LighterTrading}
    (e : IocEvent) (h : Booked l s) (hx : Executed l) :
    Executed (l ++ (s.step cfg e).2) ↔ s.Tracks e := by
  rcases step_cases cfg s e with ⟨htracks, m⟩ | ⟨before, after, a, htracks⟩
  · exact iff_of_true (m.keeps_executed h hx) htracks
  · exact (a.keeps_executed_iff h hx).trans htracks.symm

theorem executed_iff (cfg : PositionFeedConfig) (waiter : Bool) (account : LighterPositionSnapshot)
    (es : List IocEvent) :
    (machine cfg).Always (start cfg waiter account) (fun l _ => Executed l) es ↔
      (machine cfg).Throughout (start cfg waiter account) (fun _ s e => s.Tracks e) es := by
  have hbooked : (machine cfg).Always (start cfg waiter account) Booked es :=
    EventMachine.invariant (.start cfg waiter account) (fun _ _ e h => booked_step cfg e h) es
  have hiff : (machine cfg).Always (start cfg waiter account) (fun l s => Booked l s ∧ Executed l)
      es ↔ (machine cfg).Throughout (start cfg waiter account) (fun _ s e => s.Tracks e) es := by
    refine EventMachine.always_iff_throughout ⟨.start cfg waiter account, fun _ _ h => by cases h⟩
      ?_ es
    rintro l s e ⟨hb, hx⟩
    rw [← executed_step_iff cfg e hb hx]
    exact ⟨fun h => h.2, fun h => ⟨booked_step cfg e hb, h⟩⟩
  rw [← hiff]
  exact ⟨fun h pre hp => ⟨hbooked pre hp, h pre hp⟩, fun h => h.mono fun _ _ hp => hp.2⟩

/-! ## Undisturbed confirmations -/

/-- Where the account comes from since the baseline of a call: it has not changed, or the change
that came first tells who made it. -/
structure Attributed (l : List IocObs) (s : LighterTrading) : Prop where
  sent : ∀ call size, s.firstChange = some (call, size) → .sent call ∈ l
  unchanged : ∀ before, s.baseline = some before → s.firstChange = none →
    s.account.size = before.size
  own : ∀ before size, s.baseline = some before → s.firstChange = some (s.calls, size) →
    s.calls ∉ s.unexecuted ∧ size = before.size + executedBy s.calls l

section Attributed

variable {l obs : List IocObs} {s s' : LighterTrading}

theorem Attributed.start (cfg : PositionFeedConfig) (waiter : Bool)
    (account : LighterPositionSnapshot) : Attributed [] (start cfg waiter account) where
  sent _ _ h := by cases h
  unchanged _ h := by cases h
  own _ _ h := by cases h

theorem Attributed.idle (h : Attributed l s) (idle : s'.phase = .idle)
    (first : s'.firstChange = s.firstChange) : Attributed (l ++ obs) s' where
  sent call size hfirst := List.mem_append_left _ (h.sent call size (first ▸ hfirst))
  unchanged _ hb := by rw [baseline, idle] at hb; cases hb
  own _ _ hb := by rw [baseline, idle] at hb; cases hb

/-- The first execution that moves the account is the one that is remembered. -/
theorem Attributed.settled (h : Attributed l s) (hbooked : Booked l s) {call : Nat}
    {after : LighterPositionSnapshot} (mem : call ∈ s.unexecuted) :
    Attributed (l ++ [.executed call (after.size - s.account.size), .account after.size])
      (s.settle call after) := by
  refine ⟨?_, ?_, ?_⟩
  · intro call' size hfirst
    refine List.mem_append_left _ ?_
    rcases Option.or_eq_some_iff.mp hfirst with hold | ⟨-, hnew⟩
    · exact h.sent call' size hold
    · split_ifs at hnew
      cases hnew
      exact (hbooked.unexecuted call mem).1
  · intro before hb hfirst
    obtain ⟨hold, hnew⟩ := Option.or_eq_none_iff.mp hfirst
    have hsame : after.size = s.account.size := by
      by_contra hne
      rw [if_neg hne] at hnew
      cases hnew
    exact hsame.trans (h.unchanged before hb hold)
  · intro before size hb hfirst
    rw [executedBy_executed]
    rcases Option.or_eq_some_iff.mp hfirst with hold | ⟨hnone, hnew⟩
    · -- the call's own order is gone, so this is another one's
      obtain ⟨hgone, hsize⟩ := h.own before size hb hold
      have hne : call ≠ s.calls := by
        rintro rfl
        exact hgone mem
      refine ⟨fun hmem => hgone (List.mem_of_mem_erase hmem), ?_⟩
      rw [show (s.settle call after).calls = s.calls from rfl, if_neg hne, add_zero]
      exact hsize
    · split_ifs at hnew
      obtain ⟨hcall, hsize⟩ := Prod.mk.inj (Option.some.inj hnew)
      have hown : call = s.calls := hcall
      subst hown
      refine ⟨hbooked.once.not_mem_erase, ?_⟩
      have hbefore := h.unchanged before hb hnone
      rw [show (s.settle s.calls after).calls = s.calls from rfl, if_pos rfl,
        (hbooked.unexecuted s.calls mem).2, ← hsize, ← hbefore]
      ring

theorem Move.attributed (m : Move s s' obs) (hbooked : Booked l s) (h : Attributed l s) :
    Attributed (l ++ obs) s' := by
  cases m with
  | fed feed sizes =>
    refine ⟨fun call size hfirst => List.mem_append_left _ (h.sent call size hfirst),
      h.unchanged, ?_⟩
    rw [executedBy_of_still (by simp [movedBy])]
    exact h.own
  | dryRun request idle => exact h.idle idle rfl
  | began request idle =>
    refine ⟨?_, ?_, ?_⟩
    · rintro _ _ ⟨⟩
    · rintro _ ⟨⟩ -
      rfl
    · rintro _ _ - ⟨⟩
  | refused request before ack sized unconfirmed => exact h.idle rfl rfl
  | dropped request before ack sized unconfirmed => exact h.idle rfl rfl
  | threw request before sized => exact h.idle rfl rfl
  | accepted request before message txHash sized =>
    refine ⟨fun call size hfirst => List.mem_append_left _ (h.sent call size hfirst), ?_, ?_⟩
    · rintro _ ⟨⟩ hfirst
      exact h.unchanged before (baseline_sized sized) hfirst
    -- the order was not sent before, so no change is its own yet
    · intro _ size _ hfirst
      exact absurd (h.sent s.calls size hfirst) (hbooked.unsigned request before sized)
  | executed call after mem => exact h.settled hbooked mem

theorem attributed_step (cfg : PositionFeedConfig) (e : IocEvent) (hbooked : Booked l s)
    (h : Attributed l s) : Attributed (l ++ (s.step cfg e).2) (s.step cfg e).1 := by
  rcases step_cases cfg s e with ⟨-, m⟩ | ⟨before, after, ⟨⟨_, _, _, _, _, hnext⟩, _⟩, -⟩
  · exact m.attributed hbooked h
  · rw [hnext]
    exact h.idle rfl rfl

/-- What is compared undisturbed shows the move of the call's own order. -/
theorem Undisturbed.tracks {e : IocEvent} (hbooked : Booked l s) (h : Attributed l s)
    (hu : s.Undisturbed e) : s.Tracks e := by
  have hown {request : LighterIocRequest} {before snap : LighterPositionSnapshot}
      {message txHash : String} (waiting : s.phase = .waiting request before message txHash)
      (hcompared : s.compared e = some snap) : s.OwnMove before snap := by
    have hbefore : s.baseline = some before := by rw [baseline, waiting]
    obtain ⟨-, hsize⟩ := h.own before snap.size hbefore (hu snap hcompared)
    have hbalance := hbooked.balance before hbefore
    rw [OwnMove, hsize, hbalance]
    congr 1
    ring
  cases e with
  | wake =>
    intro request before message txHash waiting snap hsnap
    refine hown waiting ?_
    simp only [compared, waiting]
    exact hsnap
  | timeout =>
    intro request before message txHash waiting hnone snap hsnap
    refine hown waiting ?_
    simp only [compared, waiting, hnone, Option.isSome_none, Bool.false_eq_true, if_false]
    exact hsnap
  | _ => trivial

end Attributed

/-- Runs in which whatever confirms a fill is undisturbed confirm what was executed. -/
theorem executed_always (cfg : PositionFeedConfig) (waiter : Bool)
    (account : LighterPositionSnapshot) (es : List IocEvent)
    (h : (machine cfg).Throughout (start cfg waiter account) (fun _ s e => s.Undisturbed e) es) :
    (machine cfg).Always (start cfg waiter account) (fun l _ => Executed l) es := by
  have hinv : (machine cfg).Always (start cfg waiter account)
      (fun l s => Booked l s ∧ Attributed l s) es :=
    EventMachine.invariant ⟨.start cfg waiter account, .start cfg waiter account⟩
      (fun _ _ e hs => ⟨booked_step cfg e hs.1, attributed_step cfg e hs.1 hs.2⟩) es
  refine (executed_iff cfg waiter account es).mpr fun pre e hp => ?_
  obtain ⟨hbooked, hattributed⟩ := hinv.before hp
  exact (h pre e hp).tracks hbooked hattributed

/-- A call whose order executes only after the call gave up, and one whose order executes in
time. -/
theorem executed_always_late :
    (machine {}).Always (start {} true {}) (fun l _ => Executed l)
      [.begin { size := 1, dryRun := false }, .send { response := some "\"code\":200" }, .timeout,
        .execute 1 { size := 1, avgEntryPrice := 100 },
        .begin { size := 1, dryRun := false }, .send { response := some "\"code\":200" },
        .execute 2 { size := 2, avgEntryPrice := 100 }, .timeout] :=
  executed_always {} true {} _ (by decide +kernel)

/-! ## The channel of an account -/

theorem step_feed (cfg : PositionFeedConfig) (s : LighterTrading) {e : IocEvent}
    (h : ∀ e', e ≠ .feed e') : (s.step cfg e).1.feed = s.feed := by
  cases e with
  | begin request =>
    simp only [step, begin]
    split
    · split_ifs <;> rfl
    · rfl
  | send answer =>
    simp only [step, send, returnAck]
    split
    · split
      · rfl
      · split
        · rfl
        · split
          · rfl
          · split <;> rfl
    · rfl
  | wake =>
    simp only [step, wake]
    split
    · split <;> rfl
    · rfl
  | timeout =>
    simp only [step, timeout]
    split
    · split <;> rfl
    · rfl
  | execute call after =>
    simp only [step, execute]
    split_ifs <;> rfl
  | feed e => exact absurd rfl (h e)

/-- A feed that is only sent the channel of an account never wakes a wait: every fill is confirmed
by the query. -/
theorem silent_feed (cfg : PositionFeedConfig) (waiter : Bool) (account : LighterPositionSnapshot)
    (es : List IocEvent)
    (h : ∀ msg, IocEvent.feed (.message msg) ∈ es → AccountChannel msg.toList) :
    (machine cfg).Always (start cfg waiter account) (fun _ s => ∀ before, s.woken before = none)
      es := by
  have hlatest : (machine cfg).Always (start cfg waiter account) (fun _ s => s.feed.latest = none)
      es := by
    refine EventMachine.always_of_throughout
      (C := fun _ _ (e : IocEvent) =>
        ∀ msg, e = .feed (.message msg) → AccountChannel msg.toList) ?_ ?_ ?_
    · rfl
    · intro l s e hnone he
      by_cases hfeed : ∃ e', e = .feed e'
      · obtain ⟨e', rfl⟩ := hfeed
        exact (s.feed.step_latest cfg fun msg hmsg => he msg (congrArg _ hmsg)).trans hnone
      · have hsame := step_feed cfg s fun e' he' => hfeed ⟨e', he'⟩
        exact (congrArg LighterPositionFeed.latest hsame).trans hnone
    · rintro pre e hp msg rfl
      exact h msg (hp.subset (by simp))
  refine hlatest.mono fun _ s hnone before => ?_
  rw [woken, LighterPositionFeed.positionChange, hnone]
  split_ifs <;> rfl

/-! ## A late order -/

def accountSizes (l : List IocObs) : List ℚ :=
  l.filterMap fun o => match o with
    | .account size => some size
    | _ => none

def deliveredSizes (l : List IocObs) : List ℚ :=
  l.filterMap fun o => match o with
    | .delivered size => some size
    | _ => none

/-- The feed has delivered past snapshots of the account, in order; messages that do not list the
market deliver none. -/
def PastInOrder (size : ℚ) (l : List IocObs) : Prop :=
  (deliveredSizes l).Sublist (size :: accountSizes l)

instance (size : ℚ) (l : List IocObs) : Decidable (PastInOrder size l) :=
  inferInstanceAs (Decidable ((deliveredSizes l).Sublist (size :: accountSizes l)))

/-- A call whose order does not execute in time, and then executes while the next call waits for
its own, which does not execute. The query shows the change. -/
def lateRun : List IocEvent :=
  [.begin { size := 1, dryRun := false }, .send { response := some "\"code\":200" }, .timeout,
    .begin { size := 1, dryRun := false }, .send { response := some "\"code\":200" },
    .execute 1 { size := 1, avgEntryPrice := 100 }, .timeout]

theorem late_order_confirms :
    ¬ ∀ (cfg : PositionFeedConfig) (account : LighterPositionSnapshot) (es : List IocEvent),
      (machine cfg).Always (start cfg true account) (fun l _ => PastInOrder account.size l) es →
      (machine cfg).Always (start cfg true account) (fun l _ => Executed l) es := by
  intro h
  have hx := (h {} {} lateRun (by decide +kernel)).last
  have hexec : executedBy 2 ((machine {}).obs (start {} true {}) lateRun) = 0 := by
    decide +kernel
  let ack : LighterIocAck :=
    { ok := true
      fillConfirmed := true
      message := "\"code\":200"
      confirmedSize := 1
      fillPrice := 100
      confirmAttempts := 2 }
  have hreturned : IocObs.returned 2 ack ∈ (machine {}).obs (start {} true {}) lateRun := by
    decide +kernel
  have hsize := hx 2 ack hreturned rfl (by decide +kernel)
  rw [hexec] at hsize
  norm_num [ack] at hsize

end LighterTrading

end Arb
