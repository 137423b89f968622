import HlLighterArb.Lib.Text
import HlLighterArb.Live.Risk
import HlLighterArb.Maker.Moves

/-!
# HlLighterArb.Live.Loop

The live loop of `main` when HL is the maker venue and a fill feed is configured: the main thread
with its engine and risk guard, and the io thread of the fill feed. The main thread is a program
counter over the points of an iteration where the other thread can come in between; the io thread
loses the connection, runs the disconnect callback, reconnects and is subscribed again, in this
order and at any moment. A run is an interleaving of both.

* `LiveLoop.callback`, `LiveLoop.next`: the two places that read and write the kill switch.
* `isFeedReason_disconnected`: what the callback latches is recognised as a feed reason.
* `engineCall`, `step_of_call`, `step_of_no_call`: a step of the loop is a step of its engine, or
  leaves it alone but for a position sync.
-/

namespace Arb

/-! ## The fill feed -/

structure HlFillFeed where
  connected : Bool := false
  subscribed : Bool := false
  /-- The reason of a read error whose callback has not run yet. -/
  disconnecting : Option String := none

namespace HlFillFeed

def isSubscribed (f : HlFillFeed) : Bool := f.connected && f.subscribed

def onReadError (f : HlFillFeed) (reason : String) : HlFillFeed :=
  if f.connected then { f with connected := false, disconnecting := some reason } else f

def onDisconnect (f : HlFillFeed) : HlFillFeed :=
  { f with subscribed := false, disconnecting := none }

/-- A reconnect is scheduled behind the callback. -/
def onHandshake (f : HlFillFeed) : HlFillFeed :=
  if f.disconnecting = none then { f with connected := true } else f

def onSubscriptionResponse (f : HlFillFeed) : HlFillFeed :=
  if f.connected then { f with subscribed := true } else f

end HlFillFeed

/-! ## The position query -/

structure HttpResponse where
  statusCode : Int
  body : String

/-- Zero on every failure, an exception (`none`) included. -/
def queryHlPosition (response : Option HttpResponse) (coin : String) : Double :=
  match response with
  | none => .number 0
  | some resp =>
    if resp.statusCode ≠ 200 then .number 0
    else match Text.find ("\"coin\":\"" ++ coin ++ "\"").toList resp.body.toList with
      | none => .number 0
      | some entry =>
        match Text.after "\"szi\":\"".toList entry with
        | none => .number 0
        | some szi =>
          if '"' ∈ szi then (Text.stod (szi.takeWhile (· ≠ '"'))).getD (.number 0) else .number 0

/-! ## The loop -/

/-- What an iteration has read: the snapshot, its time, and the state of the feed. -/
structure LoopTick where
  snap : SpreadSnapshot
  nowMs : Int
  fillsSubscribed : Bool := false

inductive LoopPc where
  | drainFills
  | drainTrades
  | readFeed (t : LoopTick)
  | feedCheck (t : LoopTick)
  | latchFeed (t : LoopTick)
  | reconcile (t : LoopTick)
  | resetFeed (t : LoopTick)
  | staleCheck (t : LoopTick)
  | latchStale (t : LoopTick)
  | resetStale (t : LoopTick)
  | killCheck (t : LoopTick)
  | marketData (t : LoopTick)
  /-- The position is infinite. The loop is not followed further. -/
  | infinite (minus : Bool)

structure LiveLoop where
  engine : MakerHedgeEngine := {}
  risk : RiskGuard := {}
  feed : HlFillFeed := {}
  pc : LoopPc := .drainFills

/-- `next` is a step of the main thread past its queues, with the exchanges as they answer during
it and the answer to a position query. -/
inductive LoopEvent where
  | fill (fillPrice fillSizeBase : ℚ) (snapshot : SpreadSnapshot) (oid : String) (hlFee : ℚ)
      (venues : Venues)
  | trade (trade : TradeEvent) (venues : Venues)
  | fillsDrained
  | snapshot (snap : SpreadSnapshot) (nowMs : Int)
  | next (venues : Venues) (response : Option HttpResponse)
  | readError (reason : String)
  | callback (venues : Venues)
  | handshake
  | subscriptionResponse

inductive LoopObs where
  | engine (o : MakerObs)
  | directCancel (oid : String) (ack : HlCancelAck)
  | read (fillsSubscribed : Bool)
  | reconciled
  | traded (lighterAgeMs hlAgeMs : Int)
  | lost
  deriving DecidableEq

def isFeedReason (reason : String) : Bool :=
  reason = "fill feed not subscribed" ||
    Text.contains "fill feed disconnected".toList reason.toList

theorem isFeedReason_disconnected (reason : String) :
    isFeedReason ("fill feed disconnected: " ++ reason) = true := by
  have hstart : "fill feed disconnected".toList <+: ("fill feed disconnected: " ++ reason).toList := by
    rw [String.toList_append]
    exact List.IsPrefix.trans (by decide) (List.prefix_append _ _)
  rw [isFeedReason, Text.contains_iff.mpr hstart.isInfix, Bool.or_true]

namespace LiveLoop

/-- The kill switch is on for the fill feed. -/
def feedKilled (s : LiveLoop) : Bool :=
  s.risk.killSwitch && isFeedReason s.risk.killSwitchReason

/-- The loop runs one call into the engine. -/
def call (cfg : EngineConfig) (s : LiveLoop) (e : MakerEvent) : LiveLoop × List LoopObs :=
  ({ s with engine := (s.engine.step cfg e).1 }, (s.engine.step cfg e).2.map .engine)

/-- The cancel that goes to the exchange past the engine. -/
def cancelActive (cfg : EngineConfig) (s : LiveLoop) (venues : Venues) : List LoopObs :=
  match s.engine.activeHlOid with
  | some oid => [.directCancel oid (venues.hl.cancelOrder "HYPE" oid cfg.dryRun)]
  | none => []

/-- `hl_position_base_`, which the engine has while it is a number. -/
def hlPosition (s : LiveLoop) : Double :=
  match s.pc with
  | .infinite minus => .infinity minus
  | _ => .number s.engine.hlPositionBase

def syncPosition (s : LiveLoop) (actualPos : ℚ) : MakerHedgeEngine :=
  if 0.001 < |actualPos - s.engine.hlPositionBase| then s.engine.setHlPosition actualPos
  else s.engine

/-- The disconnect callback of the fill feed. -/
def callback (cfg : EngineConfig) (s : LiveLoop) (venues : Venues) : LiveLoop × List LoopObs :=
  match s.feed.disconnecting with
  | none => (s, [])
  | some reason =>
    if ¬ s.risk.killSwitch then
      ({ s with
          feed := s.feed.onDisconnect
          risk := s.risk.activateKillSwitch ("fill feed disconnected: " ++ reason) },
        s.cancelActive cfg venues)
    else ({ s with feed := s.feed.onDisconnect }, [])

def next (cfg : EngineConfig) (s : LiveLoop) (venues : Venues) (response : Option HttpResponse) :
    LiveLoop × List LoopObs :=
  match s.pc with
  | .drainFills | .drainTrades | .infinite _ => (s, [])
  | .readFeed t =>
    ({ s with pc := .feedCheck { t with fillsSubscribed := s.feed.isSubscribed } },
      [.read s.feed.isSubscribed])
  | .feedCheck t =>
    if ¬ t.fillsSubscribed ∧ ¬ s.risk.killSwitch then ({ s with pc := .latchFeed t }, [])
    else if t.fillsSubscribed ∧ s.feedKilled then ({ s with pc := .reconcile t }, [])
    else ({ s with pc := .staleCheck t }, [])
  | .latchFeed t =>
    ({ s with
        risk := s.risk.activateKillSwitch "fill feed not subscribed"
        pc := .staleCheck t },
      s.cancelActive cfg venues)
  | .reconcile t =>
    match queryHlPosition response cfg.hlCoin with
    | .number actualPos =>
      ({ s with engine := s.syncPosition actualPos, pc := .resetFeed t }, [.reconciled])
    -- the distance to an infinity is infinite, and no distance to NaN is more than another
    | .infinity minus => ({ s with pc := .infinite minus }, [.reconciled])
    | .nan => ({ s with pc := .resetFeed t }, [.reconciled])
  | .resetFeed t => ({ s with risk := s.risk.resetKillSwitch, pc := .staleCheck t }, [])
  | .staleCheck t =>
    if 5000 < t.snap.lighter.quoteAgeMs ∨ 5000 < t.snap.hl.quoteAgeMs then
      if ¬ s.risk.killSwitch then ({ s with pc := .latchStale t }, [])
      else ({ s with pc := .drainFills }, [])
    else if s.risk.killSwitch ∧ s.risk.killSwitchReason = "stale quotes detected" then
      ({ s with pc := .resetStale t }, [])
    else ({ s with pc := .killCheck t }, [])
  | .latchStale _ =>
    ({ s with risk := s.risk.activateKillSwitch "stale quotes detected", pc := .drainFills }, [])
  | .resetStale t => ({ s with risk := s.risk.resetKillSwitch, pc := .killCheck t }, [])
  | .killCheck t =>
    if s.risk.killSwitch then ({ s with pc := .drainFills }, [])
    else ({ s with pc := .marketData t }, [])
  | .marketData t =>
    let (s', obs) := s.call cfg (.tick t.nowMs venues)
    ({ s' with pc := .drainFills },
      .traded t.snap.lighter.quoteAgeMs t.snap.hl.quoteAgeMs :: obs)

def step (cfg : EngineConfig) (s : LiveLoop) : LoopEvent → LiveLoop × List LoopObs
  | .fill fillPrice fillSizeBase snapshot oid hlFee venues =>
    match s.pc with
    | .drainFills => s.call cfg (.fill fillPrice fillSizeBase snapshot oid hlFee venues)
    | _ => (s, [])
  | .fillsDrained =>
    match s.pc with
    | .drainFills => ({ s with pc := .drainTrades }, [])
    | _ => (s, [])
  | .trade trade venues =>
    match s.pc with
    | .drainTrades => s.call cfg (.trade trade venues)
    | _ => (s, [])
  | .snapshot snap nowMs =>
    match s.pc with
    | .drainTrades =>
      if snap.hl.bid ≤ 0 ∨ snap.lighter.bid ≤ 0 then ({ s with pc := .drainFills }, [])
      else ({ s with pc := .readFeed { snap, nowMs } }, [])
    | _ => (s, [])
  | .next venues response => s.next cfg venues response
  | .readError reason =>
    ({ s with feed := s.feed.onReadError reason }, if s.feed.isSubscribed then [.lost] else [])
  | .callback venues => s.callback cfg venues
  | .handshake => ({ s with feed := s.feed.onHandshake }, [])
  | .subscriptionResponse => ({ s with feed := s.feed.onSubscriptionResponse }, [])

def machine (cfg : EngineConfig) : EventMachine LiveLoop LoopEvent LoopObs := ⟨step cfg⟩

/-! ## The calls into the engine -/

/-- The call into the engine that a step makes. -/
def engineCall (s : LiveLoop) (e : LoopEvent) : Option MakerEvent :=
  match s.pc, e with
  | .drainFills, .fill fillPrice fillSizeBase snapshot oid hlFee venues =>
    some (.fill fillPrice fillSizeBase snapshot oid hlFee venues)
  | .drainTrades, .trade trade venues => some (.trade trade venues)
  | .marketData t, .next venues _ => some (.tick t.nowMs venues)
  | _, _ => none

def engineObs (l : List LoopObs) : List MakerObs :=
  l.filterMap fun
    | .engine o => some o
    | _ => none

@[simp] theorem engineObs_append (l l' : List LoopObs) :
    engineObs (l ++ l') = engineObs l ++ engineObs l' := by
  simp [engineObs]

@[simp] theorem engineObs_map (l : List MakerObs) : engineObs (l.map .engine) = l := by
  simp [engineObs, List.filterMap_map]

theorem engineObs_any_append {p : MakerObs → Bool} (l l' : List LoopObs) :
    (engineObs (l ++ l')).any p = false ↔
      (engineObs l).any p = false ∧ (engineObs l').any p = false := by
  rw [engineObs_append, List.any_append, Bool.or_eq_false_iff]

/-- What a step without a call does to the engine and shows of it. -/
structure Idles (s s' : LiveLoop) (obs : List LoopObs) : Prop where
  engine : s'.engine = s.engine ∨ ∃ pos, s'.engine = s.engine.setHlPosition pos
  obs : engineObs obs = []

section Steps

variable {cfg : EngineConfig} {s : LiveLoop} {e : LoopEvent}

theorem Idles.of_eq {s' : LiveLoop} (h : s'.engine = s.engine) : Idles s s' [] :=
  ⟨.inl h, rfl⟩

theorem engineObs_cancelActive (venues : Venues) : engineObs (s.cancelActive cfg venues) = [] := by
  unfold cancelActive
  split <;> rfl

theorem syncPosition_cases (s : LiveLoop) (actualPos : ℚ) :
    s.syncPosition actualPos = s.engine ∨
      ∃ pos, s.syncPosition actualPos = s.engine.setHlPosition pos := by
  unfold syncPosition
  split_ifs
  · exact .inr ⟨actualPos, rfl⟩
  · exact .inl rfl

/-- A step that calls the engine is a step of the engine. -/
theorem step_of_call {call : MakerEvent} (h : s.engineCall e = some call) :
    (s.step cfg e).1.engine = (s.engine.step cfg call).1 ∧
      engineObs (s.step cfg e).2 = (s.engine.step cfg call).2 := by
  unfold engineCall at h
  split at h
  · next hpc =>
    cases h
    simp only [step, hpc, LiveLoop.call, true_and]
    exact engineObs_map _
  · next hpc =>
    cases h
    simp only [step, hpc, LiveLoop.call, true_and]
    exact engineObs_map _
  · next hpc =>
    cases h
    simp only [step, next, hpc, LiveLoop.call, true_and]
    exact engineObs_map _
  · cases h

theorem next_idles (h : ∀ t, s.pc ≠ .marketData t) (venues : Venues)
    (response : Option HttpResponse) :
    Idles s (s.next cfg venues response).1 (s.next cfg venues response).2 := by
  unfold next
  cases hpc : s.pc with
  | marketData t => exact absurd hpc (h t)
  | reconcile t =>
    dsimp only
    split
    · exact ⟨s.syncPosition_cases _, rfl⟩
    · exact ⟨.inl rfl, rfl⟩
    · exact ⟨.inl rfl, rfl⟩
  | latchFeed t => exact ⟨.inl rfl, engineObs_cancelActive venues⟩
  | readFeed t => exact ⟨.inl rfl, rfl⟩
  | _ =>
    simp only
    first | exact .of_eq rfl | (split_ifs <;> exact .of_eq rfl)

/-- A step without a call leaves the engine alone, but for a position sync. -/
theorem step_of_no_call (h : s.engineCall e = none) :
    Idles s (s.step cfg e).1 (s.step cfg e).2 := by
  cases e with
  | fill fillPrice fillSizeBase snapshot oid hlFee venues =>
    cases hpc : s.pc with
    | drainFills => simp [engineCall, hpc] at h
    | _ =>
      simp only [step, hpc]
      exact .of_eq rfl
  | trade trade venues =>
    cases hpc : s.pc with
    | drainTrades => simp [engineCall, hpc] at h
    | _ =>
      simp only [step, hpc]
      exact .of_eq rfl
  | next venues response =>
    refine next_idles (fun t hpc => ?_) venues response
    simp [engineCall, hpc] at h
  | callback venues =>
    simp only [step]
    unfold callback
    split
    · exact .of_eq rfl
    · split_ifs
      · exact .of_eq rfl
      · exact ⟨.inl rfl, engineObs_cancelActive venues⟩
  | readError reason =>
    refine ⟨.inl rfl, ?_⟩
    simp only [step]
    split_ifs <;> rfl
  | fillsDrained =>
    simp only [step]
    split <;> exact .of_eq rfl
  | snapshot snap nowMs =>
    simp only [step]
    split
    · split_ifs <;> exact .of_eq rfl
    · exact .of_eq rfl
  | handshake => exact .of_eq rfl
  | subscriptionResponse => exact .of_eq rfl

end Steps

end LiveLoop

end Arb
