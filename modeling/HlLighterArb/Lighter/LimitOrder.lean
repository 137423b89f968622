import HlLighterArb.Lighter.AccountFeed
import HlLighterArb.Lighter.IocConfirmation
import HlLighterArb.LighterMaker.Fills

/-!
# HlLighterArb.Lighter.LimitOrder

The Lighter placements of `LighterMakerTakerEngine` down to the exchange. `place_limit_order` signs
and sends the order, and blocks until the account feed shows it resting or the wait runs out. The
exchange accepts an order that was sent at any moment, under an order index of its own.

* `placeLimitOrder`: the call, with what the feed does meanwhile.
* `Forgotten`: the exchange accepted an order whose placement call returned not ok.
* `forgottenHedged_iff`: a run hedges every fill of a forgotten order exactly when there is none.
-/

namespace Arb

/-! ## `place_limit_order` -/

/-- What the signer, `send_signed_tx` and the account feed do during a call. A call whose transport
throws ends the process. -/
structure LimitAnswer where
  clientOrderIndex : Int
  signError : String := ""
  txHash : String := ""
  response : String := ""
  rounds : List (List FeedEvent) := []

/-- The order reaches the exchange. -/
def LimitAnswer.transmits (answer : LimitAnswer) : Bool :=
  answer.signError = ""

/-- The acknowledgement, and the account feed after the call. `waiter` says whether an order waiter
was set. -/
def placeLimitOrder (feedCfg : AccountFeedConfig) (waiter dryRun : Bool) (f : LighterAccountFeed)
    (answer : LimitAnswer) : LighterLimitOrderAck × LighterAccountFeed :=
  if dryRun then
    ({ ok := true, restingConfirmed := true, message := "dry-run", txHash := "dry_tx",
       clientOrderIndex := answer.clientOrderIndex, orderIndex := answer.clientOrderIndex }, f)
  else if answer.signError ≠ "" then
    ({ message := answer.signError, clientOrderIndex := answer.clientOrderIndex }, f)
  else if ¬ txResponseOk answer.response.toList then
    ({ message := answer.response, txHash := answer.txHash,
       clientOrderIndex := answer.clientOrderIndex }, f)
  else if ¬ waiter then
    ({ message := "lighter maker order accepted by sendTx but no resting-order confirmer is " ++
         "configured"
       txHash := answer.txHash, clientOrderIndex := answer.clientOrderIndex }, f)
  else
    match LighterAccountFeed.waitForOrderResting feedCfg answer.clientOrderIndex f answer.rounds with
    | (f, some order) =>
      ({ ok := true, restingConfirmed := true, message := answer.response, txHash := answer.txHash,
         clientOrderIndex := answer.clientOrderIndex, orderIndex := order.orderIndex }, f)
    | (f, none) =>
      ({ message := "lighter maker order was accepted by sendTx but did not reach confirmed " ++
           "resting state"
         txHash := answer.txHash, clientOrderIndex := answer.clientOrderIndex }, f)

/-- An order acknowledged as resting was in the table as resting when the wait last looked. -/
theorem placeLimitOrder_resting {feedCfg : AccountFeedConfig} {waiter : Bool}
    {f : LighterAccountFeed} {answer : LimitAnswer}
    (h : (placeLimitOrder feedCfg waiter false f answer).1.ok = true) :
    ∃ order, (placeLimitOrder feedCfg waiter false f answer).2.restingOrder
        answer.clientOrderIndex = some order ∧
      (placeLimitOrder feedCfg waiter false f answer).1.orderIndex = order.orderIndex := by
  unfold placeLimitOrder at h ⊢
  simp only [Bool.false_eq_true, if_false] at h ⊢
  split_ifs at h ⊢
  generalize hwait : LighterAccountFeed.waitForOrderResting feedCfg answer.clientOrderIndex f
    answer.rounds = r at h ⊢
  obtain ⟨f', waited⟩ := r
  cases waited with
  | none => cases h
  | some order =>
    have hseen := LighterAccountFeed.waitForOrderResting_eq_some (congrArg Prod.snd hwait)
    rw [hwait] at hseen
    exact ⟨order, hseen, rfl⟩

/-! ## The engine, its account feed and the exchange -/

structure LighterMakerSystem where
  engine : LighterMakerTakerEngine
  feed : LighterAccountFeed
  /-- The orders sent to the exchange. -/
  sent : Nat := 0

/-- A tick gives what happens while the placement blocks, if the tick places. -/
inductive LighterSystemEvent where
  | tick (nowMs : Int) (answer : LimitAnswer) (venues : Venues)
  | fill (fillPrice fillSizeBase : ℚ) (snapshot : SpreadSnapshot) (orderIndex : Int)
      (venues : Venues)
  | feed (e : FeedEvent)
  | accept (order : Nat) (orderIndex : Int)

def LighterSystemEvent.Delivers (e : LighterSystemEvent) (orderIndex : Int) (size : ℚ) : Prop :=
  match e with
  | .fill _ sz _ i _ => i = orderIndex ∧ sz = size
  | _ => False

inductive LighterSystemObs where
  | engine (o : LighterMakerObs)
  | placed (order : Nat) (ok : Bool)
  | accepted (order : Nat) (orderIndex : Int)
  deriving DecidableEq

namespace LighterMakerSystem

open LighterMaker LighterMakerTakerEngine

variable (cfg : EngineConfig) (feedCfg : AccountFeedConfig) (waiter : Bool)

def step (s : LighterMakerSystem) :
    LighterSystemEvent → LighterMakerSystem × List LighterSystemObs
  | .tick nowMs answer venues =>
    let (ack, feed) := placeLimitOrder feedCfg waiter cfg.dryRun s.feed answer
    let venues := { venues with lighter := { venues.lighter with placeLimitOrder := fun _ => ack } }
    let out := LighterMakerTakerEngine.step cfg s.engine (.tick nowMs venues)
    if out.2.any (·.isPlacement) then
      if answer.transmits && !cfg.dryRun then
        ({ engine := out.1, feed, sent := s.sent + 1 },
          out.2.map .engine ++ [.placed (s.sent + 1) (ack.ok && ack.restingConfirmed)])
      else ({ s with engine := out.1, feed }, out.2.map .engine)
    else ({ s with engine := out.1 }, out.2.map .engine)
  | .fill fillPrice size snapshot orderIndex venues =>
    let out := LighterMakerTakerEngine.step cfg s.engine
      (.fill fillPrice size snapshot orderIndex venues)
    ({ s with engine := out.1 }, out.2.map .engine)
  | .feed e => ({ s with feed := (s.feed.step feedCfg e).1 }, [])
  | .accept order orderIndex =>
    (s, if 0 < order ∧ order ≤ s.sent then [.accepted order orderIndex] else [])

def machine : EventMachine LighterMakerSystem LighterSystemEvent LighterSystemObs where
  step := step cfg feedCfg waiter

/-- The system as it starts: the account feed connecting. -/
def start (journalAttached : Bool) : LighterMakerSystem where
  engine := LighterMakerTakerEngine.start journalAttached
  feed := .start feedCfg

def engineObs (l : List LighterSystemObs) : List LighterMakerObs :=
  l.filterMap fun
    | .engine o => some o
    | _ => none

/-- The exchange accepted an order under `orderIndex` whose placement call returned not ok, and no
placement was confirmed resting under this index. -/
def Forgotten (l : List LighterSystemObs) (orderIndex : Int) : Prop :=
  (∃ order, .placed order false ∈ l ∧ .accepted order orderIndex ∈ l) ∧
    restingRequest orderIndex (engineObs l) = none

/-- The observation is an order on either exchange that answers a fill. -/
def isHedge : LighterMakerObs → Bool
  | .hlIoc _ _ => true
  | .ioc _ _ _ => true
  | _ => false

/-- A fill of a forgotten order makes the engine send an order. -/
def HedgesForgotten (past : List LighterSystemObs) (s : LighterMakerSystem)
    (e : LighterSystemEvent) : Prop :=
  ∀ orderIndex size, e.Delivers orderIndex size → Forgotten past orderIndex →
    (engineObs (step cfg feedCfg waiter s e).2).any isHedge = true

section Steps

variable {cfg feedCfg waiter} {s : LighterMakerSystem} {past : List LighterSystemObs}

@[simp] theorem engineObs_append (l l' : List LighterSystemObs) :
    engineObs (l ++ l') = engineObs l ++ engineObs l' := by
  simp [engineObs]

@[simp] theorem engineObs_map (l : List LighterMakerObs) : engineObs (l.map .engine) = l := by
  simp [engineObs, List.filterMap_map]

/-- A step of the system leaves the engine alone, or is a step of the engine. -/
theorem step_engine (s : LighterMakerSystem) (e : LighterSystemEvent) :
    (step cfg feedCfg waiter s e).1.engine = s.engine ∧
        engineObs (step cfg feedCfg waiter s e).2 = [] ∨
      ∃ e', (step cfg feedCfg waiter s e).1.engine =
          (LighterMakerTakerEngine.step cfg s.engine e').1 ∧
        engineObs (step cfg feedCfg waiter s e).2 =
          (LighterMakerTakerEngine.step cfg s.engine e').2 := by
  cases e with
  | tick nowMs answer venues =>
    refine .inr ⟨.tick nowMs { venues with lighter := { venues.lighter with
      placeLimitOrder := fun _ =>
        (placeLimitOrder feedCfg waiter cfg.dryRun s.feed answer).1 } }, ?_⟩
    simp only [step]
    split_ifs
    · exact ⟨rfl, by rw [engineObs_append, engineObs_map]; simp [engineObs]⟩
    · exact ⟨rfl, engineObs_map _⟩
    · exact ⟨rfl, engineObs_map _⟩
  | fill fillPrice size snapshot orderIndex venues => exact .inr ⟨_, rfl, engineObs_map _⟩
  | feed e => exact .inl ⟨rfl, rfl⟩
  | accept order orderIndex =>
    refine .inl ⟨rfl, ?_⟩
    simp only [step]
    split_ifs <;> rfl

/-- In every run the engine's active index is the open order. -/
theorem coupled_always (cfg : EngineConfig) (feedCfg : AccountFeedConfig) (waiter : Bool)
    (journalAttached : Bool) (es : List LighterSystemEvent) :
    (machine cfg feedCfg waiter).Always (start feedCfg journalAttached)
      (fun l s => LighterMaker.Coupled cfg (engineObs l) s.engine) es := by
  refine EventMachine.invariant_of_part (LighterMakerTakerEngine.machine cfg)
    LighterMakerSystem.engine engineObs (P := LighterMaker.Coupled cfg) engineObs_append
    step_engine ?_ ?_ es
  · exact LighterMaker.coupled_start cfg journalAttached
  · exact fun _ _ e h => h.step e

/-- A fill of a forgotten order is dropped. -/
theorem fill_forgotten (hcoupled : LighterMaker.Coupled cfg (engineObs past) s.engine)
    {orderIndex : Int} (hforgotten : Forgotten past orderIndex) (fillPrice size : ℚ)
    (snapshot : SpreadSnapshot) (venues : Venues) :
    step cfg feedCfg waiter s (.fill fillPrice size snapshot orderIndex venues) =
      (s, [.engine (.fill orderIndex size false)]) := by
  have hinactive : s.engine.activeLighterOrderIndex ≠ some orderIndex := by
    intro hactive
    obtain ⟨order, -, -, hrequest⟩ := hcoupled.held orderIndex hactive
    rw [hforgotten.2] at hrequest
    cases hrequest
  simp [step, LighterMakerTakerEngine.step, onLighterFill, hinactive]

theorem hedgesForgotten_iff (hcoupled : LighterMaker.Coupled cfg (engineObs past) s.engine)
    (e : LighterSystemEvent) :
    HedgesForgotten cfg feedCfg waiter past s e ↔
      ∀ orderIndex size, e.Delivers orderIndex size → ¬ Forgotten past orderIndex := by
  cases e with
  | fill fillPrice size snapshot orderIndex venues =>
    constructor
    · rintro h _ _ ⟨rfl, rfl⟩ hforgotten
      have hhedged := h orderIndex size ⟨rfl, rfl⟩ hforgotten
      rw [fill_forgotten hcoupled hforgotten] at hhedged
      cases hhedged
    · intro h i sz hdelivers hforgotten
      exact absurd hforgotten (h i sz hdelivers)
  | _ => exact iff_of_true (fun _ _ hd => hd.elim) (fun _ _ hd => hd.elim)

end Steps

/-- A run hedges every fill of a forgotten order exactly when none is delivered. -/
theorem forgottenHedged_iff (cfg : EngineConfig) (feedCfg : AccountFeedConfig) (waiter : Bool)
    (journalAttached : Bool) (es : List LighterSystemEvent) :
    (machine cfg feedCfg waiter).Throughout (start feedCfg journalAttached)
        (HedgesForgotten cfg feedCfg waiter) es ↔
      (machine cfg feedCfg waiter).Throughout (start feedCfg journalAttached)
        (fun past _ e => ∀ orderIndex size, e.Delivers orderIndex size →
          ¬ Forgotten past orderIndex) es :=
  (coupled_always cfg feedCfg waiter journalAttached es).throughout_congr
    fun _ _ e h => hedgesForgotten_iff h e

end LighterMakerSystem

end Arb
