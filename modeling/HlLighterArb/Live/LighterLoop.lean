import HlLighterArb.LighterMaker.Moves
import HlLighterArb.Live.Risk

/-!
# HlLighterArb.Live.LighterLoop

The live loop of `main` when Lighter is the maker venue. No fill feed is watched under this policy:
`fills_subscribed` is true, and the kill switch is latched and reset by the age of the quotes alone.
The main thread is the only one to touch the engine and the guard, so an iteration is its fills and
then one turn.

* `LighterLoop.turn`: an iteration behind its queue.
* `Sighted`, `Stale`: the snapshots a turn looks at, and those that are too old.
* `calls`: what a gate by the snapshot alone lets through to the engine.
* `lighter_loop_is_gate`: every run of the loop is the engine behind that gate; the kill switch only
  says how the last sighted snapshot looked.
-/

namespace Arb

/-- Both venues have a bid. -/
def SpreadSnapshot.Sighted (snap : SpreadSnapshot) : Prop :=
  0 < snap.hl.bid ∧ 0 < snap.lighter.bid

/-- A quote is older than five seconds. -/
def SpreadSnapshot.Stale (snap : SpreadSnapshot) : Prop :=
  5000 < snap.lighter.quoteAgeMs ∨ 5000 < snap.hl.quoteAgeMs

instance (snap : SpreadSnapshot) : Decidable snap.Sighted := inferInstanceAs (Decidable (_ ∧ _))

instance (snap : SpreadSnapshot) : Decidable snap.Stale := inferInstanceAs (Decidable (_ ∨ _))

structure LighterLoop where
  engine : LighterMakerTakerEngine := {}
  risk : RiskGuard := {}

inductive LighterLoopEvent where
  | fill (fillPrice fillSizeBase : ℚ) (snapshot : SpreadSnapshot) (orderIndex : Int)
      (venues : Venues)
  | turn (snap : SpreadSnapshot) (nowMs : Int) (venues : Venues)

namespace LighterLoop

def staleReason : String := "stale quotes detected"

/-- The stale-quote check of an iteration. -/
def checkQuotes (risk : RiskGuard) (snap : SpreadSnapshot) : RiskGuard :=
  if snap.Stale then
    if ¬ risk.killSwitch then risk.activateKillSwitch staleReason else risk
  else if risk.killSwitch ∧ risk.killSwitchReason = staleReason then risk.resetKillSwitch
  else risk

def call (cfg : EngineConfig) (s : LighterLoop) (e : LighterMakerEvent) :
    LighterLoop × List LighterMakerObs :=
  ({ s with engine := (s.engine.step cfg e).1 }, (s.engine.step cfg e).2)

/-- An iteration behind its queue. -/
def turn (cfg : EngineConfig) (s : LighterLoop) (snap : SpreadSnapshot) (nowMs : Int)
    (venues : Venues) : LighterLoop × List LighterMakerObs :=
  if snap.hl.bid ≤ 0 ∨ snap.lighter.bid ≤ 0 then (s, [])
  else
    let s := { s with risk := checkQuotes s.risk snap }
    if snap.Stale ∨ s.risk.killSwitch then (s, [])
    else s.call cfg (.tick nowMs venues)

def step (cfg : EngineConfig) (s : LighterLoop) :
    LighterLoopEvent → LighterLoop × List LighterMakerObs
  | .fill fillPrice fillSizeBase snapshot orderIndex venues =>
    s.call cfg (.fill fillPrice fillSizeBase snapshot orderIndex venues)
  | .turn snap nowMs venues => s.turn cfg snap nowMs venues

def machine (cfg : EngineConfig) :
    EventMachine LighterLoop LighterLoopEvent LighterMakerObs := ⟨step cfg⟩

/-! ## The gate -/

/-- The calls of an iteration, by its snapshot alone. -/
def calls : LighterLoopEvent → List LighterMakerEvent
  | .fill fillPrice fillSizeBase snapshot orderIndex venues =>
    [.fill fillPrice fillSizeBase snapshot orderIndex venues]
  | .turn snap nowMs venues =>
    if snap.Sighted ∧ ¬ snap.Stale then [.tick nowMs venues] else []

/-- The switch has one reason, when it is on. -/
def OnlyStale (s : LighterLoop) : Prop :=
  s.risk.killSwitch = true → s.risk.killSwitchReason = staleReason

theorem checkQuotes_stale {risk : RiskGuard} {snap : SpreadSnapshot}
    (honly : risk.killSwitch = true → risk.killSwitchReason = staleReason) :
    (checkQuotes risk snap).killSwitch = decide snap.Stale ∧
      ((checkQuotes risk snap).killSwitch = true →
        (checkQuotes risk snap).killSwitchReason = staleReason) := by
  unfold checkQuotes
  by_cases hstale : snap.Stale
  · rw [if_pos hstale, decide_eq_true hstale]
    split_ifs with hon
    · exact ⟨hon, honly⟩
    · exact ⟨rfl, fun _ => rfl⟩
  · rw [if_neg hstale, decide_eq_false hstale]
    split_ifs with hon
    · exact ⟨rfl, nofun⟩
    · have hoff : risk.killSwitch = false := by
        cases hswitch : risk.killSwitch with
        | false => rfl
        | true => exact absurd ⟨hswitch, honly hswitch⟩ hon
      exact ⟨hoff, honly⟩

/-- A turn ticks the engine when its snapshot is sighted and fresh, whatever came before. -/
theorem turn_eq (cfg : EngineConfig) {s : LighterLoop} (honly : s.OnlyStale)
    (snap : SpreadSnapshot) (nowMs : Int) (venues : Venues) :
    s.turn cfg snap nowMs venues =
      if snap.Sighted then
        if snap.Stale then ({ s with risk := checkQuotes s.risk snap }, [])
        else { s with risk := checkQuotes s.risk snap }.call cfg (.tick nowMs venues)
      else (s, []) := by
  have hsighted : snap.hl.bid ≤ 0 ∨ snap.lighter.bid ≤ 0 ↔ ¬ snap.Sighted := by
    rw [SpreadSnapshot.Sighted, not_and_or, not_lt, not_lt]
  have hswitch := (@checkQuotes_stale s.risk snap honly).1
  unfold turn
  by_cases hs : snap.Sighted
  · rw [if_neg (mt hsighted.mp (not_not.mpr hs)), if_pos hs]
    simp only [hswitch, decide_eq_true_eq, or_self]
  · rw [if_pos (hsighted.mpr hs), if_neg hs]

/-- What the guard remembers is how the last sighted snapshot looked. -/
def lastStale (es : List LighterLoopEvent) : Bool :=
  es.foldl (fun stale e => match e with
    | .turn snap _ _ => if snap.Sighted then decide snap.Stale else stale
    | _ => stale) false

theorem lastStale_snoc (es : List LighterLoopEvent) (e : LighterLoopEvent) :
    lastStale (es ++ [e]) = match e with
      | .turn snap _ _ => if snap.Sighted then decide snap.Stale else lastStale es
      | _ => lastStale es := by
  rw [lastStale, List.foldl_append]
  rfl

/-- One event of the loop is the calls the gate lets through. -/
theorem step_gate (cfg : EngineConfig) {s : LighterLoop} (honly : s.OnlyStale)
    (e : LighterLoopEvent) :
    (s.step cfg e).1.OnlyStale ∧
      (s.step cfg e).1.engine = (LighterMakerTakerEngine.machine cfg).final s.engine (calls e) ∧
      (s.step cfg e).2 = (LighterMakerTakerEngine.machine cfg).obs s.engine (calls e) ∧
      (s.step cfg e).1.risk.killSwitch = match e with
        | .turn snap _ _ => if snap.Sighted then decide snap.Stale else s.risk.killSwitch
        | _ => s.risk.killSwitch := by
  cases e with
  | fill fillPrice fillSizeBase snapshot orderIndex venues =>
    exact ⟨honly, rfl, (List.append_nil _).symm, rfl⟩
  | turn snap nowMs venues =>
    obtain ⟨hswitch, hreason⟩ := @checkQuotes_stale s.risk snap honly
    simp only [step, turn_eq cfg honly, calls]
    by_cases hsighted : snap.Sighted
    · by_cases hstale : snap.Stale
      · rw [if_pos hsighted, if_pos hstale, if_neg fun h => h.2 hstale, if_pos hsighted]
        exact ⟨hreason, rfl, rfl, hswitch⟩
      · rw [if_pos hsighted, if_neg hstale, if_pos ⟨hsighted, hstale⟩, if_pos hsighted]
        exact ⟨hreason, rfl, (List.append_nil _).symm, hswitch⟩
    · rw [if_neg hsighted, if_neg fun h => hsighted h.1, if_neg hsighted]
      exact ⟨honly, rfl, rfl, rfl⟩

/-- Over a run the loop is its engine behind a gate that remembers nothing: fills pass, and a tick
passes with each snapshot that is sighted and fresh. -/
theorem lighter_loop_is_gate (cfg : EngineConfig) (engine : LighterMakerTakerEngine)
    (es : List LighterLoopEvent) :
    ((machine cfg).final { engine } es).engine =
        (LighterMakerTakerEngine.machine cfg).final engine (es.flatMap calls) ∧
      (machine cfg).obs { engine } es =
        (LighterMakerTakerEngine.machine cfg).obs engine (es.flatMap calls) ∧
      ((machine cfg).final { engine } es).risk.killSwitch = lastStale es := by
  have hrun : ((machine cfg).final { engine } es).OnlyStale ∧
      ((machine cfg).final { engine } es).engine =
        (LighterMakerTakerEngine.machine cfg).final engine (es.flatMap calls) ∧
      (machine cfg).obs { engine } es =
        (LighterMakerTakerEngine.machine cfg).obs engine (es.flatMap calls) ∧
      ((machine cfg).final { engine } es).risk.killSwitch = lastStale es := by
    induction es using List.reverseRecOn with
    | nil => exact ⟨nofun, rfl, rfl, rfl⟩
    | append_singleton es e ih =>
      obtain ⟨honly, hengine, hobs, hswitch⟩ := ih
      obtain ⟨honly', hengine', hobs', hswitch'⟩ := step_gate cfg honly e
      rw [List.flatMap_append, List.flatMap_singleton, EventMachine.final_snoc,
        EventMachine.obs_snoc, EventMachine.final_append, EventMachine.obs_append, ← hengine,
        ← hobs, lastStale_snoc, ← hswitch]
      exact ⟨honly', hengine', congrArg _ hobs', hswitch'⟩
  exact hrun.2

end LighterLoop

end Arb
