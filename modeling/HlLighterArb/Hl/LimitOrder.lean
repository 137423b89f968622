import HlLighterArb.Maker.Fills
import HlLighterArb.Ws.HlWsPost

/-!
# HlLighterArb.Hl.LimitOrder

The HL placements of `MakerHedgeEngine` down to the exchange. `place_limit_order` posts the action,
blocks until `post_action` returns, and reads an oid out of the body; a timeout or a disconnect ends
the call with a body that has none. The exchange accepts a request at any moment after the transport
wrote it, and reports the fills of the order under the oid it gave it.

* `postAction_returns`: the call returns, however the io thread moves meanwhile.
* `Forgotten`: the exchange accepted an order whose placement call returned not ok.
* `forgottenHedged_iff`: a run hedges every fill of a forgotten order exactly when there is none.
-/

namespace Arb

/-! ## Reading the body -/

/-- `"resting":\x7b"oid":([0-9]+)\x7d` -/
def restingOid (body : List Char) : Option (List Char) :=
  Text.readAfter "\"resting\":\x7b\"oid\":".toList
    (fun s =>
      if Text.digits s ≠ [] ∧ (Text.afterDigits s).head? = some '\x7d' then some (Text.digits s)
      else none)
    body

/-- `"filled":\x7b[^\x7d]*"oid":([0-9]+)`, where the first star takes as much as it can. -/
def filledOid (body : List Char) : Option (List Char) :=
  Text.readAfter "\"filled\":\x7b".toList
    (fun s => Text.readAfterLast "\"oid\":".toList
      (fun s => if Text.digits s ≠ [] then some (Text.digits s) else none)
      (s.takeWhile (· ≠ '\x7d')))
    body

def limitOrderAck (body : String) : HlLimitOrderAck :=
  match (restingOid body.toList).or (filledOid body.toList) with
  | some oid => { ok := true, message := "ok", oid := String.ofList oid }
  | none => { ok := false, message := body }

def dryRunLimitAck : HlLimitOrderAck where
  ok := true
  message := "dry-run"
  oid := "dry_oid"

/-! ## Posting the action -/

namespace HlWsPostTransport

/-- What happens during a call of `post_action`: it registers and sends, the io thread moves, and
the wait ends with the response or by running out. -/
def posting (t : HlWsPostTransport) (payload : String) (during : List PostEvent) : List PostEvent :=
  [.post payload, .submit t.nextId] ++ during ++ [.wake t.nextId, .timeout t.nextId]

/-- The body that call `id` has returned. -/
def bodyOf (t : HlWsPostTransport) (id : Nat) : Option String :=
  match t.phase id with
  | some (.returned body) => some body
  | _ => none

theorem bodyOf_returned {t : HlWsPostTransport} {id : Nat} {body : String}
    (h : t.phase id = some (.returned body)) : t.bodyOf id = some body := by
  simp [bodyOf, h]

/-- A call that waits or has returned goes on to do so. -/
theorem Move.pending {t t' : HlWsPostTransport} {obs : List PostObs} {id : Nat}
    (m : Move t t' obs) (hreach : Reach t)
    (h : t.phase id = some .waiting ∨ ∃ body, t.phase id = some (.returned body)) :
    t'.phase id = some .waiting ∨ ∃ body, t'.phase id = some (.returned body) := by
  rcases h with h | ⟨body, h⟩
  · cases m with
    | quiet | io => exact .inl h
    | post payload =>
      have hne : id ≠ t.nextId := (hreach.fresh id (by rw [h]; exact Option.some_ne_none _)).ne
      exact .inl ((phase_setCall_ne hne).trans h)
    | submit id' call hphase =>
      have hne : id ≠ id' := by
        rintro rfl
        rw [hphase] at h
        cases h
      exact .inl ((phase_setCall_ne hne).trans h)
    | returns id' call body pending hphase =>
      by_cases heq : id = id'
      · subst heq
        exact .inr ⟨body, phase_setCall_self⟩
      · exact .inl ((phase_setCall_ne heq).trans h)
    | responses => exact .inl ((phase_respond (t := t)).trans h)
  · exact .inr ⟨body, m.stays_returned hreach h⟩

/-- A call that waits returns when its response is ready or its wait runs out. -/
theorem wait_ends {t : HlWsPostTransport} {id : Nat} (h : t.phase id = some .waiting) :
    ∃ body, ((t.wake id).1.timeout id).1.phase id = some (.returned body) := by
  cases hcall : t.calls id with
  | none => simp [phase, hcall] at h
  | some call =>
    obtain ⟨payload, phase, response⟩ := call
    obtain rfl : phase = .waiting := by simpa [HlWsPostTransport.phase, hcall] using h
    cases response with
    | none =>
      have hwake : t.wake id = (t, []) := by simp [wake, hcall]
      refine ⟨makeErrorBody "ws_post_timeout", ?_⟩
      rw [hwake]
      simp only [timeout, hcall]
      exact phase_setCall_self
    | some body =>
      have hwake : (t.wake id).1.phase id = some (.returned body) := by
        simp only [wake, hcall]
        exact phase_setCall_self
      refine ⟨body, ?_⟩
      rcases timeout_cases (t.wake id).1 id with hstill | ⟨hwaiting, -⟩
      · rw [hstill]
        exact hwake
      · rw [hwake] at hwaiting
        cases hwaiting

/-- `post_action` returns, however the io thread and other calls move meanwhile. -/
theorem postAction_returns {t : HlWsPostTransport} (hreach : Reach t) (payload : String)
    (during : List PostEvent) :
    ∃ body, (machine.final t (t.posting payload during)).bodyOf t.nextId = some body := by
  have hposted : (t.post payload).phase t.nextId = some .registered := phase_setCall_self
  have hcall : (t.post payload).calls t.nextId = some { payload } := by
    simp [post, setCall]
  have hsent : ((t.post payload).submit t.nextId).phase t.nextId = some .waiting := by
    simp only [submit, hcall]
    exact phase_setCall_self
  have hreach' : Reach ((t.post payload).submit t.nextId) :=
    (step_move _ (.submit t.nextId)).reach ((step_move t (.post payload)).reach hreach)
  -- the call waits or has returned all the while
  have hpending := (machine.invariant (P := fun _ t' => Reach t' ∧
      (t'.phase t.nextId = some .waiting ∨ ∃ body, t'.phase t.nextId = some (.returned body)))
    ⟨hreach', .inl hsent⟩
    (fun _ t' e h => ⟨(step_move t' e).reach h.1, (step_move t' e).pending h.1 h.2⟩) during).last
  obtain ⟨hreachEnd, hphase⟩ := hpending
  generalize hend : machine.final ((t.post payload).submit t.nextId) during = t' at *
  have hfinal : machine.final t (t.posting payload during) =
      ((t'.wake t.nextId).1.timeout t.nextId).1 := by
    simp only [posting, List.cons_append, List.nil_append,
      EventMachine.final_cons, EventMachine.final_append, machine_step, step,
      EventMachine.final_nil, hend]
  rw [hfinal]
  rcases hphase with hwaiting | ⟨body, hreturned⟩
  · obtain ⟨body, hbody⟩ := wait_ends hwaiting
    exact ⟨body, bodyOf_returned hbody⟩
  · have hwoken := (step_move t' (.wake t.nextId)).stays_returned hreachEnd hreturned
    have hdone := (step_move _ (.timeout t.nextId)).stays_returned
      ((step_move t' (.wake t.nextId)).reach hreachEnd) hwoken
    exact ⟨body, bodyOf_returned hdone⟩

end HlWsPostTransport

/-! ## The engine, its transport and the exchange -/

structure HlMakerSystem where
  engine : MakerHedgeEngine
  transport : HlWsPostTransport := {}
  /-- The requests the transport has written. -/
  written : List Nat := []

/-- A tick gives what the io thread does while the placement blocks, if the tick places. -/
inductive HlSystemEvent where
  | tick (nowMs : Int) (payload : String) (during : List PostEvent) (venues : Venues)
  | trade (trade : TradeEvent) (venues : Venues)
  | fill (fillPrice fillSizeBase : ℚ) (snapshot : SpreadSnapshot) (oid : String) (hlFee : ℚ)
      (venues : Venues)
  | transport (e : PostEvent)
  | accept (id : Nat) (oid : String)

def HlSystemEvent.Delivers (e : HlSystemEvent) (oid : String) (size : ℚ) : Prop :=
  match e with
  | .fill _ sz _ o _ _ => o = oid ∧ sz = size
  | _ => False

inductive HlSystemObs where
  | engine (o : MakerObs)
  | placed (id : Nat) (ok : Bool)
  | accepted (id : Nat) (oid : String)
  deriving DecidableEq

namespace HlMakerSystem

open MakerHedgeEngine

/-- The requests of these observations. -/
def writtenIds (l : List PostObs) : List Nat :=
  l.filterMap fun
    | .wrote r => some r.id
    | .returned _ _ => none

/-- The acknowledgement of a placement whose request is posted while `during` happens. -/
def placementAck (cfg : EngineConfig) (t : HlWsPostTransport) (payload : String)
    (during : List PostEvent) : HlLimitOrderAck :=
  if cfg.dryRun then dryRunLimitAck
  else limitOrderAck (((HlWsPostTransport.machine.final t (t.posting payload during)).bodyOf
    t.nextId).getD "")

def step (cfg : EngineConfig) (s : HlMakerSystem) :
    HlSystemEvent → HlMakerSystem × List HlSystemObs
  | .tick nowMs payload during venues =>
    let ack := placementAck cfg s.transport payload during
    let venues := { venues with hl := { venues.hl with placeLimitOrder := fun _ => ack } }
    let out := MakerHedgeEngine.step cfg s.engine (.tick nowMs venues)
    if out.2.any (·.isPlacement) && !cfg.dryRun then
      let es := s.transport.posting payload during
      ({ engine := out.1
         transport := HlWsPostTransport.machine.final s.transport es
         written := s.written ++ writtenIds (HlWsPostTransport.machine.obs s.transport es) },
        out.2.map .engine ++ [.placed s.transport.nextId ack.ok])
    else ({ s with engine := out.1 }, out.2.map .engine)
  | .trade trade venues =>
    let out := MakerHedgeEngine.step cfg s.engine (.trade trade venues)
    ({ s with engine := out.1 }, out.2.map .engine)
  | .fill fillPrice size snapshot oid hlFee venues =>
    let out := MakerHedgeEngine.step cfg s.engine (.fill fillPrice size snapshot oid hlFee venues)
    ({ s with engine := out.1 }, out.2.map .engine)
  | .transport e =>
    ({ s with
        transport := (s.transport.step e).1
        written := s.written ++ writtenIds (s.transport.step e).2 }, [])
  | .accept id oid => (s, if id ∈ s.written then [.accepted id oid] else [])

def machine (cfg : EngineConfig) : EventMachine HlMakerSystem HlSystemEvent HlSystemObs where
  step := step cfg

/-- The system as it starts: the engine synced to the HL position `p₀`, the transport connecting. -/
def start (journalAttached : Bool) (p₀ : ℚ) : HlMakerSystem where
  engine := MakerHedgeEngine.start journalAttached p₀

def engineObs (l : List HlSystemObs) : List MakerObs :=
  l.filterMap fun
    | .engine o => some o
    | _ => none

/-- The exchange accepted an order under `oid` whose placement call returned not ok, and no
placement was acknowledged under this oid. -/
def Forgotten (l : List HlSystemObs) (oid : String) : Prop :=
  (∃ id, .placed id false ∈ l ∧ .accepted id oid ∈ l) ∧ oid ∉ ackedOids (engineObs l)

/-- The observation is an order on either exchange that answers a fill. -/
def isHedge : MakerObs → Bool
  | .ioc _ _ _ => true
  | .reduce _ _ _ => true
  | _ => false

/-- A fill of a forgotten order makes the engine send an order. -/
def HedgesForgotten (cfg : EngineConfig) (past : List HlSystemObs) (s : HlMakerSystem)
    (e : HlSystemEvent) : Prop :=
  ∀ oid size, e.Delivers oid size → Forgotten past oid →
    (engineObs (step cfg s e).2).any isHedge = true

section Steps

variable {cfg : EngineConfig} {s : HlMakerSystem} {past : List HlSystemObs}

@[simp] theorem engineObs_append (l l' : List HlSystemObs) :
    engineObs (l ++ l') = engineObs l ++ engineObs l' := by
  simp [engineObs]

@[simp] theorem engineObs_map (l : List MakerObs) : engineObs (l.map .engine) = l := by
  simp [engineObs, List.filterMap_map]

/-- A step of the system leaves the engine alone, or is a step of the engine. -/
theorem step_engine (s : HlMakerSystem) (e : HlSystemEvent) :
    (step cfg s e).1.engine = s.engine ∧ engineObs (step cfg s e).2 = [] ∨
      ∃ e', (step cfg s e).1.engine = (MakerHedgeEngine.step cfg s.engine e').1 ∧
        engineObs (step cfg s e).2 = (MakerHedgeEngine.step cfg s.engine e').2 := by
  cases e with
  | tick nowMs payload during venues =>
    refine .inr ⟨.tick nowMs { venues with hl := { venues.hl with
      placeLimitOrder := fun _ => placementAck cfg s.transport payload during } }, ?_⟩
    simp only [step]
    split_ifs
    · exact ⟨rfl, by rw [engineObs_append, engineObs_map]; simp [engineObs]⟩
    · exact ⟨rfl, engineObs_map _⟩
  | trade trade venues => exact .inr ⟨_, rfl, engineObs_map _⟩
  | fill fillPrice size snapshot oid hlFee venues => exact .inr ⟨_, rfl, engineObs_map _⟩
  | transport e => exact .inl ⟨rfl, rfl⟩
  | accept id oid =>
    refine .inl ⟨rfl, ?_⟩
    simp only [step]
    split_ifs <;> rfl

/-- In every run the engine's fields are those of the order acknowledged last. -/
theorem followsOrder_always (cfg : EngineConfig) (journalAttached : Bool) (p₀ : ℚ)
    (es : List HlSystemEvent) :
    (machine cfg).Always (start journalAttached p₀)
      (fun l s => DeferredMaker s.engine ∧ FollowsOrder (orderLife (engineObs l)) s.engine) es := by
  refine EventMachine.invariant_of_part (MakerHedgeEngine.machine cfg) HlMakerSystem.engine
    engineObs (P := fun l t => DeferredMaker t ∧ FollowsOrder (orderLife l) t) engineObs_append
    step_engine ?_ ?_ es
  · exact ⟨.of_none rfl, followsOrder_start journalAttached p₀⟩
  · rintro l t e ⟨hdef, hfollows⟩
    exact followsOrder_step hdef hfollows e

/-- A fill of a forgotten order is dropped. -/
theorem fill_forgotten (hfollows : FollowsOrder (orderLife (engineObs past)) s.engine)
    {oid : String} (hforgotten : Forgotten past oid) (fillPrice size : ℚ)
    (snapshot : SpreadSnapshot) (hlFee : ℚ) (venues : Venues) :
    step cfg s (.fill fillPrice size snapshot oid hlFee venues) =
      (s, [.engine (.fill oid size .unknownOid)]) := by
  have hpath : s.engine.fillPath oid size = .unknownOid :=
    hfollows.unknown_iff.mpr fun hlast => hforgotten.2 (OrderLife.last_acked hlast)
  simp [step, MakerHedgeEngine.step, onHlFill, hpath]

theorem hedgesForgotten_iff (hfollows : FollowsOrder (orderLife (engineObs past)) s.engine)
    (e : HlSystemEvent) :
    HedgesForgotten cfg past s e ↔ ∀ oid size, e.Delivers oid size → ¬ Forgotten past oid := by
  cases e with
  | fill fillPrice size snapshot oid hlFee venues =>
    constructor
    · rintro h _ _ ⟨rfl, rfl⟩ hforgotten
      have hhedged := h oid size ⟨rfl, rfl⟩ hforgotten
      rw [fill_forgotten hfollows hforgotten] at hhedged
      cases hhedged
    · intro h o sz hdelivers hforgotten
      exact absurd hforgotten (h o sz hdelivers)
  | _ => exact iff_of_true (fun _ _ hd => hd.elim) (fun _ _ hd => hd.elim)

end Steps

/-- A run hedges every fill of a forgotten order exactly when none is delivered. -/
theorem forgottenHedged_iff (cfg : EngineConfig) (journalAttached : Bool) (p₀ : ℚ)
    (es : List HlSystemEvent) :
    (machine cfg).Throughout (start journalAttached p₀) (HedgesForgotten cfg) es ↔
      (machine cfg).Throughout (start journalAttached p₀)
        (fun past _ e => ∀ oid size, e.Delivers oid size → ¬ Forgotten past oid) es :=
  (followsOrder_always cfg journalAttached p₀ es).throughout_congr
    fun _ _ e h => hedgesForgotten_iff h.2 e

end HlMakerSystem

end Arb
