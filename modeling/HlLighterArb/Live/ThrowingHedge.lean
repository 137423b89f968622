import HlLighterArb.Lighter.IocConfirmation
import HlLighterArb.Live.Loop
import HlLighterArb.Maker.Fills

/-!
# HlLighterArb.Live.ThrowingHedge

A hedge that ends with an exception. `place_ioc_order` can throw on either side of its send, and
neither `on_hl_fill` nor the drain of the fill queue catches anything: the fill has left the queue,
and the exception leaves `main`.

* `placeIocOrder`: the call with its exceptions; `IocThrows` lists where they come from.
* `handled_iff`: the HL leg of a fill is taken back exactly when the call returns unconfirmed.
* `throw_unhandled`: after an exception it never is.
-/

namespace Arb

/-! ## `place_ioc_order` -/

/-- What the steps of one call come back with, in their order. -/
structure IocAnswers where
  client : Except String Unit := .ok ()
  baseline : Except String LighterPositionSnapshot := .ok {}
  nonce : Except String Nat := .ok 1
  signError : String := ""
  txHash : String := ""
  response : Except String String := .ok ""
  /-- What the position waiter returns, when one was set. -/
  waited : Option (Option LighterPositionSnapshot) := none
  after : Except String LighterPositionSnapshot := .ok {}

/-- The snapshot that shows the fill, and how many times it was looked for. -/
def confirmation (a : IocAnswers) (before : LighterPositionSnapshot) :
    Except String (Nat × Option LighterPositionSnapshot) :=
  match a.waited with
  | some (some snap) => .ok (1, some snap)
  | waited => do
    let snap ← a.after
    .ok (if waited.isSome then 2 else 1,
      if 0.001 < |snap.size - before.size| then some snap else none)

def placeIocOrder (request : LighterIocRequest) (a : IocAnswers) : Except String LighterIocAck :=
  if request.dryRun then .ok (dryRunAck request)
  else do
    a.client
    let before ← a.baseline
    let _ ← a.nonce
    if a.signError ≠ "" then .ok { message := a.signError }
    else do
      let response ← a.response
      if ¬ txResponseOk response.toList then .ok { message := response, txHash := a.txHash }
      else do
        let txHash ← confirmedTxHash response.toList a.txHash
        let _ ← predictedExecutionMs response.toList
        let (attempts, snap) ← confirmation a before
        .ok (confirmAck request before response txHash attempts snap)

/-- The call has taken its nonce behind the baseline `before`. -/
structure Numbered (a : IocAnswers) (before : LighterPositionSnapshot) : Prop where
  made : a.client = .ok ()
  based : a.baseline = .ok before
  took : ∃ n, a.nonce = .ok n

/-- The exchange has answered the transaction of the call, and accepted it. -/
structure Accepted (a : IocAnswers) (before : LighterPositionSnapshot) (response : String) : Prop
    extends Numbered a before where
  signed : a.signError = ""
  answered : a.response = .ok response
  accepted : txResponseOk response.toList = true

/-- Where a call throws; `sent` says whether it had sent its transaction. -/
inductive IocThrows (a : IocAnswers) : (sent : Bool) → String → Prop where
  | client {error : String} (throws : a.client = .error error) : IocThrows a false error
  | baseline {error : String} (made : a.client = .ok ()) (throws : a.baseline = .error error) :
      IocThrows a false error
  | nonce {error : String} {before : LighterPositionSnapshot} (made : a.client = .ok ())
      (based : a.baseline = .ok before) (throws : a.nonce = .error error) : IocThrows a false error
  | send {error : String} {before : LighterPositionSnapshot} (numbered : Numbered a before)
      (signed : a.signError = "") (throws : a.response = .error error) : IocThrows a true error
  | hash {error response : String} {before : LighterPositionSnapshot}
      (accepted : Accepted a before response)
      (throws : confirmedTxHash response.toList a.txHash = .error error) : IocThrows a true error
  | predicted {error response hash : String} {before : LighterPositionSnapshot}
      (accepted : Accepted a before response)
      (hashed : confirmedTxHash response.toList a.txHash = .ok hash)
      (throws : predictedExecutionMs response.toList = .error error) : IocThrows a true error
  | after {error response hash : String} {before : LighterPositionSnapshot} {ms : Option Nat}
      (accepted : Accepted a before response)
      (hashed : confirmedTxHash response.toList a.txHash = .ok hash)
      (timed : predictedExecutionMs response.toList = .ok ms)
      (throws : confirmation a before = .error error) : IocThrows a true error

theorem bind_eq_error_iff {α β : Type} {x : Except String α} {f : α → Except String β}
    {error : String} :
    x >>= f = .error error ↔ x = .error error ∨ ∃ v, x = .ok v ∧ f v = .error error := by
  cases x with
  | error e => simp [bind, Except.bind]
  | ok v => simp [bind, Except.bind]

theorem placeIocOrder_error_iff {request : LighterIocRequest} (hlive : request.dryRun = false)
    (a : IocAnswers) (error : String) :
    placeIocOrder request a = .error error ↔ ∃ sent, IocThrows a sent error := by
  simp only [placeIocOrder, hlive, Bool.false_eq_true, if_false]
  constructor
  · intro h
    rcases bind_eq_error_iff.mp h with hclient | ⟨⟨⟩, hclient, h⟩
    · exact ⟨false, .client hclient⟩
    rcases bind_eq_error_iff.mp h with hbaseline | ⟨before, hbaseline, h⟩
    · exact ⟨false, .baseline hclient hbaseline⟩
    rcases bind_eq_error_iff.mp h with hnonce | ⟨n, hnonce, h⟩
    · exact ⟨false, .nonce hclient hbaseline hnonce⟩
    split_ifs at h with hsigned
    have hnumbered : Numbered a before := ⟨hclient, hbaseline, n, hnonce⟩
    rcases bind_eq_error_iff.mp h with hresponse | ⟨response, hresponse, h⟩
    · exact ⟨true, .send hnumbered (not_not.mp hsigned) hresponse⟩
    split_ifs at h with hok
    have haccepted : Accepted a before response :=
      ⟨hnumbered, not_not.mp hsigned, hresponse, by simpa using hok⟩
    rcases bind_eq_error_iff.mp h with hhash | ⟨hash, hhash, h⟩
    · exact ⟨true, .hash haccepted hhash⟩
    rcases bind_eq_error_iff.mp h with htimed | ⟨ms, htimed, h⟩
    · exact ⟨true, .predicted haccepted hhash htimed⟩
    rcases bind_eq_error_iff.mp h with hafter | ⟨found, -, h⟩
    · exact ⟨true, .after haccepted hhash htimed hafter⟩
    · cases h
  · rintro ⟨sent, h⟩
    cases h with
    | client throws => rw [throws]; rfl
    | baseline made throws => rw [made, throws]; rfl
    | nonce made based throws => rw [made, based, throws]; rfl
    | send numbered signed throws =>
      obtain ⟨made, based, n, took⟩ := numbered
      simp [made, based, took, signed, throws, bind, Except.bind]
    | hash accepted throws =>
      obtain ⟨⟨made, based, n, took⟩, signed, answered, ok⟩ := accepted
      simp [made, based, took, signed, answered, ok, throws, bind, Except.bind]
    | predicted accepted hashed throws =>
      obtain ⟨⟨made, based, n, took⟩, signed, answered, ok⟩ := accepted
      simp [made, based, took, signed, answered, ok, hashed, throws, bind, Except.bind]
    | after accepted hashed timed throws =>
      obtain ⟨⟨made, based, n, took⟩, signed, answered, ok⟩ := accepted
      simp [made, based, took, signed, answered, ok, hashed, timed, throws, bind, Except.bind]

/-! ## The drain of the fill queue -/

/-- A `FillEvent`, less what the loop only logs. -/
structure QueuedFill where
  price : ℚ
  size : ℚ
  oid : String
  fee : ℚ

namespace MakerHedgeEngine

/-- The Lighter order that `on_hl_fill` places on its way. -/
def fillIoc (cfg : EngineConfig) (s : MakerHedgeEngine) (fill : QueuedFill)
    (snapshot : SpreadSnapshot) : Option LighterIocRequest :=
  match s.fillPath fill.oid fill.size with
  | .unknownOid => none
  | .perfectMatch => none
  | .correction => some (iocRequest cfg snapshot s.lastMakerDirection.isBuyHl 10
      (fill.size - s.speculativeHedgeSize))
  | .overshoot => some (iocRequest cfg snapshot (!s.lastMakerDirection.isBuyHl) 15
      (-(fill.size - s.speculativeHedgeSize)))
  | .hedge => some (iocRequest cfg snapshot s.lastMakerDirection.isBuyHl 10 fill.size)

end MakerHedgeEngine

structure LiveProcess where
  loop : LiveLoop := {}
  /-- `g_fill_queue` -/
  queue : List QueuedFill := []
  /-- The exception that left `main`. -/
  died : Option String := none

/-- Fills reach the loop through its queue only. -/
inductive ProcessEvent where
  | queued (fill : QueuedFill)
  | drain (snapshot : SpreadSnapshot) (venues : Venues) (answers : IocAnswers)
  | loop (e : LoopEvent)

/-- Lighter gives this acknowledgement. -/
def Venues.acking (venues : Venues) (ack : LighterIocAck) : Venues :=
  { venues with lighter := { venues.lighter with placeIocOrder := fun _ => ack } }

namespace LiveProcess

/-- The front of the queue is popped, then handed to the engine. -/
def drain (cfg : EngineConfig) (p : LiveProcess) (snapshot : SpreadSnapshot) (venues : Venues)
    (answers : IocAnswers) : LiveProcess × List LoopObs :=
  match p.loop.pc, p.queue with
  | .drainFills, fill :: rest =>
    let handle (venues : Venues) : LiveProcess × List LoopObs :=
      let (loop, obs) := p.loop.call cfg
        (.fill fill.price fill.size snapshot fill.oid fill.fee venues)
      ({ p with loop, queue := rest }, obs)
    match p.loop.engine.fillIoc cfg fill snapshot with
    | none => handle venues
    | some request =>
      match placeIocOrder request answers with
      | .ok ack => handle (venues.acking ack)
      -- up to the call the engine has changed nothing but its performance trace
      | .error error => ({ p with queue := rest, died := some error }, [])
  | _, _ => (p, [])

def step (cfg : EngineConfig) (p : LiveProcess) (e : ProcessEvent) : LiveProcess × List LoopObs :=
  match p.died with
  | some _ => (p, [])
  | none =>
    match e with
    | .queued fill => ({ p with queue := p.queue ++ [fill] }, [])
    | .drain snapshot venues answers => p.drain cfg snapshot venues answers
    | .loop (.fill _ _ _ _ _ _) => (p, [])
    | .loop e => ({ p with loop := (p.loop.step cfg e).1 }, (p.loop.step cfg e).2)

def machine (cfg : EngineConfig) : EventMachine LiveProcess ProcessEvent LoopObs where
  step := step cfg

/-- The HL leg of the fill has been handled as on a failed hedge: taken back, the strategy reset,
the active oid cleared, and the process goes on. -/
structure HandledAsFailed (p p' : LiveProcess) (fill : QueuedFill) (obs : List LoopObs) : Prop where
  alive : p'.died = none
  reduced : ∃ ack, .engine (.reduce (!p.loop.engine.lastMakerDirection.isBuyHl) fill.size ack) ∈ obs
  reset : p'.loop.engine.strategy.state = .idle
  cleared : p'.loop.engine.activeHlOid = none

section Drains

variable {cfg : EngineConfig} {p : LiveProcess} {fill : QueuedFill} {rest : List QueuedFill}
  {snapshot : SpreadSnapshot} {venues : Venues} {answers : IocAnswers}

/-- The fill at the front of the queue is one for the normal path of `on_hl_fill`. -/
structure Hedges (p : LiveProcess) (fill : QueuedFill) (rest : List QueuedFill) : Prop where
  alive : p.died = none
  pc : p.loop.pc = .drainFills
  queue : p.queue = fill :: rest
  path : p.loop.engine.fillPath fill.oid fill.size = .hedge

/-- The hedge of the fill. -/
def hedgeRequest (cfg : EngineConfig) (p : LiveProcess) (fill : QueuedFill)
    (snapshot : SpreadSnapshot) : LighterIocRequest :=
  MakerHedgeEngine.iocRequest cfg snapshot p.loop.engine.lastMakerDirection.isBuyHl 10 fill.size

theorem Hedges.fillIoc (h : Hedges p fill rest) :
    p.loop.engine.fillIoc cfg fill snapshot = some (hedgeRequest cfg p fill snapshot) := by
  rw [MakerHedgeEngine.fillIoc, h.path, hedgeRequest]

theorem step_threw (h : Hedges p fill rest) {error : String}
    (hthrow : placeIocOrder (hedgeRequest cfg p fill snapshot) answers = .error error) :
    step cfg p (.drain snapshot venues answers) =
      ({ p with queue := rest, died := some error }, []) := by
  simp only [step, h.alive, drain, h.pc, h.queue, h.fillIoc, hthrow]

theorem step_dead {error : String} (h : p.died = some error) (e : ProcessEvent) :
    step cfg p e = (p, []) := by
  simp only [step, h]

/-- After its death the process does nothing. -/
theorem run_dead {error : String} (h : p.died = some error) (later : List ProcessEvent) :
    (machine cfg).final p later = p ∧ (machine cfg).obs p later = [] := by
  induction later with
  | nil => exact ⟨rfl, rfl⟩
  | cons e later ih =>
    have hstep : (machine cfg).step p e = (p, []) := step_dead h e
    rw [EventMachine.final_cons, EventMachine.obs_cons, hstep]
    exact ih

/-- A hedge that throws, and whatever comes later. -/
theorem run_threw (h : Hedges p fill rest) {error : String}
    (hthrow : placeIocOrder (hedgeRequest cfg p fill snapshot) answers = .error error)
    (later : List ProcessEvent) :
    (machine cfg).final p (.drain snapshot venues answers :: later) =
        { p with queue := rest, died := some error } ∧
      (machine cfg).obs p (.drain snapshot venues answers :: later) = [] := by
  have hstep : (machine cfg).step p (.drain snapshot venues answers) = _ :=
    @step_threw cfg p fill rest snapshot venues answers h error hthrow
  rw [EventMachine.final_cons, EventMachine.obs_cons, hstep, List.nil_append]
  exact run_dead rfl later

/-- A hedge that returns is a fill of the engine, with the acknowledgement it returns. -/
theorem step_returned (h : Hedges p fill rest) {ack : LighterIocAck}
    (hack : placeIocOrder (hedgeRequest cfg p fill snapshot) answers = .ok ack) :
    step cfg p (.drain snapshot venues answers) =
      ({ p with
          queue := rest
          loop := (p.loop.call cfg (.fill fill.price fill.size snapshot fill.oid fill.fee
            (venues.acking ack))).1 },
        (p.loop.call cfg (.fill fill.price fill.size snapshot fill.oid fill.fee
          (venues.acking ack))).2) := by
  simp only [step, h.alive, drain, h.pc, h.queue, h.fillIoc, hack]

/-- The HL leg is taken back exactly when the call returns without a confirmed fill. -/
theorem handled_iff (h : Hedges p fill rest) :
    HandledAsFailed p (step cfg p (.drain snapshot venues answers)).1 fill
        (step cfg p (.drain snapshot venues answers)).2 ↔
      ∃ ack, placeIocOrder (hedgeRequest cfg p fill snapshot) answers = .ok ack ∧
        ¬ (ack.ok ∧ ack.fillConfirmed) := by
  cases hcall : placeIocOrder (hedgeRequest cfg p fill snapshot) answers with
  | error error =>
    rw [step_threw h hcall]
    refine iff_of_false (fun handled => ?_) (by simp)
    cases handled.alive
  | ok ack =>
    rw [step_returned h hcall]
    simp only [LiveLoop.call, MakerHedgeEngine.step, MakerHedgeEngine.onHlFill, h.path,
      Except.ok.injEq, exists_eq_left']
    have hack : ∀ request, (venues.acking ack).lighter.placeIocOrder request = ack := fun _ => rfl
    by_cases hfilled : ack.ok ∧ ack.fillConfirmed
    · refine iff_of_false (fun handled => ?_) (not_not.mpr hfilled)
      obtain ⟨_, hmem⟩ := handled.reduced
      rw [(hedgeFill_filled fill.price fill.size snapshot fill.oid fill.fee (hack _) hfilled).2]
        at hmem
      simp at hmem
    · refine iff_of_true ?_ hfilled
      obtain ⟨hstate, hcalls⟩ :=
        hedgeFill_unfilled fill.price fill.size snapshot fill.oid fill.fee (hack _) hfilled
      rw [hcalls, hstate]
      exact ⟨h.alive, ⟨_, .tail _ (.tail _ (.head _))⟩, rfl, rfl⟩

/-- However the call throws, before its send or behind it, the fill has left the queue and the
process has died; neither then nor later is anything ordered, and the strategy and the active oid
stay as they were. -/
theorem throw_unhandled (h : Hedges p fill rest) {sent : Bool} {error : String}
    (hlive : cfg.dryRun = false) (hthrow : IocThrows answers sent error)
    (later : List ProcessEvent) :
    (machine cfg).final p (.drain snapshot venues answers :: later) =
        { p with queue := rest, died := some error } ∧
      (machine cfg).obs p (.drain snapshot venues answers :: later) = [] ∧
      ¬ HandledAsFailed p ((machine cfg).final p (.drain snapshot venues answers :: later)) fill
        ((machine cfg).obs p (.drain snapshot venues answers :: later)) := by
  have hcall : placeIocOrder (hedgeRequest cfg p fill snapshot) answers = .error error :=
    (placeIocOrder_error_iff hlive answers error).mpr ⟨sent, hthrow⟩
  obtain ⟨hfinal, hobs⟩ := @run_threw cfg p fill rest snapshot venues answers h error hcall later
  refine ⟨hfinal, hobs, fun handled => ?_⟩
  rw [hfinal] at handled
  cases handled.alive

end Drains

def wholeFill : QueuedFill where
  price := 100
  size := 1
  oid := "1"
  fee := 0

/-- An order of size 1 rests as `"1"`, and its fill is queued. -/
def filledOnce : LiveProcess where
  loop.engine :=
    (MakerHedgeEngine.machine sampleConfig).final (MakerHedgeEngine.start false 0) [tickUp 1000 "1"]
  queue := [wholeFill]

theorem filledOnce_hedges : Hedges filledOnce wholeFill [] :=
  ⟨rfl, rfl, rfl, by decide +kernel⟩

/-- The position query before the send times out. -/
theorem baseline_unhandled : ¬ HandledAsFailed filledOnce
    ((machine sampleConfig).final filledOnce
      [.drain (spreadSnapshot (bookAround 100) (bookAround 110)) (obligingVenues 100 110 0 "")
        { baseline := .error "curl request failed: Timeout was reached" }])
    wholeFill
    ((machine sampleConfig).obs filledOnce
      [.drain (spreadSnapshot (bookAround 100) (bookAround 110)) (obligingVenues 100 110 0 "")
        { baseline := .error "curl request failed: Timeout was reached" }]) :=
  (throw_unhandled filledOnce_hedges rfl (.baseline rfl rfl) []).2.2

/-- The exchange has accepted the transaction when the position query behind it times out. -/
theorem accepted_hedge_unhandled :
    ¬ ∀ (cfg : EngineConfig) (p : LiveProcess) (fill : QueuedFill) (rest : List QueuedFill)
        (snapshot : SpreadSnapshot) (venues : Venues) (answers : IocAnswers) (sent : Bool)
        (error : String),
      Hedges p fill rest → cfg.dryRun = false → IocThrows answers sent error →
      HandledAsFailed p (step cfg p (.drain snapshot venues answers)).1 fill
        (step cfg p (.drain snapshot venues answers)).2 := by
  intro hall
  let answers : IocAnswers :=
    { response := .ok "\x7b\"code\":200\x7d"
      after := .error "curl request failed: Timeout was reached" }
  have haccepted : Accepted answers {} "\x7b\"code\":200\x7d" :=
    ⟨⟨rfl, rfl, 1, rfl⟩, rfl, rfl, by decide +kernel⟩
  have hhash : confirmedTxHash "\x7b\"code\":200\x7d".toList answers.txHash = .ok "" := by rfl
  have htimed : predictedExecutionMs "\x7b\"code\":200\x7d".toList = .ok none := by rfl
  have hthrow : IocThrows answers true "curl request failed: Timeout was reached" :=
    .after haccepted hhash htimed rfl
  have handled := hall sampleConfig filledOnce wholeFill []
    (spreadSnapshot (bookAround 100) (bookAround 110)) (obligingVenues 100 110 0 "") answers true _
    filledOnce_hedges rfl hthrow
  obtain ⟨ack, hack, -⟩ := (handled_iff filledOnce_hedges).mp handled
  rw [(placeIocOrder_error_iff rfl _ _).mpr ⟨true, hthrow⟩] at hack
  cases hack

end LiveProcess

end Arb
