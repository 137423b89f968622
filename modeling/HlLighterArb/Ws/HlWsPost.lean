import HlLighterArb.Lib.Machine
import HlLighterArb.Lib.Text
import HlLighterArb.Ws.Client

/-!
# HlLighterArb.Ws.HlWsPost

The transport of HL actions: callers of `post_action` on any number of threads, the io thread of
the WebSocket client, and the table of pending responses between them.

A caller takes an id and registers (`post`), hands its request to the client (`submit`), and
returns when its response is ready (`wake`) or the wait has run out (`timeout`). The io thread runs
the handlers of `send`, ends handshakes and writes (`io`), and reads messages or a read error. Every
interleaving of these is a run.

* `FailsAt`: this event makes `post_action` return an error body for the request.
* `never_written_iff`: after it the request is written in no continuation exactly when the io
  thread has ended or the request was no longer in the client's queues.
-/

namespace Arb

/-! ## Reading a message -/

/-- The id of a `post` message. `std::stoull` throws past 64 bits. -/
def parsePostId (msg : List Char) : Except String (Option Nat) :=
  if ¬ Text.contains "\"channel\":\"post\"".toList msg then .ok none
  else match Text.after "\"id\":".toList msg with
    | none => .ok none
    | some rest =>
      match (rest.dropWhile (· = ' ')).takeWhile Char.isDigit with
      | [] => .ok none
      | digits =>
        match Text.stoull digits with
        | some id => .ok (some id)
        | none => .error "stoull"

/-- The rest of a string, its closing quote included. -/
def scanString (escaped : Bool) : List Char → Option (List Char)
  | [] => none
  | ch :: rest =>
    if escaped then (scanString false rest).map (ch :: ·)
    else if ch = '\\' then (scanString true rest).map (ch :: ·)
    else if ch = '"' then some [ch]
    else (scanString false rest).map (ch :: ·)

/-- The rest of an object or array up to the bracket that closes it; brackets inside strings do
not count. -/
def scanNested (opening close : Char) (depth : Int) (inString escaped : Bool) :
    List Char → Option (List Char)
  | [] => none
  | ch :: rest =>
    if inString then
      if escaped then (scanNested opening close depth true false rest).map (ch :: ·)
      else if ch = '\\' then (scanNested opening close depth true true rest).map (ch :: ·)
      else if ch = '"' then (scanNested opening close depth false false rest).map (ch :: ·)
      else (scanNested opening close depth true false rest).map (ch :: ·)
    else if ch = '"' then (scanNested opening close depth true escaped rest).map (ch :: ·)
    else if ch = opening then
      (scanNested opening close (depth + 1) false escaped rest).map (ch :: ·)
    else if ch = close then
      if depth - 1 = 0 then some [ch]
      else (scanNested opening close (depth - 1) false escaped rest).map (ch :: ·)
    else (scanNested opening close depth false escaped rest).map (ch :: ·)

/-- The text of the value behind the first occurrence of `key`, which has its quotes. -/
def extractJsonValue (msg key : List Char) : Option (List Char) :=
  match Text.after key msg with
  | none => none
  | some rest =>
    match rest.dropWhile fun c => c = ' ' ∨ c = ':' with
    | [] => none
    | ch :: rest =>
      if ch = '"' then (scanString false rest).map (ch :: ·)
      else if ch = '\x7b' then scanNested '\x7b' '\x7d' 0 false false (ch :: rest)
      else if ch = '[' then scanNested '[' ']' 0 false false (ch :: rest)
      else some ((ch :: rest).takeWhile fun c => ¬ (c = ',' ∨ c = '\x7d' ∨ c = ']'))

/-- The body `on_message` makes of a message that answers a request. -/
def responseBody (msg : List Char) : String :=
  match extractJsonValue msg "\"type\"".toList with
  | none => makeErrorBody "ws_post_missing_payload"
  | some type =>
    match type == "\"error\"".toList, extractJsonValue msg "\"payload\"".toList with
    | true, some payload => makeErrorBody (String.ofList payload)
    | true, none => makeErrorBody "ws_post_error"
    | false, some payload => String.ofList payload
    | false, none => makeErrorBody "ws_post_missing_payload"

/-! ## The transport -/

structure PostRequest where
  id : Nat
  payload : String
  deriving DecidableEq

/-- The request as it goes to the socket. -/
def PostRequest.text (r : PostRequest) : String :=
  "\x7b\"method\":\"post\",\"id\":" ++ toString r.id ++
    ",\"request\":\x7b\"type\":\"action\",\"payload\":" ++ r.payload ++ "\x7d\x7d"

/-- Where a call of `post_action` is. -/
inductive PostPhase where
  | registered
  | waiting
  | returned (body : String)
  deriving DecidableEq

/-- A call of `post_action` and its `PendingResponse`: `response` is the body once it is ready. -/
structure PostCall where
  payload : String
  phase : PostPhase := .registered
  response : Option String := none
  deriving DecidableEq

structure HlWsPostTransport where
  ws : WsClient PostRequest := {}
  pending : List Nat := []
  nextId : Nat := 1
  /-- The calls made so far, by their id. -/
  calls : Nat → Option PostCall := fun _ => none

inductive PostEvent where
  | post (payload : String)
  | submit (id : Nat)
  | wake (id : Nat)
  | timeout (id : Nat)
  | io (e : WsClient.IoEvent)
  | message (msg : String)
  | readError (reason : String)

inductive PostObs where
  | wrote (request : PostRequest)
  | returned (id : Nat) (body : String)
  deriving DecidableEq

namespace HlWsPostTransport

def setCall (t : HlWsPostTransport) (id : Nat) (call : PostCall) : HlWsPostTransport :=
  { t with calls := Function.update t.calls id (some call) }

/-- `post_action` takes the next id and registers its record. -/
def post (t : HlWsPostTransport) (payload : String) : HlWsPostTransport :=
  { t.setCall t.nextId { payload } with
    pending := t.pending ++ [t.nextId]
    nextId := t.nextId + 1 }

/-- `post_action` hands its request to the client. -/
def submit (t : HlWsPostTransport) (id : Nat) : HlWsPostTransport :=
  match t.calls id with
  | some { payload, phase := .registered, response } =>
    { t.setCall id { payload, phase := .waiting, response } with ws := t.ws.send { id, payload } }
  | _ => t

def returnBody (t : HlWsPostTransport) (id : Nat) (call : PostCall) (body : String) :
    HlWsPostTransport × List PostObs :=
  (t.setCall id { call with phase := .returned body }, [.returned id body])

/-- `post_action` finds its response ready. -/
def wake (t : HlWsPostTransport) (id : Nat) : HlWsPostTransport × List PostObs :=
  match t.calls id with
  | some { payload, phase := .waiting, response := some body } =>
    t.returnBody id { payload, response := some body } body
  | _ => (t, [])

/-- The wait of `post_action` runs out. -/
def timeout (t : HlWsPostTransport) (id : Nat) : HlWsPostTransport × List PostObs :=
  match t.calls id with
  | some { payload, phase := .waiting, response := none } =>
    { t with pending := t.pending.erase id }.returnBody id { payload }
      (makeErrorBody "ws_post_timeout")
  | _ => (t, [])

/-- Fill in the records of `ids`. -/
def respond (t : HlWsPostTransport) (ids : List Nat) (body : String) : HlWsPostTransport :=
  { t with calls := fun id =>
      if id ∈ ids then (t.calls id).map fun call => { call with response := some body }
      else t.calls id }

def onMessage (t : HlWsPostTransport) (msg : List Char) : HlWsPostTransport :=
  match parsePostId msg with
  | .error _ => { t with ws := t.ws.ioException }
  | .ok none => t
  | .ok (some id) =>
    if id ∈ t.pending then
      { t.respond [id] (responseBody msg) with pending := t.pending.erase id }
    else t

def onDisconnect (t : HlWsPostTransport) (reason : String) : HlWsPostTransport :=
  { t.respond t.pending (makeErrorBody ("ws_disconnect_" ++ reason)) with pending := [] }

/-- The client after a step of the io thread, and what the step wrote. -/
def withIo (t : HlWsPostTransport) (io : WsClient PostRequest × List PostRequest) :
    HlWsPostTransport × List PostObs :=
  ({ t with ws := io.1 }, io.2.map .wrote)

def step (t : HlWsPostTransport) : PostEvent → HlWsPostTransport × List PostObs
  | .post payload => (t.post payload, [])
  | .submit id => (t.submit id, [])
  | .wake id => t.wake id
  | .timeout id => t.timeout id
  | .io e => t.withIo (t.ws.io e)
  | .message msg => if t.ws.reading then (t.onMessage msg.toList, []) else (t, [])
  | .readError reason =>
    if t.ws.reading then (onDisconnect { t with ws := t.ws.onReadError } reason, []) else (t, [])

def machine : EventMachine HlWsPostTransport PostEvent PostObs := ⟨step⟩

@[simp] theorem machine_step (t : HlWsPostTransport) (e : PostEvent) :
    machine.step t e = t.step e := rfl

/-- The io thread still runs and the client still holds the request. -/
def Unsent (t : HlWsPostTransport) (id : Nat) : Prop :=
  t.ws.running = true ∧ ∃ r ∈ t.ws.unsent, r.id = id

def phase (t : HlWsPostTransport) (id : Nat) : Option PostPhase :=
  (t.calls id).map PostCall.phase

/-! ## Records -/

section Records

variable {t : HlWsPostTransport} {id id' : Nat} {call : PostCall} {body payload : String}
  {ids : List Nat} {ph : PostPhase} {response : Option String}

@[simp] theorem phase_setCall_self : (t.setCall id call).phase id = some call.phase := by
  simp [phase, setCall]

theorem phase_setCall_ne (h : id ≠ id') : (t.setCall id' call).phase id = t.phase id := by
  simp [phase, setCall, Function.update_of_ne h]

@[simp] theorem phase_respond : (t.respond ids body).phase id = t.phase id := by
  by_cases h : id ∈ ids
  · simp [phase, respond, h, Function.comp_def]
  · simp [phase, respond, h]

theorem phase_of_calls (h : t.calls id = some call) : t.phase id = some call.phase := by
  simp [phase, h]

/-- What `submit` does: it needs a call that only registered. -/
theorem submit_cases (t : HlWsPostTransport) (id : Nat) :
    t.submit id = t ∨ t.phase id = some .registered ∧ ∃ call : PostCall,
      t.submit id = { t.setCall id { call with phase := .waiting } with
        ws := t.ws.send { id, payload := call.payload } } := by
  unfold submit
  split
  · next payload response hcall =>
    exact .inr ⟨phase_of_calls hcall, { payload, response }, rfl⟩
  · exact .inl rfl

/-- What `wake` and `timeout` do: they need a call that waits. -/
theorem wake_cases (t : HlWsPostTransport) (id : Nat) :
    t.wake id = (t, []) ∨ t.phase id = some .waiting ∧ ∃ call body,
      t.wake id = t.returnBody id call body := by
  unfold wake
  split
  · next payload body hcall => exact .inr ⟨phase_of_calls hcall, _, _, rfl⟩
  · exact .inl rfl

theorem timeout_cases (t : HlWsPostTransport) (id : Nat) :
    t.timeout id = (t, []) ∨ t.phase id = some .waiting ∧ ∃ call body,
      t.timeout id = { t with pending := t.pending.erase id }.returnBody id call body := by
  unfold timeout
  split
  · next payload hcall => exact .inr ⟨phase_of_calls hcall, _, _, rfl⟩
  · exact .inl rfl

/-- What a message does: it ends the io thread, or answers one record, or nothing. -/
theorem onMessage_cases (t : HlWsPostTransport) (msg : List Char) :
    t.onMessage msg = { t with ws := t.ws.ioException } ∨ t.onMessage msg = t ∨
      ∃ id body, t.onMessage msg = { t.respond [id] body with pending := t.pending.erase id } := by
  unfold onMessage
  split
  · exact .inl rfl
  · exact .inr (.inl rfl)
  · split
    · exact .inr (.inr ⟨_, _, rfl⟩)
    · exact .inr (.inl rfl)

end Records

/-! ## What one step does -/

/-- A step from `t`: nothing, a call starting, submitting or returning, the client's io thread
moving, or responses being filled in. -/
inductive Move (t : HlWsPostTransport) : HlWsPostTransport → List PostObs → Prop where
  | quiet : Move t t []
  | post (payload : String) : Move t (t.post payload) []
  | submit (id : Nat) (call : PostCall) (h : t.phase id = some .registered) :
      Move t { t.setCall id { call with phase := .waiting } with
        ws := t.ws.send { id, payload := call.payload } } []
  | returns (id : Nat) (call : PostCall) (body : String) (pending : List Nat)
      (h : t.phase id = some .waiting) :
      Move t ({ t with pending }.setCall id { call with phase := .returned body })
        [.returned id body]
  | io (ws : WsClient PostRequest) (written : List PostRequest) (h : t.ws.Drains ws written) :
      Move t { t with ws } (written.map .wrote)
  | responses (ws : WsClient PostRequest) (ids : List Nat) (body : String) (pending : List Nat)
      (h : t.ws.Drains ws []) :
      Move t { respond { t with ws } ids body with pending } []

theorem step_move (t : HlWsPostTransport) (e : PostEvent) : Move t (t.step e).1 (t.step e).2 := by
  cases e with
  | post payload => exact .post payload
  | submit id =>
    rcases submit_cases t id with h | ⟨hphase, call, h⟩
    · rw [step, h]
      exact .quiet
    · rw [step, h]
      exact .submit id call hphase
  | wake id =>
    rcases wake_cases t id with h | ⟨hphase, call, body, h⟩
    · rw [step, h]
      exact .quiet
    · rw [step, h]
      exact .returns id call body t.pending hphase
  | timeout id =>
    rcases timeout_cases t id with h | ⟨hphase, call, body, h⟩
    · rw [step, h]
      exact .quiet
    · rw [step, h]
      exact .returns id call body (t.pending.erase id) hphase
  | io e => exact .io _ _ (t.ws.io_drains e)
  | message msg =>
    rw [step]
    split
    · rcases onMessage_cases t msg.toList with h | h | ⟨id, body, h⟩
      · rw [h]
        exact .io t.ws.ioException [] t.ws.ioException_drains
      · rw [h]
        exact .quiet
      · rw [h]
        exact .responses t.ws [id] body (t.pending.erase id) (.refl t.ws)
    · exact .quiet
  | readError reason =>
    rw [step]
    split
    · exact .responses t.ws.onReadError t.pending _ [] t.ws.onReadError_drains
    · exact .quiet

/-- Ids are handed out in order, and the client is tidy. -/
structure Reach (t : HlWsPostTransport) : Prop where
  fresh : ∀ id, t.phase id ≠ none → id < t.nextId
  tidy : t.ws.Tidy

section Step

variable {t t' : HlWsPostTransport} {obs : List PostObs} {e : PostEvent} {id : Nat}
  {body : String} {r : PostRequest}

theorem Reach.init : Reach {} :=
  ⟨fun _ h => absurd rfl h, ⟨fun _ => rfl, fun _ => rfl⟩⟩

/-- Setting a record of a call that was made keeps the ids in order. -/
theorem Reach.setCall (h : Reach t) {call : PostCall} (hid : t.phase id ≠ none) :
    ∀ id', (t.setCall id call).phase id' ≠ none → id' < t.nextId := by
  intro id' h'
  by_cases heq : id' = id
  · rw [heq]
    exact h.fresh id hid
  · rw [phase_setCall_ne heq] at h'
    exact h.fresh id' h'

theorem Move.reach (m : Move t t' obs) (h : Reach t) : Reach t' := by
  cases m with
  | quiet => exact h
  | post payload =>
    refine ⟨fun id hid => ?_, h.tidy⟩
    by_cases heq : id = t.nextId
    · rw [heq]
      exact Nat.lt_succ_self t.nextId
    · have hold : t.phase id ≠ none := by
        simpa [HlWsPostTransport.post, phase, HlWsPostTransport.setCall,
          Function.update_of_ne heq] using hid
      exact Nat.lt_succ_of_lt (h.fresh id hold)
  | submit id call hphase =>
    exact ⟨h.setCall (by rw [hphase]; exact Option.some_ne_none _), h.tidy.send⟩
  | returns id call body pending hphase =>
    exact ⟨h.setCall (by rw [hphase]; exact Option.some_ne_none _), h.tidy⟩
  | io ws written hio => exact ⟨h.fresh, hio.tidy h.tidy⟩
  | responses ws ids body pending hio =>
    exact ⟨fun id hid => h.fresh id (by rwa [← phase_respond (t := t)]), hio.tidy h.tidy⟩

theorem Move.returned (m : Move t t' obs) (h : PostObs.returned id body ∈ obs) :
    t'.ws = t.ws ∧ t'.phase id = some (.returned body) := by
  cases m with
  | quiet | post | submit | responses => cases h
  | returns id' call body' pending hphase =>
    obtain ⟨rfl, rfl⟩ : id = id' ∧ body = body' := by simpa using h
    exact ⟨rfl, phase_setCall_self⟩
  | io ws written hio => simp at h

/-- A call that has returned stays returned. -/
theorem Move.stays_returned (m : Move t t' obs) (h : Reach t)
    (hid : t.phase id = some (.returned body)) : t'.phase id = some (.returned body) := by
  cases m with
  | quiet | io => exact hid
  | post payload =>
    have hne : id ≠ t.nextId :=
      (h.fresh id (by rw [hid]; exact Option.some_ne_none _)).ne
    exact (phase_setCall_ne hne).trans hid
  | submit id' call hphase =>
    have hne : id ≠ id' := by
      rintro rfl
      rw [hphase] at hid
      cases hid
    exact (phase_setCall_ne hne).trans hid
  | returns id' call body' pending hphase =>
    have hne : id ≠ id' := by
      rintro rfl
      rw [hphase] at hid
      cases hid
    exact (phase_setCall_ne hne).trans hid
  | responses ws ids body' pending hio => exact (phase_respond (t := t)).trans hid

/-- Only a call that has just registered gives the client its request. -/
theorem Move.unsent (m : Move t t' obs) (hid : t.phase id = some (.returned body))
    (h : ¬ t.Unsent id) : ¬ t'.Unsent id := by
  rintro ⟨hrun, r, hr, rfl⟩
  cases m with
  | quiet | post | returns => exact h ⟨hrun, r, hr, rfl⟩
  | submit id' call hphase =>
    rw [WsClient.unsent_send] at hr
    rcases List.mem_append.mp hr with hr | hr
    · exact h ⟨hrun, r, hr, rfl⟩
    · obtain rfl := List.mem_singleton.mp hr
      rw [hphase] at hid
      cases hid
  | io ws written hio => exact h ⟨hio.running hrun, r, hio.kept r hr, rfl⟩
  | responses ws ids body' pending hio => exact h ⟨hio.running hrun, r, hio.kept r hr, rfl⟩

theorem Move.wrote (m : Move t t' obs) (h : PostObs.wrote r ∈ obs) : t.Unsent r.id := by
  cases m with
  | quiet | post | submit | responses => cases h
  | returns => simp at h
  | io ws written hio =>
    obtain ⟨x, hx, hxr⟩ := List.mem_map.mp h
    cases hxr
    exact ⟨(hio.written r hx).1, r, (hio.written r hx).2, rfl⟩

end Step

/-! ## Draining the client -/

/-- A connected client writes everything it holds, given the time. -/
theorem writes_of_connected (l : List PostRequest) :
    ∀ (t : HlWsPostTransport) (r : PostRequest), t.ws.running = true → t.ws.connected = true →
      t.ws.flushing ++ t.ws.posted = l → r ∈ l → ∃ fs, .wrote r ∈ machine.obs t fs := by
  induction l with
  | nil => intro t r _ _ _ hr; cases hr
  | cons x l ih =>
    intro t r hrun hconn hl hr
    cases hflush : t.ws.flushing with
    | nil =>
      have hposted : t.ws.posted = x :: l := by simpa [hflush] using hl
      have hstep : t.step (.io .runPosted) = t.withIo ({ t.ws with posted := l }, [x]) := by
        rw [step, WsClient.io, WsClient.runPosted_connected hrun hconn hposted]
      rcases List.mem_cons.mp hr with rfl | hr
      · exact ⟨[.io .runPosted], by simp [hstep, withIo]⟩
      · obtain ⟨fs, hfs⟩ := ih (t.withIo ({ t.ws with posted := l }, [x])).1 r hrun hconn
          (by simp [withIo, hflush]) hr
        exact ⟨.io .runPosted :: fs, by simp [hstep, hfs]⟩
    | cons y flushing =>
      obtain ⟨rfl, hrest⟩ : y = x ∧ flushing ++ t.ws.posted = l := by simpa [hflush] using hl
      have hstep : t.step (.io (.writeDone true)) = t.withIo ({ t.ws with flushing }, [y]) := by
        rw [step, WsClient.io, WsClient.onWriteDone_connected hrun hconn hflush]
      rcases List.mem_cons.mp hr with rfl | hr
      · exact ⟨[.io (.writeDone true)], by simp [hstep, withIo]⟩
      · obtain ⟨fs, hfs⟩ := ih (t.withIo ({ t.ws with flushing }, [y])).1 r hrun hconn hrest hr
        exact ⟨.io (.writeDone true) :: fs, by simp [hstep, hfs]⟩

theorem writes_of_unsent {t : HlWsPostTransport} {id : Nat} (htidy : t.ws.Tidy)
    (h : t.Unsent id) : ∃ fs r, .wrote r ∈ machine.obs t fs ∧ r.id = id := by
  obtain ⟨hrun, r, hr, hid⟩ := h
  by_cases hconn : t.ws.connected = true
  · obtain ⟨fs, hfs⟩ := writes_of_connected _ t r hrun hconn rfl
      (by simpa [WsClient.unsent, htidy.kept hconn] using hr)
    exact ⟨fs, r, hfs, hid⟩
  · have hflush := htidy.flush (Bool.eq_false_iff.mpr hconn)
    let ws : WsClient PostRequest :=
      { t.ws with connected := true, pendingSends := [], flushing := t.ws.pendingSends.tail }
    have hstep : t.step (.io (.handshake true)) = t.withIo (ws, t.ws.pendingSends.take 1) := by
      rw [step, WsClient.io, WsClient.onWsHandshake, if_pos ⟨hrun, hconn, rfl⟩,
        WsClient.flushPending_connected rfl]
    have hwrites : r ∈ t.ws.pendingSends.take 1 ∨ r ∈ ws.flushing ++ ws.posted := by
      simp only [WsClient.unsent, hflush, List.nil_append, List.mem_append] at hr
      rcases hr with hr | hr
      · cases hp : t.ws.pendingSends with
        | nil =>
          rw [hp] at hr
          cases hr
        | cons x kept =>
          rw [hp] at hr
          rcases List.mem_cons.mp hr with rfl | hr
          · exact .inl (List.mem_cons_self ..)
          · exact .inr (List.mem_append_left _ (by simpa [ws, hp] using hr))
      · exact .inr (List.mem_append_right _ hr)
    rcases hwrites with hr | hr
    · have hobs : PostObs.wrote r ∈ (t.step (.io (.handshake true))).2 := by
        rw [hstep]
        exact List.mem_map_of_mem hr
      exact ⟨[.io (.handshake true)], r, by simpa using hobs, hid⟩
    · obtain ⟨fs, hfs⟩ := writes_of_connected _ { t with ws } r hrun rfl rfl hr
      exact ⟨.io (.handshake true) :: fs, r, by simp [hstep, withIo, hfs], hid⟩

/-! ## Requests that failed -/

/-- The bodies by which `post_action` reports that the request failed on its side. -/
def FailureBody (body : String) : Prop :=
  body = makeErrorBody "ws_post_timeout" ∨
    ∃ reason, body = makeErrorBody ("ws_disconnect_" ++ reason)

/-- This event makes `post_action` return an error body for request `id`. -/
def FailsAt (t : HlWsPostTransport) (e : PostEvent) (id : Nat) : Prop :=
  ∃ body, .returned id body ∈ (t.step e).2 ∧ FailureBody body

/-- Request `id` is written at no later step, whatever happens. -/
def NeverWritten (t : HlWsPostTransport) (id : Nat) : Prop :=
  ∀ fs r, .wrote r ∈ machine.obs t fs → r.id ≠ id

theorem reach_final (es : List PostEvent) : Reach (machine.final {} es) :=
  (machine.invariant (P := fun _ t => Reach t) Reach.init
    (fun _ t e h => (step_move t e).reach h) es).last

/-- A returned call whose request the client does not hold stays unwritten. -/
theorem neverWritten_of_not_unsent {t : HlWsPostTransport} {id : Nat} {body : String}
    (hreach : Reach t) (hret : t.phase id = some (.returned body)) (h : ¬ t.Unsent id) :
    NeverWritten t id := by
  have hrun : ∀ fs, machine.Always t (fun l t' => Reach t' ∧
      t'.phase id = some (.returned body) ∧ ¬ t'.Unsent id ∧ ∀ r, .wrote r ∈ l → r.id ≠ id) fs := by
    refine machine.invariant ⟨hreach, hret, h, fun _ hr => by cases hr⟩ ?_
    rintro l t' e ⟨hreach, hret, hun, hl⟩
    have m := step_move t' e
    refine ⟨m.reach hreach, m.stays_returned hreach hret, m.unsent hret hun, fun r hr => ?_⟩
    rcases List.mem_append.mp hr with hr | hr
    · exact hl r hr
    · rintro rfl
      exact hun (m.wrote hr)
  exact fun fs => (hrun fs).last.2.2.2

/-- When `post_action` returns an error body, the request is written at no later step, exactly
when the io thread has ended or the client no longer holds the request. -/
theorem never_written_iff (es : List PostEvent) (e : PostEvent) (id : Nat)
    (h : FailsAt (machine.final {} es) e id) :
    NeverWritten (machine.final {} (es ++ [e])) id ↔ ¬ (machine.final {} es).Unsent id := by
  obtain ⟨body, hbody, -⟩ := h
  have m := step_move (machine.final {} es) e
  obtain ⟨hws, hret⟩ := m.returned hbody
  rw [EventMachine.final_snoc]
  have hunsent : ((machine.final {} es).step e).1.Unsent id ↔ (machine.final {} es).Unsent id := by
    rw [Unsent, hws, ← Unsent]
  constructor
  · intro hnever hun
    obtain ⟨fs, r, hr, hid⟩ :=
      writes_of_unsent (m.reach (reach_final es)).tidy (hunsent.mpr hun)
    exact hnever fs r hr hid
  · intro hun
    exact neverWritten_of_not_unsent (m.reach (reach_final es)) hret (hunsent.not.mpr hun)

/-- A request is written before its wait runs out, and never again. -/
theorem never_written_after_write :
    FailsAt (machine.final {} [.io (.handshake true), .post "p", .submit 1, .io .runPosted])
      (.timeout 1) 1 ∧
    NeverWritten
      (machine.final {}
        ([.io (.handshake true), .post "p", .submit 1, .io .runPosted] ++ [.timeout 1])) 1 := by
  have h : FailsAt (machine.final {} [.io (.handshake true), .post "p", .submit 1, .io .runPosted])
      (.timeout 1) 1 := ⟨_, List.mem_singleton.mpr rfl, .inl rfl⟩
  refine ⟨h, (never_written_iff _ _ _ h).mpr ?_⟩
  rintro ⟨-, r, hr, -⟩
  exact List.not_mem_nil hr

/-- Without a connection a request is kept for the next handshake. `post_action` gives up on it,
and the handshake writes it. -/
theorem written_after_timeout :
    ¬ ∀ (es : List PostEvent) (e : PostEvent) (id : Nat),
      FailsAt (machine.final {} es) e id → NeverWritten (machine.final {} (es ++ [e])) id := by
  intro hall
  have h : FailsAt (machine.final {} [.post "p", .submit 1, .io .runPosted]) (.timeout 1) 1 :=
    ⟨_, List.mem_singleton.mpr rfl, .inl rfl⟩
  exact hall _ _ _ h [.io (.handshake true)] { id := 1, payload := "p" } (by decide) rfl

end HlWsPostTransport

end Arb
