import HlLighterArb.Lib.Flow
import HlLighterArb.Ws.HlWsPost
import HlLighterArb.Ws.LighterSendTx

/-!
# HlLighterArb.Ws.Delivery

What becomes of the texts given to the WebSocket client, whatever the threads, the connection and
the server do: the client by itself, and under each of the two transports.

* `conserved`: the texts sent are, up to order, those handed to the socket, those a failed flush
  dropped, and those still held. None is written twice and none disappears otherwise.
* `in_order_iff`: they are written in the order they were sent exactly when no handler of `send`
  runs while a flush goes on.
* `HlWsPostTransport.requests_written_once`: no request id is written twice, and a request goes out
  with the payload its caller gave.
* `LighterWsSendTxTransport.transactions_written_once`: the transactions written are among those of
  the calls that took the slot.
-/

namespace Arb

namespace WsClient

variable {μ : Type}

/-! ## The client as a machine -/

inductive Event (μ : Type) where
  | send (message : μ)
  | io (e : IoEvent)
  | readError
  | exception

inductive Obs (μ : Type) where
  | sent (message : μ)
  | wrote (message : μ)
  | dropped (message : μ)
  deriving DecidableEq

/-- What the end of a write drops: in an error, what the flush had left. -/
def droppedBy (c : WsClient μ) : IoEvent → List μ
  | .writeDone false => if c.running then c.flushing else []
  | _ => []

def step (c : WsClient μ) : Event μ → WsClient μ × List (Obs μ)
  | .send message => (c.send message, [.sent message])
  | .io e => ((c.io e).1, (c.io e).2.map .wrote ++ (c.droppedBy e).map .dropped)
  | .readError => if c.reading then (c.onReadError, c.flushing.map .dropped) else (c, [])
  | .exception => (c.ioException, [])

def machine : EventMachine (WsClient μ) (Event μ) (Obs μ) := ⟨step⟩

@[simp] theorem machine_step (c : WsClient μ) (e : Event μ) : machine.step c e = c.step e := rfl

def Obs.sent? : Obs μ → Option μ
  | .sent message => some message
  | _ => none

/-- A text that leaves the client, for the socket or for good. -/
def Obs.left? : Obs μ → Option μ
  | .wrote message | .dropped message => some message
  | .sent _ => none

section Lists

variable {ms : List μ}

@[simp] theorem sent_wrote : (ms.map Obs.wrote).filterMap Obs.sent? = [] := by
  simp [List.filterMap_map, Function.comp_def, Obs.sent?]

@[simp] theorem sent_dropped : (ms.map Obs.dropped).filterMap Obs.sent? = [] := by
  simp [List.filterMap_map, Function.comp_def, Obs.sent?]

@[simp] theorem left_wrote : (ms.map Obs.wrote).filterMap Obs.left? = ms := by
  simp [List.filterMap_map, Function.comp_def, Obs.left?]

@[simp] theorem left_dropped : (ms.map Obs.dropped).filterMap Obs.left? = ms := by
  simp [List.filterMap_map, Function.comp_def, Obs.left?]

end Lists

/-! ## One step -/

/-- A handler of `send` writes its text although another one, kept for the handshake, is still to
be written by the flush. -/
def Overtakes (c : WsClient μ) : Event μ → Prop
  | .io .runPosted => c.running = true ∧ c.connected = true ∧
      ∃ msg ∈ c.posted.head?, ∃ kept ∈ c.flushing, kept ≠ msg
  | _ => False

section Step

variable {c : WsClient μ}

theorem Tidy.io (h : c.Tidy) (e : IoEvent) : (c.io e).1.Tidy := (c.io_drains e).tidy h

theorem Tidy.step (h : c.Tidy) (e : Event μ) : (c.step e).1.Tidy := by
  cases e with
  | send message => exact h.send
  | io e => exact h.io e
  | readError =>
    rw [WsClient.step]
    split
    · exact (c.onReadError_drains).tidy h
    · exact h
  | exception => exact (c.ioException_drains).tidy h

/-- Running a handler writes its text now or keeps it. -/
theorem runPosted_flow (h : c.Tidy) :
    c.runPosted.2 ++ c.runPosted.1.unsent = c.unsent ∧ ¬ c.Overtakes (.io .runPosted) ∨
      ∃ msg posted, c.running = true ∧ c.connected = true ∧ c.posted = msg :: posted ∧
        c.pendingSends = [] ∧ c.runPosted = ({ c with posted }, [msg]) := by
  unfold runPosted
  split
  · next msg posted hrun hposted =>
    split
    · next hconn => exact .inr ⟨msg, posted, hrun, hconn, hposted, h.kept hconn, rfl⟩
    · next hconn =>
      exact .inl ⟨by simp [unsent, hposted, List.append_assoc], fun hover => hconn hover.2.1⟩
  · next hidle =>
    refine .inl ⟨rfl, ?_⟩
    rintro ⟨hrun, -, msg, hmsg, -⟩
    cases hposted : c.posted with
    | nil => simp [hposted] at hmsg
    | cons x posted => exact hidle x posted hrun hposted

/-- The flush takes the texts it writes or drops from the front of what is held. -/
theorem onWsHandshake_flow (h : c.Tidy) (ok : Bool) :
    (c.onWsHandshake ok).2 ++ (c.onWsHandshake ok).1.unsent = c.unsent := by
  unfold onWsHandshake
  split
  · next hok =>
    rw [flushPending_connected rfl]
    simp only [unsent, h.flush (Bool.eq_false_iff.mpr hok.2.1), List.append_nil, List.nil_append,
      ← List.append_assoc, ← List.drop_one, List.take_append_drop]
  · rfl

theorem onWriteDone_flow (h : c.Tidy) (ok : Bool) :
    (c.onWriteDone ok).2 ++ c.droppedBy (.writeDone ok) ++ (c.onWriteDone ok).1.unsent
      = c.unsent := by
  unfold onWriteDone
  split
  · next hrun =>
    cases ok with
    | true =>
      rw [if_pos rfl]
      by_cases hconn : c.connected = true
      · rw [flushPending_connected hconn]
        simp only [unsent, droppedBy, List.append_nil, ← List.append_assoc, ← List.drop_one,
          List.take_append_drop]
      · rw [flushPending_disconnected hconn]
        simp [unsent, droppedBy, h.flush (Bool.eq_false_iff.mpr hconn)]
    | false => simp [unsent, droppedBy, hrun]
  · next hrun =>
    cases ok <;> simp [droppedBy, hrun]

/-- Every step but a handler that writes moves texts from the front of what is held. -/
theorem step_flow (h : c.Tidy) (e : Event μ) :
    (c.step e).2.filterMap Obs.left? ++ (c.step e).1.unsent
        = c.unsent ++ (c.step e).2.filterMap Obs.sent? ∧ ¬ c.Overtakes e ∨
      e = .io .runPosted ∧ ∃ msg posted, c.running = true ∧ c.connected = true ∧
        c.posted = msg :: posted ∧ c.pendingSends = [] ∧
        c.step e = ({ c with posted }, [.wrote msg]) := by
  cases e with
  | send message =>
    exact .inl ⟨by simp [WsClient.step, unsent_send, Obs.left?, Obs.sent?], id⟩
  | io e =>
    simp only [WsClient.step, List.filterMap_append, left_wrote, left_dropped, sent_wrote,
      sent_dropped, List.append_nil]
    cases e with
    | runPosted =>
      rcases runPosted_flow h with ⟨heq, hover⟩ | ⟨msg, posted, hrun, hconn, hposted, hkept, heq⟩
      · exact .inl ⟨by simpa [WsClient.io, droppedBy] using heq, hover⟩
      · exact .inr ⟨rfl, msg, posted, hrun, hconn, hposted, hkept,
          by simp [WsClient.io, heq, droppedBy]⟩
    | handshake ok =>
      exact .inl ⟨by simpa [WsClient.io, droppedBy] using onWsHandshake_flow h ok, id⟩
    | writeDone ok => exact .inl ⟨onWriteDone_flow h ok, id⟩
  | readError =>
    refine .inl ⟨?_, id⟩
    rw [WsClient.step]
    split
    · rw [left_dropped, sent_dropped]
      simp [unsent, onReadError]
    · simp
  | exception => exact .inl ⟨by simp [WsClient.step, unsent, ioException], id⟩

/-- A text that comes before a list of texts may as well come after it when they are all equal. -/
theorem cons_eq_append_iff {l : List μ} {a : μ} : a :: l = l ++ [a] ↔ ∀ b ∈ l, b = a := by
  induction l with
  | nil => simp
  | cons b l ih =>
    rw [List.cons_append, List.cons.injEq, List.forall_mem_cons]
    constructor
    · rintro ⟨rfl, h⟩
      exact ⟨rfl, ih.mp h⟩
    · rintro ⟨rfl, h⟩
      exact ⟨rfl, ih.mpr h⟩

theorem step_conserves (h : c.Tidy) (e : Event μ) :
    machine.Flows (fun t e => (machine.step t e).2.filterMap Obs.sent?) unsent Obs.left?
      List.Perm c e := by
  rcases step_flow h e with ⟨heq, -⟩ | ⟨rfl, msg, posted, -, -, hposted, hkept, heq⟩
  · exact .of_eq heq
  · have hsent : [Obs.wrote msg].filterMap Obs.sent? = [] := rfl
    simpa [EventMachine.Flows, heq, Obs.left?, hsent, unsent, hposted, hkept]
      using List.perm_middle.symm

/-- A step keeps the order of the texts exactly when it does not overtake. -/
theorem step_in_order_iff (h : c.Tidy) (e : Event μ) :
    (c.step e).2.filterMap Obs.left? ++ (c.step e).1.unsent
      = c.unsent ++ (c.step e).2.filterMap Obs.sent? ↔ ¬ c.Overtakes e := by
  rcases step_flow h e with ⟨heq, hover⟩ | ⟨rfl, msg, posted, hrun, hconn, hposted, hkept, heq⟩
  · exact iff_of_true heq hover
  · have hsame : msg :: (c.flushing ++ posted) = c.flushing ++ msg :: posted
        ↔ msg :: c.flushing = c.flushing ++ [msg] := by
      rw [← List.cons_append, List.append_cons c.flushing, List.append_left_inj]
    have hleft : [Obs.wrote msg].filterMap Obs.left? = [msg] := rfl
    have hsent : [Obs.wrote msg].filterMap Obs.sent? = [] := rfl
    simp only [heq, hleft, hsent, unsent, hposted, hkept, List.append_nil, List.cons_append,
      List.nil_append, hsame, cons_eq_append_iff]
    simp [Overtakes, hrun, hconn, hposted]

end Step

/-! ## Runs -/

theorem always_tidy (es : List (Event μ)) : machine.Always {} (fun _ c => Tidy c) es :=
  machine.invariant ⟨fun _ => rfl, fun _ => rfl⟩ (fun _ _ e h => h.step e) es

/-- In every run the texts `send` took are, up to order, those handed to the socket, those a flush
dropped when its write failed or its connection was lost, and those the client still holds. -/
theorem conserved (es : List (Event μ)) :
    machine.Always {} (fun l c => (l.filterMap Obs.left? ++ c.unsent).Perm
      (l.filterMap Obs.sent?)) es := by
  intro pre hp
  have hsteps : machine.Throughout {} (fun _ t e => machine.Flows
      (fun t e => (machine.step t e).2.filterMap Obs.sent?) unsent Obs.left? List.Perm t e) pre :=
    fun fs e hfs => step_conserves ((always_tidy pre).before hfs) e
  have hflow := EventMachine.flow EventMachine.shrinks_perm hsteps
  rw [EventMachine.taken_obs] at hflow
  exact hflow

/-- The texts leave the client in the order `send` took them, always, exactly in the runs in which
no handler of `send` overtakes the flush. -/
theorem in_order_iff (es : List (Event μ)) :
    machine.Always {} (fun l c => l.filterMap Obs.left? ++ c.unsent = l.filterMap Obs.sent?) es ↔
      machine.Throughout {} (fun _ c e => ¬ Overtakes c e) es := by
  have hiff : machine.Always {} (fun l c => Tidy c ∧
        l.filterMap Obs.left? ++ c.unsent = l.filterMap Obs.sent?) es ↔
      machine.Throughout {} (fun _ c e => ¬ Overtakes c e) es := by
    refine EventMachine.always_iff_throughout ⟨⟨fun _ => rfl, fun _ => rfl⟩, rfl⟩ ?_ es
    rintro l c e ⟨htidy, horder⟩
    rw [← step_in_order_iff htidy, List.filterMap_append, List.filterMap_append, ← horder,
      List.append_assoc, List.append_assoc, List.append_right_inj, machine_step]
    exact and_iff_right (htidy.step e)
  rw [← hiff]
  exact ⟨fun h pre hp => ⟨always_tidy es pre hp, h pre hp⟩, fun h => h.mono fun _ _ hp => hp.2⟩

/-- Under a transport the texts handed to the socket and those still held are among those held
before. -/
theorem io_subperm {c : WsClient μ} (h : c.Tidy) (e : IoEvent) :
    ((c.io e).2 ++ (c.io e).1.unsent).Subperm c.unsent := by
  cases e with
  | runPosted =>
    rcases runPosted_flow h with ⟨heq, -⟩ | ⟨msg, posted, -, -, hposted, hkept, heq⟩
    · exact (List.Perm.of_eq heq).subperm
    · refine List.Perm.subperm ?_
      simpa [io, heq, unsent, hposted, hkept] using List.perm_middle.symm
  | handshake ok => exact (List.Perm.of_eq (onWsHandshake_flow h ok)).subperm
  | writeDone ok =>
    refine List.Sublist.subperm ?_
    rw [← onWriteDone_flow h ok]
    exact (List.sublist_append_left _ _).append_right _

theorem onReadError_unsent (c : WsClient μ) : c.onReadError.unsent.Subperm c.unsent := by
  refine List.Sublist.subperm ?_
  simp only [onReadError, unsent, List.nil_append, List.append_assoc]
  exact List.sublist_append_right _ _

end WsClient

/-! ## Posting actions -/

def PostObs.wrote? : PostObs → Option PostRequest
  | .wrote r => some r
  | .returned .. => none

def PostEvent.posts? : PostEvent → Option String
  | .post payload => some payload
  | _ => none

namespace HlWsPostTransport

/-- The request `submit` hands to the client. -/
def handsOver (t : HlWsPostTransport) (id : Nat) : List PostRequest :=
  match t.calls id with
  | some { payload, phase := .registered, .. } => [{ id, payload }]
  | _ => []

def submitted (t : HlWsPostTransport) : PostEvent → List PostRequest
  | .submit id => t.handsOver id
  | _ => []

/-- Of a call of `post_action`, its payload and whether its request is still to be handed over. -/
def record (t : HlWsPostTransport) (id : Nat) : Option (String × Bool) :=
  (t.calls id).map fun call => (call.payload, decide (call.phase = .registered))

theorem record_setCall (t : HlWsPostTransport) (id : Nat) (call : PostCall) :
    (t.setCall id call).record
      = Function.update t.record id (some (call.payload, decide (call.phase = .registered))) := by
  funext id'
  by_cases h : id' = id
  · simp [record, setCall, h]
  · simp [record, setCall, Function.update_of_ne h]

theorem record_respond (t : HlWsPostTransport) (ids : List Nat) (body : String) :
    (t.respond ids body).record = t.record := by
  funext id'
  by_cases h : id' ∈ ids
  · simp [record, respond, h, Function.comp_def]
  · simp [record, respond, h]

/-- Setting a call to one of the same record changes no record. -/
theorem record_setCall_self {t : HlWsPostTransport} {id : Nat} {call : PostCall}
    (h : t.record id = some (call.payload, decide (call.phase = .registered))) :
    (t.setCall id call).record = t.record := by
  rw [record_setCall, ← h, Function.update_eq_self]

/-- A step hands a request to the client, of a call that waits to do so, or none. -/
theorem submit_record (t : HlWsPostTransport) (id : Nat) :
    t.submit id = t ∧ t.handsOver id = [] ∨
      ∃ payload, t.record id = some (payload, true) ∧ t.handsOver id = [{ id, payload }] ∧
        (t.submit id).record = Function.update t.record id (some (payload, false)) ∧
        (t.submit id).ws = t.ws.send { id, payload } ∧ (t.submit id).nextId = t.nextId := by
  unfold submit
  split
  · next payload response hcall =>
    refine .inr ⟨payload, by simp [record, hcall], by simp [handsOver, hcall], ?_, rfl, rfl⟩
    exact record_setCall t id { payload, phase := .waiting, response }
  · next hother =>
    refine .inl ⟨rfl, ?_⟩
    unfold handsOver
    split
    · next payload response hcall => exact absurd hcall (hother payload response)
    · rfl

theorem wake_record (t : HlWsPostTransport) (id : Nat) :
    (t.wake id).1.record = t.record ∧ (t.wake id).1.nextId = t.nextId := by
  unfold wake
  split
  · next payload body hcall =>
    exact ⟨record_setCall_self (by simp [record, hcall]), rfl⟩
  · exact ⟨rfl, rfl⟩

theorem timeout_record (t : HlWsPostTransport) (id : Nat) :
    (t.timeout id).1.record = t.record ∧ (t.timeout id).1.nextId = t.nextId := by
  unfold timeout
  split
  · next payload hcall =>
    exact ⟨record_setCall_self (t := { t with pending := t.pending.erase id })
      (by simp [record, hcall]), rfl⟩
  · exact ⟨rfl, rfl⟩

theorem onMessage_record (t : HlWsPostTransport) (msg : List Char) :
    (t.onMessage msg).record = t.record ∧ (t.onMessage msg).nextId = t.nextId := by
  rcases onMessage_cases t msg with h | h | ⟨id, body, h⟩
  · rw [h]; exact ⟨rfl, rfl⟩
  · rw [h]; exact ⟨rfl, rfl⟩
  · rw [h]; exact ⟨record_respond t [id] body, rfl⟩

/-- What a step does to the records: a call is made, its request is handed over, or nothing. -/
inductive RecordMove (t t' : HlWsPostTransport) : PostEvent → Prop where
  | post (payload : String)
      (hrecord : t'.record = Function.update t.record t.nextId (some (payload, true)))
      (hnext : t'.nextId = t.nextId + 1) : RecordMove t t' (.post payload)
  | submit (id : Nat) (payload : String) (hid : t.record id = some (payload, true))
      (hsubmitted : t.submitted (.submit id) = [{ id, payload }])
      (hrecord : t'.record = Function.update t.record id (some (payload, false)))
      (hnext : t'.nextId = t.nextId) : RecordMove t t' (.submit id)
  | quiet (e : PostEvent) (hposts : e.posts? = none) (hsubmitted : t.submitted e = [])
      (hrecord : t'.record = t.record) (hnext : t'.nextId = t.nextId) : RecordMove t t' e

theorem step_record (t : HlWsPostTransport) (e : PostEvent) : RecordMove t (t.step e).1 e := by
  cases e with
  | post payload => exact .post payload (record_setCall t t.nextId { payload }) rfl
  | submit id =>
    rcases submit_record t id with ⟨h, hnone⟩ | ⟨payload, hid, hsub, hrecord, -, hnext⟩
    · refine .quiet _ rfl hnone ?_ ?_
      · rw [step, h]
      · rw [step, h]
    · exact .submit id payload hid hsub hrecord hnext
  | wake id => exact .quiet _ rfl rfl (wake_record t id).1 (wake_record t id).2
  | timeout id => exact .quiet _ rfl rfl (timeout_record t id).1 (timeout_record t id).2
  | io e => exact .quiet _ rfl rfl rfl rfl
  | message msg =>
    rw [step]
    split
    · exact .quiet _ rfl rfl (onMessage_record t _).1 (onMessage_record t _).2
    · exact .quiet _ rfl rfl rfl rfl
  | readError reason =>
    rw [step]
    split
    · exact .quiet _ rfl rfl (record_respond _ t.pending _) rfl
    · exact .quiet _ rfl rfl rfl rfl

/-! ## What one step writes -/

/-- A step writes and keeps what was held and what it hands over. -/
theorem step_flows {t : HlWsPostTransport} (h : t.ws.Tidy) (e : PostEvent) :
    machine.Flows submitted (fun t => t.ws.unsent) PostObs.wrote? List.Subperm t e := by
  have hquiet : ∀ (t' : HlWsPostTransport) (obs : List PostObs), t'.ws.unsent.Subperm t.ws.unsent →
      obs.filterMap PostObs.wrote? = [] →
      (obs.filterMap PostObs.wrote? ++ t'.ws.unsent).Subperm (t.ws.unsent ++ []) := by
    intro t' obs hsub hobs
    rwa [hobs, List.nil_append, List.append_nil]
  simp only [EventMachine.Flows, machine_step]
  cases e with
  | post payload => exact hquiet _ _ (.refl _) rfl
  | submit id =>
    rcases submit_record t id with ⟨h, hnone⟩ | ⟨payload, -, hsub, -, hws, -⟩
    · rw [step, submitted, h, hnone]
      exact hquiet _ _ (.refl _) rfl
    · rw [step, submitted, hsub, hws, WsClient.unsent_send]
      exact .refl _
  | wake id =>
    rcases wake_cases t id with h | ⟨-, call, body, h⟩
    · rw [step, h]
      exact hquiet _ _ (.refl _) rfl
    · rw [step, h]
      exact hquiet _ _ (.refl _) rfl
  | timeout id =>
    rcases timeout_cases t id with h | ⟨-, call, body, h⟩
    · rw [step, h]
      exact hquiet _ _ (.refl _) rfl
    · rw [step, h]
      exact hquiet _ _ (.refl _) rfl
  | io e =>
    have hwrote : ∀ rs : List PostRequest,
        (rs.map PostObs.wrote).filterMap PostObs.wrote? = rs := fun rs => by
      simp [List.filterMap_map, Function.comp_def, PostObs.wrote?]
    simpa [step, withIo, submitted, hwrote] using WsClient.io_subperm h e
  | message msg =>
    rw [step]
    split
    · refine hquiet _ _ ?_ rfl
      rcases onMessage_cases t msg.toList with h | h | ⟨id, body, h⟩
      · rw [h, WsClient.ioException, WsClient.unsent, WsClient.unsent]
      · rw [h]
      · rw [h]
        exact .refl _
    · exact hquiet _ _ (.refl _) rfl
  | readError reason =>
    rw [step]
    split
    · exact hquiet _ _ t.ws.onReadError_unsent rfl
    · exact hquiet _ _ (.refl _) rfl

/-! ## Runs -/

/-- The requests handed to the client carry the payloads of their calls, one request a call. -/
structure Handed (t : HlWsPostTransport) (posts : List String) (rs : List PostRequest) : Prop where
  next : t.nextId = posts.length + 1
  record : ∀ id payload new, t.record id = some (payload, new) →
    ∃ k, id = k + 1 ∧ posts[k]? = some payload
  handed : ∀ r ∈ rs, t.record r.id = some (r.payload, false)
  distinct : (rs.map PostRequest.id).Nodup

theorem Handed.fresh {t : HlWsPostTransport} {posts : List String} {rs : List PostRequest}
    (h : Handed t posts rs) : t.record t.nextId = none := by
  rcases hrec : t.record t.nextId with _ | ⟨payload, new⟩
  · rfl
  · obtain ⟨k, hk, hpost⟩ := h.record _ _ _ hrec
    have hlt := (List.getElem?_eq_some_iff.mp hpost).1
    have := h.next
    omega

theorem Handed.step {t t' : HlWsPostTransport} {posts : List String} {rs : List PostRequest}
    {e : PostEvent} (h : Handed t posts rs) (m : RecordMove t t' e) :
    Handed t' (posts ++ e.posts?.toList) (rs ++ t.submitted e) := by
  cases m with
  | post payload hrecord hnext =>
    refine ⟨by simp [hnext, h.next, PostEvent.posts?], ?_, ?_,
      by simpa [submitted] using h.distinct⟩
    · intro id payload' new hid
      rw [hrecord] at hid
      by_cases heq : id = t.nextId
      · refine ⟨posts.length, by rw [heq, h.next], ?_⟩
        rw [heq, Function.update_self] at hid
        cases hid
        simp [PostEvent.posts?]
      · rw [Function.update_of_ne heq] at hid
        obtain ⟨k, hk, hpost⟩ := h.record _ _ _ hid
        exact ⟨k, hk, List.getElem?_append_left (List.getElem?_eq_some_iff.mp hpost).1 ▸ hpost⟩
    · intro r hr
      have hr := h.handed r (by simpa [submitted] using hr)
      rw [hrecord, Function.update_of_ne, hr]
      intro heq
      rw [heq, h.fresh] at hr
      cases hr
  | submit id payload hid hsubmitted hrecord hnext =>
    have hnew : ∀ r ∈ rs, r.id ≠ id := by
      rintro r hr rfl
      have := h.handed r hr
      rw [hid] at this
      simp at this
    refine ⟨by simp [hnext, h.next, PostEvent.posts?], ?_, ?_, ?_⟩
    · intro id' payload' new hid'
      rw [hrecord] at hid'
      have hposts : (PostEvent.submit id).posts? = none := rfl
      rw [hposts, Option.toList_none, List.append_nil]
      by_cases heq : id' = id
      · rw [heq, Function.update_self] at hid'
        cases hid'
        exact heq ▸ h.record _ _ _ hid
      · rw [Function.update_of_ne heq] at hid'
        exact h.record _ _ _ hid'
    · intro r hr
      rw [hsubmitted, List.mem_append, List.mem_singleton] at hr
      rw [hrecord]
      rcases hr with hr | rfl
      · rw [Function.update_of_ne (hnew r hr)]
        exact h.handed r hr
      · exact Function.update_self ..
    · rw [hsubmitted, List.map_append, List.map_singleton, List.nodup_append]
      refine ⟨h.distinct, by simp, ?_⟩
      intro a ha b hb
      obtain ⟨r, hr, rfl⟩ := List.mem_map.mp ha
      obtain rfl := List.mem_singleton.mp hb
      exact hnew r hr
  | quiet _ hposts hsubmitted hrecord hnext =>
    rw [hposts, hsubmitted, Option.toList_none, List.append_nil, List.append_nil]
    exact ⟨by rw [hnext, h.next], by rw [hrecord]; exact h.record, by rw [hrecord]; exact h.handed,
      h.distinct⟩

theorem handed_final (es : List PostEvent) :
    Handed (machine.final {} es) (es.filterMap PostEvent.posts?)
      (machine.taken submitted {} es) := by
  induction es using List.reverseRecOn with
  | nil => exact ⟨rfl, fun _ _ _ h => (by cases h), fun _ h => (by cases h), List.nodup_nil⟩
  | append_singleton es e ih =>
    rw [EventMachine.final_snoc, EventMachine.taken_snoc, List.filterMap_append]
    have hnext := ih.step (step_record (machine.final {} es) e)
    have hposts : [e].filterMap PostEvent.posts? = e.posts?.toList := by
      cases e <;> rfl
    rw [hposts]
    exact hnext

/-- However callers, the io thread and the server interleave, no id is written to the socket twice,
and a request written under an id carries the payload of the call of `post_action` that got it: the
first call the id 1, the next one the id 2, and so on. -/
theorem requests_written_once (es : List PostEvent) :
    ((machine.obs {} es).filterMap PostObs.wrote? |>.map PostRequest.id).Nodup ∧
      ∀ r, .wrote r ∈ machine.obs {} es →
        ∃ k, r.id = k + 1 ∧ (es.filterMap PostEvent.posts?)[k]? = some r.payload := by
  have hsteps : machine.Throughout {} (fun _ t e => machine.Flows submitted
      (fun t => t.ws.unsent) PostObs.wrote? List.Subperm t e) es :=
    fun pre e _ => step_flows (reach_final pre).tidy e
  have hflow := EventMachine.flow EventMachine.shrinks_subperm hsteps
  have hsub : ((machine.obs {} es).filterMap PostObs.wrote?).Subperm
      (machine.taken submitted {} es) :=
    (List.sublist_append_left _ _).subperm.trans hflow
  have hhanded := handed_final es
  refine ⟨?_, fun r hr => ?_⟩
  · obtain ⟨rs, hperm, hrs⟩ := hsub
    exact ((hperm.map _).nodup_iff).mp (hhanded.distinct.sublist (hrs.map _))
  · have hmem : r ∈ (machine.obs {} es).filterMap PostObs.wrote? :=
      List.mem_filterMap.mpr ⟨_, hr, rfl⟩
    exact hhanded.record _ _ _ (hhanded.handed r (hsub.subset hmem))

end HlWsPostTransport

/-! ## Sending transactions -/

def SendTxObs.wrote? : SendTxObs → Option SendTxRequest
  | .wrote r => some r
  | _ => none

namespace LighterWsSendTxTransport

/-- The request of a call that takes the slot. -/
def accepted (t : LighterWsSendTxTransport) : SendTxEvent → List SendTxRequest
  | .sendTx txType txInfo => if t.requestInflight then [] else [{ txType, txInfo }]
  | _ => []

theorem wrote_map (rs : List SendTxRequest) :
    (rs.map SendTxObs.wrote).filterMap SendTxObs.wrote? = rs := by
  simp [List.filterMap_map, Function.comp_def, SendTxObs.wrote?]

theorem respond_ws (t : LighterWsSendTxTransport) (body : ResponseBody) :
    (t.respond body).ws = t.ws := by
  unfold respond
  split <;> rfl

/-- What a step does to the client. -/
theorem step_ws (t : LighterWsSendTxTransport) (e : SendTxEvent) :
    (t.step e).1.ws = t.ws ∧ (t.step e).2.filterMap SendTxObs.wrote? = [] ∧ t.accepted e = [] ∨
      (∃ r, (t.step e).1.ws = t.ws.send r ∧ (t.step e).2.filterMap SendTxObs.wrote? = [] ∧
        t.accepted e = [r]) ∨
      (∃ io, (t.step e).1.ws = (t.ws.io io).1 ∧
        (t.step e).2.filterMap SendTxObs.wrote? = (t.ws.io io).2 ∧ t.accepted e = []) ∨
      (t.step e).1.ws = t.ws.onReadError ∧ (t.step e).2.filterMap SendTxObs.wrote? = [] ∧
        t.accepted e = [] := by
  cases e with
  | sendTx txType txInfo =>
    rw [step, sendTx, accepted]
    split
    · exact .inl ⟨rfl, rfl, rfl⟩
    · exact .inr (.inl ⟨_, rfl, rfl, rfl⟩)
  | wake =>
    rw [step]
    split
    · exact .inl ⟨rfl, rfl, rfl⟩
    · exact .inl ⟨rfl, rfl, rfl⟩
  | timeout =>
    rw [step]
    split
    · exact .inl ⟨rfl, rfl, rfl⟩
    · exact .inl ⟨rfl, rfl, rfl⟩
  | io e => exact .inr (.inr (.inl ⟨e, rfl, wrote_map _, rfl⟩))
  | message text answers =>
    rw [step]
    split
    · rw [onMessage]
      split
      · exact .inl ⟨rfl, rfl, rfl⟩
      · exact .inl ⟨respond_ws .., rfl, rfl⟩
    · exact .inl ⟨rfl, rfl, rfl⟩
  | readError reason =>
    rw [step]
    split
    · exact .inr (.inr (.inr ⟨respond_ws .., rfl, rfl⟩))
    · exact .inl ⟨rfl, rfl, rfl⟩

theorem always_tidy (es : List SendTxEvent) : machine.Always {} (fun _ t => t.ws.Tidy) es := by
  refine machine.invariant (P := fun _ t => t.ws.Tidy) ⟨fun _ => rfl, fun _ => rfl⟩ ?_ es
  intro l t e h
  show (t.step e).1.ws.Tidy
  rcases step_ws t e with ⟨hws, -⟩ | ⟨r, hws, -⟩ | ⟨io, hws, -⟩ | ⟨hws, -⟩
  · rwa [hws]
  · rw [hws]
    exact h.send
  · rw [hws]
    exact h.io io
  · rw [hws]
    exact t.ws.onReadError_drains.tidy h

theorem step_flows {t : LighterWsSendTxTransport} (h : t.ws.Tidy) (e : SendTxEvent) :
    machine.Flows accepted (fun t => t.ws.unsent) SendTxObs.wrote? List.Subperm t e := by
  show ((t.step e).2.filterMap SendTxObs.wrote? ++ (t.step e).1.ws.unsent).Subperm
    (t.ws.unsent ++ t.accepted e)
  rcases step_ws t e with ⟨hws, hobs, htake⟩ | ⟨r, hws, hobs, htake⟩ | ⟨io, hws, hobs, htake⟩ |
    ⟨hws, hobs, htake⟩
  · rw [hws, hobs, htake, List.nil_append, List.append_nil]
  · rw [hws, hobs, htake, WsClient.unsent_send, List.nil_append]
  · rw [hws, hobs, htake, List.append_nil]
    exact WsClient.io_subperm h io
  · rw [hws, hobs, htake, List.append_nil, List.nil_append]
    exact t.ws.onReadError_unsent

/-- However callers and the io thread interleave, a transaction is written to the socket at most as
often as calls of `send_tx` with it took the slot. -/
theorem transactions_written_once (es : List SendTxEvent) :
    ((machine.obs {} es).filterMap SendTxObs.wrote?).Subperm (machine.taken accepted {} es) := by
  have hsteps : machine.Throughout {} (fun _ t e => machine.Flows accepted
      (fun t => t.ws.unsent) SendTxObs.wrote? List.Subperm t e) es :=
    fun pre e hp => step_flows ((always_tidy es).before hp) e
  exact (List.sublist_append_left _ _).subperm.trans
    (EventMachine.flow EventMachine.shrinks_subperm hsteps)

end LighterWsSendTxTransport

end Arb
