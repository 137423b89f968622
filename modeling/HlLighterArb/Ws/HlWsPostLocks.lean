import HlLighterArb.Ws.HlWsPost
import Mathlib.Data.Finset.Basic

/-!
# HlLighterArb.Ws.HlWsPostLocks

`HlWsPostTransport` once more, lock by lock. Each acquire and each release of `pending_mu_` or of
the mutex of a record is a step of its own, and so is every entry and exit of a condition wait;
what a thread does between two of them is part of the first. A thread that wants a mutex someone
holds stays where it is.

A run interleaves any number of callers of `post_action` with the io thread, which is in
`on_message` or `on_disconnect` or between two calls. The connection is left out: a message or a
disconnect may come whenever the io thread is free, and a wait may end, early or late, at any time.

* `LockMove`: what one step does, `LockInv` what holds after every run.
* `Answers`: a body a call may return, read off what the run has observed.
* `Deadlocked`: a caller holds the mutex of its record and wants `pending_mu_`, the io thread holds
  `pending_mu_` and wants the mutex of that record.
* `no_deadlock_of_apart`: it takes a wait that runs out before or while `on_disconnect` holds
  `pending_mu_` with the record of that call still to fill in.
-/

namespace Arb

inductive PostThread where
  | caller (id : Nat)
  | io
  deriving DecidableEq

/-- Where a call of `post_action` stands. -/
inductive PostPc where
  /-- Has its id, wants `pending_mu_`. -/
  | entering
  /-- Holds `pending_mu_`, its entry is in. -/
  | registering
  /-- Wants the mutex of its record. -/
  | locking
  /-- Holds it and is about to look at `ready`; `expired` once the wait has run out. -/
  | checking (expired : Bool)
  /-- In the wait, without the mutex. -/
  | waiting
  /-- Out of the wait, wants the mutex back. -/
  | waking (expired : Bool)
  /-- Not ready in time: holds the mutex of its record, wants `pending_mu_`. -/
  | givingUp
  /-- Holds both, its entry is out. -/
  | erasing
  /-- Holds the mutex of its record, the result is made. -/
  | leaving (body : String)
  | returned (body : String)
  deriving DecidableEq

/-- A call of `post_action` and its `PendingResponse`. -/
structure PostRecord where
  pc : PostPc := .entering
  mu : Option PostThread := none
  ready : Bool := false
  body : String := ""
  deriving DecidableEq

/-- Where the io thread stands. -/
inductive PostIoPc where
  | idle
  /-- An exception has ended it. -/
  | dead
  /-- `on_message`, wants `pending_mu_`. -/
  | lookup (id : Nat) (msg : String)
  /-- `on_message`, holds `pending_mu_`; an entry it found is out. -/
  | looked (id : Nat) (msg : String) (found : Bool)
  /-- `on_message`, wants the mutex of the record it found. -/
  | deliver (id : Nat) (msg : String)
  /-- `on_message`, holds it; the body is in. -/
  | delivered (id : Nat)
  /-- `on_disconnect`, wants `pending_mu_`. -/
  | disconnect (reason : String)
  /-- `on_disconnect`, holds `pending_mu_`, with the entries of `todo` to go through. -/
  | failing (reason : String) (todo : Finset Nat)
  /-- `on_disconnect`, holds `pending_mu_`, wants the mutex of the record of `id`. -/
  | failNext (reason : String) (id : Nat) (todo : Finset Nat)
  /-- `on_disconnect`, holds both; the body is in. -/
  | failed (reason : String) (id : Nat) (todo : Finset Nat)
  deriving DecidableEq

structure LockedPostTransport where
  nextId : Nat := 1
  pendingMu : Option PostThread := none
  /-- The ids in `pending_`. -/
  pending : Finset Nat := ∅
  /-- The records of the calls made so far, by their id. -/
  records : Nat → Option PostRecord := fun _ => none
  io : PostIoPc := .idle

inductive LockEvent where
  /-- A thread calls `post_action`. -/
  | post
  | caller (id : Nat)
  /-- The wait of a call ends: notified, for no reason, or because it has run out. -/
  | wake (id : Nat) (expired : Bool)
  | message (msg : String)
  | disconnect (reason : String)
  /-- A step of the io thread; the table is unordered, so `next` is any entry still to go
  through. -/
  | io (next : Nat)

inductive LockObs where
  | registered (id : Nat)
  /-- `on_message` looks `id` up; `found` when it is registered. -/
  | arrived (id : Nat) (msg : String) (found : Bool)
  | disconnected (reason : String)
  | returned (id : Nat) (body : String)
  deriving DecidableEq

namespace LockedPostTransport

def setRecord (t : LockedPostTransport) (id : Nat) (r : PostRecord) : LockedPostTransport :=
  { t with records := Function.update t.records id (some r) }

/-- A thread calls `post_action`: `next_id_.fetch_add` and a new record. -/
def post (t : LockedPostTransport) : LockedPostTransport :=
  { t.setRecord t.nextId {} with nextId := t.nextId + 1 }

/-- The next step of a call of `post_action`. -/
def postAction (t : LockedPostTransport) (id : Nat) (r : PostRecord) :
    LockedPostTransport × List LockObs :=
  match r.pc with
  | .entering =>
    if t.pendingMu = none then
      ({ t.setRecord id { r with pc := .registering } with
          pendingMu := some (.caller id), pending := insert id t.pending }, [.registered id])
    else (t, [])
  | .registering => ({ t.setRecord id { r with pc := .locking } with pendingMu := none }, [])
  | .locking =>
    if r.mu = none then
      (t.setRecord id { r with pc := .checking false, mu := some (.caller id) }, [])
    else (t, [])
  | .checking expired =>
    if r.ready then (t.setRecord id { r with pc := .leaving r.body }, [])
    else if expired then (t.setRecord id { r with pc := .givingUp }, [])
    else (t.setRecord id { r with pc := .waiting, mu := none }, [])
  | .waiting => (t, [])
  | .waking expired =>
    if r.mu = none then
      (t.setRecord id { r with pc := .checking expired, mu := some (.caller id) }, [])
    else (t, [])
  | .givingUp =>
    if t.pendingMu = none then
      ({ t.setRecord id { r with pc := .erasing } with
          pendingMu := some (.caller id), pending := t.pending.erase id }, [])
    else (t, [])
  | .erasing =>
    ({ t.setRecord id { r with pc := .leaving (makeErrorBody "ws_post_timeout") } with
        pendingMu := none }, [])
  | .leaving body =>
    (t.setRecord id { r with pc := .returned body, mu := none }, [.returned id body])
  | .returned _ => (t, [])

/-- The wait of a call ends. -/
def endWait (t : LockedPostTransport) (id : Nat) (expired : Bool) (r : PostRecord) :
    LockedPostTransport :=
  match r.pc with
  | .waiting => t.setRecord id { r with pc := .waking expired }
  | _ => t

/-- The io thread enters `on_message`. -/
def enterMessage (t : LockedPostTransport) (msg : String) : LockedPostTransport :=
  match t.io, parsePostId msg.toList with
  | .idle, .error _ => { t with io := .dead }
  | .idle, .ok (some id) => { t with io := .lookup id msg }
  | _, _ => t

/-- The io thread enters `on_disconnect`. -/
def enterDisconnect (t : LockedPostTransport) (reason : String) : LockedPostTransport :=
  match t.io with
  | .idle => { t with io := .disconnect reason }
  | _ => t

/-- The io thread takes the mutex of a record, if it can, and fills the record in. -/
def fillIn (t : LockedPostTransport) (id : Nat) (body : String) (io : PostIoPc) :
    LockedPostTransport :=
  match t.records id with
  | some r =>
    if r.mu = none then
      { t.setRecord id { r with mu := some .io, ready := true, body } with io }
    else t
  | none => t

/-- The io thread releases the mutex of a record. -/
def releaseRecord (t : LockedPostTransport) (id : Nat) (io : PostIoPc) : LockedPostTransport :=
  match t.records id with
  | some r => { t.setRecord id { r with mu := none } with io }
  | none => t

/-- The next step of the io thread in `on_message` or `on_disconnect`. -/
def handle (t : LockedPostTransport) (next : Nat) : LockedPostTransport × List LockObs :=
  match t.io with
  | .idle => (t, [])
  | .dead => (t, [])
  | .lookup id msg =>
    if t.pendingMu = none then
      ({ t with
          pendingMu := some .io
          pending := t.pending.erase id
          io := .looked id msg (id ∈ t.pending) }, [.arrived id msg (id ∈ t.pending)])
    else (t, [])
  | .looked id msg found =>
    ({ t with pendingMu := none, io := if found then .deliver id msg else .idle }, [])
  | .deliver id msg => (t.fillIn id (responseBody msg.toList) (.delivered id), [])
  | .delivered id => (t.releaseRecord id .idle, [])
  | .disconnect reason =>
    if t.pendingMu = none then
      ({ t with pendingMu := some .io, io := .failing reason t.pending }, [.disconnected reason])
    else (t, [])
  | .failing reason todo =>
    if todo = ∅ then ({ t with pendingMu := none, pending := ∅, io := .idle }, [])
    else if next ∈ todo then ({ t with io := .failNext reason next (todo.erase next) }, [])
    else (t, [])
  | .failNext reason id todo =>
    (t.fillIn id (makeErrorBody ("ws_disconnect_" ++ reason)) (.failed reason id todo), [])
  | .failed reason id todo => (t.releaseRecord id (.failing reason todo), [])

def step (t : LockedPostTransport) : LockEvent → LockedPostTransport × List LockObs
  | .post => (t.post, [])
  | .caller id => match t.records id with
    | some r => t.postAction id r
    | none => (t, [])
  | .wake id expired => match t.records id with
    | some r => (t.endWait id expired r, [])
    | none => (t, [])
  | .message msg => (t.enterMessage msg, [])
  | .disconnect reason => (t.enterDisconnect reason, [])
  | .io next => t.handle next

def machine : EventMachine LockedPostTransport LockEvent LockObs := ⟨step⟩

@[simp] theorem machine_step (t : LockedPostTransport) (e : LockEvent) :
    machine.step t e = t.step e := rfl

/-! ## What one step does -/

/-- A step from `t`: nothing, or one lock step of a caller or of the io thread. -/
inductive LockMove (t : LockedPostTransport) : LockedPostTransport → List LockObs → Prop where
  | quiet : LockMove t t []
  | post : LockMove t t.post []
  | enter {id : Nat} {r : PostRecord} (call : t.records id = some r) (pc : r.pc = .entering)
      (free : t.pendingMu = none) :
      LockMove t { t.setRecord id { r with pc := .registering } with
        pendingMu := some (.caller id), pending := insert id t.pending } [.registered id]
  | register {id : Nat} {r : PostRecord} (call : t.records id = some r) (pc : r.pc = .registering) :
      LockMove t { t.setRecord id { r with pc := .locking } with pendingMu := none } []
  | lock {id : Nat} {r : PostRecord} (expired : Bool) (call : t.records id = some r)
      (pc : r.pc = .locking ∨ r.pc = .waking expired) (free : r.mu = none) :
      LockMove t (t.setRecord id { r with pc := .checking expired, mu := some (.caller id) }) []
  | answered {id : Nat} {r : PostRecord} {expired : Bool} (call : t.records id = some r)
      (pc : r.pc = .checking expired) (ready : r.ready = true) :
      LockMove t (t.setRecord id { r with pc := .leaving r.body }) []
  | giveUp {id : Nat} {r : PostRecord} (call : t.records id = some r)
      (pc : r.pc = .checking true) (unready : r.ready = false) :
      LockMove t (t.setRecord id { r with pc := .givingUp }) []
  | wait {id : Nat} {r : PostRecord} (call : t.records id = some r)
      (pc : r.pc = .checking false) (unready : r.ready = false) :
      LockMove t (t.setRecord id { r with pc := .waiting, mu := none }) []
  | erase {id : Nat} {r : PostRecord} (call : t.records id = some r) (pc : r.pc = .givingUp)
      (free : t.pendingMu = none) :
      LockMove t { t.setRecord id { r with pc := .erasing } with
        pendingMu := some (.caller id), pending := t.pending.erase id } []
  | erased {id : Nat} {r : PostRecord} (call : t.records id = some r) (pc : r.pc = .erasing) :
      LockMove t { t.setRecord id { r with pc := .leaving (makeErrorBody "ws_post_timeout") } with
        pendingMu := none } []
  | leave {id : Nat} {r : PostRecord} {body : String} (call : t.records id = some r)
      (pc : r.pc = .leaving body) :
      LockMove t (t.setRecord id { r with pc := .returned body, mu := none }) [.returned id body]
  | wake {id : Nat} {r : PostRecord} (expired : Bool) (call : t.records id = some r)
      (pc : r.pc = .waiting) :
      LockMove t (t.setRecord id { r with pc := .waking expired }) []
  | throws (idle : t.io = .idle) : LockMove t { t with io := .dead } []
  | message {id : Nat} {msg : String} (idle : t.io = .idle)
      (own : parsePostId msg.toList = .ok (some id)) :
      LockMove t { t with io := .lookup id msg } []
  | disconnect (reason : String) (idle : t.io = .idle) :
      LockMove t { t with io := .disconnect reason } []
  | lookup {id : Nat} {msg : String} (stands : t.io = .lookup id msg) (free : t.pendingMu = none) :
      LockMove t { t with
        pendingMu := some .io
        pending := t.pending.erase id
        io := .looked id msg (id ∈ t.pending) } [.arrived id msg (id ∈ t.pending)]
  | found {id : Nat} {msg : String} (stands : t.io = .looked id msg true) :
      LockMove t { t with pendingMu := none, io := .deliver id msg } []
  | unknown {id : Nat} {msg : String} (stands : t.io = .looked id msg false) :
      LockMove t { t with pendingMu := none, io := .idle } []
  | deliver {id : Nat} {msg : String} {r : PostRecord} (stands : t.io = .deliver id msg)
      (call : t.records id = some r) (free : r.mu = none) :
      LockMove t { t.setRecord id
        { r with mu := some .io, ready := true, body := responseBody msg.toList } with
          io := .delivered id } []
  | delivered {id : Nat} {r : PostRecord} (stands : t.io = .delivered id)
      (call : t.records id = some r) :
      LockMove t { t.setRecord id { r with mu := none } with io := .idle } []
  | fail {reason : String} (stands : t.io = .disconnect reason) (free : t.pendingMu = none) :
      LockMove t { t with pendingMu := some .io, io := .failing reason t.pending }
        [.disconnected reason]
  | clear {reason : String} (stands : t.io = .failing reason ∅) :
      LockMove t { t with pendingMu := none, pending := ∅, io := .idle } []
  | turn {reason : String} {next : Nat} {todo : Finset Nat} (stands : t.io = .failing reason todo)
      (mem : next ∈ todo) :
      LockMove t { t with io := .failNext reason next (todo.erase next) } []
  | fillFailed {reason : String} {id : Nat} {todo : Finset Nat} {r : PostRecord}
      (stands : t.io = .failNext reason id todo) (call : t.records id = some r)
      (free : r.mu = none) :
      LockMove t { t.setRecord id { r with
          mu := some .io, ready := true, body := makeErrorBody ("ws_disconnect_" ++ reason) } with
        io := .failed reason id todo } []
  | failed {reason : String} {id : Nat} {todo : Finset Nat} {r : PostRecord}
      (stands : t.io = .failed reason id todo) (call : t.records id = some r) :
      LockMove t { t.setRecord id { r with mu := none } with io := .failing reason todo } []

section Steps

variable {t t' : LockedPostTransport} {l obs : List LockObs} {e : LockEvent} {id : Nat}
  {r : PostRecord}

theorem postAction_move (call : t.records id = some r) :
    LockMove t (t.postAction id r).1 (t.postAction id r).2 := by
  unfold postAction
  split
  · next pc =>
    split_ifs with free
    · exact .enter call pc free
    · exact .quiet
  · next pc => exact .register call pc
  · next pc =>
    split_ifs with free
    · exact .lock false call (.inl pc) free
    · exact .quiet
  · next expired pc =>
    split_ifs with ready hexpired
    · exact .answered call pc ready
    · exact .giveUp call (hexpired ▸ pc) (Bool.eq_false_iff.mpr ready)
    · exact .wait call (Bool.eq_false_iff.mpr hexpired ▸ pc) (Bool.eq_false_iff.mpr ready)
  · exact .quiet
  · next expired pc =>
    split_ifs with free
    · exact .lock expired call (.inr pc) free
    · exact .quiet
  · next pc =>
    split_ifs with free
    · exact .erase call pc free
    · exact .quiet
  · next pc => exact .erased call pc
  · next body pc => exact .leave call pc
  · exact .quiet

theorem handle_move (t : LockedPostTransport) (next : Nat) :
    LockMove t (t.handle next).1 (t.handle next).2 := by
  unfold handle
  split
  · exact .quiet
  · exact .quiet
  · next id msg stands =>
    split_ifs with free
    · exact .lookup stands free
    · exact .quiet
  · next id msg found stands =>
    cases found with
    | true => exact .found stands
    | false => exact .unknown stands
  · next id msg stands =>
    unfold fillIn
    split
    · next r call =>
      split_ifs with free
      · exact .deliver stands call free
      · exact .quiet
    · exact .quiet
  · next id stands =>
    unfold releaseRecord
    split
    · next r call => exact .delivered stands call
    · exact .quiet
  · next reason stands =>
    split_ifs with free
    · exact .fail stands free
    · exact .quiet
  · next reason todo stands =>
    split_ifs with done mem
    · exact .clear (done ▸ stands)
    · exact .turn stands mem
    · exact .quiet
  · next reason id todo stands =>
    unfold fillIn
    split
    · next r call =>
      split_ifs with free
      · exact .fillFailed stands call free
      · exact .quiet
    · exact .quiet
  · next reason id todo stands =>
    unfold releaseRecord
    split
    · next r call => exact .failed stands call
    · exact .quiet

theorem step_move (t : LockedPostTransport) (e : LockEvent) :
    LockMove t (t.step e).1 (t.step e).2 := by
  cases e with
  | post => exact .post
  | caller id =>
    rw [step]
    split
    · next r call => exact postAction_move call
    · exact .quiet
  | wake id expired =>
    rw [step]
    split
    · next r call =>
      unfold endWait
      split
      · next pc => exact .wake expired call pc
      · exact .quiet
    · exact .quiet
  | message msg =>
    rw [step, enterMessage]
    split
    · next idle _ => exact .throws idle
    · next id idle own => exact .message idle own
    · exact .quiet
  | disconnect reason =>
    rw [step, enterDisconnect]
    split
    · next idle => exact .disconnect reason idle
    · exact .quiet
  | io next => exact handle_move t next

end Steps

/-! ## What a call may return -/

/-- The message, when this is its arrival for the registered `id`. -/
def arrivalFor (id : Nat) : LockObs → Option String
  | .arrived i msg found => if i = id ∧ found then some msg else none
  | _ => none

/-- The first message with the id that arrived while it was registered. -/
def firstArrival (id : Nat) (l : List LockObs) : Option String :=
  l.findSome? (arrivalFor id)

/-- The body answers the call: made of the first message with its own id that arrived while it was
registered, or for a disconnect. -/
def Answered (l : List LockObs) (id : Nat) (body : String) : Prop :=
  (∃ msg, parsePostId msg.toList = .ok (some id) ∧ firstArrival id l = some msg ∧
      body = responseBody msg.toList) ∨
    ∃ reason, .disconnected reason ∈ l ∧ body = makeErrorBody ("ws_disconnect_" ++ reason)

/-- The bodies a call may return. -/
def Answers (l : List LockObs) (id : Nat) (body : String) : Prop :=
  body = makeErrorBody "ws_post_timeout" ∨ Answered l id body

section Arrivals

variable {l l' : List LockObs} {id : Nat} {body msg : String}

theorem firstArrival_append_quiet (h : ∀ o ∈ l', arrivalFor id o = none) :
    firstArrival id (l ++ l') = firstArrival id l := by
  have hl' : l'.findSome? (arrivalFor id) = none := List.findSome?_eq_none_iff.mpr h
  rw [firstArrival, List.findSome?_append, hl', Option.or_none, firstArrival]

theorem firstArrival_append_some (h : firstArrival id l = some msg) :
    firstArrival id (l ++ l') = some msg := by
  rw [firstArrival] at h
  rw [firstArrival, List.findSome?_append, h, Option.some_or]

theorem Answered.append (h : Answered l id body) : Answered (l ++ l') id body := by
  rcases h with ⟨msg, hown, hfirst, hbody⟩ | ⟨reason, hmem, hbody⟩
  · exact .inl ⟨msg, hown, firstArrival_append_some hfirst, hbody⟩
  · exact .inr ⟨reason, List.mem_append_left _ hmem, hbody⟩

theorem Answers.append (h : Answers l id body) : Answers (l ++ l') id body :=
  h.imp_right Answered.append

end Arrivals

/-! ## The invariant -/

end LockedPostTransport

/-- The caller holds the mutex of its record. -/
def PostPc.holdsRecord : PostPc → Prop
  | .checking _ | .givingUp | .erasing | .leaving _ => True
  | _ => False

/-- The caller holds `pending_mu_`. -/
def PostPc.holdsTable : PostPc → Prop
  | .registering | .erasing => True
  | _ => False

/-- The caller has its result, or makes it with its entry out. -/
def PostPc.settled : PostPc → Prop
  | .erasing | .leaving _ | .returned _ => True
  | _ => False

/-- The io thread holds `pending_mu_`. -/
def PostIoPc.holdsTable : PostIoPc → Prop
  | .looked _ _ _ | .failing _ _ | .failNext _ _ _ | .failed _ _ _ => True
  | _ => False

/-- `on_disconnect` has filled in the record of `id` and not cleared the table. -/
def PostIoPc.passed (id : Nat) : PostIoPc → Prop
  | .failing _ todo => id ∉ todo
  | .failNext _ next todo => id ≠ next ∧ id ∉ todo
  | .failed _ _ todo => id ∉ todo
  | _ => False

namespace LockedPostTransport

/-- What holds of the record of a call. -/
structure RecordOk (l : List LockObs) (t : LockedPostTransport) (id : Nat) (r : PostRecord) :
    Prop where
  entering : r.pc = .entering → id ∉ t.pending ∧ firstArrival id l = none ∧ r.ready = false
  table : r.pc.holdsTable → t.pendingMu = some (.caller id)
  mutex : r.pc.holdsRecord → r.mu = some (.caller id)
  answered : r.ready = true → Answered l id r.body
  passed : r.ready = true → id ∈ t.pending → t.io.passed id
  settled : r.pc.settled → r.ready = true ∨ id ∉ t.pending
  result : ∀ body, (r.pc = .leaving body ∨ r.pc = .returned body) → Answers l id body

/-- What holds of the io thread. -/
structure IoOk (l : List LockObs) (t : LockedPostTransport) : Prop where
  table : t.io.holdsTable → t.pendingMu = some .io
  own : ∀ id msg found, (t.io = .lookup id msg ∨ t.io = .looked id msg found ∨
    t.io = .deliver id msg) → parsePostId msg.toList = .ok (some id)
  first : ∀ id msg, (t.io = .looked id msg true ∨ t.io = .deliver id msg) →
    firstArrival id l = some msg
  reason : ∀ reason id todo, (t.io = .failing reason todo ∨ t.io = .failNext reason id todo ∨
    t.io = .failed reason id todo) → .disconnected reason ∈ l ∧ todo ⊆ t.pending
  next : ∀ reason id todo, t.io = .failNext reason id todo → id ∈ t.pending ∧ id ∉ todo
  holds : ∀ reason id todo, (t.io = .delivered id ∨ t.io = .failed reason id todo) →
    ∃ r, t.records id = some r ∧ r.mu = some .io

structure LockInv (l : List LockObs) (t : LockedPostTransport) : Prop where
  fresh : ∀ id, t.nextId ≤ id → t.records id = none
  absent : ∀ id, t.records id = none → id ∉ t.pending ∧ firstArrival id l = none
  unseen : ∀ id ∈ t.pending, firstArrival id l = none
  record : ∀ id r, t.records id = some r → RecordOk l t id r
  io : IoOk l t

section Frames

variable {l obs : List LockObs} {t t' : LockedPostTransport} {id : Nat} {r r' : PostRecord}

/-- A record stays as it should be while others move. -/
theorem RecordOk.frame (h : RecordOk l t id r)
    (hnone : id ∉ t.pending → firstArrival id l = none → firstArrival id (l ++ obs) = none)
    (hpending : id ∈ t'.pending → id ∈ t.pending)
    (htable : t.pendingMu = some (.caller id) → t'.pendingMu = some (.caller id))
    (hpassed : id ∈ t'.pending → t.io.passed id → t'.io.passed id) :
    RecordOk (l ++ obs) t' id r where
  entering hpc := by
    obtain ⟨hout, hfirst, hready⟩ := h.entering hpc
    exact ⟨fun hin => hout (hpending hin), hnone hout hfirst, hready⟩
  table hpc := htable (h.table hpc)
  mutex := h.mutex
  answered hready := (h.answered hready).append
  passed hready hin := hpassed hin (h.passed hready (hpending hin))
  settled hpc := (h.settled hpc).imp_right fun hout hin => hout (hpending hin)
  result body hpc := (h.result body hpc).append

theorem RecordOk.frame_silent (h : RecordOk l t id r)
    (hpending : id ∈ t'.pending → id ∈ t.pending)
    (htable : t.pendingMu = some (.caller id) → t'.pendingMu = some (.caller id))
    (hpassed : id ∈ t'.pending → t.io.passed id → t'.io.passed id) : RecordOk l t' id r := by
  have hnone : id ∉ t.pending → firstArrival id l = none → firstArrival id (l ++ []) = none := by
    simp
  have hframe := h.frame hnone hpending htable hpassed
  rwa [List.append_nil] at hframe

/-- The io thread stays as it should be while a caller moves. -/
theorem IoOk.frame (h : IoOk l t) (hio : t'.io = t.io)
    (htable : t.pendingMu = some .io → t'.pendingMu = some .io ∧ t'.pending = t.pending)
    (hrecords : ∀ id r, t.records id = some r → r.mu = some .io →
      ∃ r', t'.records id = some r' ∧ r'.mu = some .io) : IoOk (l ++ obs) t' where
  table hpc := by
    rw [hio] at hpc
    exact (htable (h.table hpc)).1
  own id msg found hpc := by
    rw [hio] at hpc
    exact h.own id msg found hpc
  first id msg hpc := by
    rw [hio] at hpc
    exact firstArrival_append_some (h.first id msg hpc)
  reason reason id todo hpc := by
    rw [hio] at hpc
    have hheld : t.io.holdsTable := by
      rcases hpc with hpc | hpc | hpc <;> rw [hpc] <;> trivial
    obtain ⟨hmem, hsub⟩ := h.reason reason id todo hpc
    rw [(htable (h.table hheld)).2]
    exact ⟨List.mem_append_left _ hmem, hsub⟩
  next reason id todo hpc := by
    rw [hio] at hpc
    have hheld : t.io.holdsTable := by
      rw [hpc]
      trivial
    rw [(htable (h.table hheld)).2]
    exact h.next reason id todo hpc
  holds reason id todo hpc := by
    rw [hio] at hpc
    obtain ⟨r, hr, hmu⟩ := h.holds reason id todo hpc
    exact hrecords id r hr hmu

/-- A step of the caller of `id` keeps the invariant when it keeps that of its record. -/
theorem LockInv.caller (h : LockInv l t) (call : t.records id = some r)
    (hrecords : t'.records = Function.update t.records id (some r'))
    (hnext : t'.nextId = t.nextId) (hio : t'.io = t.io)
    (hquiet : ∀ id, ∀ o ∈ obs, arrivalFor id o = none)
    (hpending : ∀ id', id' ≠ id → (id' ∈ t'.pending ↔ id' ∈ t.pending))
    (hunseen : id ∈ t'.pending → firstArrival id l = none)
    (htable : ∀ th, th ≠ .caller id → t.pendingMu = some th →
      t'.pendingMu = some th ∧ t'.pending = t.pending)
    (hmu : r.mu = some .io → r'.mu = some .io) (hr : RecordOk (l ++ obs) t' id r') :
    LockInv (l ++ obs) t' where
  fresh id' hid' := by
    rw [hnext] at hid'
    have hne : id' ≠ id := by
      rintro rfl
      rw [h.fresh _ hid'] at call
      cases call
    rw [hrecords, Function.update_of_ne hne]
    exact h.fresh id' hid'
  absent id' hid' := by
    have hne : id' ≠ id := by
      rintro rfl
      rw [hrecords, Function.update_self] at hid'
      cases hid'
    rw [hrecords, Function.update_of_ne hne] at hid'
    rw [hpending id' hne, firstArrival_append_quiet (hquiet id')]
    exact h.absent id' hid'
  unseen id' hid' := by
    rw [firstArrival_append_quiet (hquiet id')]
    by_cases hne : id' = id
    · rw [hne] at hid' ⊢
      exact hunseen hid'
    · exact h.unseen id' ((hpending id' hne).mp hid')
  record id' r'' hid' := by
    by_cases hne : id' = id
    · subst hne
      rw [hrecords, Function.update_self] at hid'
      cases hid'
      exact hr
    · rw [hrecords, Function.update_of_ne hne] at hid'
      refine (h.record id' r'' hid').frame ?_ (hpending id' hne).mp ?_ ?_
      · intro _ hfirst
        rwa [firstArrival_append_quiet (hquiet id')]
      · intro hheld
        exact (htable _ (fun heq => hne (PostThread.caller.inj heq)) hheld).1
      · rw [hio]
        exact fun _ hp => hp
  io := by
    refine h.io.frame hio (htable .io (fun heq => by cases heq)) ?_
    intro id' r'' hid' hheld
    by_cases hne : id' = id
    · subst hne
      rw [call] at hid'
      cases hid'
      exact ⟨r', by rw [hrecords, Function.update_self], hmu hheld⟩
    · exact ⟨r'', by rw [hrecords, Function.update_of_ne hne, hid'], hheld⟩

end Frames

section Invariant

variable {l obs : List LockObs} {t t' : LockedPostTransport} {id : Nat} {r : PostRecord}

/-- The caller moves on in its own record. -/
theorem RecordOk.moveOn (h : RecordOk l t id r) {pc : PostPc} {mu : Option PostThread}
    (hentered : pc ≠ .entering) (hio : t'.io = t.io) (hpending : id ∈ t'.pending → id ∈ t.pending)
    (htable : pc.holdsTable → t'.pendingMu = some (.caller id))
    (hmutex : pc.holdsRecord → mu = some (.caller id))
    (hsettled : pc.settled → r.ready = true ∨ id ∉ t'.pending)
    (hresult : ∀ body, (pc = .leaving body ∨ pc = .returned body) → Answers (l ++ obs) id body) :
    RecordOk (l ++ obs) t' id { r with pc, mu } where
  entering hpc := absurd hpc hentered
  table := htable
  mutex := hmutex
  answered hready := (h.answered hready).append
  passed hready hin := by
    rw [hio]
    exact h.passed hready (hpending hin)
  settled := hsettled
  result := hresult

/-- A step of a caller that leaves the table alone. -/
theorem LockInv.callerApart (h : LockInv l t) (call : t.records id = some r) {pc : PostPc}
    {mu : Option PostThread} (hquiet : ∀ id, ∀ o ∈ obs, arrivalFor id o = none)
    (hmu : r.mu = some .io → mu = some .io) (hentered : pc ≠ .entering) (htable : ¬ pc.holdsTable)
    (hmutex : pc.holdsRecord → mu = some (.caller id))
    (hsettled : pc.settled → r.ready = true ∨ id ∉ t.pending)
    (hresult : ∀ body, (pc = .leaving body ∨ pc = .returned body) → Answers l id body) :
    LockInv (l ++ obs) (t.setRecord id { r with pc, mu }) :=
  h.caller call rfl rfl rfl hquiet (fun _ _ => Iff.rfl) (h.unseen id) (fun _ _ hth => ⟨hth, rfl⟩)
    hmu <| (h.record id r call).moveOn hentered rfl (fun hin => hin) (fun hpc => absurd hpc htable)
      hmutex hsettled fun body hpc => (hresult body hpc).append

theorem LockInv.post (h : LockInv l t) : LockInv l t.post := by
  have hnone : t.records t.nextId = none := h.fresh _ le_rfl
  obtain ⟨hout, hfirst⟩ := h.absent _ hnone
  have hother : ∀ id, id ≠ t.nextId → t.post.records id = t.records id :=
    fun id hne => Function.update_of_ne hne _ _
  refine { fresh := ?_, absent := ?_, unseen := h.unseen, record := ?_, io := ?_ }
  · intro id hid
    have hlt : t.nextId < id := hid
    rw [hother id hlt.ne']
    exact h.fresh id hlt.le
  · intro id hid
    by_cases hne : id = t.nextId
    · rw [hne]
      exact ⟨hout, hfirst⟩
    · exact h.absent id (hother id hne ▸ hid)
  · intro id r hid
    by_cases hne : id = t.nextId
    · subst hne
      obtain rfl : ({} : PostRecord) = r := by
        simpa [LockedPostTransport.post, setRecord] using hid
      exact {
        entering := fun _ => ⟨hout, hfirst, rfl⟩
        table := fun hpc => hpc.elim
        mutex := fun hpc => hpc.elim
        answered := fun hready => by cases hready
        passed := fun hready => by cases hready
        settled := fun hpc => hpc.elim
        result := fun body hpc => by rcases hpc with hpc | hpc <;> cases hpc }
    · rw [hother id hne] at hid
      exact (h.record id r hid).frame_silent (fun hin => hin) (fun hth => hth) fun _ hp => hp
  · have hframe : ∀ id r, t.records id = some r → r.mu = some .io →
        ∃ r', t.post.records id = some r' ∧ r'.mu = some .io := by
      intro id r hid hmu
      have hne : id ≠ t.nextId := by
        rintro rfl
        rw [hnone] at hid
        cases hid
      exact ⟨r, by rw [hother id hne, hid], hmu⟩
    have hio : IoOk (l ++ []) t.post := h.io.frame rfl (fun hth => ⟨hth, rfl⟩) hframe
    rwa [List.append_nil] at hio

/-- The caller takes `pending_mu_` and puts its entry in. -/
theorem LockInv.enter (h : LockInv l t) (call : t.records id = some r) (pc : r.pc = .entering)
    (free : t.pendingMu = none) :
    LockInv (l ++ [.registered id]) { t.setRecord id { r with pc := .registering } with
      pendingMu := some (.caller id), pending := insert id t.pending } := by
  obtain ⟨-, hfirst, hready⟩ := (h.record id r call).entering pc
  have hquiet : ∀ id', ∀ o ∈ [LockObs.registered id], arrivalFor id' o = none := by
    intro id' o ho
    rw [List.mem_singleton.mp ho]
    rfl
  refine h.caller call rfl rfl rfl hquiet ?_ (fun _ => hfirst) ?_ (fun hmu => hmu) {
    entering := fun hpc => by cases hpc
    table := fun _ => rfl
    mutex := fun hpc => hpc.elim
    answered := fun hr => Bool.noConfusion (hready.symm.trans hr)
    passed := fun hr => Bool.noConfusion (hready.symm.trans hr)
    settled := fun hpc => hpc.elim
    result := fun body hpc => by rcases hpc with hpc | hpc <;> cases hpc }
  · intro id' hne
    simp [hne]
  · intro th _ hth
    rw [free] at hth
    cases hth

/-- The caller releases `pending_mu_` once its entry is in. -/
theorem LockInv.register (h : LockInv l t) (call : t.records id = some r)
    (pc : r.pc = .registering) :
    LockInv (l ++ []) { t.setRecord id { r with pc := .locking } with pendingMu := none } := by
  have hr := h.record id r call
  have hheld : t.pendingMu = some (.caller id) := hr.table (by rw [pc]; trivial)
  refine h.caller call rfl rfl rfl (by simp) (fun _ _ => Iff.rfl) (h.unseen id) ?_ (fun hmu => hmu)
    (hr.moveOn (by simp) rfl (fun hin => hin) False.elim False.elim False.elim ?_)
  · intro th hne hth
    exact absurd (Option.some.inj (hth.symm.trans hheld)) hne
  · rintro body (hpc | hpc) <;> cases hpc

/-- The caller takes `pending_mu_` after its wait has run out, and takes its entry out. -/
theorem LockInv.erase (h : LockInv l t) (call : t.records id = some r) (pc : r.pc = .givingUp)
    (free : t.pendingMu = none) :
    LockInv (l ++ []) { t.setRecord id { r with pc := .erasing } with
      pendingMu := some (.caller id), pending := t.pending.erase id } := by
  have hr := h.record id r call
  have hmu : r.mu = some (.caller id) := hr.mutex (by rw [pc]; trivial)
  refine h.caller call rfl rfl rfl (by simp) ?_ (fun hin => absurd hin (by simp)) ?_
    (fun hmu => hmu) (hr.moveOn (by simp) rfl (fun hin => absurd hin (by simp)) (fun _ => rfl)
      (fun _ => hmu) (fun _ => .inr (by simp)) ?_)
  · intro id' hne
    simp [hne]
  · intro th _ hth
    rw [free] at hth
    cases hth
  · rintro body (hpc | hpc) <;> cases hpc

/-- The caller releases `pending_mu_` with its entry out. -/
theorem LockInv.erased (h : LockInv l t) (call : t.records id = some r) (pc : r.pc = .erasing) :
    LockInv (l ++ []) { t.setRecord id
      { r with pc := .leaving (makeErrorBody "ws_post_timeout") } with pendingMu := none } := by
  have hr := h.record id r call
  have hheld : t.pendingMu = some (.caller id) := hr.table (by rw [pc]; trivial)
  have hmu : r.mu = some (.caller id) := hr.mutex (by rw [pc]; trivial)
  refine h.caller call rfl rfl rfl (by simp) (fun _ _ => Iff.rfl) (h.unseen id) ?_ (fun hmu => hmu)
    (hr.moveOn (by simp) rfl (fun hin => hin) False.elim (fun _ => hmu)
      (fun _ => hr.settled (by rw [pc]; trivial)) ?_)
  · intro th hne hth
    exact absurd (Option.some.inj (hth.symm.trans hheld)) hne
  · rintro body (hpc | hpc)
    · cases hpc
      exact .inl rfl
    · cases hpc

/-- A step of the io thread that leaves the records alone. -/
theorem LockInv.ioApart (h : LockInv l t) (hrecords : t'.records = t.records)
    (hnext : t'.nextId = t.nextId) (hpending : t'.pending ⊆ t.pending)
    (hnone : ∀ id, id ∉ t.pending → firstArrival id l = none → firstArrival id (l ++ obs) = none)
    (hunseen : ∀ id ∈ t'.pending, firstArrival id l = none → firstArrival id (l ++ obs) = none)
    (htable : ∀ id, t.pendingMu = some (.caller id) → t'.pendingMu = some (.caller id))
    (hpassed : ∀ id ∈ t'.pending, t.io.passed id → t'.io.passed id) (hio : IoOk (l ++ obs) t') :
    LockInv (l ++ obs) t' where
  fresh id hid := by
    rw [hrecords]
    exact h.fresh id (hnext ▸ hid)
  absent id hid := by
    rw [hrecords] at hid
    obtain ⟨hout, hfirst⟩ := h.absent id hid
    exact ⟨fun hin => hout (hpending hin), hnone id hout hfirst⟩
  unseen id hid := hunseen id hid (h.unseen id (hpending hid))
  record id r hid := by
    rw [hrecords] at hid
    exact (h.record id r hid).frame (hnone id) (fun hin => hpending hin) (htable id) (hpassed id)
  io := hio

theorem LockInv.ioSilent (h : LockInv l t) (hrecords : t'.records = t.records)
    (hnext : t'.nextId = t.nextId) (hpending : t'.pending ⊆ t.pending)
    (htable : ∀ id, t.pendingMu = some (.caller id) → t'.pendingMu = some (.caller id))
    (hpassed : ∀ id ∈ t'.pending, t.io.passed id → t'.io.passed id) (hio : IoOk l t') :
    LockInv l t' := by
  rw [← List.append_nil l] at hio
  have hinv := h.ioApart hrecords hnext hpending (by simp) (by simp) htable hpassed hio
  rwa [List.append_nil] at hinv

/-- A step of the io thread in a record. -/
theorem LockInv.ioRecord (h : LockInv l t) (call : t.records id = some r) {r' : PostRecord}
    {io : PostIoPc} (hpassed : ∀ id', id' ≠ id → t.io.passed id' → io.passed id')
    (hr : RecordOk l { t.setRecord id r' with io } id r')
    (hio : IoOk l { t.setRecord id r' with io }) : LockInv l { t.setRecord id r' with io } where
  fresh id' hid' := by
    have hne : id' ≠ id := by
      rintro rfl
      rw [h.fresh _ hid'] at call
      cases call
    exact (Function.update_of_ne hne _ _).trans (h.fresh id' hid')
  absent id' hid' := by
    have hne : id' ≠ id := by
      rintro rfl
      simp [setRecord] at hid'
    exact h.absent id' ((Function.update_of_ne hne _ _).symm.trans hid')
  unseen := h.unseen
  record id' r'' hid' := by
    by_cases hne : id' = id
    · subst hne
      obtain rfl : r' = r'' := by simpa [setRecord] using hid'
      exact hr
    · have hold : t.records id' = some r'' := (Function.update_of_ne hne _ _).symm.trans hid'
      exact (h.record id' r'' hold).frame_silent (fun hin => hin) (fun hth => hth)
        fun _ hp => hpassed id' hne hp
  io := hio

/-- The io thread enters a handler, or ends. -/
theorem LockInv.enterIo (h : LockInv l t) (idle : t.io = .idle) {io : PostIoPc}
    (hown : ∀ id msg, io = .lookup id msg → parsePostId msg.toList = .ok (some id))
    (hpc : io = .dead ∨ (∃ id msg, io = .lookup id msg) ∨ ∃ reason, io = .disconnect reason) :
    LockInv l { t with io } := by
  have hio : IoOk l { t with io } := by
    rcases hpc with rfl | ⟨id, msg, rfl⟩ | ⟨reason, rfl⟩
    · exact ⟨False.elim, by simp, by simp, by simp, by simp, by simp⟩
    · refine ⟨False.elim, ?_, by simp, by simp, by simp, by simp⟩
      intro id' msg' found hat
      simp only [PostIoPc.lookup.injEq, reduceCtorEq, or_false] at hat
      obtain ⟨rfl, rfl⟩ := hat
      exact hown id msg rfl
    · exact ⟨False.elim, by simp, by simp, by simp, by simp, by simp⟩
  exact h.ioSilent rfl rfl (fun _ hid => hid) (fun _ hth => hth)
    (by simp [idle, PostIoPc.passed]) hio

/-- `on_message` looks its id up under `pending_mu_`. -/
theorem LockInv.lookup (h : LockInv l t) {msg : String} (stands : t.io = .lookup id msg)
    (free : t.pendingMu = none) :
    LockInv (l ++ [.arrived id msg (id ∈ t.pending)]) { t with
      pendingMu := some .io
      pending := t.pending.erase id
      io := .looked id msg (id ∈ t.pending) } := by
  have hother : ∀ id', id' ≠ id →
      firstArrival id' (l ++ [.arrived id msg (id ∈ t.pending)]) = firstArrival id' l := by
    intro id' hne
    refine firstArrival_append_quiet fun o ho => ?_
    rw [List.mem_singleton.mp ho]
    simp [arrivalFor, hne.symm]
  refine h.ioApart rfl rfl (Finset.erase_subset _ _) ?_ ?_ ?_ ?_ ?_
  · intro id' hout hfirst
    by_cases hne : id' = id
    · subst hne
      rw [firstArrival_append_quiet fun o ho => by
        rw [List.mem_singleton.mp ho]
        simp [arrivalFor, hout]]
      exact hfirst
    · rw [hother id' hne]
      exact hfirst
  · intro id' hin hfirst
    rw [hother id' (Finset.ne_of_mem_erase hin)]
    exact hfirst
  · intro id' hth
    rw [free] at hth
    cases hth
  · intro id' _ hpassed
    rw [stands] at hpassed
    exact hpassed.elim
  · refine ⟨fun _ => rfl, ?_, ?_, by simp, by simp, by simp⟩
    · intro id' msg' found hat
      simp only [reduceCtorEq, PostIoPc.looked.injEq, or_false, false_or] at hat
      obtain ⟨rfl, rfl, -⟩ := hat
      exact h.io.own id msg false (.inl stands)
    · intro id' msg' hat
      simp only [reduceCtorEq, PostIoPc.looked.injEq, or_false, decide_eq_true_eq] at hat
      obtain ⟨rfl, rfl, hin⟩ := hat
      have hfirst := h.unseen id hin
      rw [firstArrival] at hfirst
      simp [firstArrival, List.findSome?_append, hfirst, arrivalFor, hin]

/-- `on_message` releases `pending_mu_`. -/
theorem LockInv.looked (h : LockInv l t) {msg : String} {found : Bool}
    (stands : t.io = .looked id msg found) :
    LockInv l { t with pendingMu := none, io := if found then .deliver id msg else .idle } := by
  have hheld : t.pendingMu = some .io := h.io.table (by rw [stands]; trivial)
  have hio : IoOk l { t with
      pendingMu := none, io := if found then .deliver id msg else .idle } := by
    cases found with
    | false => exact ⟨False.elim, by simp, by simp, by simp, by simp, by simp⟩
    | true =>
      refine ⟨False.elim, ?_, ?_, by simp, by simp, by simp⟩
      · intro id' msg' found' hat
        simp only [↓reduceIte, reduceCtorEq, PostIoPc.deliver.injEq, false_or] at hat
        obtain ⟨rfl, rfl⟩ := hat
        exact h.io.own id msg true (.inr (.inl stands))
      · intro id' msg' hat
        simp only [↓reduceIte, reduceCtorEq, PostIoPc.deliver.injEq, false_or] at hat
        obtain ⟨rfl, rfl⟩ := hat
        exact h.io.first id msg (.inl stands)
  refine h.ioSilent rfl rfl (fun _ hid => hid) ?_ ?_ hio
  · intro id' hth
    rw [hheld] at hth
    cases hth
  · intro id' _ hpassed
    rw [stands] at hpassed
    exact hpassed.elim

/-- `on_disconnect` takes `pending_mu_`. -/
theorem LockInv.fail (h : LockInv l t) {reason : String} (stands : t.io = .disconnect reason)
    (free : t.pendingMu = none) :
    LockInv (l ++ [.disconnected reason]) { t with
      pendingMu := some .io, io := .failing reason t.pending } := by
  have hquiet : ∀ id, firstArrival id (l ++ [.disconnected reason]) = firstArrival id l := by
    intro id
    refine firstArrival_append_quiet fun o ho => ?_
    rw [List.mem_singleton.mp ho]
    rfl
  refine h.ioApart rfl rfl (fun _ hid => hid) ?_ ?_ ?_ ?_ ?_
  · intro id _ hfirst
    rw [hquiet]
    exact hfirst
  · intro id _ hfirst
    rw [hquiet]
    exact hfirst
  · intro id hth
    rw [free] at hth
    cases hth
  · intro id _ hpassed
    rw [stands] at hpassed
    exact hpassed.elim
  · refine ⟨fun _ => rfl, by simp, by simp, ?_, by simp, by simp⟩
    intro reason' id todo hat
    simp only [PostIoPc.failing.injEq, reduceCtorEq, or_false] at hat
    obtain ⟨rfl, rfl⟩ := hat
    exact ⟨List.mem_append_right _ (List.mem_singleton.mpr rfl), fun _ hid => hid⟩

/-- `on_disconnect` clears the table and releases `pending_mu_`. -/
theorem LockInv.clear (h : LockInv l t) {reason : String} (stands : t.io = .failing reason ∅) :
    LockInv l { t with pendingMu := none, pending := ∅, io := .idle } := by
  have hheld : t.pendingMu = some .io := h.io.table (by rw [stands]; trivial)
  refine h.ioSilent rfl rfl (Finset.empty_subset _) ?_ (by simp)
    ⟨False.elim, by simp, by simp, by simp, by simp, by simp⟩
  intro id' hth
  rw [hheld] at hth
  cases hth

/-- `on_disconnect` turns to the next entry. -/
theorem LockInv.turn (h : LockInv l t) {reason : String} {next : Nat} {todo : Finset Nat}
    (stands : t.io = .failing reason todo) (mem : next ∈ todo) :
    LockInv l { t with io := .failNext reason next (todo.erase next) } := by
  have hheld : t.pendingMu = some .io := h.io.table (by rw [stands]; trivial)
  obtain ⟨hreason, hsub⟩ := h.io.reason reason next todo (.inl stands)
  have hio : IoOk l { t with io := .failNext reason next (todo.erase next) } := by
    refine ⟨fun _ => hheld, by simp, by simp, ?_, ?_, by simp⟩
    · intro reason' id todo' hat
      simp only [reduceCtorEq, PostIoPc.failNext.injEq, or_false, false_or] at hat
      obtain ⟨rfl, -, rfl⟩ := hat
      exact ⟨hreason, (Finset.erase_subset _ _).trans hsub⟩
    · intro reason' id todo' hat
      simp only [PostIoPc.failNext.injEq] at hat
      obtain ⟨-, rfl, rfl⟩ := hat
      exact ⟨hsub mem, Finset.notMem_erase _ _⟩
  refine h.ioSilent rfl rfl (fun _ hid => hid) (fun _ hth => hth) ?_ hio
  intro id _ hpassed
  rw [stands] at hpassed
  refine ⟨?_, fun hin => hpassed (Finset.mem_of_mem_erase hin)⟩
  rintro rfl
  exact hpassed mem

/-- The io thread fills a record in, and its call has an answer. -/
theorem RecordOk.fillIn (h : RecordOk l t id r) (free : r.mu = none) (hentered : r.pc ≠ .entering)
    {io : PostIoPc} {r' : PostRecord} {body : String} (hanswered : Answered l id body)
    (hpassed : id ∈ t.pending → io.passed id) :
    RecordOk l { t.setRecord id r' with io } id
      { r with mu := some .io, ready := true, body } where
  entering hpc := absurd hpc hentered
  table := h.table
  mutex hpc := by
    have hmu := h.mutex hpc
    rw [free] at hmu
    cases hmu
  answered _ := hanswered
  passed _ hin := hpassed hin
  settled _ := .inl rfl
  result := h.result

/-- The io thread releases a record. -/
theorem RecordOk.release (h : RecordOk l t id r) (held : r.mu = some .io) {io : PostIoPc}
    {r' : PostRecord} (hpassed : t.io.passed id → io.passed id) :
    RecordOk l { t.setRecord id r' with io } id { r with mu := none } where
  entering := h.entering
  table := h.table
  mutex hpc := by
    have hmu := h.mutex hpc
    rw [held] at hmu
    cases hmu
  answered := h.answered
  passed hready hid := hpassed (h.passed hready hid)
  settled := h.settled
  result := h.result

/-- `on_message` fills in the record it found. -/
theorem LockInv.deliver (h : LockInv l t) {msg : String} (stands : t.io = .deliver id msg)
    (call : t.records id = some r) (free : r.mu = none) :
    LockInv l { t.setRecord id
      { r with mu := some .io, ready := true, body := responseBody msg.toList } with
        io := .delivered id } := by
  have hr := h.record id r call
  have hfirst := h.io.first id msg (.inr stands)
  have hout : id ∉ t.pending := by
    intro hin
    rw [h.unseen id hin] at hfirst
    cases hfirst
  have hentered : r.pc ≠ .entering := by
    intro hpc
    rw [(hr.entering hpc).2.1] at hfirst
    cases hfirst
  have hown := h.io.own id msg false (.inr (.inr stands))
  refine h.ioRecord call ?_
    (hr.fillIn free hentered (.inl ⟨msg, hown, hfirst, rfl⟩) fun hin => absurd hin hout) ?_
  · intro id' _ hpassed
    rw [stands] at hpassed
    exact hpassed.elim
  · refine ⟨False.elim, by simp, by simp, by simp, by simp, ?_⟩
    intro _ id' _ hat
    simp only [PostIoPc.delivered.injEq, reduceCtorEq, or_false] at hat
    subst hat
    exact ⟨_, Function.update_self .., rfl⟩

/-- `on_message` releases the record it filled in. -/
theorem LockInv.delivered (h : LockInv l t) (stands : t.io = .delivered id)
    (call : t.records id = some r) :
    LockInv l { t.setRecord id { r with mu := none } with io := .idle } := by
  obtain ⟨r', hr', held⟩ := h.io.holds "" id ∅ (.inl stands)
  obtain rfl : r = r' := Option.some.inj (call.symm.trans hr')
  have hpassed : ∀ id', t.io.passed id' → PostIoPc.idle.passed id' := by
    intro id' hp
    rw [stands] at hp
    exact hp
  exact h.ioRecord call (fun id' _ => hpassed id') ((h.record id r call).release held (hpassed id))
    ⟨False.elim, by simp, by simp, by simp, by simp, by simp⟩

/-- `on_disconnect` fills in the record it has turned to. -/
theorem LockInv.fillFailed (h : LockInv l t) {reason : String} {todo : Finset Nat}
    (stands : t.io = .failNext reason id todo) (call : t.records id = some r) (free : r.mu = none) :
    LockInv l { t.setRecord id { r with
        mu := some .io, ready := true, body := makeErrorBody ("ws_disconnect_" ++ reason) } with
      io := .failed reason id todo } := by
  have hr := h.record id r call
  have hheld : t.pendingMu = some .io := h.io.table (by rw [stands]; trivial)
  obtain ⟨hreason, hsub⟩ := h.io.reason reason id todo (.inr (.inl stands))
  obtain ⟨hin, htodo⟩ := h.io.next reason id todo stands
  have hentered : r.pc ≠ .entering := fun hpc => (hr.entering hpc).1 hin
  refine h.ioRecord call ?_
    (hr.fillIn free hentered (.inr ⟨reason, hreason, rfl⟩) fun _ => htodo) ?_
  · intro id' _ hpassed
    rw [stands] at hpassed
    exact hpassed.2
  · refine ⟨fun _ => hheld, by simp, by simp, ?_, by simp, ?_⟩
    · intro reason' id' todo' hat
      simp only [reduceCtorEq, PostIoPc.failed.injEq, false_or] at hat
      obtain ⟨rfl, -, rfl⟩ := hat
      exact ⟨hreason, hsub⟩
    · intro reason' id' todo' hat
      simp only [reduceCtorEq, PostIoPc.failed.injEq, false_or] at hat
      obtain ⟨-, rfl, -⟩ := hat
      exact ⟨_, Function.update_self .., rfl⟩

/-- `on_disconnect` releases the record it filled in. -/
theorem LockInv.failed (h : LockInv l t) {reason : String} {todo : Finset Nat}
    (stands : t.io = .failed reason id todo) (call : t.records id = some r) :
    LockInv l { t.setRecord id { r with mu := none } with io := .failing reason todo } := by
  obtain ⟨r', hr', held⟩ := h.io.holds reason id todo (.inr stands)
  obtain rfl : r = r' := Option.some.inj (call.symm.trans hr')
  have hheld : t.pendingMu = some .io := h.io.table (by rw [stands]; trivial)
  have hreason := h.io.reason reason id todo (.inr (.inr stands))
  have hpassed : ∀ id', t.io.passed id' → (PostIoPc.failing reason todo).passed id' := by
    intro id' hp
    rw [stands] at hp
    exact hp
  refine h.ioRecord call (fun id' _ => hpassed id')
    ((h.record id r call).release held (hpassed id)) ⟨fun _ => hheld, by simp, by simp, ?_, by simp,
      by simp⟩
  intro reason' id' todo' hat
  simp only [reduceCtorEq, PostIoPc.failing.injEq, or_false] at hat
  obtain ⟨rfl, rfl⟩ := hat
  exact hreason

theorem LockMove.inv (m : LockMove t t' obs) (h : LockInv l t) : LockInv (l ++ obs) t' := by
  cases m with
  | quiet => simpa using h
  | post => simpa using h.post
  | enter call pc free => exact h.enter call pc free
  | register call pc => exact h.register call pc
  | lock expired call pc free =>
    refine h.callerApart call (by simp) (by simp [free]) (by simp) (fun hpc => hpc)
      (fun _ => rfl) False.elim ?_
    rintro body (hpc | hpc) <;> cases hpc
  | answered call pc ready =>
    have hr := h.record _ _ call
    refine h.callerApart call (by simp) (fun hmu => hmu) (by simp) (fun hpc => hpc)
      (fun _ => hr.mutex (by rw [pc]; trivial)) (fun _ => .inl ready) ?_
    rintro body (hpc | hpc)
    · cases hpc
      exact .inr (hr.answered ready)
    · cases hpc
  | giveUp call pc unready =>
    have hr := h.record _ _ call
    refine h.callerApart call (by simp) (fun hmu => hmu) (by simp) (fun hpc => hpc)
      (fun _ => hr.mutex (by rw [pc]; trivial)) False.elim ?_
    rintro body (hpc | hpc) <;> cases hpc
  | wait call pc unready =>
    have hmutex := (h.record _ _ call).mutex (by rw [pc]; trivial)
    refine h.callerApart call (by simp) (by simp [hmutex]) (by simp) (fun hpc => hpc)
      False.elim False.elim ?_
    rintro body (hpc | hpc) <;> cases hpc
  | erase call pc free => exact h.erase call pc free
  | erased call pc => exact h.erased call pc
  | leave call pc =>
    have hr := h.record _ _ call
    have hmutex := hr.mutex (by rw [pc]; trivial)
    refine h.callerApart call ?_ (by simp [hmutex]) (by simp) (fun hpc => hpc) False.elim
      (fun _ => hr.settled (by rw [pc]; trivial)) ?_
    · intro id' o ho
      rw [List.mem_singleton.mp ho]
      rfl
    · rintro body (hpc | hpc)
      · cases hpc
      · cases hpc
        exact hr.result _ (.inl pc)
  | wake expired call pc =>
    refine h.callerApart call (by simp) (fun hmu => hmu) (by simp) (fun hpc => hpc)
      False.elim False.elim ?_
    rintro body (hpc | hpc) <;> cases hpc
  | throws idle =>
    rw [List.append_nil]
    exact h.enterIo idle (fun _ _ hat => by cases hat) (.inl rfl)
  | @message id msg idle own =>
    rw [List.append_nil]
    refine h.enterIo idle ?_ (.inr (.inl ⟨id, msg, rfl⟩))
    intro id' msg' hat
    cases hat
    exact own
  | disconnect reason idle =>
    rw [List.append_nil]
    exact h.enterIo idle (fun _ _ hat => by cases hat) (.inr (.inr ⟨reason, rfl⟩))
  | lookup stands free => exact h.lookup stands free
  | found stands =>
    rw [List.append_nil]
    exact h.looked stands
  | unknown stands =>
    rw [List.append_nil]
    exact h.looked stands
  | deliver stands call free =>
    rw [List.append_nil]
    exact h.deliver stands call free
  | delivered stands call =>
    rw [List.append_nil]
    exact h.delivered stands call
  | fail stands free => exact h.fail stands free
  | clear stands =>
    rw [List.append_nil]
    exact h.clear stands
  | turn stands mem =>
    rw [List.append_nil]
    exact h.turn stands mem
  | fillFailed stands call free =>
    rw [List.append_nil]
    exact h.fillFailed stands call free
  | failed stands call =>
    rw [List.append_nil]
    exact h.failed stands call

theorem LockInv.init : LockInv [] {} where
  fresh _ _ := rfl
  absent id _ := ⟨Finset.notMem_empty id, rfl⟩
  unseen id hid := absurd hid (Finset.notMem_empty id)
  record id r hid := by cases hid
  io := ⟨False.elim, by simp, by simp, by simp, by simp, by simp⟩

theorem lockInv_always (es : List LockEvent) : machine.Always {} LockInv es :=
  machine.invariant LockInv.init (fun _ t e h => (step_move t e).inv h) es

end Invariant

/-! ## Every call gets its own answer -/

def pcOf (t : LockedPostTransport) (id : Nat) : Option PostPc :=
  (t.records id).map (·.pc)

section Returned

variable {l obs : List LockObs} {t t' : LockedPostTransport} {id id' : Nat} {r : PostRecord}
  {body : String}

theorem pcOf_of_call (call : t.records id = some r) : t.pcOf id = some r.pc := by
  rw [pcOf, call]
  rfl

theorem pcOf_setRecord :
    (t.setRecord id' r).pcOf id = if id = id' then some r.pc else t.pcOf id := by
  by_cases h : id = id'
  · simp [pcOf, setRecord, h]
  · simp [pcOf, setRecord, h]

/-- A call that has returned stays returned. -/
theorem LockMove.stays_returned (m : LockMove t t' obs) (h : LockInv l t)
    (hid : t.pcOf id = some (.returned body)) : t'.pcOf id = some (.returned body) := by
  have hset : ∀ {id' r r'}, t.records id' = some r →
      (r.pc = .returned body → r'.pc = .returned body) →
      (t.setRecord id' r').pcOf id = some (.returned body) := by
    intro id' r r' call hpc
    rw [pcOf_setRecord]
    split_ifs with heq
    · subst heq
      rw [pcOf_of_call call] at hid
      rw [hpc (Option.some.inj hid)]
    · exact hid
  have hpost : t.post.pcOf id = some (.returned body) := by
    refine pcOf_setRecord.trans ?_
    rw [if_neg ?_, hid]
    rintro rfl
    rw [pcOf, h.fresh _ le_rfl] at hid
    cases hid
  cases m with
  | quiet | throws | message | disconnect | lookup | found | unknown | fail | clear | turn =>
    exact hid
  | post => exact hpost
  | enter call pc | register call pc | answered call pc | giveUp call pc | wait call pc
  | erase call pc | erased call pc | leave call pc | wake expired call pc =>
    exact hset call fun hret => by rw [pc] at hret; cases hret
  | lock expired call pc =>
    refine hset call fun hret => ?_
    rcases pc with pc | pc <;> rw [pc] at hret <;> cases hret
  | deliver _ call | delivered _ call | fillFailed _ call | failed _ call =>
    exact hset call fun hret => hret

/-- A call returns by its last step. -/
theorem LockMove.returned (m : LockMove t t' obs) (h : .returned id body ∈ obs) :
    t'.pcOf id = some (.returned body) := by
  cases m with
  | leave call pc =>
    obtain ⟨rfl, rfl⟩ : id = _ ∧ body = _ := by simpa using h
    rw [pcOf_setRecord, if_pos rfl]
  | enter | lookup | fail => simp at h
  | _ => cases h

theorem returned_always (es : List LockEvent) :
    machine.Always {} (fun l t => LockInv l t ∧
      ∀ id body, .returned id body ∈ l → t.pcOf id = some (.returned body)) es := by
  refine machine.invariant ⟨LockInv.init, fun _ _ hmem => by cases hmem⟩ ?_ es
  rintro l t e ⟨hinv, hret⟩
  have m := step_move t e
  refine ⟨m.inv hinv, fun id body hmem => ?_⟩
  rcases List.mem_append.mp hmem with hmem | hmem
  · exact m.stays_returned hinv (hret id body hmem)
  · exact m.returned hmem

/-- A registered call with its result has been passed by the `on_disconnect` under way. -/
theorem LockInv.passed_of_returned (h : LockInv l t) (hid : t.pcOf id = some (.returned body))
    (hin : id ∈ t.pending) : t.io.passed id ∧ t.pendingMu = some .io := by
  obtain ⟨r, call, hpc⟩ := Option.map_eq_some_iff.mp hid
  have hr := h.record id r call
  have hready : r.ready = true :=
    (hr.settled (by rw [hpc]; trivial)).resolve_right fun hout => hout hin
  have hpassed := hr.passed hready hin
  refine ⟨hpassed, h.io.table ?_⟩
  cases hio : t.io with
  | failing | failNext | failed => trivial
  | _ =>
    rw [hio] at hpassed
    exact hpassed.elim

/-- Every call returns a timeout, a disconnect, or what the first message with its own id that
arrived while it was registered makes of it; and once it has returned, its entry is in the table
only while `on_disconnect`, past it, holds `pending_mu_` on the way to clearing the table. -/
theorem post_action_own_answer (es : List LockEvent) (id : Nat) (body : String)
    (h : .returned id body ∈ machine.obs {} es) :
    Answers (machine.obs {} es) id body ∧
      (id ∈ (machine.final {} es).pending →
        (machine.final {} es).io.passed id ∧ (machine.final {} es).pendingMu = some .io) := by
  obtain ⟨hinv, hret⟩ := (returned_always es).last
  have hid := hret id body h
  obtain ⟨r, call, hpc⟩ := Option.map_eq_some_iff.mp hid
  exact ⟨(hinv.record id r call).result body (.inr hpc), hinv.passed_of_returned hid⟩

end Returned

/-- The steps of a call that waits. -/
def waitingCall (id : Nat) : List LockEvent :=
  [.post, .caller id, .caller id, .caller id, .caller id]

/-- The steps of the io thread through `on_disconnect` up to the release of the record of `id`. -/
def failsRecord (id : Nat) : List LockEvent :=
  [.disconnect "eof", .io 0, .io id, .io id, .io id]

/-- The steps of a call from its wait to its return. -/
def returningCall (id : Nat) (expired : Bool) : List LockEvent :=
  [.wake id expired, .caller id, .caller id, .caller id]

/-- The steps of the io thread through `on_message`. -/
def deliversMessage (msg : String) : List LockEvent :=
  [.message msg, .io 0, .io 0, .io 0, .io 0]

def firstAnswer : String :=
  "\x7b\"channel\":\"post\",\"data\":\x7b\"id\":1,\"response\":\x7b\"type\":\"action\"," ++
    "\"payload\":\x7b\"status\":\"ok\"\x7d\x7d\x7d\x7d"

/-- Two calls wait. The first is answered, then the connection breaks; they return in the other
order. -/
def answeredBeside : List LockEvent :=
  waitingCall 1 ++ waitingCall 2 ++ deliversMessage firstAnswer ++ failsRecord 2 ++
    returningCall 2 false ++ returningCall 1 false

theorem own_answer_disconnected :
    (.returned 1 "\x7b\"status\":\"ok\"\x7d" ∈ machine.obs {} answeredBeside ∧
      .returned 2 (makeErrorBody "ws_disconnect_eof") ∈ machine.obs {} answeredBeside) ∧
    Answers (machine.obs {} answeredBeside) 1 "\x7b\"status\":\"ok\"\x7d" ∧
      Answers (machine.obs {} answeredBeside) 2 (makeErrorBody "ws_disconnect_eof") := by
  have h1 : .returned 1 "\x7b\"status\":\"ok\"\x7d" ∈ machine.obs {} answeredBeside := by
    decide +kernel
  have h2 : .returned 2 (makeErrorBody "ws_disconnect_eof") ∈ machine.obs {} answeredBeside := by
    decide +kernel
  exact ⟨⟨h1, h2⟩, (post_action_own_answer _ 1 _ h1).1, (post_action_own_answer _ 2 _ h2).1⟩

/-- `on_disconnect` releases a record before it clears the table, so a call can return while its
entry is still there. -/
theorem returned_while_registered :
    ¬ ∀ (es : List LockEvent) (id : Nat) (body : String), .returned id body ∈ machine.obs {} es →
      Answers (machine.obs {} es) id body ∧ id ∉ (machine.final {} es).pending := by
  intro hall
  have h := hall (waitingCall 1 ++ failsRecord 1 ++ returningCall 1 false) 1
    (makeErrorBody "ws_disconnect_eof") (by decide)
  exact h.2 (by decide)

/-! ## The deadlock -/

/-- The call of `id` holds the mutex of its record and wants `pending_mu_`, while the io thread
holds `pending_mu_` in `on_disconnect` and wants the mutex of that record. -/
def DeadlockedAt (t : LockedPostTransport) (id : Nat) : Prop :=
  (∃ r, t.records id = some r ∧ r.pc = .givingUp ∧ r.mu = some (.caller id)) ∧
    (∃ reason todo, t.io = .failNext reason id todo) ∧ t.pendingMu = some .io

def Deadlocked (t : LockedPostTransport) : Prop := ∃ id, t.DeadlockedAt id

/-- In this step either a call whose wait has run out finds its record not ready while the io
thread stands before that record in `on_disconnect`, or `on_disconnect` turns to the record of a
call that is giving up. -/
def Collides (t : LockedPostTransport) (e : LockEvent) : Prop :=
  ∃ id,
    (e = .caller id ∧ (∃ r, t.records id = some r ∧ r.pc = .checking true ∧ r.ready = false) ∧
      ∃ reason todo, t.io = .failNext reason id todo) ∨
    (e = .io id ∧ (∃ r, t.records id = some r ∧ r.pc = .givingUp) ∧
      ∃ reason todo, t.io = .failing reason todo ∧ id ∈ todo)

section Deadlock

variable {l obs : List LockObs} {t : LockedPostTransport} {e : LockEvent} {id k : Nat}
  {r : PostRecord} {body : String} {io : PostIoPc}

/-- A caller moves its own record only, and takes `pending_mu_` for itself only. -/
theorem postAction_frame (t : LockedPostTransport) (k : Nat) (r : PostRecord) :
    (t.postAction k r).1.io = t.io ∧
      (∀ id, id ≠ k → (t.postAction k r).1.records id = t.records id) ∧
      ((t.postAction k r).1.pendingMu = some .io → t.pendingMu = some .io) := by
  have hother : ∀ r' id, id ≠ k → (t.setRecord k r').records id = t.records id :=
    fun r' id hne => Function.update_of_ne hne _ _
  unfold postAction
  cases r.pc with
  | entering =>
    simp only
    split_ifs
    · exact ⟨rfl, hother _, by simp⟩
    · exact ⟨rfl, fun _ _ => rfl, id⟩
  | registering => exact ⟨rfl, hother _, by simp⟩
  | locking =>
    simp only
    split_ifs
    · exact ⟨rfl, hother _, id⟩
    · exact ⟨rfl, fun _ _ => rfl, id⟩
  | checking expired =>
    simp only
    split_ifs <;> exact ⟨rfl, hother _, id⟩
  | waiting => exact ⟨rfl, fun _ _ => rfl, id⟩
  | waking expired =>
    simp only
    split_ifs
    · exact ⟨rfl, hother _, id⟩
    · exact ⟨rfl, fun _ _ => rfl, id⟩
  | givingUp =>
    simp only
    split_ifs
    · exact ⟨rfl, hother _, by simp⟩
    · exact ⟨rfl, fun _ _ => rfl, id⟩
  | erasing => exact ⟨rfl, hother _, by simp⟩
  | leaving body => exact ⟨rfl, hother _, id⟩
  | returned body => exact ⟨rfl, fun _ _ => rfl, id⟩

/-- A caller comes to give up from an unsuccessful look at `ready` after its wait has run out. -/
theorem postAction_givingUp (call : t.records k = some r)
    (h : (t.postAction k r).1.pcOf k = some .givingUp) :
    r.pc = .givingUp ∨ r.pc = .checking true ∧ r.ready = false := by
  have hself : ∀ {r'}, (t.setRecord k r').pcOf k = some r'.pc := by
    intro r'
    rw [pcOf_setRecord, if_pos rfl]
  have hsame : t.pcOf k = some .givingUp → r.pc = .givingUp := by
    intro hpc
    exact Option.some.inj ((pcOf_of_call call).symm.trans hpc)
  unfold postAction at h
  split at h
  · split_ifs at h
    · exact absurd (hself.symm.trans h) (by simp)
    · exact .inl (hsame h)
  · exact absurd (hself.symm.trans h) (by simp)
  · split_ifs at h
    · exact absurd (hself.symm.trans h) (by simp)
    · exact .inl (hsame h)
  · next expired pc =>
    split_ifs at h with ready hexpired
    · exact absurd (hself.symm.trans h) (by simp)
    · exact .inr ⟨hexpired ▸ pc, Bool.eq_false_iff.mpr ready⟩
    · exact absurd (hself.symm.trans h) (by simp)
  · exact .inl (hsame h)
  · split_ifs at h
    · exact absurd (hself.symm.trans h) (by simp)
    · exact .inl (hsame h)
  · next pc => exact .inl pc
  · exact absurd (hself.symm.trans h) (by simp)
  · exact absurd (hself.symm.trans h) (by simp)
  · exact .inl (hsame h)

/-- A call that stands before `pending_mu_` with the mutex of its record, while `on_disconnect`
wants it. -/
theorem LockInv.deadlockedAt (h : LockInv l t) (hpc : t.pcOf id = some .givingUp)
    (hio : ∃ reason todo, t.io = .failNext reason id todo) : t.DeadlockedAt id := by
  obtain ⟨r, call, hr⟩ := Option.map_eq_some_iff.mp hpc
  refine ⟨⟨r, call, hr, (h.record id r call).mutex (by rw [hr]; trivial)⟩, hio, h.io.table ?_⟩
  obtain ⟨reason, todo, hio⟩ := hio
  rw [hio]
  trivial

theorem DeadlockedAt.pcOf (h : t.DeadlockedAt id) : t.pcOf id = some .givingUp := by
  obtain ⟨⟨r, call, hpc, -⟩, -, -⟩ := h
  rw [pcOf_of_call call, hpc]

theorem endWait_io (t : LockedPostTransport) (k : Nat) (expired : Bool) (r : PostRecord) :
    (t.endWait k expired r).io = t.io := by
  unfold endWait
  split <;> rfl

theorem fillIn_eq_or (t : LockedPostTransport) (k : Nat) (body : String) (io : PostIoPc) :
    t.fillIn k body io = t ∨ (t.fillIn k body io).io = io := by
  unfold fillIn
  split
  · split_ifs
    · exact .inr rfl
    · exact .inl rfl
  · exact .inl rfl

theorem releaseRecord_eq_or (t : LockedPostTransport) (k : Nat) (io : PostIoPc) :
    t.releaseRecord k io = t ∨ (t.releaseRecord k io).io = io := by
  unfold releaseRecord
  split
  · exact .inr rfl
  · exact .inl rfl

/-- The io thread comes to want the mutex of a record from turning to its entry. -/
theorem handle_failNext {reason : String} {todo : Finset Nat} {next : Nat}
    (h : (t.handle next).1.io = .failNext reason id todo) :
    (t.handle next).1 = t ∨ next = id ∧ (t.handle next).1.records = t.records ∧
      ∃ todo', t.io = .failing reason todo' ∧ id ∈ todo' := by
  unfold handle at h ⊢
  cases hio : t.io with
  | idle => exact .inl rfl
  | dead => exact .inl rfl
  | lookup k msg =>
    simp only [hio] at h ⊢
    split_ifs at h ⊢
    exact .inl rfl
  | looked k msg found =>
    simp only [hio] at h
    cases found <;> cases h
  | deliver k msg =>
    simp only [hio] at h ⊢
    rcases fillIn_eq_or t k (responseBody msg.toList) (.delivered k) with heq | heq
    · exact .inl heq
    · cases heq.symm.trans h
  | delivered k =>
    simp only [hio] at h ⊢
    rcases releaseRecord_eq_or t k .idle with heq | heq
    · exact .inl heq
    · cases heq.symm.trans h
  | disconnect reason' =>
    simp only [hio] at h ⊢
    split_ifs at h ⊢
    exact .inl rfl
  | failing reason' todo' =>
    simp only [hio] at h ⊢
    split_ifs at h ⊢ with hdone hmem
    · simp only [PostIoPc.failNext.injEq] at h
      obtain ⟨rfl, rfl, -⟩ := h
      exact .inr ⟨rfl, rfl, todo', rfl, hmem⟩
    · exact .inl rfl
  | failNext reason' k todo' =>
    simp only [hio] at h ⊢
    rcases fillIn_eq_or t k (makeErrorBody ("ws_disconnect_" ++ reason')) (.failed reason' k todo')
      with heq | heq
    · exact .inl heq
    · cases heq.symm.trans h
  | failed reason' k todo' =>
    simp only [hio] at h ⊢
    rcases releaseRecord_eq_or t k (.failing reason' todo') with heq | heq
    · exact .inl heq
    · cases heq.symm.trans h

/-- Short of the deadlock, no caller gives up on the record that `on_disconnect` wants. -/
theorem LockInv.not_givingUp (h : LockInv l t) (hfree : ¬ t.Deadlocked) {reason : String}
    {todo : Finset Nat} (hio : t.io = .failNext reason id todo) : t.pcOf id ≠ some .givingUp :=
  fun hpc => hfree ⟨id, h.deadlockedAt hpc ⟨reason, todo, hio⟩⟩

/-- A caller comes to the deadlock by giving up on the record that `on_disconnect` wants. -/
theorem LockInv.caller_collides (h : LockInv l t) (hfree : ¬ t.Deadlocked)
    (hdead : (t.step (.caller k)).1.DeadlockedAt id) : t.Collides (.caller k) := by
  have hpc := hdead.pcOf
  obtain ⟨reason, todo, hio⟩ := hdead.2.1
  cases call : t.records k with
  | none =>
    rw [step, call] at hpc hio
    exact absurd hpc (h.not_givingUp hfree hio)
  | some r =>
    rw [step, call] at hpc hio
    obtain ⟨hframe, hothers, -⟩ := postAction_frame t k r
    have hbefore : t.io = .failNext reason id todo := hframe.symm.trans hio
    by_cases hne : id = k
    · subst hne
      rcases postAction_givingUp call hpc with hwas | ⟨hwas, hready⟩
      · exact absurd ((pcOf_of_call call).trans (congrArg some hwas)) (h.not_givingUp hfree hbefore)
      · exact ⟨id, .inl ⟨rfl, ⟨r, call, hwas, hready⟩, reason, todo, hbefore⟩⟩
    · rw [LockedPostTransport.pcOf, hothers id hne] at hpc
      exact absurd hpc (h.not_givingUp hfree hbefore)

/-- The io thread comes to the deadlock by turning to the record of a call that gives up. -/
theorem LockInv.io_collides (h : LockInv l t) (hfree : ¬ t.Deadlocked) {next : Nat}
    (hdead : (t.step (.io next)).1.DeadlockedAt id) : t.Collides (.io next) := by
  have hpc := hdead.pcOf
  obtain ⟨reason, todo, hio⟩ := hdead.2.1
  rw [step] at hpc hio
  rcases handle_failNext hio with hsame | ⟨rfl, hrecords, todo', hfailing, hmem⟩
  · rw [hsame] at hpc hio
    exact absurd hpc (h.not_givingUp hfree hio)
  · rw [LockedPostTransport.pcOf, hrecords] at hpc
    obtain ⟨r, call, hr⟩ := Option.map_eq_some_iff.mp hpc
    exact ⟨next, .inr ⟨rfl, ⟨r, call, hr⟩, reason, todo', hfailing, hmem⟩⟩

/-- A step that collides deadlocks. -/
theorem LockInv.deadlocks (h : LockInv l t) (hcollides : t.Collides e) :
    (t.step e).1.Deadlocked := by
  have hinv := (step_move t e).inv h
  obtain ⟨id, ⟨rfl, ⟨r, call, hpc, hready⟩, reason, todo, hio⟩ |
    ⟨rfl, ⟨r, call, hpc⟩, reason, todo, hio, hmem⟩⟩ := hcollides
  · have hstep : (t.step (.caller id)).1 = t.setRecord id { r with pc := .givingUp } := by
      simp only [step, call, postAction, hpc, hready, Bool.false_eq_true, ↓reduceIte]
    refine ⟨id, hinv.deadlockedAt ?_ ⟨reason, todo, ?_⟩⟩
    · rw [hstep, pcOf_setRecord, if_pos rfl]
    · rw [hstep]
      exact hio
  · have hne : todo ≠ ∅ := Finset.ne_empty_of_mem hmem
    have hstep : (t.step (.io id)).1 = { t with io := .failNext reason id (todo.erase id) } := by
      simp only [step, handle, hio, hne, hmem, ↓reduceIte]
    refine ⟨id, hinv.deadlockedAt ?_ ⟨reason, todo.erase id, ?_⟩⟩
    · rw [hstep]
      exact (pcOf_of_call call).trans (congrArg some hpc)
    · rw [hstep]

/-- A step deadlocks exactly when it collides. -/
theorem deadlocked_step (h : LockInv l t) (hfree : ¬ t.Deadlocked) :
    (t.step e).1.Deadlocked ↔ t.Collides e := by
  refine ⟨?_, h.deadlocks⟩
  rintro ⟨id, hdead⟩
  have hpc := hdead.pcOf
  obtain ⟨reason, todo, hio⟩ := hdead.2.1
  cases e with
  | caller k => exact h.caller_collides hfree hdead
  | io next => exact h.io_collides hfree hdead
  | post =>
    rw [step] at hpc hio
    have hne : id ≠ t.nextId := by
      rintro rfl
      have hentering : t.post.pcOf t.nextId = some .entering := pcOf_setRecord.trans (if_pos rfl)
      rw [hentering] at hpc
      cases hpc
    have hbefore : t.pcOf id = some .givingUp := (pcOf_setRecord.trans (if_neg hne)).symm.trans hpc
    exact absurd hbefore (h.not_givingUp hfree hio)
  | wake k expired =>
    cases call : t.records k with
    | none =>
      rw [step, call] at hpc hio
      exact absurd hpc (h.not_givingUp hfree hio)
    | some r =>
      rw [step, call] at hpc hio
      have hbefore : t.io = .failNext reason id todo := (endWait_io t k expired r).symm.trans hio
      simp only [endWait] at hpc
      split at hpc
      · rw [pcOf_setRecord] at hpc
        split_ifs at hpc with heq
        · cases hpc
        · exact absurd hpc (h.not_givingUp hfree hbefore)
      · exact absurd hpc (h.not_givingUp hfree hbefore)
  | message msg =>
    rw [step, enterMessage] at hpc hio
    split at hio
    · cases hio
    · cases hio
    · refine absurd ?_ (h.not_givingUp hfree hio)
      split at hpc <;> exact hpc
  | disconnect reason' =>
    rw [step, enterDisconnect] at hpc hio
    split at hio
    · cases hio
    · refine absurd ?_ (h.not_givingUp hfree hio)
      split at hpc <;> exact hpc

/-- A run never comes to the deadlock exactly when none of its steps collides. -/
theorem no_deadlock_iff (es : List LockEvent) :
    machine.Always {} (fun _ t => ¬ t.Deadlocked) es ↔
      machine.Throughout {} (fun _ t e => ¬ t.Collides e) es := by
  have hinit : ¬ ({} : LockedPostTransport).Deadlocked := by
    rintro ⟨id, ⟨r, call, -⟩, -⟩
    cases call
  have hboth := machine.always_iff_throughout (s := {})
    (P := fun l t => LockInv l t ∧ ¬ t.Deadlocked) (C := fun _ t e => ¬ t.Collides e)
    ⟨LockInv.init, hinit⟩ (fun l t e h => ⟨fun hP => (deadlocked_step h.1 h.2).not.mp hP.2,
      fun hC => ⟨(step_move t e).inv h.1, (deadlocked_step h.1 h.2).not.mpr hC⟩⟩) es
  rw [← hboth]
  exact ⟨fun hno pre hp => ⟨lockInv_always es pre hp, hno pre hp⟩,
    fun hP => hP.mono fun _ _ h => h.2⟩

/-! ### Timeouts apart from disconnects -/

/-- The wait of the call has run out, and its entry is not taken back yet. -/
def TimedOut (t : LockedPostTransport) (id : Nat) : Prop :=
  t.pcOf id = some (.waking true) ∨ t.pcOf id = some (.checking true) ∨
    t.pcOf id = some .givingUp

/-- `on_disconnect` holds `pending_mu_` and has the record of `id` still to fill in. -/
def Failing (t : LockedPostTransport) (id : Nat) : Prop :=
  match t.io with
  | .failing _ todo => id ∈ todo
  | .failNext _ next todo => id = next ∨ id ∈ todo
  | .failed _ _ todo => id ∈ todo
  | _ => False

theorem Failing.of_io {t' : LockedPostTransport} (hio : t'.io = t.io) (h : t'.Failing id) :
    t.Failing id := by
  rwa [Failing, hio] at h

/-- No wait runs out while `on_disconnect` holds `pending_mu_` and has its record still to fill in,
and none has run out when it takes `pending_mu_`. -/
def Apart (t : LockedPostTransport) : LockEvent → Prop
  | .wake id true => ¬ t.Failing id
  | .io _ => t.pendingMu = none → ∀ reason, t.io = .disconnect reason →
      ∀ id ∈ t.pending, ¬ t.TimedOut id
  | _ => True

theorem pcOf_setRecord_same {r' : PostRecord} (call : t.records k = some r) (hpc : r'.pc = r.pc) :
    (t.setRecord k r').pcOf id = t.pcOf id := by
  rw [pcOf_setRecord]
  split_ifs with heq
  · rw [heq, pcOf_of_call call, hpc]
  · rfl

theorem fillIn_pcOf : (t.fillIn k body io).pcOf id = t.pcOf id := by
  unfold fillIn
  split
  · next r call =>
    split_ifs
    · exact pcOf_setRecord_same call rfl
    · rfl
  · rfl

theorem releaseRecord_pcOf : (t.releaseRecord k io).pcOf id = t.pcOf id := by
  unfold releaseRecord
  split
  · next r call => exact pcOf_setRecord_same call rfl
  · rfl

/-- The io thread moves no call on. -/
theorem handle_pcOf (next : Nat) : (t.handle next).1.pcOf id = t.pcOf id := by
  unfold handle
  cases t.io with
  | lookup k msg => simp only; split_ifs <;> rfl
  | deliver k msg => exact fillIn_pcOf
  | delivered k => exact releaseRecord_pcOf
  | disconnect reason => simp only; split_ifs <;> rfl
  | failing reason todo => simp only; split_ifs <;> rfl
  | failNext reason k todo => exact fillIn_pcOf
  | failed reason k todo => exact releaseRecord_pcOf
  | _ => rfl

/-- A call comes to its timeout path by the end of its wait only. -/
theorem postAction_timedOut (call : t.records k = some r)
    (h : (t.postAction k r).1.TimedOut id) : t.TimedOut id := by
  have hset : ∀ {pc mu}, (pc = .waking true ∨ pc = .checking true ∨ pc = .givingUp →
      r.pc = .waking true ∨ r.pc = .checking true ∨ r.pc = .givingUp) →
      (t.setRecord k { r with pc, mu }).TimedOut id → t.TimedOut id := by
    intro pc mu hpc htimed
    simp only [TimedOut, pcOf_setRecord] at htimed
    split_ifs at htimed with heq
    · simp only [Option.some.injEq] at htimed
      rw [TimedOut, heq, pcOf_of_call call]
      simpa only [Option.some.injEq] using hpc htimed
    · exact htimed
  unfold postAction at h
  cases hpc : r.pc with
  | entering =>
    simp only [hpc] at h
    split_ifs at h
    · exact hset (by simp) h
    · exact h
  | registering =>
    simp only [hpc] at h
    exact hset (by simp) h
  | locking =>
    simp only [hpc] at h
    split_ifs at h
    · exact hset (by simp) h
    · exact h
  | checking expired =>
    simp only [hpc] at h
    split_ifs at h with hready hexpired
    · exact hset (by simp) h
    · exact hset (fun _ => .inr (.inl (by rw [hpc, hexpired]))) h
    · exact hset (by simp) h
  | waiting =>
    simp only [hpc] at h
    exact h
  | waking expired =>
    simp only [hpc] at h
    split_ifs at h
    · refine hset (fun hnext => .inl ?_) h
      rcases hnext with hnext | hnext | hnext <;> cases hnext
      exact hpc
    · exact h
  | givingUp =>
    simp only [hpc] at h
    split_ifs at h
    · exact hset (by simp) h
    · exact h
  | erasing =>
    simp only [hpc] at h
    exact hset (by simp) h
  | leaving body =>
    simp only [hpc] at h
    exact hset (by simp) h
  | returned body =>
    simp only [hpc] at h
    exact h

theorem step_timedOut (h : (t.step e).1.TimedOut id) : t.TimedOut id ∨ e = .wake id true := by
  cases e with
  | post =>
    change (t.setRecord t.nextId {}).TimedOut id at h
    simp only [TimedOut, pcOf_setRecord] at h
    split_ifs at h with hnew
    · simp at h
    · exact .inl h
  | caller k =>
    rw [step] at h
    split at h
    · next r call => exact .inl (postAction_timedOut call h)
    · exact .inl h
  | wake k expired =>
    rw [step] at h
    split at h
    · next r call =>
      simp only [endWait] at h
      split at h
      · simp only [TimedOut, pcOf_setRecord] at h
        split_ifs at h with heq
        · right
          cases expired with
          | true => rw [heq]
          | false => simp at h
        · exact .inl h
      · exact .inl h
    · exact .inl h
  | message msg =>
    rw [step, enterMessage] at h
    split at h <;> exact .inl h
  | disconnect reason =>
    rw [step, enterDisconnect] at h
    split at h <;> exact .inl h
  | io next =>
    rw [step] at h
    simp only [TimedOut, handle_pcOf] at h
    exact .inl h

/-- The io thread comes to have a record to fill in when it takes `pending_mu_` for
`on_disconnect`. -/
theorem handle_failing {next : Nat} (h : (t.handle next).1.Failing id) :
    t.Failing id ∨ ∃ reason, t.pendingMu = none ∧ t.io = .disconnect reason ∧ id ∈ t.pending := by
  -- a step that takes the io thread to `io` leaves it failing exactly if `io` says so
  have hio' : ∀ {t' : LockedPostTransport} {io : PostIoPc}, t' = t ∨ t'.io = io →
      t'.Failing id → ({ t with io } : LockedPostTransport).Failing id ∨ t.Failing id := by
    rintro t' io (rfl | hio) hfailing
    · exact .inr hfailing
    · exact .inl (hfailing.of_io hio)
  rw [handle] at h
  cases hio : t.io with
  | idle | dead =>
    simp only [hio] at h
    exact .inl h
  | lookup k msg =>
    simp only [hio] at h
    split_ifs at h
    · exact h.elim
    · exact .inl h
  | looked k msg found =>
    simp only [hio] at h
    cases found <;> exact h.elim
  | deliver k msg =>
    simp only [hio] at h
    exact .inl ((hio' (fillIn_eq_or t k _ _) h).resolve_left False.elim)
  | delivered k =>
    simp only [hio] at h
    exact .inl ((hio' (releaseRecord_eq_or t k _) h).resolve_left False.elim)
  | disconnect reason =>
    simp only [hio] at h
    split_ifs at h with hfree
    · exact .inr ⟨reason, hfree, rfl, h⟩
    · exact .inl h
  | failing reason todo =>
    simp only [hio] at h
    split_ifs at h with hdone hmem
    · exact h.elim
    · left
      rw [Failing, hio]
      rcases h with rfl | h
      · exact hmem
      · exact Finset.mem_of_mem_erase h
    · exact .inl h
  | failNext reason k todo =>
    simp only [hio] at h
    rcases hio' (fillIn_eq_or t k _ _) h with hmem | h
    · left
      rw [Failing, hio]
      exact .inr hmem
    · exact .inl h
  | failed reason k todo =>
    simp only [hio] at h
    rcases hio' (releaseRecord_eq_or t k _) h with hmem | h
    · left
      rw [Failing, hio]
      exact hmem
    · exact .inl h

theorem step_failing (h : (t.step e).1.Failing id) :
    t.Failing id ∨ ∃ next reason, e = .io next ∧ t.pendingMu = none ∧
      t.io = .disconnect reason ∧ id ∈ t.pending := by
  cases e with
  | post => exact .inl h
  | caller k =>
    rw [step] at h
    split at h
    · next r call => exact .inl (h.of_io (postAction_frame t k r).1)
    · exact .inl h
  | wake k expired =>
    rw [step] at h
    split at h
    · next r call => exact .inl (h.of_io (endWait_io t k expired r))
    · exact .inl h
  | message msg =>
    rw [step, enterMessage] at h
    split at h
    · exact h.elim
    · exact h.elim
    · exact .inl h
  | disconnect reason =>
    rw [step, enterDisconnect] at h
    split at h
    · exact h.elim
    · exact .inl h
  | io next =>
    rcases handle_failing h with hstill | ⟨reason, htaken⟩
    · exact .inl hstill
    · exact .inr ⟨next, reason, rfl, htaken⟩

/-- Where no wait runs out beside an `on_disconnect` that still has its record to fill in, nothing
deadlocks. -/
theorem no_deadlock_of_apart {es : List LockEvent}
    (h : machine.Throughout {} (fun _ t e => t.Apart e) es) :
    machine.Always {} (fun _ t => ¬ t.Deadlocked) es := by
  have hclear : machine.Always {} (fun _ t => ∀ id, t.Failing id → ¬ t.TimedOut id) es := by
    refine EventMachine.always_of_throughout ?_ ?_ h
    · rintro id ⟨⟩
    · rintro l t e hclear hapart id hfailing htimed
      rcases step_failing hfailing with hstill | ⟨next, reason, rfl, hfree, hio, hmem⟩
      · rcases step_timedOut htimed with hwas | hwake
        · exact hclear id hstill hwas
        · rw [hwake] at hapart
          exact hapart hstill
      · rcases step_timedOut htimed with hwas | hwake
        · exact hapart hfree reason hio id hmem hwas
        · cases hwake
  refine hclear.mono fun l t ht => ?_
  rintro ⟨id, hdead⟩
  obtain ⟨reason, todo, hio⟩ := hdead.2.1
  refine ht id ?_ (.inr (.inr hdead.pcOf))
  rw [Failing, hio]
  exact .inl rfl

/-- A call whose wait runs out just as the connection breaks: it looks at its record before
`on_disconnect` comes to it. -/
theorem deadlock_reachable :
    ¬ ∀ es : List LockEvent, machine.Always {} (fun _ t => ¬ t.Deadlocked) es := by
  intro hall
  have h := hall (waitingCall 1 ++ [.wake 1 true, .caller 1, .caller 1] ++
    [.disconnect "eof", .io 0, .io 1])
  refine h.last ⟨1, ⟨_, rfl, rfl, rfl⟩, ⟨"eof", _, rfl⟩, rfl⟩

/-- No step of any thread ends the deadlock. -/
theorem LockMove.deadlockedAt {t' : LockedPostTransport} (m : LockMove t t' obs) (h : LockInv l t)
    (hdead : t.DeadlockedAt id) : t'.DeadlockedAt id := by
  obtain ⟨⟨r, call, hpc, hmu⟩, ⟨reason, todo, hio⟩, hheld⟩ := hdead
  have hnotHeld : ∀ k, t.pendingMu ≠ some (.caller k) := by
    intro k hk
    rw [hheld] at hk
    cases hk
  have hother : ∀ {k rk rk'}, t.records k = some rk → rk.pc ≠ .givingUp →
      (t.setRecord k rk').DeadlockedAt id := by
    intro k rk rk' hk hne
    have hid : id ≠ k := by
      rintro rfl
      rw [call] at hk
      cases hk
      exact hne hpc
    exact ⟨⟨r, (Function.update_of_ne hid _ _).trans call, hpc, hmu⟩, ⟨reason, todo, hio⟩, hheld⟩
  cases m with
  | quiet => exact ⟨⟨r, call, hpc, hmu⟩, ⟨reason, todo, hio⟩, hheld⟩
  | post =>
    have hid : id ≠ t.nextId := by
      rintro rfl
      rw [h.fresh _ le_rfl] at call
      cases call
    exact ⟨⟨r, (Function.update_of_ne hid _ _).trans call, hpc, hmu⟩, ⟨reason, todo, hio⟩, hheld⟩
  | enter _ _ free | erase _ _ free | lookup _ free | fail _ free =>
    rw [hheld] at free
    cases free
  | register hk pc | erased hk pc =>
    exact absurd ((h.record _ _ hk).table (by rw [pc]; trivial)) (hnotHeld _)
  | lock expired hk pc =>
    refine hother hk fun hne => ?_
    rcases pc with pc | pc <;> rw [pc] at hne <;> cases hne
  | answered hk pc | giveUp hk pc | wait hk pc | leave hk pc | wake _ hk pc =>
    exact hother hk (by rw [pc]; simp)
  | throws stands | message stands | disconnect _ stands | found stands | unknown stands
  | deliver stands | delivered stands | clear stands | turn stands | failed stands =>
    rw [hio] at stands
    cases stands
  | fillFailed stands hk free =>
    rw [hio] at stands
    cases stands
    rw [call] at hk
    cases hk
    rw [hmu] at free
    cases free

/-- Once deadlocked, a run is deadlocked for good, whatever its threads do. -/
theorem deadlock_forever (es fs : List LockEvent) (h : (machine.final {} es).DeadlockedAt id) :
    (machine.final {} (es ++ fs)).DeadlockedAt id := by
  induction fs using List.reverseRecOn with
  | nil => rwa [List.append_nil]
  | append_singleton fs e ih =>
    rw [← List.append_assoc, EventMachine.final_snoc]
    exact (step_move _ e).deadlockedAt (lockInv_always (es ++ fs)).last ih

end Deadlock

end LockedPostTransport

end Arb
