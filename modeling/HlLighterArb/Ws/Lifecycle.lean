import HlLighterArb.Lib.Machine
import HlLighterArb.Ws.Client

/-!
# HlLighterArb.Ws.Lifecycle

The WebSocket client with its whole connection: resolving, connecting, both handshakes, reading,
the reconnect timer and closing. Every asynchronous operation that has not completed is in `ops`
or, for a write of `flush_pending`, in `flushes`; its completion is an event, and so is each handler
the io thread runs. Nothing in the state keeps two operations from being outstanding at once.

An operation on a stream that has been replaced can only fail: destroying a stream aborts what is
outstanding on it. Pings carry no data and are left out.

* `lifecycle`: what holds after every run. There is one operation of the connection at most, delays
  grow with the failed attempts, a connection that was opened is lost once, and closing ends it.
-/

namespace Arb

structure WsClientConfig where
  reconnectDelayMs : Int := 1000
  /-- 0 means unlimited. -/
  maxReconnectAttempts : Int := 0

/-- A handler posted to the io context. -/
inductive WsPosted (μ : Type) where
  | doResolve
  | message (msg : μ)
  | doClose

/-- An operation of the connection that has not completed. -/
inductive WsOp where
  | resolve
  | connect
  | sslHandshake
  | wsHandshake
  | read
  | reconnectWait (cancelled : Bool)
  deriving DecidableEq

structure WsConnection (μ : Type) where
  closing : Bool := false
  connected : Bool := false
  reconnectCount : Nat := 0
  /-- The io thread: an exception from a callback and `ioc_.stop()` end it. -/
  running : Bool := true
  /-- `connect` has posted `do_resolve`. -/
  posted : List (WsPosted μ) := [.doResolve]
  pendingSends : List μ := []
  ops : List WsOp := []
  /-- How many streams `ws_` has been. -/
  stream : Nat := 0
  /-- The writes of `flush_pending` in progress: on which stream, and the texts behind. -/
  flushes : List (Nat × List μ) := []

inductive WsConnectionEvent (μ : Type) where
  | send (message : μ)
  | close
  | runPosted
  | resolved (ok : Bool)
  | connected (ok : Bool) (sni : Bool)
  | sslHandshake (ok : Bool)
  | wsHandshake (ok : Bool)
  | message (throws : Bool)
  | readError (reason : String)
  /-- The reconnect timer expires. -/
  | timer
  /-- A cancelled wait for it completes. -/
  | timerCancelled
  /-- The write of `flush_pending` that is at `k` completes. -/
  | flushed (k : Nat) (ok : Bool)

inductive WsConnectionObs (μ : Type) where
  | sent (message : μ)
  | wrote (message : μ)
  | closed
  | opened
  | reconnecting (delayMs : Int)
  /-- `on_disconnect_` is called. -/
  | lost (reason : String)
  | gaveUp
  deriving DecidableEq

variable {μ : Type}

def WsPosted.isResolve : WsPosted μ → Bool
  | .doResolve => true
  | _ => false

def WsConnectionObs.isOpened : WsConnectionObs μ → Bool
  | .opened => true
  | _ => false

def WsConnectionObs.isLost : WsConnectionObs μ → Bool
  | .lost _ => true
  | _ => false

/-- A text, which says nothing of the connection. -/
def WsConnectionObs.isText : WsConnectionObs μ → Bool
  | .sent _ | .wrote _ => true
  | _ => false

namespace WsConnection

variable (cfg : WsClientConfig) (c : WsConnection μ)

/-- `expires_after` and `cancel` on the reconnect timer. -/
def cancelWaits (ops : List WsOp) : List WsOp :=
  ops.map fun
    | .reconnectWait _ => .reconnectWait true
    | op => op

def scheduleReconnect : WsConnection μ × List (WsConnectionObs μ) :=
  if c.closing then (c, [])
  else if 0 < cfg.maxReconnectAttempts ∧ cfg.maxReconnectAttempts ≤ c.reconnectCount then
    (c, [.gaveUp])
  else
    ({ c with
        reconnectCount := c.reconnectCount + 1
        ops := cancelWaits c.ops ++ [.reconnectWait false] },
      [.reconnecting (cfg.reconnectDelayMs * ↑(c.reconnectCount + 1))])

def doResolve : WsConnection μ := { c with ops := c.ops ++ [.resolve] }

def onResolve (ok : Bool) : WsConnection μ × List (WsConnectionObs μ) :=
  if ok then ({ c with stream := c.stream + 1, ops := c.ops ++ [.connect] }, [])
  else c.scheduleReconnect cfg

def onConnect (ok sni : Bool) : WsConnection μ × List (WsConnectionObs μ) :=
  if ok ∧ sni then ({ c with ops := c.ops ++ [.sslHandshake] }, []) else c.scheduleReconnect cfg

def onSslHandshake (ok : Bool) : WsConnection μ × List (WsConnectionObs μ) :=
  if ok then ({ c with ops := c.ops ++ [.wsHandshake] }, []) else c.scheduleReconnect cfg

def flushPending : List μ → WsConnection μ × List (WsConnectionObs μ)
  | msg :: msgs =>
    if c.connected then ({ c with flushes := c.flushes ++ [(c.stream, msgs)] }, [.wrote msg])
    else (c, [])
  | [] => (c, [])

def doRead : WsConnection μ := { c with ops := c.ops ++ [.read] }

def onWsHandshake (ok : Bool) : WsConnection μ × List (WsConnectionObs μ) :=
  if ok then
    let (c, written) := flushPending
      { c with connected := true, reconnectCount := 0, pendingSends := [] } c.pendingSends
    (c.doRead, .opened :: written)
  else c.scheduleReconnect cfg

def onReadError (reason : String) : WsConnection μ × List (WsConnectionObs μ) :=
  if c.closing then ({ c with connected := false }, [])
  else
    let (c, obs) := scheduleReconnect cfg { c with connected := false }
    (c, .lost reason :: obs)

def doClose : WsConnection μ :=
  { c with ops := cancelWaits c.ops, connected := false, running := false }

def runPosted : WsConnection μ × List (WsConnectionObs μ) :=
  match c.posted with
  | .doResolve :: posted => (doResolve { c with posted }, [])
  | .message msg :: posted =>
    if c.connected then ({ c with posted }, [.wrote msg])
    else ({ c with posted, pendingSends := c.pendingSends ++ [msg] }, [])
  | .doClose :: posted => (doClose { c with posted }, [])
  | [] => (c, [])

/-- `op` completes: it is outstanding, and the io thread runs its handler. -/
def complete (op : WsOp) (handler : WsConnection μ → WsConnection μ × List (WsConnectionObs μ)) :
    WsConnection μ × List (WsConnectionObs μ) :=
  if c.running ∧ op ∈ c.ops then handler { c with ops := c.ops.erase op } else (c, [])

def onFlushed (k : Nat) (ok : Bool) : WsConnection μ × List (WsConnectionObs μ) :=
  match c.flushes[k]? with
  | some (stream, msgs) =>
    if ok ∧ stream = c.stream then flushPending { c with flushes := c.flushes.eraseIdx k } msgs
    else ({ c with flushes := c.flushes.eraseIdx k }, [])
  | none => (c, [])

def step : WsConnectionEvent μ → WsConnection μ × List (WsConnectionObs μ)
  | .send message => ({ c with posted := c.posted ++ [.message message] }, [.sent message])
  | .close =>
    if c.closing then (c, [])
    else ({ c with closing := true, posted := c.posted ++ [.doClose] }, [.closed])
  | .runPosted => if c.running then c.runPosted else (c, [])
  | .resolved ok => c.complete .resolve fun c => c.onResolve cfg ok
  | .connected ok sni => c.complete .connect fun c => c.onConnect cfg ok sni
  | .sslHandshake ok => c.complete .sslHandshake fun c => c.onSslHandshake cfg ok
  | .wsHandshake ok => c.complete .wsHandshake fun c => c.onWsHandshake cfg ok
  | .message throws =>
    c.complete .read fun c => if throws then ({ c with running := false }, []) else (c.doRead, [])
  | .readError reason => c.complete .read fun c => c.onReadError cfg reason
  | .timer =>
    c.complete (.reconnectWait false) fun c => if c.closing then (c, []) else (c.doResolve, [])
  | .timerCancelled => c.complete (.reconnectWait true) fun c => (c, [])
  | .flushed k ok => if c.running then c.onFlushed k ok else (c, [])

def machine : EventMachine (WsConnection μ) (WsConnectionEvent μ) (WsConnectionObs μ) where
  step := step cfg

@[simp] theorem machine_step (e : WsConnectionEvent μ) :
    (machine cfg).step c e = c.step cfg e := rfl

/-! ## One operation at a time -/

/-- One operation of the connection at most is outstanding or about to start. While the io thread
runs, the client is connected exactly when that is a read, and no wait has been cancelled. -/
structure Chain : Prop where
  one : c.posted.countP WsPosted.isResolve + c.ops.length ≤ 1
  reading : c.running = true → (c.connected = true ↔ .read ∈ c.ops)
  waiting : c.running = true → .reconnectWait true ∉ c.ops

variable {cfg c}

theorem Chain.ops_eq (h : Chain c) {op : WsOp} (hop : op ∈ c.ops) :
    c.ops = [op] ∧ c.posted.countP WsPosted.isResolve = 0 := by
  have hone := h.one
  have hpos := List.length_pos_of_mem hop
  obtain ⟨op', hops⟩ := List.length_eq_one_iff.mp (show c.ops.length = 1 by omega)
  rw [hops, List.mem_singleton] at hop
  exact ⟨by rw [hops, hop], by omega⟩

/-- An operation that completes was the only one. -/
theorem complete_cases (h : Chain c) (op : WsOp)
    (handler : WsConnection μ → WsConnection μ × List (WsConnectionObs μ)) :
    c.complete op handler = (c, []) ∨ c.running = true ∧ c.ops = [op] ∧
      c.posted.countP WsPosted.isResolve = 0 ∧
      c.complete op handler = handler { c with ops := [] } := by
  unfold complete
  split
  · next hop =>
    obtain ⟨hops, hnone⟩ := h.ops_eq hop.2
    exact .inr ⟨hop.1, hops, hnone, by rw [hops, List.erase_cons_head]⟩
  · exact .inl rfl

/-- What becomes of a connection that has failed, when nothing else is outstanding. -/
inductive Retry (cfg : WsClientConfig) (c : WsConnection μ) :
    WsConnection μ → List (WsConnectionObs μ) → Prop where
  | closing (h : c.closing = true) : Retry cfg c c []
  | gaveUp (h : c.closing = false) (hmax : 0 < cfg.maxReconnectAttempts)
      (hcount : cfg.maxReconnectAttempts ≤ c.reconnectCount) : Retry cfg c c [.gaveUp]
  | waits (h : c.closing = false)
      (hroom : 0 < cfg.maxReconnectAttempts → (c.reconnectCount : Int) < cfg.maxReconnectAttempts) :
      Retry cfg c
        { c with reconnectCount := c.reconnectCount + 1, ops := [.reconnectWait false] }
        [.reconnecting (cfg.reconnectDelayMs * ↑(c.reconnectCount + 1))]

theorem scheduleReconnect_retry (hops : c.ops = []) :
    Retry cfg c (c.scheduleReconnect cfg).1 (c.scheduleReconnect cfg).2 := by
  unfold scheduleReconnect
  split
  · next hclosing => exact .closing hclosing
  · next hclosing =>
    have hopen := Bool.eq_false_iff.mpr hclosing
    split
    · next hmax => exact .gaveUp hopen hmax.1 hmax.2
    · next hmax =>
      rw [hops]
      exact .waits hopen fun hpos => Int.not_le.mp fun hle => hmax ⟨hpos, hle⟩

/-- How the connection goes on from an operation that completes: with which operation next, and on
which stream. -/
inductive Next (c : WsConnection μ) : WsOp → WsOp → Nat → Prop where
  | resolved : Next c .resolve .connect (c.stream + 1)
  | connected : Next c .connect .sslHandshake c.stream
  | secured : Next c .sslHandshake .wsHandshake c.stream
  | read : Next c .read .read c.stream
  | expired (h : c.closing = false) : Next c (.reconnectWait false) .resolve c.stream

/-- What a step does. -/
inductive Move (cfg : WsClientConfig) (c : WsConnection μ) :
    WsConnection μ → List (WsConnectionObs μ) → Prop where
  | quiet : Move cfg c c []
  | send (message : μ) :
      Move cfg c { c with posted := c.posted ++ [.message message] } [.sent message]
  | close (h : c.closing = false) :
      Move cfg c { c with closing := true, posted := c.posted ++ [.doClose] } [.closed]
  | resolve (posted : List (WsPosted μ)) (hrun : c.running = true)
      (hposted : c.posted = .doResolve :: posted) (hops : c.ops = [])
      (hnone : posted.countP WsPosted.isResolve = 0) :
      Move cfg c { c with posted, ops := [.resolve] } []
  | write (msg : μ) (posted : List (WsPosted μ)) (hrun : c.running = true)
      (hposted : c.posted = .message msg :: posted) (hconn : c.connected = true) :
      Move cfg c { c with posted } [.wrote msg]
  | keep (msg : μ) (posted : List (WsPosted μ)) (hrun : c.running = true)
      (hposted : c.posted = .message msg :: posted) (hconn : c.connected = false) :
      Move cfg c { c with posted, pendingSends := c.pendingSends ++ [msg] } []
  | doClose (posted : List (WsPosted μ)) (hrun : c.running = true)
      (hposted : c.posted = .doClose :: posted) :
      Move cfg c (doClose { c with posted }) []
  | next (op op' : WsOp) (stream : Nat) (hrun : c.running = true) (hops : c.ops = [op])
      (hnext : Next c op op' stream) : Move cfg c { c with ops := [op'], stream } []
  | opens (hrun : c.running = true) (hops : c.ops = [.wsHandshake]) (flushes : List (Nat × List μ))
      (written : List μ)
      (hflush : c.pendingSends = [] ∧ flushes = c.flushes ∧ written = [] ∨
        ∃ msg msgs, c.pendingSends = msg :: msgs ∧ flushes = c.flushes ++ [(c.stream, msgs)] ∧
          written = [msg]) :
      Move cfg c
        { c with
          connected := true, reconnectCount := 0, pendingSends := [], ops := [.read], flushes }
        (.opened :: written.map .wrote)
  | fails (op : WsOp) (c' : WsConnection μ) (obs : List (WsConnectionObs μ))
      (hrun : c.running = true) (hops : c.ops = [op]) (hop : op ≠ .read)
      (hretry : Retry cfg { c with ops := [] } c' obs) : Move cfg c c' obs
  | loses (reason : String) (c' : WsConnection μ) (obs : List (WsConnectionObs μ))
      (hrun : c.running = true) (hops : c.ops = [.read])
      (hretry : Retry cfg { c with ops := [], connected := false } c' obs) :
      Move cfg c c' (if c.closing then [] else .lost reason :: obs)
  | stops (op : WsOp) (running : Bool) (hrun : c.running = true)
      (hops : c.ops = [op]) (hread : op = .read → running = false)
      (hclosing : running = true → c.closing = true) :
      Move cfg c { c with ops := [], running } []
  | flushed (k : Nat) (ok : Bool) (hrun : c.running = true) :
      Move cfg c (c.onFlushed k ok).1 (c.onFlushed k ok).2

theorem runPosted_move (h : Chain c) (hrun : c.running = true) :
    Move cfg c c.runPosted.1 c.runPosted.2 := by
  unfold runPosted
  split
  · next posted hposted =>
    have hone := h.one
    rw [hposted, List.countP_cons_of_pos rfl] at hone
    have hops : c.ops = [] := List.length_eq_zero_iff.mp (by omega)
    have hdo : doResolve { c with posted } = { c with posted, ops := [.resolve] } := by
      simp [doResolve, hops]
    rw [hdo]
    exact .resolve posted hrun hposted hops (by omega)
  · next msg posted hposted =>
    split
    · next hconn => exact .write msg posted hrun hposted hconn
    · next hconn => exact .keep msg posted hrun hposted (Bool.eq_false_iff.mpr hconn)
  · next posted hposted => exact .doClose posted hrun hposted
  · exact .quiet

theorem onWsHandshake_move (hrun : c.running = true) (hops : c.ops = [.wsHandshake]) :
    Move cfg c (onWsHandshake cfg { c with ops := [] } true).1
      (onWsHandshake cfg { c with ops := [] } true).2 := by
  unfold onWsHandshake
  rw [if_pos rfl]
  cases hkept : c.pendingSends with
  | nil => exact .opens hrun hops c.flushes [] (.inl ⟨hkept, rfl, rfl⟩)
  | cons msg msgs =>
    exact .opens hrun hops (c.flushes ++ [(c.stream, msgs)]) [msg]
      (.inr ⟨msg, msgs, hkept, rfl, rfl⟩)

theorem onReadError_move (hrun : c.running = true) (hops : c.ops = [.read]) (reason : String) :
    Move cfg c (onReadError cfg { c with ops := [] } reason).1
      (onReadError cfg { c with ops := [] } reason).2 := by
  have hretry : Retry cfg { c with ops := [], connected := false }
      (scheduleReconnect cfg { c with ops := [], connected := false }).1
      (scheduleReconnect cfg { c with ops := [], connected := false }).2 :=
    scheduleReconnect_retry rfl
  have hmove := Move.loses reason _ _ hrun hops hretry
  unfold onReadError
  split
  · next hclosing =>
    rw [if_pos hclosing, scheduleReconnect, if_pos hclosing] at hmove
    exact hmove
  · next hclosing =>
    rw [if_neg hclosing] at hmove
    exact hmove

theorem step_move (h : Chain c) (e : WsConnectionEvent μ) :
    Move cfg c (c.step cfg e).1 (c.step cfg e).2 := by
  -- an operation that fails
  have hfails : ∀ op, c.running = true → c.ops = [op] → op ≠ .read →
      Move cfg c (scheduleReconnect cfg { c with ops := [] }).1
        (scheduleReconnect cfg { c with ops := [] }).2 :=
    fun op hrun hops hop => .fails op _ _ hrun hops hop (scheduleReconnect_retry rfl)
  cases e with
  | send message => exact .send message
  | close =>
    rw [step]
    split
    · exact .quiet
    · next hclosing => exact .close (Bool.eq_false_iff.mpr hclosing)
  | runPosted =>
    rw [step]
    split
    · next hrun => exact runPosted_move h hrun
    · exact .quiet
  | resolved ok =>
    rw [step]
    rcases complete_cases h .resolve (fun c => c.onResolve cfg ok) with heq | ⟨hrun, hops, -, heq⟩
    · rw [heq]
      exact .quiet
    · rw [heq]
      cases ok with
      | true => exact .next .resolve .connect _ hrun hops .resolved
      | false => exact hfails .resolve hrun hops nofun
  | connected ok sni =>
    rw [step]
    rcases complete_cases h .connect (fun c => c.onConnect cfg ok sni) with
      heq | ⟨hrun, hops, -, heq⟩
    · rw [heq]
      exact .quiet
    · rw [heq, onConnect]
      split
      · exact .next .connect .sslHandshake _ hrun hops .connected
      · exact hfails .connect hrun hops nofun
  | sslHandshake ok =>
    rw [step]
    rcases complete_cases h .sslHandshake (fun c => c.onSslHandshake cfg ok) with
      heq | ⟨hrun, hops, -, heq⟩
    · rw [heq]
      exact .quiet
    · rw [heq]
      cases ok with
      | true => exact .next .sslHandshake .wsHandshake _ hrun hops .secured
      | false => exact hfails .sslHandshake hrun hops nofun
  | wsHandshake ok =>
    rw [step]
    rcases complete_cases h .wsHandshake (fun c => c.onWsHandshake cfg ok) with
      heq | ⟨hrun, hops, -, heq⟩
    · rw [heq]
      exact .quiet
    · rw [heq]
      cases ok with
      | true => exact onWsHandshake_move hrun hops
      | false => exact hfails .wsHandshake hrun hops nofun
  | message throws =>
    rw [step]
    rcases complete_cases h .read
      (fun c => if throws then ({ c with running := false }, []) else (c.doRead, [])) with
      heq | ⟨hrun, hops, -, heq⟩
    · rw [heq]
      exact .quiet
    · rw [heq]
      cases throws with
      | true => exact .stops .read false hrun hops (fun _ => rfl) nofun
      | false => exact .next .read .read _ hrun hops .read
  | readError reason =>
    rw [step]
    rcases complete_cases h .read (fun c => c.onReadError cfg reason) with
      heq | ⟨hrun, hops, -, heq⟩
    · rw [heq]
      exact .quiet
    · rw [heq]
      exact onReadError_move hrun hops reason
  | timer =>
    rw [step]
    rcases complete_cases h (.reconnectWait false)
      (fun c => if c.closing then (c, []) else (c.doResolve, [])) with heq | ⟨hrun, hops, -, heq⟩
    · rw [heq]
      exact .quiet
    · rw [heq]
      split
      · next hclosing => exact .stops _ c.running hrun hops nofun fun _ => hclosing
      · next hclosing =>
        exact .next _ .resolve _ hrun hops (.expired (Bool.eq_false_iff.mpr hclosing))
  | timerCancelled =>
    rw [step]
    rcases complete_cases h (.reconnectWait true) (fun c => (c, [])) with heq | ⟨hrun, hops, -, heq⟩
    · rw [heq]
      exact .quiet
    · exact absurd (by rw [hops]; exact List.mem_singleton_self _) (h.waiting hrun)
  | flushed k ok =>
    rw [step]
    split
    · next hrun => exact .flushed k ok hrun
    · exact .quiet

/-! ## After every run -/

/-- The failed attempts since the connection was last open. -/
def attempts (l : List (WsConnectionObs μ)) : Nat :=
  l.foldl (fun n o => match o with
    | .opened => 0
    | .reconnecting _ => n + 1
    | _ => n) 0

/-- When the client, having shown `l`, may show this. -/
def Announced (cfg : WsClientConfig) (l : List (WsConnectionObs μ)) : WsConnectionObs μ → Prop
  | .reconnecting delayMs => .closed ∉ l ∧
      delayMs = cfg.reconnectDelayMs * ↑(attempts l + 1) ∧
      (0 < cfg.maxReconnectAttempts → (attempts l : Int) < cfg.maxReconnectAttempts)
  | .gaveUp => .closed ∉ l ∧ 0 < cfg.maxReconnectAttempts ∧
      cfg.maxReconnectAttempts ≤ (attempts l : Int)
  | .lost _ => .closed ∉ l
  | .opened => .gaveUp ∉ l
  | _ => True

/-- Whatever the client shows after `l`, it may show. -/
def AllAnnounced (cfg : WsClientConfig) (l : List (WsConnectionObs μ)) :
    List (WsConnectionObs μ) → Prop
  | [] => True
  | o :: os => Announced cfg l o ∧ AllAnnounced cfg (l ++ [o]) os

/-- What a client has shown, and its state. -/
structure Lives (cfg : WsClientConfig) (l : List (WsConnectionObs μ)) (c : WsConnection μ) :
    Prop where
  chain : Chain c
  closing : c.closing = true ↔ .closed ∈ l
  closes : .doClose ∈ c.posted → c.closing = true
  count : c.reconnectCount = attempts l
  /-- Each attempt waits for as many delays as attempts have failed, there are not too many, and
  none once the client closes. -/
  announced : AllAnnounced cfg [] l
  /-- Every connection but the present one was lost once. -/
  balance : c.closing = false →
    l.countP WsConnectionObs.isOpened
      = l.countP WsConnectionObs.isLost + if c.connected then 1 else 0
  /-- Unless it closes, a client goes on until it has given up. -/
  alive : c.running = true → c.closing = false → .gaveUp ∉ l →
    c.posted.countP WsPosted.isResolve + c.ops.length = 1
  ended : .gaveUp ∈ l → c.posted.countP WsPosted.isResolve + c.ops.length = 0

section Shown

variable {l l' : List (WsConnectionObs μ)} {o : WsConnectionObs μ}

theorem allAnnounced_append {os : List (WsConnectionObs μ)} :
    AllAnnounced cfg l (l' ++ os) ↔ AllAnnounced cfg l l' ∧ AllAnnounced cfg (l ++ l') os := by
  induction l' generalizing l with
  | nil => simp [AllAnnounced]
  | cons o l' ih => simp [AllAnnounced, ih, and_assoc]

theorem allAnnounced_snoc :
    AllAnnounced cfg [] (l ++ [o]) ↔ AllAnnounced cfg [] l ∧ Announced cfg l o := by
  simp [allAnnounced_append, AllAnnounced]

theorem attempts_append_text (h : ∀ o ∈ l', o.isText = true) : attempts (l ++ l') = attempts l := by
  induction l' generalizing l with
  | nil => rw [List.append_nil]
  | cons o l' ih =>
    rw [List.forall_mem_cons] at h
    rw [← List.singleton_append, ← List.append_assoc, ih h.2]
    have hone := h.1
    cases o with
    | sent | wrote => simp [attempts]
    | closed | opened | reconnecting | lost | gaveUp => cases hone

theorem allAnnounced_text (h : ∀ o ∈ l', o.isText = true) : AllAnnounced cfg l l' := by
  induction l' generalizing l with
  | nil => trivial
  | cons o l' ih =>
    rw [List.forall_mem_cons] at h
    refine ⟨?_, ih h.2⟩
    have hone := h.1
    cases o with
    | sent | wrote => trivial
    | closed | opened | reconnecting | lost | gaveUp => cases hone

theorem isOpened_of_isText (o : WsConnectionObs μ) (h : o.isText = true) : o.isOpened = false := by
  cases o with
  | sent | wrote => rfl
  | closed | opened | reconnecting | lost | gaveUp => cases h

theorem isLost_of_isText (o : WsConnectionObs μ) (h : o.isText = true) : o.isLost = false := by
  cases o with
  | sent | wrote => rfl
  | closed | opened | reconnecting | lost | gaveUp => cases h

/-- Texts change nothing of what is known of the connection. -/
theorem Lives.text (h : Lives cfg l c) (hl : ∀ o ∈ l', o.isText = true) :
    Lives cfg (l ++ l') c := by
  have hmem : ∀ o, o.isText = false → (o ∈ l ++ l' ↔ o ∈ l) := by
    intro o ho
    rw [List.mem_append, or_iff_left]
    intro hin
    rw [hl o hin] at ho
    cases ho
  have hcount : ∀ p : WsConnectionObs μ → Bool, (∀ o, o.isText = true → p o = false) →
      (l ++ l').countP p = l.countP p := by
    intro p hp
    have hnone : l'.countP p = 0 := by
      refine List.countP_eq_zero.mpr fun o ho => ?_
      rw [hp o (hl o ho)]
      exact Bool.false_ne_true
    rw [List.countP_append, hnone, Nat.add_zero]
  refine ⟨h.chain, ?_, h.closes, ?_, ?_, fun hc => ?_, fun hrun hc hgave => ?_, fun hgave => ?_⟩
  · rw [hmem _ rfl]
    exact h.closing
  · rw [attempts_append_text hl]
    exact h.count
  · exact allAnnounced_append.mpr ⟨h.announced, allAnnounced_text hl⟩
  · rw [hcount _ isOpened_of_isText, hcount _ isLost_of_isText]
    exact h.balance hc
  · exact h.alive hrun hc ((hmem _ rfl).not.mp hgave)
  · exact h.ended ((hmem _ rfl).mp hgave)

theorem Lives.init : Lives cfg [] ({} : WsConnection μ) := by
  refine ⟨⟨le_refl 1, fun _ => iff_of_false nofun List.not_mem_nil, fun _ => List.not_mem_nil⟩,
    ⟨fun h => (by cases h), fun h => (by cases h)⟩, fun h => ?_, rfl, trivial, fun _ => rfl,
    fun _ _ _ => rfl, fun h => (by cases h)⟩
  simp at h

/-- While an operation of the connection is outstanding, the client has not given up. -/
theorem Lives.not_over (h : Lives cfg l c) {op : WsOp} (hops : c.ops = [op]) : .gaveUp ∉ l := by
  intro hover
  have := h.ended hover
  rw [hops] at this
  simp at this

/-- With nothing else outstanding, a failed attempt is followed by a wait, or by the end. -/
theorem Lives.retry (h : Lives cfg l c) {op : WsOp} {c' : WsConnection μ}
    {obs : List (WsConnectionObs μ)} (hrun : c.running = true) (hops : c.ops = [op])
    (hop : op ≠ .read) (hr : Retry cfg { c with ops := [] } c' obs) :
    Lives cfg (l ++ obs) c' := by
  have hnone := (h.chain.ops_eq (by rw [hops]; exact List.mem_singleton_self op)).2
  have hconn : ¬ c.connected = true := by
    rw [h.chain.reading hrun, hops, List.mem_singleton]
    exact hop.symm
  have hnotover := h.not_over hops
  cases hr with
  | closing hclosing =>
    rw [List.append_nil]
    refine ⟨⟨?_, fun _ => ?_, fun _ => List.not_mem_nil⟩, h.closing, h.closes, h.count, h.announced,
      h.balance, fun _ hc => ?_, fun hover => absurd hover hnotover⟩
    · exact hnone.le.trans (Nat.zero_le 1)
    · exact iff_of_false hconn List.not_mem_nil
    · exact absurd (hclosing.symm.trans hc) (by decide)
  | gaveUp hopen hmax hcount =>
    have hclosed : .closed ∉ l := by
      rw [← h.closing]
      exact Bool.eq_false_iff.mp hopen
    refine ⟨⟨?_, fun _ => ?_, fun _ => List.not_mem_nil⟩, ?_, h.closes, ?_, ?_, fun hc => ?_,
      fun _ _ hg => ?_, fun _ => ?_⟩
    · exact hnone.le.trans (Nat.zero_le 1)
    · exact iff_of_false hconn List.not_mem_nil
    · simpa using h.closing
    · simpa [attempts] using h.count
    · exact allAnnounced_snoc.mpr ⟨h.announced, hclosed, hmax, h.count ▸ hcount⟩
    · simpa [WsConnectionObs.isOpened, WsConnectionObs.isLost] using h.balance hc
    · exact absurd (List.mem_append_right l (List.mem_singleton_self _)) hg
    · exact hnone
  | waits hopen hroom =>
    have hclosed : .closed ∉ l := by
      rw [← h.closing]
      exact Bool.eq_false_iff.mp hopen
    have hcount := h.count
    refine ⟨⟨?_, fun _ => ?_, fun _ => by simp⟩, ?_, h.closes, ?_, ?_, fun hc => ?_,
      fun _ _ _ => ?_, fun hover => ?_⟩
    · simp [hnone]
    · exact iff_of_false hconn (by simp)
    · simpa using h.closing
    · simpa [attempts] using hcount
    · refine allAnnounced_snoc.mpr ⟨h.announced, hclosed, ?_, fun hmax => ?_⟩
      · rw [← hcount]
      · rw [← hcount]
        exact hroom hmax
    · simpa [WsConnectionObs.isOpened, WsConnectionObs.isLost] using h.balance hc
    · simp [hnone]
    · exact absurd (by simpa using hover) hnotover

/-- A connection that is lost fails like an attempt, after the loss was made known. -/
theorem Lives.lost (h : Lives cfg l c) (hrun : c.running = true) (hops : c.ops = [.read])
    (hopen : c.closing = false) (reason : String) :
    Lives cfg (l ++ [.lost reason]) { c with connected := false, ops := [.connect] } := by
  have hread : .read ∈ c.ops := by rw [hops]; exact List.mem_singleton_self _
  have hnone := (h.chain.ops_eq hread).2
  have hconn := (h.chain.reading hrun).mpr hread
  have hnotover := h.not_over hops
  have hclosed : .closed ∉ l := by
    rw [← h.closing]
    exact Bool.eq_false_iff.mp hopen
  refine ⟨⟨?_, fun _ => ?_, fun _ => by simp⟩, ?_, h.closes, ?_, ?_, fun hc => ?_, fun _ _ _ => ?_,
    fun hover => ?_⟩
  · simp [hnone]
  · exact iff_of_false nofun (by simp)
  · simpa using h.closing
  · simpa [attempts] using h.count
  · exact allAnnounced_snoc.mpr ⟨h.announced, hclosed⟩
  · have hbalance := h.balance hc
    rw [if_pos hconn] at hbalance
    simpa [WsConnectionObs.isOpened, WsConnectionObs.isLost] using hbalance
  · simp [hnone]
  · exact absurd (by simpa using hover) hnotover

theorem countP_message {msg : μ} {posted posted' : List (WsPosted μ)}
    (h : posted = .message msg :: posted') :
    posted'.countP WsPosted.isResolve = posted.countP WsPosted.isResolve := by
  rw [h, List.countP_cons_of_neg (by simp [WsPosted.isResolve])]

theorem Lives.popMessage (h : Lives cfg l c) {msg : μ} {posted : List (WsPosted μ)}
    (hposted : c.posted = .message msg :: posted) (pendingSends : List μ) :
    Lives cfg l { c with posted, pendingSends } := by
  have hcount := countP_message hposted
  refine ⟨⟨?_, h.chain.reading, h.chain.waiting⟩, h.closing, fun hclose => ?_, h.count, h.announced,
    h.balance, ?_, ?_⟩
  · rw [hcount]
    exact h.chain.one
  · exact h.closes (by rw [hposted]; exact List.mem_cons_of_mem _ hclose)
  · rw [hcount]
    exact h.alive
  · rw [hcount]
    exact h.ended

theorem Lives.setFlushes (h : Lives cfg l c) (flushes : List (Nat × List μ)) :
    Lives cfg l { c with flushes } :=
  ⟨⟨h.chain.one, h.chain.reading, h.chain.waiting⟩, h.closing, h.closes, h.count, h.announced,
    h.balance, h.alive, h.ended⟩

/-- The end of a write of `flush_pending` starts another or none. -/
theorem onFlushed_cases (k : Nat) (ok : Bool) :
    (∃ flushes, c.onFlushed k ok = ({ c with flushes }, [])) ∨
      ∃ flushes msg, c.onFlushed k ok = ({ c with flushes }, [.wrote msg]) := by
  unfold onFlushed flushPending
  split
  · split
    · split
      · split
        · exact .inr ⟨_, _, rfl⟩
        · exact .inl ⟨_, rfl⟩
      · exact .inl ⟨_, rfl⟩
    · exact .inl ⟨_, rfl⟩
  · exact .inl ⟨c.flushes, rfl⟩

/-- The only operation outstanding gives way to another, which reads if it did. -/
theorem Lives.goOn (h : Lives cfg l c) {op op' : WsOp} (hops : c.ops = [op])
    (hread : op' = .read ↔ op = .read) (hwait : op' ≠ .reconnectWait true) (stream : Nat) :
    Lives cfg l { c with ops := [op'], stream } := by
  refine ⟨⟨?_, fun hrun => ?_, fun _ => by simpa using hwait.symm⟩, h.closing, h.closes, h.count,
    h.announced, h.balance, ?_, ?_⟩
  · simpa [hops] using h.chain.one
  · have hreading := h.chain.reading hrun
    simp only [hops, List.mem_singleton] at hreading ⊢
    rw [hreading, eq_comm, ← hread, eq_comm]
  · simpa [hops] using h.alive
  · simpa [hops] using h.ended

theorem Lives.opened (h : Lives cfg l c) (hrun : c.running = true) (hops : c.ops = [.wsHandshake])
    (flushes : List (Nat × List μ)) :
    Lives cfg (l ++ [.opened])
      { c with
        connected := true, reconnectCount := 0, pendingSends := [], ops := [.read], flushes } := by
  have hone := h.chain.one
  have hconn : c.connected = false := by
    refine Bool.eq_false_iff.mpr fun hconn => ?_
    rw [h.chain.reading hrun, hops] at hconn
    simp at hconn
  have hnotover := h.not_over hops
  refine ⟨⟨?_, fun _ => ?_, fun _ => by simp⟩, ?_, h.closes, ?_, ?_, fun hc => ?_, ?_,
    fun hover => ?_⟩
  · simpa [hops] using hone
  · simp
  · simpa using h.closing
  · simp [attempts]
  · exact allAnnounced_snoc.mpr ⟨h.announced, hnotover⟩
  · have hbalance := h.balance hc
    rw [hconn] at hbalance
    simpa [WsConnectionObs.isOpened, WsConnectionObs.isLost] using hbalance
  · simpa [hops] using h.alive
  · exact absurd (by simpa using hover) hnotover

theorem Lives.step (h : Lives cfg l c) {c' : WsConnection μ} {obs : List (WsConnectionObs μ)}
    (m : Move cfg c c' obs) : Lives cfg (l ++ obs) c' := by
  cases m with
  | quiet =>
    rw [List.append_nil]
    exact h
  | send message =>
    refine Lives.text ?_ (by simp [WsConnectionObs.isText])
    refine ⟨⟨?_, h.chain.reading, h.chain.waiting⟩, h.closing, ?_, h.count, h.announced, h.balance,
      ?_, ?_⟩
    · simpa [WsPosted.isResolve] using h.chain.one
    · simpa using h.closes
    · simpa [WsPosted.isResolve] using h.alive
    · simpa [WsPosted.isResolve] using h.ended
  | close hopen =>
    refine ⟨⟨?_, h.chain.reading, h.chain.waiting⟩, ?_, fun _ => rfl, ?_, ?_, fun hc => ?_,
      fun _ hc => ?_, ?_⟩
    · simpa [WsPosted.isResolve] using h.chain.one
    · simp
    · simpa [attempts] using h.count
    · exact allAnnounced_snoc.mpr ⟨h.announced, trivial⟩
    · cases hc
    · cases hc
    · simpa [WsPosted.isResolve] using h.ended
  | resolve posted hrun hposted hops hnone =>
    rw [List.append_nil]
    have hconn : ¬ c.connected = true := by
      rw [h.chain.reading hrun, hops]
      exact List.not_mem_nil
    refine ⟨⟨?_, fun _ => ?_, fun _ => by simp⟩, h.closing, fun hclose => ?_, h.count, h.announced,
      h.balance, ?_, ?_⟩
    · simp [hnone]
    · exact iff_of_false hconn (by simp)
    · exact h.closes (by rw [hposted]; exact List.mem_cons_of_mem _ hclose)
    · intro _ _ _
      simp [hnone]
    · intro hover
      have := h.ended hover
      rw [hposted, List.countP_cons_of_pos rfl] at this
      omega
  | write msg posted hrun hposted hconn =>
    exact (h.popMessage hposted c.pendingSends).text (by simp [WsConnectionObs.isText])
  | keep msg posted hrun hposted hconn =>
    rw [List.append_nil]
    exact h.popMessage hposted _
  | doClose posted hrun hposted =>
    rw [List.append_nil]
    have hclosing := h.closes (by rw [hposted]; exact List.mem_cons_self ..)
    have hcount : posted.countP WsPosted.isResolve = c.posted.countP WsPosted.isResolve := by
      rw [hposted, List.countP_cons_of_neg (by simp [WsPosted.isResolve])]
    refine ⟨⟨?_, nofun, nofun⟩, h.closing, fun _ => hclosing, h.count, h.announced, fun hc => ?_,
      fun hr => ?_, ?_⟩
    · simpa [WsConnection.doClose, cancelWaits, hcount] using h.chain.one
    · exact absurd (hclosing.symm.trans hc) (by decide)
    · cases hr
    · simpa [WsConnection.doClose, cancelWaits, hcount] using h.ended
  | next op op' stream hrun hops hnext =>
    rw [List.append_nil]
    cases hnext with
    | resolved | connected | secured | expired =>
      refine h.goOn hops ?_ ?_ _
      · exact iff_of_false nofun nofun
      · nofun
    | read => exact h.goOn hops Iff.rfl nofun _
  | opens hrun hops flushes written hflush =>
    rw [← List.singleton_append, ← List.append_assoc]
    exact (h.opened hrun hops flushes).text fun o ho => by
      obtain ⟨msg, -, rfl⟩ := List.mem_map.mp ho
      rfl
  | fails op c' obs hrun hops hop hretry => exact h.retry hrun hops hop hretry
  | loses reason c' obs hrun hops hretry =>
    by_cases hclosing : c.closing = true
    · rw [if_pos hclosing, List.append_nil]
      have hstate : c' = { c with ops := [], connected := false } := by
        cases hretry with
        | closing => rfl
        | gaveUp hopen => exact absurd (hclosing.symm.trans hopen) (by decide)
        | waits hopen => exact absurd (hclosing.symm.trans hopen) (by decide)
      rw [hstate]
      have hnotover := h.not_over hops
      refine ⟨⟨?_, fun _ => ?_, fun _ => List.not_mem_nil⟩, h.closing, h.closes, h.count,
        h.announced, fun hc => ?_, fun _ hc => ?_, fun hover => absurd hover hnotover⟩
      · exact (Nat.add_le_add_left (Nat.zero_le _) _).trans h.chain.one
      · exact iff_of_false nofun List.not_mem_nil
      · exact absurd (hclosing.symm.trans hc) (by decide)
      · exact absurd (hclosing.symm.trans hc) (by decide)
    · rw [if_neg hclosing, ← List.singleton_append, ← List.append_assoc]
      exact (h.lost hrun hops (Bool.eq_false_iff.mpr hclosing) reason).retry hrun rfl nofun hretry
  | stops op running hrun hops hread hclosing =>
    rw [List.append_nil]
    have hnotover := h.not_over hops
    refine ⟨⟨?_, fun hr => ?_, fun _ => List.not_mem_nil⟩, h.closing, h.closes, h.count,
      h.announced, h.balance, fun hr hc => ?_, fun hover => absurd hover hnotover⟩
    · exact (Nat.add_le_add_left (Nat.zero_le _) _).trans h.chain.one
    · refine iff_of_false ?_ List.not_mem_nil
      rw [h.chain.reading hrun, hops, List.mem_singleton]
      intro hop
      exact absurd (hr.symm.trans (hread hop.symm)) (by decide)
    · exact absurd ((hclosing hr).symm.trans hc) (by decide)
  | flushed k ok hrun =>
    rcases onFlushed_cases (c := c) k ok with ⟨flushes, hstep⟩ | ⟨flushes, msg, hstep⟩
    · rw [hstep, List.append_nil]
      exact h.setFlushes flushes
    · rw [hstep]
      exact (h.setFlushes flushes).text (by simp [WsConnectionObs.isText])

end Shown

end WsConnection

end Arb
