import HlLighterArb.Lib.Simulation
import HlLighterArb.Ws.Delivery
import HlLighterArb.Ws.Lifecycle

/-!
# HlLighterArb.Ws.LifecycleClient

The client with its connection refines the client without it (`Ws.Client`), over which the
transports are stated.

* `client`: the connection left out. Of the writes in progress it keeps those on the present stream.
* `plays`: what a step is for the client without the connection.
* `plays_client`: a run and the run it plays send, write and hold the same texts.
-/

namespace Arb

variable {μ : Type}

def WsPosted.message? : WsPosted μ → Option μ
  | .message msg => some msg
  | _ => none

/-- What is shown of a text, as the client without the connection shows it. -/
def WsConnectionObs.text? : WsConnectionObs μ → Option (WsClient.Obs μ)
  | .sent message => some (.sent message)
  | .wrote message => some (.wrote message)
  | _ => none

def WsClient.Obs.text? : WsClient.Obs μ → Option (WsClient.Obs μ)
  | .dropped _ => none
  | o => some o

namespace WsConnection

variable {cfg : WsClientConfig} {c : WsConnection μ}

/-! ## The client without its connection -/

/-- The writes of `flush_pending` on a stream. -/
def onStream (stream : Nat) (flushes : List (Nat × List μ)) : List (Nat × List μ) :=
  flushes.filter fun f => f.1 = stream

/-- What the write of `flush_pending` on the present stream leaves to write. -/
def flushing (c : WsConnection μ) : List μ := (onStream c.stream c.flushes).flatMap Prod.snd

/-- The client, its connection apart. -/
def client (c : WsConnection μ) : WsClient μ where
  connected := c.connected
  running := c.running
  posted := c.posted.filterMap WsPosted.message?
  pendingSends := c.pendingSends
  flushing := if c.connected then c.flushing else []

/-- What a step is for the client without the connection. -/
def plays (c : WsConnection μ) : WsConnectionEvent μ → List (WsClient.Event μ)
  | .send message => [.send message]
  | .runPosted =>
    if c.running then match c.posted with
      | .message _ :: _ => [.io .runPosted]
      | .doClose :: _ => [.readError, .exception]
      | _ => []
    else []
  | .wsHandshake ok => if c.running ∧ .wsHandshake ∈ c.ops then [.io (.handshake ok)] else []
  | .message throws => if c.running ∧ .read ∈ c.ops ∧ throws then [.exception] else []
  | .readError _ => if c.running ∧ .read ∈ c.ops then [.readError] else []
  | .flushed k ok =>
    match c.flushes[k]? with
    | some (stream, _) =>
      if c.running ∧ c.connected ∧ stream = c.stream then [.io (.writeDone ok)] else []
    | none => []
  | _ => []

/-- One write of `flush_pending` at most is in progress on a stream, and none on one that is still
being connected. -/
structure Flushes (c : WsConnection μ) : Prop where
  le : ∀ f ∈ c.flushes, f.1 ≤ c.stream
  one : (onStream c.stream c.flushes).length ≤ 1
  fresh : ∀ op ∈ c.ops, op = .connect ∨ op = .sslHandshake ∨ op = .wsHandshake →
    ∀ f ∈ c.flushes, f.1 < c.stream

theorem client_scheduleReconnect (cfg : WsClientConfig) (c : WsConnection μ) :
    (c.scheduleReconnect cfg).1.client = c.client ∧
      (c.scheduleReconnect cfg).2.filterMap WsConnectionObs.text? = [] := by
  unfold scheduleReconnect
  split
  · exact ⟨rfl, rfl⟩
  · split
    · exact ⟨rfl, rfl⟩
    · exact ⟨rfl, rfl⟩

theorem onStream_snoc (stream : Nat) (flushes : List (Nat × List μ)) (rest : List μ) :
    onStream stream (flushes ++ [(stream, rest)])
      = onStream stream flushes ++ [(stream, rest)] := by
  simp [onStream]

theorem onStream_of_lt {stream : Nat} {flushes : List (Nat × List μ)}
    (h : ∀ f ∈ flushes, f.1 < stream) : onStream stream flushes = [] := by
  rw [onStream, List.filter_eq_nil_iff]
  intro f hf
  simpa using (h f hf).ne

theorem split_at {α : Type} {l : List α} {k : Nat} {x : α} (h : l[k]? = some x) :
    ∃ front back, l = front ++ x :: back ∧ l.eraseIdx k = front ++ back := by
  obtain ⟨hk, hx⟩ := List.getElem?_eq_some_iff.mp h
  refine ⟨l.take k, l.drop (k + 1), ?_, List.eraseIdx_eq_take_drop_succ l k⟩
  rw [← hx, List.getElem_cons_drop, List.take_append_drop]

/-- What the end of the write of `flush_pending` at `k` takes away. -/
inductive Ended (c : WsConnection μ) (k : Nat) : Prop where
  | none (h : c.flushes[k]? = none)
  | old (stream : Nat) (msgs : List μ) (h : c.flushes[k]? = some (stream, msgs))
      (hold : stream ≠ c.stream)
      (hrest : onStream c.stream (c.flushes.eraseIdx k) = onStream c.stream c.flushes)
  | present (msgs : List μ) (h : c.flushes[k]? = some (c.stream, msgs)) (hflush : c.flushing = msgs)
      (hrest : onStream c.stream (c.flushes.eraseIdx k) = [])

theorem Flushes.ended (h : Flushes c) (k : Nat) : Ended c k := by
  cases hk : c.flushes[k]? with
  | none => exact .none hk
  | some f =>
    obtain ⟨stream, msgs⟩ := f
    obtain ⟨front, back, hsplit, herase⟩ := split_at hk
    by_cases hstream : stream = c.stream
    · have hone := h.one
      subst hstream
      rw [hsplit, onStream, List.filter_append, List.filter_cons_of_pos (by simp),
        List.length_append, List.length_cons] at hone
      have hfront : front.filter (fun f => f.1 = c.stream) = [] :=
        List.length_eq_zero_iff.mp (by omega)
      have hback : back.filter (fun f => f.1 = c.stream) = [] :=
        List.length_eq_zero_iff.mp (by omega)
      refine .present msgs hk ?_ ?_
      · rw [flushing, hsplit, onStream, List.filter_append, List.filter_cons_of_pos (by simp),
          hfront, hback]
        simp
      · rw [herase, onStream, List.filter_append, hfront, hback, List.append_nil]
    · refine .old stream msgs hk hstream ?_
      rw [herase, hsplit, onStream, onStream, List.filter_append, List.filter_append,
        List.filter_cons_of_neg (by simpa using hstream)]

theorem Flushes.init : Flushes ({} : WsConnection μ) :=
  ⟨fun _ h => (by cases h), Nat.zero_le 1, fun _ h => (by cases h)⟩

/-- A state with the streams and writes of another one that is connecting no further. -/
theorem Flushes.same (h : Flushes c) {c' : WsConnection μ} (hflushes : c'.flushes = c.flushes)
    (hstream : c'.stream = c.stream)
    (hops : ∀ op ∈ c'.ops, op = .connect ∨ op = .sslHandshake ∨ op = .wsHandshake → op ∈ c.ops) :
    Flushes c' := by
  refine ⟨?_, ?_, ?_⟩
  · rw [hflushes, hstream]
    exact h.le
  · rw [hflushes, hstream]
    exact h.one
  · rw [hflushes, hstream]
    exact fun op hop hset => h.fresh op (hops op hop hset) hset

theorem flushPending_cases (c : WsConnection μ) (msgs : List μ) :
    (c.flushPending msgs = (c, []) ∧ (c.connected = true → msgs = [])) ∨
      ∃ msg rest, msgs = msg :: rest ∧ c.connected = true ∧
        c.flushPending msgs
          = ({ c with flushes := c.flushes ++ [(c.stream, rest)] }, [.wrote msg]) := by
  cases msgs with
  | nil => exact .inl ⟨rfl, fun _ => rfl⟩
  | cons msg rest =>
    rw [flushPending]
    split
    · next hconn => exact .inr ⟨msg, rest, rfl, hconn, rfl⟩
    · next hconn => exact .inl ⟨rfl, fun h => absurd h hconn⟩

theorem onFlushed_present {k : Nat} {msgs : List μ} (h : c.flushes[k]? = some (c.stream, msgs))
    (ok : Bool) : c.onFlushed k ok =
      if ok then flushPending { c with flushes := c.flushes.eraseIdx k } msgs
      else ({ c with flushes := c.flushes.eraseIdx k }, []) := by
  simp [onFlushed, h]

theorem onFlushed_old {k stream : Nat} {msgs : List μ} (h : c.flushes[k]? = some (stream, msgs))
    (hold : stream ≠ c.stream) (ok : Bool) :
    c.onFlushed k ok = ({ c with flushes := c.flushes.eraseIdx k }, []) := by
  simp [onFlushed, h, hold]

theorem Flushes.erase (h : Flushes c) (k : Nat) :
    Flushes { c with flushes := c.flushes.eraseIdx k } := by
  have hsub := List.eraseIdx_sublist c.flushes k
  exact ⟨fun f hf => h.le f (hsub.subset hf), ((hsub.filter _).length_le).trans h.one,
    fun op hop hset f hf => h.fresh op hop hset f (hsub.subset hf)⟩

/-- A write that begins on the present stream, where none is in progress. -/
theorem Flushes.begin {flushes : List (Nat × List μ)} (h : Flushes { c with flushes })
    (hnone : onStream c.stream flushes = [])
    (hset : ∀ op ∈ c.ops, ¬ (op = .connect ∨ op = .sslHandshake ∨ op = .wsHandshake))
    (rest : List μ) : Flushes { c with flushes := flushes ++ [(c.stream, rest)] } := by
  refine ⟨fun f hf => ?_, ?_, fun op hop hop' => absurd hop' (hset op hop)⟩
  · rcases List.mem_append.mp hf with hf | hf
    · exact h.le f hf
    · rw [List.mem_singleton.mp hf]
  · rw [onStream_snoc, hnone]
    exact le_refl 1

theorem Flushes.flushed (h : Flushes c) (k : Nat) (ok : Bool) : Flushes (c.onFlushed k ok).1 := by
  rcases h.ended k with hk | ⟨stream, msgs, hk, hold, -⟩ | ⟨msgs, hk, -, hrest⟩
  · rw [onFlushed, hk]
    exact h
  · rw [onFlushed_old hk hold]
    exact h.erase k
  · rw [onFlushed_present hk]
    split
    · rcases flushPending_cases { c with flushes := c.flushes.eraseIdx k } msgs with
        ⟨heq, -⟩ | ⟨msg, rest, -, -, heq⟩
      · rw [heq]
        exact h.erase k
      · rw [heq]
        refine (h.erase k).begin hrest (fun op hop hset => ?_) rest
        -- a write in progress on a stream that is still being connected
        exact Nat.lt_irrefl _ (h.fresh op hop hset _ (List.mem_of_getElem? hk))
    · exact h.erase k

theorem mem_cancelWaits {op : WsOp} {ops : List WsOp}
    (hop : op = .connect ∨ op = .sslHandshake ∨ op = .wsHandshake) (h : op ∈ cancelWaits ops) :
    op ∈ ops := by
  obtain ⟨op', hmem, heq⟩ := List.mem_map.mp h
  cases op' with
  | reconnectWait =>
    subst heq
    rcases hop with hop | hop | hop <;> cases hop
  | resolve | connect | sslHandshake | wsHandshake | read =>
    obtain rfl := heq
    exact hmem

theorem Flushes.retry (h : Flushes c) {c' : WsConnection μ} {obs : List (WsConnectionObs μ)}
    (hr : Retry cfg c c' obs) : Flushes c' := by
  cases hr with
  | closing | gaveUp => exact h
  | waits =>
    refine h.same rfl rfl fun op hop hset => ?_
    obtain rfl := List.mem_singleton.mp hop
    rcases hset with hset | hset | hset <;> cases hset

theorem Flushes.step (h : Flushes c) {c' : WsConnection μ} {obs : List (WsConnectionObs μ)}
    (m : Move cfg c c' obs) : Flushes c' := by
  have hnone : Flushes { c with ops := [] } :=
    h.same rfl rfl fun op hop => by cases hop
  cases m with
  | quiet => exact h
  | send | close | write | keep => exact ⟨h.le, h.one, h.fresh⟩
  | resolve =>
    refine h.same rfl rfl fun op hop hset => ?_
    obtain rfl := List.mem_singleton.mp hop
    rcases hset with hset | hset | hset <;> cases hset
  | doClose => exact h.same rfl rfl fun op hop hset => mem_cancelWaits hset hop
  | next op op' stream hrun hops hnext =>
    cases hnext with
    | resolved =>
      have hlt : ∀ f ∈ c.flushes, f.1 < c.stream + 1 := fun f hf => Nat.lt_succ_of_le (h.le f hf)
      refine ⟨fun f hf => (hlt f hf).le, ?_, fun _ _ _ => hlt⟩
      rw [onStream_of_lt hlt]
      exact Nat.zero_le 1
    | connected | secured =>
      have hlt := h.fresh _ (by rw [hops]; exact List.mem_singleton_self _) (by decide)
      exact ⟨h.le, h.one, fun _ _ _ => hlt⟩
    | read | expired =>
      refine h.same rfl rfl fun op hop hset => ?_
      obtain rfl := List.mem_singleton.mp hop
      rcases hset with hset | hset | hset <;> cases hset
  | opens hrun hops flushes written hflush =>
    have hlt := h.fresh _ (by rw [hops]; exact List.mem_singleton_self _) (by decide)
    have hempty := onStream_of_lt hlt
    have hread : ∀ op ∈ [WsOp.read],
        ¬ (op = .connect ∨ op = .sslHandshake ∨ op = .wsHandshake) := by decide
    have hopen : Flushes { c with ops := [.read] } :=
      ⟨h.le, h.one, fun op hop hset => absurd hset (hread op hop)⟩
    rcases hflush with ⟨-, rfl, -⟩ | ⟨msg, msgs, -, rfl, -⟩
    · exact ⟨hopen.le, hopen.one, hopen.fresh⟩
    · have hbegin := Flushes.begin (c := { c with ops := [.read] }) hopen hempty hread msgs
      exact ⟨hbegin.le, hbegin.one, hbegin.fresh⟩
  | fails op c' obs hrun hops hop hretry => exact hnone.retry hretry
  | loses reason c' obs hrun hops hretry =>
    have hlost : Flushes { c with ops := [], connected := false } :=
      ⟨hnone.le, hnone.one, hnone.fresh⟩
    exact hlost.retry hretry
  | stops => exact h.same rfl rfl fun op hop => by cases hop
  | flushed k ok => exact h.flushed k ok

/-! ## Playing the client -/

/-- What a step shows of texts, and the client after it, are those of what it plays. -/
def Played (c : WsConnection μ) (next : WsConnection μ × List (WsConnectionObs μ))
    (fs : List (WsClient.Event μ)) : Prop :=
  next.1.client = WsClient.machine.final c.client fs ∧
    next.2.filterMap WsConnectionObs.text?
      = (WsClient.machine.obs c.client fs).filterMap WsClient.Obs.text?

theorem client_text_wrote (msgs : List μ) :
    (msgs.map WsClient.Obs.wrote).filterMap WsClient.Obs.text? = msgs.map .wrote := by
  rw [List.filterMap_map, ← List.filterMap_eq_map]
  rfl

theorem client_text_dropped (msgs : List μ) :
    (msgs.map WsClient.Obs.dropped).filterMap WsClient.Obs.text? = [] := by
  rw [List.filterMap_map, List.filterMap_eq_nil_iff]
  exact fun _ _ => rfl

/-- A handler of `send` is played by the client running the same handler. -/
theorem runPosted_message {msg : μ} {posted : List (WsPosted μ)} (hrun : c.running = true)
    (hposted : c.posted = .message msg :: posted) :
    Played c c.runPosted [.io .runPosted] := by
  have hclient : c.client.posted = msg :: posted.filterMap WsPosted.message? := by
    rw [client, hposted]
    rfl
  have hplayed : WsClient.machine.step c.client (.io .runPosted)
      = ((c.client.runPosted).1, (c.client.runPosted).2.map .wrote) := by
    simp [WsClient.step, WsClient.io, WsClient.droppedBy]
  rw [Played, EventMachine.final_cons, EventMachine.obs_cons, hplayed, EventMachine.final_nil,
    EventMachine.obs_nil, List.append_nil, client_text_wrote]
  unfold runPosted WsClient.runPosted
  rw [hposted, hclient]
  by_cases hconn : c.connected = true
  · simp [client, hrun, hconn, flushing, WsConnectionObs.text?]
  · simp [client, hrun, hconn]

/-- Losing the connection shows no text. -/
theorem client_readError (d : WsClient μ) :
    (WsClient.machine.step d .readError).1 = (if d.reading then d.onReadError else d) ∧
      (WsClient.machine.step d .readError).2.filterMap WsClient.Obs.text? = [] := by
  rw [WsClient.machine_step, WsClient.step]
  split
  · exact ⟨rfl, client_text_dropped _⟩
  · exact ⟨rfl, rfl⟩

theorem runPosted_doClose {posted : List (WsPosted μ)} (hrun : c.running = true)
    (hposted : c.posted = .doClose :: posted) :
    Played c c.runPosted [.readError, .exception] := by
  have hmessages : c.posted.filterMap WsPosted.message? = posted.filterMap WsPosted.message? := by
    rw [hposted]
    rfl
  obtain ⟨hstep, htext⟩ := client_readError c.client
  rw [Played, EventMachine.final_cons, EventMachine.obs_cons, List.filterMap_append, htext, hstep]
  unfold runPosted
  rw [hposted]
  refine ⟨?_, rfl⟩
  by_cases hconn : c.connected = true
  · simp [client, doClose, hrun, hconn, hmessages, WsClient.reading, WsClient.onReadError,
      WsClient.step, WsClient.ioException]
  · simp [client, doClose, hrun, hconn, hmessages, WsClient.reading, WsClient.step,
      WsClient.ioException]

theorem runPosted_played (hrun : c.running = true) : Played c c.runPosted (c.plays .runPosted) := by
  unfold plays
  rw [if_pos hrun]
  cases hposted : c.posted with
  | nil => simp [Played, runPosted, hposted]
  | cons handler posted =>
    cases handler with
    | doResolve =>
      have hmessages :
          c.posted.filterMap WsPosted.message? = posted.filterMap WsPosted.message? := by
        rw [hposted]
        rfl
      simp [Played, runPosted, hposted, client, doResolve, flushing, ← hmessages]
    | message msg => exact runPosted_message hrun hposted
    | doClose => exact runPosted_doClose hrun hposted

theorem onWsHandshake_played (h : Chain c) (hf : Flushes c) (hrun : c.running = true)
    (hops : c.ops = [.wsHandshake]) (ok : Bool) :
    Played c (onWsHandshake cfg { c with ops := [] } ok) [.io (.handshake ok)] := by
  have hconn : c.connected = false := by
    refine Bool.eq_false_iff.mpr fun hconn => ?_
    rw [h.reading hrun, hops] at hconn
    simp at hconn
  have hplayed : WsClient.machine.step c.client (.io (.handshake ok))
      = ((c.client.onWsHandshake ok).1, (c.client.onWsHandshake ok).2.map .wrote) := by
    simp [WsClient.step, WsClient.io, WsClient.droppedBy]
  rw [Played, EventMachine.final_cons, EventMachine.obs_cons, hplayed, EventMachine.final_nil,
    EventMachine.obs_nil, List.append_nil, client_text_wrote]
  cases ok with
  | false =>
    have hretry := client_scheduleReconnect cfg { c with ops := [] }
    rw [WsClient.onWsHandshake, if_neg (by simp)]
    exact hretry
  | true =>
    have hlt := hf.fresh _ (by rw [hops]; exact List.mem_singleton_self _) (by decide)
    have hempty := onStream_of_lt hlt
    rw [WsClient.onWsHandshake, if_pos ⟨hrun, by simp [client, hconn], rfl⟩,
      WsClient.flushPending_connected rfl, onWsHandshake, if_pos rfl]
    have hkept : c.client.pendingSends = c.pendingSends := rfl
    rw [hkept]
    cases c.pendingSends with
    | nil =>
      exact ⟨by simp [client, doRead, flushPending, flushing, hempty], rfl⟩
    | cons msg msgs =>
      refine ⟨?_, rfl⟩
      simp [client, doRead, flushPending, flushing, onStream_snoc, hempty]

theorem onReadError_played (h : Chain c) (hrun : c.running = true) (hops : c.ops = [.read])
    (reason : String) :
    Played c (onReadError cfg { c with ops := [] } reason) [.readError] := by
  have hconn : c.connected = true := by
    rw [h.reading hrun, hops]
    exact List.mem_singleton_self _
  obtain ⟨hstep, htext⟩ := client_readError c.client
  obtain ⟨hclient, hnone⟩ :=
    client_scheduleReconnect cfg { c with ops := [], connected := false }
  rw [Played, EventMachine.final_cons, EventMachine.obs_cons, EventMachine.final_nil,
    EventMachine.obs_nil, List.append_nil, htext, hstep,
    if_pos (by simp [WsClient.reading, client, hrun, hconn])]
  have hlost : client { c with ops := [], connected := false } = c.client.onReadError := by
    simp [client, WsClient.onReadError]
  unfold onReadError
  split
  · exact ⟨hlost, rfl⟩
  · refine ⟨hclient.trans hlost, ?_⟩
    rw [List.filterMap_cons_none rfl]
    exact hnone

theorem onFlushed_played (hf : Flushes c) (hrun : c.running = true) (k : Nat) (ok : Bool) :
    Played c (c.onFlushed k ok) (c.plays (.flushed k ok)) := by
  have hold : ∀ stream msgs, c.flushes[k]? = some (stream, msgs) → stream ≠ c.stream →
      onStream c.stream (c.flushes.eraseIdx k) = onStream c.stream c.flushes →
      Played c (c.onFlushed k ok) (c.plays (.flushed k ok)) := by
    intro stream msgs hk hne hrest
    simp [plays, hk, hne, onFlushed_old hk hne, Played, client, flushing, hrest]
  rcases hf.ended k with hk | ⟨stream, msgs, hk, hne, hrest⟩ | ⟨msgs, hk, hflush, hrest⟩
  · simp [plays, onFlushed, hk, Played]
  · exact hold stream msgs hk hne hrest
  · have hrestflush : flushing { c with flushes := c.flushes.eraseIdx k } = [] := by
      rw [flushing, hrest]
      rfl
    rw [onFlushed_present hk]
    by_cases hconn : c.connected = true
    · have hplays : c.plays (.flushed k ok) = [.io (.writeDone ok)] := by
        simp [plays, hk, hrun, hconn]
      have hdone : WsClient.machine.step c.client (.io (.writeDone ok))
          = ((c.client.onWriteDone ok).1, (c.client.onWriteDone ok).2.map .wrote
            ++ (c.client.droppedBy (.writeDone ok)).map .dropped) := rfl
      have hflushing : c.client.flushing = msgs := by simp [client, hconn, hflush]
      have hclientrun : c.client.running = true := hrun
      rw [hplays, Played, EventMachine.final_cons, EventMachine.obs_cons, hdone,
        EventMachine.final_nil, EventMachine.obs_nil, List.append_nil, List.filterMap_append,
        client_text_wrote, client_text_dropped, List.append_nil, WsClient.onWriteDone,
        if_pos hclientrun, hflushing]
      cases ok with
      | false => exact ⟨by simp [client, hrestflush], rfl⟩
      | true =>
        rw [if_pos rfl, if_pos rfl, WsClient.flushPending_connected hconn]
        cases msgs with
        | nil => exact ⟨by simp [client, flushPending, hrestflush], rfl⟩
        | cons msg msgs =>
          rw [flushPending, if_pos hconn]
          exact ⟨by simp [client, flushing, hconn, onStream_snoc, hrest], rfl⟩
    · have hplays : c.plays (.flushed k ok) = [] := by simp [plays, hk, hconn]
      rw [hplays]
      have hclient : client { c with flushes := c.flushes.eraseIdx k } = c.client := by
        simp [client, hconn]
      split
      · rcases flushPending_cases { c with flushes := c.flushes.eraseIdx k } msgs with
          ⟨heq, -⟩ | ⟨msg, rest, -, hc, -⟩
        · rw [heq]
          exact ⟨hclient, rfl⟩
        · exact absurd hc hconn
      · exact ⟨hclient, rfl⟩

/-- A step whose handler touches no text plays nothing. -/
theorem complete_played (op : WsOp)
    {handler : WsConnection μ → WsConnection μ × List (WsConnectionObs μ)}
    (h : (handler { c with ops := c.ops.erase op }).1.client = c.client ∧
      (handler { c with ops := c.ops.erase op }).2.filterMap WsConnectionObs.text? = []) :
    Played c (c.complete op handler) [] := by
  unfold complete
  split
  · exact h
  · exact ⟨rfl, rfl⟩

theorem step_played (h : Chain c) (hf : Flushes c) (e : WsConnectionEvent μ) :
    Played c (c.step cfg e) (c.plays e) := by
  have hretry : ∀ op, (scheduleReconnect cfg { c with ops := c.ops.erase op }).1.client = c.client ∧
      (scheduleReconnect cfg { c with ops := c.ops.erase op }).2.filterMap
        WsConnectionObs.text? = [] :=
    fun op => client_scheduleReconnect cfg _
  cases e with
  | send message =>
    have hposted : (c.posted ++ [WsPosted.message message]).filterMap WsPosted.message?
        = c.posted.filterMap WsPosted.message? ++ [message] := List.filterMap_append
    refine ⟨?_, rfl⟩
    rw [step, client, hposted]
    rfl
  | close =>
    have hposted : (c.posted ++ [WsPosted.doClose]).filterMap WsPosted.message?
        = c.posted.filterMap WsPosted.message? := by
      rw [List.filterMap_append]
      exact List.append_nil _
    rw [step]
    split
    · exact ⟨rfl, rfl⟩
    · refine ⟨?_, rfl⟩
      rw [client, hposted]
      rfl
  | runPosted =>
    rw [step]
    split
    · next hrun => exact runPosted_played hrun
    · next hrun => simp [Played, plays, hrun]
  | resolved ok =>
    rw [step]
    rcases complete_cases h .resolve (fun c => c.onResolve cfg ok) with heq | ⟨hrun, hops, -, heq⟩
    · rw [heq]
      exact ⟨rfl, rfl⟩
    · rw [heq]
      cases ok with
      | true =>
        have hconn : ¬ c.connected = true := by
          rw [h.reading hrun, hops]
          simp
        refine ⟨?_, rfl⟩
        simp [onResolve, client, hconn, plays]
      | false => exact client_scheduleReconnect cfg { c with ops := [] }
  | connected ok sni =>
    refine complete_played .connect ?_
    rw [onConnect]
    split
    · exact ⟨rfl, rfl⟩
    · exact hretry .connect
  | sslHandshake ok =>
    refine complete_played .sslHandshake ?_
    cases ok with
    | true => exact ⟨rfl, rfl⟩
    | false => exact hretry .sslHandshake
  | wsHandshake ok =>
    rw [step, plays]
    split
    · next hop =>
      rw [complete, if_pos hop, (h.ops_eq hop.2).1, List.erase_cons_head]
      exact onWsHandshake_played h hf hop.1 (h.ops_eq hop.2).1 ok
    · next hop =>
      rw [complete, if_neg hop]
      exact ⟨rfl, rfl⟩
  | message throws =>
    rw [step, plays, complete]
    split
    · next hop =>
      have hops := (h.ops_eq hop.2).1
      rw [hops, List.erase_cons_head]
      cases throws with
      | true =>
        rw [if_pos rfl, if_pos ⟨hop.1, List.mem_singleton_self _, rfl⟩]
        exact ⟨rfl, rfl⟩
      | false =>
        rw [if_neg Bool.false_ne_true, if_neg fun hthrows => Bool.false_ne_true hthrows.2.2]
        exact ⟨rfl, rfl⟩
    · next hop =>
      rw [if_neg fun hthrows => hop ⟨hthrows.1, hthrows.2.1⟩]
      exact ⟨rfl, rfl⟩
  | readError reason =>
    rw [step, plays]
    split
    · next hop =>
      rw [complete, if_pos hop, (h.ops_eq hop.2).1, List.erase_cons_head]
      exact onReadError_played h hop.1 (h.ops_eq hop.2).1 reason
    · next hop =>
      rw [complete, if_neg hop]
      exact ⟨rfl, rfl⟩
  | timer =>
    refine complete_played (.reconnectWait false) ?_
    split
    · exact ⟨rfl, rfl⟩
    · exact ⟨rfl, rfl⟩
  | timerCancelled => exact complete_played (.reconnectWait true) ⟨rfl, rfl⟩
  | flushed k ok =>
    rw [step]
    split
    · next hrun => exact onFlushed_played hf hrun k ok
    · next hrun =>
      have hplays : c.plays (.flushed k ok) = [] := by
        rw [plays]
        split
        · exact if_neg fun h => hrun h.1
        · rfl
      rw [hplays]
      exact ⟨rfl, rfl⟩

/-- The client without its connection plays every run of the client with it: from then on it holds
the same texts, and it has been given and has written the same texts in the same order. -/
theorem plays_client (cfg : WsClientConfig) (es : List (WsConnectionEvent μ)) :
    client ((machine cfg).final {} es)
        = WsClient.machine.final {} ((machine cfg).taken plays {} es) ∧
      ((machine cfg).obs {} es).filterMap WsConnectionObs.text?
        = (WsClient.machine.obs {} ((machine cfg).taken plays {} es)).filterMap
            WsClient.Obs.text? := by
  have hsim : (machine cfg).Simulates WsClient.machine
      (fun c : WsConnection μ => (∃ l, Lives cfg l c) ∧ Flushes c) client plays
      WsConnectionObs.text? WsClient.Obs.text? := by
    refine ⟨?_, ?_, ?_⟩
    · rintro c e ⟨⟨l, hl⟩, hf⟩
      have hmove : Move cfg c (c.step cfg e).1 (c.step cfg e).2 := step_move hl.chain e
      exact ⟨⟨_, hl.step hmove⟩, hf.step hmove⟩
    · rintro c e ⟨⟨l, hl⟩, hf⟩
      exact (step_played hl.chain hf e).1
    · rintro c e ⟨⟨l, hl⟩, hf⟩
      exact (step_played hl.chain hf e).2
  exact hsim.run ⟨⟨[], Lives.init⟩, Flushes.init⟩ es

end WsConnection

end Arb
