import Mathlib.Data.List.Basic
import Mathlib.Tactic.Common

/-!
# HlLighterArb.Ws.Client

The WebSocket client. `send` only posts a handler to the io context; the io thread runs the
handlers in order and hands the text to the socket, or keeps it in `pending_sends_` until the next
handshake, which writes the kept texts one after the other. Texts are of any type `μ`.

A step of the io thread returns the texts it hands to the socket (`async_write`). Resolving,
connecting and the TLS handshake only lead up to the next `on_ws_handshake` and are part of it;
pings carry no data. The reconnect limit is off (its default), and closing is the end of the run.
-/

namespace Arb

structure WsClient (μ : Type) where
  connected : Bool := false
  /-- The io thread: an exception from a callback ends it. -/
  running : Bool := true
  /-- Handlers of `send` the io thread has not run yet. -/
  posted : List μ := []
  pendingSends : List μ := []
  /-- What `flush_pending` still has to write, behind the write in progress. -/
  flushing : List μ := []

namespace WsClient

variable {μ : Type}

def send (c : WsClient μ) (message : μ) : WsClient μ :=
  { c with posted := c.posted ++ [message] }

/-- The io thread runs the oldest handler of `send`. -/
def runPosted (c : WsClient μ) : WsClient μ × List μ :=
  match c.running, c.posted with
  | true, msg :: posted =>
    if c.connected then ({ c with posted }, [msg])
    else ({ c with posted, pendingSends := c.pendingSends ++ [msg] }, [])
  | _, _ => (c, [])

def flushPending (c : WsClient μ) : List μ → WsClient μ × List μ
  | msg :: msgs =>
    if c.connected then ({ c with flushing := msgs }, [msg]) else ({ c with flushing := [] }, [])
  | [] => ({ c with flushing := [] }, [])

/-- A handshake ends, well or in an error. There is one only while not connected. -/
def onWsHandshake (c : WsClient μ) (ok : Bool) : WsClient μ × List μ :=
  if c.running ∧ ¬ c.connected ∧ ok then
    flushPending { c with connected := true, pendingSends := [] } c.pendingSends
  else (c, [])

/-- The write that `flush_pending` has in progress ends; an error ends the flush. -/
def onWriteDone (c : WsClient μ) (ok : Bool) : WsClient μ × List μ :=
  if c.running then
    if ok then flushPending c c.flushing else ({ c with flushing := [] }, [])
  else (c, [])

/-- What moves the io thread, reading apart. -/
inductive IoEvent where
  | runPosted
  | handshake (ok : Bool)
  | writeDone (ok : Bool)

def io (c : WsClient μ) : IoEvent → WsClient μ × List μ
  | .runPosted => c.runPosted
  | .handshake ok => c.onWsHandshake ok
  | .writeDone ok => c.onWriteDone ok

/-- A read is outstanding. -/
def reading (c : WsClient μ) : Bool := c.running && c.connected

/-- The read fails. The write in progress fails with the connection, and with it the flush. -/
def onReadError (c : WsClient μ) : WsClient μ :=
  { c with connected := false, flushing := [] }

/-- A callback throws: the exception leaves `ioc_.run()` and the thread ends. -/
def ioException (c : WsClient μ) : WsClient μ :=
  { c with running := false }

/-- The texts `send` took and no write or failed flush has taken away. -/
def unsent (c : WsClient μ) : List μ := c.flushing ++ c.pendingSends ++ c.posted

/-- Nothing is kept for a handshake while connected, and no flush goes on while not. -/
structure Tidy (c : WsClient μ) : Prop where
  kept : c.connected = true → c.pendingSends = []
  flush : c.connected = false → c.flushing = []

/-! ## What one step does -/

theorem unsent_send {c : WsClient μ} {message : μ} :
    (c.send message).unsent = c.unsent ++ [message] := by
  simp [send, unsent]

theorem Tidy.send {c : WsClient μ} (h : c.Tidy) {message : μ} : (c.send message).Tidy :=
  ⟨h.kept, h.flush⟩

/-- A step of the io thread writes only what was unsent, keeps the rest or drops it, and takes
nothing new. -/
structure Drains (c c' : WsClient μ) (written : List μ) : Prop where
  tidy : c.Tidy → c'.Tidy
  written : ∀ x ∈ written, c.running = true ∧ x ∈ c.unsent
  kept : ∀ x ∈ c'.unsent, x ∈ c.unsent
  running : c'.running = true → c.running = true

theorem Drains.refl (c : WsClient μ) : Drains c c [] :=
  ⟨id, by simp, fun _ hx => hx, id⟩

theorem runPosted_drains (c : WsClient μ) : Drains c c.runPosted.1 c.runPosted.2 := by
  unfold runPosted
  split
  · next msg posted hrun hposted =>
    split
    · next hconn =>
      refine ⟨fun h => ⟨h.kept, h.flush⟩, ?_, ?_, id⟩
      · intro x hx
        obtain rfl := List.mem_singleton.mp hx
        exact ⟨hrun, by simp [unsent, hposted]⟩
      · intro x hx
        simp only [unsent, hposted, List.mem_append, List.mem_cons] at hx ⊢
        tauto
    · next hconn =>
      refine ⟨fun h => ⟨fun hc => absurd hc hconn, h.flush⟩, by simp, ?_, id⟩
      intro x hx
      simpa [unsent, hposted, List.append_assoc] using hx
  · exact Drains.refl c

theorem flushPending_connected {c : WsClient μ} (h : c.connected = true) (msgs : List μ) :
    c.flushPending msgs = ({ c with flushing := msgs.tail }, msgs.take 1) := by
  cases msgs with
  | nil => rfl
  | cons msg msgs => exact if_pos h

theorem flushPending_disconnected {c : WsClient μ} (h : ¬ c.connected = true) (msgs : List μ) :
    c.flushPending msgs = ({ c with flushing := [] }, []) := by
  cases msgs with
  | nil => rfl
  | cons msg msgs => exact if_neg h

theorem onWsHandshake_drains (c : WsClient μ) (ok : Bool) :
    Drains c (c.onWsHandshake ok).1 (c.onWsHandshake ok).2 := by
  unfold onWsHandshake
  split
  · next h =>
    rw [flushPending_connected rfl]
    refine ⟨fun _ => ⟨fun _ => rfl, fun hc => Bool.noConfusion hc⟩, ?_, ?_, id⟩
    · intro x hx
      have := List.mem_of_mem_take hx
      exact ⟨h.1, by simp [unsent, this]⟩
    · intro x hx
      simp only [unsent, List.append_nil, List.mem_append] at hx ⊢
      have := @List.mem_of_mem_tail _ x c.pendingSends
      tauto
  · exact Drains.refl c

/-- Dropping the flush loses texts and adds none. -/
theorem dropFlush_drains (c : WsClient μ) : Drains c { c with flushing := [] } [] := by
  refine ⟨fun h => ⟨h.kept, fun _ => rfl⟩, by simp, ?_, id⟩
  intro x hx
  simp only [unsent, List.nil_append, List.mem_append] at hx ⊢
  tauto

theorem onWriteDone_drains (c : WsClient μ) (ok : Bool) :
    Drains c (c.onWriteDone ok).1 (c.onWriteDone ok).2 := by
  unfold onWriteDone
  split
  · next hrun =>
    split
    · by_cases hconn : c.connected = true
      · rw [flushPending_connected hconn]
        refine ⟨fun h => ⟨h.kept, fun hc => absurd (hc.symm.trans hconn) Bool.false_ne_true⟩,
          ?_, ?_, id⟩
        · intro x hx
          have := List.mem_of_mem_take hx
          exact ⟨hrun, by simp [unsent, this]⟩
        · intro x hx
          simp only [unsent, List.mem_append] at hx ⊢
          have := @List.mem_of_mem_tail _ x c.flushing
          tauto
      · rw [flushPending_disconnected hconn]
        exact dropFlush_drains c
    · exact dropFlush_drains c
  · exact Drains.refl c

theorem io_drains (c : WsClient μ) (e : IoEvent) : Drains c (c.io e).1 (c.io e).2 := by
  cases e with
  | runPosted => exact c.runPosted_drains
  | handshake ok => exact c.onWsHandshake_drains ok
  | writeDone ok => exact c.onWriteDone_drains ok

theorem onReadError_drains (c : WsClient μ) : Drains c c.onReadError [] := by
  refine ⟨fun h => ⟨fun hc => absurd hc (by simp [onReadError]), fun _ => rfl⟩, by simp, ?_, id⟩
  intro x hx
  simp only [onReadError, unsent, List.nil_append, List.mem_append] at hx ⊢
  tauto

theorem ioException_drains (c : WsClient μ) : Drains c c.ioException [] :=
  ⟨fun h => ⟨h.kept, h.flush⟩, by simp, fun _ hx => hx, fun h => absurd h (by simp [ioException])⟩

/-! ## Progress -/

theorem runPosted_connected {c : WsClient μ} {msg : μ} {posted : List μ} (hrun : c.running = true)
    (hconn : c.connected = true) (hposted : c.posted = msg :: posted) :
    c.runPosted = ({ c with posted }, [msg]) := by
  simp [runPosted, hrun, hconn, hposted]

theorem onWriteDone_connected {c : WsClient μ} {msg : μ} {msgs : List μ} (hrun : c.running = true)
    (hconn : c.connected = true) (hflush : c.flushing = msg :: msgs) :
    c.onWriteDone true = ({ c with flushing := msgs }, [msg]) := by
  simp [onWriteDone, flushPending, hrun, hconn, hflush]

end WsClient

/-- The body of an answer a transport makes itself; both transports have this function. -/
def makeErrorBody (message : String) : String :=
  "\x7b\"status\":\"error\",\"error\":\"" ++ message ++ "\"\x7d"

end Arb
