import HlLighterArb.Lib.Machine
import HlLighterArb.Lib.Text
import HlLighterArb.Ws.Client

/-!
# HlLighterArb.Ws.LighterSendTx

The transport of Lighter transactions. There is one slot: a call of `send_tx` takes it, waits for
`response_ready_`, and gives it back; another caller is turned away as busy. Every critical section
of `request_mu_` is one step, so a run is an interleaving of callers with the io thread.

Requests carry no id. Which request a server message answers is therefore written beside the
message (`answers`), for the statements only: the transport never reads it, and carries it along as
the origin of the text it stores.

* `Answered`: the body a call returned is its own answer or was made here.
* `OwnLastWord`: a caller that wakes has heard last of its own answer or of a disconnect.
* `answered_iff`: a run keeps `Answered` exactly when all its steps meet `OwnLastWord`.
-/

namespace Arb

structure SendTxRequest where
  txType : UInt8
  txInfo : String
  deriving DecidableEq

/-- The request as it goes to the socket. -/
def SendTxRequest.text (r : SendTxRequest) : String :=
  "\x7b\"type\":\"jsonapi/sendtx\",\"data\":\x7b\"tx_type\":" ++ toString r.txType.toNat ++
    ",\"tx_info\":" ++ r.txInfo ++ "\x7d\x7d"

/-- Where a body comes from: made by the transport, or a server message, which answers the given
call of `send_tx` or none. -/
inductive BodyOrigin where
  | made
  | server (answers : Option Nat)
  deriving DecidableEq

structure ResponseBody where
  text : String := ""
  origin : BodyOrigin := .made
  deriving DecidableEq

structure LighterWsSendTxTransport where
  ws : WsClient SendTxRequest := {}
  requestInflight : Bool := false
  responseReady : Bool := false
  responseBody : ResponseBody := {}
  /-- How often `send_tx` was called, and which of the calls took the slot last. -/
  calls : Nat := 0
  current : Nat := 0

inductive SendTxEvent where
  | sendTx (txType : UInt8) (txInfo : String)
  | wake
  | timeout
  | io (e : WsClient.IoEvent)
  | message (text : String) (answers : Option Nat)
  | readError (reason : String)

inductive SendTxObs where
  | began (call : Nat)
  | returned (call : Nat) (body : ResponseBody)
  | wrote (request : SendTxRequest)
  | read (answers : Option Nat)
  | lost (reason : String)
  deriving DecidableEq

namespace LighterWsSendTxTransport

/-- `send_tx` up to its wait. -/
def sendTx (t : LighterWsSendTxTransport) (request : SendTxRequest) :
    LighterWsSendTxTransport × List SendTxObs :=
  if t.requestInflight then
    ({ t with calls := t.calls + 1 },
      [.returned (t.calls + 1) { text := makeErrorBody "lighter_ws_sendtx_busy" }])
  else
    ({ t with
        requestInflight := true
        responseReady := false
        responseBody := {}
        ws := t.ws.send request
        calls := t.calls + 1
        current := t.calls + 1 },
      [.began (t.calls + 1)])

/-- `send_tx` behind its wait. -/
def finish (t : LighterWsSendTxTransport) (ready : Bool) :
    LighterWsSendTxTransport × List SendTxObs :=
  let body : ResponseBody :=
    if ready then t.responseBody else { text := makeErrorBody "lighter_ws_sendtx_timeout" }
  ({ t with requestInflight := false, responseBody := body }, [.returned t.current body])

/-- The response becomes ready while a request waits. -/
def respond (t : LighterWsSendTxTransport) (body : ResponseBody) : LighterWsSendTxTransport :=
  if t.requestInflight then { t with responseBody := body, responseReady := true } else t

def announcesConnection (msg : List Char) : Bool :=
  Text.contains "\"type\":\"connected\"".toList msg

def onMessage (t : LighterWsSendTxTransport) (text : String) (answers : Option Nat) :
    LighterWsSendTxTransport × List SendTxObs :=
  if announcesConnection text.toList then (t, [])
  else (t.respond { text, origin := .server answers }, [.read answers])

def onDisconnect (t : LighterWsSendTxTransport) (reason : String) :
    LighterWsSendTxTransport × List SendTxObs :=
  (t.respond { text := makeErrorBody ("lighter_ws_disconnect_" ++ reason) }, [.lost reason])

/-- The client after a step of the io thread, and what the step wrote. -/
def withIo (t : LighterWsSendTxTransport) (io : WsClient SendTxRequest × List SendTxRequest) :
    LighterWsSendTxTransport × List SendTxObs :=
  ({ t with ws := io.1 }, io.2.map .wrote)

def step (t : LighterWsSendTxTransport) :
    SendTxEvent → LighterWsSendTxTransport × List SendTxObs
  | .sendTx txType txInfo => t.sendTx { txType, txInfo }
  | .wake => if t.requestInflight ∧ t.responseReady then t.finish true else (t, [])
  | .timeout => if t.requestInflight ∧ ¬ t.responseReady then t.finish false else (t, [])
  | .io e => t.withIo (t.ws.io e)
  | .message text answers => if t.ws.reading then t.onMessage text answers else (t, [])
  | .readError reason =>
    if t.ws.reading then onDisconnect { t with ws := t.ws.onReadError } reason else (t, [])

def machine : EventMachine LighterWsSendTxTransport SendTxEvent SendTxObs := ⟨step⟩

/-! ## Answers -/

/-- Every body a call returned is the server's answer to that call, or was made here. -/
def Answered (l : List SendTxObs) : Prop :=
  ∀ call body, .returned call body ∈ l →
    body.origin = .made ∨ body.origin = .server (some call)

/-- What the transport heard last since the last request began: a server message that does not
announce the connection, or a disconnect. -/
def lastWord (l : List SendTxObs) : Option BodyOrigin :=
  l.foldl (fun heard o => match o with
    | .began _ => none
    | .read answers => some (.server answers)
    | .lost _ => some .made
    | _ => heard) none

/-- A caller that wakes has heard last of a disconnect or of the answer to its own request. -/
def OwnLastWord (l : List SendTxObs) (t : LighterWsSendTxTransport) : SendTxEvent → Prop
  | .wake => t.requestInflight → ∀ answers, lastWord l = some (.server answers) →
      answers = some t.current
  | _ => True

/-- The stored response is what the transport heard last. -/
def Heard (l : List SendTxObs) (t : LighterWsSendTxTransport) : Prop :=
  t.requestInflight = true →
    lastWord l = if t.responseReady then some t.responseBody.origin else none

section Steps

variable {l l' : List SendTxObs} {t t' : LighterWsSendTxTransport}

theorem answered_append : Answered (l ++ l') ↔ Answered l ∧ Answered l' := by
  simp only [Answered, List.mem_append]
  constructor
  · exact fun h => ⟨fun k b hb => h k b (.inl hb), fun k b hb => h k b (.inr hb)⟩
  · rintro ⟨h, h'⟩ k b (hb | hb)
    · exact h k b hb
    · exact h' k b hb

theorem answered_returned {call : Nat} {body : ResponseBody} :
    Answered [.returned call body] ↔
      body.origin = .made ∨ body.origin = .server (some call) := by
  simp [Answered]

theorem lastWord_append_wrote (rs : List SendTxRequest) :
    lastWord (l ++ rs.map .wrote) = lastWord l := by
  induction rs generalizing l with
  | nil => simp
  | cons r rs ih =>
    rw [List.map_cons, ← List.singleton_append, ← List.append_assoc, ih]
    simp [lastWord]

theorem heard_respond (ws : WsClient SendTxRequest) {body : ResponseBody}
    (hl : lastWord (l ++ l') = some body.origin) :
    Heard (l ++ l') ({ t with ws }.respond body) := by
  intro hin
  have hbusy : t.requestInflight = true := by
    by_contra hidle
    rw [LighterWsSendTxTransport.respond, if_neg hidle] at hin
    exact hidle hin
  rw [LighterWsSendTxTransport.respond, if_pos hbusy]
  exact hl

theorem Heard.io (h : Heard l t) (io : WsClient SendTxRequest × List SendTxRequest) :
    Heard (l ++ (t.withIo io).2) (t.withIo io).1 := by
  intro hin
  exact (lastWord_append_wrote io.2).trans (h hin)

/-- Every step keeps the stored response in line with what was heard. -/
theorem Heard.step (h : Heard l t) (e : SendTxEvent) :
    Heard (l ++ (t.step e).2) (t.step e).1 := by
  cases e with
  | sendTx txType txInfo =>
    rw [LighterWsSendTxTransport.step, sendTx]
    split
    · exact fun hin => by simpa [lastWord] using h hin
    · exact fun _ => by simp [lastWord]
  | wake =>
    rw [LighterWsSendTxTransport.step]
    split
    · exact fun hin => by cases hin
    · exact fun hin => by simpa using h hin
  | timeout =>
    rw [LighterWsSendTxTransport.step]
    split
    · exact fun hin => by cases hin
    · exact fun hin => by simpa using h hin
  | io e => exact h.io _
  | message text answers =>
    rw [LighterWsSendTxTransport.step]
    split
    · rw [onMessage]
      split
      · exact fun hin => by simpa using h hin
      · exact heard_respond t.ws (by simp [lastWord])
    · exact fun hin => by simpa using h hin
  | readError reason =>
    rw [LighterWsSendTxTransport.step]
    split
    · rw [onDisconnect]
      exact heard_respond t.ws.onReadError (by simp [lastWord])
    · exact fun hin => by simpa using h hin

/-- A step returns an answered body exactly when a waking caller has heard last of its own
answer. -/
theorem answered_step_iff (h : Heard l t) (e : SendTxEvent) :
    Answered (t.step e).2 ↔ OwnLastWord l t e := by
  have hquiet : Answered [] := fun _ _ hb => by cases hb
  have hio : ∀ rs : List SendTxRequest, Answered (rs.map .wrote) := fun rs k b hb => by simp at hb
  cases e with
  | sendTx txType txInfo =>
    refine iff_of_true ?_ trivial
    rw [LighterWsSendTxTransport.step, sendTx]
    split
    · exact answered_returned.mpr (.inl rfl)
    · exact fun k b hb => by simp at hb
  | wake =>
    rw [LighterWsSendTxTransport.step, OwnLastWord]
    split
    · next hin =>
      have hlast : lastWord l = some t.responseBody.origin := by rw [h hin.1, if_pos hin.2]
      rw [finish, if_pos rfl, answered_returned, hlast]
      cases horigin : t.responseBody.origin with
      | made => simp
      | server answers => simp [hin.1]
    · next hin =>
      refine iff_of_true hquiet fun hbusy answers hlast => ?_
      rw [h hbusy, if_neg fun hready => hin ⟨hbusy, hready⟩] at hlast
      cases hlast
  | timeout =>
    refine iff_of_true ?_ trivial
    rw [LighterWsSendTxTransport.step]
    split
    · exact answered_returned.mpr (.inl rfl)
    · exact hquiet
  | io e => exact iff_of_true (hio _) trivial
  | message text answers =>
    refine iff_of_true ?_ trivial
    rw [LighterWsSendTxTransport.step]
    split
    · rw [onMessage]
      split
      · exact hquiet
      · exact fun k b hb => by simp at hb
    · exact hquiet
  | readError reason =>
    refine iff_of_true ?_ trivial
    rw [LighterWsSendTxTransport.step]
    split
    · exact fun k b hb => by simp [onDisconnect] at hb
    · exact hquiet

end Steps

theorem answered_iff (es : List SendTxEvent) :
    machine.Always {} (fun l _ => Answered l) es ↔
      machine.Throughout {} (fun l t e => OwnLastWord l t e) es := by
  have hstart : Heard [] {} := fun hin => by cases hin
  have hheard : machine.Always {} Heard es :=
    EventMachine.invariant hstart (fun _ _ e h => h.step e) es
  have hiff : machine.Always {} (fun l t => Heard l t ∧ Answered l) es ↔
      machine.Throughout {} (fun l t e => OwnLastWord l t e) es := by
    refine EventMachine.always_iff_throughout ⟨hstart, fun _ _ hb => by cases hb⟩ ?_ es
    rintro l t e ⟨hh, ha⟩
    rw [answered_append, ← answered_step_iff hh e]
    exact ⟨fun h => h.2.2, fun h => ⟨hh.step e, ha, h⟩⟩
  rw [← hiff]
  exact ⟨fun h pre hp => ⟨hheard pre hp, h pre hp⟩, fun h => h.mono fun _ _ hp => hp.2⟩

/-- The answer to the first request arrives after its wait ran out, and is returned to the
second. -/
theorem late_answer_crossed :
    ¬ machine.Always {} (fun l _ => Answered l)
      [.io (.handshake true), .sendTx 14 "a", .io .runPosted, .timeout, .sendTx 14 "b",
        .io .runPosted, .message "first" (some 1), .wake] := by
  intro h
  rcases h.last 2 { text := "first", origin := .server (some 1) } (by decide +kernel) with h | h
  · cases h
  · cases h

end LighterWsSendTxTransport

end Arb
