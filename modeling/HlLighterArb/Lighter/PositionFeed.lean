import HlLighterArb.Lib.Text
import HlLighterArb.Ws.Client

/-!
# HlLighterArb.Lighter.PositionFeed

The feed of Lighter account positions: reading a message, and the latest snapshot kept for
`wait_for_position_change`.

* `isPositionsMessage_of_channel`: a message that names the channel of an account is not read as
  one of positions.
* `step_latest`: so nothing the feed receives changes its latest snapshot.
-/

namespace Arb

structure LighterPositionSnapshot where
  size : ℚ := 0
  avgEntryPrice : ℚ := 0
  positionValue : ℚ := 0
  deriving DecidableEq

/-- A snapshot as it is read. -/
structure ParsedPosition where
  size : Double := .number 0
  avgEntryPrice : Double := .number 0
  positionValue : Double := .number 0
  deriving DecidableEq

/-- The snapshot, if all of it is numbers. -/
def ParsedPosition.snapshot? (p : ParsedPosition) : Option LighterPositionSnapshot := do
  let size ← p.size.number?
  let avgEntryPrice ← p.avgEntryPrice.number?
  let positionValue ← p.positionValue.number?
  return { size, avgEntryPrice, positionValue }

/-! ## Reading a message -/

/-- What `([^"]+)"` matches at the start of a text. -/
def quoted (s : List Char) : Option (List Char) :=
  let value := s.takeWhile (· ≠ '"')
  if value ≠ [] ∧ value.length < s.length then some value else none

/-- What `([0-9]+)` matches at the start of a text. -/
def unsignedDigits (s : List Char) : Option (List Char) :=
  if Text.digits s ≠ [] then some (Text.digits s) else none

/-- What `(-?[0-9]+)` matches at the start of a text. -/
def signedDigits : List Char → Option (List Char)
  | '-' :: s => (unsignedDigits s).map ('-' :: ·)
  | s => unsignedDigits s

/-- A number in quotes, zero when the text has none; `std::stod` may throw on it. -/
def quotedNumber (key : String) (s : List Char) : Except String Double :=
  match Text.readAfter key.toList quoted s with
  | none => .ok (.number 0)
  | some value =>
    match Text.stod value with
    | some n => .ok n
    | none => .error "stod"

/-- `"sign":(-?[0-9]+)`, zero when the text has none; `std::stoi` may throw on it. -/
def signNumber (s : List Char) : Except String Int :=
  match Text.readAfter "\"sign\":".toList signedDigits s with
  | none => .ok 0
  | some value =>
    match Text.stoi value with
    | some n => .ok n
    | none => .error "stoi"

/-- The position in a section of a message. -/
def readPosition (s : List Char) : Except String ParsedPosition := do
  let sign ← signNumber s
  let position ← quotedNumber "\"position\":\"" s
  let avgEntryPrice ← quotedNumber "\"avg_entry_price\":\"" s
  let positionValue ← quotedNumber "\"position_value\":\"" s
  return { size := position.scale sign, avgEntryPrice, positionValue }

def isPositionsMessage (msg : List Char) : Bool :=
  Text.contains "\"account_all_positions:\"".toList msg && Text.contains "\"positions\"".toList msg

def marketKey (marketIndex : Int) : List Char :=
  ("\"" ++ toString marketIndex ++ "\":\x7b").toList

def parseLighterPositionUpdate (msg : List Char) (marketIndex : Int) :
    Except String (Option ParsedPosition) :=
  if ¬ isPositionsMessage msg then .ok none
  else match Text.find (marketKey marketIndex) msg with
    | none => .ok (some {})
    | some rest => (readPosition (rest.take 512)).map some

/-- Where a message names the channel of positions, the number of an account stands behind it. -/
def AccountChannel (msg : List Char) : Prop :=
  ∀ behind, "\"account_all_positions:".toList ++ behind <:+ msg →
    ∃ d ds, behind = d :: ds ∧ d.isDigit = true

/-- The name of the channel of an account passes for no positions message: the filter expects a
quote where the number of the account stands. -/
theorem isPositionsMessage_of_channel {msg : List Char} (h : AccountChannel msg) :
    isPositionsMessage msg = false := by
  rw [isPositionsMessage, Bool.and_eq_false_iff]
  refine .inl (Bool.eq_false_iff.mpr fun hcontains => ?_)
  obtain ⟨before, behind, rfl⟩ := Text.contains_iff.mp hcontains
  obtain ⟨d, ds, hcons, hdigit⟩ := h ('"' :: behind) ⟨before, by
    rw [List.append_assoc]
    rfl⟩
  cases hcons
  exact absurd hdigit (by decide)

/-! ## The feed -/

structure PositionFeedConfig where
  accountIndex : Int := 0
  marketIndex : Int := 24
  authToken : String := ""

structure LighterPositionFeed where
  ws : WsClient String := {}
  latest : Option LighterPositionSnapshot := none
  /-- Counts the snapshots; nothing reads it. -/
  version : Nat := 0
  subscribed : Bool := false

inductive FeedEvent where
  | io (e : WsClient.IoEvent)
  | message (msg : String)
  | readError (reason : String)

namespace LighterPositionFeed

def subscription (cfg : PositionFeedConfig) : String :=
  "\x7b\"type\":\"subscribe\",\"channel\":\"account_all_positions/" ++
    toString cfg.accountIndex ++ "\",\"auth\":\"" ++ cfg.authToken ++ "\"\x7d"

def subscribe (cfg : PositionFeedConfig) (f : LighterPositionFeed) : LighterPositionFeed :=
  { f with ws := f.ws.send (subscription cfg) }

/-- `start` queues the subscription for the first handshake. -/
def start (cfg : PositionFeedConfig) : LighterPositionFeed :=
  ({} : LighterPositionFeed).subscribe cfg

def store (f : LighterPositionFeed) (snap : LighterPositionSnapshot) : LighterPositionFeed :=
  { f with latest := some snap, version := f.version + 1 }

def onMessage (cfg : PositionFeedConfig) (f : LighterPositionFeed) (msg : List Char) :
    LighterPositionFeed :=
  if Text.contains "\"connected\"".toList msg ∧ ¬ f.subscribed then f.subscribe cfg
  else if Text.contains "\"ping\"".toList msg then
    { f with ws := f.ws.send "\x7b\"type\":\"pong\"\x7d" }
  else
    let f := if ¬ f.subscribed ∧ Text.contains "\"subscribed/account_all_positions\"".toList msg
      then { f with subscribed := true } else f
    match parseLighterPositionUpdate msg cfg.marketIndex with
    | .error _ => { f with ws := f.ws.ioException }
    | .ok none => f
    -- snapshots are kept as numbers: one with an infinity or NaN is passed over
    | .ok (some snap) => snap.snapshot?.elim f f.store

def onDisconnect (cfg : PositionFeedConfig) (f : LighterPositionFeed) : LighterPositionFeed :=
  { f with subscribed := false }.subscribe cfg

def step (cfg : PositionFeedConfig) (f : LighterPositionFeed) : FeedEvent → LighterPositionFeed
  | .io e => { f with ws := (f.ws.io e).1 }
  | .message msg => if f.ws.reading then f.onMessage cfg msg.toList else f
  | .readError _ =>
    if f.ws.reading then { f with ws := f.ws.onReadError }.onDisconnect cfg else f

/-- What is no positions message leaves the snapshot. -/
theorem onMessage_latest (cfg : PositionFeedConfig) (f : LighterPositionFeed) {msg : List Char}
    (h : isPositionsMessage msg = false) : (f.onMessage cfg msg).latest = f.latest := by
  have hparse : parseLighterPositionUpdate msg cfg.marketIndex = .ok none := by
    rw [parseLighterPositionUpdate, if_pos (by simp [h])]
  unfold onMessage
  split
  · rfl
  · split
    · rfl
    · simp only [hparse]
      split_ifs <;> rfl

theorem step_latest (cfg : PositionFeedConfig) (f : LighterPositionFeed) {e : FeedEvent}
    (h : ∀ msg, e = .message msg → AccountChannel msg.toList) :
    (f.step cfg e).latest = f.latest := by
  cases e with
  | io e => rfl
  | message msg =>
    rw [step]
    split_ifs
    · exact onMessage_latest cfg f (isPositionsMessage_of_channel (h msg rfl))
    · rfl
  | readError reason =>
    rw [step]
    split_ifs <;> rfl

/-- The snapshot `wait_for_position_change` returns when its predicate holds. -/
def positionChange (f : LighterPositionFeed) (baselineSize : ℚ) :
    Option LighterPositionSnapshot :=
  f.latest.filter fun snap => 0.001 < |snap.size - baselineSize|

theorem positionChange_eq_some {f : LighterPositionFeed} {b : ℚ} {snap : LighterPositionSnapshot}
    (h : f.positionChange b = some snap) : f.latest = some snap ∧ 0.001 < |snap.size - b| := by
  simpa [positionChange, Option.filter_eq_some_iff] using h

end LighterPositionFeed

end Arb
