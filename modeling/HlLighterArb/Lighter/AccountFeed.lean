import HlLighterArb.Lighter.PositionFeed

/-!
# HlLighterArb.Lighter.AccountFeed

The feed of the account's own Lighter orders and trades: reading a message, and the last update of
each order, kept for `wait_for_order_resting` and `wait_for_cancel`.

* `waitForOrderResting_eq_some`, `waitForCancel_eq_true`: a wait that succeeds has seen the order
  resting, or cancelled, in the table at one of the moments it looked.
-/

namespace Arb

structure LighterOrderUpdate where
  orderIndex : Int := 0
  clientOrderIndex : Int := 0
  isAsk : Bool := false
  price : Double := .number 0
  remainingBaseAmount : Double := .number 0
  filledBaseAmount : Double := .number 0
  status : String := ""
  deriving DecidableEq

def LighterOrderUpdate.resting (order : LighterOrderUpdate) : Bool :=
  order.status = "open" || order.status = "in-progress"

def LighterOrderUpdate.cancelled (order : LighterOrderUpdate) : Bool :=
  "canceled".toList.isPrefixOf order.status.toList

structure LighterTradeFill where
  orderIndex : Int := 0
  clientOrderIndex : Int := 0
  isAsk : Bool := false
  price : Double := .number 0
  size : Double := .number 0
  txHash : String := ""
  exchangeTimeMs : Nat := 0
  deriving DecidableEq

/-! ## Reading a message -/

/-- `key([0-9]+)` as an `int64`, zero when the text has none; `std::stoll` may throw on it. -/
def indexNumber (key : String) (s : List Char) : Except String Int :=
  match Text.readAfter key.toList unsignedDigits s with
  | none => .ok 0
  | some value =>
    match Text.stoll value with
    | some n => .ok n
    | none => .error "stoll"

/-- `key([0-9]+)` as a `uint64`. -/
def timeNumber (key : String) (s : List Char) : Except String Nat :=
  match Text.readAfter key.toList unsignedDigits s with
  | none => .ok 0
  | some value =>
    match Text.stoull value with
    | some n => .ok n
    | none => .error "stoull"

/-- What `(true|false)` matches at the start of a text. -/
def boolean (s : List Char) : Option Bool :=
  if "true".toList <+: s then some true
  else if "false".toList <+: s then some false
  else none

def quotedText (key : String) (s : List Char) : String :=
  ((Text.readAfter key.toList quoted s).map String.ofList).getD ""

def arrayKey (marketIndex : Int) : List Char :=
  ("\"" ++ toString marketIndex ++ "\":[").toList

/-- The order in a section of a message. -/
def readOrder (s : List Char) : Except String LighterOrderUpdate := do
  let orderIndex ← indexNumber "\"order_index\":" s
  let clientOrderIndex ← indexNumber "\"client_order_index\":" s
  let isAsk := (Text.readAfter "\"is_ask\":".toList boolean s).getD false
  let price ← quotedNumber "\"price\":\"" s
  let remainingBaseAmount ← quotedNumber "\"remaining_base_amount\":\"" s
  let filledBaseAmount ← quotedNumber "\"filled_base_amount\":\"" s
  return { orderIndex, clientOrderIndex, isAsk, price, remainingBaseAmount, filledBaseAmount
           status := quotedText "\"status\":\"" s }

/-- One order for every occurrence of the key. The test for the next market compares the position
of this key with one behind it, so it never ends the loop. -/
def readOrders : List Char → Except String (List LighterOrderUpdate)
  | [] => .ok []
  | c :: s =>
    if "\"order_index\"".toList <+: c :: s then
      match Text.readAfter "\"order_index\":".toList unsignedDigits ((c :: s).take 1024) with
      | none => .ok []
      | some _ => do
        let order ← readOrder ((c :: s).take 1024)
        let orders ← readOrders s
        return order :: orders
    else readOrders s

/-- No orders stands for `false`. -/
def parseLighterOrderUpdates (msg : List Char) (marketIndex : Int) :
    Except String (List LighterOrderUpdate) :=
  if ¬ Text.contains "account_orders:".toList msg ∨ ¬ Text.contains "\"orders\"".toList msg then
    .ok []
  else match Text.find (arrayKey marketIndex) msg with
    | none => .ok []
    | some rest => readOrders rest

/-- The trade in a section of a message, when the account is its maker. -/
def readTrade (accountIndex : Int) (s : List Char) : Except String (Option LighterTradeFill) := do
  let txHash := quotedText "\"tx_hash\":\"" s
  let price ← quotedNumber "\"price\":\"" s
  let size ← quotedNumber "\"size\":\"" s
  let isMakerAsk := (Text.readAfter "\"is_maker_ask\":".toList boolean s).getD false
  let askAccount ← indexNumber "\"ask_account_id\":" s
  let bidAccount ← indexNumber "\"bid_account_id\":" s
  let askId ← indexNumber "\"ask_id\":" s
  let bidId ← indexNumber "\"bid_id\":" s
  let askClient ← indexNumber "\"ask_client_id\":" s
  let bidClient ← indexNumber "\"bid_client_id\":" s
  let exchangeTimeMs ← timeNumber "\"timestamp\":" s
  if isMakerAsk ∧ askAccount = accountIndex then
    return some { orderIndex := askId, clientOrderIndex := askClient, isAsk := true, price, size
                  txHash, exchangeTimeMs }
  else if ¬ isMakerAsk ∧ bidAccount = accountIndex then
    return some { orderIndex := bidId, clientOrderIndex := bidClient, isAsk := false, price, size
                  txHash, exchangeTimeMs }
  else return none

def readTrades (accountIndex : Int) : List Char → Except String (List LighterTradeFill)
  | [] => .ok []
  | c :: s =>
    if "\"tx_hash\"".toList <+: c :: s then
      match Text.readAfter "\"tx_hash\":\"".toList quoted ((c :: s).take 1024) with
      | none => .ok []
      | some _ => do
        let trade ← readTrade accountIndex ((c :: s).take 1024)
        let trades ← readTrades accountIndex s
        return trade.toList ++ trades
    else readTrades accountIndex s

def parseLighterAccountTrades (msg : List Char) (accountIndex marketIndex : Int) :
    Except String (List LighterTradeFill) :=
  if ¬ Text.contains "account_all_trades:".toList msg ∨ ¬ Text.contains "\"trades\"".toList msg then
    .ok []
  else match Text.find (arrayKey marketIndex) msg with
    | none => .ok []
    | some rest => readTrades accountIndex rest

/-! ## The feed -/

structure AccountFeedConfig where
  accountIndex : Int := 0
  marketIndex : Int := 24
  authToken : String := ""

structure LighterAccountFeed where
  ws : WsClient String := {}
  ordersByClient : Int → Option LighterOrderUpdate := fun _ => none
  ordersByIndex : Int → Option LighterOrderUpdate := fun _ => none
  ordersSubscribed : Bool := false
  tradesSubscribed : Bool := false

namespace LighterAccountFeed

def subscription (cfg : AccountFeedConfig) (channel : String) : String :=
  "\x7b\"type\":\"subscribe\",\"channel\":\"" ++ channel ++ "\",\"auth\":\"" ++ cfg.authToken ++
    "\"\x7d"

def subscribe (cfg : AccountFeedConfig) (f : LighterAccountFeed) : LighterAccountFeed :=
  let orders := subscription cfg
    ("account_orders/" ++ toString cfg.marketIndex ++ "/" ++ toString cfg.accountIndex)
  let trades := subscription cfg ("account_all_trades/" ++ toString cfg.accountIndex)
  { f with ws := (f.ws.send orders).send trades }

/-- `start` queues the subscriptions for the first handshake. -/
def start (cfg : AccountFeedConfig) : LighterAccountFeed :=
  ({} : LighterAccountFeed).subscribe cfg

def store (f : LighterAccountFeed) (order : LighterOrderUpdate) : LighterAccountFeed :=
  { f with
    ordersByClient := Function.update f.ordersByClient order.clientOrderIndex (some order)
    ordersByIndex := Function.update f.ordersByIndex order.orderIndex (some order) }

/-- The feed after a message, and the fills it reports. -/
def onMessage (cfg : AccountFeedConfig) (f : LighterAccountFeed) (msg : List Char) :
    LighterAccountFeed × List LighterTradeFill :=
  if Text.contains "\"connected\"".toList msg then (f.subscribe cfg, [])
  else if Text.contains "\"ping\"".toList msg then
    ({ f with ws := f.ws.send "\x7b\"type\":\"pong\"\x7d" }, [])
  else
    let f := { f with
      ordersSubscribed :=
        f.ordersSubscribed || Text.contains "\"subscribed/account_orders\"".toList msg
      tradesSubscribed :=
        f.tradesSubscribed || Text.contains "\"subscribed/account_all_trades\"".toList msg }
    match parseLighterOrderUpdates msg cfg.marketIndex with
    | .error _ => ({ f with ws := f.ws.ioException }, [])
    | .ok orders =>
      let f := orders.foldl store f
      match parseLighterAccountTrades msg cfg.accountIndex cfg.marketIndex with
      | .error _ => ({ f with ws := f.ws.ioException }, [])
      | .ok fills => (f, fills)

def onDisconnect (cfg : AccountFeedConfig) (f : LighterAccountFeed) : LighterAccountFeed :=
  { f with ordersSubscribed := false, tradesSubscribed := false }.subscribe cfg

def step (cfg : AccountFeedConfig) (f : LighterAccountFeed) :
    FeedEvent → LighterAccountFeed × List LighterTradeFill
  | .io e => ({ f with ws := (f.ws.io e).1 }, [])
  | .message msg => if f.ws.reading then f.onMessage cfg msg.toList else (f, [])
  | .readError _ =>
    if f.ws.reading then ({ f with ws := f.ws.onReadError }.onDisconnect cfg, []) else (f, [])

/-- The feed after a stretch of events. -/
def run (cfg : AccountFeedConfig) (f : LighterAccountFeed) (es : List FeedEvent) :
    LighterAccountFeed :=
  es.foldl (fun f e => (f.step cfg e).1) f

/-- The order `wait_for_order_resting` waits for, once it is in the table as resting. -/
def restingOrder (f : LighterAccountFeed) (clientOrderIndex : Int) : Option LighterOrderUpdate :=
  (f.ordersByClient clientOrderIndex).filter fun order => order.resting && 0 < order.orderIndex

/-- The wait looks at the table when it starts, after each round of events that wakes it, and a last
time when it runs out, which is after the last round. -/
def waitForOrderResting (cfg : AccountFeedConfig) (clientOrderIndex : Int) :
    LighterAccountFeed → List (List FeedEvent) → LighterAccountFeed × Option LighterOrderUpdate
  | f, [] => (f, f.restingOrder clientOrderIndex)
  | f, round :: rounds =>
    match f.restingOrder clientOrderIndex with
    | some order => (f, some order)
    | none => waitForOrderResting cfg clientOrderIndex (f.run cfg round) rounds

/-- A wait that succeeds has seen the order resting when it last looked. -/
theorem waitForOrderResting_eq_some {cfg : AccountFeedConfig} {clientOrderIndex : Int}
    {rounds : List (List FeedEvent)} {f : LighterAccountFeed} {order : LighterOrderUpdate}
    (h : (waitForOrderResting cfg clientOrderIndex f rounds).2 = some order) :
    (waitForOrderResting cfg clientOrderIndex f rounds).1.restingOrder clientOrderIndex =
      some order := by
  induction rounds generalizing f with
  | nil => exact h
  | cons round rounds ih =>
    simp only [waitForOrderResting] at h ⊢
    cases hresting : f.restingOrder clientOrderIndex with
    | none =>
      simp only [hresting] at h ⊢
      exact ih h
    | some resting =>
      simp only [hresting] at h ⊢
      rw [← h]

/-- What `wait_for_cancel` waits for. -/
def cancelledOrder (f : LighterAccountFeed) (orderIndex : Int) : Bool :=
  (f.ordersByIndex orderIndex).any LighterOrderUpdate.cancelled

/-- The wait looks at the table at the same moments. -/
def waitForCancel (cfg : AccountFeedConfig) (orderIndex : Int) :
    LighterAccountFeed → List (List FeedEvent) → LighterAccountFeed × Bool
  | f, [] => (f, f.cancelledOrder orderIndex)
  | f, round :: rounds =>
    if f.cancelledOrder orderIndex then (f, true)
    else waitForCancel cfg orderIndex (f.run cfg round) rounds

/-- A wait that succeeds has seen the order cancelled when it last looked. -/
theorem waitForCancel_eq_true {cfg : AccountFeedConfig} {orderIndex : Int}
    {rounds : List (List FeedEvent)} {f : LighterAccountFeed}
    (h : (waitForCancel cfg orderIndex f rounds).2 = true) :
    (waitForCancel cfg orderIndex f rounds).1.cancelledOrder orderIndex = true := by
  induction rounds generalizing f with
  | nil => exact h
  | cons round rounds ih =>
    rw [waitForCancel] at h ⊢
    by_cases hcancelled : f.cancelledOrder orderIndex = true
    · rw [if_pos hcancelled]
      exact hcancelled
    · rw [if_neg hcancelled] at h ⊢
      exact ih h

end LighterAccountFeed

end Arb
