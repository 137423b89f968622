import HlLighterArb.Ws.Delivery

/-!
# HlLighterArb.Ws.Subscriptions

The five feeds as users of the WebSocket client: what they subscribe to, when they do so again, and
when they call themselves subscribed. They differ in their requests, in whether they subscribe by
themselves or wait for the server to announce the connection, and in what confirms a subscription.

* `FeedRules`: what tells the feeds apart; one definition for each feed.
* `subscriptions_kept`: in every run of every feed that has asked for its subscriptions, each
  request is held by the client, was written on the present connection, or fell to a write that
  failed there; and a flag stands for a confirmation read on the present connection.
-/

namespace Arb

/-- The flags of the feeds, by the names of their atomics. -/
inductive FeedFlag where
  | hlSubscribed
  | hlTradesSubscribed
  | lighterSubscribed
  | subscribed
  | ordersSubscribed
  | tradesSubscribed
  deriving DecidableEq

structure FeedRules where
  /-- What `subscribe` sends. -/
  requests : List String
  /-- The feed subscribes when it starts and when it has lost its connection. -/
  eager : Bool
  /-- The message makes the feed subscribe. -/
  announces : (FeedFlag → Bool) → List Char → Bool
  /-- The message is answered with a pong. -/
  pings : List Char → Bool
  confirms : FeedFlag → List Char → Bool

/-! ## The feeds -/

def hasConnected (msg : List Char) : Bool := Text.contains "\"connected\"".toList msg

def hasPing (msg : List Char) : Bool := Text.contains "\"ping\"".toList msg

def hasSubscriptionResponse (msg : List Char) : Bool :=
  Text.contains "subscriptionResponse".toList msg

structure MarketFeedConfig where
  hlCoin : String := "HYPE"
  lighterMarketId : Int := 24

/-- The Hyperliquid side of `MarketFeed`; `onTrade` when a trade callback is set. -/
def MarketFeedConfig.hlRules (cfg : MarketFeedConfig) (onTrade : Bool) : FeedRules where
  requests :=
    ("\x7b\"method\":\"subscribe\",\"subscription\":\x7b\"type\":\"bbo\",\"coin\":\""
      ++ cfg.hlCoin ++ "\"\x7d\x7d") ::
    if onTrade then
      ["\x7b\"method\":\"subscribe\",\"subscription\":\x7b\"type\":\"trades\",\"coin\":\""
        ++ cfg.hlCoin ++ "\"\x7d\x7d"]
    else []
  eager := true
  announces := fun _ _ => false
  pings := fun _ => false
  confirms := fun
    | .hlSubscribed, msg =>
      hasSubscriptionResponse msg && Text.contains "\"bbo\"".toList msg
    | .hlTradesSubscribed, msg =>
      hasSubscriptionResponse msg && Text.contains "\"trades\"".toList msg && onTrade
    | _, _ => false

/-- The Lighter side of `MarketFeed`. It subscribes when the server announces the connection. -/
def MarketFeedConfig.lighterRules (cfg : MarketFeedConfig) : FeedRules where
  requests := ["\x7b\"type\":\"subscribe\",\"channel\":\"ticker/" ++ toString cfg.lighterMarketId
    ++ "\"\x7d"]
  eager := false
  announces := fun flags msg => hasConnected msg && !flags .lighterSubscribed
  pings := hasPing
  confirms := fun
    | .lighterSubscribed, msg => Text.contains "\"ticker\"".toList msg
    | _, _ => false

structure HlFillFeedConfig where
  userAddress : String

def HlFillFeedConfig.rules (cfg : HlFillFeedConfig) : FeedRules where
  requests :=
    ["\x7b\"method\":\"subscribe\",\"subscription\":\x7b\"type\":\"userFills\",\"user\":\""
      ++ cfg.userAddress ++ "\"\x7d\x7d"]
  eager := true
  announces := fun _ _ => false
  pings := fun _ => false
  confirms := fun
    | .subscribed, msg => hasSubscriptionResponse msg
    | _, _ => false

structure LighterFeedConfig where
  accountIndex : Int
  marketIndex : Int := 24
  authToken : String

def LighterFeedConfig.request (cfg : LighterFeedConfig) (channel : String) : String :=
  "\x7b\"type\":\"subscribe\",\"channel\":\"" ++ channel ++ "\",\"auth\":\"" ++ cfg.authToken
    ++ "\"\x7d"

def LighterFeedConfig.positionRules (cfg : LighterFeedConfig) : FeedRules where
  requests := [cfg.request ("account_all_positions/" ++ toString cfg.accountIndex)]
  eager := true
  announces := fun flags msg => hasConnected msg && !flags .subscribed
  pings := hasPing
  confirms := fun
    | .subscribed, msg => Text.contains "\"subscribed/account_all_positions\"".toList msg
    | _, _ => false

def LighterFeedConfig.accountRules (cfg : LighterFeedConfig) : FeedRules where
  requests :=
    [cfg.request ("account_orders/" ++ toString cfg.marketIndex ++ "/"
        ++ toString cfg.accountIndex),
      cfg.request ("account_all_trades/" ++ toString cfg.accountIndex)]
  eager := true
  announces := fun _ msg => hasConnected msg
  pings := hasPing
  confirms := fun
    | .ordersSubscribed, msg => Text.contains "\"subscribed/account_orders\"".toList msg
    | .tradesSubscribed, msg => Text.contains "\"subscribed/account_all_trades\"".toList msg
    | _, _ => false

/-- The feeds of the program. -/
inductive FeedKind where
  | hlMarket (cfg : MarketFeedConfig) (onTrade : Bool)
  | lighterMarket (cfg : MarketFeedConfig)
  | hlFills (cfg : HlFillFeedConfig)
  | lighterPositions (cfg : LighterFeedConfig)
  | lighterAccount (cfg : LighterFeedConfig)

def FeedKind.rules : FeedKind → FeedRules
  | .hlMarket cfg onTrade => cfg.hlRules onTrade
  | .lighterMarket cfg => cfg.lighterRules
  | .hlFills cfg => cfg.rules
  | .lighterPositions cfg => cfg.positionRules
  | .lighterAccount cfg => cfg.accountRules

/-! ## Running a feed -/

structure Feed where
  ws : WsClient String := {}
  flags : FeedFlag → Bool := fun _ => false

inductive Feed.Event where
  | io (e : WsClient.IoEvent)
  /-- A message; reading what it carries may throw. -/
  | message (msg : String) (throws : Bool)
  | readError

inductive Feed.Obs where
  | wrote (text : String)
  /-- A write of `flush_pending` fails, and the text behind it is dropped. -/
  | dropped (text : String)
  /-- `subscribe` is called. -/
  | asked
  | read (msg : String)
  | lost
  deriving DecidableEq

namespace Feed

def sendAll (ws : WsClient String) (texts : List String) : WsClient String :=
  texts.foldl WsClient.send ws

def subscribe (rules : FeedRules) (f : Feed) : Feed :=
  { f with ws := sendAll f.ws rules.requests }

/-- `start`: the requests are queued before the client connects. -/
def start (rules : FeedRules) : Feed :=
  if rules.eager then subscribe rules {} else {}

def onMessage (rules : FeedRules) (f : Feed) (msg : String) (throws : Bool) :
    Feed × List Feed.Obs :=
  if rules.announces f.flags msg.toList then (f.subscribe rules, [.read msg, .asked])
  else if rules.pings msg.toList then
    ({ f with ws := f.ws.send "\x7b\"type\":\"pong\"\x7d" }, [.read msg])
  else
    ({ ws := if throws then f.ws.ioException else f.ws
       flags := fun flag => f.flags flag || rules.confirms flag msg.toList }, [.read msg])

def onDisconnect (rules : FeedRules) (f : Feed) : Feed × List Feed.Obs :=
  let f := { f with flags := fun _ => false }
  if rules.eager then (f.subscribe rules, [.lost, .asked]) else (f, [.lost])

def step (rules : FeedRules) (f : Feed) : Feed.Event → Feed × List Feed.Obs
  | .io e =>
    ({ f with ws := (f.ws.io e).1 },
      (f.ws.io e).2.map .wrote ++ (f.ws.droppedBy e).map .dropped)
  | .message msg throws => if f.ws.reading then f.onMessage rules msg throws else (f, [])
  | .readError =>
    if f.ws.reading then onDisconnect rules { f with ws := f.ws.onReadError } else (f, [])

def machine (rules : FeedRules) : EventMachine Feed Feed.Event Feed.Obs := ⟨step rules⟩

/-- `is_subscribed`, of the feeds with one flag, for that flag. -/
def isSubscribed (f : Feed) (flag : FeedFlag) : Bool := f.ws.connected && f.flags flag

/-- What was shown since the connection was lost last. -/
def since (l : List Feed.Obs) : List Feed.Obs :=
  l.foldl (fun seen o => if o = .lost then [] else seen ++ [o]) []

/-- A request that the client holds, has written on the present connection, or has dropped there
when a write failed. -/
def Cared (l : List Feed.Obs) (f : Feed) (request : String) : Prop :=
  request ∈ f.ws.unsent ∨ .wrote request ∈ since l ∨ .dropped request ∈ since l

structure Kept (rules : FeedRules) (l : List Feed.Obs) (f : Feed) : Prop where
  tidy : f.ws.Tidy
  requested : rules.eager = true ∨ .asked ∈ since l →
    ∀ request ∈ rules.requests, Cared l f request
  confirmed : ∀ flag, f.flags flag = true →
    f.ws.connected = true ∧ ∃ msg, .read msg ∈ since l ∧ rules.confirms flag msg.toList = true

/-! ## One step -/

theorem since_append {l l' : List Feed.Obs} (h : .lost ∉ l') : since (l ++ l') = since l ++ l' := by
  induction l' using List.reverseRecOn with
  | nil => rw [List.append_nil, List.append_nil]
  | append_singleton l' o ih =>
    rw [List.mem_append, not_or, List.mem_singleton] at h
    have hstep : since (l ++ (l' ++ [o])) = if o = .lost then [] else since (l ++ l') ++ [o] := by
      rw [← List.append_assoc, since, List.foldl_concat]
      rfl
    rw [hstep, if_neg (Ne.symm h.2), ih h.1, List.append_assoc]

theorem since_lost {l l' : List Feed.Obs} (h : .lost ∉ l') : since (l ++ .lost :: l') = l' := by
  rw [List.append_cons, since_append h, since, List.foldl_concat, if_pos rfl, List.nil_append]

theorem sendAll_unsent (ws : WsClient String) (texts : List String) :
    (sendAll ws texts).unsent = ws.unsent ++ texts := by
  induction texts generalizing ws with
  | nil => exact (List.append_nil _).symm
  | cons text texts ih =>
    rw [sendAll, List.foldl_cons, ← sendAll, ih, WsClient.unsent_send, List.append_assoc,
      List.singleton_append]

theorem sendAll_connected (ws : WsClient String) (texts : List String) :
    (sendAll ws texts).connected = ws.connected := by
  induction texts generalizing ws with
  | nil => rfl
  | cons text texts ih => exact ih (ws.send text)

theorem sendAll_tidy {ws : WsClient String} (h : ws.Tidy) (texts : List String) :
    (sendAll ws texts).Tidy := by
  induction texts generalizing ws with
  | nil => exact h
  | cons text texts ih => exact ih h.send

/-- The io thread writes what the client holds, keeps it, or drops it when a write fails. -/
theorem io_mem {ws : WsClient String} (h : ws.Tidy) (e : WsClient.IoEvent) {text : String}
    (hmem : text ∈ ws.unsent) :
    text ∈ (ws.io e).1.unsent ∨ text ∈ (ws.io e).2 ∨ text ∈ ws.droppedBy e := by
  have hperm := WsClient.step_conserves h (.io e)
  simp only [EventMachine.Flows, WsClient.machine_step, WsClient.step, List.filterMap_append,
    WsClient.left_wrote, WsClient.left_dropped, WsClient.sent_wrote, WsClient.sent_dropped,
    List.append_nil] at hperm
  have := hperm.symm.subset hmem
  simp only [List.mem_append] at this
  tauto

/-- Only a read error disconnects. -/
theorem io_connected {ws : WsClient String} (e : WsClient.IoEvent) (h : ws.connected = true) :
    (ws.io e).1.connected = true := by
  cases e with
  | runPosted =>
    rw [WsClient.io, WsClient.runPosted]
    split
    · rw [if_pos h]
      exact h
    · exact h
  | handshake ok =>
    rw [WsClient.io, WsClient.onWsHandshake, if_neg (fun hok => hok.2.1 h)]
    exact h
  | writeDone ok =>
    rw [WsClient.io, WsClient.onWriteDone]
    split
    · cases ok with
      | true =>
        rw [if_pos rfl, WsClient.flushPending_connected h]
        exact h
      | false => exact h
    · exact h

theorem Cared.append {l l' : List Feed.Obs} {f f' : Feed} {request : String} (h : Cared l f request)
    (hquiet : .lost ∉ l') (hheld : request ∈ f.ws.unsent →
      request ∈ f'.ws.unsent ∨ .wrote request ∈ l' ∨ .dropped request ∈ l') :
    Cared (l ++ l') f' request := by
  rw [Cared, since_append hquiet, List.mem_append, List.mem_append]
  rcases h with h | h | h
  · have := hheld h
    tauto
  · exact .inr (.inl (.inl h))
  · exact .inr (.inr (.inl h))

theorem Kept.io {rules : FeedRules} {l : List Feed.Obs} {f : Feed} (h : Kept rules l f)
    (e : WsClient.IoEvent) :
    Kept rules (l ++ (f.step rules (.io e)).2) (f.step rules (.io e)).1 := by
  have hquiet : .lost ∉ (f.step rules (.io e)).2 := by simp [step]
  have hasked : .asked ∉ (f.step rules (.io e)).2 := by simp [step]
  refine ⟨h.tidy.io e, fun hask request hreq => ?_, fun flag hflag => ?_⟩
  · rw [since_append hquiet, List.mem_append, or_iff_left hasked] at hask
    refine (h.requested hask request hreq).append hquiet fun hheld => ?_
    have := io_mem h.tidy e hheld
    simpa [step] using this
  · obtain ⟨hconn, msg, hread, hconfirms⟩ := h.confirmed flag hflag
    refine ⟨io_connected e hconn, msg, ?_, hconfirms⟩
    rw [since_append hquiet]
    exact List.mem_append_left _ hread

theorem Kept.onMessage {rules : FeedRules} {l : List Feed.Obs} {f : Feed} (h : Kept rules l f)
    (hconn : f.ws.connected = true) (msg : String) (throws : Bool) :
    Kept rules (l ++ (f.onMessage rules msg throws).2) (f.onMessage rules msg throws).1 := by
  rw [Feed.onMessage]
  split
  · next hannounces =>
    have hquiet : .lost ∉ [Feed.Obs.read msg, .asked] := by simp
    refine ⟨sendAll_tidy h.tidy _, fun _ request hreq => .inl ?_, fun flag hflag => ?_⟩
    · exact sendAll_unsent _ _ ▸ List.mem_append_right _ hreq
    · obtain ⟨-, msg', hread, hconfirms⟩ := h.confirmed flag hflag
      refine ⟨(sendAll_connected _ _).trans hconn, msg', ?_, hconfirms⟩
      rw [since_append hquiet]
      exact List.mem_append_left _ hread
  · have hquiet : .lost ∉ [Feed.Obs.read msg] := by simp
    have hasked : .asked ∉ [Feed.Obs.read msg] := by simp
    have hrequested : ∀ f' : Feed, (∀ text ∈ f.ws.unsent, text ∈ f'.ws.unsent) →
        rules.eager = true ∨ .asked ∈ since (l ++ [.read msg]) →
        ∀ request ∈ rules.requests, Cared (l ++ [.read msg]) f' request := by
      intro f' hkeep hask request hreq
      rw [since_append hquiet, List.mem_append, or_iff_left hasked] at hask
      exact (h.requested hask request hreq).append hquiet fun hheld => .inl (hkeep _ hheld)
    split
    · refine ⟨h.tidy.send, hrequested _ fun text htext => ?_, fun flag hflag => ?_⟩
      · exact WsClient.unsent_send ▸ List.mem_append_left _ htext
      · obtain ⟨-, msg', hread, hconfirms⟩ := h.confirmed flag hflag
        refine ⟨hconn, msg', ?_, hconfirms⟩
        rw [since_append hquiet]
        exact List.mem_append_left _ hread
    · have hthrow : (if throws then f.ws.ioException else f.ws).Tidy ∧
          (if throws then f.ws.ioException else f.ws).unsent = f.ws.unsent ∧
          (if throws then f.ws.ioException else f.ws).connected = true := by
        cases throws with
        | true => exact ⟨⟨h.tidy.kept, h.tidy.flush⟩, rfl, hconn⟩
        | false => exact ⟨h.tidy, rfl, hconn⟩
      refine ⟨hthrow.1, hrequested _ fun text htext => hthrow.2.1 ▸ htext, fun flag hflag => ?_⟩
      refine ⟨hthrow.2.2, ?_⟩
      rw [since_append hquiet]
      rcases Bool.or_eq_true_iff.mp hflag with hold | hnew
      · obtain ⟨-, msg', hread, hconfirms⟩ := h.confirmed flag hold
        exact ⟨msg', List.mem_append_left _ hread, hconfirms⟩
      · exact ⟨msg, List.mem_append_right _ (List.mem_singleton_self _), hnew⟩

theorem Kept.onDisconnect {rules : FeedRules} {l : List Feed.Obs} {f : Feed} (h : Kept rules l f) :
    Kept rules (l ++ (onDisconnect rules { f with ws := f.ws.onReadError }).2)
      (onDisconnect rules { f with ws := f.ws.onReadError }).1 := by
  have htidy := f.ws.onReadError_drains.tidy h.tidy
  rw [Feed.onDisconnect]
  split
  · refine ⟨sendAll_tidy htidy _, fun _ request hreq => .inl ?_, fun _ hflag => nomatch hflag⟩
    exact sendAll_unsent _ _ ▸ List.mem_append_right _ hreq
  · next heager =>
    refine ⟨htidy, fun hask => ?_, fun _ hflag => nomatch hflag⟩
    rw [since_lost List.not_mem_nil] at hask
    rcases hask with hask | hask
    · exact absurd hask heager
    · nomatch hask

theorem Kept.step {rules : FeedRules} {l : List Feed.Obs} {f : Feed} (h : Kept rules l f)
    (e : Feed.Event) : Kept rules (l ++ (f.step rules e).2) (f.step rules e).1 := by
  cases e with
  | io e => exact h.io e
  | message msg throws =>
    rw [Feed.step]
    split
    · next hreading => exact h.onMessage (Bool.and_eq_true_iff.mp hreading).2 msg throws
    · rwa [List.append_nil]
  | readError =>
    rw [Feed.step]
    split
    · exact h.onDisconnect
    · rwa [List.append_nil]

/-! ## Runs -/

/-- A feed does not lose its subscriptions, whatever the server sends and however often it breaks
the connection: since the connection was lost last, the requests of a feed that subscribes by
itself, or was told to, are held for the handshake or for the io thread, were written, or were
dropped by a flush whose write failed. And no feed calls itself subscribed without a confirmation
that it read on the present connection. -/
theorem subscriptions_kept (kind : FeedKind) (es : List Feed.Event) :
    (machine kind.rules).Always (start kind.rules) (Kept kind.rules) es := by
  refine EventMachine.invariant ?_ (fun _ _ e h => h.step e) es
  rw [start]
  split
  · refine ⟨sendAll_tidy ⟨fun _ => rfl, fun _ => rfl⟩ _, fun _ request hreq => .inl ?_,
      fun _ hflag => nomatch hflag⟩
    exact sendAll_unsent _ _ ▸ List.mem_append_right _ hreq
  · next heager =>
    refine ⟨⟨fun _ => rfl, fun _ => rfl⟩, fun hask => ?_, fun _ hflag => nomatch hflag⟩
    rcases hask with hask | hask
    · exact absurd hask heager
    · nomatch hask

end Feed

end Arb
