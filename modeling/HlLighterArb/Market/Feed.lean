import HlLighterArb.Market.Quotes
import HlLighterArb.Outcome
import HlLighterArb.Ws.Subscriptions

/-!
# HlLighterArb.Market.Feed

The market feed: two sockets whose messages write the best quotes of a venue into an `AtomicBbo`,
which other threads read with an age. The steady clock moves between any two steps.

* `AtomicBbo.load`: the quotes with their age in milliseconds, and a sentinel before the first.
* `MarketFeed.machine`: messages, connections and readers in any order.
* `looks_grounded`: a reader sees the quotes of the last message that had any, with their age,
  whatever has become of the connection since.
-/

namespace Arb

/-! ## The store -/

structure AtomicBbo where
  bbo : Bbo := {}
  /-- Nanoseconds of the steady clock, zero before the first `store`. -/
  lastUpdate : Nat := 0

namespace AtomicBbo

def store (a : AtomicBbo) (bid ask : ℚ) (nowNs : Nat) : AtomicBbo where
  bbo := { a.bbo with bid, ask }
  lastUpdate := nowNs

def load (a : AtomicBbo) (nowNs : Nat) : Bbo :=
  { a.bbo with
    quoteAgeMs := if 0 < a.lastUpdate then ((nowNs - a.lastUpdate) / 1000000 : Nat) else 999999 }

end AtomicBbo

/-! ## The feed -/

inductive Venue where
  | hl
  | lighter
  deriving DecidableEq

/-- The quotes as the store keeps them, when both are numbers. -/
def numericQuotes (quotes : Double × Double) : Option (ℚ × ℚ) := do
  let bid ← quotes.1.number?
  let ask ← quotes.2.number?
  return (bid, ask)

/-- What a message says of the quotes of its venue. -/
def readQuotes : Venue → List Char → Option (ℚ × ℚ)
  | .hl, msg => (parseHlBbo msg).bind numericQuotes
  | .lighter, msg => (parseLighterTicker msg).bind numericQuotes

structure MarketFeed where
  hlWs : Feed
  lighterWs : Feed
  hlBbo : AtomicBbo := {}
  lighterBbo : AtomicBbo := {}
  nowNs : Nat

inductive MarketEvent where
  | socket (elapsedNs : Nat) (venue : Venue) (e : Feed.Event)
  /-- Another thread reads the quotes of a venue. -/
  | look (elapsedNs : Nat) (venue : Venue)

inductive MarketObs where
  | socket (venue : Venue) (o : Feed.Obs)
  | quoted (venue : Venue) (bid ask : ℚ) (atNs : Nat)
  | looked (venue : Venue) (bbo : Bbo) (atNs : Nat)

def MarketFeedConfig.rules (cfg : MarketFeedConfig) (onTrade : Bool) : Venue → FeedRules
  | .hl => cfg.hlRules onTrade
  | .lighter => cfg.lighterRules

namespace MarketFeed

def socket (f : MarketFeed) : Venue → Feed
  | .hl => f.hlWs
  | .lighter => f.lighterWs

def bbo (f : MarketFeed) : Venue → AtomicBbo
  | .hl => f.hlBbo
  | .lighter => f.lighterBbo

def setSocket (f : MarketFeed) (ws : Feed) : Venue → MarketFeed
  | .hl => { f with hlWs := ws }
  | .lighter => { f with lighterWs := ws }

def store (f : MarketFeed) (bid ask : ℚ) : Venue → MarketFeed
  | .hl => { f with hlBbo := f.hlBbo.store bid ask f.nowNs }
  | .lighter => { f with lighterBbo := f.lighterBbo.store bid ask f.nowNs }

/-- The clock counts from before the program starts. -/
def start (cfg : MarketFeedConfig) (onTrade : Bool) (bootNs : Nat) : MarketFeed where
  hlWs := Feed.start (cfg.hlRules onTrade)
  lighterWs := Feed.start cfg.lighterRules
  nowNs := bootNs + 1

/-- The quotes `on_hl_message` takes from a message, and `on_lighter_message`, which does not look
for any in what announces the connection or asks for a pong. -/
def quotesIn (cfg : MarketFeedConfig) (f : MarketFeed) (msg : List Char) :
    Venue → Option (ℚ × ℚ)
  | .hl => if Text.contains "\"bbo\"".toList msg then readQuotes .hl msg else none
  | .lighter =>
    if cfg.lighterRules.announces f.lighterWs.flags msg || cfg.lighterRules.pings msg then none
    else if Text.contains "\"ticker\"".toList msg then readQuotes .lighter msg
    else none

/-- What an event of a socket writes into the store. -/
def quotesOf (cfg : MarketFeedConfig) (f : MarketFeed) (venue : Venue) :
    Feed.Event → Option (ℚ × ℚ)
  | .message msg _ => if (f.socket venue).ws.reading then f.quotesIn cfg msg.toList venue else none
  | _ => none

def step (cfg : MarketFeedConfig) (onTrade : Bool) (f : MarketFeed) :
    MarketEvent → MarketFeed × List MarketObs
  | .socket elapsedNs venue e =>
    let f := { f with nowNs := f.nowNs + elapsedNs }
    let (ws, obs) := (f.socket venue).step (cfg.rules onTrade venue) e
    match f.quotesOf cfg venue e with
    | some (bid, ask) =>
      ((f.setSocket ws venue).store bid ask venue,
        obs.map (.socket venue) ++ [.quoted venue bid ask f.nowNs])
    | none => (f.setSocket ws venue, obs.map (.socket venue))
  | .look elapsedNs venue =>
    let f := { f with nowNs := f.nowNs + elapsedNs }
    (f, [.looked venue ((f.bbo venue).load f.nowNs) f.nowNs])

def machine (cfg : MarketFeedConfig) (onTrade : Bool) :
    EventMachine MarketFeed MarketEvent MarketObs := ⟨step cfg onTrade⟩

end MarketFeed

/-! ## What a reader should see -/

structure TimedQuotes where
  bid : ℚ
  ask : ℚ
  atNs : Nat

def MarketObs.quotes? (venue : Venue) : MarketObs → Option TimedQuotes
  | .quoted venue' bid ask atNs => if venue' = venue then some { bid, ask, atNs } else none
  | _ => none

/-- The last quotes a venue sent. -/
def lastQuotes (venue : Venue) (l : List MarketObs) : Option TimedQuotes :=
  (l.filterMap (MarketObs.quotes? venue)).getLast?

def TimedQuotes.ageMs (q : TimedQuotes) (nowNs : Nat) : Nat := (nowNs - q.atNs) / 1000000

/-- The quotes with their age, or an empty book that is older than any limit. -/
def shown (quotes : Option TimedQuotes) (nowNs : Nat) : Bbo :=
  match quotes with
  | none => { quoteAgeMs := 999999 }
  | some q => { bid := q.bid, ask := q.ask, quoteAgeMs := q.ageMs nowNs }

/-- The message names the channel of its quotes, and nothing else that its venue would take it
for. -/
def carriesQuotes : Venue → List Char → Bool
  | .hl, msg => Text.contains "\"bbo\"".toList msg
  | .lighter, msg => Text.contains "\"ticker\"".toList msg && !(hasConnected msg || hasPing msg)

/-- Quotes are those of the message just read, and a look shows the last ones. -/
def MarketObs.Grounded (l : List MarketObs) : MarketObs → Prop
  | .socket _ _ => True
  | .quoted venue bid ask _ => ∃ msg : String, l.getLast? = some (.socket venue (.read msg)) ∧
      readQuotes venue msg.toList = some (bid, ask)
  | .looked venue bbo atNs => bbo = shown (lastQuotes venue l) atNs ∧
      ∀ q ∈ lastQuotes venue l, 0 < q.bid ∧ 0 < q.ask ∧ q.atNs ≤ atNs

def AllGrounded (l : List MarketObs) : Prop := ∀ pre o, pre ++ [o] <+: l → o.Grounded pre

/-- No message with quotes is passed over. -/
def NoneMissed (l : List MarketObs) : Prop :=
  ∀ pre venue (msg : String) quotes, pre ++ [.socket venue (.read msg)] <+: l →
    carriesQuotes venue msg.toList = true → readQuotes venue msg.toList = some quotes →
    ∃ atNs, pre ++ [.socket venue (.read msg), .quoted venue quotes.1 quotes.2 atNs] <+: l

/-! ## One step -/

theorem numericQuotes_pos {b a : Double} {read : Double × Double} {quotes : ℚ × ℚ}
    (hpositive : positiveQuotes b a = some read) (h : numericQuotes read = some quotes) :
    0 < quotes.1 ∧ 0 < quotes.2 := by
  unfold positiveQuotes at hpositive
  split_ifs at hpositive with hpos
  cases hpositive
  cases b with
  | number b =>
    cases a with
    | number a =>
      cases h
      simpa [Double.positive] using hpos
    | infinity minus => cases h
    | nan => cases h
  | infinity minus => cases h
  | nan => cases h

theorem parseHlBbo_positive {msg : List Char} {read : Double × Double}
    (h : parseHlBbo msg = some read) : ∃ b a, positiveQuotes b a = some read := by
  simp only [parseHlBbo, bind, Option.bind_eq_some_iff] at h
  obtain ⟨_, -, _, -, b, -, _, -, a, -, hquotes⟩ := h
  exact ⟨b, a, hquotes⟩

theorem parseLighterTicker_positive {msg : List Char} {read : Double × Double}
    (h : parseLighterTicker msg = some read) : ∃ b a, positiveQuotes b a = some read := by
  simp only [parseLighterTicker, bind, Option.bind_eq_some_iff] at h
  obtain ⟨_, -, _, -, _, -, _, -, _, -, a, -, b, -, hquotes⟩ := h
  exact ⟨b, a, hquotes⟩

section LastQuotes

variable {l l' : List MarketObs} {venue : Venue}

theorem lastQuotes_quiet (h : ∀ o ∈ l', o.quotes? venue = none) :
    lastQuotes venue (l ++ l') = lastQuotes venue l := by
  rw [lastQuotes, List.filterMap_append, List.filterMap_eq_nil_iff.mpr h, List.append_nil,
    lastQuotes]

theorem lastQuotes_quoted (bid ask : ℚ) (atNs : Nat) :
    lastQuotes venue (l ++ [.quoted venue bid ask atNs]) = some { bid, ask, atNs } := by
  have hone : [MarketObs.quoted venue bid ask atNs].filterMap (MarketObs.quotes? venue) =
      [{ bid, ask, atNs }] := by
    simp [MarketObs.quotes?]
  rw [lastQuotes, List.filterMap_append, hone, List.getLast?_concat]

theorem socket_quotes (venue' : Venue) (obs : List Feed.Obs) :
    ∀ o ∈ obs.map (MarketObs.socket venue'), o.quotes? venue = none := by
  intro o ho
  obtain ⟨_, -, rfl⟩ := List.mem_map.mp ho
  rfl

end LastQuotes

namespace MarketFeed

variable {cfg : MarketFeedConfig} {onTrade : Bool} {f : MarketFeed}

@[simp] theorem bbo_setSocket (ws : Feed) (venue venue' : Venue) :
    (f.setSocket ws venue).bbo venue' = f.bbo venue' := by
  cases venue <;> cases venue' <;> rfl

@[simp] theorem nowNs_setSocket (ws : Feed) (venue : Venue) :
    (f.setSocket ws venue).nowNs = f.nowNs := by
  cases venue <;> rfl

@[simp] theorem nowNs_store (bid ask : ℚ) (venue : Venue) :
    (f.store bid ask venue).nowNs = f.nowNs := by
  cases venue <;> rfl

theorem bbo_store (bid ask : ℚ) (venue venue' : Venue) :
    (f.store bid ask venue).bbo venue' =
      if venue = venue' then (f.bbo venue).store bid ask f.nowNs else f.bbo venue' := by
  cases venue <;> cases venue' <;> rfl

theorem readQuotes_pos {venue : Venue} {msg : List Char} {quotes : ℚ × ℚ}
    (h : readQuotes venue msg = some quotes) : 0 < quotes.1 ∧ 0 < quotes.2 := by
  cases venue with
  | hl =>
    obtain ⟨read, hread, hquotes⟩ := Option.bind_eq_some_iff.mp h
    obtain ⟨b, a, hpositive⟩ := parseHlBbo_positive hread
    exact numericQuotes_pos hpositive hquotes
  | lighter =>
    obtain ⟨read, hread, hquotes⟩ := Option.bind_eq_some_iff.mp h
    obtain ⟨b, a, hpositive⟩ := parseLighterTicker_positive hread
    exact numericQuotes_pos hpositive hquotes

/-- Quotes come from a message, and reading it is all that the socket does with it. -/
theorem quotesOf_read (onTrade : Bool) {venue : Venue} {e : Feed.Event} {quotes : ℚ × ℚ}
    (h : f.quotesOf cfg venue e = some quotes) :
    ∃ msg : String, ((f.socket venue).step (cfg.rules onTrade venue) e).2 = [.read msg] ∧
      readQuotes venue msg.toList = some quotes := by
  cases e with
  | message msg throws =>
    rw [quotesOf] at h
    split_ifs at h with hreading
    refine ⟨msg, ?_, ?_⟩
    · rw [Feed.step, if_pos hreading, Feed.onMessage]
      cases venue with
      | hl => rfl
      | lighter =>
        rw [quotesIn] at h
        split_ifs at h with hdirect
        rw [Bool.or_eq_true, not_or] at hdirect
        show (if cfg.lighterRules.announces f.lighterWs.flags msg.toList = true then _
          else if cfg.lighterRules.pings msg.toList = true then _ else _ :
            Feed × List Feed.Obs).2 = _
        rw [if_neg hdirect.1, if_neg hdirect.2]
    · cases venue with
      | hl =>
        rw [quotesIn] at h
        split_ifs at h
        exact h
      | lighter =>
        rw [quotesIn] at h
        split_ifs at h
        exact h
  | io e => cases h
  | readError => cases h

/-- A message that writes nothing says nothing of the quotes in their channel. -/
theorem readQuotes_none {venue : Venue} {e : Feed.Event} {msg : String}
    (h : f.quotesOf cfg venue e = none)
    (hread : .read msg ∈ ((f.socket venue).step (cfg.rules onTrade venue) e).2)
    (hcarries : carriesQuotes venue msg.toList = true) : readQuotes venue msg.toList = none := by
  cases e with
  | message msg' throws =>
    rw [Feed.step] at hread
    rw [quotesOf] at h
    split_ifs at hread h with hreading
    · have hmsg : msg = msg' := by
        rw [Feed.onMessage] at hread
        split_ifs at hread <;> simpa using hread
      subst hmsg
      cases venue with
      | hl =>
        have hbbo : Text.contains "\"bbo\"".toList msg.toList = true := hcarries
        rw [quotesIn, if_pos hbbo] at h
        exact h
      | lighter =>
        simp only [carriesQuotes, Bool.and_eq_true, Bool.not_eq_true', Bool.or_eq_false_iff]
          at hcarries
        obtain ⟨hticker, hconnected, hping⟩ := hcarries
        have hdirect : ¬ ((cfg.lighterRules.announces f.lighterWs.flags msg.toList ||
            cfg.lighterRules.pings msg.toList) = true) := by
          simp [MarketFeedConfig.lighterRules, hconnected, hping]
        rw [quotesIn, if_neg hdirect, if_pos hticker] at h
        exact h
    · cases hread
  | io e =>
    have hwrites := List.mem_append.mp hread
    simp at hwrites
  | readError =>
    rw [Feed.step] at hread
    split_ifs at hread
    · rw [Feed.onDisconnect] at hread
      split_ifs at hread <;> simp at hread
    · cases hread

/-- The store after the last quotes of a venue. -/
def stored : Option TimedQuotes → AtomicBbo
  | none => {}
  | some q => { bbo := { bid := q.bid, ask := q.ask }, lastUpdate := q.atNs }

/-- The store holds the last quotes of the messages, and what was observed is grounded. -/
structure Holds (l : List MarketObs) (f : MarketFeed) : Prop where
  clock : 0 < f.nowNs
  held : ∀ venue, f.bbo venue = stored (lastQuotes venue l)
  sound : ∀ venue, ∀ q ∈ lastQuotes venue l,
    0 < q.bid ∧ 0 < q.ask ∧ 0 < q.atNs ∧ q.atNs ≤ f.nowNs
  grounded : AllGrounded l
  complete : NoneMissed l

theorem load_stored {quotes : Option TimedQuotes} (h : ∀ q ∈ quotes, 0 < q.atNs) (nowNs : Nat) :
    (stored quotes).load nowNs = shown quotes nowNs := by
  cases quotes with
  | none => rfl
  | some q =>
    have hage : (if 0 < q.atNs then (((nowNs - q.atNs) / 1000000 : Nat) : Int) else 999999) =
        q.ageMs nowNs := if_pos (h q rfl)
    exact congrArg (fun age => ({ bid := q.bid, ask := q.ask, quoteAgeMs := age } : Bbo)) hage

/-- Observations that are grounded wherever they are made keep a run grounded. -/
theorem grounded_append {l l' : List MarketObs} (h : AllGrounded l)
    (hquiet : ∀ o ∈ l', ∀ pre, o.Grounded pre) : AllGrounded (l ++ l') := by
  induction l' using List.reverseRecOn with
  | nil => rwa [List.append_nil]
  | append_singleton l' x ih =>
    intro pre o hp
    rw [← List.append_assoc] at hp
    rcases EventMachine.prefix_snoc_cases hp with hp | hp
    · exact ih (fun y hy => hquiet y (List.mem_append_left _ hy)) pre o hp
    · obtain ⟨rfl, hx⟩ := List.append_inj' hp rfl
      cases hx
      exact hquiet _ (List.mem_append_right _ (List.mem_singleton_self _)) _

theorem grounded_snoc {l : List MarketObs} {x : MarketObs} (h : AllGrounded l)
    (hx : x.Grounded l) : AllGrounded (l ++ [x]) := by
  intro pre o hp
  rcases EventMachine.prefix_snoc_cases hp with hp | hp
  · exact h pre o hp
  · obtain ⟨rfl, heq⟩ := List.append_inj' hp rfl
    cases heq
    exact hx

/-- Messages without quotes are not missed. -/
theorem noneMissed_append {l l' : List MarketObs} (h : NoneMissed l)
    (hquiet : ∀ venue (msg : String), .socket venue (.read msg) ∈ l' →
      carriesQuotes venue msg.toList = true → readQuotes venue msg.toList = none) :
    NoneMissed (l ++ l') := by
  induction l' using List.reverseRecOn with
  | nil => rwa [List.append_nil]
  | append_singleton l' x ih =>
    intro pre venue msg quotes hp hcarries hread
    rw [← List.append_assoc] at hp ⊢
    rcases EventMachine.prefix_snoc_cases hp with hp | hp
    · obtain ⟨atNs, hquoted⟩ := ih (fun venue msg hmem =>
        hquiet venue msg (List.mem_append_left _ hmem)) pre venue msg quotes hp hcarries hread
      exact ⟨atNs, hquoted.trans (List.prefix_append _ _)⟩
    · obtain ⟨-, hx⟩ := List.append_inj' hp rfl
      cases hx
      have hnone := hquiet venue msg (List.mem_append_right _ (List.mem_singleton_self _)) hcarries
      exact absurd (hread.symm.trans hnone) (Option.some_ne_none quotes)

/-- Nor are those whose quotes follow. -/
theorem noneMissed_quoted {l : List MarketObs} {venue : Venue} {msg : String} {quotes : ℚ × ℚ}
    (h : NoneMissed l) (hread : readQuotes venue msg.toList = some quotes) (atNs : Nat) :
    NoneMissed (l ++ [.socket venue (.read msg)] ++ [.quoted venue quotes.1 quotes.2 atNs]) := by
  intro pre venue' msg' quotes' hp hcarries hread'
  rcases EventMachine.prefix_snoc_cases hp with hp | hp
  · rcases EventMachine.prefix_snoc_cases hp with hp | hp
    · obtain ⟨atNs', hquoted⟩ := h pre venue' msg' quotes' hp hcarries hread'
      exact ⟨atNs', hquoted.trans ((List.prefix_append _ _).trans (List.prefix_append _ _))⟩
    · obtain ⟨rfl, hx⟩ := List.append_inj' hp rfl
      cases hx
      cases hread.symm.trans hread'
      exact ⟨atNs, by simp⟩
  · obtain ⟨-, hx⟩ := List.append_inj' hp rfl
    cases hx

theorem socket_grounded (venue : Venue) (obs : List Feed.Obs) :
    ∀ o ∈ obs.map (MarketObs.socket venue), ∀ pre, o.Grounded pre := by
  intro o ho pre
  obtain ⟨_, -, rfl⟩ := List.mem_map.mp ho
  trivial

theorem Holds.look {l : List MarketObs} (h : Holds l f) (elapsedNs : Nat) (venue : Venue) :
    Holds (l ++ (f.step cfg onTrade (.look elapsedNs venue)).2)
      (f.step cfg onTrade (.look elapsedNs venue)).1 := by
  have hquotes : ∀ venue', lastQuotes venue' (l ++ [.looked venue
      ((f.bbo venue).load (f.nowNs + elapsedNs)) (f.nowNs + elapsedNs)]) = lastQuotes venue' l :=
    fun venue' => lastQuotes_quiet (List.forall_mem_singleton.mpr rfl)
  refine ⟨Nat.add_pos_left h.clock _, fun venue' => ?_, fun venue' q hq => ?_,
    grounded_snoc h.grounded ⟨?_, fun q hq => ?_⟩, noneMissed_append h.complete ?_⟩
  · exact (h.held venue').trans (congrArg stored (hquotes venue').symm)
  · obtain ⟨hbid, hask, hat, hle⟩ := h.sound venue' q (hquotes venue' ▸ hq)
    exact ⟨hbid, hask, hat, hle.trans (Nat.le_add_right _ _)⟩
  · show (f.bbo venue).load _ = _
    rw [h.held, load_stored fun q hq => (h.sound venue q hq).2.2.1]
  · obtain ⟨hbid, hask, -, hle⟩ := h.sound venue q hq
    exact ⟨hbid, hask, hle.trans (Nat.le_add_right _ _)⟩
  · intro venue' msg hmem
    cases List.mem_singleton.mp hmem

theorem Holds.socket {l : List MarketObs} (h : Holds l f) (elapsedNs : Nat) (venue : Venue)
    (e : Feed.Event) :
    Holds (l ++ (f.step cfg onTrade (.socket elapsedNs venue e)).2)
      (f.step cfg onTrade (.socket elapsedNs venue e)).1 := by
  rw [MarketFeed.step]
  simp only
  split
  · next bid ask hquotes =>
    obtain ⟨msg, hobs, hread⟩ := quotesOf_read onTrade hquotes
    have hpos := readQuotes_pos hread
    have hlast : ∀ venue' (obs : List Feed.Obs) nowNs,
        lastQuotes venue' (l ++ (obs.map (.socket venue) ++ [.quoted venue bid ask nowNs])) =
          if venue = venue' then some { bid, ask, atNs := nowNs } else lastQuotes venue' l := by
      intro venue' obs nowNs
      rw [← List.append_assoc]
      split_ifs with heq
      · rw [← heq, lastQuotes_quoted]
      · rw [lastQuotes_quiet, lastQuotes_quiet (socket_quotes venue obs)]
        exact List.forall_mem_singleton.mpr (if_neg heq)
    refine ⟨?_, fun venue' => ?_, fun venue' q hq => ?_, ?_, ?_⟩
    · simpa using Nat.add_pos_left h.clock elapsedNs
    · rw [hlast, bbo_store]
      split_ifs with heq
      · rw [bbo_setSocket, nowNs_setSocket]
        show ((f.bbo venue).store bid ask _) = _
        rw [h.held]
        cases lastQuotes venue l <;> rfl
      · rw [bbo_setSocket]
        exact h.held venue'
    · rw [hlast] at hq
      simp only [nowNs_store, nowNs_setSocket]
      split_ifs at hq with heq
      · cases hq
        exact ⟨hpos.1, hpos.2, Nat.add_pos_left h.clock _, le_rfl⟩
      · obtain ⟨hbid, hask, hat, hle⟩ := h.sound venue' q hq
        exact ⟨hbid, hask, hat, hle.trans (Nat.le_add_right _ _)⟩
    · rw [← List.append_assoc]
      refine grounded_snoc (grounded_append h.grounded (socket_grounded venue _)) ?_
      refine ⟨msg, ?_, hread⟩
      rw [hobs, List.map_singleton, List.getLast?_concat]
    · rw [← List.append_assoc, hobs, List.map_singleton]
      exact noneMissed_quoted h.complete hread _
  · next hquotes =>
    have hlast : ∀ venue' (obs : List Feed.Obs),
        lastQuotes venue' (l ++ obs.map (.socket venue)) = lastQuotes venue' l :=
      fun venue' obs => lastQuotes_quiet (socket_quotes venue obs)
    refine ⟨?_, fun venue' => ?_, fun venue' q hq => ?_,
      grounded_append h.grounded (socket_grounded venue _), noneMissed_append h.complete ?_⟩
    · simpa using Nat.add_pos_left h.clock elapsedNs
    · rw [hlast, bbo_setSocket]
      exact h.held venue'
    · rw [hlast] at hq
      simp only [nowNs_setSocket]
      obtain ⟨hbid, hask, hat, hle⟩ := h.sound venue' q hq
      exact ⟨hbid, hask, hat, hle.trans (Nat.le_add_right _ _)⟩
    · intro venue' msg hmem hcarries
      obtain ⟨o, ho, heq⟩ := List.mem_map.mp hmem
      cases heq
      exact readQuotes_none hquotes ho hcarries

theorem Holds.step {l : List MarketObs} (h : Holds l f) (e : MarketEvent) :
    Holds (l ++ (f.step cfg onTrade e).2) (f.step cfg onTrade e).1 := by
  cases e with
  | look elapsedNs venue => exact h.look elapsedNs venue
  | socket elapsedNs venue e => exact h.socket elapsedNs venue e

/-! ## Runs -/

theorem holds_start (cfg : MarketFeedConfig) (onTrade : Bool) (bootNs : Nat) :
    Holds [] (start cfg onTrade bootNs) := by
  refine ⟨Nat.succ_pos _, fun venue => ?_, fun venue q hq => ?_, fun pre o hp => ?_,
    fun pre venue msg quotes hp => ?_⟩
  · cases venue <;> rfl
  · cases hq
  · exact absurd (List.prefix_nil.mp hp) (by simp)
  · exact absurd (List.prefix_nil.mp hp) (by simp)

theorem holds_always (cfg : MarketFeedConfig) (onTrade : Bool) (bootNs : Nat)
    (es : List MarketEvent) :
    (machine cfg onTrade).Always (start cfg onTrade bootNs) Holds es :=
  EventMachine.invariant (holds_start cfg onTrade bootNs) (fun _ _ e h => h.step e) es

/-- Whenever another thread looks at a venue, it sees the quotes of the last message of that venue
that had both of them positive, with the time since that message in whole milliseconds; an empty
book with the sentinel before the first such message. Breaks of the connection change nothing. -/
theorem looks_grounded (cfg : MarketFeedConfig) (onTrade : Bool) (bootNs : Nat)
    (es : List MarketEvent) :
    (machine cfg onTrade).Always (start cfg onTrade bootNs)
      (fun l _ => AllGrounded l ∧ NoneMissed l) es :=
  (holds_always cfg onTrade bootNs es).mono fun _ _ h => ⟨h.grounded, h.complete⟩

/-! ## Fresh books -/

end MarketFeed

end Arb
