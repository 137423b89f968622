import HlLighterArb.Hl.Signing
import HlLighterArb.Lib.JsonString
import HlLighterArb.Lighter.PositionFeed
import HlLighterArb.Maker.Engine

/-!
# HlLighterArb.Hl.ActionAcks

What `cancel_order` and `reduce_position` make of the exchange's reply, and what the maker engine
makes of a cancel that is acknowledged. A reply has a status of its own and one for each order of
the action; both calls search its text for the former.

* `ActionReply.text`: the text of a reply, with any escaped text in its strings.
* `statusOk_body`: the search finds the outer status, and nothing else.
* `acks_sound_iff`: the acknowledgements are sound for the replies that are not ok with an order's
  error inside.
-/

namespace Arb

open JsonString (Literal)

/-! ## The two calls -/

/-- `none` where the search fails or `std::stod` throws. -/
def firstMatchAsDouble (key body : List Char) : Option Double :=
  (Text.readAfter key quoted body).bind Text.stod

def statusOk (body : List Char) : Bool :=
  Text.contains "\"status\":\"ok\"".toList body

def cancelAck (oid body : String) : HlCancelAck :=
  { ok := statusOk body.toList, message := body, oid }

/-- The number behind `key` where the body has `field` anywhere; it throws where that is all it
has. -/
def numberIfPresent (field key : String) (body : List Char) : Option Double :=
  if Text.contains field.toList body then firstMatchAsDouble key.toList body else some (.number 0)

/-- An `HlReduceAck` as it is read. -/
structure ParsedReduceAck where
  ok : Bool := false
  message : String := ""
  filledSize : Double := .number 0
  avgFillPrice : Double := .number 0

def reduceAck (body : String) : Option ParsedReduceAck := do
  let filledSize ← numberIfPresent "totalSz" "\"totalSz\":\"" body.toList
  let avgFillPrice ← numberIfPresent "avgPx" "\"avgPx\":\"" body.toList
  some { ok := statusOk body.toList, message := body, filledSize, avgFillPrice }

namespace NativeHyperliquidTrading

variable (t : NativeHyperliquidTrading)

/-- `post` is the body that `post_exchange_action` returns for an action and the bytes it signs;
`none` where the call throws. -/
def cancelOrder (post : String → ByteBuffer → String) (nonce : UInt64) (coin oid : String)
    (dryRun : Bool) : Option HlCancelAck :=
  if dryRun then some { ok := true, message := "dry-run", oid }
  else do
    let actionJson ← t.cancelActionJson coin oid
    let bytes ← t.cancelActionBytes coin oid nonce
    some (cancelAck oid (post actionJson bytes))

def reducePosition (bbo : Bbo) (post : String → ByteBuffer → String) (nonce : UInt64)
    (coin : String) (isBuy : Bool) (size : ℚ) (dryRun : Bool) : Option ParsedReduceAck :=
  if dryRun then
    some { ok := true, message := "dry-run", filledSize := .number size
           avgFillPrice := .number bbo.mid }
  else do
    let request : HlLimitOrderRequest :=
      { coin, isBuy, price := if isBuy then bbo.ask * 1.003 else bbo.bid * 0.997, size,
        postOnly := false, dryRun := false }
    let entry ← t.metaForCoin coin
    let actionJson := orderActionJson request entry true true
    let bytes ← t.orderActionBytes request entry true true nonce
    reduceAck (post actionJson bytes)

end NativeHyperliquidTrading

/-! ## The replies -/

/-- What the exchange says of one order of the action. -/
inductive OrderStatus where
  | success (name : Literal)
  | resting (oid : Nat)
  | filled (totalSz avgPx : Literal) (oid : Nat)
  | error (text : Literal)

def OrderStatus.isError : OrderStatus → Bool
  | .error _ => true
  | _ => false

def OrderStatus.text : OrderStatus → List Char
  | .success name => name.text
  | .resting oid =>
    "\x7b\"resting\":\x7b\"oid\":".toList ++ Nat.toDigits 10 oid ++ "\x7d\x7d".toList
  | .filled totalSz avgPx oid =>
    "\x7b\"filled\":\x7b\"totalSz\":".toList ++ totalSz.text ++ ",\"avgPx\":".toList ++
      avgPx.text ++ ",\"oid\":".toList ++ Nat.toDigits 10 oid ++ "\x7d\x7d".toList
  | .error text => "\x7b\"error\":".toList ++ text.text ++ "\x7d".toList

/-- A reply with the statuses of the orders, or one that rejects the action as a whole. -/
inductive ActionReply where
  | statuses (ok : Bool) (type : Literal) (orders : List OrderStatus)
  | rejected (response : Literal)

/-- The outer status. -/
def ActionReply.ok : ActionReply → Bool
  | .statuses ok _ _ => ok
  | .rejected _ => false

/-- The status of an order of the action is an error. -/
def ActionReply.Refuses : ActionReply → Prop
  | .statuses _ _ orders => ∃ status ∈ orders, status.isError = true
  | .rejected _ => True

def ActionReply.text : ActionReply → List Char
  | .statuses ok type orders =>
    "\x7b\"status\":".toList ++ (if ok then "\"ok\"" else "\"err\"").toList ++
      ",\"response\":\x7b\"type\":".toList ++ type.text ++ ",\"data\":\x7b\"statuses\":[".toList ++
      [','].intercalate (orders.map OrderStatus.text) ++ "]\x7d\x7d\x7d".toList
  | .rejected response =>
    "\x7b\"status\":\"err\",\"response\":".toList ++ response.text ++ "\x7d".toList

def ActionReply.body (reply : ActionReply) : String :=
  String.ofList reply.text

/-! ## What the search finds -/

open JsonString

/-- The text holds `"status":"ok"`. -/
def HoldsOk (body : List Char) : Prop :=
  memberPattern "status".toList "\"ok\"".toList <:+: body

theorem statusOk_iff (body : List Char) : statusOk body = true ↔ HoldsOk body :=
  Text.contains_iff

/-- A part of the text in which the pattern cannot start. -/
def Fixed (seg : List Char) : Prop :=
  Mismatched (memberPattern "status".toList "\"ok\"".toList) seg

instance (seg : List Char) : Decidable (Fixed seg) :=
  inferInstanceAs (Decidable (Mismatched _ _))

theorem Fixed.holdsOk_iff {seg : List Char} (h : Fixed seg) (rest : List Char) :
    HoldsOk (seg ++ rest) ↔ HoldsOk rest :=
  infix_append_iff h rest

theorem holdsOk_literal_iff (l : Literal) {rest : List Char} (h : EndsValue "status".toList rest) :
    HoldsOk (l.text ++ rest) ↔ HoldsOk rest :=
  infix_literal_iff (by decide +kernel) (by decide +kernel) h l

theorem holdsOk_digits_iff (n : Nat) (rest : List Char) :
    HoldsOk (Nat.toDigits 10 n ++ rest) ↔ HoldsOk rest := by
  refine infix_unquoted_iff (fun c hc => ?_) rest
  rintro rfl
  have hdigit := Nat.isDigit_of_mem_toDigits (by decide) (by decide) hc
  cases hdigit

/-- A string, and a part of the text behind it. -/
theorem holdsOk_member_iff (l : Literal) {seg : List Char} (hfixed : Fixed seg)
    (hends : EndsValue "status".toList seg) (hne : seg ≠ []) (rest : List Char) :
    HoldsOk (l.text ++ (seg ++ rest)) ↔ HoldsOk rest := by
  rw [holdsOk_literal_iff l (hends.append hne rest), hfixed.holdsOk_iff]

/-- The status of an order does not hold the pattern, whatever its error text. -/
theorem holdsOk_order_iff (status : OrderStatus) {rest : List Char}
    (hrest : EndsValue "status".toList rest) : HoldsOk (status.text ++ rest) ↔ HoldsOk rest := by
  have hclose : Fixed "\x7d".toList := by decide +kernel
  have hclose2 : Fixed "\x7d\x7d".toList := by decide +kernel
  cases status with
  | success name =>
    exact holdsOk_literal_iff name hrest
  | resting oid =>
    have hopen : Fixed "\x7b\"resting\":\x7b\"oid\":".toList := by decide +kernel
    show HoldsOk ("\x7b\"resting\":\x7b\"oid\":".toList ++ Nat.toDigits 10 oid ++
      "\x7d\x7d".toList ++ rest) ↔ HoldsOk rest
    rw [List.append_assoc, List.append_assoc, hopen.holdsOk_iff, holdsOk_digits_iff,
      hclose2.holdsOk_iff]
  | filled totalSz avgPx oid =>
    have hopen : Fixed "\x7b\"filled\":\x7b\"totalSz\":".toList := by decide +kernel
    have havg : Fixed ",\"avgPx\":".toList := by decide +kernel
    have hoid : Fixed ",\"oid\":".toList := by decide +kernel
    show HoldsOk ("\x7b\"filled\":\x7b\"totalSz\":".toList ++ totalSz.text ++
      ",\"avgPx\":".toList ++ avgPx.text ++ ",\"oid\":".toList ++ Nat.toDigits 10 oid ++
        "\x7d\x7d".toList ++ rest) ↔ HoldsOk rest
    simp only [List.append_assoc]
    rw [hopen.holdsOk_iff, holdsOk_member_iff totalSz havg (by decide +kernel) (by decide +kernel),
      holdsOk_member_iff avgPx hoid (by decide +kernel) (by decide +kernel), holdsOk_digits_iff,
      hclose2.holdsOk_iff]
  | error text =>
    have hopen : Fixed "\x7b\"error\":".toList := by decide +kernel
    show HoldsOk ("\x7b\"error\":".toList ++ text.text ++ "\x7d".toList ++ rest) ↔ HoldsOk rest
    simp only [List.append_assoc]
    rw [hopen.holdsOk_iff,
      holdsOk_member_iff text hclose (by decide +kernel) (by decide +kernel)]

theorem holdsOk_orders_iff (orders : List OrderStatus) {rest : List Char}
    (hrest : EndsValue "status".toList rest) :
    HoldsOk ([','].intercalate (orders.map OrderStatus.text) ++ rest) ↔ HoldsOk rest := by
  have hcomma : Fixed [','] := by decide +kernel
  induction orders with
  | nil => rfl
  | cons status orders ih =>
    cases orders with
    | nil =>
      rw [List.map_singleton, List.intercalate_singleton]
      exact holdsOk_order_iff status hrest
    | cons next orders =>
      have hends : EndsValue "status".toList
          ([','] ++ ([','].intercalate ((next :: orders).map OrderStatus.text) ++ rest)) := by
        rintro c ⟨⟩
        decide +kernel
      rw [List.map_cons, List.map_cons, List.intercalate_cons_cons, ← List.map_cons,
        List.append_assoc, List.append_assoc, holdsOk_order_iff status hends, hcomma.holdsOk_iff]
      exact ih

theorem not_holdsOk_nil : ¬ HoldsOk [] := by
  rintro ⟨pre, post, h⟩
  simp [memberPattern] at h

/-- The search finds the outer status and nothing else. -/
theorem statusOk_body (reply : ActionReply) : statusOk reply.body.toList = reply.ok := by
  rw [Bool.eq_iff_iff, statusOk_iff, ActionReply.body, String.toList_ofList]
  cases reply with
  | statuses ok type orders =>
    show HoldsOk ("\x7b\"status\":".toList ++ (if ok then "\"ok\"" else "\"err\"").toList ++
      ",\"response\":\x7b\"type\":".toList ++ type.text ++ ",\"data\":\x7b\"statuses\":[".toList ++
      [','].intercalate (orders.map OrderStatus.text) ++ "]\x7d\x7d\x7d".toList) ↔ ok = true
    simp only [List.append_assoc]
    cases ok with
    | true =>
      have hstart : "\x7b\"status\":".toList ++ "\"ok\"".toList =
          ['\x7b'] ++ memberPattern "status".toList "\"ok\"".toList := by decide +kernel
      refine iff_of_true ?_ rfl
      rw [if_pos rfl, ← List.append_assoc, hstart]
      exact ⟨['\x7b'], _, rfl⟩
    | false =>
      have hstatus : Fixed ("\x7b\"status\":".toList ++ "\"err\"".toList ++
          ",\"response\":\x7b\"type\":".toList) := by decide +kernel
      have hdata : Fixed ",\"data\":\x7b\"statuses\":[".toList := by decide +kernel
      have hclose : Fixed "]\x7d\x7d\x7d".toList := by decide +kernel
      have hends : EndsValue "status".toList "]\x7d\x7d\x7d".toList := by decide +kernel
      refine iff_of_false ?_ Bool.false_ne_true
      have hend := hclose.holdsOk_iff []
      rw [List.append_nil] at hend
      rw [if_neg Bool.false_ne_true, ← List.append_assoc, ← List.append_assoc, hstatus.holdsOk_iff,
        holdsOk_member_iff type hdata (by decide +kernel) (by decide +kernel),
        holdsOk_orders_iff orders hends, hend]
      exact not_holdsOk_nil
  | rejected response =>
    have hopen : Fixed "\x7b\"status\":\"err\",\"response\":".toList := by decide +kernel
    have hclose : Fixed "\x7d".toList := by decide +kernel
    have hends : EndsValue "status".toList "\x7d".toList := by decide +kernel
    refine iff_of_false ?_ Bool.false_ne_true
    have hend := hclose.holdsOk_iff []
    rw [List.append_nil] at hend
    show ¬ HoldsOk ("\x7b\"status\":\"err\",\"response\":".toList ++ response.text ++
      "\x7d".toList)
    rw [List.append_assoc, hopen.holdsOk_iff, holdsOk_literal_iff response hends, hend]
    exact not_holdsOk_nil

/-! ## The acknowledgements -/

theorem cancelOrder_ok {t : NativeHyperliquidTrading} {reply : ActionReply} {nonce : UInt64}
    {coin oid : String} {ack : HlCancelAck}
    (h : t.cancelOrder (fun _ _ => reply.body) nonce coin oid false = some ack) :
    ack.ok = reply.ok := by
  simp only [NativeHyperliquidTrading.cancelOrder, Bool.false_eq_true, if_false,
    Option.bind_eq_bind, Option.bind_eq_some_iff] at h
  obtain ⟨actionJson, -, bytes, -, hack⟩ := h
  rw [← Option.some.inj hack]
  exact statusOk_body reply

theorem reducePosition_ok {t : NativeHyperliquidTrading} {bbo : Bbo} {reply : ActionReply}
    {nonce : UInt64} {coin : String} {isBuy : Bool} {size : ℚ} {ack : ParsedReduceAck}
    (h : t.reducePosition bbo (fun _ _ => reply.body) nonce coin isBuy size false = some ack) :
    ack.ok = reply.ok := by
  simp only [NativeHyperliquidTrading.reducePosition, reduceAck, Bool.false_eq_true, if_false,
    Option.bind_eq_bind, Option.bind_eq_some_iff] at h
  obtain ⟨entry, -, bytes, -, filledSize, -, avgFillPrice, -, hack⟩ := h
  rw [← Option.some.inj hack]
  exact statusOk_body reply

section Engine

open MakerHedgeEngine

/-- A cancel makes the engine forget its active oid or take back a speculative hedge. -/
def ActsOnCancel (s : MakerHedgeEngine) (out : MakerOutcome) : Prop :=
  s.activeHlOid ≠ none ∧ out.state.activeHlOid = none ∨
    ∃ request ack, .ioc .cancelUnwind request ack ∈ out.calls

variable {cfg : EngineConfig} {venues : Venues} {s : MakerHedgeEngine}

/-- The engine acts on a cancel that it sends and gets acknowledged. -/
theorem actsOnCancel_iff {oid : String} (hactive : s.activeHlOid = some oid) (steadyMs : Int)
    (reason : String) (order : PendingMakerOrder) (snapshot : SpreadSnapshot) :
    ActsOnCancel s (executeCancelHlMaker cfg venues steadyMs s reason order snapshot) ↔
      s.hlCancelRetryAtMs cfg steadyMs = none ∧
        (venues.hl.cancelOrder cfg.hlCoin oid cfg.dryRun).ok = true := by
  unfold ActsOnCancel executeCancelHlMaker
  cases hretry : s.hlCancelRetryAtMs cfg steadyMs with
  | some retryAt => simp [hactive]
  | none =>
    simp only [hactive]
    split_ifs with hack hsent
    · simp [hack]
    · simp [hack]
    · simp [hack]

end Engine

/-- For every reply: an acknowledgement of `cancel_order`, one of `reduce_position`, and what the
engine does about an acknowledged cancel, are sound exactly when the reply is not ok with the error
of an order inside. -/
theorem acks_sound_iff (t : NativeHyperliquidTrading) (reply : ActionReply) (nonce : UInt64) :
    (∀ coin oid ack, t.cancelOrder (fun _ _ => reply.body) nonce coin oid false = some ack →
      ((ack.ok = true → ¬ reply.Refuses) ↔ ¬ (reply.ok = true ∧ reply.Refuses))) ∧
    (∀ bbo coin isBuy size ack,
      t.reducePosition bbo (fun _ _ => reply.body) nonce coin isBuy size false = some ack →
      ((ack.ok = true → ¬ reply.Refuses) ↔ ¬ (reply.ok = true ∧ reply.Refuses))) ∧
    ∀ (cfg : EngineConfig) (venues : Venues) (s : MakerHedgeEngine) (oid : String) (steadyMs : Int)
        (reason : String) (order : PendingMakerOrder) (snapshot : SpreadSnapshot),
      cfg.dryRun = false → s.activeHlOid = some oid →
      t.cancelOrder (fun _ _ => reply.body) nonce cfg.hlCoin oid cfg.dryRun =
        some (venues.hl.cancelOrder cfg.hlCoin oid cfg.dryRun) →
      ((ActsOnCancel s
          (MakerHedgeEngine.executeCancelHlMaker cfg venues steadyMs s reason order snapshot) →
        ¬ reply.Refuses) ↔
        ¬ (s.hlCancelRetryAtMs cfg steadyMs = none ∧ reply.ok = true ∧ reply.Refuses)) := by
  refine ⟨fun coin oid ack h => ?_, fun bbo coin isBuy size ack h => ?_,
    fun cfg venues s oid steadyMs reason order snapshot hlive hactive h => ?_⟩
  · rw [cancelOrder_ok h, not_and]
  · rw [reducePosition_ok h, not_and]
  · rw [hlive] at h
    rw [actsOnCancel_iff hactive, hlive, cancelOrder_ok h, ← and_assoc, not_and]

/-- HL as it knows its coin. -/
def knownCoin : NativeHyperliquidTrading where
  metaForCoin _ := some { asset := 159, szDecimals := 2 }

/-- The reply to a cancel that went through. -/
def cancelled : ActionReply :=
  .statuses true (.ofText "cancel") [.success (.ofText "success")]

/-- The reply to a cancel of an order that has filled. -/
def tooLate : ActionReply :=
  .statuses true (.ofText "cancel")
    [.error (.ofText "Order was never placed, already canceled, or filled. asset=159")]

theorem not_refuses_cancelled : ¬ cancelled.Refuses := by
  rintro ⟨status, hmem, herror⟩
  rw [List.mem_singleton.mp hmem] at herror
  cases herror

/-- A cancel whose oid is a number is posted, and its reply read. -/
theorem cancelOrder_known (reply : ActionReply) :
    knownCoin.cancelOrder (fun _ _ => reply.body) 7 "HYPE" "12" false =
      some (cancelAck "12" reply.body) := rfl

/-- HL answering every cancel with the reply. -/
def replyingVenues (reply : ActionReply) : Venues :=
  let venues := obligingVenues 100 101 0 "12"
  { venues with hl := { venues.hl with cancelOrder := fun _ oid _ => cancelAck oid reply.body } }

def restingTwelve : MakerHedgeEngine := { activeHlOid := some "12" }

def cancelOutcome (reply : ActionReply) : MakerOutcome :=
  MakerHedgeEngine.executeCancelHlMaker sampleConfig (replyingVenues reply) 1000 restingTwelve
    "band" {} { hl := bookAround 100, lighter := bookAround 101 }

/-- A cancel that went through is acknowledged, and the engine forgets the order. -/
theorem cancel_ack_sound :
    ((cancelAck "12" cancelled.body).ok = true → ¬ cancelled.Refuses) ∧
      ActsOnCancel restingTwelve (cancelOutcome cancelled) ∧ ¬ cancelled.Refuses := by
  have hsound := acks_sound_iff knownCoin cancelled 7
  have hacts : ActsOnCancel restingTwelve (cancelOutcome cancelled) :=
    .inl ⟨Option.some_ne_none _, by decide +kernel⟩
  refine ⟨?_, hacts, ?_⟩
  · exact (hsound.1 "HYPE" "12" _ (cancelOrder_known cancelled)).mpr
      fun h => not_refuses_cancelled h.2
  · exact (hsound.2.2 sampleConfig (replyingVenues cancelled) restingTwelve "12" 1000 "band" {} _
      rfl rfl (cancelOrder_known cancelled)).mpr (fun h => not_refuses_cancelled h.2.2) hacts

theorem refused_cancel_acknowledged :
    ¬ ∀ (t : NativeHyperliquidTrading) (reply : ActionReply) (nonce : UInt64) (coin oid : String)
        (ack : HlCancelAck),
      t.cancelOrder (fun _ _ => reply.body) nonce coin oid false = some ack →
        ack.ok = true → ¬ reply.Refuses := by
  intro hall
  have hrefuses : tooLate.Refuses := ⟨_, List.mem_singleton.mpr rfl, rfl⟩
  have hok : (cancelAck "12" tooLate.body).ok = true :=
    (cancelOrder_ok (cancelOrder_known tooLate)).trans rfl
  exact hall knownCoin tooLate 7 "HYPE" "12" _ (cancelOrder_known tooLate) hok hrefuses

end Arb
