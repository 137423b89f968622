import HlLighterArb.Lib.KeyRecords
import HlLighterArb.Lighter.AccountFeed

/-!
# HlLighterArb.Lighter.AccountMessages

What the account feed reads from the messages of Lighter, which list an array of orders or trades
for each market.

* `LighterOrder`, `LighterTrade`: an object of an array, as the exchange writes it.
* `readOrder_window`, `readTrade_window`: a window that holds an object is read as that object.
* `MarketsMessage`: a message with an array for each market.
* `parseLighterOrderUpdates_text`, `parseLighterAccountTrades_text`: what is read from a message: the
  objects of the own array, and those of every array behind it.
* `market_boundaries_iff`: when only the objects of the own array are read.
-/

namespace Arb

open KeyText

/-! ## Reading one object -/

section Values

variable {c : Char} (rest : List Char)

theorem unsignedDigits_append (hc : c ∈ separators) (n : Nat) :
    unsignedDigits (Nat.toDigits 10 n ++ c :: rest) = some (Nat.toDigits 10 n) := by
  have hdigits : ∀ d ∈ Nat.toDigits 10 n, d.isDigit = true :=
    fun d hd => Nat.isDigit_of_mem_toDigits (by decide) (by decide) hd
  have hall : separators.all (fun c => ¬ c.isDigit) = true := by decide
  have hstop : ¬ c.isDigit = true := by simpa using List.all_eq_true.mp hall c hc
  have htake : Text.digits (Nat.toDigits 10 n ++ c :: rest) = Nat.toDigits 10 n := by
    rw [Text.digits, List.takeWhile_append_of_pos hdigits, List.takeWhile_cons_of_neg hstop,
      List.append_nil]
  rw [unsignedDigits, htake, if_pos Nat.toDigits_ne_nil]

theorem boolean_append (b : Bool) :
    boolean ((if b then "true".toList else "false".toList) ++ c :: rest) = some b := by
  cases b with
  | true => rfl
  | false => rfl

theorem quoted_append {value : List Char} (hne : value ≠ []) (hvalue : '"' ∉ value) :
    quoted (value ++ ['"'] ++ c :: rest) = some value := by
  rw [List.append_assoc, List.singleton_append, quoted, takeWhile_quote hvalue,
    if_pos ⟨hne, by simp⟩]

end Values

theorem stoll_toDigits {n : Nat} (h : n < 2 ^ 63) : Text.stoll (Nat.toDigits 10 n) = some ↑n := by
  rw [Text.stoll, Nat.ofDigitChars_ten_toDigits, if_pos ⟨Nat.toDigits_ne_nil, h⟩]

theorem stoull_toDigits {n : Nat} (h : n < 2 ^ 64) : Text.stoull (Nat.toDigits 10 n) = some n := by
  rw [Text.stoull, Nat.ofDigitChars_ten_toDigits, if_pos ⟨Nat.toDigits_ne_nil, h⟩]

theorem decimal_ne_nil (d : Text.Decimal) : d.text ≠ [] := by
  obtain ⟨c, s, hcons, -⟩ := d.text_head
  rw [hcons]
  exact List.cons_ne_nil c s

section Reads

variable {key : String} {s : List Char}

theorem indexNumber_eq {n : Nat} (hn : n < 2 ^ 63)
    (h : Text.readAfter key.toList unsignedDigits s = some (Nat.toDigits 10 n)) :
    indexNumber key s = .ok ↑n := by
  rw [indexNumber, h]
  simp only [stoll_toDigits hn]

theorem timeNumber_eq {n : Nat} (hn : n < 2 ^ 64)
    (h : Text.readAfter key.toList unsignedDigits s = some (Nat.toDigits 10 n)) :
    timeNumber key s = .ok n := by
  rw [timeNumber, h]
  simp only [stoull_toDigits hn]

theorem quotedNumber_eq {d : Text.Decimal}
    (h : Text.readAfter key.toList quoted s = some d.text) :
    quotedNumber key s = if d.InRange then .ok (.number d.value) else .error "stod" := by
  rw [quotedNumber, h]
  simp only [d.stod_text]
  split_ifs <;> rfl

theorem quotedText_eq {value : List Char} (h : Text.readAfter key.toList quoted s = some value) :
    quotedText key s = String.ofList value := by
  rw [quotedText, h]
  rfl

end Reads

section Listed

variable {keys : List (List Char)} {name : List Char} {r : Record keys name}
  {known : List (Field keys)}

theorem readAfter_leading {n : Nat} (hvalue : r.value = Nat.toDigits 10 n) (rest : List Char) :
    Text.readAfter (inQuotes name ++ [':']) unsignedDigits (r.fromName ++ '\x7d' :: rest) =
      some (Nat.toDigits 10 n) :=
  readAfter_name r (hvalue.trans (List.nil_append _).symm)
    (fun _ hc rest => unsignedDigits_append rest hc n) rest

theorem readAfter_number (h : r.Lists known) {key : List Char} {n : Nat}
    (hf : ∃ f ∈ known, f.key = key ∧ f.value = Nat.toDigits 10 n) (rest : List Char) :
    Text.readAfter (inQuotes key ++ [':']) unsignedDigits (r.fromName ++ '\x7d' :: rest) =
      some (Nat.toDigits 10 n) := by
  obtain ⟨f, hf, rfl, hvalue⟩ := hf
  exact h.readAfter hf (hvalue.trans (List.nil_append _).symm)
    (fun _ hc rest => unsignedDigits_append rest hc n) rest

theorem readAfter_boolean (h : r.Lists known) {key : List Char} {b : Bool}
    (hf : ∃ f ∈ known, f.key = key ∧ f.value = if b then "true".toList else "false".toList)
    (rest : List Char) :
    Text.readAfter (inQuotes key ++ [':']) boolean (r.fromName ++ '\x7d' :: rest) = some b := by
  obtain ⟨f, hf, rfl, hvalue⟩ := hf
  exact h.readAfter hf (hvalue.trans (List.nil_append _).symm)
    (fun _ _ rest => boolean_append rest b) rest

theorem readAfter_string (h : r.Lists known) {key s : List Char} (hne : s ≠ [])
    (unquoted : '"' ∉ s) (hf : ∃ f ∈ known, f.key = key ∧ f.value = inQuotes s)
    (rest : List Char) :
    Text.readAfter (inQuotes key ++ [':', '"']) quoted (r.fromName ++ '\x7d' :: rest) =
      some s := by
  obtain ⟨f, hf, rfl, hvalue⟩ := hf
  exact h.readAfter hf (hvalue.trans (show inQuotes s = ['"'] ++ (s ++ ['"']) from rfl))
    (fun _ _ rest => quoted_append rest hne unquoted) rest

end Listed

/-! ## Orders -/

def lighterOrderKeys : List (List Char) :=
  ["order_index", "client_order_index", "is_ask", "price", "remaining_base_amount",
    "filled_base_amount", "status"].map String.toList

theorem lighterOrderKeys_plain : ∀ name ∈ lighterOrderKeys, PlainName name := by
  decide

theorem lighterOrderKeys_letters :
    ∀ key ∈ lighterOrderKeys, (key.head?.all fun c => c ≠ '-' ∧ ¬ c.isDigit) = true := by
  decide

/-- The members of an order that the feed reads behind `order_index`. -/
structure LighterOrderMembers where
  clientOrderIndex : Nat
  isAsk : Bool
  price : Text.Decimal
  remainingBaseAmount : Text.Decimal
  filledBaseAmount : Text.Decimal
  status : List Char
  statusUnquoted : '"' ∉ status
  statusFresh : status ∉ lighterOrderKeys

def LighterOrderMembers.fields (m : LighterOrderMembers) : List (Field lighterOrderKeys) :=
  [.number "client_order_index".toList m.clientOrderIndex (by decide),
    .boolean "is_ask".toList m.isAsk (by decide),
    .decimal lighterOrderKeys_plain lighterOrderKeys_letters "price".toList m.price (by decide),
    .decimal lighterOrderKeys_plain lighterOrderKeys_letters "remaining_base_amount".toList
      m.remainingBaseAmount (by decide),
    .decimal lighterOrderKeys_plain lighterOrderKeys_letters "filled_base_amount".toList
      m.filledBaseAmount (by decide),
    .string lighterOrderKeys_plain "status".toList m.status (by decide) m.statusUnquoted
      m.statusFresh]

/-- An order as Lighter writes it: the members the feed reads stand behind `order_index`, in any
order. -/
structure LighterOrder extends LighterOrderMembers where
  orderIndex : Nat
  front : List (Member lighterOrderKeys) := []
  others : List (Member lighterOrderKeys) := []
  back : List (Field lighterOrderKeys)
  orderIndexFits : orderIndex < 2 ^ 63
  clientOrderIndexFits : clientOrderIndex < 2 ^ 63
  statusNonempty : status ≠ []
  anyOrder : back.Perm (toLighterOrderMembers.fields ++ others.map Member.field)

namespace LighterOrder

variable (o : LighterOrder)

theorem fields_keys : o.fields.map Field.key = lighterOrderKeys.tail := rfl

theorem fields_mem {f : Field lighterOrderKeys} (hf : f ∈ o.fields) : f.key ∈ lighterOrderKeys := by
  have hmem : f.key ∈ o.fields.map Field.key := List.mem_map_of_mem hf
  rw [fields_keys] at hmem
  exact List.mem_of_mem_tail hmem

def record : Record lighterOrderKeys "order_index".toList where
  front := o.front
  value := Nat.toDigits 10 o.orderIndex
  back := o.back
  silent := fun _ _ => not_infix_of_unquoted fun h =>
    absurd (Nat.isDigit_of_mem_toDigits (by decide) (by decide) h) (by decide)
  once := fun f hf hkey => by
    rcases List.mem_append.mp (o.anyOrder.mem_iff.mp hf) with hlisted | hother
    · have hmem : f.key ∈ o.fields.map Field.key := List.mem_map_of_mem hlisted
      rw [fields_keys, hkey] at hmem
      revert hmem
      decide
    · obtain ⟨m, -, rfl⟩ := List.mem_map.mp hother
      have hmem : m.field.key ∈ lighterOrderKeys := by
        rw [hkey]
        decide
      exact m.fresh hmem

/-- The update a reader should get from it. -/
def update : LighterOrderUpdate where
  orderIndex := o.orderIndex
  clientOrderIndex := o.clientOrderIndex
  isAsk := o.isAsk
  price := .number o.price.value
  remainingBaseAmount := .number o.remainingBaseAmount.value
  filledBaseAmount := .number o.filledBaseAmount.value
  status := String.ofList o.status

theorem lists : o.record.Lists o.fields where
  keysPlain := lighterOrderKeys_plain
  namePlain := by decide
  nodup := by
    rw [fields_keys]
    decide
  ofKeys := fun f hf => o.fields_mem hf
  anyOrder := ⟨o.others, o.anyOrder⟩

/-- A double can hold its numbers. -/
def Readable : Prop :=
  o.price.InRange ∧ o.remainingBaseAmount.InRange ∧ o.filledBaseAmount.InRange

instance : Decidable o.Readable := inferInstanceAs (Decidable (_ ∧ _ ∧ _))

/-- A window that holds the order is read as the order, or not at all. -/
theorem readOrder_window (rest : List Char) :
    readOrder (o.record.fromName ++ '\x7d' :: rest) =
      if o.Readable then .ok o.update else .error "stod" := by
  have hindex := @indexNumber_eq "\"order_index\":" _ _ o.orderIndexFits
    (@readAfter_leading _ _ o.record _ rfl rest)
  have hclient := @indexNumber_eq "\"client_order_index\":" _ _ o.clientOrderIndexFits
    (readAfter_number o.lists ⟨_, .head _, rfl, rfl⟩ rest)
  have hask : Text.readAfter "\"is_ask\":".toList boolean
      (o.record.fromName ++ '\x7d' :: rest) = some o.isAsk :=
    readAfter_boolean o.lists ⟨_, .tail _ (.head _), rfl, rfl⟩ rest
  have hprice := @quotedNumber_eq "\"price\":\"" _ o.price
    (readAfter_string o.lists (decimal_ne_nil _) o.price.unquoted
      ⟨_, .tail _ (.tail _ (.head _)), rfl, rfl⟩ rest)
  have hremaining := @quotedNumber_eq "\"remaining_base_amount\":\"" _ o.remainingBaseAmount
    (readAfter_string o.lists (decimal_ne_nil _) o.remainingBaseAmount.unquoted
      ⟨_, .tail _ (.tail _ (.tail _ (.head _))), rfl, rfl⟩ rest)
  have hfilled := @quotedNumber_eq "\"filled_base_amount\":\"" _ o.filledBaseAmount
    (readAfter_string o.lists (decimal_ne_nil _) o.filledBaseAmount.unquoted
      ⟨_, .tail _ (.tail _ (.tail _ (.tail _ (.head _)))), rfl, rfl⟩ rest)
  have hstatus := @quotedText_eq "\"status\":\"" _ o.status
    (readAfter_string o.lists o.statusNonempty o.statusUnquoted
      ⟨_, .tail _ (.tail _ (.tail _ (.tail _ (.tail _ (.head _))))), rfl, rfl⟩ rest)
  simp only [readOrder, hindex, hclient, hask, hprice, hremaining, hfilled, hstatus, bind,
    Except.bind, Option.getD_some, Readable]
  by_cases hprice : o.price.InRange
  · by_cases hremaining : o.remainingBaseAmount.InRange
    · by_cases hfilled : o.filledBaseAmount.InRange
      · simp only [hprice, hremaining, hfilled, and_self, if_true]
        rfl
      · simp [hprice, hremaining, hfilled]
    · simp [hprice, hremaining]
  · simp [hprice]

/-- What the loop does where it finds `order_index`. -/
def readAt (s : List Char) : Option (Except String (List LighterOrderUpdate)) :=
  (Text.readAfter "\"order_index\":".toList unsignedDigits (s.take 1024)).map
    fun _ => (readOrder (s.take 1024)).map ([·])

theorem readAt_record (hshort : o.record.text.length < 1024) (rest : List Char) :
    readAt (o.record.fromName ++ '\x7d' :: rest) =
      some (if o.Readable then .ok [o.update] else .error "stod") := by
  obtain ⟨cut, hcut⟩ := take_fromName o.record hshort.le rest
  have hindex : Text.readAfter "\"order_index\":".toList unsignedDigits
      (o.record.fromName ++ '\x7d' :: cut) = some (Nat.toDigits 10 o.orderIndex) :=
    @readAfter_leading _ _ o.record _ rfl cut
  rw [readAt, hcut, o.readOrder_window, hindex]
  split_ifs <;> rfl

end LighterOrder

theorem readOrders_eq_collect (s : List Char) :
    readOrders s = collect (inQuotes "order_index".toList) LighterOrder.readAt s := by
  induction s with
  | nil => rfl
  | cons c s ih =>
    rw [readOrders, collect, ← ih, LighterOrder.readAt]
    by_cases hkey : "\"order_index\"".toList <+: c :: s
    · rw [if_pos hkey, if_pos (show inQuotes "order_index".toList <+: c :: s from hkey)]
      cases Text.readAfter "\"order_index\":".toList unsignedDigits ((c :: s).take 1024) with
      | none => rfl
      | some _ =>
        cases readOrder ((c :: s).take 1024) with
        | error e => rfl
        | ok order => rfl
    · rw [if_neg hkey, if_neg (show ¬ inQuotes "order_index".toList <+: c :: s from hkey)]

/-! ## Trades -/

def lighterTradeKeys : List (List Char) :=
  ["tx_hash", "price", "size", "is_maker_ask", "ask_account_id", "bid_account_id", "ask_id",
    "bid_id", "ask_client_id", "bid_client_id", "timestamp"].map String.toList

theorem lighterTradeKeys_plain : ∀ name ∈ lighterTradeKeys, PlainName name := by
  decide

theorem lighterTradeKeys_letters :
    ∀ key ∈ lighterTradeKeys, (key.head?.all fun c => c ≠ '-' ∧ ¬ c.isDigit) = true := by
  decide

/-- The members of a trade that the feed reads behind `tx_hash`. -/
structure LighterTradeMembers where
  price : Text.Decimal
  size : Text.Decimal
  isMakerAsk : Bool
  askAccountId : Nat
  bidAccountId : Nat
  askId : Nat
  bidId : Nat
  askClientId : Nat
  bidClientId : Nat
  timestamp : Nat

def LighterTradeMembers.fields (m : LighterTradeMembers) : List (Field lighterTradeKeys) :=
  [.decimal lighterTradeKeys_plain lighterTradeKeys_letters "price".toList m.price (by decide),
    .decimal lighterTradeKeys_plain lighterTradeKeys_letters "size".toList m.size (by decide),
    .boolean "is_maker_ask".toList m.isMakerAsk (by decide),
    .number "ask_account_id".toList m.askAccountId (by decide),
    .number "bid_account_id".toList m.bidAccountId (by decide),
    .number "ask_id".toList m.askId (by decide),
    .number "bid_id".toList m.bidId (by decide),
    .number "ask_client_id".toList m.askClientId (by decide),
    .number "bid_client_id".toList m.bidClientId (by decide),
    .number "timestamp".toList m.timestamp (by decide)]

/-- A trade as Lighter writes it: the members the feed reads stand behind `tx_hash`, in any
order. -/
structure LighterTrade extends LighterTradeMembers where
  txHash : List Char
  front : List (Member lighterTradeKeys) := []
  others : List (Member lighterTradeKeys) := []
  back : List (Field lighterTradeKeys)
  indexesFit : ∀ n ∈ [askAccountId, bidAccountId, askId, bidId, askClientId, bidClientId],
    n < 2 ^ 63
  timestampFits : timestamp < 2 ^ 64
  hashNonempty : txHash ≠ []
  hashUnquoted : '"' ∉ txHash
  hashFresh : txHash ∉ lighterTradeKeys
  anyOrder : back.Perm (toLighterTradeMembers.fields ++ others.map Member.field)

namespace LighterTrade

variable (t : LighterTrade)

theorem fields_keys : t.fields.map Field.key = lighterTradeKeys.tail := rfl

theorem fields_mem {f : Field lighterTradeKeys} (hf : f ∈ t.fields) : f.key ∈ lighterTradeKeys := by
  have hmem : f.key ∈ t.fields.map Field.key := List.mem_map_of_mem hf
  rw [fields_keys] at hmem
  exact List.mem_of_mem_tail hmem

def record : Record lighterTradeKeys "tx_hash".toList where
  front := t.front
  value := inQuotes t.txHash
  back := t.back
  silent := fun name hname => by
    rw [inQuotes_infix_iff (lighterTradeKeys_plain name hname).2.1 t.hashUnquoted]
    rintro rfl
    exact t.hashFresh hname
  once := fun f hf hkey => by
    rcases List.mem_append.mp (t.anyOrder.mem_iff.mp hf) with hlisted | hother
    · have hmem : f.key ∈ t.fields.map Field.key := List.mem_map_of_mem hlisted
      rw [fields_keys, hkey] at hmem
      revert hmem
      decide
    · obtain ⟨m, -, rfl⟩ := List.mem_map.mp hother
      have hmem : m.field.key ∈ lighterTradeKeys := by
        rw [hkey]
        decide
      exact m.fresh hmem

theorem lists : t.record.Lists t.fields where
  keysPlain := lighterTradeKeys_plain
  namePlain := by decide
  nodup := by
    rw [fields_keys]
    decide
  ofKeys := fun f hf => t.fields_mem hf
  anyOrder := ⟨t.others, t.anyOrder⟩

def MakerIs (accountIndex : Int) : Prop :=
  (if t.isMakerAsk then (t.askAccountId : Int) else t.bidAccountId) = accountIndex

instance (accountIndex : Int) : Decidable (t.MakerIs accountIndex) :=
  inferInstanceAs (Decidable (_ = _))

/-- The fill of the maker. -/
def fill : LighterTradeFill where
  orderIndex := if t.isMakerAsk then t.askId else t.bidId
  clientOrderIndex := if t.isMakerAsk then t.askClientId else t.bidClientId
  isAsk := t.isMakerAsk
  price := .number t.price.value
  size := .number t.size.value
  txHash := String.ofList t.txHash
  exchangeTimeMs := t.timestamp

/-- A double can hold its numbers. They are read before the accounts are looked at. -/
def Readable : Prop := t.price.InRange ∧ t.size.InRange

instance : Decidable t.Readable := inferInstanceAs (Decidable (_ ∧ _))

/-- A window that holds the trade is read as the trade, or not at all. -/
theorem readTrade_window (accountIndex : Int) (rest : List Char) :
    readTrade accountIndex (t.record.fromName ++ '\x7d' :: rest) =
      if t.Readable then .ok (if t.MakerIs accountIndex then some t.fill else none)
      else .error "stod" := by
  obtain ⟨haskAccount, hbidAccount, haskId, hbidId, haskClient, hbidClient⟩ :
      t.askAccountId < 2 ^ 63 ∧ t.bidAccountId < 2 ^ 63 ∧ t.askId < 2 ^ 63 ∧ t.bidId < 2 ^ 63 ∧
        t.askClientId < 2 ^ 63 ∧ t.bidClientId < 2 ^ 63 := by
    simpa using t.indexesFit
  have hhash := @quotedText_eq "\"tx_hash\":\"" _ t.txHash
    (readAfter_name t.record (show inQuotes t.txHash = ['"'] ++ (t.txHash ++ ['"']) from rfl)
      (fun _ _ rest => quoted_append rest t.hashNonempty t.hashUnquoted) rest)
  have hprice := @quotedNumber_eq "\"price\":\"" _ t.price
    (readAfter_string t.lists (decimal_ne_nil _) t.price.unquoted ⟨_, .head _, rfl, rfl⟩ rest)
  have hsize := @quotedNumber_eq "\"size\":\"" _ t.size
    (readAfter_string t.lists (decimal_ne_nil _) t.size.unquoted
      ⟨_, .tail _ (.head _), rfl, rfl⟩ rest)
  have hmakerAsk : Text.readAfter "\"is_maker_ask\":".toList boolean
      (t.record.fromName ++ '\x7d' :: rest) = some t.isMakerAsk :=
    readAfter_boolean t.lists ⟨_, .tail _ (.tail _ (.head _)), rfl, rfl⟩ rest
  have haskAccount := @indexNumber_eq "\"ask_account_id\":" _ _ haskAccount
    (readAfter_number t.lists ⟨_, .tail _ (.tail _ (.tail _ (.head _))), rfl, rfl⟩ rest)
  have hbidAccount := @indexNumber_eq "\"bid_account_id\":" _ _ hbidAccount
    (readAfter_number t.lists ⟨_, .tail _ (.tail _ (.tail _ (.tail _ (.head _)))), rfl, rfl⟩ rest)
  have haskId := @indexNumber_eq "\"ask_id\":" _ _ haskId
    (readAfter_number t.lists
      ⟨_, .tail _ (.tail _ (.tail _ (.tail _ (.tail _ (.head _))))), rfl, rfl⟩ rest)
  have hbidId := @indexNumber_eq "\"bid_id\":" _ _ hbidId
    (readAfter_number t.lists
      ⟨_, .tail _ (.tail _ (.tail _ (.tail _ (.tail _ (.tail _ (.head _)))))), rfl, rfl⟩ rest)
  have haskClient := @indexNumber_eq "\"ask_client_id\":" _ _ haskClient
    (readAfter_number t.lists
      ⟨_, .tail _ (.tail _ (.tail _ (.tail _ (.tail _ (.tail _ (.tail _ (.head _))))))), rfl, rfl⟩
      rest)
  have hbidClient := @indexNumber_eq "\"bid_client_id\":" _ _ hbidClient
    (readAfter_number t.lists
      ⟨_, .tail _ (.tail _ (.tail _ (.tail _ (.tail _ (.tail _ (.tail _ (.tail _ (.head _)))))))),
        rfl, rfl⟩ rest)
  have htime := @timeNumber_eq "\"timestamp\":" _ _ t.timestampFits
    (readAfter_number t.lists
      ⟨_, .tail _ (.tail _ (.tail _ (.tail _ (.tail _ (.tail _ (.tail _ (.tail _ (.tail _
        (.head _))))))))), rfl, rfl⟩ rest)
  simp only [readTrade, hhash, hprice, hsize, hmakerAsk, haskAccount, hbidAccount, haskId, hbidId,
    haskClient, hbidClient, htime, bind, Except.bind, Option.getD_some, Readable]
  by_cases hprice : t.price.InRange
  · by_cases hsize : t.size.InRange
    · simp only [hprice, hsize, and_self, if_true]
      cases hask : t.isMakerAsk with
      | true =>
        by_cases hmaker : (t.askAccountId : Int) = accountIndex
        · simp [MakerIs, fill, hask, hmaker]; rfl
        · simp [MakerIs, hask, hmaker]; rfl
      | false =>
        by_cases hmaker : (t.bidAccountId : Int) = accountIndex
        · simp [MakerIs, fill, hask, hmaker]; rfl
        · simp [MakerIs, hask, hmaker]; rfl
    · simp [hprice, hsize]
  · simp [hprice]

/-- What the loop does where it finds `tx_hash`. -/
def readAt (accountIndex : Int) (s : List Char) : Option (Except String (List LighterTradeFill)) :=
  (Text.readAfter "\"tx_hash\":\"".toList quoted (s.take 1024)).map
    fun _ => (readTrade accountIndex (s.take 1024)).map Option.toList

theorem readAt_record (accountIndex : Int) (hshort : t.record.text.length < 1024)
    (rest : List Char) :
    readAt accountIndex (t.record.fromName ++ '\x7d' :: rest) =
      some (if t.Readable then .ok (if t.MakerIs accountIndex then [t.fill] else [])
        else .error "stod") := by
  obtain ⟨cut, hcut⟩ := take_fromName t.record hshort.le rest
  have hhash : Text.readAfter "\"tx_hash\":\"".toList quoted (t.record.fromName ++ '\x7d' :: cut) =
      some t.txHash :=
    readAfter_name t.record (show inQuotes t.txHash = ['"'] ++ (t.txHash ++ ['"']) from rfl)
      (fun _ _ rest => quoted_append rest t.hashNonempty t.hashUnquoted) cut
  rw [readAt, hcut, hhash, t.readTrade_window]
  split_ifs <;> rfl

end LighterTrade

theorem readTrades_eq_collect (accountIndex : Int) (s : List Char) :
    readTrades accountIndex s =
      collect (inQuotes "tx_hash".toList) (LighterTrade.readAt accountIndex) s := by
  induction s with
  | nil => rfl
  | cons c s ih =>
    rw [readTrades, collect, ← ih, LighterTrade.readAt]
    by_cases hkey : "\"tx_hash\"".toList <+: c :: s
    · rw [if_pos hkey, if_pos (show inQuotes "tx_hash".toList <+: c :: s from hkey)]
      cases Text.readAfter "\"tx_hash\":\"".toList quoted ((c :: s).take 1024) with
      | none => rfl
      | some _ =>
        cases readTrade accountIndex ((c :: s).take 1024) with
        | error e => rfl
        | ok trade => rfl
    · rw [if_neg hkey, if_neg (show ¬ inQuotes "tx_hash".toList <+: c :: s from hkey)]

/-! ## Messages -/

section Markets

variable {keys : List (List Char)} {name : List Char} {ω : Type}

theorem marketIndex_chars {marketIndex : Int} {c : Char} (hc : ¬ c.isDigit) (hminus : c ≠ '-') :
    c ∉ (toString marketIndex).toList :=
  fun hmem => (Text.int_chars hmem).elim hc hminus

theorem marketIndex_plain (marketIndex : Int) : PlainName (toString marketIndex).toList := by
  refine ⟨?_, marketIndex_chars (by decide) (by decide), marketIndex_chars (by decide) (by decide),
    ?_⟩
  · rw [Text.int_toList]
    split_ifs
    · exact List.cons_ne_nil _ _
    · exact Nat.toDigits_ne_nil
  · have hall : separators.all (fun c => ¬ c.isDigit ∧ c ≠ '-') = true := by decide
    refine List.all_eq_true.mpr fun c hc => ?_
    obtain ⟨hdigit, hminus⟩ := of_decide_eq_true (List.all_eq_true.mp hall c hc)
    exact decide_eq_true (marketIndex_chars hdigit hminus)

/-- The array of a market. -/
def marketArray (market : Int × List ω) : Listing ω where
  key := (toString market.1).toList
  plain := (marketIndex_plain market.1).2.1
  items := market.2

theorem arrayKey_eq (marketIndex : Int) :
    arrayKey marketIndex = opening (toString marketIndex).toList := by
  simp [arrayKey, opening, inQuotes]

/-- A message with an array of objects for each market, as Lighter writes it. -/
structure MarketsMessage (record : ω → Record keys name) (channel field : String) where
  header : List Char
  markets : List (Int × List ω)
  footer : List Char
  channelNamed : channel.toList <:+: header ∨ channel.toList <:+: footer
  fieldNamed : inQuotes field.toList <:+: header
  /-- No array under the index of a market stands anywhere else. -/
  onlyMarkets : ∀ marketIndex, ¬ arrayKey marketIndex <:+: header ∧
    ¬ arrayKey marketIndex <:+: footer ∧
    ∀ market ∈ markets, ∀ i ∈ market.2, ¬ arrayKey marketIndex <:+: (record i).text
  onlyObjects : ¬ inQuotes name <:+: footer
  short : ∀ market ∈ markets, ∀ i ∈ market.2, (record i).text.length < 1024

namespace MarketsMessage

variable {record : ω → Record keys name} {channel field : String}
  (msg : MarketsMessage record channel field) (marketIndex : Int)

def text : List Char :=
  msg.header ++ (object ((msg.markets.map marketArray).map (Listing.text record)) ++ msg.footer)

/-- The arrays from the market's own on. -/
def fromMarket : List (Int × List ω) :=
  msg.markets.dropWhile fun market => market.1 ≠ marketIndex

/-- The objects of the market's own array. -/
def own : List ω := (msg.fromMarket marketIndex).head?.elim [] Prod.snd

/-- The arrays behind the market's own. -/
def later : List (Int × List ω) := (msg.fromMarket marketIndex).tail

theorem own_append_later :
    (msg.fromMarket marketIndex).flatMap Prod.snd =
      msg.own marketIndex ++ (msg.later marketIndex).flatMap Prod.snd := by
  rw [own, later]
  cases msg.fromMarket marketIndex with
  | nil => rfl
  | cons market markets => rfl

theorem contains_channel : Text.contains channel.toList msg.text = true := by
  rw [Text.contains_iff, text]
  rcases msg.channelNamed with h | h
  · exact h.trans (List.prefix_append _ _).isInfix
  · exact h.trans ((List.suffix_append _ _).trans (List.suffix_append _ _)).isInfix

theorem contains_field : Text.contains (inQuotes field.toList) msg.text = true := by
  rw [Text.contains_iff, text]
  exact msg.fieldNamed.trans (List.prefix_append _ _).isInfix

theorem silent {market : Int × List ω} (hmarket : market ∈ msg.markets) (marketIndex : Int) :
    (marketArray market).Silent record (toString marketIndex).toList := by
  intro i hi
  rw [← arrayKey_eq]
  exact (msg.onlyMarkets marketIndex).2.2 market hmarket i hi

/-- An array under another index than the market's own. -/
theorem other_array {market : Int × List ω} (hmarket : market ∈ msg.markets)
    (hother : market.1 ≠ marketIndex) :
    (toString marketIndex).toList ≠ (marketArray market).key ∧
      (marketArray market).Silent record (toString marketIndex).toList :=
  ⟨fun h => hother (Text.int_toList_inj h).symm, msg.silent hmarket marketIndex⟩

/-- The market's own array is found, where it is listed. -/
theorem find_fromMarket :
    (msg.fromMarket marketIndex = [] ∧ Text.find (arrayKey marketIndex) msg.text = none) ∨
    ∃ market markets, msg.fromMarket marketIndex = market :: markets ∧
      Text.find (arrayKey marketIndex) msg.text = some ((marketArray market).text record ++
        (joined ((markets.map marketArray).map (Listing.text record)) ++ '\x7d' :: msg.footer)) := by
  let elsewhere : Int × List ω → Bool := fun market => market.1 ≠ marketIndex
  have hsplit : msg.markets.takeWhile elsewhere ++ msg.fromMarket marketIndex = msg.markets :=
    List.takeWhile_append_dropWhile
  have hearlier : ∀ e ∈ (msg.markets.takeWhile elsewhere).map marketArray,
      (toString marketIndex).toList ≠ e.key ∧
        e.Silent record (toString marketIndex).toList := by
    intro e he
    obtain ⟨market, hmarket, rfl⟩ := List.mem_map.mp he
    have helse : elsewhere market = true := List.mem_takeWhile_imp hmarket
    exact msg.other_array marketIndex ((List.takeWhile_sublist _).mem hmarket)
      (of_decide_eq_true helse)
  have hplain := marketIndex_plain marketIndex
  have hheader := (msg.onlyMarkets marketIndex).1
  have hfooter := (msg.onlyMarkets marketIndex).2.1
  rw [arrayKey_eq] at hheader hfooter ⊢
  cases hfrom : msg.fromMarket marketIndex with
  | nil =>
    rw [hfrom, List.append_nil] at hsplit
    rw [hsplit] at hearlier
    exact .inl ⟨rfl, find_entry_none hplain hheader hfooter hearlier⟩
  | cons market markets =>
    refine .inr ⟨market, markets, rfl, ?_⟩
    have hown : market.1 = marketIndex := by
      have hhead := List.head?_dropWhile_not elsewhere msg.markets
      rw [show msg.markets.dropWhile elsewhere = market :: markets from hfrom] at hhead
      simpa [elsewhere] using hhead
    have hkey : (marketArray market).key = (toString marketIndex).toList := by
      rw [← hown]
      rfl
    rw [text, ← hsplit, hfrom, List.map_append, List.map_cons]
    exact find_entry hplain hheader hearlier hkey

variable {ε β : Type} {read : List Char → Option (Except ε (List β))}
  {value : ω → Except ε (List β)}

/-- From the market's key on, the objects of all arrays are collected. -/
theorem collect_fromMarket (hname : PlainName name) (hmem : name ∈ keys)
    (hletter : ∃ c ∈ name, ¬ c.isDigit ∧ c ≠ '-')
    (hread : ∀ market ∈ msg.markets, ∀ i ∈ market.2, ∀ rest,
      read ((record i).fromName ++ '\x7d' :: rest) = some (value i))
    {market : Int × List ω} {markets : List (Int × List ω)}
    (hfrom : msg.fromMarket marketIndex = market :: markets) :
    collect (inQuotes name) read ((marketArray market).text record ++
        (joined ((markets.map marketArray).map (Listing.text record)) ++ '\x7d' :: msg.footer)) =
      gather value (.ok []) ((msg.fromMarket marketIndex).flatMap Prod.snd) := by
  have hne (market : Int × List ω) : name ≠ (marketArray market).key := by
    rintro rfl
    obtain ⟨c, hc, hdigit, hminus⟩ := hletter
    exact marketIndex_chars hdigit hminus hc
  have hmarkets : ∀ m ∈ market :: markets, m ∈ msg.markets :=
    fun m hm => (List.dropWhile_sublist _).mem (hfrom ▸ hm)
  obtain ⟨hmarket, hmarkets⟩ := List.forall_mem_cons.mp hmarkets
  have hfooter : collect (inQuotes name) read ('\x7d' :: msg.footer) = .ok [] := by
    rw [collect_separator hname (by decide), collect_silent msg.onlyObjects]
  have hlater := collect_entries hname hmem
    (List.forall_mem_map.mpr fun m _ => hne m)
    (List.forall_mem_map.mpr fun m hm => hread m (hmarkets m hm)) ('\x7d' :: msg.footer)
  have hall := collect_entry hname hmem (hne market) (hread market hmarket)
    (joined ((markets.map marketArray).map (Listing.text record)) ++ '\x7d' :: msg.footer)
  rw [hall, hlater, hfooter, hfrom, List.flatMap_cons, gather_append, List.flatMap_map]
  rfl

end MarketsMessage

end Markets

/-! ## Market boundaries -/

abbrev AccountOrders := MarketsMessage LighterOrder.record "account_orders:" "orders"

abbrev AccountTrades := MarketsMessage LighterTrade.record "account_all_trades:" "trades"

/-- The fills of the trades in which the account was the maker. -/
def makerFills (accountIndex : Int) (trades : List LighterTrade) : List LighterTradeFill :=
  (trades.filter fun t => t.MakerIs accountIndex).map LighterTrade.fill

theorem makerFills_eq_flatMap (accountIndex : Int) (trades : List LighterTrade) :
    makerFills accountIndex trades =
      trades.flatMap fun t => if t.MakerIs accountIndex then [t.fill] else [] := by
  induction trades with
  | nil => rfl
  | cons t trades ih =>
    rw [List.flatMap_cons, ← ih, makerFills, makerFills, List.filter_cons]
    by_cases hmaker : t.MakerIs accountIndex
    · simp [hmaker]
    · simp [hmaker]

theorem makerFills_eq_nil_iff {accountIndex : Int} {trades : List LighterTrade} :
    makerFills accountIndex trades = [] ↔ ∀ t ∈ trades, ¬ t.MakerIs accountIndex := by
  simp [makerFills, List.filter_eq_nil_iff]

/-- The orders of the own array are followed by those of every later one. -/
theorem parseLighterOrderUpdates_text (msg : AccountOrders) (marketIndex : Int) :
    parseLighterOrderUpdates msg.text marketIndex =
      gather (fun o => if o.Readable then .ok [o.update] else .error "stod") (.ok [])
        (msg.own marketIndex ++ (msg.later marketIndex).flatMap Prod.snd) := by
  have hread : ∀ market ∈ msg.markets, ∀ o ∈ market.2, ∀ rest,
      LighterOrder.readAt (o.record.fromName ++ '\x7d' :: rest) =
        some (if o.Readable then .ok [o.update] else .error "stod") :=
    fun market hmarket o ho => o.readAt_record (msg.short market hmarket o ho)
  have hgate : ¬ (¬ Text.contains "account_orders:".toList msg.text ∨
      ¬ Text.contains "\"orders\"".toList msg.text) :=
    not_or.mpr ⟨not_not.mpr msg.contains_channel, not_not.mpr msg.contains_field⟩
  rw [parseLighterOrderUpdates, if_neg hgate, ← msg.own_append_later]
  rcases msg.find_fromMarket marketIndex with ⟨hfrom, hfind⟩ | ⟨market, markets, hfrom, hfind⟩
  · rw [hfind, hfrom]
    rfl
  · rw [hfind]
    simp only [readOrders_eq_collect]
    exact msg.collect_fromMarket marketIndex (by decide) (by decide)
      ⟨'o', by decide, by decide, by decide⟩ hread hfrom

theorem parseLighterAccountTrades_text (msg : AccountTrades) (accountIndex marketIndex : Int) :
    parseLighterAccountTrades msg.text accountIndex marketIndex =
      gather (fun t => if t.Readable then .ok (if t.MakerIs accountIndex then [t.fill] else [])
          else .error "stod") (.ok [])
        (msg.own marketIndex ++ (msg.later marketIndex).flatMap Prod.snd) := by
  have hread : ∀ market ∈ msg.markets, ∀ t ∈ market.2, ∀ rest,
      LighterTrade.readAt accountIndex (t.record.fromName ++ '\x7d' :: rest) =
        some (if t.Readable then .ok (if t.MakerIs accountIndex then [t.fill] else [])
          else .error "stod") :=
    fun market hmarket t ht => t.readAt_record accountIndex (msg.short market hmarket t ht)
  have hgate : ¬ (¬ Text.contains "account_all_trades:".toList msg.text ∨
      ¬ Text.contains "\"trades\"".toList msg.text) :=
    not_or.mpr ⟨not_not.mpr msg.contains_channel, not_not.mpr msg.contains_field⟩
  rw [parseLighterAccountTrades, if_neg hgate, ← msg.own_append_later]
  rcases msg.find_fromMarket marketIndex with ⟨hfrom, hfind⟩ | ⟨market, markets, hfrom, hfind⟩
  · rw [hfind, hfrom]
    rfl
  · rw [hfind]
    simp only [readTrades_eq_collect]
    exact msg.collect_fromMarket marketIndex (by decide) (by decide)
      ⟨'t', by decide, by decide, by decide⟩ hread hfrom

/-- Exactly the own market's objects are read when a double can hold their numbers and no array
behind the market's own has an object to report. A trade throws whoever its maker is. -/
theorem market_boundaries_iff (orders : AccountOrders) (trades : AccountTrades)
    (accountIndex marketIndex : Int) :
    (parseLighterOrderUpdates orders.text marketIndex =
        .ok ((orders.own marketIndex).map LighterOrder.update) ↔
      (∀ o ∈ orders.own marketIndex, o.Readable) ∧
        ∀ market ∈ orders.later marketIndex, market.2 = []) ∧
    (parseLighterAccountTrades trades.text accountIndex marketIndex =
        .ok (makerFills accountIndex (trades.own marketIndex)) ↔
      (∀ t ∈ trades.own marketIndex, t.Readable) ∧
        ∀ market ∈ trades.later marketIndex, ∀ t ∈ market.2,
          t.Readable ∧ ¬ t.MakerIs accountIndex) := by
  constructor
  · rw [parseLighterOrderUpdates_text, gather_eq_ok_iff, List.flatMap_append,
      ← List.map_eq_flatMap, List.append_right_eq_self, List.forall_mem_append]
    simp only [← List.map_eq_flatMap, List.map_eq_nil_iff, List.flatMap_eq_nil_iff]
    constructor
    · rintro ⟨⟨hown, -⟩, hlater⟩
      exact ⟨hown, hlater⟩
    · rintro ⟨hown, hlater⟩
      refine ⟨⟨hown, fun o ho => ?_⟩, hlater⟩
      obtain ⟨market, hmarket, ho⟩ := List.mem_flatMap.mp ho
      rw [hlater market hmarket] at ho
      cases ho
  · rw [parseLighterAccountTrades_text, gather_eq_ok_iff, List.flatMap_append,
      ← makerFills_eq_flatMap, ← makerFills_eq_flatMap, List.append_right_eq_self,
      List.forall_mem_append, makerFills_eq_nil_iff]
    constructor
    · rintro ⟨⟨hown, hreadable⟩, hlater⟩
      refine ⟨hown, fun market hmarket t ht => ?_⟩
      have hmem : t ∈ (trades.later marketIndex).flatMap Prod.snd :=
        List.mem_flatMap.mpr ⟨market, hmarket, ht⟩
      exact ⟨hreadable t hmem, hlater t hmem⟩
    · rintro ⟨hown, hlater⟩
      have hall : ∀ t ∈ (trades.later marketIndex).flatMap Prod.snd,
          t.Readable ∧ ¬ t.MakerIs accountIndex := by
        intro t ht
        obtain ⟨market, hmarket, ht⟩ := List.mem_flatMap.mp ht
        exact hlater market hmarket t ht
      exact ⟨⟨hown, fun t ht => (hall t ht).1⟩, fun t ht => (hall t ht).2⟩

/-! An order of market 24, and an order of market 25 behind it. -/

/-- `1.5` -/
def onePointFive : Text.Decimal := .ofDigits ['1'] ['5'] (by decide)

def openOrder (clientOrderIndex : Nat) (isAsk : Bool) : LighterOrderMembers where
  clientOrderIndex
  isAsk
  price := onePointFive
  remainingBaseAmount := onePointFive
  filledBaseAmount := onePointFive
  status := "open".toList
  statusUnquoted := by decide
  statusFresh := by decide

def ownOrder : LighterOrder where
  toLighterOrderMembers := openOrder 5 true
  orderIndex := 711
  back := (openOrder 5 true).fields
  orderIndexFits := by decide
  clientOrderIndexFits := by decide
  statusNonempty := by decide
  anyOrder := by rw [List.map_nil, List.append_nil]

def foreignOrder : LighterOrder where
  toLighterOrderMembers := openOrder 6 false
  orderIndex := 712
  back := (openOrder 6 false).fields
  orderIndexFits := by decide
  clientOrderIndexFits := by decide
  statusNonempty := by decide
  anyOrder := by rw [List.map_nil, List.append_nil]

theorem arrayKey_absent {s : List Char} (h : '[' ∉ s) (marketIndex : Int) :
    ¬ arrayKey marketIndex <:+: s := by
  intro hkey
  refine h (hkey.subset ?_)
  rw [arrayKey_eq]
  simp [opening]

theorem ownOrder_text : '[' ∉ ownOrder.record.text ∧ ownOrder.record.text.length < 1024 := by
  decide +kernel

theorem foreignOrder_text :
    '[' ∉ foreignOrder.record.text ∧ foreignOrder.record.text.length < 1024 := by
  decide +kernel

def twoMarkets : AccountOrders where
  header := "\x7b\"channel\":\"account_orders:24\",\"orders\":".toList
  markets := [(24, [ownOrder]), (25, [foreignOrder])]
  footer := "\x7d".toList
  channelNamed := .inl (by decide)
  fieldNamed := by decide
  onlyMarkets := fun marketIndex => ⟨arrayKey_absent (by decide) marketIndex,
    arrayKey_absent (by decide) marketIndex, by
      simp only [List.forall_mem_cons]
      exact ⟨⟨arrayKey_absent ownOrder_text.1 marketIndex, nofun⟩,
        ⟨arrayKey_absent foreignOrder_text.1 marketIndex, nofun⟩, nofun⟩⟩
  onlyObjects := by decide
  short := by
    simp only [List.forall_mem_cons]
    exact ⟨⟨ownOrder_text.2, nofun⟩, ⟨foreignOrder_text.2, nofun⟩, nofun⟩

theorem onePointFive_inRange : onePointFive.InRange := by
  decide +kernel

theorem foreign_order_read :
    twoMarkets.own 24 = [ownOrder] ∧
      parseLighterOrderUpdates twoMarkets.text 24 = .ok [ownOrder.update, foreignOrder.update] ∧
      foreignOrder.update ≠ ownOrder.update := by
  refine ⟨rfl, ?_, by decide⟩
  have hreadable : ∀ o ∈ [ownOrder, foreignOrder], o.Readable := by
    simp only [List.forall_mem_cons]
    exact ⟨⟨onePointFive_inRange, onePointFive_inRange, onePointFive_inRange⟩,
      ⟨onePointFive_inRange, onePointFive_inRange, onePointFive_inRange⟩, nofun⟩
  rw [parseLighterOrderUpdates_text]
  exact gather_eq_ok_iff.mpr ⟨hreadable, rfl⟩

end Arb
