import HlLighterArb.Hl.FillFeed

/-!
# HlLighterArb.Hl.TradeFeed

The public trades of Hyperliquid: reading a `trades` message. JSON leaves the order of the members
of an object open.

* `readHlTrade`: one round of the loop of `parse_hl_trades`; `hlTradesFrom`: the loop.
* `HlTrade`: a trade as the exchange writes it, its members in some order.
* `nextTrade`, `scan`: the loop on the members of a message, whatever object they belong to;
  `hlTradesFrom_spread`: it reads what the loop on the text reads.
* `parseHlTrades_own_iff`: when every trade is read with its own fields.
-/

namespace Arb

open KeyText

/-! ## Reading a message -/

/-- The time at `time_pos` in milliseconds, zero where there is none or `std::stoull` throws. -/
def readTime (timePos : Option (List Char)) : Nat :=
  match timePos with
  | none => 0
  | some pos =>
    match Text.after [':'] (pos.drop 5) with
    | none => 0
    | some value => (Text.stoul 10 (value.dropWhile (· = ' '))).getD 0

/-- A `TradeEvent` as it is read. -/
structure ParsedTrade where
  coin : String
  price : Double := .number 0
  size : Double := .number 0
  isBuy : Bool := true
  timestampNs : Nat := 0
  exchangeTimeMs : Nat := 0
  deriving DecidableEq

/-- The trade as the engine takes it, if its price and size are numbers. -/
def ParsedTrade.event? (trade : ParsedTrade) : Option TradeEvent := do
  let price ← trade.price.number?
  let size ← trade.size.number?
  return { coin := trade.coin, price, size, isBuy := trade.isBuy
           timestampNs := trade.timestampNs, exchangeTimeMs := trade.exchangeTimeMs }

/-- The next trade from a position on, and where to search for the one behind it. -/
def readHlTrade (coin : String) (timestampNs : Nat) (s : List Char) :
    Option (ParsedTrade × List Char) := do
  let (price, size, se) ← readQuantities s
  let sidePos := Text.find (inQuotes "side".toList) se
  let timePos := Text.find (inQuotes "time".toList) (sidePos.getD se)
  let trade : ParsedTrade :=
    { coin, price, size, isBuy := readSide sidePos, timestampNs
      exchangeTimeMs := readTime timePos }
  return (trade, se.drop 1)

theorem readHlTrade_shorter {coin : String} {timestampNs : Nat} {s rest : List Char}
    {trade : ParsedTrade} (h : readHlTrade coin timestampNs s = some (trade, rest)) :
    rest.length < s.length := by
  simp only [readHlTrade, bind, Option.bind_eq_some_iff] at h
  obtain ⟨⟨price, size, se⟩, hquantities, hpair⟩ := h
  cases hpair
  obtain ⟨hse, hne⟩ := readQuantities_eq_some hquantities
  have hle : se.length ≤ s.length := hse.length_le
  have hpos : 0 < se.length := List.length_pos_iff.mpr hne
  show (se.drop 1).length < s.length
  rw [List.length_drop]
  omega

/-- `clock` are the readings of the local clock, one for each trade. -/
def hlTradesFrom (coin : String) (clock : Nat → Nat) (round : Nat) (s : List Char) :
    List ParsedTrade :=
  match _h : readHlTrade coin (clock round) s with
  | none => []
  | some (trade, rest) => trade :: hlTradesFrom coin clock (round + 1) rest
termination_by s.length
decreasing_by exact readHlTrade_shorter _h

/-- No trades stands for `false`. -/
def parseHlTrades (targetCoin : String) (clock : Nat → Nat) (msg : List Char) : List ParsedTrade :=
  if ¬ Text.contains (inQuotes "trades".toList) msg ∨
      ¬ Text.contains ("\"coin\":\"" ++ targetCoin ++ "\"").toList msg then []
  else match Text.find (inQuotes "trades".toList) msg with
    | none => []
    | some pos => hlTradesFrom targetCoin clock 0 pos

theorem hlTradesFrom_none {coin : String} {clock : Nat → Nat} {round : Nat} {s : List Char}
    (h : readHlTrade coin (clock round) s = none) : hlTradesFrom coin clock round s = [] := by
  rw [hlTradesFrom]
  split
  · rfl
  · rename_i heq
    cases h.symm.trans heq

theorem hlTradesFrom_some {coin : String} {clock : Nat → Nat} {round : Nat} {s rest : List Char}
    {trade : ParsedTrade} (h : readHlTrade coin (clock round) s = some (trade, rest)) :
    hlTradesFrom coin clock round s = trade :: hlTradesFrom coin clock (round + 1) rest := by
  rw [hlTradesFrom]
  split
  · rename_i heq
    cases h.symm.trans heq
  · rename_i heq
    cases h.symm.trans heq
    rfl

/-! ## The message -/

def tradeKeys : List (List Char) := ["px", "sz", "side", "time"].map String.toList

theorem tradeKeys_plain : ∀ name ∈ tradeKeys, PlainName name := by
  decide

inductive TradeMember where
  | px (d : Text.Decimal)
  | sz (d : Text.Decimal)
  | side (isBuy : Bool)
  | time (ms : UInt64)
  | other (m : Member tradeKeys)
  deriving DecidableEq

namespace TradeMember

def key : TradeMember → List Char
  | .px _ => "px".toList
  | .sz _ => "sz".toList
  | .side _ => "side".toList
  | .time _ => "time".toList
  | .other m => m.key

def value : TradeMember → List Char
  | .px d => inQuotes d.text
  | .sz d => inQuotes d.text
  | .side isBuy => inQuotes (sideName isBuy)
  | .time ms => Nat.toDigits 10 ms.toNat
  | .other m => m.value

theorem key_plain (m : TradeMember) : '"' ∉ m.key := by
  cases m with
  | px _ => exact show '"' ∉ "px".toList by decide
  | sz _ => exact show '"' ∉ "sz".toList by decide
  | side _ => exact show '"' ∉ "side".toList by decide
  | time _ => exact show '"' ∉ "time".toList by decide
  | other m => exact m.plain

theorem value_silent (m : TradeMember) {name : List Char} (hname : name ∈ tradeKeys) :
    ¬ inQuotes name <:+: m.value := by
  have hquote := (tradeKeys_plain name hname).2.1
  have hdecimal (d : Text.Decimal) : ¬ inQuotes name <:+: inQuotes d.text := by
    rw [inQuotes_infix_iff hquote d.unquoted]
    rintro rfl
    exact decimal_not_mem (by decide) d hname
  cases m with
  | px d => exact hdecimal d
  | sz d => exact hdecimal d
  | side isBuy =>
    rw [value, inQuotes_infix_iff hquote (sideName_unquoted isBuy)]
    rintro rfl
    revert hname
    cases isBuy <;> decide
  | time ms =>
    refine not_infix_of_unquoted fun h => ?_
    exact absurd (Nat.isDigit_of_mem_toDigits (by decide) (by decide) h) (by decide)
  | other m => exact m.silent name hname

def field (m : TradeMember) : Field tradeKeys where
  key := m.key
  value := m.value
  plain := m.key_plain
  silent := fun _ hname => m.value_silent hname

def px? : TradeMember → Option Text.Decimal
  | .px d => some d
  | _ => none

def sz? : TradeMember → Option Text.Decimal
  | .sz d => some d
  | _ => none

def side? : TradeMember → Option Bool
  | .side isBuy => some isBuy
  | _ => none

def time? : TradeMember → Option Nat
  | .time ms => some ms.toNat
  | _ => none

end TradeMember

/-- A trade as the exchange writes it, its members in any order. -/
structure HlTrade where
  px : Text.Decimal
  sz : Text.Decimal
  isBuy : Bool
  timeMs : UInt64
  others : List (Member tradeKeys) := []
  members : List TradeMember
  anyOrder : members.Perm
    ([.px px, .sz sz, .side isBuy, .time timeMs] ++ others.map TradeMember.other)

def HlTrade.text (t : HlTrade) : List Char := object (t.members.map fun m => m.field.text)

/-- What a trade tells apart from its coin and the local time. -/
structure TradeReading where
  price : Double
  size : Double
  isBuy : Bool
  exchangeTimeMs : Nat
  deriving DecidableEq

def ParsedTrade.reading (trade : ParsedTrade) : TradeReading where
  price := trade.price
  size := trade.size
  isBuy := trade.isBuy
  exchangeTimeMs := trade.exchangeTimeMs

def HlTrade.reading (t : HlTrade) : TradeReading where
  price := .number t.px.value
  size := .number t.sz.value
  isBuy := t.isBuy
  exchangeTimeMs := t.timeMs.toNat

/-! ## The loop on members -/

/-- What a round reads behind the size. -/
def readingAt (px sz : Text.Decimal) (ms : List TradeMember) : TradeReading :=
  let side := firstAfter TradeMember.side? ms
  let time := firstAfter TradeMember.time? (side.elim ms (·.2))
  { price := .number px.value, size := .number sz.value, isBuy := side.elim true (·.1)
    exchangeTimeMs := time.elim 0 (·.1) }

/-- A round of the loop on the members of a message. -/
def nextTrade (ms : List TradeMember) : Option (TradeReading × List TradeMember) := do
  let (px, ms) ← firstAfter TradeMember.px? ms
  let (sz, ms) ← firstAfter TradeMember.sz? ms
  if px.InRange ∧ sz.InRange then some (readingAt px sz ms, ms) else none

theorem nextTrade_eq_some {ms rest : List TradeMember} {r : TradeReading}
    (h : nextTrade ms = some (r, rest)) :
    ∃ px behindPx sz, firstAfter TradeMember.px? ms = some (px, behindPx) ∧
      firstAfter TradeMember.sz? behindPx = some (sz, rest) ∧ (px.InRange ∧ sz.InRange) ∧
        r = readingAt px sz rest := by
  simp only [nextTrade, bind, Option.bind_eq_some_iff] at h
  obtain ⟨⟨px, behindPx⟩, hpx, ⟨sz, behindSz⟩, hsz, hpair⟩ := h
  split_ifs at hpair with hrange
  cases hpair
  exact ⟨px, behindPx, sz, hpx, hsz, hrange, rfl⟩

theorem nextTrade_shorter {ms rest : List TradeMember} {r : TradeReading}
    (h : nextTrade ms = some (r, rest)) : rest.length < ms.length := by
  obtain ⟨px, behindPx, sz, hpx, hsz, -, -⟩ := nextTrade_eq_some h
  obtain ⟨_, _, rfl, -⟩ := firstAfter_eq_some hpx
  obtain ⟨_, _, rfl, -⟩ := firstAfter_eq_some hsz
  simp only [List.length_append, List.length_cons]
  omega

def scan (ms : List TradeMember) : List TradeReading :=
  match _h : nextTrade ms with
  | none => []
  | some (r, rest) => r :: scan rest
termination_by ms.length
decreasing_by exact nextTrade_shorter _h

section Spread

open TradeMember

variable {ms post : List TradeMember} {before text : List Char}

/-- `f` reads the members with the key `name` and no others. -/
def Reads {β : Type} (name : String) (f : TradeMember → Option β) : Prop :=
  name.toList ∈ tradeKeys ∧ ∀ m : TradeMember, m.key = name.toList ↔ f m ≠ none

theorem key_eq_iff (m : TradeMember) :
    (m.key = "px".toList ↔ px? m ≠ none) ∧ (m.key = "sz".toList ↔ sz? m ≠ none) ∧
      (m.key = "side".toList ↔ side? m ≠ none) ∧ (m.key = "time".toList ↔ time? m ≠ none) := by
  cases m with
  | other m =>
    have hne : ∀ name ∈ tradeKeys, m.key ≠ name := fun name hname heq => m.fresh (heq ▸ hname)
    refine ⟨?_, ?_, ?_, ?_⟩
    all_goals exact ⟨fun h => absurd h (hne _ (by decide)), fun h => absurd rfl h⟩
  | _ => simp [key, px?, sz?, side?, time?]

theorem reads_px : ReadsNumbers field "px" px? where
  mem := by decide
  plain := by decide
  key := fun m => (key_eq_iff m).1
  value := by
    rintro (d | d | isBuy | ms | m) x h <;> cases h
    rfl

theorem reads_sz : ReadsNumbers field "sz" sz? where
  mem := by decide
  plain := by decide
  key := fun m => (key_eq_iff m).2.1
  value := by
    rintro (d | d | isBuy | ms | m) x h <;> cases h
    rfl

theorem reads_side : Reads "side" side? := ⟨by decide, fun m => (key_eq_iff m).2.2.1⟩

theorem reads_time : Reads "time" time? := ⟨by decide, fun m => (key_eq_iff m).2.2.2⟩

section Find

variable {β : Type} {name : String} {f : TradeMember → Option β} {b : β}

theorem find_members_none (hf : Reads name f) (hbefore : ¬ inQuotes name.toList <:+: before)
    (h : Spread field ms text) (hnone : firstAfter f ms = none) :
    Text.find (inQuotes name.toList) (before ++ text) = none := by
  refine find_spread_none (tradeKeys_plain _ hf.1) hf.1 hbefore h fun m hm hkey => ?_
  exact (hf.2 m).mp hkey (firstAfter_eq_none_iff.mp hnone m hm)

theorem find_members_some (hf : Reads name f) (hbefore : ¬ inQuotes name.toList <:+: before)
    (h : Spread field ms text) (hsome : firstAfter f ms = some (b, post)) :
    ∃ m rest, f m = some b ∧
      Text.find (inQuotes name.toList) (before ++ text) =
        some (member name.toList m.value ++ rest) ∧ Spread field post rest := by
  obtain ⟨earlier, m, rfl, hearlier, hm⟩ := firstAfter_eq_some hsome
  have hkey : m.key = name.toList := (hf.2 m).mpr (by rw [hm]; exact Option.some_ne_none b)
  obtain ⟨rest, hfind, hpost⟩ := find_spread_some (tradeKeys_plain _ hf.1) hf.1 hbefore h
    (fun n hn hkey => (hf.2 n).mp hkey (hearlier n hn)) hkey
  refine ⟨m, rest, hm, ?_, hpost⟩
  rw [hfind, Field.text]
  exact congrArg (fun key => some (member key m.value ++ rest)) hkey

end Find

/-- Price and size are the first price, and the first size behind it, when both are in range. -/
theorem readQuantities_found {behindPx behindSz : List TradeMember} {px sz : Text.Decimal}
    (hbefore : ¬ inQuotes "px".toList <:+: before) (h : Spread field ms text)
    (hpx : firstAfter px? ms = some (px, behindPx))
    (hsz : firstAfter sz? behindPx = some (sz, behindSz)) :
    ∃ rest, readQuantities (before ++ text) =
        (if px.InRange ∧ sz.InRange then some (.number px.value, .number sz.value, '"' :: rest)
        else none) ∧
      Spread field behindSz rest := by
  obtain ⟨fromPx, hpx, hspread⟩ := stringAfter_number_some reads_px hbefore h hpx
  obtain ⟨rest, hsz, hpost⟩ := stringAfter_number_some reads_sz (not_infix_quote (by decide))
    hspread hsz
  rw [List.singleton_append] at hsz
  refine ⟨rest, ?_, hpost⟩
  simp only [readQuantities, hpx, hsz, bind, Option.bind_some]
  exact bind_inRange px sz _

theorem readQuantities_none (hbefore : ¬ inQuotes "px".toList <:+: before)
    (h : Spread field ms text)
    (hnone : ((firstAfter px? ms).bind fun x => firstAfter sz? x.2) = none) :
    readQuantities (before ++ text) = none := by
  cases hpx : firstAfter px? ms with
  | none =>
    simp only [readQuantities, stringAfter_number_none reads_px hbefore h hpx, bind,
      Option.bind_none]
  | some found =>
    obtain ⟨px, behindPx⟩ := found
    rw [hpx] at hnone
    obtain ⟨fromPx, hpx, hspread⟩ := stringAfter_number_some reads_px hbefore h hpx
    have hsz := stringAfter_number_none reads_sz (not_infix_quote (by decide)) hspread hnone
    rw [List.singleton_append] at hsz
    simp only [readQuantities, hpx, hsz, bind, Option.bind_some, Option.bind_none]
    cases Text.stod px.text <;> rfl

/-- The time of a member is read when a separator follows. -/
theorem readTime_member (ms : UInt64) {c : Char} (hc : c ∈ separators) (rest : List Char) :
    readTime (some (member "time".toList (Nat.toDigits 10 ms.toNat) ++ c :: rest)) = ms.toNat := by
  have hafter : Text.after [':']
      ((member "time".toList (Nat.toDigits 10 ms.toNat) ++ c :: rest).drop 5) =
        some (Nat.toDigits 10 ms.toNat ++ c :: rest) := by
    have hfind := @find_char ['"'] ':' (by decide) (Nat.toDigits 10 ms.toNat ++ c :: rest)
    exact congrArg (Option.map _) hfind
  have hstart : (Nat.toDigits 10 ms.toNat ++ c :: rest).dropWhile (· = ' ') =
      Nat.toDigits 10 ms.toNat ++ c :: rest := by
    cases hcons : Nat.toDigits 10 ms.toNat with
    | nil => exact absurd hcons Nat.toDigits_ne_nil
    | cons d ds =>
      have hd : d.isDigit = true := Nat.isDigit_of_mem_toDigits (by decide) (by decide)
        (hcons ▸ List.mem_cons_self ..)
      rw [List.cons_append, List.dropWhile_cons_of_neg]
      rw [decide_eq_true_eq]
      rintro rfl
      revert hd
      decide
  have hall : separators.all (fun c => (Text.digitValue 10 c).isNone) = true := by decide
  have hstop : ∀ d ∈ (c :: rest).head?, Text.digitValue 10 d = none := by
    simpa using List.all_eq_true.mp hall c hc
  have hvalue := Text.stoul_toDigits_append ms.toNat_lt hstop
  simp only [readTime, hafter, hstart, hvalue, Option.getD_some]

/-- The side is the first one behind the size. -/
theorem side_spread (h : Spread field ms text) :
    readSide (Text.find (inQuotes "side".toList) ('"' :: text)) =
      (firstAfter side? ms).elim true (·.1) := by
  cases hside : firstAfter side? ms with
  | none =>
    have hfind := find_members_none reads_side (not_infix_quote (by decide)) h hside
    rw [List.singleton_append] at hfind
    rw [hfind]
    rfl
  | some found =>
    obtain ⟨isBuy, behind⟩ := found
    obtain ⟨m, rest, hm, hfind, -⟩ :=
      find_members_some reads_side (not_infix_quote (by decide)) h hside
    rw [List.singleton_append] at hfind
    rw [hfind]
    cases m with
    | side b =>
      cases hm
      exact readSide_member isBuy rest
    | _ => cases hm

/-- Behind any text without one, the first time is read. -/
theorem readTime_spread (hbefore : ¬ inQuotes "time".toList <:+: before)
    (h : Spread field ms text) :
    readTime (Text.find (inQuotes "time".toList) (before ++ text)) =
      (firstAfter time? ms).elim 0 (·.1) := by
  cases htime : firstAfter time? ms with
  | none =>
    rw [find_members_none reads_time hbefore h htime]
    rfl
  | some found =>
    obtain ⟨ms, behind⟩ := found
    obtain ⟨m, rest, hm, hfind, hspread⟩ := find_members_some reads_time hbefore h htime
    obtain ⟨c, rest, rfl, hc⟩ := hspread.head
    rw [hfind]
    cases m with
    | time ms =>
      cases hm
      exact readTime_member ms hc rest
    | _ => cases hm

/-- The time is the first one behind the side, or behind the size when no side follows. -/
theorem time_spread (h : Spread field ms text) :
    readTime (Text.find (inQuotes "time".toList)
      ((Text.find (inQuotes "side".toList) ('"' :: text)).getD ('"' :: text))) =
        (firstAfter time? ((firstAfter side? ms).elim ms (·.2))).elim 0 (·.1) := by
  cases hside : firstAfter side? ms with
  | none =>
    have hfind := find_members_none reads_side (not_infix_quote (by decide)) h hside
    rw [List.singleton_append] at hfind
    rw [hfind]
    exact @readTime_spread ms ['"'] text (not_infix_quote (by decide)) h
  | some found =>
    obtain ⟨isBuy, behind⟩ := found
    obtain ⟨m, rest, hm, hfind, hspread⟩ :=
      find_members_some reads_side (not_infix_quote (by decide)) h hside
    rw [List.singleton_append] at hfind
    have hkey : m.key = "side".toList := (reads_side.2 m).mpr (by simp [hm])
    have hbefore : ¬ inQuotes "time".toList <:+: member "side".toList m.value := by
      rw [← hkey]
      exact m.field.silent_text (tradeKeys_plain _ (by decide)) (by decide)
        (by rw [show m.field.key = m.key from rfl, hkey]; decide)
    rw [hfind]
    exact readTime_spread hbefore hspread

variable {coin : String} {clock : Nat → Nat}

/-- A round of the loop on the text is one on the members in it. -/
theorem readHlTrade_some {r : TradeReading} (timestampNs : Nat)
    (hbefore : ¬ inQuotes "px".toList <:+: before) (h : Spread field ms text)
    (hnext : nextTrade ms = some (r, post)) :
    ∃ trade rest, readHlTrade coin timestampNs (before ++ text) = some (trade, rest) ∧
      trade.reading = r ∧ Spread field post rest := by
  obtain ⟨px, behindPx, sz, hpx, hsz, hrange, rfl⟩ := nextTrade_eq_some hnext
  obtain ⟨rest, hquantities, hspread⟩ := readQuantities_found hbefore h hpx hsz
  rw [if_pos hrange] at hquantities
  simp only [readHlTrade, hquantities, bind, Option.bind_some]
  refine ⟨_, _, rfl, ?_, hspread⟩
  simp only [ParsedTrade.reading, readingAt, side_spread hspread, time_spread hspread]

theorem readHlTrade_none (timestampNs : Nat) (hbefore : ¬ inQuotes "px".toList <:+: before)
    (h : Spread field ms text) (hnext : nextTrade ms = none) :
    readHlTrade coin timestampNs (before ++ text) = none := by
  have hnone : readQuantities (before ++ text) = none := by
    cases hpx : firstAfter px? ms with
    | none => exact readQuantities_none hbefore h (by rw [hpx]; rfl)
    | some found =>
      cases hsz : firstAfter sz? found.2 with
      | none => exact readQuantities_none hbefore h (by rw [hpx]; exact hsz)
      | some last =>
        obtain ⟨rest, hquantities, -⟩ := readQuantities_found hbefore h hpx hsz
        rw [hquantities]
        simpa [nextTrade, hpx, hsz] using hnext
  simp only [readHlTrade, hnone, bind, Option.bind_none]

/-- The loop on the text reads what the loop on its members reads. -/
theorem hlTradesFrom_spread (round : Nat) (hbefore : ¬ inQuotes "px".toList <:+: before)
    (h : Spread field ms text) :
    (hlTradesFrom coin clock round (before ++ text)).map ParsedTrade.reading = scan ms := by
  fun_induction scan ms generalizing before text round with
  | case1 ms hnext =>
    rw [hlTradesFrom_none (readHlTrade_none _ hbefore h hnext), List.map_nil]
  | case2 ms r rest hnext ih =>
    obtain ⟨trade, behind, hread, rfl, hspread⟩ := readHlTrade_some _ hbefore h hnext
    rw [hlTradesFrom_some hread, List.map_cons]
    have hnil : ¬ inQuotes "px".toList <:+: [] := by decide
    rw [← ih (round + 1) hnil hspread, List.nil_append]

end Spread

/-! ## Trades and their members -/

namespace HlTrade

open TradeMember

variable (t : HlTrade)

/-- What is behind the size, and behind the side, in the trade itself. -/
def behindSize : List TradeMember := (firstAfter sz? t.members).elim [] (·.2)

def behindSide : List TradeMember := (firstAfter side? t.members).elim [] (·.2)

/-- `m` stands in front of `n`. -/
def Before (m n : TradeMember) : Prop := [m, n].Sublist t.members

instance (m n : TradeMember) : Decidable (t.Before m n) :=
  inferInstanceAs (Decidable ([m, n].Sublist t.members))

theorem readings_once :
    t.members.filterMap px? = [t.px] ∧ t.members.filterMap sz? = [t.sz] ∧
      t.members.filterMap side? = [t.isBuy] ∧ t.members.filterMap time? = [t.timeMs.toNat] := by
  have hothers {β : Type} {f : TradeMember → Option β} (hf : ∀ m, f (.other m) = none) :
      (t.others.map other).filterMap f = [] := by
    simp [hf]
  refine ⟨?_, ?_, ?_, ?_⟩
  all_goals
    refine List.perm_singleton.mp ((t.anyOrder.filterMap _).trans ?_)
    rw [List.filterMap_append, hothers fun _ => rfl]
    exact .refl _

/-- The only member of a kind stands at one place. -/
theorem split {β : Type} {f : TradeMember → Option β} {b : β} {m : TradeMember}
    (honce : t.members.filterMap f = [b]) (hmem : m ∈ t.members) (hm : f m = some b) :
    ∃ earlier later, t.members = earlier ++ m :: later ∧ (∀ n ∈ earlier, f n = none) ∧
      ∀ n ∈ later, f n = none := by
  obtain ⟨earlier, n, later, hmembers, hearlier, -, hlater⟩ := List.filterMap_eq_cons_iff.mp honce
  have hnone := List.filterMap_eq_nil_iff.mp hlater
  refine ⟨earlier, later, ?_, hearlier, hnone⟩
  rw [hmembers] at hmem ⊢
  rcases List.mem_append.mp hmem with h | h
  · cases hm.symm.trans (hearlier m h)
  · rcases List.mem_cons.mp h with rfl | h
    · rfl
    · cases hm.symm.trans (hnone m h)

theorem mem_members : .px t.px ∈ t.members ∧ .sz t.sz ∈ t.members ∧ .side t.isBuy ∈ t.members ∧
    .time t.timeMs ∈ t.members := by
  simp [t.anyOrder.mem_iff]

/-- Which of two members comes first, when the first kind stands at one place. -/
theorem pair_sublist_iff {x y : TradeMember} {earlier later : List TradeMember}
    (hx : x ∉ earlier) : [x, y].Sublist (earlier ++ x :: later) ↔ y ∈ later := by
  induction earlier with
  | nil => rw [List.nil_append, List.cons_sublist_cons, List.singleton_sublist]
  | cons c earlier ih =>
    obtain ⟨hc, hearlier⟩ := not_or.mp (mt List.mem_cons.mpr hx)
    rw [List.cons_append, List.sublist_cons_iff, ih hearlier]
    refine or_iff_left ?_
    rintro ⟨r, heq, -⟩
    exact hc (List.cons.inj heq).1

/-- `m` is the only member of a kind, with `later` behind it. -/
structure Splits {β : Type} (f : TradeMember → Option β) (m : TradeMember) (b : β)
    (later : List TradeMember) : Prop where
  reads : f m = some b
  mem : m ∈ t.members
  once : t.members.filterMap f = [b]
  single : ∀ n ∈ later, f n = none
  suffix : ∃ front, t.members = front ++ later
  found : ∀ rest, firstAfter f (t.members ++ rest) = some (b, later ++ rest)
  before_iff : ∀ n, t.Before m n ↔ n ∈ later

theorem splits {β : Type} {f : TradeMember → Option β} {b : β} {m : TradeMember}
    (honce : t.members.filterMap f = [b]) (hmem : m ∈ t.members) (hm : f m = some b) :
    t.Splits f m b ((firstAfter f t.members).elim [] (·.2)) := by
  obtain ⟨earlier, later, hmembers, hearlier, hlater⟩ := t.split honce hmem hm
  have hfound (rest : List TradeMember) :
      firstAfter f (t.members ++ rest) = some (b, later ++ rest) := by
    rw [hmembers, List.append_assoc, firstAfter_append hearlier, List.cons_append,
      firstAfter_cons hm]
  have hself := hfound []
  rw [List.append_nil, List.append_nil] at hself
  rw [hself]
  refine ⟨hm, hmem, honce, hlater, ⟨earlier ++ [m], by simp [hmembers]⟩, hfound, fun n => ?_⟩
  rw [Before, hmembers]
  exact pair_sublist_iff fun h => by cases hm.symm.trans (hearlier m h)

theorem splits_px : t.Splits px? (.px t.px) t.px
    ((firstAfter px? t.members).elim [] (·.2)) :=
  t.splits t.readings_once.1 t.mem_members.1 rfl

theorem splits_sz : t.Splits sz? (.sz t.sz) t.sz t.behindSize :=
  t.splits t.readings_once.2.1 t.mem_members.2.1 rfl

theorem splits_side : t.Splits side? (.side t.isBuy) t.isBuy t.behindSide :=
  t.splits t.readings_once.2.2.1 t.mem_members.2.2.1 rfl

theorem splits_time : t.Splits time? (.time t.timeMs) t.timeMs.toNat
    ((firstAfter time? t.members).elim [] (·.2)) :=
  t.splits t.readings_once.2.2.2 t.mem_members.2.2.2 rfl

section Behind

variable {t} {β : Type} {f : TradeMember → Option β} {m : TradeMember} {b : β}
  {later front back : List TradeMember}

/-- In the part of the trade that has it, the member is the first of its kind. -/
theorem Splits.behind (h : t.Splits f m b later) (hmembers : t.members = front ++ back)
    (hm : m ∈ back) (rest : List TradeMember) :
    firstAfter f (back ++ rest) = some (b, later ++ rest) := by
  have hfront : ∀ n ∈ front, f n = none := by
    have honce := h.once
    rw [hmembers, List.filterMap_append, List.append_eq_singleton_iff] at honce
    rcases honce with ⟨hfront, -⟩ | ⟨-, hback⟩
    · exact List.filterMap_eq_nil_iff.mp hfront
    · cases h.reads.symm.trans (List.filterMap_eq_nil_iff.mp hback m hm)
  rw [← h.found rest, hmembers, List.append_assoc, firstAfter_append hfront]

theorem Splits.none_behind (h : t.Splits f m b later) (hmembers : t.members = front ++ back)
    (hm : m ∉ back) : ∀ n ∈ back, f n = none := by
  have honce := h.once
  rw [hmembers, List.filterMap_append, List.append_eq_singleton_iff] at honce
  rcases honce with ⟨hfront, -⟩ | ⟨-, hback⟩
  · have hmem := h.mem
    rw [hmembers] at hmem
    rcases List.mem_append.mp hmem with hm' | hm'
    · cases h.reads.symm.trans (List.filterMap_eq_nil_iff.mp hfront m hm')
    · exact absurd hm' hm
  · exact List.filterMap_eq_nil_iff.mp hback

theorem Splits.not_behind (h : t.Splits f m b later) (hmembers : t.members = front ++ back)
    (hm : m ∉ back) (rest : List TradeMember) :
    firstAfter f (back ++ rest) = firstAfter f rest :=
  firstAfter_append (h.none_behind hmembers hm)

end Behind

end HlTrade

/-! ## When a trade is read with its own fields -/

/-- What the search for a side finds in the trades behind, and the search for a time. -/
def nextSide : List HlTrade → Bool
  | [] => true
  | u :: _ => u.isBuy

def nextTime : List HlTrade → Nat
  | [] => 0
  | u :: _ => u.timeMs.toNat

namespace HlTrade

def SideBehindSize (t : HlTrade) : Prop := t.Before (.sz t.sz) (.side t.isBuy)

def TimeBehindSide (t : HlTrade) : Prop := t.Before (.side t.isBuy) (.time t.timeMs)

instance (t : HlTrade) : Decidable t.SideBehindSize :=
  inferInstanceAs (Decidable (t.Before _ _))

instance (t : HlTrade) : Decidable t.TimeBehindSide :=
  inferInstanceAs (Decidable (t.Before _ _))

/-- Where the time of `t` is found when its side is in front of its size: the search starts from
the side of the next trade, and for the last trade from its size. -/
def TimeWithNext (t : HlTrade) : List HlTrade → Prop
  | [] => t.Before (.sz t.sz) (.time t.timeMs) ∨ t.timeMs = 0
  | u :: us =>
    u.TimeBehindSide ∧ u.timeMs = t.timeMs ∨ ¬ u.TimeBehindSide ∧ nextTime us = t.timeMs.toNat

/-- Doubles can hold the numbers of `t`, and its members stand in the order of the searches, or the
trades behind it have the same values where these find them. -/
structure ReadsOwn (t : HlTrade) (rest : List HlTrade) : Prop where
  inRange : t.px.InRange ∧ t.sz.InRange
  size : t.Before (.px t.px) (.sz t.sz)
  side : t.SideBehindSize ∨ nextSide rest = t.isBuy
  time : t.SideBehindSize → t.TimeBehindSide ∨ nextTime rest = t.timeMs.toNat
  timeWithNext : ¬ t.SideBehindSize → t.TimeWithNext rest

open TradeMember

variable (t : HlTrade) (ts : List HlTrade)

theorem firstAfter_side_trades :
    firstAfter side? (ts.flatMap members) =
      ts.head?.map fun u => (u.isBuy, u.behindSide ++ ts.tail.flatMap members) := by
  cases ts with
  | nil => rfl
  | cons u us => exact u.splits_side.found _

theorem firstAfter_time_trades :
    (firstAfter time? (ts.flatMap members)).elim 0 (·.1) = nextTime ts := by
  cases ts with
  | nil => rfl
  | cons u us =>
    rw [List.flatMap_cons, u.splits_time.found]
    rfl

theorem firstAfter_time_behindSide :
    (firstAfter time? (t.behindSide ++ ts.flatMap members)).elim 0 (·.1) =
      if t.TimeBehindSide then t.timeMs.toNat else nextTime ts := by
  obtain ⟨front, hmembers⟩ := t.splits_side.suffix
  split_ifs with h
  · rw [t.splits_time.behind hmembers ((t.splits_side.before_iff _).mp h)]
    rfl
  · rw [t.splits_time.not_behind hmembers (mt (t.splits_side.before_iff _).mpr h),
      firstAfter_time_trades]

/-- The side read for a trade, and the time. -/
theorem side_read :
    (firstAfter side? (t.behindSize ++ ts.flatMap members)).elim true (·.1) = t.isBuy ↔
      t.SideBehindSize ∨ nextSide ts = t.isBuy := by
  obtain ⟨front, hmembers⟩ := t.splits_sz.suffix
  by_cases h : t.SideBehindSize
  · rw [t.splits_side.behind hmembers ((t.splits_sz.before_iff _).mp h)]
    simp [h]
  · rw [t.splits_side.not_behind hmembers (mt (t.splits_sz.before_iff _).mpr h),
      firstAfter_side_trades]
    cases ts with
    | nil => simp [h, nextSide]
    | cons u us => simp [h, nextSide]

theorem time_read :
    (firstAfter time? ((firstAfter side? (t.behindSize ++ ts.flatMap members)).elim
      (t.behindSize ++ ts.flatMap members) (·.2))).elim 0 (·.1) = t.timeMs.toNat ↔
      (t.SideBehindSize → t.TimeBehindSide ∨ nextTime ts = t.timeMs.toNat) ∧
        (¬ t.SideBehindSize → t.TimeWithNext ts) := by
  obtain ⟨front, hmembers⟩ := t.splits_sz.suffix
  by_cases h : t.SideBehindSize
  · rw [t.splits_side.behind hmembers ((t.splits_sz.before_iff _).mp h), Option.elim_some,
      firstAfter_time_behindSide]
    by_cases htime : t.TimeBehindSide
    · simp [h, htime]
    · simp [h, htime]
  · rw [t.splits_side.not_behind hmembers (mt (t.splits_sz.before_iff _).mpr h),
      firstAfter_side_trades]
    cases ts with
    | nil =>
      by_cases htime : t.Before (.sz t.sz) (.time t.timeMs)
      · simp only [List.head?_nil, Option.map_none, Option.elim_none]
        rw [t.splits_time.behind hmembers ((t.splits_sz.before_iff _).mp htime)]
        simp [h, htime, TimeWithNext]
      · simp only [List.head?_nil, Option.map_none, Option.elim_none]
        rw [t.splits_time.not_behind hmembers (mt (t.splits_sz.before_iff _).mpr htime)]
        have hzero : 0 = t.timeMs.toNat ↔ t.timeMs = 0 := by
          rw [← UInt64.toNat_inj, eq_comm]
          rfl
        simp [h, htime, firstAfter, hzero, TimeWithNext]
    | cons u us =>
      simp only [List.head?_cons, Option.map_some, Option.elim_some, List.tail_cons]
      rw [firstAfter_time_behindSide]
      by_cases htime : u.TimeBehindSide
      · simp [h, htime, TimeWithNext, UInt64.toNat_inj]
      · simp [h, htime, TimeWithNext]

/-- Behind a size that is behind the price there is no other price. -/
theorem px_not_behindSize (hsize : t.Before (.px t.px) (.sz t.sz)) :
    ∀ m ∈ t.behindSize, px? m = none := by
  obtain ⟨front, hmembers⟩ := t.splits_px.suffix
  have hsz := t.splits_sz.behind hmembers ((t.splits_px.before_iff _).mp hsize) []
  obtain ⟨earlier, n, hbehind, -⟩ := firstAfter_eq_some hsz
  rw [List.append_nil, List.append_nil] at hbehind
  intro m hm
  refine t.splits_px.single m ?_
  rw [hbehind]
  exact List.mem_append_right _ (List.mem_cons_of_mem _ hm)

/-- A round that starts in front of a trade whose price is in front of its size. -/
theorem nextTrade_own {left : List TradeMember} (hleft : ∀ m ∈ left, px? m = none)
    (hsize : t.Before (.px t.px) (.sz t.sz)) :
    nextTrade (left ++ (t.members ++ ts.flatMap members)) =
      if t.px.InRange ∧ t.sz.InRange then
        some (readingAt t.px t.sz (t.behindSize ++ ts.flatMap members),
          t.behindSize ++ ts.flatMap members)
      else none := by
  obtain ⟨front, hmembers⟩ := t.splits_px.suffix
  have hsz := t.splits_sz.behind hmembers ((t.splits_px.before_iff _).mp hsize)
    (ts.flatMap members)
  simp only [nextTrade, firstAfter_append hleft, t.splits_px.found, hsz, bind, Option.bind_some]

theorem readingAt_eq_iff (hrange : t.px.InRange ∧ t.sz.InRange)
    (hsize : t.Before (.px t.px) (.sz t.sz)) :
    readingAt t.px t.sz (t.behindSize ++ ts.flatMap members) = t.reading ↔ t.ReadsOwn ts := by
  simp only [readingAt, reading, TradeReading.mk.injEq, true_and, t.side_read ts, t.time_read ts]
  exact ⟨fun h => ⟨hrange, hsize, h.1, h.2.1, h.2.2⟩, fun h => ⟨h.side, h.time, h.timeWithNext⟩⟩

end HlTrade

/-! ## Whole messages -/

section Scan

open TradeMember

theorem scan_none {ms : List TradeMember} (h : nextTrade ms = none) : scan ms = [] := by
  rw [scan]
  split
  · rfl
  · rename_i heq
    cases h.symm.trans heq

theorem scan_some {ms rest : List TradeMember} {r : TradeReading}
    (h : nextTrade ms = some (r, rest)) : scan ms = r :: scan rest := by
  rw [scan]
  split
  · rename_i heq
    cases h.symm.trans heq
  · rename_i heq
    cases h.symm.trans heq
    rfl

/-- The size a round uses up stands behind its price. -/
theorem nextTrade_sizes {ms rest : List TradeMember} {r : TradeReading}
    (h : nextTrade ms = some (r, rest)) :
    ∃ px behindPx, firstAfter px? ms = some (px, behindPx) ∧
      (rest.filterMap sz?).length < (behindPx.filterMap sz?).length := by
  obtain ⟨px, behindPx, sz, hpx, hsz, -, -⟩ := nextTrade_eq_some h
  obtain ⟨middle, n, rfl, -, hn⟩ := firstAfter_eq_some hsz
  refine ⟨px, _, hpx, ?_⟩
  simp only [List.filterMap_append, List.filterMap_cons, hn, List.length_append, List.length_cons]
  omega

theorem scan_length_le (ms : List TradeMember) :
    (scan ms).length ≤ (ms.filterMap sz?).length := by
  fun_induction scan ms with
  | case1 => exact Nat.zero_le _
  | case2 ms r rest hnext ih =>
    obtain ⟨px, behindPx, hpx, hlt⟩ := nextTrade_sizes hnext
    obtain ⟨front, m, rfl, -⟩ := firstAfter_eq_some hpx
    have hle : (behindPx.filterMap sz?).length ≤ ((front ++ m :: behindPx).filterMap sz?).length :=
      ((List.sublist_append_right (front ++ [m]) behindPx).filterMap sz?).length_le.trans_eq
        (by simp)
    rw [List.length_cons]
    omega

theorem scan_length_le_behind {ms behindPx : List TradeMember} {px : Text.Decimal}
    (hpx : firstAfter px? ms = some (px, behindPx)) :
    (scan ms).length ≤ (behindPx.filterMap sz?).length := by
  cases hnext : nextTrade ms with
  | none =>
    rw [scan_none hnext]
    exact Nat.zero_le _
  | some found =>
    obtain ⟨r, rest⟩ := found
    obtain ⟨px', behindPx', hpx', hlt⟩ := nextTrade_sizes hnext
    cases hpx.symm.trans hpx'
    have hle := scan_length_le rest
    rw [scan_some hnext, List.length_cons]
    omega

theorem sizes_length (ts : List HlTrade) :
    ((ts.flatMap HlTrade.members).filterMap sz?).length = ts.length := by
  induction ts with
  | nil => rfl
  | cons t ts ih =>
    rw [List.flatMap_cons, List.filterMap_append, t.readings_once.2.1, List.length_append, ih,
      List.length_singleton, List.length_cons]
    omega

/-- The loop reads the trades with their own fields exactly when each stands as it should. -/
theorem scan_eq_iff (trades : List HlTrade) {left : List TradeMember}
    (hleft : ∀ m ∈ left, px? m = none) :
    scan (left ++ trades.flatMap HlTrade.members) = trades.map HlTrade.reading ↔
      ∀ t rest, t :: rest <:+ trades → t.ReadsOwn rest := by
  induction trades generalizing left with
  | nil =>
    have hnone : nextTrade left = none := by
      simp [nextTrade, firstAfter_eq_none_iff.mpr hleft]
    rw [List.flatMap_nil, List.append_nil, scan_none hnone]
    simp
  | cons t ts ih =>
    rw [List.flatMap_cons, List.map_cons]
    by_cases hsize : t.Before (.px t.px) (.sz t.sz)
    · have hnext := t.nextTrade_own ts hleft hsize
      by_cases hrange : t.px.InRange ∧ t.sz.InRange
      · rw [if_pos hrange] at hnext
        rw [scan_some hnext, List.cons_eq_cons, t.readingAt_eq_iff ts hrange hsize,
          ih (t.px_not_behindSize hsize)]
        constructor
        · rintro ⟨hown, htail⟩ u rest hsuffix
          rcases List.suffix_cons_iff.mp hsuffix with heq | hsuffix
          · cases heq
            exact hown
          · exact htail u rest hsuffix
        · intro h
          exact ⟨h t ts (List.suffix_refl _),
            fun u rest hsuffix => h u rest (hsuffix.trans (List.suffix_cons t ts))⟩
      -- the loop ends at a number that no double can hold
      · rw [if_neg hrange] at hnext
        rw [scan_none hnext]
        exact iff_of_false (List.cons_ne_nil _ _).symm fun h =>
          hrange (h t ts (List.suffix_refl _)).inRange
    -- the price is paired with a size of a later trade, and there is one size too few
    · refine iff_of_false (fun heq => ?_) fun h => hsize (h t ts (List.suffix_refl _)).size
      have hpx := t.splits_px.found (ts.flatMap HlTrade.members)
      rw [← firstAfter_append hleft] at hpx
      have hle := scan_length_le_behind hpx
      obtain ⟨front, hmembers⟩ := t.splits_px.suffix
      have hnone := t.splits_sz.none_behind hmembers (mt (t.splits_px.before_iff _).mpr hsize)
      rw [heq, List.filterMap_append, List.filterMap_eq_nil_iff.mpr hnone, List.nil_append,
        sizes_length, List.length_cons, List.length_map] at hle
      omega

end Scan

/-- The text of a message, with `header` in front of the array of trades and `footer` behind it. -/
def tradesMessage (header footer : List Char) (trades : List HlTrade) : List Char :=
  header ++ (array (trades.map HlTrade.text) ++ footer)

/-- The message names the trades in front of their array, the coin, and the keys of a trade nowhere
else. -/
structure NamesTrades (targetCoin : String) (header footer : List Char) (trades : List HlTrade) :
    Prop where
  named : inQuotes "trades".toList <:+: header
  ofCoin : ("\"coin\":\"" ++ targetCoin ++ "\"").toList <:+: tradesMessage header footer trades
  headerSilent : ¬ inQuotes "px".toList <:+: header
  footerSilent : ∀ name ∈ tradeKeys, ¬ inQuotes name <:+: footer

/-- The array of trades has the members of the trades, in order. -/
theorem spread_trades {footer : List Char}
    (hfooter : ∀ name ∈ tradeKeys, ¬ inQuotes name <:+: footer) (trades : List HlTrade) :
    Spread TradeMember.field (trades.flatMap HlTrade.members)
      (array (trades.map HlTrade.text) ++ footer) := by
  have hend : Spread TradeMember.field [] (']' :: footer) := .nil (by decide) hfooter
  have harray := hend.array tradeKeys_plain (trades.map HlTrade.members)
  rw [List.append_nil, List.map_map, ← List.flatMap_def] at harray
  exact harray

/-- The text of a message is read as its members are. -/
theorem parseHlTrades_readings {targetCoin : String} {header footer : List Char}
    {trades : List HlTrade} (clock : Nat → Nat)
    (h : NamesTrades targetCoin header footer trades) :
    (parseHlTrades targetCoin clock (tradesMessage header footer trades)).map ParsedTrade.reading =
      scan (trades.flatMap HlTrade.members) := by
  have hnamed : inQuotes "trades".toList <:+: tradesMessage header footer trades :=
    h.named.trans (List.prefix_append header _).isInfix
  have hcontains : ¬ (¬ Text.contains (inQuotes "trades".toList)
        (tradesMessage header footer trades) = true ∨
      ¬ Text.contains ("\"coin\":\"" ++ targetCoin ++ "\"").toList
        (tradesMessage header footer trades) = true) := by
    rw [Text.contains_iff, Text.contains_iff, not_or, not_not, not_not]
    exact ⟨hnamed, h.ofCoin⟩
  obtain ⟨left, hleft, hfind⟩ := Text.find_append_of_infix h.named
    (array (trades.map HlTrade.text) ++ footer)
  have hbefore : ¬ inQuotes "px".toList <:+: left :=
    fun hfound => h.headerSilent (hfound.trans hleft.isInfix)
  rw [parseHlTrades, if_neg hcontains, tradesMessage, hfind]
  exact hlTradesFrom_spread 0 hbefore (spread_trades h.footerSilent trades)

/-- The trades of a message are read with their own fields exactly when doubles can hold all their
numbers and each has its members in the order of the searches, or the trades behind it have the same
values. -/
theorem parseHlTrades_own_iff {targetCoin : String} {header footer : List Char}
    {trades : List HlTrade} (clock : Nat → Nat)
    (h : NamesTrades targetCoin header footer trades) :
    (parseHlTrades targetCoin clock (tradesMessage header footer trades)).map ParsedTrade.reading =
        trades.map HlTrade.reading ↔
      ∀ t rest, t :: rest <:+ trades → t.ReadsOwn rest := by
  have hnil : ∀ m ∈ ([] : List TradeMember), TradeMember.px? m = none := by simp
  rw [parseHlTrades_readings clock h, ← scan_eq_iff trades hnil, List.nil_append]

/-- `21.50` -/
def samplePx : Text.Decimal := .ofDigits ['2', '1'] ['5', '0'] (by decide)

/-- `2.5` -/
def sampleSz : Text.Decimal := .ofDigits ['2'] ['5'] (by decide)

def sampleCoin : Member tradeKeys where
  key := "coin".toList
  value := inQuotes "HYPE".toList
  plain := by decide
  fresh := by decide
  silent := by decide

/-- A sell with the members in the order of the searches. -/
def orderedSell : HlTrade where
  px := samplePx
  sz := sampleSz
  isBuy := false
  timeMs := 1774708792573
  others := [sampleCoin]
  members :=
    [.other sampleCoin, .px samplePx, .sz sampleSz, .side false, .time 1774708792573]
  anyOrder := by decide

/-- The same sell with its side in front. -/
def sideFirstSell : HlTrade where
  px := samplePx
  sz := sampleSz
  isBuy := false
  timeMs := 1774708792573
  others := [sampleCoin]
  members :=
    [.other sampleCoin, .side false, .px samplePx, .sz sampleSz, .time 1774708792573]
  anyOrder := by decide

def sampleHeader : List Char := "\x7b\"channel\":\"trades\",\"data\":".toList

theorem namesTrades_ordered : NamesTrades "HYPE" sampleHeader ['\x7d'] [orderedSell] :=
  ⟨by decide, by decide, by decide, by decide⟩

theorem namesTrades_sideFirst : NamesTrades "HYPE" sampleHeader ['\x7d'] [sideFirstSell] :=
  ⟨by decide, by decide, by decide, by decide⟩

theorem parseHlTrades_own_iff_sell :
    (parseHlTrades "HYPE" (fun _ => 0) (tradesMessage sampleHeader ['\x7d'] [orderedSell])).map
        ParsedTrade.reading = [orderedSell.reading] ↔
      ∀ t rest, t :: rest <:+ [orderedSell] → t.ReadsOwn rest :=
  parseHlTrades_own_iff (fun _ => 0) namesTrades_ordered

/-- A sell whose side stands in front of its price is read as a buy. -/
theorem sell_read_as_buy :
    tradesMessage sampleHeader ['\x7d'] [sideFirstSell] =
      ("\x7b\"channel\":\"trades\",\"data\":[\x7b\"coin\":\"HYPE\",\"side\":\"A\"," ++
        "\"px\":\"21.50\",\"sz\":\"2.5\",\"time\":1774708792573\x7d]\x7d").toList ∧
    (parseHlTrades "HYPE" (fun _ => 0) (tradesMessage sampleHeader ['\x7d'] [sideFirstSell])).map
      ParsedTrade.reading ≠ [sideFirstSell.reading] := by
  refine ⟨by decide +kernel, ?_⟩
  rw [parseHlTrades_readings _ namesTrades_sideFirst]
  have hnil : ∀ m ∈ ([] : List TradeMember), TradeMember.px? m = none := by simp
  intro h
  have hown := (scan_eq_iff [sideFirstSell] hnil).mp h sideFirstSell [] (List.suffix_refl _)
  exact absurd hown.side (by decide)

end Arb
