import HlLighterArb.Lib.KeyText
import HlLighterArb.Live.Loop

/-!
# HlLighterArb.Hl.FillFeed

The feed of the account's own fills on Hyperliquid: reading a `userFills` message.

* `stringAfter_number_some`: a number in quotes, read among the members of a text.
* `readFill`: one round of the loop of `parse_hl_fill`; `fillsFrom`: the loop.
* `HlFill`: a fill as the exchange writes it; `userFills`: the message with it.
* `parseHlFill_userFills`: the fills of a message are read with their own fields, in order, up to
  the first whose price or size no double can hold.
* `onMessage_userFills`: the subscribed feed hands them on; `onMessage_short`: all of them, where
  the numbers have up to 307 digits.
-/

namespace Arb

open KeyText

structure ParsedFill where
  coin : String
  price : Double := .number 0
  size : Double := .number 0
  isBuy : Bool := true
  oid : String := ""
  fee : Double := .number 0
  feeToken : String := ""
  deriving DecidableEq

/-! ## Reading a message -/

/-- The string behind the next `key`, and the position of its closing quote. -/
def stringAfter (key : String) (s : List Char) : Option (List Char × List Char) := do
  let pos ← Text.find (inQuotes key.toList) s
  betweenQuotes (pos.drop (inQuotes key.toList).length)

/-- Price and size, and the position of the closing quote of the size. -/
def readQuantities (s : List Char) : Option (Double × Double × List Char) := do
  let (px, pe) ← stringAfter "px" s
  let price ← Text.stod px
  let (sz, se) ← stringAfter "sz" pe
  let size ← Text.stod sz
  return (price, size, se)

/-- Whether the side at `side_pos` is a buy, which it is when there is none. -/
def readSide (sidePos : Option (List Char)) : Bool :=
  match sidePos with
  | none => true
  | some pos =>
    match Text.after ['"'] (pos.drop (inQuotes "side".toList).length) with
    | none => true
    | some value => value.head? = some 'B'

/-- The order id at `oid_pos`, a number or a string. -/
def readOid (oidPos : Option (List Char)) : String :=
  match oidPos with
  | none => ""
  | some pos =>
    match Text.after [':'] (pos.drop 4) with
    | none => ""
    | some value =>
      let value := value.dropWhile fun c => c = ' ' ∨ c = '"'
      String.ofList (value.takeWhile fun c => c ≠ ',' ∧ c ≠ '\x7d' ∧ c ≠ '"')

/-- Where `s`, the end of `msg`, starts. -/
def position (msg s : List Char) : Nat := msg.length - s.length

/-- The fee at `fee_pos`, which must be in front of the next closing brace. -/
def readFee (msg se : List Char) (feePos : Option (List Char)) : Double :=
  match feePos with
  | none => .number 0
  | some pos =>
    let inObject : Bool :=
      match Text.find ['\x7d'] se with
      | none => true
      | some brace => position msg pos < position msg brace
    if inObject then
      ((betweenQuotes (pos.drop 5)).bind fun (fee, _) => Text.stod fee).getD (.number 0)
    else .number 0

/-- The fee token at `ft_pos`, which must be less than 100 characters behind the closing brace. -/
def readFeeToken (msg se : List Char) (ftPos : Option (List Char)) : String :=
  match ftPos with
  | none => ""
  | some pos =>
    let bound : Nat :=
      match Text.find ['\x7d'] se with
      -- the position of a brace that is not there wraps around
      | none => 99
      | some brace => position msg brace + 100
    if position msg pos < bound then
      ((betweenQuotes (pos.drop 10)).map fun (token, _) => String.ofList token).getD ""
    else ""

/-- The next fill from a position on, and where to search for the one behind it. -/
def readFill (msg s : List Char) : Option (ParsedFill × List Char) := do
  let (coin, ce) ← stringAfter "coin" s
  let (price, size, se) ← readQuantities ce
  let sidePos := Text.find (inQuotes "side".toList) se
  let oidPos := Text.find (inQuotes "oid".toList) se
  let feePos := Text.find (inQuotes "fee".toList) (oidPos.getD se)
  let ftPos := Text.find (inQuotes "feeToken".toList) (feePos.getD se)
  let fill : ParsedFill :=
    { coin := String.ofList coin, price, size, isBuy := readSide sidePos, oid := readOid oidPos
      fee := readFee msg se feePos, feeToken := readFeeToken msg se ftPos }
  return (fill, se.drop 1)

theorem stringAfter_eq_some {key : String} {s value stop : List Char}
    (h : stringAfter key s = some (value, stop)) : stop <:+ s ∧ stop ≠ [] := by
  simp only [stringAfter, bind, Option.bind_eq_some_iff] at h
  obtain ⟨pos, hpos, hvalue⟩ := h
  obtain ⟨hstop, hne⟩ := KeyText.betweenQuotes_eq_some hvalue
  exact ⟨hstop.trans ((List.drop_suffix _ pos).trans (Text.find_eq_some hpos).1), hne⟩

theorem readQuantities_eq_some {s se : List Char} {price size : Double}
    (h : readQuantities s = some (price, size, se)) : se <:+ s ∧ se ≠ [] := by
  simp only [readQuantities, bind, Option.bind_eq_some_iff] at h
  obtain ⟨⟨px, pe⟩, hpx, _, -, ⟨sz, stop⟩, hsz, _, -, hpair⟩ := h
  cases hpair
  obtain ⟨hstop, hne⟩ := stringAfter_eq_some hsz
  exact ⟨hstop.trans (stringAfter_eq_some hpx).1, hne⟩

/-- A round of the loop moves on. -/
theorem readFill_shorter {msg s rest : List Char} {fill : ParsedFill}
    (h : readFill msg s = some (fill, rest)) : rest.length < s.length := by
  simp only [readFill, bind, Option.bind_eq_some_iff] at h
  obtain ⟨⟨coin, ce⟩, hcoin, ⟨price, size, se⟩, hquantities, hpair⟩ := h
  cases hpair
  obtain ⟨hse, hne⟩ := readQuantities_eq_some hquantities
  have hle : se.length ≤ s.length := (hse.trans (stringAfter_eq_some hcoin).1).length_le
  have hpos : 0 < se.length := List.length_pos_iff.mpr hne
  show (se.drop 1).length < s.length
  rw [List.length_drop]
  omega

def fillsFrom (msg s : List Char) : List ParsedFill :=
  match _h : readFill msg s with
  | none => []
  | some (fill, rest) => fill :: fillsFrom msg rest
termination_by s.length
decreasing_by exact readFill_shorter _h

/-- No fills stands for `false`. -/
def parseHlFill (msg : List Char) : List ParsedFill :=
  if Text.contains "\"isSnapshot\":true".toList msg then []
  else match Text.find (inQuotes "fills".toList) msg with
    | none => []
    | some pos => fillsFrom msg pos

theorem fillsFrom_none {msg s : List Char} (h : readFill msg s = none) : fillsFrom msg s = [] := by
  rw [fillsFrom]
  split
  · rfl
  · rename_i heq
    cases h.symm.trans heq

theorem fillsFrom_some {msg s rest : List Char} {fill : ParsedFill}
    (h : readFill msg s = some (fill, rest)) : fillsFrom msg s = fill :: fillsFrom msg rest := by
  rw [fillsFrom]
  split
  · rename_i heq
    cases h.symm.trans heq
  · rename_i heq
    cases h.symm.trans heq
    rfl

/-! ## Numbers among the members of a text -/

section Numbers

variable {μ : Type} {keys : List (List Char)} {field : μ → Field keys} {name : String}
  {number : μ → Option Text.Decimal} {ms post : List μ} {before text : List Char}

/-- `number` reads the members with the key `name`, all of them numbers in quotes, and no others. -/
structure ReadsNumbers (field : μ → Field keys) (name : String)
    (number : μ → Option Text.Decimal) : Prop where
  mem : name.toList ∈ keys
  plain : PlainName name.toList
  key : ∀ m, (field m).key = name.toList ↔ number m ≠ none
  value : ∀ m d, number m = some d → (field m).value = inQuotes d.text

theorem stringAfter_number_none (hf : ReadsNumbers field name number)
    (hbefore : ¬ inQuotes name.toList <:+: before) (h : Spread field ms text)
    (hnone : firstAfter number ms = none) : stringAfter name (before ++ text) = none := by
  have hfind := find_spread_none hf.plain hf.mem hbefore h fun m hm hkey =>
    (hf.key m).mp hkey (firstAfter_eq_none_iff.mp hnone m hm)
  simp only [stringAfter, hfind, bind, Option.bind_none]

theorem stringAfter_number_some (hf : ReadsNumbers field name number)
    (hbefore : ¬ inQuotes name.toList <:+: before) (h : Spread field ms text) {d : Text.Decimal}
    (hsome : firstAfter number ms = some (d, post)) :
    ∃ rest, stringAfter name (before ++ text) = some (d.text, '"' :: rest) ∧
      Spread field post rest := by
  obtain ⟨earlier, m, rfl, hearlier, hm⟩ := firstAfter_eq_some hsome
  have hkey : (field m).key = name.toList :=
    (hf.key m).mpr (by rw [hm]; exact Option.some_ne_none d)
  obtain ⟨rest, hfind, hpost⟩ := find_spread_some hf.plain hf.mem hbefore h
    (fun n hn hkey => (hf.key n).mp hkey (hearlier n hn)) hkey
  refine ⟨rest, ?_, hpost⟩
  rw [stringAfter, hfind, Field.text, hkey, hf.value m d hm]
  exact betweenQuotes_member d.unquoted rest

end Numbers

/-! ## The message -/

def sideName (isBuy : Bool) : List Char := if isBuy then ['B'] else ['A']

def fillKeys : List (List Char) :=
  ["coin", "px", "sz", "side", "oid", "fee", "feeToken"].map String.toList

/-- A fill as the exchange writes it. -/
structure HlFill where
  coin : List Char
  px : Text.Decimal
  sz : Text.Decimal
  isBuy : Bool
  beforeOid : List (Member fillKeys) := []
  oid : Nat
  beforeFee : List (Member fillKeys) := []
  fee : Text.Decimal
  feeToken : List Char
  coinUnquoted : '"' ∉ coin
  tokenUnquoted : '"' ∉ feeToken
  tokenFresh : feeToken ∉ fillKeys
  tokenBraceless : '\x7d' ∉ feeToken
  braceless : ∀ m ∈ beforeOid ++ beforeFee, '\x7d' ∉ m.text

namespace HlFill

variable (f : HlFill)

/-- The members behind the size. -/
def behindSize : List (List Char) :=
  member "side".toList (inQuotes (sideName f.isBuy)) :: f.beforeOid.map Member.text ++
    member "oid".toList (Nat.toDigits 10 f.oid) :: f.beforeFee.map Member.text ++
      [member "fee".toList (inQuotes f.fee.text), member "feeToken".toList (inQuotes f.feeToken)]

/-- The text behind the closing quote of the size. -/
def remains : List Char := joined f.behindSize ++ ['\x7d']

def text : List Char :=
  object (member "coin".toList (inQuotes f.coin) :: member "px".toList (inQuotes f.px.text) ::
    member "sz".toList (inQuotes f.sz.text) :: f.behindSize)

/-- Doubles can hold the price and the size. -/
def readable : Bool := f.px.InRange ∧ f.sz.InRange

/-- The fill a reader should get from it. A fee that no double can hold is zero. -/
def parsed : ParsedFill where
  coin := String.ofList f.coin
  price := .number f.px.value
  size := .number f.sz.value
  isBuy := f.isBuy
  oid := String.ofList (Nat.toDigits 10 f.oid)
  fee := .number (if f.fee.InRange then f.fee.value else 0)
  feeToken := String.ofList f.feeToken

end HlFill

/-- `header` are the members of the data in front of the fills. -/
def userFills (header : List (List Char)) (fills : List HlFill) : List Char :=
  object [member "channel".toList (inQuotes "userFills".toList),
    member "data".toList
      (object (header ++ [member "fills".toList (array (fills.map HlFill.text))]))]

/-! ## Reading it back -/

section ReadBack

variable {name : List Char}

theorem fillKeys_plain (hname : name ∈ fillKeys) :
    name ≠ [] ∧ '"' ∉ name ∧ ':' ∉ name ∧ ',' ∉ name := by
  revert name
  decide

theorem not_infix_string {key : String} {value : List Char} (hname : name ∈ fillKeys)
    (hkey : '"' ∉ key.toList) (hne : name ≠ key.toList) (hvalue : '"' ∉ value)
    (hfresh : value ∉ fillKeys) : ¬ inQuotes name <:+: member key.toList (inQuotes value) := by
  obtain ⟨-, hquote, hcolon, -⟩ := fillKeys_plain hname
  rw [infix_member_iff ⟨hquote, hcolon⟩ hkey, inQuotes_infix_iff hquote hvalue]
  rintro (h | rfl)
  · exact hne h
  · exact hfresh hname

theorem not_infix_number {key : String} (hname : name ∈ fillKeys) (hkey : '"' ∉ key.toList)
    (hne : name ≠ key.toList) (n : Nat) :
    ¬ inQuotes name <:+: member key.toList (Nat.toDigits 10 n) := by
  obtain ⟨-, hquote, hcolon, -⟩ := fillKeys_plain hname
  have hdigits : '"' ∉ Nat.toDigits 10 n := fun h =>
    absurd (Nat.isDigit_of_mem_toDigits (by decide) (by decide) h) (by decide)
  rw [infix_member_iff ⟨hquote, hcolon⟩ hkey]
  rintro (h | h)
  · exact hne h
  · exact not_infix_of_unquoted hdigits h

theorem not_infix_joined (hname : name ∈ fillKeys) {s : List Char} (hs : ¬ inQuotes name <:+: s)
    (ms : List (Member fillKeys)) : ¬ inQuotes name <:+: s ++ joined (ms.map Member.text) := by
  obtain ⟨-, hquote, hcolon, hcomma⟩ := fillKeys_plain hname
  rw [infix_joined_iff hcomma]
  rintro (h | ⟨_, hm, h⟩)
  · exact hs h
  · obtain ⟨m, -, rfl⟩ := List.mem_map.mp hm
    exact m.silent_text ⟨hquote, hcolon⟩ hname h

theorem not_infix_comma (hname : name ∈ fillKeys) {s t : List Char}
    (hs : ¬ inQuotes name <:+: s) (ht : ¬ inQuotes name <:+: t) :
    ¬ inQuotes name <:+: s ++ ',' :: t := by
  obtain ⟨-, -, -, hcomma⟩ := fillKeys_plain hname
  rw [infix_append_cons_iff (not_mem_inQuotes (by decide) hcomma) (inQuotes_ne_nil name)]
  exact not_or.mpr ⟨hs, ht⟩

theorem stringAfter_member {key : String} {before value : List Char} {c : Char}
    (hc : c ≠ '"' ∧ c ∉ key.toList) (hbefore : ¬ inQuotes key.toList <:+: before)
    (hvalue : '"' ∉ value) (rest : List Char) :
    stringAfter key (before ++ c :: (member key.toList (inQuotes value) ++ rest)) =
      some (value, '"' :: rest) := by
  rw [stringAfter, find_member hc.1 hc.2 hbefore]
  exact betweenQuotes_member hvalue rest

/-- Two numbers are read when both are in range. -/
theorem bind_inRange {α : Type} (px sz : Text.Decimal) (found : Double → Double → α) :
    ((Text.stod px.text).bind fun price => (Text.stod sz.text).bind fun size =>
      some (found price size)) =
      if px.InRange ∧ sz.InRange then some (found (.number px.value) (.number sz.value))
      else none := by
  rw [px.stod_text, sz.stod_text]
  by_cases hpx : px.InRange
  · by_cases hsz : sz.InRange
    · simp [hpx, hsz]
    · simp [hpx, hsz]
  · simp [hpx]

/-- Price and size directly behind a string. -/
theorem readQuantities_members (px sz : Text.Decimal) (rest : List Char) :
    readQuantities ('"' :: ',' :: (member "px".toList (inQuotes px.text) ++
      ',' :: (member "sz".toList (inQuotes sz.text) ++ rest))) =
        if px.InRange ∧ sz.InRange then some (.number px.value, .number sz.value, '"' :: rest)
        else none := by
  have hpx := @stringAfter_member "px" ['"'] px.text ',' (by decide) (not_infix_quote (by decide))
    px.unquoted (',' :: (member "sz".toList (inQuotes sz.text) ++ rest))
  have hsz := @stringAfter_member "sz" ['"'] sz.text ',' (by decide) (not_infix_quote (by decide))
    sz.unquoted rest
  simp only [List.singleton_append] at hpx hsz
  simp only [readQuantities, hpx, hsz, bind, Option.bind_some]
  exact bind_inRange px sz _

theorem readSide_member (isBuy : Bool) (rest : List Char) :
    readSide (some (member "side".toList (inQuotes (sideName isBuy)) ++ rest)) = isBuy := by
  have hafter : Text.after ['"'] (':' :: (inQuotes (sideName isBuy) ++ rest)) =
      some (sideName isBuy ++ '"' :: rest) := by
    have hfind := @find_char [':'] '"' (by decide) (sideName isBuy ++ '"' :: rest)
    rw [Text.after, inQuotes, List.cons_append, List.append_assoc]
    exact congrArg (Option.map _) hfind
  rw [readSide, drop_member, hafter]
  cases isBuy with
  | true => simp [sideName]
  | false => simp [sideName]

theorem readOid_member (n : Nat) (rest : List Char) :
    readOid (some (member "oid".toList (Nat.toDigits 10 n) ++ ',' :: rest)) =
      String.ofList (Nat.toDigits 10 n) := by
  have hdigits : ∀ d ∈ Nat.toDigits 10 n, d.isDigit = true :=
    fun d hd => Nat.isDigit_of_mem_toDigits (by decide) (by decide) hd
  have hafter : Text.after [':']
      ((member "oid".toList (Nat.toDigits 10 n) ++ ',' :: rest).drop 4) =
        some (Nat.toDigits 10 n ++ ',' :: rest) := by
    have hfind := @find_char ['"'] ':' (by decide) (Nat.toDigits 10 n ++ ',' :: rest)
    exact congrArg (Option.map _) hfind
  have hstart : (Nat.toDigits 10 n ++ ',' :: rest).dropWhile (fun c => c = ' ' ∨ c = '"') =
      Nat.toDigits 10 n ++ ',' :: rest := by
    obtain ⟨d, ds, hcons⟩ := List.exists_cons_of_ne_nil (Nat.toDigits_ne_nil (n := n) (b := 10))
    have hd : d.isDigit = true := hdigits d (hcons ▸ List.mem_cons_self ..)
    rw [hcons, List.cons_append, List.dropWhile_cons_of_neg]
    rw [decide_eq_true_eq]
    rintro (rfl | rfl) <;> revert hd <;> decide
  have hplain : ∀ d ∈ Nat.toDigits 10 n, decide (d ≠ ',' ∧ d ≠ '\x7d' ∧ d ≠ '"') = true := by
    intro d hd
    have hdigit := hdigits d hd
    rw [decide_eq_true_eq]
    refine ⟨?_, ?_, ?_⟩ <;> rintro rfl <;> revert hdigit <;> decide
  have hstop : (Nat.toDigits 10 n ++ ',' :: rest).takeWhile
      (fun c => c ≠ ',' ∧ c ≠ '\x7d' ∧ c ≠ '"') = Nat.toDigits 10 n := by
    rw [List.takeWhile_append_of_pos hplain, List.takeWhile_cons_of_neg (by decide),
      List.append_nil]
  simp only [readOid, hafter, hstart, hstop]

theorem position_lt {msg s t : List Char} (hs : s.length < t.length)
    (ht : t.length ≤ msg.length) : position msg t < position msg s := by
  rw [position, position]
  omega

/-- The fee of the object whose closing brace comes next. -/
theorem readFee_member {msg se brace : List Char} (fee : Text.Decimal) (rest : List Char)
    (hbrace : Text.find ['\x7d'] se = some brace)
    (hlt : position msg (member "fee".toList (inQuotes fee.text) ++ rest) < position msg brace) :
    readFee msg se (some (member "fee".toList (inQuotes fee.text) ++ rest)) =
      .number (if fee.InRange then fee.value else 0) := by
  have hvalue := @betweenQuotes_member "fee".toList fee.text fee.unquoted rest
  have hdrop : (inQuotes "fee".toList).length = 5 := by decide
  rw [hdrop] at hvalue
  simp only [readFee, hbrace, hlt, decide_true, if_true, hvalue, Option.bind_some, fee.stod_text]
  split_ifs <;> rfl

theorem readFeeToken_member {msg se brace token : List Char} (htoken : '"' ∉ token)
    (rest : List Char) (hbrace : Text.find ['\x7d'] se = some brace)
    (hlt : position msg (member "feeToken".toList (inQuotes token) ++ rest) <
      position msg brace + 100) :
    readFeeToken msg se (some (member "feeToken".toList (inQuotes token) ++ rest)) =
      String.ofList token := by
  have hvalue := @betweenQuotes_member "feeToken".toList token htoken rest
  have hdrop : (inQuotes "feeToken".toList).length = 10 := by decide
  rw [hdrop] at hvalue
  simp only [readFeeToken, hbrace, hlt, if_true, hvalue, Option.map_some, Option.getD_some]

theorem sideName_unquoted (isBuy : Bool) : '"' ∉ sideName isBuy := by
  cases isBuy <;> decide

theorem sideName_not_mem (isBuy : Bool) : sideName isBuy ∉ fillKeys := by
  cases isBuy <;> decide

/-! The text from a member of the fill on, with `rest` behind the object. -/

section From

variable (f : HlFill) (rest : List Char)

def HlFill.fromToken : List Char :=
  member "feeToken".toList (inQuotes f.feeToken) ++ '\x7d' :: rest

def HlFill.fromFee : List Char :=
  member "fee".toList (inQuotes f.fee.text) ++ ',' :: f.fromToken rest

def HlFill.fromOid : List Char :=
  member "oid".toList (Nat.toDigits 10 f.oid) ++
    joined (f.beforeFee.map Member.text) ++ ',' :: f.fromFee rest

def HlFill.fromSide : List Char :=
  member "side".toList (inQuotes (sideName f.isBuy)) ++
    joined (f.beforeOid.map Member.text) ++ ',' :: f.fromOid rest

theorem remains_append : f.remains ++ rest = ',' :: f.fromSide rest := by
  simp [HlFill.remains, HlFill.behindSize, joined, HlFill.fromSide, HlFill.fromOid, HlFill.fromFee,
    HlFill.fromToken]

theorem text_append :
    f.text ++ rest = '\x7b' :: (member "coin".toList (inQuotes f.coin) ++
      ',' :: (member "px".toList (inQuotes f.px.text) ++
        ',' :: (member "sz".toList (inQuotes f.sz.text) ++ (f.remains ++ rest)))) := by
  simp [HlFill.text, HlFill.remains, object, intercalate_cons, joined]

variable {name : List Char}

theorem not_infix_side (hname : name ∈ fillKeys) (hne : name ≠ "side".toList) :
    ¬ inQuotes name <:+: member "side".toList (inQuotes (sideName f.isBuy)) ++
      joined (f.beforeOid.map Member.text) :=
  not_infix_joined hname (not_infix_string hname (by decide) hne (sideName_unquoted f.isBuy)
    (sideName_not_mem f.isBuy)) _

theorem not_infix_oid (hname : name ∈ fillKeys) (hne : name ≠ "oid".toList) :
    ¬ inQuotes name <:+: member "oid".toList (Nat.toDigits 10 f.oid) ++
      joined (f.beforeFee.map Member.text) :=
  not_infix_joined hname (not_infix_number hname (by decide) hne f.oid) _

theorem not_infix_fee (hname : name ∈ fillKeys) (hne : name ≠ "fee".toList) :
    ¬ inQuotes name <:+: member "fee".toList (inQuotes f.fee.text) :=
  not_infix_string hname (by decide) hne f.fee.unquoted (decimal_not_mem (by decide) f.fee)

theorem find_side :
    Text.find (inQuotes "side".toList) ('"' :: ',' :: f.fromSide rest) =
      some (f.fromSide rest) := by
  have hfind := @find_member "side".toList (inQuotes (sideName f.isBuy)) ['"'] ',' (by decide)
    (by decide) (not_infix_quote (by decide))
    (joined (f.beforeOid.map Member.text) ++ ',' :: f.fromOid rest)
  rwa [← List.append_assoc] at hfind

theorem find_oid :
    Text.find (inQuotes "oid".toList) ('"' :: ',' :: f.fromSide rest) = some (f.fromOid rest) := by
  have hname : "oid".toList ∈ fillKeys := by decide
  have hbefore := not_infix_comma hname (not_infix_quote (by decide))
    (not_infix_side f hname (by decide))
  have hfind := @find_member "oid".toList (Nat.toDigits 10 f.oid) _ ',' (by decide) (by decide)
    hbefore (joined (f.beforeFee.map Member.text) ++ ',' :: f.fromFee rest)
  simpa [HlFill.fromSide, HlFill.fromOid] using hfind

theorem find_fee :
    Text.find (inQuotes "fee".toList) (f.fromOid rest) = some (f.fromFee rest) :=
  find_member (by decide) (by decide) (not_infix_oid f (by decide) (by decide)) _

theorem find_token :
    Text.find (inQuotes "feeToken".toList) (f.fromFee rest) = some (f.fromToken rest) :=
  find_member (by decide) (by decide) (not_infix_fee f (by decide) (by decide)) _

/-- What stands behind the size names no other coin. -/
theorem coin_infix_side_iff :
    inQuotes "coin".toList <:+: f.fromSide rest ↔ inQuotes "coin".toList <:+: rest := by
  have hname : "coin".toList ∈ fillKeys := by decide
  have hcomma : ',' ∉ inQuotes "coin".toList := by decide
  have hne := inQuotes_ne_nil "coin".toList
  have htoken : ¬ inQuotes "coin".toList <:+: member "feeToken".toList (inQuotes f.feeToken) :=
    not_infix_string hname (by decide) (by decide) f.tokenUnquoted f.tokenFresh
  rw [HlFill.fromSide, infix_append_cons_iff hcomma hne, HlFill.fromOid,
    infix_append_cons_iff hcomma hne, HlFill.fromFee, infix_append_cons_iff hcomma hne,
    HlFill.fromToken, infix_append_cons_iff (by decide) hne]
  simp only [not_infix_side f hname (by decide), not_infix_oid f hname (by decide),
    not_infix_fee f hname (by decide), htoken, false_or]

theorem brace_not_mem_joined {ms : List (Member fillKeys)} (h : ∀ m ∈ ms, '\x7d' ∉ m.text) :
    '\x7d' ∉ joined (ms.map Member.text) := by
  simpa [joined] using h

/-- The closing brace of the object is the next one behind the size. -/
theorem find_brace :
    Text.find ['\x7d'] ('"' :: ',' :: f.fromSide rest) = some ('\x7d' :: rest) := by
  have hside : '\x7d' ∉ sideName f.isBuy := by
    rw [sideName]
    split_ifs <;> decide
  have hoid : '\x7d' ∉ Nat.toDigits 10 f.oid := fun h =>
    absurd (Nat.isDigit_of_mem_toDigits (by decide) (by decide) h) (by decide)
  have hfee : '\x7d' ∉ f.fee.text := fun h => absurd (f.fee.text_chars h) (by decide)
  have hbeforeOid := brace_not_mem_joined fun m hm =>
    f.braceless m (List.mem_append_left f.beforeFee hm)
  have hbeforeFee := brace_not_mem_joined fun m hm =>
    f.braceless m (List.mem_append_right f.beforeOid hm)
  let before := '"' :: ',' :: (member "side".toList (inQuotes (sideName f.isBuy)) ++
    joined (f.beforeOid.map Member.text) ++ ',' :: (member "oid".toList (Nat.toDigits 10 f.oid) ++
      joined (f.beforeFee.map Member.text) ++ ',' :: (member "fee".toList (inQuotes f.fee.text) ++
        ',' :: member "feeToken".toList (inQuotes f.feeToken))))
  have hbefore : '\x7d' ∉ before := by
    simp [before, hside, hbeforeOid, hbeforeFee, member, inQuotes, hoid, hfee, f.tokenBraceless]
  have hsplit : '"' :: ',' :: f.fromSide rest = before ++ '\x7d' :: rest := by
    simp [before, HlFill.fromSide, HlFill.fromOid, HlFill.fromFee, HlFill.fromToken]
  rw [hsplit]
  exact find_char hbefore rest

/-- One round of the loop reads one fill, and goes on behind its size. -/
theorem readFill_text {msg before : List Char} (hbefore : ¬ inQuotes "coin".toList <:+: before)
    (hmsg : (before ++ (f.text ++ rest)).length ≤ msg.length) :
    readFill msg (before ++ (f.text ++ rest)) =
      if f.readable then some (f.parsed, f.remains ++ rest) else none := by
  have hlength : (f.fromFee rest).length ≤ msg.length ∧ (f.fromToken rest).length ≤ msg.length := by
    refine ⟨le_trans ?_ hmsg, le_trans ?_ hmsg⟩
    all_goals
      simp only [text_append, remains_append, HlFill.fromSide, HlFill.fromOid, HlFill.fromFee,
        List.length_append, List.length_cons]
      omega
  have hcoin := @stringAfter_member "coin" before f.coin '\x7b' (by decide) hbefore f.coinUnquoted
    (',' :: (member "px".toList (inQuotes f.px.text) ++
      ',' :: (member "sz".toList (inQuotes f.sz.text) ++ (f.remains ++ rest))))
  rw [← text_append] at hcoin
  have hquantities := readQuantities_members f.px f.sz (f.remains ++ rest)
  rw [remains_append] at hcoin hquantities
  have hfee : readFee msg ('"' :: ',' :: f.fromSide rest) (some (f.fromFee rest)) =
      f.parsed.fee := by
    refine readFee_member f.fee _ (find_brace f rest) (position_lt ?_ hlength.1)
    simp only [HlFill.fromToken, List.length_append, List.length_cons]
    omega
  have htoken : readFeeToken msg ('"' :: ',' :: f.fromSide rest) (some (f.fromToken rest)) =
      String.ofList f.feeToken := by
    refine readFeeToken_member f.tokenUnquoted _ (find_brace f rest)
      (Nat.lt_add_right 100 (position_lt ?_ hlength.2))
    simp only [List.length_append, List.length_cons, member, inQuotes]
    omega
  have hoid : readOid (some (f.fromOid rest)) = String.ofList (Nat.toDigits 10 f.oid) := by
    obtain ⟨s, hs⟩ := joined_append_comma (f.beforeFee.map Member.text) (f.fromFee rest)
    rw [HlFill.fromOid, List.append_assoc, hs]
    exact readOid_member f.oid s
  have hside : readSide (some (f.fromSide rest)) = f.isBuy := by
    rw [HlFill.fromSide, List.append_assoc]
    exact readSide_member f.isBuy _
  by_cases hread : f.px.InRange ∧ f.sz.InRange
  · have hreadable : f.readable = true := decide_eq_true hread
    simp only [readFill, hcoin, hquantities, if_pos hread, find_side, find_oid, find_fee,
      find_token, Option.getD_some, hside, hoid, hfee, htoken, bind, Option.bind_some,
      remains_append, if_pos hreadable]
    rfl
  · have hreadable : f.readable = false := decide_eq_false hread
    simp only [readFill, hcoin, hquantities, if_neg hread, bind, Option.bind_some,
      Option.bind_none, hreadable, Bool.false_eq_true, if_false]

theorem fillsFrom_text {msg before : List Char} (hbefore : ¬ inQuotes "coin".toList <:+: before)
    (hmsg : (before ++ (f.text ++ rest)).length ≤ msg.length) :
    fillsFrom msg (before ++ (f.text ++ rest)) =
      if f.readable then f.parsed :: fillsFrom msg (f.remains ++ rest) else [] := by
  have hround := readFill_text f rest hbefore hmsg
  by_cases hread : f.readable = true
  · rw [if_pos hread] at hround ⊢
    exact fillsFrom_some hround
  · rw [if_neg hread] at hround ⊢
    exact fillsFrom_none hround

end From

end ReadBack

/-- The loop reads the objects of an array one after the other, up to the first whose price or size
is not read. -/
theorem fillsFrom_items {msg before tail : List Char} (f : HlFill) (fills : List HlFill)
    (hbefore : ¬ inQuotes "coin".toList <:+: before)
    (htail : ¬ inQuotes "coin".toList <:+: tail)
    (hmsg : (before ++ (f.text ++ (joined (fills.map HlFill.text) ++ tail))).length ≤ msg.length) :
    fillsFrom msg (before ++ (f.text ++ (joined (fills.map HlFill.text) ++ tail))) =
      ((f :: fills).takeWhile HlFill.readable).map HlFill.parsed := by
  have hcomma : ',' ∉ inQuotes "coin".toList := by decide
  have hne := inQuotes_ne_nil "coin".toList
  induction fills generalizing f before with
  | nil =>
    have hnone : Text.find (inQuotes "coin".toList)
        (f.remains ++ (joined (List.map HlFill.text []) ++ tail)) = none := by
      rw [Text.find_eq_none_iff, remains_append, ← List.nil_append (',' :: _),
        infix_append_cons_iff hcomma hne, coin_infix_side_iff]
      exact not_or.mpr ⟨by decide, htail⟩
    have hend : fillsFrom msg (f.remains ++ (joined (List.map HlFill.text []) ++ tail)) = [] := by
      refine fillsFrom_none ?_
      simp only [readFill, stringAfter, hnone, bind, Option.bind_none]
    rw [fillsFrom_text f _ hbefore hmsg, hend, List.takeWhile_cons]
    split_ifs <;> rfl
  | cons g fills ih =>
    have hnext : f.remains ++ (joined ((g :: fills).map HlFill.text) ++ tail) =
        (f.remains ++ [',']) ++ (g.text ++ (joined (fills.map HlFill.text) ++ tail)) := by
      simp [joined]
    have hremains : ¬ inQuotes "coin".toList <:+: f.remains ++ [','] := by
      rw [remains_append, ← List.nil_append (',' :: _), infix_append_cons_iff hcomma hne,
        coin_infix_side_iff]
      exact not_or.mpr ⟨by decide, by decide⟩
    have hlength : ((f.remains ++ [',']) ++
        (g.text ++ (joined (fills.map HlFill.text) ++ tail))).length ≤ msg.length := by
      refine le_trans ?_ hmsg
      rw [← hnext, text_append]
      simp only [List.length_append, List.length_cons]
      omega
    rw [fillsFrom_text f _ hbefore hmsg, hnext, ih g hremains hlength,
      @List.takeWhile_cons _ _ f]
    split_ifs <;> rfl

/-- The array of fills is found behind the members in front of it. -/
theorem find_fills {header : List (List Char)}
    (hheader : ∀ m ∈ header, ¬ inQuotes "fills".toList <:+: m) (fills : List HlFill) :
    Text.find (inQuotes "fills".toList) (userFills header fills) =
      some (member "fills".toList (array (fills.map HlFill.text)) ++ ['\x7d', '\x7d']) := by
  let value := array (fills.map HlFill.text)
  let before := '\x7b' :: (member "channel".toList (inQuotes "userFills".toList) ++
    ',' :: (inQuotes "data".toList ++ [':']))
  have hbefore : ¬ inQuotes "fills".toList <:+: before := by decide
  cases header with
  | nil =>
    have hsplit : userFills [] fills =
        before ++ '\x7b' :: (member "fills".toList value ++ ['\x7d', '\x7d']) := by
      simp [userFills, object, member, before, value]
    rw [hsplit]
    exact find_member (by decide) (by decide) hbefore _
  | cons m header =>
    have hsplit : userFills (m :: header) fills =
        (before ++ '\x7b' :: (m ++ joined header)) ++
          ',' :: (member "fills".toList value ++ ['\x7d', '\x7d']) := by
      simp [userFills, object, intercalate_cons, joined, member, before, value]
    have hnone : ¬ inQuotes "fills".toList <:+: before ++ '\x7b' :: (m ++ joined header) := by
      rw [infix_append_cons_iff (by decide) (inQuotes_ne_nil _), infix_joined_iff (by decide)]
      obtain ⟨hm, hrest⟩ := List.forall_mem_cons.mp hheader
      rintro (h | h | ⟨n, hn, h⟩)
      · exact hbefore h
      · exact hm h
      · exact hrest n hn h
    rw [hsplit]
    exact find_member (by decide) (by decide) hnone _

theorem fillsFrom_userFills {header : List (List Char)}
    (hheader : ∀ m ∈ header, ¬ inQuotes "fills".toList <:+: m) (fills : List HlFill) :
    fillsFrom (userFills header fills)
      (member "fills".toList (array (fills.map HlFill.text)) ++ ['\x7d', '\x7d']) =
        (fills.takeWhile HlFill.readable).map HlFill.parsed := by
  have hlength := (Text.find_eq_some (find_fills hheader fills)).1.length_le
  cases fills with
  | nil =>
    have hnone : Text.find (inQuotes "coin".toList)
        (member "fills".toList (array (List.map HlFill.text [])) ++ ['\x7d', '\x7d']) = none := by
      decide
    rw [fillsFrom_none]
    · rfl
    · simp only [readFill, stringAfter, hnone, bind, Option.bind_none]
  | cons f fills =>
    have hsplit : member "fills".toList (array ((f :: fills).map HlFill.text)) ++ ['\x7d', '\x7d'] =
        (inQuotes "fills".toList ++ [':', '[']) ++
          (f.text ++ (joined (fills.map HlFill.text) ++ [']', '\x7d', '\x7d'])) := by
      simp [member, array, intercalate_cons]
    rw [hsplit] at hlength ⊢
    exact fillsFrom_items f fills (by decide) (by decide) hlength

/-- Of a `userFills` message that is not a snapshot the fills are read with their own fields, in
order, up to the first whose price or size no double can hold. -/
theorem parseHlFill_userFills (header : List (List Char)) (fills : List HlFill)
    (hheader : ∀ m ∈ header, ¬ inQuotes "fills".toList <:+: m)
    (hsnapshot : ¬ "\"isSnapshot\":true".toList <:+: userFills header fills) :
    parseHlFill (userFills header fills) =
      (fills.takeWhile HlFill.readable).map HlFill.parsed := by
  rw [parseHlFill, if_neg (mt Text.contains_iff.mp hsnapshot), find_fills hheader]
  exact fillsFrom_userFills hheader fills

/-- A buy in two parts, the second with a rebate. -/
def sampleFill (sz fee : Text.Decimal) (oid : Nat) : HlFill where
  coin := "HYPE".toList
  px := { whole := ['2', '1'], fraction := ['5', '0'], nonempty := by decide
          wholeDigits := by decide, fractionDigits := by decide }
  sz
  isBuy := true
  beforeOid := [{ key := "time".toList, value := "1774708792573".toList, plain := by decide
                  fresh := by decide, silent := by decide }]
  oid
  beforeFee := [{ key := "crossed".toList, value := "false".toList, plain := by decide
                  fresh := by decide, silent := by decide }]
  fee
  feeToken := "USDC".toList
  coinUnquoted := by decide
  tokenUnquoted := by decide
  tokenFresh := by decide
  tokenBraceless := by decide
  braceless := by decide

/-- `2.5` with a fee of `0.001`, and `1.5` with a rebate of `0.0005`. -/
def sampleFills : List HlFill :=
  [sampleFill
    { whole := ['2'], fraction := ['5'], nonempty := by decide, wholeDigits := by decide
      fractionDigits := by decide }
    { whole := ['0'], fraction := ['0', '0', '1'], nonempty := by decide, wholeDigits := by decide
      fractionDigits := by decide } 12345,
   sampleFill
    { whole := ['1'], fraction := ['5'], nonempty := by decide, wholeDigits := by decide
      fractionDigits := by decide }
    { minus := true, whole := ['0'], fraction := ['0', '0', '0', '5'], nonempty := by decide
      wholeDigits := by decide, fractionDigits := by decide } 12346]

theorem parseHlFill_userFills_two :
    parseHlFill (userFills ["\"isSnapshot\":false".toList, "\"user\":\"0x1\"".toList] sampleFills) =
      sampleFills.map HlFill.parsed := by
  have hread : sampleFills.takeWhile HlFill.readable = sampleFills :=
    List.takeWhile_eq_self_iff.mpr (by decide +kernel)
  rw [parseHlFill_userFills _ sampleFills (by decide) (by decide +kernel), hread]

/-- A buy of `10 ^ 309`. -/
def vastFill : HlFill :=
  sampleFill
    { whole := '1' :: List.replicate 309 '0', nonempty := by decide, wholeDigits := by decide +kernel
      fractionDigits := by decide }
    { whole := ['0'], nonempty := by decide, wholeDigits := by decide
      fractionDigits := by decide } 12347

/-- The loop ends at a size that no double can hold: neither that fill nor the ones behind it are
returned. -/
theorem vast_size_ends_loop :
    ¬ ∀ (header : List (List Char)) (fills : List HlFill),
      (∀ m ∈ header, ¬ inQuotes "fills".toList <:+: m) →
      ¬ "\"isSnapshot\":true".toList <:+: userFills header fills →
      (parseHlFill (userFills header fills)).length = fills.length := by
  intro h
  have hread : (vastFill :: sampleFills).takeWhile HlFill.readable = [] :=
    List.takeWhile_cons_of_neg (by decide +kernel)
  have hsnapshot : ¬ "\"isSnapshot\":true".toList <:+: userFills [] (vastFill :: sampleFills) := by
    decide +kernel
  have hlength := h [] (vastFill :: sampleFills) (List.forall_mem_nil _) hsnapshot
  rw [parseHlFill, if_neg (mt Text.contains_iff.mp hsnapshot),
    find_fills (List.forall_mem_nil _)] at hlength
  simp only [fillsFrom_userFills (List.forall_mem_nil _), hread] at hlength
  cases hlength

/-! ## The feed -/

/-- The feed after a message, and the fills it hands to the callback, which takes no fee token. -/
def HlFillFeed.onMessage (f : HlFillFeed) (msg : List Char) : HlFillFeed × List ParsedFill :=
  if ¬ f.subscribed then
    if Text.contains "subscriptionResponse".toList msg then ({ f with subscribed := true }, [])
    else (f, [])
  else (f, parseHlFill msg)

/-- A subscribed feed hands on every fill of a message that is read. -/
theorem onMessage_userFills {f : HlFillFeed} (hsubscribed : f.subscribed = true)
    (header : List (List Char)) (fills : List HlFill)
    (hheader : ∀ m ∈ header, ¬ inQuotes "fills".toList <:+: m)
    (hsnapshot : ¬ "\"isSnapshot\":true".toList <:+: userFills header fills) :
    f.onMessage (userFills header fills) =
      (f, (fills.takeWhile HlFill.readable).map HlFill.parsed) := by
  rw [HlFillFeed.onMessage, if_neg (not_not.mpr hsubscribed), parseHlFill,
    if_neg (mt Text.contains_iff.mp hsnapshot), find_fills hheader]
  exact congrArg (Prod.mk f) (fillsFrom_userFills hheader fills)

/-- Where the prices and sizes have up to 307 digits, it hands on all the fills. -/
theorem onMessage_short {f : HlFillFeed} (hsubscribed : f.subscribed = true)
    (header : List (List Char)) (fills : List HlFill)
    (hheader : ∀ m ∈ header, ¬ inQuotes "fills".toList <:+: m)
    (hsnapshot : ¬ "\"isSnapshot\":true".toList <:+: userFills header fills)
    (hpx : ∀ fill ∈ fills, fill.px.whole.length + fill.px.fraction.length ≤ 307)
    (hsz : ∀ fill ∈ fills, fill.sz.whole.length + fill.sz.fraction.length ≤ 307) :
    f.onMessage (userFills header fills) = (f, fills.map HlFill.parsed) := by
  have hreadable : ∀ fill ∈ fills, fill.readable = true := fun fill hfill =>
    decide_eq_true ⟨fill.px.inRange_of_short (hpx fill hfill),
      fill.sz.inRange_of_short (hsz fill hfill)⟩
  rw [onMessage_userFills hsubscribed header fills hheader hsnapshot,
    List.takeWhile_eq_self_iff.mpr hreadable]

end Arb
