import HlLighterArb.Lighter.AccountMessages

/-!
# HlLighterArb.Lighter.AccountQuery

`query_position_snapshot`: the position in the market, read from the account over HTTP. The baseline
of every IOC order and the fallback of its confirmation are read this way.

* `AccountPosition`: a position of an account, as the exchange writes it.
* `queryPositionSnapshot_text`: what is read is the first position listed whose market number starts
  with the digits of the configured one.
* `account_query`: when that is the position of the configured market.
-/

namespace Arb

open KeyText

/-! ## The query -/

def marketIdKey (marketIndex : Int) : List Char :=
  ("\"market_id\":" ++ toString marketIndex).toList

/-- `query_position_snapshot`, from the body of the response. -/
def queryPositionSnapshot (body : List Char) (marketIndex : Int) :
    Except String ParsedPosition :=
  match Text.find (marketIdKey marketIndex) body with
  | none => .ok {}
  | some rest => readPosition (rest.take 600)

/-! ## Positions -/

def accountPositionKeys : List (List Char) :=
  ["market_id", "sign", "position", "avg_entry_price", "position_value"].map String.toList

theorem accountPositionKeys_plain : ∀ name ∈ accountPositionKeys, PlainName name := by
  decide

theorem accountPositionKeys_letters :
    ∀ key ∈ accountPositionKeys, (key.head?.all fun c => c ≠ '-' ∧ ¬ c.isDigit) = true := by
  decide

/-- The members of a position that the query reads behind `market_id`. -/
structure AccountPositionMembers where
  sign : Int
  position : Text.Decimal
  avgEntryPrice : Text.Decimal
  positionValue : Text.Decimal

def AccountPositionMembers.fields (m : AccountPositionMembers) : List (Field accountPositionKeys) :=
  [.bare "sign".toList (toString m.sign).toList (by decide)
      (marketIndex_chars (by decide) (by decide)),
    .decimal accountPositionKeys_plain accountPositionKeys_letters "position".toList m.position
      (by decide),
    .decimal accountPositionKeys_plain accountPositionKeys_letters "avg_entry_price".toList
      m.avgEntryPrice (by decide),
    .decimal accountPositionKeys_plain accountPositionKeys_letters "position_value".toList
      m.positionValue (by decide)]

/-- A position as Lighter writes it: the members the query reads stand behind `market_id`, in any
order. -/
structure AccountPosition extends AccountPositionMembers where
  marketId : Nat
  front : List (Member accountPositionKeys) := []
  others : List (Member accountPositionKeys) := []
  back : List (Field accountPositionKeys)
  signFits : -2 ^ 31 ≤ sign ∧ sign < 2 ^ 31
  anyOrder : back.Perm (toAccountPositionMembers.fields ++ others.map Member.field)

/-- `(-?[0-9]+)` reads an integer. -/
theorem signedDigits_append {c : Char} (hc : c ∈ separators) (n : Int) (rest : List Char) :
    signedDigits ((toString n).toList ++ c :: rest) = some (toString n).toList := by
  have hdigits := unsignedDigits_append rest hc n.natAbs
  rw [Text.int_toList]
  split_ifs
  · rw [List.cons_append, signedDigits, hdigits, Option.map_some]
  · obtain ⟨d, ds, hcons⟩ := List.exists_cons_of_ne_nil (@Nat.toDigits_ne_nil n.natAbs 10)
    have hdigit : d.isDigit = true :=
      Nat.isDigit_of_mem_toDigits (by decide) (by decide) (hcons ▸ List.mem_cons_self ..)
    rw [hcons, List.cons_append] at hdigits ⊢
    rw [signedDigits, hdigits]
    rintro s ⟨rfl, -⟩
    exact absurd hdigit (by decide)

theorem signNumber_eq {n : Int} {s : List Char} (h : -2 ^ 31 ≤ n ∧ n < 2 ^ 31)
    (hread : Text.readAfter "\"sign\":".toList signedDigits s = some (toString n).toList) :
    signNumber s = .ok n := by
  rw [signNumber, hread]
  simp only [Text.stoi_toString h]

namespace AccountPosition

variable (p : AccountPosition)

theorem fields_keys : p.fields.map Field.key = accountPositionKeys.tail := rfl

theorem fields_mem {f : Field accountPositionKeys} (hf : f ∈ p.fields) :
    f.key ∈ accountPositionKeys := by
  have hmem : f.key ∈ p.fields.map Field.key := List.mem_map_of_mem hf
  rw [fields_keys] at hmem
  exact List.mem_of_mem_tail hmem

def record : Record accountPositionKeys "market_id".toList where
  front := p.front
  value := Nat.toDigits 10 p.marketId
  back := p.back
  silent := fun _ _ => not_infix_of_unquoted fun h =>
    absurd (Nat.isDigit_of_mem_toDigits (by decide) (by decide) h) (by decide)
  once := fun f hf hkey => by
    rcases List.mem_append.mp (p.anyOrder.mem_iff.mp hf) with hlisted | hother
    · have hmem : f.key ∈ p.fields.map Field.key := List.mem_map_of_mem hlisted
      rw [fields_keys, hkey] at hmem
      revert hmem
      decide
    · obtain ⟨m, -, rfl⟩ := List.mem_map.mp hother
      have hmem : m.field.key ∈ accountPositionKeys := by
        rw [hkey]
        decide
      exact m.fresh hmem

theorem lists : p.record.Lists p.fields where
  keysPlain := accountPositionKeys_plain
  namePlain := by decide
  nodup := by
    rw [fields_keys]
    decide
  ofKeys := fun f hf => p.fields_mem hf
  anyOrder := ⟨p.others, p.anyOrder⟩

/-- What a reader should get from it. -/
def snapshot : ParsedPosition where
  size := .number (p.sign * p.position.value)
  avgEntryPrice := .number p.avgEntryPrice.value
  positionValue := .number p.positionValue.value

/-- A double can hold its numbers. -/
def Readable : Prop :=
  p.position.InRange ∧ p.avgEntryPrice.InRange ∧ p.positionValue.InRange

instance : Decidable p.Readable := inferInstanceAs (Decidable (_ ∧ _ ∧ _))

/-- What a reader gets from it: the position, or an exception of `std::stod`. -/
def reading : Except String ParsedPosition :=
  if p.Readable then .ok p.snapshot else .error "stod"

/-- A window that holds the position is read as the position, or not at all. -/
theorem readPosition_window (rest : List Char) :
    readPosition (p.record.fromName ++ '\x7d' :: rest) = p.reading := by
  have hsign := signNumber_eq p.signFits
    (p.lists.readAfter (.head _) (List.nil_append _).symm
      (fun _ hc rest => signedDigits_append hc p.sign rest) rest)
  have hposition := @quotedNumber_eq "\"position\":\"" _ p.position
    (readAfter_string p.lists (decimal_ne_nil _) p.position.unquoted
      ⟨_, .tail _ (.head _), rfl, rfl⟩ rest)
  have havgEntry := @quotedNumber_eq "\"avg_entry_price\":\"" _ p.avgEntryPrice
    (readAfter_string p.lists (decimal_ne_nil _) p.avgEntryPrice.unquoted
      ⟨_, .tail _ (.tail _ (.head _)), rfl, rfl⟩ rest)
  have hvalue := @quotedNumber_eq "\"position_value\":\"" _ p.positionValue
    (readAfter_string p.lists (decimal_ne_nil _) p.positionValue.unquoted
      ⟨_, .tail _ (.tail _ (.tail _ (.head _))), rfl, rfl⟩ rest)
  simp only [readPosition, hsign, hposition, havgEntry, hvalue, bind, Except.bind, reading,
    Readable]
  by_cases hposition : p.position.InRange
  · by_cases havgEntry : p.avgEntryPrice.InRange
    · by_cases hvalue : p.positionValue.InRange
      · simp only [hposition, havgEntry, hvalue, and_self, if_true]
        rfl
      · simp [hposition, havgEntry, hvalue]
    · simp [hposition, havgEntry]
  · simp [hposition]

/-- The market number starts with the digits of the configured one. -/
def StartsWith (marketIndex : Int) : Prop :=
  (toString marketIndex).toList <+: Nat.toDigits 10 p.marketId

instance (marketIndex : Int) : Decidable (p.StartsWith marketIndex) :=
  inferInstanceAs (Decidable (_ <+: _))

/-- Where the query looks at a position, it sees the start of the market number. -/
theorem key_prefix_iff (marketIndex : Int) (rest : List Char) :
    marketIdKey marketIndex <+: p.record.fromName ++ '\x7d' :: rest ↔
      p.StartsWith marketIndex := by
  have hkey : marketIdKey marketIndex =
      inQuotes "market_id".toList ++ ':' :: (toString marketIndex).toList := by
    simp [marketIdKey, inQuotes]
  have hbehind (c : Char) (hc : c ∈ separators) (rest : List Char) :
      (toString marketIndex).toList <+: Nat.toDigits 10 p.marketId ++ c :: rest ↔
        p.StartsWith marketIndex := by
    have hplain := marketIndex_plain marketIndex
    refine prefix_append_cons_iff ?_
    simpa using List.all_eq_true.mp hplain.2.2.2 c hc
  rw [hkey, Record.fromName, List.append_assoc, member_prefix_iff (by decide) (by decide)]
  simp only [true_and]
  show (toString marketIndex).toList <+: Nat.toDigits 10 p.marketId ++ _ ↔ _
  cases p.record.back with
  | nil => exact hbehind '\x7d' (by decide) rest
  | cons f fs => exact hbehind ',' (by decide) _

end AccountPosition

/-! ## The account -/

/-- The response to the query: the positions in an array, and the rest of the account around it. -/
structure AccountResponse where
  header : List Char
  positions : List AccountPosition
  footer : List Char
  onlyPositions : ¬ inQuotes "market_id".toList <:+: header ∧
    ¬ inQuotes "market_id".toList <:+: footer
  short : ∀ p ∈ positions, p.record.text.length ≤ 600

namespace AccountResponse

variable (a : AccountResponse) (marketIndex : Int)

def text : List Char :=
  a.header ++ (array (a.positions.map fun p => p.record.text) ++ a.footer)

/-- The first position whose market number starts with the digits of the configured one. -/
def first : Option AccountPosition := a.positions.find? fun p => p.StartsWith marketIndex

/-- The position of the configured market. -/
def own : Option AccountPosition := a.positions.find? fun p => (p.marketId : Int) = marketIndex

end AccountResponse

theorem queryPositionSnapshot_eq_search (body : List Char) (marketIndex : Int) :
    queryPositionSnapshot body marketIndex =
      (Text.search (fun t =>
        if marketIdKey marketIndex <+: t then some (readPosition (t.take 600)) else none)
          body).getD (.ok {}) := by
  have hmap (s : List Char) :
      (Text.find (marketIdKey marketIndex) s).map (fun t => readPosition (t.take 600)) =
        Text.search (fun t =>
          if marketIdKey marketIndex <+: t then some (readPosition (t.take 600)) else none) s := by
    have hhere (t : List Char) :
        (if marketIdKey marketIndex <+: t then some t else none).map
            (fun t => readPosition (t.take 600)) =
          if marketIdKey marketIndex <+: t then some (readPosition (t.take 600)) else none := by
      split_ifs <;> rfl
    induction s with
    | nil => exact hhere []
    | cons c s ih =>
      rw [Text.find, Text.search, Option.map_or, hhere, Text.search]
      exact congrArg _ ih
  rw [← hmap, queryPositionSnapshot]
  cases Text.find (marketIdKey marketIndex) body with
  | none => rfl
  | some rest => rfl

/-- The query reads the first position listed under a number that starts with the digits of the
configured one. -/
theorem queryPositionSnapshot_text (a : AccountResponse) (marketIndex : Int) :
    queryPositionSnapshot a.text marketIndex =
      (a.first marketIndex).elim (.ok {}) AccountPosition.reading := by
  let f : List Char → Option (Except String ParsedPosition) := fun t =>
    if marketIdKey marketIndex <+: t then some (readPosition (t.take 600)) else none
  have hkey : marketIdKey marketIndex =
      inQuotes "market_id".toList ++ ':' :: (toString marketIndex).toList := by
    simp [marketIdKey, inQuotes]
  have hf (t : List Char) (ht : ¬ inQuotes "market_id".toList <+: t) : f t = none := by
    refine if_neg fun h => ht ?_
    rw [hkey] at h
    exact (List.prefix_append _ _).trans h
  have hread : ∀ p ∈ a.positions, ∀ rest, f (p.record.fromName ++ '\x7d' :: rest) =
      if p.StartsWith marketIndex then some p.reading else none := by
    intro p hp rest
    obtain ⟨cut, hcut⟩ := take_fromName p.record (a.short p hp) rest
    simp only [f, p.key_prefix_iff, hcut, p.readPosition_window]
  have hfooter : Text.search f a.footer = none := by
    rw [Text.search_eq_none_iff]
    exact fun t ht => hf t fun hp => a.onlyPositions.2 (hp.isInfix.trans ht.isInfix)
  rw [queryPositionSnapshot_eq_search, AccountResponse.text,
    search_array hf (by decide) (by decide) a.onlyPositions.1 hread, hfooter, Option.or_none,
    AccountResponse.first]
  induction a.positions with
  | nil => rfl
  | cons p ps ih =>
    rw [List.findSome?_cons, List.find?_cons]
    by_cases hp : p.StartsWith marketIndex
    · simp [hp]
    · simpa [hp] using ih

/-- Of two searches the wider finds the same when it passes over all that the other does. -/
theorem find_wider_iff {α : Type} {p q : α → Bool} (hwider : ∀ x, q x = true → p x = true)
    (xs : List α) :
    xs.find? p = xs.find? q ↔ ∀ x ∈ xs.takeWhile fun x => !q x, p x = false := by
  induction xs with
  | nil => simp
  | cons x xs ih =>
    cases hq : q x with
    | true => simp [hq, hwider x hq]
    | false =>
      cases hp : p x with
      | false => simpa [hq, hp] using ih
      | true =>
        have hne : xs.find? q ≠ some x := by
          intro h
          rw [List.find?_some h] at hq
          cases hq
        simpa [hq, hp] using hne.symm

/-- The position of the configured market is read unless one is listed before it under a number
that starts with the same digits. -/
theorem account_query (a : AccountResponse) (marketIndex : Int) :
    queryPositionSnapshot a.text marketIndex =
        (a.first marketIndex).elim (.ok {}) AccountPosition.reading ∧
      (a.first marketIndex = a.own marketIndex ↔
        ∀ p ∈ a.positions.takeWhile fun p => (p.marketId : Int) ≠ marketIndex,
          ¬ p.StartsWith marketIndex) := by
  refine ⟨queryPositionSnapshot_text a marketIndex, ?_⟩
  have hown (p : AccountPosition) (h : decide ((p.marketId : Int) = marketIndex) = true) :
      decide (p.StartsWith marketIndex) = true := by
    obtain rfl := of_decide_eq_true h
    refine decide_eq_true ?_
    rw [AccountPosition.StartsWith, Text.int_toList, if_neg (by omega), Int.natAbs_natCast]
  have hiff := find_wider_iff hown a.positions
  simpa [AccountResponse.first, AccountResponse.own] using hiff

end Arb
