import HlLighterArb.Hl.FillFeed

/-!
# HlLighterArb.Market.Quotes

The best quotes in the market messages of both venues, found by searching for keys. JSON leaves the
order of the members of an object open, and a side of the book without orders is `null`.

* `parseHlBbo`, `parseLighterTicker`: the two readers.
* `HlLevel`, `LighterTicker`: what the venues write.
* `parseHlBbo_message`: a message of Hyperliquid is read with its own prices, and not at all when a
  side is missing.
* `parseLighterTicker_message`: so is a ticker with both sides, in either order; the price of a side
  that is missing is taken from the other side when that stands behind it.
-/

namespace Arb

open KeyText

/-! ## Reading a message -/

/-- The two prices, when both are positive. -/
def positiveQuotes (bid ask : Double) : Option (Double × Double) :=
  if bid.positive ∧ ask.positive then some (bid, ask) else none

/-- Bid and ask: the first two prices behind `"bbo"`. -/
def parseHlBbo (msg : List Char) : Option (Double × Double) := do
  let bboPos ← Text.find (inQuotes "bbo".toList) msg
  let (bidPx, bidEnd) ← stringAfter "px" bboPos
  let bid ← Text.stod bidPx
  let (askPx, _) ← stringAfter "px" bidEnd
  let ask ← Text.stod askPx
  positiveQuotes bid ask

/-- Bid and ask: the first prices behind `"b"` and `"a"`, which are behind `"ticker"`. -/
def parseLighterTicker (msg : List Char) : Option (Double × Double) := do
  let tickerPos ← Text.find (inQuotes "ticker".toList) msg
  let askPos ← Text.find (inQuotes "a".toList) tickerPos
  let bidPos ← Text.find (inQuotes "b".toList) tickerPos
  let (askPrice, _) ← stringAfter "price" askPos
  let (bidPrice, _) ← stringAfter "price" bidPos
  let ask ← Text.stod askPrice
  let bid ← Text.stod bidPrice
  positiveQuotes bid ask

/-- The quotes in two numbers, when doubles can hold them and they are positive. -/
def quotesOfNumbers (bid ask : Text.Decimal) : Option (Double × Double) :=
  if (bid.InRange ∧ ask.InRange) ∧ 0 < bid.value ∧ 0 < ask.value then
    some (.number bid.value, .number ask.value)
  else none

theorem positiveQuotes_stod (bid ask : Text.Decimal) :
    ((Text.stod bid.text).bind fun b => (Text.stod ask.text).bind fun a => positiveQuotes b a) =
      quotesOfNumbers bid ask := by
  rw [bid.stod_text, ask.stod_text]
  by_cases hbid : bid.InRange
  · by_cases hask : ask.InRange
    · simp [hbid, hask, positiveQuotes, quotesOfNumbers, Double.positive]
    · simp [hbid, hask, quotesOfNumbers]
  · simp [hbid, quotesOfNumbers]

/-- The numbers may be read in either order. -/
theorem positiveQuotes_stod_swap (bid ask : Text.Decimal) :
    ((Text.stod ask.text).bind fun a => (Text.stod bid.text).bind fun b => positiveQuotes b a) =
      quotesOfNumbers bid ask := by
  rw [← positiveQuotes_stod]
  cases Text.stod ask.text with
  | none => cases Text.stod bid.text <;> rfl
  | some a => rfl

section Members

variable {μ : Type} {keys : List (List Char)} {field : μ → Field keys} {ms post : List μ}
  {text : List Char}

theorem firstAfter_filterMap {β : Type} {f : μ → Option β} {b : β}
    (h : firstAfter f ms = some (b, post)) : ms.filterMap f = b :: post.filterMap f := by
  obtain ⟨earlier, m, rfl, hearlier, hm⟩ := firstAfter_eq_some h
  rw [List.filterMap_append, List.filterMap_eq_nil_iff.mpr hearlier, List.nil_append,
    List.filterMap_cons_some hm]

/-- Another separator in front changes nothing. -/
theorem Spread.swap_head {c d : Char} (hd : d ∈ separators) (h : Spread field ms (c :: text)) :
    Spread field ms (d :: text) := by
  generalize hs : c :: text = s at h
  cases h with
  | nil separates silent =>
    cases hs
    exact .nil hd silent
  | @cons m ms sep rest nonempty separates spread =>
    obtain ⟨e, sep, rfl⟩ := List.exists_cons_of_ne_nil nonempty
    cases hs
    exact Spread.cons (List.cons_ne_nil d sep)
      (List.forall_mem_cons.mpr ⟨hd, (List.forall_mem_cons.mp separates).2⟩) spread

end Members

/-! ## Hyperliquid -/

def bboKeys : List (List Char) := ["px".toList]

theorem bboKeys_plain : ∀ name ∈ bboKeys, PlainName name := by
  decide

inductive BboMember where
  | px (d : Text.Decimal)
  | other (m : Member bboKeys)

namespace BboMember

def field : BboMember → Field bboKeys
  | .px d => .decimal bboKeys_plain (by decide) "px".toList d (by decide)
  | .other m => m.field

def px? : BboMember → Option Text.Decimal
  | .px d => some d
  | .other _ => none

theorem reads_px : ReadsNumbers field "px" px? where
  mem := by decide
  plain := by decide
  key := by
    rintro (d | m)
    · exact iff_of_true rfl (Option.some_ne_none d)
    · refine iff_of_false (fun h => m.fresh ?_) (fun h => h rfl)
      exact List.mem_singleton.mpr h
  value := by
    rintro (d | m) x h
    · cases h
      rfl
    · cases h

end BboMember

/-- One side of the book, its price among the other members. -/
structure HlLevel where
  px : Text.Decimal
  front : List (Member bboKeys) := []
  back : List (Member bboKeys) := []

namespace HlLevel

def members (level : HlLevel) : List BboMember :=
  level.front.map .other ++ .px level.px :: level.back.map .other

def text (level : HlLevel) : List Char := object (level.members.map fun m => m.field.text)

end HlLevel

/-- The text of a side of the book. -/
def hlLevelText (level : Option HlLevel) : List Char := level.elim "null".toList HlLevel.text

def bboMessage (header footer : List Char) (bid ask : Option HlLevel) : List Char :=
  header ++ (array [hlLevelText bid, hlLevelText ask] ++ footer)

/-- The message names the quotes in front of them, and prices nowhere else. -/
structure NamesBbo (header footer : List Char) : Prop where
  named : inQuotes "bbo".toList <:+: header
  headerSilent : ∀ name ∈ bboKeys, ¬ inQuotes name <:+: header
  footerSilent : ∀ name ∈ bboKeys, ¬ inQuotes name <:+: footer

section Hyperliquid

open BboMember

variable {header footer left : List Char}

def levelMembers (level : Option HlLevel) : List BboMember := level.elim [] HlLevel.members

theorem px_levelMembers (level : Option HlLevel) :
    (levelMembers level).filterMap px? = level.toList.map HlLevel.px := by
  have hother : ∀ ms : List (Member bboKeys), (ms.map BboMember.other).filterMap px? = [] := by
    intro ms
    simp [List.filterMap_map, Function.comp_def, px?]
  cases level with
  | none => rfl
  | some level =>
    show level.members.filterMap px? = [level.px]
    rw [HlLevel.members, List.filterMap_append, hother, List.nil_append,
      List.filterMap_cons_some (show px? (.px level.px) = some level.px from rfl), hother]

theorem not_infix_null {name rest : List Char} (h : ¬ inQuotes name <:+: rest) :
    ¬ inQuotes name <:+: "null".toList ++ rest := by
  rwa [inQuotes, quote_infix_append_iff (show '"' ∉ "null".toList by decide)]

/-- The second side and what is behind the quotes. -/
theorem spread_second (hfooter : ∀ name ∈ bboKeys, ¬ inQuotes name <:+: footer)
    (level : Option HlLevel) :
    Spread field (levelMembers level) (',' :: (hlLevelText level ++ ']' :: footer)) := by
  have hend : Spread field [] (']' :: footer) := .nil (by decide) hfooter
  cases level with
  | none =>
    refine .nil (by decide) fun name hname => not_infix_null fun h => ?_
    rw [← List.nil_append (']' :: footer), infix_append_cons_iff
      (separator_not_mem (bboKeys_plain name hname) (by decide)) (inQuotes_ne_nil name)] at h
    exact h.elim (fun h => inQuotes_ne_nil name (List.infix_nil.mp h)) (hfooter name hname)
  | some level =>
    have hlevel := (hend.object bboKeys_plain level.members).separator bboKeys_plain
      (show ',' ∈ separators by decide)
    rwa [List.append_nil] at hlevel

/-- Behind a text without prices, the prices of the array are those of its sides. -/
theorem spread_bbo (hfooter : ∀ name ∈ bboKeys, ¬ inQuotes name <:+: footer)
    (hleft : ¬ inQuotes "px".toList <:+: left) (bid ask : Option HlLevel) :
    ∃ before text, left ++ (array [hlLevelText bid, hlLevelText ask] ++ footer) = before ++ text ∧
      ¬ inQuotes "px".toList <:+: before ∧
      Spread field (levelMembers bid ++ levelMembers ask) text := by
  have hsecond := spread_second hfooter ask
  cases bid with
  | none =>
    refine ⟨left ++ '[' :: "null".toList, ',' :: (hlLevelText ask ++ ']' :: footer), ?_, ?_,
      hsecond⟩
    · simp [array, hlLevelText, List.intercalate_cons_cons]
    · rw [infix_append_cons_iff (by decide) (inQuotes_ne_nil _), not_or]
      exact ⟨hleft, by decide⟩
  | some level =>
    refine ⟨left, _, rfl, hleft, ?_⟩
    have hfirst := (hsecond.object bboKeys_plain level.members).separator bboKeys_plain
      (show '[' ∈ separators by decide)
    show Spread field (level.members ++ levelMembers ask) _
    simpa [array, hlLevelText, List.intercalate_cons_cons, HlLevel.text] using hfirst

/-- The first two prices of a list of them. -/
def firstTwo : List Text.Decimal → Option (Double × Double)
  | bid :: ask :: _ => quotesOfNumbers bid ask
  | _ => none

/-- The first two prices behind a text without any. -/
theorem readTwo_spread {ms : List BboMember} {before text : List Char}
    (hbefore : ¬ inQuotes "px".toList <:+: before) (h : Spread field ms text) :
    (do
      let (bidPx, bidEnd) ← stringAfter "px" (before ++ text)
      let bid ← Text.stod bidPx
      let (askPx, _) ← stringAfter "px" bidEnd
      let ask ← Text.stod askPx
      positiveQuotes bid ask) = firstTwo (ms.filterMap px?) := by
  cases hbid : firstAfter px? ms with
  | none =>
    rw [stringAfter_number_none BboMember.reads_px hbefore h hbid,
      List.filterMap_eq_nil_iff.mpr (firstAfter_eq_none_iff.mp hbid)]
    rfl
  | some found =>
    obtain ⟨bid, ns⟩ := found
    obtain ⟨fromBid, hpx, hspread⟩ := stringAfter_number_some BboMember.reads_px hbefore h hbid
    have hquote : ¬ inQuotes "px".toList <:+: ['"'] := not_infix_quote (by decide)
    rw [firstAfter_filterMap hbid]
    simp only [hpx, bind, Option.bind_some]
    cases hask : firstAfter px? ns with
    | none =>
      have hnone := stringAfter_number_none BboMember.reads_px hquote hspread hask
      rw [List.singleton_append] at hnone
      rw [hnone, List.filterMap_eq_nil_iff.mpr (firstAfter_eq_none_iff.mp hask)]
      cases Text.stod bid.text <;> rfl
    | some found =>
      obtain ⟨ask, behind⟩ := found
      obtain ⟨rest, hsome, -⟩ := stringAfter_number_some BboMember.reads_px hquote hspread hask
      rw [List.singleton_append] at hsome
      simp only [hsome, Option.bind_some, firstAfter_filterMap hask, firstTwo]
      exact positiveQuotes_stod bid ask

/-- The quotes of a message with both sides are the prices of the two sides, whatever else stands
in them and in which order; a message without one of the sides, or with a price that is not
positive, has no quotes. -/
theorem parseHlBbo_message (h : NamesBbo header footer) (bid ask : Option HlLevel) :
    parseHlBbo (bboMessage header footer bid ask) =
      bid.bind fun b => ask.bind fun a => quotesOfNumbers b.px a.px := by
  obtain ⟨left, hleft, hfind⟩ := Text.find_append_of_infix h.named
    (array [hlLevelText bid, hlLevelText ask] ++ footer)
  have hsilent : ¬ inQuotes "px".toList <:+: left :=
    fun hfound => h.headerSilent _ (by decide) (hfound.trans hleft.isInfix)
  obtain ⟨before, text, heq, hbefore, hspread⟩ := spread_bbo h.footerSilent hsilent bid ask
  have hread := readTwo_spread hbefore hspread
  rw [List.filterMap_append, px_levelMembers, px_levelMembers] at hread
  rw [parseHlBbo, bboMessage, hfind, heq]
  refine Eq.trans hread ?_
  cases bid with
  | none => cases ask <;> rfl
  | some b => cases ask <;> rfl

end Hyperliquid

/-! ## Lighter -/

def tickerKeys : List (List Char) := ["a", "b", "price"].map String.toList

theorem tickerKeys_plain : ∀ name ∈ tickerKeys, PlainName name := by
  decide

theorem tickerKeys_letters :
    ∀ key ∈ tickerKeys, (key.head?.all fun c => c ≠ '-' ∧ ¬ c.isDigit) = true := by
  decide

def sideKey (isAsk : Bool) : List Char := if isAsk then "a".toList else "b".toList

theorem price_unquoted : '"' ∉ "price".toList := by
  decide

/-- A side is there with its brace, or `null`. -/
inductive TickerMember where
  | side (isAsk present : Bool)
  | price (d : Text.Decimal)
  | other (m : Member tickerKeys)

namespace TickerMember

def field : TickerMember → Field tickerKeys
  | .side isAsk present =>
    .bare (sideKey isAsk) (if present then [] else "null".toList) (by cases isAsk <;> decide)
      (by cases present <;> decide)
  | .price d => .decimal tickerKeys_plain tickerKeys_letters "price".toList d price_unquoted
  | .other m => m.field

def isSide (isAsk : Bool) : TickerMember → Option Unit
  | .side isAsk' _ => if isAsk' = isAsk then some () else none
  | _ => none

def price? : TickerMember → Option Text.Decimal
  | .price d => some d
  | _ => none

theorem reads_price : ReadsNumbers field "price" price? where
  mem := by decide
  plain := by decide
  key := by
    rintro (⟨isAsk, present⟩ | d | m)
    · refine iff_of_false ?_ (fun h => h rfl)
      show sideKey isAsk ≠ _
      cases isAsk <;> decide
    · exact iff_of_true rfl (Option.some_ne_none d)
    · refine iff_of_false (fun h => m.fresh ?_) (fun h => h rfl)
      exact (show m.key = "price".toList from h) ▸ (by decide)
  value := by
    rintro (⟨isAsk, present⟩ | d | m) x h
    · cases h
    · cases h
      rfl
    · cases h

theorem side_key (isAsk : Bool) (m : TickerMember) :
    m.field.key = sideKey isAsk ↔ isSide isAsk m ≠ none := by
  cases m with
  | side isAsk' present =>
    show sideKey isAsk' = sideKey isAsk ↔ (if isAsk' = isAsk then some () else none) ≠ none
    cases isAsk' <;> cases isAsk <;> decide
  | price d =>
    refine iff_of_false ?_ (fun h => h rfl)
    show "price".toList ≠ sideKey isAsk
    cases isAsk <;> decide
  | other m =>
    refine iff_of_false (fun h => m.fresh ?_) (fun h => h rfl)
    rw [show m.key = sideKey isAsk from h]
    cases isAsk <;> decide

end TickerMember

section Ticker

open TickerMember

variable {ms behind : List TickerMember} {left text : List Char}

theorem sideKey_mem (isAsk : Bool) : sideKey isAsk ∈ tickerKeys := by
  cases isAsk <;> decide

/-- The first price behind a side. -/
def priceBehind (isAsk : Bool) (ms : List TickerMember) : Option Text.Decimal := do
  let (_, behind) ← firstAfter (isSide isAsk) ms
  let (found, _) ← firstAfter price? behind
  return found

/-- What the reader takes for the price of a side. -/
def readSidePrice (isAsk : Bool) (s : List Char) : Option (List Char) := do
  let pos ← Text.find (inQuotes (sideKey isAsk)) s
  let (found, _) ← stringAfter "price" pos
  return found

/-- The price read behind a side is the first one among the members behind it. -/
theorem readSidePrice_spread (isAsk : Bool) (hleft : ¬ inQuotes (sideKey isAsk) <:+: left)
    (h : Spread field ms text) :
    readSidePrice isAsk (left ++ text) = (priceBehind isAsk ms).map Text.Decimal.text := by
  have hkey := sideKey_mem isAsk
  have hplain := tickerKeys_plain _ hkey
  cases hside : firstAfter (isSide isAsk) ms with
  | none =>
    have hfind := find_spread_none hplain hkey hleft h fun m hm hname =>
      (side_key isAsk m).mp hname (firstAfter_eq_none_iff.mp hside m hm)
    simp only [readSidePrice, hfind, priceBehind, hside, bind, Option.bind_none, Option.map_none]
  | some found =>
    obtain ⟨u, behind⟩ := found
    obtain ⟨earlier, m, rfl, hearlier, hm⟩ := firstAfter_eq_some hside
    have hname : m.field.key = sideKey isAsk :=
      (side_key isAsk m).mpr (by rw [hm]; exact Option.some_ne_none u)
    obtain ⟨rest, hfind, hspread⟩ := find_spread_some hplain hkey hleft h
      (fun n hn hkey => (side_key isAsk n).mp hkey (hearlier n hn)) hname
    have hsilent : ¬ inQuotes "price".toList <:+: m.field.text := by
      refine m.field.silent_text (tickerKeys_plain _ (by decide)) (by decide) ?_
      rw [hname]
      cases isAsk <;> decide
    simp only [readSidePrice, hfind, priceBehind, hside, bind, Option.bind_some]
    cases hprice : firstAfter price? behind with
    | none =>
      rw [stringAfter_number_none reads_price hsilent hspread hprice]
      rfl
    | some found =>
      obtain ⟨price, ns⟩ := found
      obtain ⟨rest', hsome, -⟩ := stringAfter_number_some reads_price hsilent hspread hprice
      rw [hsome]
      rfl

theorem parseLighterTicker_eq (msg : List Char) :
    parseLighterTicker msg = (Text.find (inQuotes "ticker".toList) msg).bind fun tickerPos =>
      (readSidePrice true tickerPos).bind fun askPrice =>
        (readSidePrice false tickerPos).bind fun bidPrice =>
          (Text.stod askPrice).bind fun ask =>
            (Text.stod bidPrice).bind fun bid => positiveQuotes bid ask := by
  rw [parseLighterTicker]
  cases Text.find (inQuotes "ticker".toList) msg with
  | none => rfl
  | some tickerPos =>
    simp only [bind, Option.bind_some, readSidePrice, sideKey, if_true, Bool.false_eq_true,
      if_false]
    cases Text.find (inQuotes "a".toList) tickerPos with
    | none => rfl
    | some askPos =>
      cases Text.find (inQuotes "b".toList) tickerPos with
      | none =>
        simp only [Option.bind_some, Option.bind_none]
        cases stringAfter "price" askPos <;> rfl
      | some bidPos =>
        simp only [Option.bind_some]
        cases stringAfter "price" askPos with
        | none => rfl
        | some ask => cases stringAfter "price" bidPos <;> rfl

/-- The ticker is read as its members are. -/
theorem parseLighterTicker_spread {msg : List Char}
    (hfind : Text.find (inQuotes "ticker".toList) msg = some (left ++ text))
    (hleft : ∀ name ∈ tickerKeys, ¬ inQuotes name <:+: left) (h : Spread field ms text) :
    parseLighterTicker msg = (priceBehind true ms).bind fun ask =>
      (priceBehind false ms).bind fun bid => quotesOfNumbers bid ask := by
  rw [parseLighterTicker_eq, hfind, Option.bind_some,
    readSidePrice_spread true (hleft _ (sideKey_mem true)) h,
    readSidePrice_spread false (hleft _ (sideKey_mem false)) h]
  cases priceBehind true ms with
  | none => rfl
  | some ask =>
    cases priceBehind false ms with
    | none => rfl
    | some bid =>
      simp only [Option.map_some, Option.bind_some]
      exact positiveQuotes_stod_swap bid ask

end Ticker

/-- A side of the book, its price among the other members. -/
structure LighterLevel where
  price : Text.Decimal
  front : List (Member tickerKeys) := []
  back : List (Member tickerKeys) := []

namespace LighterLevel

def members (level : LighterLevel) : List TickerMember :=
  level.front.map .other ++ .price level.price :: level.back.map .other

def text (level : LighterLevel) : List Char := object (level.members.map fun m => m.field.text)

end LighterLevel

/-- A ticker, its sides in either order among the other members. -/
structure LighterTicker where
  ask : Option LighterLevel
  bid : Option LighterLevel
  askFirst : Bool := true
  front : List (Member tickerKeys) := []
  middle : List (Member tickerKeys) := []
  back : List (Member tickerKeys) := []

namespace LighterTicker

def side (t : LighterTicker) (isAsk : Bool) : Option LighterLevel := if isAsk then t.ask else t.bid

def sideText (t : LighterTicker) (isAsk : Bool) : List Char :=
  member (sideKey isAsk) ((t.side isAsk).elim "null".toList LighterLevel.text)

def texts (t : LighterTicker) : List (List Char) :=
  t.front.map Member.text ++ t.sideText t.askFirst :: t.middle.map Member.text ++
    t.sideText (!t.askFirst) :: t.back.map Member.text

end LighterTicker

def tickerMessage (header footer : List Char) (t : LighterTicker) : List Char :=
  header ++ (object t.texts ++ footer)

/-- The message names the ticker in front of it, and its keys nowhere else. -/
structure NamesTicker (header footer : List Char) : Prop where
  named : inQuotes "ticker".toList <:+: header
  headerSilent : ∀ name ∈ tickerKeys, ¬ inQuotes name <:+: header
  footerSilent : ∀ name ∈ tickerKeys, ¬ inQuotes name <:+: footer

namespace LighterTicker

open TickerMember

variable (t : LighterTicker)

def sideMembers (isAsk : Bool) : List TickerMember :=
  .side isAsk (t.side isAsk).isSome :: (t.side isAsk).elim [] LighterLevel.members

/-- The members of the ticker, those of its sides among them. -/
def members : List TickerMember :=
  t.front.map .other ++ (t.sideMembers t.askFirst ++ (t.middle.map .other ++
    (t.sideMembers (!t.askFirst) ++ t.back.map .other)))

theorem spread_side (isAsk : Bool) {ns : List TickerMember} {rest : List Char}
    (h : Spread field ns rest) :
    Spread field (t.sideMembers isAsk ++ ns) (joined [t.sideText isAsk] ++ rest) := by
  have hcomma : ∀ c ∈ [','], c ∈ separators := List.forall_mem_singleton.mpr (by decide)
  unfold sideMembers sideText
  cases t.side isAsk with
  | none =>
    have hcons : Spread field (.side isAsk false :: ns)
        ([','] ++ ((field (.side isAsk false)).text ++ rest)) :=
      .cons (List.cons_ne_nil ',' []) hcomma h
    have htext : (field (.side isAsk false)).text = member (sideKey isAsk) "null".toList := rfl
    rw [htext] at hcons
    simpa [joined] using hcons
  | some level =>
    have hlevel := h.object tickerKeys_plain level.members
    have hcons : Spread field (.side isAsk true :: (level.members ++ ns))
        ([','] ++ ((field (.side isAsk true)).text ++ _)) :=
      .cons (List.cons_ne_nil ',' []) hcomma hlevel
    have htext : (field (.side isAsk true)).text = inQuotes (sideKey isAsk) ++ [':'] := rfl
    rw [htext] at hcons
    simpa [joined, member, LighterLevel.text] using hcons

theorem spread_others (ms : List (Member tickerKeys)) {ns : List TickerMember} {rest : List Char}
    (h : Spread field ns rest) :
    Spread field (ms.map .other ++ ns) (joined (ms.map Member.text) ++ rest) := by
  have hjoined := h.joined (ms.map TickerMember.other)
  rwa [List.map_map] at hjoined

theorem texts_ne_nil : t.texts ≠ [] := by
  simp [texts]

theorem spread_texts {footer : List Char}
    (hfooter : ∀ name ∈ tickerKeys, ¬ inQuotes name <:+: footer) :
    Spread field t.members (object t.texts ++ footer) := by
  have hend : Spread field [] ('\x7d' :: footer) := .nil (by decide) hfooter
  have hall := spread_others t.front (t.spread_side t.askFirst (spread_others t.middle
    (t.spread_side (!t.askFirst) (spread_others t.back hend))))
  rw [List.append_nil] at hall
  obtain ⟨m, ms, hms⟩ := List.exists_cons_of_ne_nil t.texts_ne_nil
  have hjoined : joined t.texts ++ '\x7d' :: footer =
      ',' :: (m ++ (joined ms ++ '\x7d' :: footer)) := by
    rw [hms]
    simp [joined]
  have hobject : object t.texts ++ footer =
      '\x7b' :: (m ++ (joined ms ++ '\x7d' :: footer)) := by
    rw [hms, object, intercalate_cons]
    simp
  rw [hobject]
  refine Spread.swap_head (c := ',') (by decide) ?_
  rw [← hjoined]
  have hsplit : joined t.texts = joined (t.front.map Member.text) ++
      (joined [t.sideText t.askFirst] ++ (joined (t.middle.map Member.text) ++
        (joined [t.sideText (!t.askFirst)] ++ joined (t.back.map Member.text)))) := by
    simp [texts, joined, List.append_assoc]
  rw [hsplit]
  simpa only [members, List.append_assoc] using hall

/-! ### What is read -/

theorem firstAfter_head {μ β : Type} (f : μ → Option β) (ms : List μ) :
    (firstAfter f ms).map Prod.fst = (ms.filterMap f).head? := by
  cases h : firstAfter f ms with
  | none => rw [List.filterMap_eq_nil_iff.mpr (firstAfter_eq_none_iff.mp h)]; rfl
  | some found => rw [firstAfter_filterMap h]; rfl

theorem others_price (ms : List (Member tickerKeys)) :
    (ms.map TickerMember.other).filterMap price? = [] := by
  simp [List.filterMap_map, Function.comp_def, price?]

theorem level_price (level : Option LighterLevel) :
    (level.elim [] LighterLevel.members).filterMap price? =
      level.toList.map LighterLevel.price := by
  cases level with
  | none => rfl
  | some level =>
    show level.members.filterMap price? = [level.price]
    rw [LighterLevel.members, List.filterMap_append, others_price, List.nil_append,
      List.filterMap_cons_some (show price? (.price level.price) = some level.price from rfl),
      others_price]

theorem isSide_side (isAsk present : Bool) : isSide isAsk (.side isAsk present) = some () :=
  if_pos rfl

/-- The price behind a side is the first one among the members behind it. -/
theorem priceBehind_of {isAsk : Bool} {ms behind : List TickerMember}
    (h : firstAfter (isSide isAsk) ms = some ((), behind)) :
    priceBehind isAsk ms = (behind.filterMap price?).head? := by
  rw [← firstAfter_head]
  simp only [priceBehind, h, bind, Option.bind_some]
  cases firstAfter price? behind <;> rfl

theorem others_side (isAsk : Bool) (ms : List (Member tickerKeys)) :
    ∀ m ∈ ms.map TickerMember.other, isSide isAsk m = none := by
  intro m hm
  obtain ⟨n, -, rfl⟩ := List.mem_map.mp hm
  rfl

theorem level_side (isAsk : Bool) (level : Option LighterLevel) :
    ∀ m ∈ level.elim [] LighterLevel.members, isSide isAsk m = none := by
  cases level with
  | none => exact fun m hm => nomatch hm
  | some level =>
    intro m hm
    rcases List.mem_append.mp hm with hm | hm
    · exact others_side isAsk _ m hm
    · rcases List.mem_cons.mp hm with rfl | hm
      · rfl
      · exact others_side isAsk _ m hm

/-- The price behind the first side is its own, or that of the second side. -/
theorem priceBehind_first :
    priceBehind t.askFirst t.members =
      ((t.side t.askFirst).toList.map LighterLevel.price ++
        (t.side (!t.askFirst)).toList.map LighterLevel.price).head? := by
  have hside : firstAfter (isSide t.askFirst) t.members =
      some ((), (t.side t.askFirst).elim [] LighterLevel.members ++ (t.middle.map .other ++
        (t.sideMembers (!t.askFirst) ++ t.back.map .other))) := by
    rw [members, firstAfter_append (others_side _ _), sideMembers, List.cons_append,
      firstAfter_cons (isSide_side _ _)]
  have hother : (t.sideMembers (!t.askFirst)).filterMap price? =
      (t.side (!t.askFirst)).toList.map LighterLevel.price := level_price _
  rw [priceBehind_of hside, List.filterMap_append, List.filterMap_append, List.filterMap_append,
    level_price, hother, others_price, others_price, List.nil_append, List.append_nil]

/-- The price behind the second side is its own. -/
theorem priceBehind_second :
    priceBehind (!t.askFirst) t.members =
      ((t.side (!t.askFirst)).toList.map LighterLevel.price).head? := by
  have hfirst : ∀ m ∈ t.sideMembers t.askFirst, isSide (!t.askFirst) m = none :=
    List.forall_mem_cons.mpr
      ⟨if_neg (by cases t.askFirst <;> decide), level_side _ _⟩
  have hside : firstAfter (isSide (!t.askFirst)) t.members =
      some ((), (t.side (!t.askFirst)).elim [] LighterLevel.members ++ t.back.map .other) := by
    rw [members, firstAfter_append (others_side _ _), firstAfter_append hfirst,
      firstAfter_append (others_side _ _), sideMembers, List.cons_append,
      firstAfter_cons (isSide_side _ _)]
  rw [priceBehind_of hside, List.filterMap_append, level_price, others_price, List.append_nil]

end LighterTicker

/-- A ticker with both sides is read with their own prices, whichever stands first and whatever
else stands in it. One without orders on a side is read as a book without width when that side
stands in front of the other one, and not at all when it stands behind. -/
theorem parseLighterTicker_message {header footer : List Char} (h : NamesTicker header footer)
    (t : LighterTicker) :
    parseLighterTicker (tickerMessage header footer t) =
      match t.ask, t.bid with
      | some ask, some bid => quotesOfNumbers bid.price ask.price
      | none, some bid =>
        if t.askFirst then quotesOfNumbers bid.price bid.price else none
      | some ask, none =>
        if t.askFirst then none else quotesOfNumbers ask.price ask.price
      | none, none => none := by
  obtain ⟨left, hleft, hfind⟩ := Text.find_append_of_infix h.named (object t.texts ++ footer)
  have hread := parseLighterTicker_spread hfind
    (fun name hname hfound => h.headerSilent name hname (hfound.trans hleft.isInfix))
    (t.spread_texts h.footerSilent)
  have hfirst := t.priceBehind_first
  have hsecond := t.priceBehind_second
  rw [tickerMessage, hread]
  rcases t with ⟨_ | ask, _ | bid, _ | _, front, middle, back⟩
  all_goals
    simp only [LighterTicker.side, Bool.not_true, Bool.not_false, if_true, Bool.false_eq_true,
      if_false] at hfirst hsecond
    rw [hfirst, hsecond]
    rfl

/-! ## Messages of both venues -/

/-- `37.25` -/
def quotedPx : Text.Decimal := .ofDigits ['3', '7'] ['2', '5'] (by decide)

theorem namesBbo_hype : NamesBbo
    "\x7b\"channel\":\"bbo\",\"data\":\x7b\"coin\":\"HYPE\",\"time\":123,\"bbo\":".toList
    ['\x7d', '\x7d'] :=
  ⟨by decide +kernel, by decide +kernel, by decide +kernel⟩

/-- A message whose bids are missing has no quotes. -/
theorem parseHlBbo_message_asks :
    parseHlBbo (bboMessage
      "\x7b\"channel\":\"bbo\",\"data\":\x7b\"coin\":\"HYPE\",\"time\":123,\"bbo\":".toList
      ['\x7d', '\x7d'] none (some { px := quotedPx })) = none :=
  parseHlBbo_message namesBbo_hype none (some { px := quotedPx })

theorem namesTicker_hype : NamesTicker
    "\x7b\"channel\":\"ticker:24\",\"ticker\":".toList
    ",\"type\":\"update/ticker\"\x7d".toList :=
  ⟨by decide +kernel, by decide +kernel, by decide +kernel⟩

/-- A ticker whose asks are missing, in front of its bids, has the bid for both quotes. -/
theorem parseLighterTicker_message_bids :
    parseLighterTicker (tickerMessage "\x7b\"channel\":\"ticker:24\",\"ticker\":".toList
      ",\"type\":\"update/ticker\"\x7d".toList
      { ask := none, bid := some { price := quotedPx } }) =
      quotesOfNumbers quotedPx quotedPx :=
  parseLighterTicker_message namesTicker_hype { ask := none, bid := some { price := quotedPx } }

end Arb
