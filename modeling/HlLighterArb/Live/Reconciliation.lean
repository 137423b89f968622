import HlLighterArb.Lib.KeyRecords
import HlLighterArb.Live.Sighted
import Mathlib

/-!
# HlLighterArb.Live.Reconciliation

The position query of the live loop, and what the loop makes of its answer once the fill feed is
back.

* `Stated`: what a response states for a coin, where the query looks for it.
* `queryHlPosition_of_stated`, `queryHlPosition_of_silent`: the query returns it, or zero.
* `ClearinghouseState`: the positions of an account; `Answers`: a response that reports them.
* `reconciliation_iff`: which responses leave the engine with the position of the account or with
  its own; those that report the account do.
-/

namespace Arb

open KeyText

/-! ## What a response states -/

def coinPattern (coin : String) : List Char := member "coin".toList (inQuotes coin.toList)

def sziPattern : List Char := inQuotes "szi".toList ++ [':', '"']

/-- Behind the first mention of the coin the first `szi` is read as `d`. -/
def StatedIn (body : List Char) (coin : String) (d : Double) : Prop :=
  ∃ entry number behind, Text.FirstAt (coinPattern coin) body entry ∧
    Text.FirstAt sziPattern entry (sziPattern ++ (number ++ '"' :: behind)) ∧ '"' ∉ number ∧
      Text.stod number = some d

/-- The query gets a response with status 200, whose body states `d`. -/
def Stated (response : Option HttpResponse) (coin : String) (d : Double) : Prop :=
  ∃ resp, response = some resp ∧ resp.statusCode = 200 ∧ StatedIn resp.body.toList coin d

theorem coinPattern_eq (coin : String) :
    ("\"coin\":\"" ++ coin ++ "\"").toList = coinPattern coin := by
  simp [coinPattern, member, inQuotes]

/-- What the query reads from a body. -/
theorem queryHlPosition_body (body : String) (coin : String) :
    queryHlPosition (some { statusCode := 200, body }) coin =
      (((Text.find (coinPattern coin) body.toList).bind (Text.after sziPattern)).bind fun szi =>
        if '"' ∈ szi then Text.stod (szi.takeWhile (· ≠ '"')) else none).getD (.number 0) := by
  have hszi : "\"szi\":\"".toList = sziPattern := rfl
  simp only [queryHlPosition, coinPattern_eq, hszi, ne_eq, not_true_eq_false, if_false]
  cases Text.find (coinPattern coin) body.toList with
  | none => rfl
  | some entry =>
    cases hafter : Text.after sziPattern entry with
    | none => simp [hafter]
    | some szi =>
      simp only [hafter, Option.bind_some]
      split_ifs <;> rfl

theorem statedIn_iff {body : List Char} {coin : String} {d : Double} :
    StatedIn body coin d ↔
      (((Text.find (coinPattern coin) body).bind (Text.after sziPattern)).bind fun szi =>
        if '"' ∈ szi then Text.stod (szi.takeWhile (· ≠ '"')) else none) = some d := by
  constructor
  · rintro ⟨entry, number, behind, hentry, hszi, hquote, hnumber⟩
    rw [Text.find_eq_some_iff.mpr hentry, Option.bind_some, Text.after,
      Text.find_eq_some_iff.mpr hszi, Option.map_some, List.drop_left, Option.bind_some,
      if_pos (by simp), takeWhile_quote hquote, hnumber]
  · intro h
    obtain ⟨szi, hszi, hread⟩ := Option.bind_eq_some_iff.mp h
    obtain ⟨entry, hentry, hafter⟩ := Option.bind_eq_some_iff.mp hszi
    obtain ⟨start, hstart, rfl⟩ := Option.map_eq_some_iff.mp hafter
    split_ifs at hread with hquote
    obtain ⟨szi, rfl⟩ := (Text.find_eq_some hstart).2
    rw [List.drop_left] at hquote hread
    obtain ⟨number, behind, rfl, hplain⟩ := List.eq_append_cons_of_mem hquote
    rw [takeWhile_quote hplain] at hread
    exact ⟨entry, number, behind, .of_find hentry, .of_find hstart, hplain, hread⟩

theorem queryHlPosition_of_stated {response : Option HttpResponse} {coin : String} {d : Double}
    (h : Stated response coin d) : queryHlPosition response coin = d := by
  obtain ⟨⟨status, body⟩, rfl, rfl, hbody⟩ := h
  rw [queryHlPosition_body, statedIn_iff.mp hbody]
  rfl

/-- A response that states nothing, none at all included, is read as a flat position. -/
theorem queryHlPosition_of_silent {response : Option HttpResponse} {coin : String}
    (h : ∀ d, ¬ Stated response coin d) : queryHlPosition response coin = .number 0 := by
  cases response with
  | none => rfl
  | some resp =>
    obtain ⟨status, body⟩ := resp
    by_cases hstatus : status = 200
    · subst hstatus
      rw [queryHlPosition_body]
      have hnone : ∀ d, _ ≠ some d := fun d hd => h d ⟨_, rfl, rfl, statedIn_iff.mpr hd⟩
      rw [Option.eq_none_iff_forall_ne_some.mpr hnone]
      rfl
    · simp [queryHlPosition, hstatus]

/-! ## The account -/

def stateKeys : List (List Char) := ["coin", "szi"].map String.toList

theorem stateKeys_plain : ∀ name ∈ stateKeys, PlainName name := by decide

theorem coin_unquoted : '"' ∉ "coin".toList := by decide

/-- A position as the exchange lists it: the coin, and its signed size behind it. -/
structure AssetPosition where
  coin : List Char
  between : List (Member stateKeys) := []
  szi : Text.Decimal
  behind : List (Member stateKeys) := []
  unquoted : '"' ∉ coin
  fresh : coin ∉ stateKeys

namespace AssetPosition

variable (p : AssetPosition)

def coinField : Field stateKeys :=
  .string stateKeys_plain "coin".toList p.coin coin_unquoted p.unquoted p.fresh

def sziField : Field stateKeys :=
  .decimal stateKeys_plain (by decide) "szi".toList p.szi (by decide)

def fields : List (Field stateKeys) :=
  p.coinField :: (p.between.map Member.field ++ p.sziField :: p.behind.map Member.field)

end AssetPosition

/-- The answer to a `clearinghouseState` query: its members in the order of the text. A member
whose value is an object or an array counts without it, and what is inside follows. -/
structure ClearinghouseState where
  header : List (Member stateKeys) := []
  positions : List AssetPosition
  nodup : (positions.map AssetPosition.coin).Nodup

namespace ClearinghouseState

def fields (st : ClearinghouseState) : List (Field stateKeys) :=
  st.header.map Member.field ++ st.positions.flatMap AssetPosition.fields

/-- The size of the position in a coin. A coin that is not listed has none. -/
def position (st : ClearinghouseState) (coin : String) : ℚ :=
  match st.positions.find? (·.coin = coin.toList) with
  | some p => p.szi.value
  | none => 0

/-- The response is the state of the account, asked for a coin that can be written in quotes. -/
def Answers (st : ClearinghouseState) (coin : String) (response : Option HttpResponse) : Prop :=
  '"' ∉ coin.toList ∧ ∃ resp, response = some resp ∧ resp.statusCode = 200 ∧
    Spread id st.fields resp.body.toList

section Read

variable {coin : String}

/-- What the search for the coin finds at one place. -/
def coinAt (coin : String) (t : List Char) : Option (List Char) :=
  if coinPattern coin <+: t then some t else none

theorem coinAt_of_other (f : Field stateKeys) (h : f.key ≠ "coin".toList) (rest : List Char) :
    coinAt coin (f.text ++ rest) = none := by
  refine if_neg fun hp => h ?_
  exact ((member_prefix_iff (by decide) f.plain rest).mp hp).1.symm

theorem coinAt_coinField (hcoin : '"' ∉ coin.toList) (p : AssetPosition) (rest : List Char) :
    coinAt coin (p.coinField.text ++ rest) =
      if coin.toList = p.coin then some (p.coinField.text ++ rest) else none := by
  have hiff : coinPattern coin <+: p.coinField.text ++ rest ↔ coin.toList = p.coin := by
    refine (member_prefix_iff (by decide) p.coinField.plain rest).trans ?_
    rw [and_iff_right (by rfl)]
    exact inQuotes_prefix_iff hcoin p.unquoted rest
  rw [coinAt]
  simp only [hiff]

theorem coinAt_member (m : Member stateKeys) (rest : List Char) :
    coinAt coin (m.field.text ++ rest) = none := by
  refine coinAt_of_other _ (fun h => m.fresh ?_) rest
  rw [show m.key = "coin".toList from h]
  decide

/-- The positions in other coins are passed over. -/
theorem coinAt_fields (hcoin : '"' ∉ coin.toList) {p : AssetPosition} (h : coin.toList ≠ p.coin) :
    ∀ f ∈ p.fields, ∀ rest, coinAt coin (f.text ++ rest) = none := by
  intro f hf rest
  rcases List.mem_cons.mp hf with rfl | hf
  · rw [coinAt_coinField hcoin, if_neg h]
  · rcases List.mem_append.mp hf with hf | hf
    · obtain ⟨m, -, rfl⟩ := List.mem_map.mp hf
      exact coinAt_member m rest
    · rcases List.mem_cons.mp hf with rfl | hf
      · exact coinAt_of_other _ (show "szi".toList ≠ "coin".toList by decide) rest
      · obtain ⟨m, -, rfl⟩ := List.mem_map.mp hf
        exact coinAt_member m rest

/-- The coin is found in its own position. -/
theorem find_coin (hcoin : '"' ∉ coin.toList) {st : ClearinghouseState} {text : List Char}
    (h : Spread id st.fields text) {earlier later : List AssetPosition} {p : AssetPosition}
    (hsplit : st.positions = earlier ++ p :: later) (hp : coin.toList = p.coin)
    (hearlier : ∀ q ∈ earlier, coin.toList ≠ q.coin) :
    ∃ rest, Text.find (coinPattern coin) text = some (p.coinField.text ++ rest) ∧
      Spread id (p.between.map Member.field ++ p.sziField ::
        (p.behind.map Member.field ++ later.flatMap AssetPosition.fields)) rest := by
  have hat : ∀ t, ¬ inQuotes "coin".toList <+: t → coinAt coin t = none :=
    fun t ht => if_neg fun hp => ht ((List.prefix_append _ _).trans hp)
  have hfields : st.fields = (st.header.map Member.field ++
      earlier.flatMap AssetPosition.fields) ++ p.coinField :: (p.between.map Member.field ++
        p.sziField :: (p.behind.map Member.field ++ later.flatMap AssetPosition.fields)) := by
    simp [fields, hsplit, AssetPosition.fields]
  rw [hfields] at h
  have hpassed : ∀ f ∈ st.header.map Member.field ++ earlier.flatMap AssetPosition.fields,
      ∀ rest, coinAt coin (f.text ++ rest) = none := by
    intro f hf rest
    rcases List.mem_append.mp hf with hf | hf
    · obtain ⟨m, -, rfl⟩ := List.mem_map.mp hf
      exact coinAt_member m rest
    · obtain ⟨q, hq, hf⟩ := List.mem_flatMap.mp hf
      exact coinAt_fields hcoin (hearlier q hq) f hf rest
  have hhere (rest : List Char) : coinAt coin (p.coinField.text ++ rest) =
      some (p.coinField.text ++ rest) := by
    rw [coinAt_coinField hcoin, if_pos hp]
  obtain ⟨rest, hsearch, hspread⟩ := search_spread_some hat (stateKeys_plain _ (by decide))
    (by decide) (Record.not_infix_nil _) h hpassed fun rest => by simp [hhere]
  exact ⟨rest, hsearch.trans (hhere rest), hspread⟩

/-- Behind the coin its own size is found. -/
theorem after_szi (p : AssetPosition) {later : List (Field stateKeys)} {rest : List Char}
    (h : Spread id (p.between.map Member.field ++ p.sziField :: later) rest) :
    ∃ rest', Text.after sziPattern (p.coinField.text ++ rest) =
      some (p.szi.text ++ '"' :: rest') := by
  let sziAt (t : List Char) : Option (List Char) := if sziPattern <+: t then some t else none
  have hat : ∀ t, ¬ inQuotes "szi".toList <+: t → sziAt t = none :=
    fun t ht => if_neg fun hp => ht ((List.prefix_append _ _).trans hp)
  have hcoin : ¬ inQuotes "szi".toList <:+: p.coinField.text :=
    p.coinField.silent_text (stateKeys_plain _ (by decide)) (by decide)
      (show "szi".toList ≠ "coin".toList by decide)
  have hpassed : ∀ f ∈ p.between.map Member.field, ∀ rest, sziAt (f.text ++ rest) = none := by
    intro f hf rest
    obtain ⟨m, -, rfl⟩ := List.mem_map.mp hf
    refine if_neg fun hp => m.fresh ?_
    rw [← ((member_prefix_iff (by decide) m.plain rest).mp hp).1]
    decide
  have hszi (rest : List Char) : p.sziField.text ++ rest =
      sziPattern ++ (p.szi.text ++ '"' :: rest) := by
    simp [AssetPosition.sziField, Field.decimal, Field.string, Field.text, member, inQuotes,
      sziPattern]
  have hhere (rest : List Char) : sziAt (p.sziField.text ++ rest) =
      some (p.sziField.text ++ rest) := by
    rw [hszi]
    exact if_pos (List.prefix_append _ _)
  obtain ⟨rest', hsearch, -⟩ := search_spread_some hat (stateKeys_plain _ (by decide))
    (by decide) hcoin h hpassed fun rest => by simp [hhere]
  refine ⟨rest', ?_⟩
  have hfind : Text.find sziPattern (p.coinField.text ++ rest) =
      some (sziPattern ++ (p.szi.text ++ '"' :: rest')) := by
    rw [← hszi]
    exact hsearch.trans (hhere rest')
  rw [Text.after, hfind, Option.map_some, List.drop_left]

/-- A listed position is what the body states, if a double can hold it. -/
theorem stated_of_listed (hcoin : '"' ∉ coin.toList) {st : ClearinghouseState}
    {text : List Char} (h : Spread id st.fields text) {p : AssetPosition}
    (hp : st.positions.find? (·.coin = coin.toList) = some p) (hrange : p.szi.InRange) :
    StatedIn text coin (.number p.szi.value) := by
  obtain ⟨hmatch, earlier, later, hsplit, hearlier⟩ := List.find?_eq_some_iff_append.mp hp
  obtain ⟨rest, hfind, hspread⟩ := find_coin hcoin h hsplit (of_decide_eq_true hmatch).symm
    fun q hq heq => by simpa [heq] using hearlier q hq
  obtain ⟨rest', hafter⟩ := after_szi p hspread
  rw [statedIn_iff, hfind, Option.bind_some, hafter, Option.bind_some, if_pos (by simp),
    takeWhile_quote p.szi.unquoted, p.szi.stod_text, if_pos hrange]

/-- Where the coin is not listed the body states nothing for it. -/
theorem silent_of_unlisted (hcoin : '"' ∉ coin.toList) {st : ClearinghouseState}
    {text : List Char} (h : Spread id st.fields text)
    (hnone : st.positions.find? (·.coin = coin.toList) = none) (d : Double) :
    ¬ StatedIn text coin d := by
  have hat : ∀ t, ¬ inQuotes "coin".toList <+: t → coinAt coin t = none :=
    fun t ht => if_neg fun hp => ht ((List.prefix_append _ _).trans hp)
  have hpassed : ∀ f ∈ st.fields, ∀ rest, coinAt coin (f.text ++ rest) = none := by
    intro f hf rest
    rcases List.mem_append.mp hf with hf | hf
    · obtain ⟨m, -, rfl⟩ := List.mem_map.mp hf
      exact coinAt_member m rest
    · obtain ⟨q, hq, hf⟩ := List.mem_flatMap.mp hf
      refine coinAt_fields hcoin (fun heq => ?_) f hf rest
      simpa [heq] using List.find?_eq_none.mp hnone q hq
  have hfind : Text.find (coinPattern coin) text = none :=
    search_spread_none hat (stateKeys_plain _ (by decide)) (by decide) (Record.not_infix_nil _) h
      hpassed
  rw [statedIn_iff, hfind]
  exact Option.some_ne_none d ∘ Eq.symm

/-- A report of the account states the position in the coin, or nothing where there is none. -/
theorem stated_of_answers {st : ClearinghouseState} {response : Option HttpResponse}
    (h : st.Answers coin response) (hrange : ∀ p ∈ st.positions, p.szi.InRange) :
    Stated response coin (.number (st.position coin)) ∨
      st.position coin = 0 ∧ ∀ d, ¬ Stated response coin d := by
  obtain ⟨hcoin, resp, rfl, hstatus, hspread⟩ := h
  rw [position]
  cases hlisted : st.positions.find? (·.coin = coin.toList) with
  | some p =>
    exact .inl ⟨resp, rfl, hstatus,
      stated_of_listed hcoin hspread hlisted (hrange p (List.mem_of_find?_eq_some hlisted))⟩
  | none =>
    refine .inr ⟨rfl, ?_⟩
    rintro d ⟨_, hresp, -, hstated⟩
    obtain rfl := Option.some.inj hresp
    exact silent_of_unlisted hcoin hspread hlisted d hstated

end Read

end ClearinghouseState

/-! ## The reconciliation -/

/-- The query has no position to return: the response states none for the coin and does not report
the account either. -/
def QueryFails (st : ClearinghouseState) (coin : String) (response : Option HttpResponse) : Prop :=
  (∀ d, ¬ Stated response coin d) ∧ ¬ st.Answers coin response

/-- What the reconciliation may do to a position: sync it with the account, or leave it, and always
leave it when the query fails. -/
def Uncorrupted (actual before : ℚ) (after : Double) (failed : Prop) : Prop :=
  (after = .number actual ∨ after = .number before) ∧ (failed → after = .number before)

/-- What a reconciliation makes of a position, from what the query returns. -/
def reconciled (before : ℚ) : Double → Double
  | .number v => .number (if 0.001 < |v - before| then v else before)
  | .infinity minus => .infinity minus
  | .nan => .number before

theorem LiveLoop.reconcile_hlPosition (cfg : EngineConfig) (s : LiveLoop) (t : LoopTick)
    (venues : Venues) (response : Option HttpResponse) :
    ({ s with pc := .reconcile t }.next cfg venues response).1.hlPosition =
      reconciled s.engine.hlPositionBase (queryHlPosition response cfg.hlCoin) := by
  simp only [next]
  cases queryHlPosition response cfg.hlCoin with
  | number v =>
    simp only [hlPosition, syncPosition, reconciled]
    split_ifs <;> rfl
  | infinity minus => rfl
  | nan => rfl

theorem reconciled_number_iff {before v : ℚ} :
    reconciled before (.number v) = .number before ↔ |v - before| ≤ 0.001 := by
  rw [reconciled, Double.number.injEq]
  split_ifs with h
  · refine iff_of_false ?_ (not_le.mpr h)
    rintro rfl
    rw [sub_self, abs_zero] at h
    norm_num at h
  · exact iff_of_true rfl (not_lt.mp h)

theorem reconciled_number_cases (before v : ℚ) :
    reconciled before (.number v) = .number v ∨ reconciled before (.number v) = .number before := by
  rw [reconciled]
  split_ifs
  · exact .inl rfl
  · exact .inr rfl

/-- A number is taken for the position unless it is close to it. -/
theorem reconciled_kept_iff {actual before v : ℚ} :
    (reconciled before (.number v) = .number actual ∨
        reconciled before (.number v) = .number before) ↔
      v = actual ∨ |v - before| ≤ 0.001 := by
  rw [reconciled_number_iff]
  constructor
  · rintro (h | h)
    · rcases reconciled_number_cases before v with hsame | hkept
      · rw [hsame, Double.number.injEq] at h
        exact .inl h
      · exact .inr (reconciled_number_iff.mp hkept)
    · exact .inr h
  · rintro (rfl | h)
    · exact (reconciled_number_cases before v).imp_right reconciled_number_iff.mp
    · exact .inr h

/-- The response states for the coin the position of the account, or a number close to the position
of the engine, or NaN; or it states nothing, and then the account reports itself flat in the coin,
or the engine is. -/
def Harmless (st : ClearinghouseState) (coin : String) (before : ℚ)
    (response : Option HttpResponse) : Prop :=
  (∃ v, Stated response coin (.number v) ∧ (v = st.position coin ∨ |v - before| ≤ 0.001)) ∨
    Stated response coin .nan ∨
      (∀ d, ¬ Stated response coin d) ∧
        (st.Answers coin response ∧ st.position coin = 0 ∨ |before| ≤ 0.001)

/-- A response states one thing. -/
theorem Stated.unique {response : Option HttpResponse} {coin : String} {d d' : Double}
    (h : Stated response coin d) (h' : Stated response coin d') : d = d' := by
  rw [← queryHlPosition_of_stated h, queryHlPosition_of_stated h']

theorem uncorrupted_iff_harmless (st : ClearinghouseState) (coin : String) (before : ℚ)
    (response : Option HttpResponse) :
    Uncorrupted (st.position coin) before (reconciled before (queryHlPosition response coin))
        (QueryFails st coin response) ↔
      Harmless st coin before response := by
  by_cases hstated : ∃ d, Stated response coin d
  · obtain ⟨d, hd⟩ := hstated
    have hsilent : ¬ ∀ d, ¬ Stated response coin d := fun h => h d hd
    rw [queryHlPosition_of_stated hd, Uncorrupted,
      and_iff_left fun h : QueryFails st coin response => absurd h.1 hsilent, Harmless]
    cases d with
    | number v =>
      rw [reconciled_kept_iff]
      constructor
      · exact fun h => .inl ⟨v, hd, h⟩
      · rintro (⟨w, hw, h⟩ | hnan | ⟨h, -⟩)
        · cases hd.unique hw
          exact h
        · cases hd.unique hnan
        · exact absurd h hsilent
    | infinity minus =>
      refine iff_of_false (by simp [reconciled]) ?_
      rintro (⟨w, hw, -⟩ | hnan | ⟨h, -⟩)
      · cases hd.unique hw
      · cases hd.unique hnan
      · exact hsilent h
    | nan => exact iff_of_true (.inr rfl) (.inr (.inl hd))
  · push Not at hstated
    have hclose : |(0 : ℚ) - before| ≤ 0.001 ↔ |before| ≤ 0.001 := by rw [zero_sub, abs_neg]
    have hharmless : Harmless st coin before response ↔
        st.Answers coin response ∧ st.position coin = 0 ∨ |before| ≤ 0.001 := by
      constructor
      · rintro (⟨w, hw, -⟩ | hnan | ⟨-, h⟩)
        · exact absurd hw (hstated _)
        · exact absurd hnan (hstated _)
        · exact h
      · exact fun h => .inr (.inr ⟨hstated, h⟩)
    rw [queryHlPosition_of_silent hstated, hharmless, Uncorrupted, reconciled_kept_iff,
      reconciled_number_iff, hclose, QueryFails, eq_comm]
    by_cases hflat : |before| ≤ 0.001
    · exact iff_of_true ⟨.inr hflat, fun _ => hflat⟩ (.inr hflat)
    · simp [hstated, hflat, and_comm]

/-- The position survives a reconciliation exactly when the response is harmless, as every report of
the account is. -/
theorem reconciliation_iff (cfg : EngineConfig) (s : LiveLoop) (t : LoopTick) (venues : Venues)
    (st : ClearinghouseState) (response : Option HttpResponse) :
    (Uncorrupted (st.position cfg.hlCoin) s.engine.hlPositionBase
        ({ s with pc := .reconcile t }.next cfg venues response).1.hlPosition
        (QueryFails st cfg.hlCoin response) ↔
      Harmless st cfg.hlCoin s.engine.hlPositionBase response) ∧
    (st.Answers cfg.hlCoin response → (∀ p ∈ st.positions, p.szi.InRange) →
      Harmless st cfg.hlCoin s.engine.hlPositionBase response) := by
  refine ⟨?_, fun hanswers hrange => ?_⟩
  · rw [s.reconcile_hlPosition]
    exact uncorrupted_iff_harmless st cfg.hlCoin _ response
  · rcases ClearinghouseState.stated_of_answers hanswers hrange with hstated | ⟨hflat, hsilent⟩
    · exact .inl ⟨_, hstated, .inl rfl⟩
    · exact .inr (.inr ⟨hsilent, .inl ⟨hanswers, hflat⟩⟩)

def bareMember (key : String) (value : List Char)
    (h : '"' ∉ key.toList ∧ key.toList ∉ stateKeys ∧ '"' ∉ value) : Member stateKeys where
  key := key.toList
  value
  plain := h.1
  fresh := h.2.1
  silent := fun _ _ => not_infix_of_unquoted h.2.2

theorem hype_unquoted : '"' ∉ "HYPE".toList := by decide

/-- An account that holds one HYPE. -/
def oneHype : ClearinghouseState where
  header := [bareMember "assetPositions" [] (by decide), bareMember "position" [] (by decide)]
  positions :=
    [{ coin := "HYPE".toList
       szi := .ofDigits ['1'] [] (by decide)
       behind := [bareMember "time" ['7'] (by decide)]
       unquoted := hype_unquoted
       fresh := by decide }]
  nodup := List.nodup_singleton _

def oneHypeBody : String :=
  "\x7b\"assetPositions\":[\x7b\"position\":\x7b\"coin\":\"HYPE\",\"szi\":\"1\"\x7d\x7d]," ++
    "\"time\":7\x7d"

example : oneHype.Answers "HYPE" (some { statusCode := 200, body := oneHypeBody }) := by
  have separates := @separators_of_all
  have hlast : Spread id (oneHype.fields.drop 5) "\x7d".toList :=
    .nil (by decide) (by decide)
  have htime : Spread id (oneHype.fields.drop 4) "\x7d\x7d],\"time\":7\x7d".toList :=
    @Spread.cons _ _ id _ _ "\x7d\x7d],".toList _ (by decide) (separates (by decide)) hlast
  have hszi : Spread id (oneHype.fields.drop 3)
      ",\"szi\":\"1\"\x7d\x7d],\"time\":7\x7d".toList :=
    @Spread.cons _ _ id _ _ ",".toList _ (by decide) (separates (by decide)) htime
  have hcoin : Spread id (oneHype.fields.drop 2)
      "\x7b\"coin\":\"HYPE\",\"szi\":\"1\"\x7d\x7d],\"time\":7\x7d".toList :=
    @Spread.cons _ _ id _ _ "\x7b".toList _ (by decide) (separates (by decide)) hszi
  have hposition : Spread id (oneHype.fields.drop 1)
      "[\x7b\"position\":\x7b\"coin\":\"HYPE\",\"szi\":\"1\"\x7d\x7d],\"time\":7\x7d".toList :=
    @Spread.cons _ _ id _ _ "[\x7b".toList _ (by decide) (separates (by decide)) hcoin
  exact ⟨by decide, _, rfl, rfl,
    @Spread.cons _ _ id _ _ "\x7b".toList _ (by decide) (separates (by decide)) hposition⟩

/-- The feed is lost and comes back, up to the query. -/
def feedBack : List LoopEvent :=
  LiveLoop.feedUp ++ LiveLoop.iteration 0 1000 "" ++
    [.readError "eof", .callback (obligingVenues 100 101 1500 "")] ++ LiveLoop.feedUp ++
      (LiveLoop.iteration 0 2000 "").take 4

/-- The position is the account's until the feed comes back and the query throws: it is zero. -/
theorem failed_query_flattens :
    let s := (LiveLoop.machine sampleConfig).final (.start false 1) feedBack
    let synced := s.next sampleConfig (obligingVenues 100 101 2000 "") none
    synced.2 = [.reconciled] ∧ s.engine.hlPositionBase = oneHype.position sampleConfig.hlCoin ∧
      ¬ Uncorrupted (oneHype.position sampleConfig.hlCoin) s.engine.hlPositionBase
        synced.1.hlPosition (QueryFails oneHype sampleConfig.hlCoin none) := by
  intro s synced
  have hreal : oneHype.position sampleConfig.hlCoin = 1 := by decide +kernel
  have hbefore : s.engine.hlPositionBase = 1 := by decide +kernel
  have hafter : synced.1.hlPosition = .number 0 := by decide +kernel
  refine ⟨by decide +kernel, hbefore.trans hreal.symm, fun h => ?_⟩
  have hfails : QueryFails oneHype sampleConfig.hlCoin none := by
    refine ⟨?_, ?_⟩
    · rintro d ⟨resp, hresp, -⟩
      cases hresp
    · rintro ⟨-, resp, hresp, -⟩
      cases hresp
  have hkept := h.2 hfails
  rw [hafter, hbefore] at hkept
  cases hkept

end Arb
