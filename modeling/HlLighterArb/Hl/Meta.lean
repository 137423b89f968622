import HlLighterArb.Hl.Signing
import HlLighterArb.Lib.Machine
import HlLighterArb.Lib.Matches
import HlLighterArb.Lighter.AccountMessages

/-!
# HlLighterArb.Hl.Meta

`ensure_meta`: the assets of HL, read once from its universe and kept for the life of the process.
An asset is the index of its coin in the universe; the code counts the entries its expression
matches, which are those with the decimals and the name in front.

* `readEntry`: what the expression matches; `ensureMeta`: the loop over its matches, which may end
  with an exception and keep the entries before it.
* `MetaListing`: a universe as the exchange writes it, whose coins may have their members in any
  order.
* `readEntries_listing`: the coins that are matched.
* `assets_of_one_universe`: every coin an action names is one coin of one universe.
-/

namespace Arb

open KeyText Matches

namespace HlMeta

/-! ## Reading -/

/-- `none` where the text does not start with the pattern. -/
def behindPrefix (pat s : List Char) : Option (List Char) :=
  if pat <+: s then some (s.drop pat.length) else none

def entryStart : List Char := "\x7b\"szDecimals\":".toList

def entryName : List Char := ",\"name\":\"".toList

/-- What `\{"szDecimals":([0-9]+),"name":"([^"]+)"` matches at the start of a text. -/
def readEntry (s : List Char) : Option ((List Char × List Char) × List Char) := do
  let decimals ← behindPrefix entryStart s
  let szDecimals ← unsignedDigits decimals
  let rest ← behindPrefix entryName (Text.afterDigits decimals)
  let name ← quoted rest
  return ((szDecimals, name), rest.drop (name.length + 1))

/-- The loop of `ensure_meta` from an asset on, and whether it ends: `std::stoi` may throw. -/
def loadEntries : Nat → List (List Char × List Char) → List (String × MetaEntry) × Bool
  | _, [] => ([], true)
  | asset, entry :: entries =>
    match Text.stoi entry.1 with
    | none => ([], false)
    | some szDecimals =>
      let loaded := loadEntries (asset + 1) entries
      ((String.ofList entry.2, { asset := Int32.ofNat asset, szDecimals }) :: loaded.1, loaded.2)

def loadMeta (body : List Char) : List (String × MetaEntry) × Bool :=
  loadEntries 0 (allMatches readEntry body)

/-! ## Looking up -/

/-- What `meta_` holds of a coin: `emplace` keeps the first entry of a name. -/
def table (entries : List (String × MetaEntry)) (coin : String) : Option MetaEntry :=
  (entries.find? fun e => e.1 = coin).map (·.2)

/-- A call of `meta_for_coin`, with the answer to its request where it makes one: `none` when the
request throws. -/
structure Call where
  coin : String
  response : Option (List Char)

inductive Obs where
  | found (coin : String) (entry : MetaEntry)
  | threw (coin : String)

/-- What `meta_` holds behind `ensure_meta`, and whether the call returned. -/
def ensureMeta (entries : List (String × MetaEntry)) (response : Option (List Char)) :
    List (String × MetaEntry) × Bool :=
  if ¬ entries.isEmpty then (entries, true)
  else
    match response with
    | none => ([], false)
    | some body => loadMeta body

def metaForCoin (entries : List (String × MetaEntry)) (call : Call) :
    List (String × MetaEntry) × List Obs :=
  let ensured := ensureMeta entries call.response
  (ensured.1,
    match ensured.2, table ensured.1 call.coin with
    | true, some entry => [.found call.coin entry]
    | _, _ => [.threw call.coin])

def machine : EventMachine (List (String × MetaEntry)) Call Obs := ⟨metaForCoin⟩

/-! ## One table for the process -/

/-- What is held comes from one of the responses, and every answer from what is held. -/
structure OneTable (calls : List Call) (obs : List Obs) (entries : List (String × MetaEntry)) :
    Prop where
  loaded : entries = [] ∨ ∃ call ∈ calls, ∃ body, call.response = some body ∧
    entries = (loadMeta body).1
  answers : ∀ coin entry, .found coin entry ∈ obs → table entries coin = some entry

theorem ensureMeta_cases (entries : List (String × MetaEntry)) (response : Option (List Char)) :
    (ensureMeta entries response).1 = entries ∨
      entries = [] ∧ ∃ body, response = some body ∧
        (ensureMeta entries response).1 = (loadMeta body).1 := by
  cases entries with
  | cons e es => exact .inl rfl
  | nil =>
    cases response with
    | none => exact .inl rfl
    | some body => exact .inr ⟨rfl, body, rfl, rfl⟩

theorem metaForCoin_found {entries : List (String × MetaEntry)} {call : Call} {coin : String}
    {entry : MetaEntry} (h : .found coin entry ∈ (metaForCoin entries call).2) :
    table (metaForCoin entries call).1 coin = some entry := by
  simp only [metaForCoin] at h ⊢
  split at h
  · next hfound =>
    simp only [List.mem_singleton, Obs.found.injEq] at h
    obtain ⟨rfl, rfl⟩ := h
    exact hfound
  · simp at h

theorem oneTable (calls : List Call) :
    OneTable calls (machine.obs [] calls) (machine.final [] calls) := by
  induction calls using List.reverseRecOn with
  | nil => exact ⟨.inl rfl, nofun⟩
  | append_singleton calls call ih =>
    rw [EventMachine.obs_snoc, EventMachine.final_snoc]
    generalize machine.final [] calls = entries at ih ⊢
    have hnew {coin : String} {entry : MetaEntry}
        (h : .found coin entry ∈ (machine.step entries call).2) :
        table (machine.step entries call).1 coin = some entry := metaForCoin_found h
    have hstate : (machine.step entries call).1 = (ensureMeta entries call.response).1 := rfl
    rcases ensureMeta_cases entries call.response with hsame | ⟨rfl, body, hbody, hload⟩
    · refine ⟨?_, fun coin entry h => ?_⟩
      · rw [hstate, hsame]
        refine ih.loaded.imp_right ?_
        rintro ⟨old, hold, h⟩
        exact ⟨old, List.mem_append_left _ hold, h⟩
      · rcases List.mem_append.mp h with hpast | hnow
        · rw [hstate, hsame]
          exact ih.answers coin entry hpast
        · exact hnew hnow
    -- nothing was held, so nothing was answered
    · refine ⟨.inr ⟨call, by simp, body, hbody, hstate.trans hload⟩, fun coin entry h => ?_⟩
      rcases List.mem_append.mp h with hpast | hnow
      · cases ih.answers coin entry hpast
      · exact hnew hnow

/-! ## The universe -/

def coinKeys : List (List Char) := ["szDecimals", "name"].map String.toList

theorem coinKeys_plain : ∀ name ∈ coinKeys, PlainName name := by
  decide

/-- What the loop reads of a coin. -/
structure CoinMembers where
  szDecimals : Nat
  name : List Char
  nameUnquoted : '"' ∉ name
  nameFresh : name ∉ coinKeys

def CoinMembers.fields (c : CoinMembers) : List (Field coinKeys) :=
  [.number "szDecimals".toList c.szDecimals (by decide),
    .string coinKeys_plain "name".toList c.name (by decide) c.nameUnquoted c.nameFresh]

/-- A coin of the universe: its decimals and its name among other members, in any order. No member
is an object. -/
structure Coin extends CoinMembers where
  others : List (Member coinKeys) := []
  members : List (Field coinKeys)
  decimalsFit : szDecimals < 2 ^ 31
  nameNonempty : name ≠ []
  anyOrder : members.Perm (toCoinMembers.fields ++ others.map Member.field)
  flat : ∀ f ∈ members, '\x7b' ∉ f.text

theorem entryStart_eq : entryStart = '\x7b' :: (inQuotes "szDecimals".toList ++ [':']) := by
  decide

theorem entryName_eq : entryName = ',' :: (inQuotes "name".toList ++ [':', '"']) := by
  decide

theorem behindPrefix_append (pat s : List Char) : behindPrefix pat (pat ++ s) = some s := by
  rw [behindPrefix, if_pos (List.prefix_append pat s), List.drop_left]

theorem afterDigits_toDigits {c : Char} (hc : c ∈ separators) (n : Nat) (rest : List Char) :
    Text.afterDigits (Nat.toDigits 10 n ++ c :: rest) = c :: rest := by
  have hdigits : ∀ d ∈ Nat.toDigits 10 n, d.isDigit = true :=
    fun d hd => Nat.isDigit_of_mem_toDigits (by decide) (by decide) hd
  have hall : separators.all (fun c => ¬ c.isDigit) = true := by decide
  have hstop : ¬ c.isDigit = true := by simpa using List.all_eq_true.mp hall c hc
  rw [Text.afterDigits, List.dropWhile_append_of_pos hdigits, List.dropWhile_cons_of_neg hstop]

namespace Coin

variable (c : Coin)

def text : List Char := object (c.members.map Field.text)

/-- The decimals and the name stand in front. -/
def Leading : Prop := coinKeys <+: c.members.map Field.key

instance : Decidable c.Leading := inferInstanceAs (Decidable (_ <+: _))

/-- What the expression captures of the coin. -/
def captured : List Char × List Char := (Nat.toDigits 10 c.szDecimals, c.name)

theorem field_eq {f g : Field coinKeys} (hf : f ∈ c.members) (hg : g ∈ c.fields)
    (hkey : f.key = g.key) : f = g := by
  have hkeys : c.fields.map Field.key = coinKeys := rfl
  rcases List.mem_append.mp (c.anyOrder.mem_iff.mp hf) with hlisted | hother
  · refine List.inj_on_of_nodup_map ?_ hlisted hg hkey
    rw [hkeys]
    decide
  · obtain ⟨m, -, rfl⟩ := List.mem_map.mp hother
    have hmem : g.key ∈ c.fields.map Field.key := List.mem_map_of_mem hg
    rw [hkeys, ← hkey] at hmem
    exact absurd hmem m.fresh

theorem members_of_leading (h : c.Leading) : ∃ rest, c.members = c.fields ++ rest := by
  obtain ⟨keys, hkeys⟩ := h
  have hfields : c.members.map Field.key = "szDecimals".toList :: "name".toList :: keys :=
    hkeys.symm
  obtain ⟨f, fs, hf, hfirst, hmore⟩ := List.map_eq_cons_iff.mp hfields
  obtain ⟨g, gs, rfl, hsecond, -⟩ := List.map_eq_cons_iff.mp hmore
  refine ⟨gs, ?_⟩
  have hszDecimals := @field_eq c f _ (by simp [hf]) (.head _) hfirst
  have hname := @field_eq c g _ (by simp [hf]) (.tail _ (.head _)) hsecond
  rw [hf, hszDecimals, hname]
  rfl

theorem fields_text : c.fields.map Field.text =
    [member "szDecimals".toList (Nat.toDigits 10 c.szDecimals),
      member "name".toList (inQuotes c.name)] :=
  rfl

/-- A coin with the decimals and the name in front is matched. -/
theorem readEntry_leading {tail : List (Field coinKeys)} (h : c.members = c.fields ++ tail)
    (rest : List Char) :
    readEntry (c.text ++ rest) =
      some (c.captured, joined (tail.map Field.text) ++ '\x7d' :: rest) := by
  have htext : c.text ++ rest = entryStart ++ (Nat.toDigits 10 c.szDecimals ++
      ',' :: (inQuotes "name".toList ++ ':' :: (inQuotes c.name ++
        (joined (tail.map Field.text) ++ '\x7d' :: rest)))) := by
    rw [text, h, List.map_append, fields_text, entryStart_eq]
    generalize "szDecimals".toList = key
    generalize "name".toList = name
    simp [object, intercalate_cons, member, joined]
  have hname : ',' :: (inQuotes "name".toList ++ ':' :: (inQuotes c.name ++
      (joined (tail.map Field.text) ++ '\x7d' :: rest))) =
        entryName ++ (c.name ++ '"' :: (joined (tail.map Field.text) ++ '\x7d' :: rest)) := by
    rw [entryName_eq]
    generalize "name".toList = name
    simp [inQuotes]
  have hquoted : quoted (c.name ++ '"' :: (joined (tail.map Field.text) ++ '\x7d' :: rest)) =
      some c.name := by
    rw [quoted, takeWhile_quote c.nameUnquoted, if_pos ⟨c.nameNonempty, by simp⟩]
  have hcomma : ',' ∈ separators := by decide
  simp only [readEntry, htext, behindPrefix_append, unsignedDigits_append _ hcomma,
    afterDigits_toDigits hcomma, Option.bind_eq_bind, Option.bind_some]
  rw [hname, behindPrefix_append, Option.bind_some, hquoted, Option.bind_some]
  simp [captured]

/-- Behind the decimals the name has to follow. -/
theorem readEntry_decimals {d : Char} (hd : d ∈ separators) {s : List Char}
    (hname : ¬ entryName <+: d :: s) (n : Nat) :
    readEntry (entryStart ++ (Nat.toDigits 10 n ++ d :: s)) = none := by
  simp only [readEntry, behindPrefix_append, unsignedDigits_append _ hd,
    afterDigits_toDigits hd, Option.bind_eq_bind, Option.bind_some]
  rw [behindPrefix, if_neg hname, Option.bind_none]

/-- Another coin is not. -/
theorem readEntry_other (h : ¬ c.Leading) (rest : List Char) :
    readEntry (c.text ++ rest) = none := by
  cases hmembers : c.members with
  | nil =>
    have hmem : _ ∈ c.members := c.anyOrder.mem_iff.mpr (.head _)
    rw [hmembers] at hmem
    cases hmem
  | cons f fs =>
    have htext : c.text ++ rest =
        '\x7b' :: (f.text ++ (joined (fs.map Field.text) ++ '\x7d' :: rest)) := by
      simp [text, hmembers, object, intercalate_cons]
    by_cases hkey : f.key = "szDecimals".toList
    · have hf := @field_eq c f _ (by simp [hmembers]) (.head _) hkey
      have hvalue : f.text = member "szDecimals".toList (Nat.toDigits 10 c.szDecimals) := by
        rw [hf]
        rfl
      have hstart : c.text ++ rest = entryStart ++ (Nat.toDigits 10 c.szDecimals ++
          (joined (fs.map Field.text) ++ '\x7d' :: rest)) := by
        rw [htext, hvalue, entryStart_eq]
        generalize "szDecimals".toList = key
        simp [member]
      rw [hstart]
      cases fs with
      | nil =>
        refine readEntry_decimals (show '\x7d' ∈ separators by decide) (fun h' => ?_) _
        rw [entryName_eq] at h'
        exact absurd (List.cons_prefix_cons.mp h').1 (by decide)
      | cons g gs =>
        have hjoined : joined ((g :: gs).map Field.text) ++ '\x7d' :: rest =
            ',' :: (member g.key g.value ++ (joined (gs.map Field.text) ++ '\x7d' :: rest)) := by
          simp [joined, Field.text]
        rw [hjoined]
        refine readEntry_decimals (show ',' ∈ separators by decide) (fun h' => h ?_) _
        rw [entryName_eq] at h'
        have hname := (member_prefix_iff (by decide) g.plain _).mp (List.cons_prefix_cons.mp h').2
        rw [Leading, hmembers, List.map_cons, List.map_cons, hkey, ← hname.1]
        exact List.prefix_append coinKeys _
    · have hstart : ¬ entryStart <+: c.text ++ rest := by
        rw [htext, entryStart_eq, Field.text]
        intro h'
        have hname := (member_prefix_iff (by decide) f.plain _).mp (List.cons_prefix_cons.mp h').2
        exact hkey hname.1.symm
      rw [readEntry, behindPrefix, if_neg hstart]
      rfl

/-- What the loop is given of a coin. -/
def matched : List (List Char × List Char) := if c.Leading then [c.captured] else []

theorem readEntry_of_head {d : Char} (hd : d ≠ '\x7b') (s : List Char) :
    readEntry (d :: s) = none := by
  have hstart : ¬ entryStart <+: d :: s := by
    rw [entryStart_eq]
    exact fun h => hd (List.cons_prefix_cons.mp h).1.symm
  rw [readEntry, behindPrefix, if_neg hstart]
  rfl

theorem allMatches_flat {s : List Char} (hs : '\x7b' ∉ s) (rest : List Char) :
    allMatches readEntry (s ++ rest) = allMatches readEntry rest := by
  refine allMatches_skip fun d t ht => readEntry_of_head ?_ _
  rintro rfl
  exact hs (ht.subset (List.mem_cons_self ..))

theorem not_mem_joined {fs : List (Field coinKeys)} (h : ∀ f ∈ fs, '\x7b' ∉ f.text) :
    '\x7b' ∉ joined (fs.map Field.text) := by
  intro hmem
  obtain ⟨t, ht, hin⟩ := List.mem_flatMap.mp hmem
  obtain ⟨f, hf, rfl⟩ := List.mem_map.mp ht
  rcases List.mem_cons.mp hin with heq | hin
  · exact absurd heq (by decide)
  · exact h f hf hin

/-- A coin is matched once, or not at all. -/
theorem allMatches_text (rest : List Char) :
    allMatches readEntry (c.text ++ rest) = c.matched ++ allMatches readEntry rest := by
  have hclose : allMatches readEntry ('\x7d' :: rest) = allMatches readEntry rest :=
    @allMatches_flat ['\x7d'] (by decide) rest
  by_cases h : c.Leading
  · obtain ⟨tail, htail⟩ := c.members_of_leading h
    have hflat : '\x7b' ∉ joined (tail.map Field.text) :=
      not_mem_joined fun f hf => c.flat f (htail ▸ List.mem_append_right _ hf)
    obtain ⟨front, hfront⟩ : ∃ front, c.text ++ rest =
        '\x7b' :: (front ++ (joined (tail.map Field.text) ++ '\x7d' :: rest)) := by
      rw [text, htail, List.map_append, fields_text]
      exact ⟨member "szDecimals".toList (Nat.toDigits 10 c.szDecimals) ++
        ',' :: member "name".toList (inQuotes c.name), by simp [object, intercalate_cons, joined]⟩
    have hread := c.readEntry_leading htail rest
    rw [hfront] at hread ⊢
    rw [allMatches_here hread, allMatches_flat hflat, hclose, matched, if_pos h]
    rfl
  · have hread := c.readEntry_other h rest
    have htext : c.text ++ rest =
        ['\x7b'] ++ ([','].intercalate (c.members.map Field.text) ++ '\x7d' :: rest) := by
      simp [text, object]
    have hflat : '\x7b' ∉ [','].intercalate (c.members.map Field.text) := by
      cases hmembers : c.members with
      | nil => exact List.not_mem_nil
      | cons f fs =>
        have hall := List.forall_mem_cons.mp (hmembers ▸ c.flat)
        rw [List.map_cons, intercalate_cons, List.mem_append]
        exact not_or.mpr ⟨hall.1, not_mem_joined hall.2⟩
    have hskip : allMatches readEntry (c.text ++ rest) =
        allMatches readEntry ([','].intercalate (c.members.map Field.text) ++ '\x7d' :: rest) := by
      rw [htext] at hread ⊢
      refine allMatches_skip fun d t ht => ?_
      have ht : d :: t = ['\x7b'] := by
        rcases List.suffix_cons_iff.mp ht with h | h
        · exact h
        · cases List.suffix_nil.mp h
      obtain ⟨rfl, rfl⟩ := List.cons.inj ht
      exact hread
    rw [hskip, allMatches_flat hflat, hclose, matched, if_neg h, List.nil_append]

end Coin

/-- The response to the request, with the universe in an array. -/
structure Listing where
  header : List Char
  coins : List Coin
  footer : List Char
  onlyCoins : ¬ entryStart <:+: header ∧ ¬ entryStart <:+: footer
  fits : coins.length < 2 ^ 31

def Listing.text (l : Listing) : List Char :=
  l.header ++ (array (l.coins.map Coin.text) ++ l.footer)

theorem readEntry_of_silent {s : List Char} (hs : ¬ entryStart <+: s) : readEntry s = none := by
  rw [readEntry, behindPrefix, if_neg hs]
  rfl

theorem allMatches_silent {s : List Char} (hs : ¬ entryStart <:+: s) :
    allMatches readEntry s = [] :=
  allMatches_eq_nil fun _ _ ht => readEntry_of_silent fun h =>
    hs (h.isInfix.trans ht.isInfix)

/-- The loop is given the coins with the decimals and the name in front. -/
theorem readEntries_listing (l : Listing) :
    allMatches readEntry l.text = l.coins.flatMap Coin.matched := by
  have hheader (s : List Char) :
      allMatches readEntry (l.header ++ '[' :: s) = allMatches readEntry ('[' :: s) := by
    refine allMatches_skip fun d t ht => readEntry_of_silent fun h => l.onlyCoins.1 ?_
    have hhere := (prefix_append_cons_iff (s := d :: t) (by decide)).mp h
    exact hhere.isInfix.trans ht.isInfix
  have hopen (s : List Char) : allMatches readEntry ('[' :: s) = allMatches readEntry s :=
    @Coin.allMatches_flat ['['] (by decide) s
  have hclose : allMatches readEntry (']' :: l.footer) = [] := by
    rw [show ']' :: l.footer = [']'] ++ l.footer from rfl, Coin.allMatches_flat (by decide),
      allMatches_silent l.onlyCoins.2]
  have hcomma (c : Coin) (rest : List Char) :
      allMatches readEntry (',' :: (c.text ++ rest)) =
        c.matched ++ allMatches readEntry rest := by
    rw [show ',' :: (c.text ++ rest) = [','] ++ (c.text ++ rest) from rfl,
      Coin.allMatches_flat (by decide), c.allMatches_text]
  rw [Listing.text, array, List.cons_append, hheader, hopen, List.append_assoc,
    List.singleton_append]
  cases l.coins with
  | nil => exact hclose
  | cons c cs =>
    have hmore := @allMatches_flatMap _ _ readEntry _ (fun c => ',' :: Coin.text c) Coin.matched cs
      (fun c _ rest => hcomma c rest) (']' :: l.footer)
    rw [hclose, List.append_nil] at hmore
    rw [List.map_cons, intercalate_cons, joined, List.flatMap_map, List.append_assoc,
      c.allMatches_text, hmore, List.flatMap_cons]

/-! ## The table of a universe -/

/-- The first coin of the name that is matched, behind the coins `before`. -/
structure First (coins : List Coin) (coin : String) (before : List Coin) (c : Coin) : Prop where
  split : ∃ after, coins = before ++ c :: after
  leading : c.Leading
  name : c.name = coin.toList
  first : ∀ d ∈ before, d.Leading → d.name ≠ coin.toList

theorem first_cons_iff {c d : Coin} {cs before : List Coin} {coin : String} :
    First (c :: cs) coin before d ↔
      before = [] ∧ d = c ∧ c.Leading ∧ c.name = coin.toList ∨
      ∃ earlier, before = c :: earlier ∧ (c.Leading → c.name ≠ coin.toList) ∧
        First cs coin earlier d := by
  constructor
  · rintro ⟨⟨after, hsplit⟩, hleading, hname, hfirst⟩
    cases before with
    | nil =>
      obtain ⟨rfl, rfl⟩ := List.cons.inj hsplit
      exact .inl ⟨rfl, rfl, hleading, hname⟩
    | cons e earlier =>
      obtain ⟨rfl, rfl⟩ := List.cons.inj hsplit
      obtain ⟨hhere, hearlier⟩ := List.forall_mem_cons.mp hfirst
      exact .inr ⟨earlier, rfl, hhere, ⟨after, rfl⟩, hleading, hname, hearlier⟩
  · rintro (⟨rfl, rfl, hleading, hname⟩ | ⟨earlier, rfl, hhere, h⟩)
    · exact ⟨⟨cs, rfl⟩, hleading, hname, nofun⟩
    · obtain ⟨after, rfl⟩ := h.split
      exact ⟨⟨after, rfl⟩, h.leading, h.name, List.forall_mem_cons.mpr ⟨hhere, h.first⟩⟩

/-- How many coins are matched. -/
def matchedCount (coins : List Coin) : Nat := coins.countP fun c => c.Leading

theorem matchedCount_leading {c : Coin} (h : c.Leading) (cs : List Coin) :
    matchedCount (c :: cs) = 1 + matchedCount cs := by
  rw [matchedCount, List.countP_cons, if_pos (decide_eq_true h), Nat.add_comm]
  rfl

theorem matchedCount_other {c : Coin} (h : ¬ c.Leading) (cs : List Coin) :
    matchedCount (c :: cs) = matchedCount cs :=
  List.countP_cons_of_neg (by simpa using h)

theorem matchedCount_eq_length_iff {coins : List Coin} :
    matchedCount coins = coins.length ↔ ∀ c ∈ coins, c.Leading := by
  simp [matchedCount, List.countP_eq_length]

def Coin.entry (c : Coin) (asset : Nat) : MetaEntry where
  asset := Int32.ofNat asset
  szDecimals := c.szDecimals

theorem loadEntries_captured (c : Coin) (asset : Nat) (entries : List (List Char × List Char)) :
    loadEntries asset (c.captured :: entries) =
      ((String.ofList c.name, c.entry asset) :: (loadEntries (asset + 1) entries).1,
        (loadEntries (asset + 1) entries).2) := by
  have hfits : -2 ^ 31 ≤ (c.szDecimals : Int) ∧ (c.szDecimals : Int) < 2 ^ 31 := by
    have hlt := c.decimalsFit
    omega
  have hstoi := Text.stoi_toString hfits
  rw [Text.int_toList, if_neg (by omega), Int.natAbs_natCast] at hstoi
  rw [loadEntries, Coin.captured]
  simp only [hstoi]
  rfl

/-- The loop comes to its end. -/
theorem loadEntries_returns (coins : List Coin) (asset : Nat) :
    (loadEntries asset (coins.flatMap Coin.matched)).2 = true := by
  induction coins generalizing asset with
  | nil => rfl
  | cons c cs ih =>
    rw [List.flatMap_cons, Coin.matched]
    split_ifs
    · rw [List.singleton_append, loadEntries_captured]
      exact ih (asset + 1)
    · exact ih asset

/-- What the table has of a coin: its asset counts the coins before it that are matched. -/
theorem table_loadEntries_iff (coins : List Coin) (asset : Nat) (coin : String)
    (entry : MetaEntry) :
    table (loadEntries asset (coins.flatMap Coin.matched)).1 coin = some entry ↔
      ∃ before c, First coins coin before c ∧
        entry = c.entry (asset + matchedCount before) := by
  induction coins generalizing asset with
  | nil =>
    refine iff_of_false nofun ?_
    rintro ⟨before, c, ⟨⟨after, hsplit⟩, -, -, -⟩, -⟩
    simp at hsplit
  | cons c cs ih =>
    simp only [first_cons_iff]
    rw [List.flatMap_cons, Coin.matched]
    split_ifs with hleading
    · have hkey : String.ofList c.name = coin ↔ c.name = coin.toList := by
        rw [← String.toList_inj, String.toList_ofList]
      rw [List.singleton_append, loadEntries_captured, table, List.find?_cons]
      by_cases hname : c.name = coin.toList
      · rw [decide_eq_true (hkey.mpr hname), Option.map_some, Option.some.injEq, eq_comm]
        constructor
        · rintro rfl
          exact ⟨[], c, .inl ⟨rfl, rfl, hleading, hname⟩, rfl⟩
        · rintro ⟨_, _, ⟨rfl, rfl, -⟩ | ⟨_, -, hhere, -⟩, rfl⟩
          · rfl
          · exact absurd hname (hhere hleading)
      · rw [decide_eq_false (mt hkey.mp hname)]
        refine (ih (asset + 1)).trans ⟨?_, ?_⟩
        · rintro ⟨before, d, hfirst, rfl⟩
          refine ⟨c :: before, d, .inr ⟨before, rfl, fun _ => hname, hfirst⟩, ?_⟩
          rw [matchedCount_leading hleading, Nat.add_assoc]
        · rintro ⟨_, d, ⟨-, -, -, heq⟩ | ⟨earlier, rfl, -, hfirst⟩, rfl⟩
          · exact absurd heq hname
          · refine ⟨earlier, d, hfirst, ?_⟩
            rw [matchedCount_leading hleading, Nat.add_assoc]
    · refine (ih asset).trans ⟨?_, ?_⟩
      · rintro ⟨before, d, hfirst, rfl⟩
        refine ⟨c :: before, d, .inr ⟨before, rfl, fun h => absurd h hleading, hfirst⟩, ?_⟩
        rw [matchedCount_other hleading]
      · rintro ⟨_, d, ⟨-, -, h, -⟩ | ⟨earlier, rfl, -, hfirst⟩, rfl⟩
        · exact absurd h hleading
        · refine ⟨earlier, d, hfirst, ?_⟩
          rw [matchedCount_other hleading]

theorem loadMeta_listing (l : Listing) :
    loadMeta l.text = loadEntries 0 (l.coins.flatMap Coin.matched) := by
  rw [loadMeta, readEntries_listing]

/-- From a universe exactly the coins that are matched are found. -/
theorem found_in_listing_iff (l : Listing) (coin : String) (entry : MetaEntry) :
    .found coin entry ∈ (metaForCoin [] ⟨coin, some l.text⟩).2 ↔
      ∃ before c, First l.coins coin before c ∧ entry = c.entry (matchedCount before) := by
  have hload : ensureMeta [] (some l.text) = (loadEntries 0 (l.coins.flatMap Coin.matched)) :=
    loadMeta_listing l
  have htable := table_loadEntries_iff l.coins 0 coin entry
  simp only [Nat.zero_add] at htable
  rw [← htable, metaForCoin, hload, loadEntries_returns]
  cases table (loadEntries 0 (l.coins.flatMap Coin.matched)).1 coin with
  | none => simp
  | some found => simp [eq_comm]

/-- What the exchange answers: nothing, a universe, or a text without one. -/
inductive Reply where
  | throws
  | listing (l : Listing)
  | other (body : List Char) (silent : ¬ entryStart <:+: body)

def Reply.body : Reply → Option (List Char)
  | .throws => none
  | .listing l => some l.text
  | .other body _ => some body

def call (c : String × Reply) : Call := ⟨c.1, c.2.body⟩

/-- All coins that actions name in a run are coins of one universe, and the asset of each is its
index there exactly when no coin before it has its members in another order. -/
theorem assets_of_one_universe (calls : List (String × Reply)) :
    ∃ coins : List Coin, ∀ (coin : String) (entry : MetaEntry),
      .found coin entry ∈ machine.obs [] (calls.map call) →
        (∃ c l, (c, .listing l) ∈ calls ∧ coins = l.coins) ∧
        ∃ (before : List Coin) (c : Coin), First coins coin before c ∧
          entry.szDecimals = (c.szDecimals : ℤ) ∧ entry.asset.toInt = (matchedCount before : ℤ) ∧
          (entry.asset.toInt = (before.length : ℤ) ↔ ∀ d ∈ before, d.Leading) := by
  obtain ⟨hloaded, hanswers⟩ := oneTable (calls.map call)
  generalize machine.final [] (calls.map call) = entries at hloaded hanswers
  rcases hloaded with rfl | ⟨_, hcall, body, hbody, rfl⟩
  · exact ⟨[], fun coin entry h => absurd (hanswers coin entry h) (by simp [table])⟩
  obtain ⟨⟨name, reply⟩, hmem, rfl⟩ := List.mem_map.mp hcall
  cases reply with
  | throws => cases hbody
  | other text silent =>
    cases hbody
    refine ⟨[], fun coin entry h => absurd (hanswers coin entry h) ?_⟩
    simp [loadMeta, allMatches_silent silent, loadEntries, table]
  | listing l =>
    cases hbody
    refine ⟨l.coins, fun coin entry h => ⟨⟨name, l, hmem, rfl⟩, ?_⟩⟩
    have htable := hanswers coin entry h
    rw [loadMeta_listing, table_loadEntries_iff] at htable
    obtain ⟨before, c, hfirst, rfl⟩ := htable
    have hasset : (c.entry (0 + matchedCount before)).asset.toInt = matchedCount before := by
      obtain ⟨after, hsplit⟩ := hfirst.split
      have hlength : before.length ≤ l.coins.length := by simp [hsplit]
      have hcount : matchedCount before ≤ before.length := List.countP_le_length
      have hfits := l.fits
      rw [Nat.zero_add]
      exact Int32.toInt_ofNat_of_lt (by omega)
    refine ⟨before, c, hfirst, rfl, hasset, ?_⟩
    rw [hasset, Nat.cast_inj, matchedCount_eq_length_iff]

end HlMeta

end Arb
