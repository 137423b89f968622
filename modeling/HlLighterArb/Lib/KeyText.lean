import HlLighterArb.Lib.Text

/-!
# Lib.KeyText

Texts in which a reader looks for keys in quotes, and what it passes over on the way.

* `inQuotes name`: a name in quotes; `member key value`: a key with its value.
* `infix_append_cons_iff`: an occurrence lies on one side of a character that is not in the pattern.
* `search_append`: a search passes over a text without the pattern.
* `Member keys`: a member that none of `keys` is in quotes in; `joined`: members behind others.
* `betweenQuotes`: the text between the next two quotes.
* `Spread field ms text`: the text has the members `ms`, one after the other; a search for
  a key finds the first member with it (`find_spread_some`) or nothing (`find_spread_none`).
* `firstAfter f ms`: what `f` reads from the first member it reads anything from, and the members
  behind it.
-/

namespace KeyText

def inQuotes (name : List Char) : List Char := '"' :: (name ++ ['"'])

def member (key value : List Char) : List Char := inQuotes key ++ ':' :: value

theorem inQuotes_ne_nil (name : List Char) : inQuotes name ≠ [] := List.cons_ne_nil _ _

/-- A separator is not in a quoted name that does not have it. -/
theorem not_mem_inQuotes {name : List Char} {c : Char} (hquote : c ≠ '"') (h : c ∉ name) :
    c ∉ inQuotes name := by
  simp [inQuotes, hquote, h]

/-! ## Occurrences -/

section Occurrences

variable {pat : List Char} {c : Char}

/-- A prefix does not go past a character it does not have. -/
theorem prefix_append_cons_iff (hc : c ∉ pat) {s rest : List Char} :
    pat <+: s ++ c :: rest ↔ pat <+: s := by
  refine ⟨fun h => ?_, fun h => h.trans (List.prefix_append s (c :: rest))⟩
  rcases List.prefix_or_prefix_of_prefix h (List.prefix_append s (c :: rest)) with
    hshort | ⟨t, rfl⟩
  · exact hshort
  · cases t with
    | nil => simp
    | cons d t =>
      have hcons : d :: t <+: c :: rest := (List.prefix_append_right_inj s).mp h
      obtain rfl := (List.cons_prefix_cons.mp hcons).1
      simp at hc

/-- An occurrence lies on one side of a character that is not in the pattern. -/
theorem infix_append_cons_iff (hc : c ∉ pat) (hne : pat ≠ []) {s rest : List Char} :
    pat <:+: s ++ c :: rest ↔ pat <:+: s ∨ pat <:+: rest := by
  induction s with
  | nil =>
    have hat : ¬ pat <+: c :: rest := by
      rw [← List.nil_append (c :: rest), prefix_append_cons_iff hc, List.prefix_nil]
      exact hne
    rw [List.nil_append, List.infix_cons_iff, List.infix_nil]
    simp only [hat, hne, false_or]
  | cons d s ih =>
    rw [List.cons_append, List.infix_cons_iff, ih, List.infix_cons_iff, or_assoc,
      ← List.cons_append, prefix_append_cons_iff hc]

/-- A search passes over a text without the pattern. -/
theorem search_append {β : Type} {f : List Char → Option β} (hf : ∀ t, ¬ pat <+: t → f t = none)
    (hc : c ∉ pat) (hne : pat ≠ []) {s : List Char} (hs : ¬ pat <:+: s) (rest : List Char) :
    Text.search f (s ++ c :: rest) = Text.search f rest := by
  have hat {t : List Char} (ht : ¬ pat <+: t) : f (t ++ c :: rest) = none :=
    hf _ (by rwa [prefix_append_cons_iff hc])
  induction s with
  | nil =>
    have hnil : ¬ pat <+: [] := fun h => hne (List.prefix_nil.mp h)
    rw [List.nil_append, Text.search, ← List.nil_append (c :: rest), hat hnil, Option.none_or]
  | cons d s ih =>
    obtain ⟨hhere, hlater⟩ := not_or.mp (mt List.infix_cons_iff.mpr hs)
    rw [List.cons_append, Text.search, ← List.cons_append, hat hhere, Option.none_or]
    exact ih hlater

theorem find_append (hc : c ∉ pat) (hne : pat ≠ []) {s : List Char} (hs : ¬ pat <:+: s)
    (rest : List Char) : Text.find pat (s ++ c :: rest) = Text.find pat rest :=
  search_append (fun _ ht => if_neg ht) hc hne hs rest

theorem search_self {β : Type} {f : List Char → Option β} {s : List Char} {b : β}
    (h : f s = some b) : Text.search f s = some b := by
  cases s with
  | nil => exact h
  | cons c s => rw [Text.search, h, Option.some_or]

theorem find_self (rest : List Char) : Text.find pat (pat ++ rest) = some (pat ++ rest) :=
  search_self (if_pos (List.prefix_append pat rest))

end Occurrences

/-! ## Quotes -/

section Quotes

variable {name s : List Char}

theorem takeWhile_quote (hs : '"' ∉ s) (rest : List Char) :
    (s ++ '"' :: rest).takeWhile (· ≠ '"') = s := by
  have hplain : ∀ c ∈ s, decide (c ≠ '"') = true := by
    intro c hc
    simp only [ne_eq, decide_eq_true_eq]
    rintro rfl
    exact hs hc
  rw [List.takeWhile_append_of_pos hplain, List.takeWhile_cons_of_neg (by decide), List.append_nil]

/-- An occurrence of what starts with a quote lies behind a text without one. -/
theorem quote_infix_append_iff (hs : '"' ∉ s) {pat rest : List Char} :
    '"' :: pat <:+: s ++ rest ↔ '"' :: pat <:+: rest := by
  induction s with
  | nil => rfl
  | cons c s ih =>
    obtain ⟨hc, hs⟩ := not_or.mp (mt List.mem_cons.mpr hs)
    rw [List.cons_append, List.infix_cons_iff, ih hs, List.cons_prefix_cons]
    simp only [hc, false_and, false_or]

/-- Text without a quote has no name in quotes. -/
theorem not_infix_of_unquoted (hs : '"' ∉ s) : ¬ inQuotes name <:+: s :=
  fun h => hs (h.subset (List.mem_cons_self ..))

/-- Between two quotes stands the whole of a name. -/
theorem inQuotes_infix_iff (hname : '"' ∉ name) (hs : '"' ∉ s) :
    inQuotes name <:+: inQuotes s ↔ name = s := by
  refine ⟨fun h => ?_, fun h => h ▸ List.infix_rfl⟩
  rcases List.infix_cons_iff.mp h with ⟨t, ht⟩ | hlater
  · have heq : name ++ '"' :: t = s ++ ['"'] := by simpa [inQuotes] using ht
    rw [← takeWhile_quote hname t, heq, takeWhile_quote hs]
  -- one quote is left behind the first
  · have hcount := hlater.sublist.count_le '"'
    have hzero : s.count '"' = 0 := List.count_eq_zero.mpr hs
    simp [inQuotes, List.count_append, hzero] at hcount

theorem inQuotes_prefix_iff (hname : '"' ∉ name) (hs : '"' ∉ s) (rest : List Char) :
    inQuotes name <+: inQuotes s ++ rest ↔ name = s := by
  refine ⟨?_, fun h => h ▸ List.prefix_append _ _⟩
  rintro ⟨t, ht⟩
  have heq : name ++ '"' :: t = s ++ '"' :: rest := by simpa [inQuotes] using ht
  rw [← takeWhile_quote hname t, heq, takeWhile_quote hs]

/-- The text between the next two quotes, and the position of the second. -/
def betweenQuotes (s : List Char) : Option (List Char × List Char) := do
  let start ← Text.after ['"'] s
  let stop ← Text.find ['"'] start
  return (start.takeWhile (· ≠ '"'), stop)

/-- The second quote stands in the text. -/
theorem betweenQuotes_eq_some {value stop : List Char} (h : betweenQuotes s = some (value, stop)) :
    stop <:+ s ∧ stop ≠ [] := by
  simp only [betweenQuotes, bind, Option.bind_eq_some_iff] at h
  obtain ⟨start, hstart, found, hfound, hpair⟩ := h
  cases hpair
  obtain ⟨first, hfirst, rfl⟩ := Option.map_eq_some_iff.mp hstart
  obtain ⟨hsuffix, hquote⟩ := Text.find_eq_some hfound
  refine ⟨hsuffix.trans ((List.drop_suffix _ first).trans (Text.find_eq_some hfirst).1), ?_⟩
  rintro rfl
  exact absurd (List.prefix_nil.mp hquote) (List.cons_ne_nil _ _)

theorem find_char {c : Char} (h : c ∉ s) (rest : List Char) :
    Text.find [c] (s ++ c :: rest) = some (c :: rest) := by
  induction s with
  | nil => exact find_self rest
  | cons d s ih =>
    obtain ⟨hd, hs⟩ := not_or.mp (mt List.mem_cons.mpr h)
    have hhere : ¬ [c] <+: d :: (s ++ c :: rest) := fun hp => hd (List.cons_prefix_cons.mp hp).1
    rw [List.cons_append, Text.find, Text.search, if_neg hhere, Option.none_or]
    exact ih hs

theorem betweenQuotes_append {before : List Char} (hbefore : '"' ∉ before) (hs : '"' ∉ s)
    (rest : List Char) :
    betweenQuotes (before ++ (inQuotes s ++ rest)) = some (s, '"' :: rest) := by
  have hstart : Text.after ['"'] (before ++ (inQuotes s ++ rest)) = some (s ++ '"' :: rest) := by
    rw [Text.after, inQuotes, List.cons_append, find_char hbefore]
    simp
  rw [betweenQuotes, hstart]
  show (Text.find ['"'] (s ++ '"' :: rest)).bind _ = _
  rw [find_char hs, Option.bind_some, takeWhile_quote hs]
  rfl

end Quotes

/-! ## Members -/

section Members

variable {name key value : List Char} {keys : List (List Char)}

def object (members : List (List Char)) : List Char :=
  '\x7b' :: ([','].intercalate members ++ ['\x7d'])

def array (items : List (List Char)) : List Char :=
  '[' :: ([','].intercalate items ++ [']'])

/-- Texts behind others, each with its comma. -/
def joined (ms : List (List Char)) : List Char := ms.flatMap (',' :: ·)

theorem intercalate_cons (m : List Char) (ms : List (List Char)) :
    [','].intercalate (m :: ms) = m ++ joined ms := by
  induction ms generalizing m with
  | nil => simp [joined]
  | cons n ms ih => rw [List.intercalate_cons_cons, ih]; simp [joined]

theorem joined_append_comma (ms : List (List Char)) (rest : List Char) :
    ∃ s, joined ms ++ ',' :: rest = ',' :: s := by
  cases ms with
  | nil => exact ⟨rest, rfl⟩
  | cons m ms => exact ⟨_, rfl⟩

theorem infix_append_joined_iff {pat s : List Char} (hc : ',' ∉ pat) (hne : pat ≠ [])
    (ms : List (List Char)) : pat <:+: s ++ joined ms ↔ pat <:+: s ∨ ∃ m ∈ ms, pat <:+: m := by
  induction ms generalizing s with
  | nil => simp [joined]
  | cons m ms ih =>
    rw [joined, List.flatMap_cons, List.cons_append, infix_append_cons_iff hc hne]
    rw [show m ++ ms.flatMap (',' :: ·) = m ++ joined ms from rfl, ih]
    simp

theorem infix_joined_iff {s : List Char} (hname : ',' ∉ name) (ms : List (List Char)) :
    inQuotes name <:+: s ++ joined ms ↔
      inQuotes name <:+: s ∨ ∃ m ∈ ms, inQuotes name <:+: m :=
  infix_append_joined_iff (not_mem_inQuotes (by decide) hname) (inQuotes_ne_nil name) ms

theorem infix_member_iff (hname : '"' ∉ name ∧ ':' ∉ name) (hkey : '"' ∉ key) :
    inQuotes name <:+: member key value ↔ name = key ∨ inQuotes name <:+: value := by
  rw [member, infix_append_cons_iff (not_mem_inQuotes (by decide) hname.2) (inQuotes_ne_nil name),
    inQuotes_infix_iff hname.1 hkey]

/-- A member that none of the keys is in quotes in. -/
structure Member (keys : List (List Char)) where
  key : List Char
  value : List Char
  plain : '"' ∉ key
  fresh : key ∉ keys
  silent : ∀ name ∈ keys, ¬ inQuotes name <:+: value
  deriving DecidableEq

def Member.text (m : Member keys) : List Char := member m.key m.value

theorem Member.silent_text (m : Member keys) (hname : '"' ∉ name ∧ ':' ∉ name)
    (hmem : name ∈ keys) : ¬ inQuotes name <:+: m.text := by
  rw [Member.text, infix_member_iff hname m.plain]
  rintro (rfl | h)
  · exact m.fresh hmem
  · exact m.silent name hmem h

/-- A member starts with no key but its own, and goes on with its value. -/
theorem member_prefix_iff {pat : List Char} (hname : '"' ∉ name) (hkey : '"' ∉ key)
    (rest : List Char) :
    inQuotes name ++ ':' :: pat <+: member key value ++ rest ↔
      name = key ∧ pat <+: value ++ rest := by
  rw [member, List.append_assoc]
  constructor
  · intro h
    have hquotes : inQuotes name <+: inQuotes key ++ (':' :: value ++ rest) :=
      (List.prefix_append _ _).trans h
    obtain rfl := (inQuotes_prefix_iff hname hkey _).mp hquotes
    exact ⟨rfl, (List.cons_prefix_cons.mp ((List.prefix_append_right_inj _).mp h)).2⟩
  · rintro ⟨rfl, h⟩
    exact (List.prefix_append_right_inj _).mpr (List.cons_prefix_cons.mpr ⟨rfl, h⟩)

/-- A member occurs in another one as its front, or in the other one's value. -/
theorem member_infix_member_iff (hname : '"' ∉ name ∧ ':' ∉ name) (hne : name ≠ [])
    (hkey : '"' ∉ key) {pat : List Char} :
    member name pat <:+: member key value ↔
      name = key ∧ pat <+: value ∨ member name pat <:+: value := by
  obtain ⟨c, name, rfl⟩ := List.exists_cons_of_ne_nil hne
  have hfront : member (c :: name) pat <+: member key value ↔ c :: name = key ∧ pat <+: value := by
    have h := @member_prefix_iff (c :: name) key value pat hname.1 hkey []
    rwa [List.append_nil, List.append_nil] at h
  -- the quote behind the key is followed by a colon
  have hclosing : ¬ member (c :: name) pat <+: '"' :: ':' :: value := by
    intro h
    have hcolon := (List.cons_prefix_cons.mp (List.cons_prefix_cons.mp h).2).1
    exact hname.2 (hcolon ▸ List.mem_cons_self ..)
  have hsplit : member key value = '"' :: (key ++ '"' :: ':' :: value) := by
    simp [member, inQuotes]
  rw [hsplit, List.infix_cons_iff, ← hsplit, hfront]
  have hcolon : '"' ∉ [':'] := by decide
  calc c :: name = key ∧ pat <+: value ∨ member (c :: name) pat <:+: key ++ '"' :: ':' :: value
    _ ↔ c :: name = key ∧ pat <+: value ∨ member (c :: name) pat <:+: '"' :: ':' :: value :=
      or_congr_right (quote_infix_append_iff hkey)
    _ ↔ c :: name = key ∧ pat <+: value ∨ member (c :: name) pat <:+: ':' :: value :=
      or_congr_right (List.infix_cons_iff.trans (or_iff_right hclosing))
    _ ↔ c :: name = key ∧ pat <+: value ∨ member (c :: name) pat <:+: value :=
      or_congr_right (quote_infix_append_iff hcolon)

theorem drop_member (rest : List Char) :
    (member key value ++ rest).drop (inQuotes key).length = ':' :: (value ++ rest) := by
  simp [member]

theorem betweenQuotes_member (hvalue : '"' ∉ value) (rest : List Char) :
    betweenQuotes ((member key (inQuotes value) ++ rest).drop (inQuotes key).length) =
      some (value, '"' :: rest) := by
  rw [drop_member]
  exact betweenQuotes_append (show '"' ∉ [':'] by decide) hvalue rest

/-- A key is found behind a text without it. -/
theorem find_member {before : List Char} {c : Char} (hc : c ≠ '"') (hkey : c ∉ key)
    (hbefore : ¬ inQuotes key <:+: before) (rest : List Char) :
    Text.find (inQuotes key) (before ++ c :: (member key value ++ rest)) =
      some (member key value ++ rest) := by
  rw [find_append (not_mem_inQuotes hc hkey) (inQuotes_ne_nil key) hbefore, member,
    List.append_assoc]
  exact find_self _

theorem not_infix_quote (hname : name ≠ []) : ¬ inQuotes name <:+: ['"'] := by
  intro h
  have hlen := h.length_le
  have hpos : 0 < name.length := List.length_pos_iff.mpr hname
  simp only [inQuotes, List.length_cons, List.length_append, List.length_nil] at hlen
  omega

end Members

/-! ## Texts of many members -/

def separators : List Char := [',', '\x7b', '\x7d', '[', ']']

/-- What a name may consist of, so that a separator or a colon ends it. -/
def PlainName (name : List Char) : Prop :=
  name ≠ [] ∧ '"' ∉ name ∧ ':' ∉ name ∧ separators.all (· ∉ name) = true

instance (name : List Char) : Decidable (PlainName name) :=
  inferInstanceAs (Decidable (_ ∧ _ ∧ _ ∧ _))

/-- A member whose value has none of the keys in quotes. -/
structure Field (keys : List (List Char)) where
  key : List Char
  value : List Char
  plain : '"' ∉ key
  silent : ∀ name ∈ keys, ¬ inQuotes name <:+: value

def Field.text {keys : List (List Char)} (f : Field keys) : List Char := member f.key f.value

section Fields

variable {keys : List (List Char)}

def Member.field (m : Member keys) : Field keys where
  key := m.key
  value := m.value
  plain := m.plain
  silent := m.silent

/-- A member whose value is not a string. -/
def Field.bare (key value : List Char) (plain : '"' ∉ key) (unquoted : '"' ∉ value) :
    Field keys where
  key
  value
  plain
  silent := fun _ _ => not_infix_of_unquoted unquoted

/-- A member whose value is a string and none of the keys. -/
def Field.string (hkeys : ∀ name ∈ keys, PlainName name) (key s : List Char) (plain : '"' ∉ key)
    (unquoted : '"' ∉ s) (fresh : s ∉ keys) : Field keys where
  key
  value := inQuotes s
  plain
  silent := fun name hname => by
    rw [inQuotes_infix_iff (hkeys name hname).2.1 unquoted]
    rintro rfl
    exact fresh hname

/-- A number is none of the keys when these start with a letter. -/
theorem decimal_not_mem
    (hkeys : ∀ key ∈ keys, (key.head?.all fun c => c ≠ '-' ∧ ¬ c.isDigit) = true)
    (d : Text.Decimal) : d.text ∉ keys := by
  obtain ⟨c, s, hcons, hc⟩ := d.text_head
  intro hmem
  have hletter := hkeys d.text hmem
  rw [hcons] at hletter
  simp only [List.head?_cons, Option.all_some, decide_eq_true_eq] at hletter
  exact hc.elim hletter.1 hletter.2

def Field.number (key : List Char) (n : Nat) (plain : '"' ∉ key) : Field keys :=
  .bare key (Nat.toDigits 10 n) plain fun h =>
    absurd (Nat.isDigit_of_mem_toDigits (by decide) (by decide) h) (by decide)

def Field.boolean (key : List Char) (b : Bool) (plain : '"' ∉ key) : Field keys :=
  .bare key (if b then "true".toList else "false".toList) plain (by cases b <;> decide)

/-- A member whose value is a number in quotes. -/
def Field.decimal (hkeys : ∀ name ∈ keys, PlainName name)
    (hletters : ∀ key ∈ keys, (key.head?.all fun c => c ≠ '-' ∧ ¬ c.isDigit) = true)
    (key : List Char) (d : Text.Decimal) (plain : '"' ∉ key) : Field keys :=
  .string hkeys key d.text plain d.unquoted (decimal_not_mem hletters d)

end Fields

/-- The text has these members, with brackets and commas between them. -/
inductive Spread {μ : Type} {keys : List (List Char)} (field : μ → Field keys) :
    List μ → List Char → Prop where
  | nil {c : Char} {rest : List Char} (separates : c ∈ separators)
      (silent : ∀ name ∈ keys, ¬ inQuotes name <:+: rest) : Spread field [] (c :: rest)
  | cons {m : μ} {ms : List μ} {sep rest : List Char} (nonempty : sep ≠ [])
      (separates : ∀ c ∈ sep, c ∈ separators) (spread : Spread field ms rest) :
      Spread field (m :: ms) (sep ++ ((field m).text ++ rest))

section Spread

variable {μ : Type} {keys : List (List Char)} {field : μ → Field keys} {name : List Char}

theorem separators_of_all {sep : List Char}
    (h : sep.all (fun c => decide (c ∈ separators)) = true) : ∀ c ∈ sep, c ∈ separators :=
  fun c hc => of_decide_eq_true (List.all_eq_true.mp h c hc)

theorem separator_not_mem (hname : PlainName name) {c : Char} (hc : c ∈ separators) :
    c ∉ inQuotes name := by
  refine not_mem_inQuotes ?_ (by simpa using List.all_eq_true.mp hname.2.2.2 c hc)
  rintro rfl
  revert hc
  decide

theorem Field.silent_text (f : Field keys) (hname : PlainName name) (hmem : name ∈ keys)
    (hne : name ≠ f.key) : ¬ inQuotes name <:+: f.text := by
  rw [Field.text, infix_member_iff ⟨hname.2.1, hname.2.2.1⟩ f.plain]
  exact not_or.mpr ⟨hne, f.silent name hmem⟩

theorem search_separators {β : Type} {f : List Char → Option β}
    (hf : ∀ t, ¬ inQuotes name <+: t → f t = none) (hname : PlainName name)
    {before sep : List Char} (hbefore : ¬ inQuotes name <:+: before) (hne : sep ≠ [])
    (hsep : ∀ c ∈ sep, c ∈ separators) (rest : List Char) :
    Text.search f (before ++ (sep ++ rest)) = Text.search f rest := by
  induction sep generalizing before with
  | nil => exact absurd rfl hne
  | cons c sep ih =>
    obtain ⟨hc, hsep⟩ := List.forall_mem_cons.mp hsep
    have hnil : ¬ inQuotes name <:+: [] := fun h => inQuotes_ne_nil name (List.infix_nil.mp h)
    rw [List.cons_append, search_append hf (separator_not_mem hname hc) (inQuotes_ne_nil name)
      hbefore]
    cases sep with
    | nil => rfl
    | cons d sep => exact ih hnil (List.cons_ne_nil d sep) hsep

theorem Field.not_infix_tail (f : Field keys) (hname : PlainName name) (hmem : name ∈ keys) :
    ¬ inQuotes name <:+: f.text.tail := by
  have htail : f.text.tail = (f.key ++ ['"']) ++ ':' :: f.value := by
    simp [Field.text, member, inQuotes]
  rw [htail, infix_append_cons_iff (not_mem_inQuotes (by decide) hname.2.2.1)
    (inQuotes_ne_nil name)]
  rintro (h | h)
  -- one quote is left behind the first
  · have hcount := h.sublist.count_le '"'
    have hzero : f.key.count '"' = 0 := List.count_eq_zero.mpr f.plain
    simp [inQuotes, List.count_append, hzero] at hcount
  · exact f.silent name hmem h

section SearchSpread

variable {β : Type} {f : List Char → Option β} {before text : List Char}

/-- A search for something behind a key passes over the members it finds nothing in. -/
theorem search_spread (hf : ∀ t, ¬ inQuotes name <+: t → f t = none) (hname : PlainName name)
    (hmem : name ∈ keys) {earlier later : List μ} (hbefore : ¬ inQuotes name <:+: before)
    (h : Spread field (earlier ++ later) text)
    (hearlier : ∀ m ∈ earlier, ∀ rest, f ((field m).text ++ rest) = none) :
    ∃ before' text', Text.search f (before ++ text) = Text.search f (before' ++ text') ∧
      ¬ inQuotes name <:+: before' ∧ Spread field later text' := by
  induction earlier generalizing before text with
  | nil => exact ⟨before, text, rfl, hbefore, h⟩
  | cons m earlier ih =>
    cases h with
    | @cons _ _ sep rest nonempty separates spread =>
      obtain ⟨hm, hearlier⟩ := List.forall_mem_cons.mp hearlier
      obtain ⟨before', text', heq, hclear, hspread⟩ :=
        ih ((field m).not_infix_tail hname hmem) spread hearlier
      refine ⟨before', text', ?_, hclear, hspread⟩
      have hcons : (field m).text = '"' :: (field m).text.tail := by
        simp [Field.text, member, inQuotes]
      rw [search_separators hf hname hbefore nonempty separates, ← heq, hcons, List.cons_append,
        Text.search, ← List.cons_append, ← hcons, hm, Option.none_or]

theorem search_spread_none (hf : ∀ t, ¬ inQuotes name <+: t → f t = none)
    (hname : PlainName name) (hmem : name ∈ keys) {ms : List μ}
    (hbefore : ¬ inQuotes name <:+: before) (h : Spread field ms text)
    (hnone : ∀ m ∈ ms, ∀ rest, f ((field m).text ++ rest) = none) :
    Text.search f (before ++ text) = none := by
  rw [← List.append_nil ms] at h
  obtain ⟨before', text', heq, hclear, hspread⟩ := search_spread hf hname hmem hbefore h hnone
  cases hspread with
  | nil separates silent =>
    rw [heq, search_append hf (separator_not_mem hname separates) (inQuotes_ne_nil name) hclear,
      Text.search_eq_none_iff]
    exact fun t ht => hf t fun hp => silent name hmem (hp.isInfix.trans ht.isInfix)

/-- The first member with something in it is where the search ends. -/
theorem search_spread_some (hf : ∀ t, ¬ inQuotes name <+: t → f t = none)
    (hname : PlainName name) (hmem : name ∈ keys) {earlier later : List μ} {m : μ}
    (hbefore : ¬ inQuotes name <:+: before) (h : Spread field (earlier ++ m :: later) text)
    (hearlier : ∀ n ∈ earlier, ∀ rest, f ((field n).text ++ rest) = none)
    (hm : ∀ rest, (f ((field m).text ++ rest)).isSome) :
    ∃ rest, Text.search f (before ++ text) = f ((field m).text ++ rest) ∧
      Spread field later rest := by
  obtain ⟨before', text', heq, hclear, hspread⟩ :=
    search_spread hf hname hmem hbefore h hearlier
  cases hspread with
  | @cons _ _ sep rest nonempty separates spread =>
    refine ⟨rest, ?_, spread⟩
    obtain ⟨b, hb⟩ := Option.isSome_iff_exists.mp (hm rest)
    rw [heq, search_separators hf hname hclear nonempty separates, search_self hb, hb]

end SearchSpread

theorem Field.prefix_text_iff (f : Field keys) (hname : PlainName name) (rest : List Char) :
    inQuotes name <+: f.text ++ rest ↔ name = f.key := by
  rw [Field.text, member, List.append_assoc]
  exact inQuotes_prefix_iff hname.2.1 f.plain _

theorem find_spread_none (hname : PlainName name) (hmem : name ∈ keys) {ms : List μ}
    {before text : List Char} (hbefore : ¬ inQuotes name <:+: before) (h : Spread field ms text)
    (hnone : ∀ m ∈ ms, (field m).key ≠ name) :
    Text.find (inQuotes name) (before ++ text) = none := by
  refine search_spread_none (fun _ ht => if_neg ht) hname hmem hbefore h fun m hm rest => if_neg ?_
  rw [(field m).prefix_text_iff hname]
  exact (hnone m hm).symm

/-- The first member with a key is found. -/
theorem find_spread_some (hname : PlainName name) (hmem : name ∈ keys) {earlier later : List μ}
    {m : μ} {before text : List Char} (hbefore : ¬ inQuotes name <:+: before)
    (h : Spread field (earlier ++ m :: later) text)
    (hearlier : ∀ n ∈ earlier, (field n).key ≠ name) (hm : (field m).key = name) :
    ∃ rest, Text.find (inQuotes name) (before ++ text) = some ((field m).text ++ rest) ∧
      Spread field later rest := by
  have hfound (rest : List Char) : inQuotes name <+: (field m).text ++ rest :=
    ((field m).prefix_text_iff hname rest).mpr hm.symm
  obtain ⟨rest, hsearch, hspread⟩ :=
    search_spread_some (fun _ ht => if_neg ht) hname hmem hbefore h
      (fun n hn rest => if_neg <| by
        rw [(field n).prefix_text_iff hname]
        exact (hearlier n hn).symm)
      (fun rest => by rw [if_pos (hfound rest), Option.isSome_some])
  refine ⟨rest, ?_, hspread⟩
  rw [Text.find, hsearch, if_pos (hfound rest)]

theorem Spread.head {ms : List μ} {text : List Char} (h : Spread field ms text) :
    ∃ c rest, text = c :: rest ∧ c ∈ separators := by
  cases h with
  | @nil c rest separates _ => exact ⟨c, rest, rfl, separates⟩
  | @cons m ms sep rest nonempty separates _ =>
    obtain ⟨c, sep, rfl⟩ := List.exists_cons_of_ne_nil nonempty
    exact ⟨c, _, rfl, separates c (List.mem_cons_self ..)⟩

section Build

variable {ns : List μ} {rest : List Char}

theorem Spread.separator (hkeys : ∀ name ∈ keys, PlainName name) {c : Char} (hc : c ∈ separators)
    (h : Spread field ns rest) : Spread field ns (c :: rest) := by
  cases h with
  | nil separates silent =>
    refine .nil hc fun name hname hfound => ?_
    have hplain := hkeys name hname
    have hnil : ¬ inQuotes name <:+: [] := fun h => inQuotes_ne_nil name (List.infix_nil.mp h)
    rw [← List.nil_append (_ :: _), infix_append_cons_iff (separator_not_mem hplain separates)
      (inQuotes_ne_nil name)] at hfound
    exact hfound.elim hnil (silent name hname)
  | @cons m ms sep rest nonempty separates spread =>
    have hsep : ∀ d ∈ c :: sep, d ∈ separators := List.forall_mem_cons.mpr ⟨hc, separates⟩
    exact .cons (List.cons_ne_nil c sep) hsep spread

theorem Spread.joined (ms : List μ) (h : Spread field ns rest) :
    Spread field (ms ++ ns) (KeyText.joined (ms.map fun m => (field m).text) ++ rest) := by
  induction ms with
  | nil => exact h
  | cons m ms ih =>
    have hcons : Spread field (m :: (ms ++ ns)) ([','] ++ ((field m).text ++ _)) :=
      .cons (List.cons_ne_nil ',' []) (List.forall_mem_singleton.mpr (by decide)) ih
    simpa [KeyText.joined] using hcons

theorem Spread.object (hkeys : ∀ name ∈ keys, PlainName name) (ms : List μ)
    (h : Spread field ns rest) :
    Spread field (ms ++ ns) (KeyText.object (ms.map fun m => (field m).text) ++ rest) := by
  have hclose : Spread field ns ('\x7d' :: rest) := h.separator hkeys (by decide)
  cases ms with
  | nil => exact hclose.separator hkeys (by decide)
  | cons m ms =>
    have hcons : Spread field (m :: (ms ++ ns)) (['\x7b'] ++ ((field m).text ++ _)) :=
      .cons (List.cons_ne_nil '\x7b' []) (List.forall_mem_singleton.mpr (by decide))
        (hclose.joined ms)
    simpa [KeyText.object, intercalate_cons] using hcons

theorem Spread.objects (hkeys : ∀ name ∈ keys, PlainName name) (os : List (List μ))
    (h : Spread field ns rest) :
    Spread field (os.flatten ++ ns)
      (KeyText.joined (os.map fun o => KeyText.object (o.map fun m => (field m).text)) ++
        rest) := by
  induction os with
  | nil => exact h
  | cons o os ih =>
    have hcons := (ih.object hkeys o).separator hkeys (show ',' ∈ separators by decide)
    simpa [KeyText.joined] using hcons

theorem Spread.array (hkeys : ∀ name ∈ keys, PlainName name) (os : List (List μ))
    (h : Spread field ns (']' :: rest)) :
    Spread field (os.flatten ++ ns)
      (KeyText.array (os.map fun o => KeyText.object (o.map fun m => (field m).text)) ++
        rest) := by
  cases os with
  | nil => exact h.separator hkeys (by decide)
  | cons o os =>
    have hcons := ((h.objects hkeys os).object hkeys o).separator hkeys
      (show '[' ∈ separators by decide)
    simpa [KeyText.array, intercalate_cons] using hcons

end Build

end Spread

/-! ## The first member of a kind -/

section First

variable {μ β : Type} {f : μ → Option β} {ms ns : List μ} {b : β}

def firstAfter (f : μ → Option β) : List μ → Option (β × List μ)
  | [] => none
  | m :: ms =>
    match f m with
    | some b => some (b, ms)
    | none => firstAfter f ms

theorem firstAfter_append (h : ∀ m ∈ ms, f m = none) :
    firstAfter f (ms ++ ns) = firstAfter f ns := by
  induction ms with
  | nil => rfl
  | cons m ms ih =>
    obtain ⟨hm, hms⟩ := List.forall_mem_cons.mp h
    rw [List.cons_append, firstAfter, hm]
    exact ih hms

theorem firstAfter_cons {m : μ} (h : f m = some b) : firstAfter f (m :: ms) = some (b, ms) := by
  rw [firstAfter, h]

theorem firstAfter_eq_none_iff : firstAfter f ms = none ↔ ∀ m ∈ ms, f m = none := by
  induction ms with
  | nil => simp [firstAfter]
  | cons m ms ih =>
    rw [firstAfter, List.forall_mem_cons, ← ih]
    cases f m <;> simp

theorem firstAfter_eq_some (h : firstAfter f ms = some (b, ns)) :
    ∃ earlier m, ms = earlier ++ m :: ns ∧ (∀ n ∈ earlier, f n = none) ∧ f m = some b := by
  induction ms with
  | nil => cases h
  | cons m ms ih =>
    rw [firstAfter] at h
    cases hm : f m with
    | some a =>
      rw [hm] at h
      cases h
      exact ⟨[], m, rfl, by simp, hm⟩
    | none =>
      rw [hm] at h
      obtain ⟨earlier, n, rfl, hearlier, hn⟩ := ih h
      exact ⟨m :: earlier, n, rfl, List.forall_mem_cons.mpr ⟨hm, hearlier⟩, hn⟩

end First

end KeyText
