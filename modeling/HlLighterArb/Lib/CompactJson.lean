import HlLighterArb.Lib.MsgPack

/-!
# Lib.CompactJson

JSON without white space, for the values it shares with MessagePack: natural numbers, booleans,
strings without escapes, arrays, and objects in the order of their members.

* `render`: a value as text.
* `parse`: the value a text stands for.
* `parse_render`: a plain value is read from its text.
-/

namespace CompactJson

open MsgPack (Value)

/-- A character that stands for itself in a string. -/
def plain (c : Char) : Bool :=
  c ≠ '"' && c ≠ '\\' && ' ' ≤ c

def renderStr (s : String) : List Char :=
  '"' :: s.toList ++ ['"']

mutual

def render : Value → List Char
  | .uint n => Nat.toDigits 10 n
  | .bool b => if b then "true".toList else "false".toList
  | .str s => renderStr s
  | .arr items => '[' :: [','].intercalate (renderItems items) ++ [']']
  | .map fields => '\x7b' :: [','].intercalate (renderFields fields) ++ ['\x7d']
termination_by structural v => v

def renderItems : List Value → List (List Char)
  | [] => []
  | v :: vs => render v :: renderItems vs
termination_by structural vs => vs

def renderFields : List (String × Value) → List (List Char)
  | [] => []
  | f :: fs => renderField f :: renderFields fs
termination_by structural fs => fs

def renderField : String × Value → List Char
  | (key, v) => renderStr key ++ ':' :: render v
termination_by structural f => f

end

/-! ## Reading -/

/-- A string up to its closing quote. -/
def readStr : List Char → Option (List Char × List Char)
  | [] => none
  | c :: cs =>
    if c = '"' then some ([], cs)
    else if plain c then (readStr cs).map fun (s, rest) => (c :: s, rest)
    else none

/-- A natural number, with no zero in front of it. -/
def readNat (cs : List Char) : Option (Nat × List Char) :=
  let digits := cs.takeWhile Char.isDigit
  if digits = ['0'] ∨ digits ≠ [] ∧ digits.head? ≠ some '0' then
    some (Nat.ofDigitChars 10 digits 0, cs.dropWhile Char.isDigit)
  else none

/-- At least one and at most so many items, with commas between them and `close` behind them. -/
def sepBy {α : Type} (p : List Char → Option (α × List Char)) (close : Char) :
    Nat → List Char → Option (List α × List Char)
  | 0, _ => none
  | n + 1, cs => do
    let (a, rest) ← p cs
    match rest with
    | [] => none
    | c :: rest =>
      if c = ',' then do
        let (as, rest) ← sepBy p close n rest
        some (a :: as, rest)
      else if c = close then some ([a], rest) else none

/-- The items up to `close`. -/
def itemsTo {α : Type} (p : List Char → Option (α × List Char)) (close : Char) (n : Nat)
    (cs : List Char) : Option (List α × List Char) :=
  if cs.head? = some close then some ([], cs.tail) else sepBy p close n cs

def member (p : List Char → Option (Value × List Char)) :
    List Char → Option ((String × Value) × List Char)
  | '"' :: cs => do
    let (key, rest) ← readStr cs
    match rest with
    | ':' :: rest => do
      let (v, rest) ← p rest
      some ((String.ofList key, v), rest)
    | _ => none
  | _ => none

/-- `fuel` bounds the depth of the value and the length of its lists. -/
def parseAt : Nat → List Char → Option (Value × List Char)
  | 0, _ => none
  | _ + 1, [] => none
  | fuel + 1, c :: cs =>
    if c = '\x7b' then do
      let (fields, rest) ← itemsTo (member (parseAt fuel)) '\x7d' fuel cs
      some (.map fields, rest)
    else if c = '[' then do
      let (items, rest) ← itemsTo (parseAt fuel) ']' fuel cs
      some (.arr items, rest)
    else if c = '"' then do
      let (s, rest) ← readStr cs
      some (.str (String.ofList s), rest)
    else if c.isDigit then do
      let (n, rest) ← readNat (c :: cs)
      some (.uint n, rest)
    else if "true".toList <+: c :: cs then some (.bool true, cs.drop 3)
    else if "false".toList <+: c :: cs then some (.bool false, cs.drop 4)
    else none

/-- The value a text stands for. -/
def parse (text : String) : Option Value :=
  match parseAt text.length text.toList with
  | some (v, []) => some v
  | _ => none

/-! ## The round trip -/

def PlainStr (s : String) : Prop :=
  ∀ c ∈ s.toList, plain c = true

/-- The strings of the value need no escapes. -/
inductive Plain : Value → Prop where
  | uint (n : Nat) : Plain (.uint n)
  | bool (b : Bool) : Plain (.bool b)
  | str {s : String} (plain : PlainStr s) : Plain (.str s)
  | arr {items : List Value} (all : ∀ v ∈ items, Plain v) : Plain (.arr items)
  | map {fields : List (String × Value)} (keys : ∀ f ∈ fields, PlainStr f.1)
      (values : ∀ f ∈ fields, Plain f.2) : Plain (.map fields)

/-- What follows a number must not go on with a digit. -/
def NoDigit (rest : List Char) : Prop :=
  ∀ c ∈ rest.head?, c.isDigit = false

theorem noDigit_cons {c : Char} (h : c.isDigit = false) (rest : List Char) :
    NoDigit (c :: rest) := by
  simpa [NoDigit] using h

theorem readStr_append {s : List Char} (h : ∀ c ∈ s, plain c = true) (rest : List Char) :
    readStr (s ++ '"' :: rest) = some (s, rest) := by
  induction s with
  | nil => simp [readStr]
  | cons c s ih =>
    obtain ⟨hc, hs⟩ := List.forall_mem_cons.mp h
    have hquote : c ≠ '"' := by
      rintro rfl
      cases hc
    simp [readStr, hquote, hc, ih hs]

theorem takeWhile_digits {ds rest : List Char} (hds : ∀ c ∈ ds, c.isDigit = true)
    (hrest : NoDigit rest) :
    (ds ++ rest).takeWhile Char.isDigit = ds ∧ (ds ++ rest).dropWhile Char.isDigit = rest := by
  induction ds with
  | nil =>
    cases rest with
    | nil => exact ⟨rfl, rfl⟩
    | cons c rest =>
      have hc : c.isDigit = false := hrest c rfl
      simp [hc]
  | cons d ds ih =>
    obtain ⟨hd, hds⟩ := List.forall_mem_cons.mp hds
    simp [hd, ih hds]

/-- The digits of a positive number do not start with a zero. -/
theorem head_toDigits {n : Nat} (h : 0 < n) : (Nat.toDigits 10 n).head? ≠ some '0' := by
  induction n using Nat.strong_induction_on with
  | _ n ih =>
    by_cases hsmall : n < 10
    · have hdigit : ∀ d < 10, 0 < d → Nat.digitChar d ≠ '0' := by decide
      rw [Nat.toDigits_of_lt_base hsmall, List.head?_cons, ne_eq, Option.some.injEq]
      exact hdigit n hsmall h
    · have hhead := ih (n / 10) (by omega) (by omega)
      rw [Nat.toDigits_of_base_le (by decide) (by omega), List.head?_append]
      cases hdigits : Nat.toDigits 10 (n / 10) with
      | nil => exact absurd hdigits Nat.toDigits_ne_nil
      | cons d ds =>
        rw [hdigits] at hhead
        exact hhead

theorem readNat_toDigits (n : Nat) {rest : List Char} (hrest : NoDigit rest) :
    readNat (Nat.toDigits 10 n ++ rest) = some (n, rest) := by
  have hdigits : ∀ c ∈ Nat.toDigits 10 n, c.isDigit = true :=
    fun c hc => Nat.isDigit_of_mem_toDigits (by decide) (by decide) hc
  obtain ⟨htake, hdrop⟩ := takeWhile_digits hdigits hrest
  have hlead : Nat.toDigits 10 n = ['0'] ∨
      Nat.toDigits 10 n ≠ [] ∧ (Nat.toDigits 10 n).head? ≠ some '0' := by
    rcases Nat.eq_zero_or_pos n with rfl | hpos
    · exact .inl rfl
    · exact .inr ⟨Nat.toDigits_ne_nil, head_toDigits hpos⟩
  simp only [readNat, htake, hdrop, if_pos hlead, Nat.ofDigitChars_ten_toDigits]

section Lists

variable {α : Type} {p : List Char → Option (α × List Char)} {enc : α → List Char} {close : Char}
  {as : List α}

theorem length_le_intercalate {a : List Char} {as : List (List Char)} (h : a ∈ as) :
    a.length ≤ ([','].intercalate as).length := by
  induction as with
  | nil => cases h
  | cons x xs ih =>
    cases xs with
    | nil =>
      rw [List.mem_singleton.mp h, List.intercalate_singleton]
    | cons y ys =>
      rw [List.intercalate_cons_cons, List.length_append, List.length_append]
      rcases List.mem_cons.mp h with rfl | hmem
      · omega
      · have := ih hmem
        omega

/-- With a separator each, the items are no more than the text has characters, and one. -/
theorem length_items_le {as : List (List Char)} :
    as.length ≤ ([','].intercalate as).length + 1 := by
  induction as with
  | nil => simp
  | cons x xs ih =>
    cases xs with
    | nil => simp
    | cons y ys =>
      rw [List.intercalate_cons_cons, List.length_append, List.length_append, List.length_cons]
      simp only [List.length_singleton]
      omega

theorem sepBy_intercalate (hne : as ≠ []) (hcomma : close ≠ ',')
    (h : ∀ a ∈ as, ∀ c rest, c = ',' ∨ c = close → p (enc a ++ c :: rest) = some (a, c :: rest))
    {n : Nat} (hn : as.length ≤ n) (rest : List Char) :
    sepBy p close n ([','].intercalate (as.map enc) ++ close :: rest) = some (as, rest) := by
  induction as generalizing n with
  | nil => exact absurd rfl hne
  | cons a as ih =>
    obtain ⟨ha, has⟩ := List.forall_mem_cons.mp h
    obtain ⟨n, rfl⟩ : ∃ m, n = m + 1 := ⟨n - 1, by rw [List.length_cons] at hn; omega⟩
    cases as with
    | nil =>
      have hlast := ha close rest (.inr rfl)
      simp [sepBy, hlast, hcomma]
    | cons b bs =>
      have hmore := ha ',' ([','].intercalate ((b :: bs).map enc) ++ close :: rest) (.inl rfl)
      have hrest := ih (List.cons_ne_nil _ _) has (n := n) (by simpa using hn)
      rw [List.map_cons, List.map_cons, List.intercalate_cons_cons, ← List.map_cons,
        List.append_assoc, List.append_assoc, List.singleton_append, sepBy, hmore]
      simp only [Option.bind_eq_bind, Option.bind_some, if_true, hrest]

theorem itemsTo_intercalate (hcomma : close ≠ ',')
    (h : ∀ a ∈ as, ∀ c rest, c = ',' ∨ c = close → p (enc a ++ c :: rest) = some (a, c :: rest))
    (hhead : ∀ a ∈ as, ∃ c cs, enc a = c :: cs ∧ c ≠ close) {n : Nat} (hn : as.length ≤ n)
    (rest : List Char) :
    itemsTo p close n ([','].intercalate (as.map enc) ++ close :: rest) = some (as, rest) := by
  cases as with
  | nil => simp [itemsTo]
  | cons a as =>
    obtain ⟨c, cs, hc, hclose⟩ := hhead a (List.mem_cons_self ..)
    have hfirst : ([','].intercalate ((a :: as).map enc) ++ close :: rest).head? ≠ some close := by
      rw [List.map_cons, hc, List.intercalate_cons_cons_left]
      simpa using hclose
    rw [itemsTo, if_neg hfirst]
    exact sepBy_intercalate (List.cons_ne_nil _ _) hcomma h hn rest

end Lists

theorem renderItems_eq (items : List Value) : renderItems items = items.map render := by
  induction items with
  | nil => rfl
  | cons v vs ih => rw [renderItems, ih, List.map_cons]

theorem renderFields_eq (fields : List (String × Value)) :
    renderFields fields = fields.map renderField := by
  induction fields with
  | nil => rfl
  | cons f fs ih => rw [renderFields, ih, List.map_cons]

/-- No value starts like the end of a list. -/
theorem render_head (v : Value) : ∃ c cs, render v = c :: cs ∧ c ≠ ']' := by
  cases v with
  | uint n =>
    cases hdigits : Nat.toDigits 10 n with
    | nil => exact absurd hdigits Nat.toDigits_ne_nil
    | cons d ds =>
      refine ⟨d, ds, hdigits, ?_⟩
      rintro rfl
      have hdigit : (']' : Char).isDigit = true :=
        Nat.isDigit_of_mem_toDigits (by decide) (by decide) (hdigits ▸ List.mem_cons_self ..)
      cases hdigit
  | bool b => cases b <;> exact ⟨_, _, rfl, by decide⟩
  | str s => exact ⟨_, _, rfl, by decide⟩
  | arr items => exact ⟨_, _, rfl, by decide⟩
  | map fields => exact ⟨_, _, rfl, by decide⟩

theorem renderField_head (f : String × Value) : ∃ c cs, renderField f = c :: cs ∧ c ≠ '\x7d' := by
  obtain ⟨key, v⟩ := f
  exact ⟨'"', _, rfl, by decide⟩

theorem parseAt_digits (fuel n : Nat) {rest : List Char} (hrest : NoDigit rest) :
    parseAt (fuel + 1) (Nat.toDigits 10 n ++ rest) = some (.uint n, rest) := by
  have hread := readNat_toDigits n hrest
  cases hdigits : Nat.toDigits 10 n with
  | nil => exact absurd hdigits Nat.toDigits_ne_nil
  | cons d ds =>
    have hdigit : d.isDigit = true :=
      Nat.isDigit_of_mem_toDigits (by decide) (by decide) (hdigits ▸ List.mem_cons_self ..)
    -- a digit is none of the characters that start the other values
    have hother : d ≠ '\x7b' ∧ d ≠ '[' ∧ d ≠ '"' := by
      refine ⟨?_, ?_, ?_⟩ <;> rintro rfl <;> cases hdigit
    rw [hdigits, List.cons_append] at hread
    simp [parseAt, hother, hdigit, hread]

/-- With fuel for the length of its text, a plain value is read from it. -/
theorem parseAt_render (fuel : Nat) {v : Value} (hplain : Plain v)
    (hfuel : (render v).length ≤ fuel) {rest : List Char} (hrest : NoDigit rest) :
    parseAt fuel (render v ++ rest) = some (v, rest) := by
  induction fuel generalizing v rest with
  | zero =>
    obtain ⟨c, cs, hc, -⟩ := render_head v
    rw [hc] at hfuel
    cases hfuel
  | succ fuel ih =>
    cases hplain with
    | uint n => exact parseAt_digits fuel n hrest
    | bool b => cases b <;> simp [render, parseAt]
    | @str s hs =>
      have hread := readStr_append hs rest
      simp [render, renderStr, parseAt, hread]
    | @arr items all =>
      rw [render, renderItems_eq] at hfuel ⊢
      simp only [List.length_append, List.length_cons, List.length_nil] at hfuel
      have hcount := @length_items_le (items.map render)
      have hitems : ∀ v ∈ items, ∀ c rest, c = ',' ∨ c = ']' →
          parseAt fuel (render v ++ c :: rest) = some (v, c :: rest) := by
        intro v hv c rest hc
        have := @length_le_intercalate (render v) _ (List.mem_map_of_mem hv)
        exact ih (all v hv) (by omega) (noDigit_cons (by rcases hc with rfl | rfl <;> rfl) rest)
      have hlist := itemsTo_intercalate (by decide) hitems (fun v _ => render_head v)
        (n := fuel) (by rw [List.length_map] at hcount; omega) rest
      simp [parseAt, hlist]
    | @map fields keys values =>
      rw [render, renderFields_eq] at hfuel ⊢
      simp only [List.length_append, List.length_cons, List.length_nil] at hfuel
      have hcount := @length_items_le (fields.map renderField)
      have hfields : ∀ f ∈ fields, ∀ c rest, c = ',' ∨ c = '\x7d' →
          member (parseAt fuel) (renderField f ++ c :: rest) = some (f, c :: rest) := by
        rintro ⟨key, v⟩ hf c rest hc
        have hle := @length_le_intercalate (renderField (key, v)) _ (List.mem_map_of_mem hf)
        rw [renderField, List.length_append, List.length_cons] at hle
        have hkey : ∀ c ∈ key.toList, plain c = true := keys _ hf
        have hplain : Plain v := values _ hf
        have hends : NoDigit (c :: rest) :=
          noDigit_cons (by rcases hc with rfl | rfl <;> rfl) rest
        have hvalue := ih hplain (by omega) hends
        have hread := readStr_append hkey (':' :: (render v ++ c :: rest))
        simp [renderField, renderStr, member, hread, hvalue]
      have hlist := itemsTo_intercalate (by decide) hfields
        (fun f _ => renderField_head f) (n := fuel)
        (by rw [List.length_map] at hcount; omega) rest
      simp [parseAt, hlist]

/-- The round trip. -/
theorem parse_render {v : Value} (hplain : Plain v) :
    parse (String.ofList (render v)) = some v := by
  have hread := @parseAt_render (render v).length v hplain le_rfl [] (by simp [NoDigit])
  rw [List.append_nil] at hread
  rw [parse, String.length_ofList, String.toList_ofList, hread]

/-! ## Which values are plain -/

@[simp] theorem plain_uint {n : Nat} : Plain (.uint n) ↔ True :=
  iff_true_intro (.uint n)

@[simp] theorem plain_bool {b : Bool} : Plain (.bool b) ↔ True :=
  iff_true_intro (.bool b)

@[simp] theorem plain_str {s : String} : Plain (.str s) ↔ PlainStr s :=
  ⟨fun h => by cases h; assumption, .str⟩

@[simp] theorem plain_arr {items : List Value} : Plain (.arr items) ↔ ∀ v ∈ items, Plain v :=
  ⟨fun h => by cases h; assumption, .arr⟩

@[simp] theorem plain_map {fields : List (String × Value)} :
    Plain (.map fields) ↔ ∀ f ∈ fields, PlainStr f.1 ∧ Plain f.2 := by
  constructor
  · intro h
    cases h with
    | map keys values => exact fun f hf => ⟨keys f hf, values f hf⟩
  · exact fun h => .map (fun f hf => (h f hf).1) fun f hf => (h f hf).2

instance (s : String) : Decidable (PlainStr s) :=
  List.decidableBAll (plain · = true) s.toList

end CompactJson
