import HlLighterArb.Lib.CompactJson
import HlLighterArb.Lib.JsonText

/-!
# Lib.JsonParser

Reading the JSON that `Json.text` writes.

* `readLiteral`, `readNumber`, `readWord`: a string, a number, a word, and the text behind it.
* `Ends`: what may stand behind a value for the value to end there.
* `parse`: the value a text stands for.
* `parse_text`: a value is read from its text; so no text stands for two values.
* `Json.get key`: the value of the first member of an object with this key; `Json.natural`: a natural
  number.
* `ofValue`: a value of `CompactJson`; `ofValue_text`: as text it is the same.
-/

namespace JsonText

open JsonString (Literal Escaped)
open CompactJson (sepBy itemsTo itemsTo_intercalate readNat NoDigit)

/-! ## Reading -/

/-- The characters up to the quote that closes a string; the opening one has been read. -/
def readChars : List Char → Option (List Char × List Char)
  | [] => none
  | '"' :: rest => some ([], rest)
  | '\\' :: c :: rest => (readChars rest).map fun p => ('\\' :: c :: p.1, p.2)
  | c :: rest => if c = '\\' then none else (readChars rest).map fun p => (c :: p.1, p.2)

theorem readChars_escaped {cs chars rest : List Char} (h : readChars cs = some (chars, rest)) :
    Escaped chars := by
  induction cs using readChars.induct generalizing chars with
  | case1 => cases h
  | case2 =>
    cases h
    exact .nil
  | case3 c tail ih =>
    simp only [readChars, Option.map_eq_some_iff, Prod.exists, Prod.mk.injEq] at h
    obtain ⟨chars', _, hread, rfl, rfl⟩ := h
    exact .escape c (ih hread)
  | case4 tail hquote hescape =>
    rw [readChars.eq_4 _ _ hquote hescape, if_pos rfl] at h
    cases h
  | case5 c tail hquote hescape hbackslash ih =>
    rw [readChars.eq_4 _ _ hquote hescape, if_neg hbackslash, Option.map_eq_some_iff] at h
    obtain ⟨⟨chars', _⟩, hread, heq⟩ := h
    cases heq
    exact .plain hquote hbackslash (ih hread)

def readLiteral (cs : List Char) : Option (Literal × List Char) :=
  match h : readChars cs with
  | some (chars, rest) => some (⟨chars, readChars_escaped h⟩, rest)
  | none => none

/-- At least one digit. -/
def readDigits (cs : List Char) : Option (Digits × List Char) :=
  if h : cs.takeWhile Char.isDigit ≠ [] then
    some (⟨cs.takeWhile Char.isDigit, h, fun _ hc => List.mem_takeWhile_imp hc⟩,
      cs.dropWhile Char.isDigit)
  else none

/-- The fraction, when there is one. -/
def readFraction (cs : List Char) : Option (Option Digits × List Char) :=
  match cs with
  | '.' :: cs => (readDigits cs).map fun p => (some p.1, p.2)
  | cs => some (none, cs)

def readSign (cs : List Char) : List Char × List Char :=
  match cs with
  | '+' :: cs => (['+'], cs)
  | '-' :: cs => (['-'], cs)
  | cs => ([], cs)

theorem readSign_one (cs : List Char) : (readSign cs).1 ∈ [[], ['+'], ['-']] := by
  unfold readSign
  split <;> simp

/-- The exponent, when there is one. -/
def readExponent (cs : List Char) : Option (Option Exponent × List Char) :=
  match cs with
  | [] => some (none, [])
  | mark :: cs =>
    if h : mark ∈ ['e', 'E'] then
      (readDigits (readSign cs).2).map fun p =>
        (some ⟨mark, (readSign cs).1, p.1, h, readSign_one cs⟩, p.2)
    else some (none, mark :: cs)

def readMinus (cs : List Char) : Bool × List Char :=
  match cs with
  | '-' :: cs => (true, cs)
  | cs => (false, cs)

def readNumber (cs : List Char) : Option (Number × List Char) := do
  let (whole, rest) ← readNat (readMinus cs).2
  let (fraction, rest) ← readFraction rest
  let (exponent, rest) ← readExponent rest
  some (⟨(readMinus cs).1, whole, fraction, exponent⟩, rest)

def readWord (cs : List Char) : Option (Word × List Char) :=
  [Word.null, Word.true, Word.false].findSome? fun w =>
    if w.text <+: cs then some (w, cs.drop w.text.length) else none

/-- A member of an object. -/
def readMember (p : List Char → Option (Json × List Char)) :
    List Char → Option ((Literal × Json) × List Char)
  | '"' :: cs => do
    let (key, rest) ← readLiteral cs
    match rest with
    | ':' :: rest => (p rest).map fun q => ((key, q.1), q.2)
    | _ => none
  | _ => none

/-- `fuel` bounds the depth of the value and the length of its lists. -/
def parseAt : Nat → List Char → Option (Json × List Char)
  | 0, _ => none
  | _ + 1, [] => none
  | fuel + 1, c :: cs =>
    if c = '\x7b' then
      (itemsTo (readMember (parseAt fuel)) '\x7d' fuel cs).map fun p => (.object p.1, p.2)
    else if c = '[' then
      (itemsTo (parseAt fuel) ']' fuel cs).map fun p => (.array p.1, p.2)
    else if c = '"' then (readLiteral cs).map fun p => (.string p.1, p.2)
    else if c = '-' ∨ c.isDigit then (readNumber (c :: cs)).map fun p => (.number p.1, p.2)
    else (readWord (c :: cs)).map fun p => (.word p.1, p.2)

/-- The value a text stands for. -/
def parse (text : List Char) : Option Json :=
  match parseAt text.length text with
  | some (v, []) => some v
  | _ => none

/-! ## What stands behind a value -/

/-- A number does not go on here. -/
def Ends (rest : List Char) : Prop :=
  ∀ c ∈ rest.head?, c.isDigit = false ∧ c ∉ ['.', 'e', 'E']

theorem Ends.noDigit {rest : List Char} (h : Ends rest) : NoDigit rest :=
  fun c hc => (h c hc).1

theorem ends_cons {c : Char} (h : c ∈ [',', ']', '\x7d']) (rest : List Char) : Ends (c :: rest) := by
  intro d hd
  obtain rfl : c = d := Option.some.inj hd
  revert h
  simp only [List.mem_cons, List.not_mem_nil, or_false]
  rintro (rfl | rfl | rfl) <;> decide

/-! ## Strings, numbers, words -/

theorem readChars_text {chars : List Char} (h : Escaped chars) (rest : List Char) :
    readChars (chars ++ '"' :: rest) = some (chars, rest) := by
  induction h with
  | nil => rfl
  | @plain c cs hquote hbackslash _ ih =>
    rw [List.cons_append, readChars.eq_4, if_neg hbackslash, ih]
    · rfl
    · exact hquote
    · exact fun _ _ h => absurd h hbackslash
  | escape c _ ih => simp [readChars, ih]

theorem readLiteral_text (l : Literal) (rest : List Char) :
    readLiteral (l.chars ++ '"' :: rest) = some (l, rest) := by
  have hchars := readChars_text l.escaped rest
  unfold readLiteral
  split
  · next heq =>
    rw [hchars] at heq
    cases heq
    rfl
  · next heq =>
    rw [hchars] at heq
    cases heq

theorem readDigits_text (ds : Digits) {rest : List Char} (h : NoDigit rest) :
    readDigits (ds.chars ++ rest) = some (ds, rest) := by
  obtain ⟨htake, hdrop⟩ := CompactJson.takeWhile_digits ds.digits h
  simp only [readDigits, htake, hdrop, ne_eq, ds.nonempty, not_false_eq_true, dite_true]

/-- The first character of some digits is one. -/
theorem Digits.head (ds : Digits) : ∃ c cs, ds.chars = c :: cs ∧ c.isDigit = true := by
  obtain ⟨c, cs, h⟩ := List.exists_cons_of_ne_nil ds.nonempty
  exact ⟨c, cs, h, ds.digits c (h ▸ List.mem_cons_self ..)⟩

theorem readSign_digits {sign : List Char} (h : sign ∈ [[], ['+'], ['-']]) (ds : Digits)
    (rest : List Char) : readSign (sign ++ (ds.chars ++ rest)) = (sign, ds.chars ++ rest) := by
  simp only [List.mem_cons, List.not_mem_nil, or_false] at h
  rcases h with rfl | rfl | rfl
  · obtain ⟨c, cs, hcons, hc⟩ := ds.head
    have hne : c ≠ '+' ∧ c ≠ '-' := by constructor <;> rintro rfl <;> cases hc
    rw [List.nil_append, hcons, List.cons_append, readSign.eq_3]
    · rintro _ heq
      cases heq
      exact hne.1 rfl
    · rintro _ heq
      cases heq
      exact hne.2 rfl
  · rfl
  · rfl

theorem readExponent_some (e : Exponent) {rest : List Char} (h : NoDigit rest) :
    readExponent (e.text ++ rest) = some (some e, rest) := by
  rw [Exponent.text, List.cons_append, List.append_assoc, readExponent, dif_pos e.mark_e]
  simp only [readSign_digits e.sign_one e.digits rest, readDigits_text e.digits h, Option.map_some]

theorem readExponent_none {rest : List Char} (h : Ends rest) :
    readExponent rest = some (none, rest) := by
  cases rest with
  | nil => rfl
  | cons c rest =>
    have hmark : c ∉ ['e', 'E'] := fun hc => (h c rfl).2 (List.mem_cons_of_mem _ hc)
    rw [readExponent, dif_neg hmark]

/-- The text of an exponent, or what ends the number, does not go on with a digit or a point. -/
theorem exponent_head (exponent : Option Exponent) {rest : List Char} (h : Ends rest) :
    NoDigit (exponent.elim [] Exponent.text ++ rest) ∧
      (exponent.elim [] Exponent.text ++ rest).head? ≠ some '.' := by
  cases exponent with
  | none =>
    refine ⟨h.noDigit, fun hpoint => ?_⟩
    exact (h '.' hpoint).2 (List.mem_cons_self ..)
  | some e =>
    have hmark := e.mark_e
    simp only [List.mem_cons, List.not_mem_nil, or_false] at hmark
    simp only [Option.elim_some, Exponent.text, List.cons_append, NoDigit, List.head?_cons,
      Option.mem_def, Option.some.injEq, forall_eq']
    rcases hmark with hmark | hmark <;> rw [hmark] <;> decide

theorem readFraction_text (fraction : Option Digits) {rest : List Char} (h : NoDigit rest)
    (hpoint : rest.head? ≠ some '.') :
    readFraction ((fraction.elim [] fun ds => '.' :: ds.chars) ++ rest) = some (fraction, rest) := by
  cases fraction with
  | none =>
    rw [Option.elim_none, List.nil_append, readFraction.eq_2]
    rintro _ rfl
    exact hpoint rfl
  | some ds => simp [readFraction, readDigits_text ds h]

/-- A number ends where its text does. -/
theorem readNumber_text (n : Number) {rest : List Char} (h : Ends rest) :
    readNumber (n.text ++ rest) = some (n, rest) := by
  obtain ⟨minus, whole, fraction, exponent⟩ := n
  obtain ⟨hdigit, hpoint⟩ := exponent_head exponent h
  have hfraction := readFraction_text fraction hdigit hpoint
  have hexponent : readExponent (exponent.elim [] Exponent.text ++ rest) = some (exponent, rest) := by
    cases exponent with
    | none => exact readExponent_none h
    | some e => exact readExponent_some e h.noDigit
  have hbehind : NoDigit ((fraction.elim [] fun ds => '.' :: ds.chars) ++
      (exponent.elim [] Exponent.text ++ rest)) := by
    cases fraction with
    | none => exact hdigit
    | some ds => simp [NoDigit]
  have hwhole := CompactJson.readNat_toDigits whole hbehind
  have hminus : readMinus ((if minus then ['-'] else []) ++ (Nat.toDigits 10 whole ++
      ((fraction.elim [] fun ds => '.' :: ds.chars) ++
        (exponent.elim [] Exponent.text ++ rest)))) =
      (minus, Nat.toDigits 10 whole ++ ((fraction.elim [] fun ds => '.' :: ds.chars) ++
        (exponent.elim [] Exponent.text ++ rest))) := by
    cases minus with
    | true => rfl
    | false =>
      cases hdigits : Nat.toDigits 10 whole with
      | nil => exact absurd hdigits Nat.toDigits_ne_nil
      | cons d ds =>
        have hd : d.isDigit = true :=
          Nat.isDigit_of_mem_toDigits (by decide) (by decide) (hdigits ▸ List.mem_cons_self ..)
        simp only [Bool.false_eq_true, if_false, List.nil_append, List.cons_append]
        rw [readMinus.eq_2]
        rintro _ heq
        cases heq
        cases hd
  simp only [Number.text, List.append_assoc, readNumber, hminus, hwhole, hfraction, hexponent,
    Option.bind_eq_bind, Option.bind_some]

theorem readWord_text (w : Word) (rest : List Char) :
    readWord (w.text ++ rest) = some (w, rest) := by
  cases w <;> simp [readWord, Word.text]

theorem itemTexts_eq (items : List Json) : itemTexts items = items.map Json.text := by
  induction items with
  | nil => rfl
  | cons v vs ih => rw [itemTexts, ih, List.map_cons]

theorem fieldTexts_eq (fields : List (Literal × Json)) : fieldTexts fields = fields.map fieldText := by
  induction fields with
  | nil => rfl
  | cons f fs ih => rw [fieldTexts, ih, List.map_cons]

/-! ## Values -/

/-- A number starts with a minus or a digit. -/
theorem Number.text_head (n : Number) :
    ∃ c cs, n.text = c :: cs ∧ (c = '-' ∨ c.isDigit = true) := by
  obtain ⟨minus, whole, fraction, exponent⟩ := n
  cases minus with
  | true => exact ⟨'-', _, rfl, .inl rfl⟩
  | false =>
    cases hdigits : Nat.toDigits 10 whole with
    | nil => exact absurd hdigits Nat.toDigits_ne_nil
    | cons d ds =>
      refine ⟨d, ds ++ ((fraction.elim [] fun ds => '.' :: ds.chars) ++
        exponent.elim [] Exponent.text), ?_, .inr ?_⟩
      · simp [Number.text, hdigits]
      · exact Nat.isDigit_of_mem_toDigits (by decide) (by decide) (hdigits ▸ List.mem_cons_self ..)

/-- No value starts like the end of a list. -/
theorem Json.text_head (v : Json) : ∃ c cs, v.text = c :: cs ∧ c ≠ ']' := by
  cases v with
  | string l => exact ⟨'"', _, by rw [Json.text, Literal.text], by decide⟩
  | number n =>
    obtain ⟨c, cs, hc, hstart⟩ := n.text_head
    refine ⟨c, cs, by rw [Json.text, hc], ?_⟩
    rintro rfl
    rcases hstart with h | h <;> cases h
  | word w =>
    rw [Json.text]
    cases w <;> exact ⟨_, _, rfl, by decide⟩
  | array items => exact ⟨'[', _, by rw [Json.text], by decide⟩
  | object fields => exact ⟨'\x7b', _, by rw [Json.text], by decide⟩

theorem fieldText_head (f : Literal × Json) : ∃ c cs, fieldText f = c :: cs ∧ c ≠ '\x7d' := by
  obtain ⟨key, v⟩ := f
  exact ⟨'"', _, by rw [fieldText, Literal.text, List.cons_append], by decide⟩

theorem parseAt_number (fuel : Nat) (n : Number) {rest : List Char} (h : Ends rest) :
    parseAt (fuel + 1) (n.text ++ rest) = some (.number n, rest) := by
  have hread := readNumber_text n h
  obtain ⟨c, cs, hc, hstart⟩ := n.text_head
  have hother : c ≠ '\x7b' ∧ c ≠ '[' ∧ c ≠ '"' := by
    refine ⟨?_, ?_, ?_⟩ <;> rintro rfl <;> rcases hstart with h | h <;> cases h
  rw [hc, List.cons_append] at hread ⊢
  simp only [parseAt, if_neg hother.1, if_neg hother.2.1, if_neg hother.2.2, if_pos hstart, hread,
    Option.map_some]

theorem parseAt_word (fuel : Nat) (w : Word) (rest : List Char) :
    parseAt (fuel + 1) (w.text ++ rest) = some (.word w, rest) := by
  have hread := readWord_text w rest
  cases w <;> simp_all [parseAt, Word.text]

/-- With fuel for the length of its text, a value is read from it. -/
theorem parseAt_text (fuel : Nat) (v : Json) (hfuel : v.text.length ≤ fuel) {rest : List Char}
    (hrest : Ends rest) : parseAt fuel (v.text ++ rest) = some (v, rest) := by
  induction fuel generalizing v rest with
  | zero =>
    obtain ⟨c, cs, hc, -⟩ := v.text_head
    rw [hc] at hfuel
    cases hfuel
  | succ fuel ih =>
    cases v with
    | string l =>
      rw [Json.text, Literal.text, List.cons_append, List.append_assoc, List.singleton_append,
        parseAt, if_neg (by decide), if_neg (by decide), if_pos rfl, readLiteral_text]
      rfl
    | number n =>
      rw [Json.text]
      exact parseAt_number fuel n hrest
    | word w =>
      rw [Json.text]
      exact parseAt_word fuel w rest
    | array items =>
      rw [Json.text, itemTexts_eq] at hfuel ⊢
      simp only [List.length_append, List.length_cons, List.length_nil] at hfuel
      have hcount := @CompactJson.length_items_le (items.map Json.text)
      have hitems : ∀ v ∈ items, ∀ c rest, c = ',' ∨ c = ']' →
          parseAt fuel (v.text ++ c :: rest) = some (v, c :: rest) := by
        intro v hv c rest hc
        have := @CompactJson.length_le_intercalate v.text _ (List.mem_map_of_mem hv)
        exact ih v (by omega) (ends_cons (by rcases hc with rfl | rfl <;> decide) rest)
      have hlist := itemsTo_intercalate (by decide) hitems (fun v _ => v.text_head)
        (n := fuel) (by rw [List.length_map] at hcount; omega) rest
      rw [List.cons_append, List.append_assoc, List.singleton_append, parseAt,
        if_neg (by decide), if_pos rfl, hlist]
      rfl
    | object fields =>
      rw [Json.text, fieldTexts_eq] at hfuel ⊢
      simp only [List.length_append, List.length_cons, List.length_nil] at hfuel
      have hcount := @CompactJson.length_items_le (fields.map fieldText)
      have hfields : ∀ f ∈ fields, ∀ c rest, c = ',' ∨ c = '\x7d' →
          readMember (parseAt fuel) (fieldText f ++ c :: rest) = some (f, c :: rest) := by
        rintro ⟨key, v⟩ hf c rest hc
        have hle := @CompactJson.length_le_intercalate (fieldText (key, v)) _
          (List.mem_map_of_mem hf)
        rw [fieldText, List.length_append, List.length_cons] at hle
        have hends : Ends (c :: rest) := ends_cons (by rcases hc with rfl | rfl <;> decide) rest
        have hvalue := ih v (by omega) hends
        rw [fieldText, Literal.text, List.cons_append, List.cons_append, List.append_assoc,
          List.append_assoc, List.singleton_append, List.cons_append, readMember]
        simp only [readLiteral_text, Option.bind_eq_bind, Option.bind_some, hvalue,
          Option.map_some]
      have hlist := itemsTo_intercalate (by decide) hfields
        (fun f _ => fieldText_head f) (n := fuel)
        (by rw [List.length_map] at hcount; omega) rest
      rw [List.cons_append, List.append_assoc, List.singleton_append, parseAt, if_pos rfl, hlist]
      rfl

/-- A value is read from its text. -/
theorem parse_text (v : Json) : parse v.text = some v := by
  have hread := @parseAt_text v.text.length v le_rfl [] (by simp [Ends])
  rw [List.append_nil] at hread
  rw [parse, hread]

/-! ## Members by their key -/

def Json.get (key : String) : Json → Option Json
  | .object fields => (fields.find? fun f => f.1.chars = key.toList).map (·.2)
  | _ => none

theorem Json.get_self {key : String} (h : (Literal.ofText key).chars = key.toList) (v : Json)
    (fields : List (Literal × Json)) :
    (Json.object ((.ofText key, v) :: fields)).get key = some v := by
  simp [Json.get, h]

theorem Json.get_other {key name : String} (h : (Literal.ofText name).chars ≠ key.toList) (v : Json)
    (fields : List (Literal × Json)) :
    (Json.object ((.ofText name, v) :: fields)).get key = (Json.object fields).get key := by
  simp [Json.get, h]

/-- A natural number. -/
def Json.natural : Json → Option Nat
  | .number ⟨false, n, none, none⟩ => some n
  | _ => none

theorem natural_text (n : Nat) : Number.text { whole := n } = Nat.toDigits 10 n := by
  simp [Number.text]

/-! ## Compact values -/

open MsgPack (Value)

mutual

def ofValue : Value → Json
  | .uint n => .number { whole := n }
  | .bool b => .word (if b then .true else .false)
  | .str s => .string (.ofText s)
  | .arr items => .array (ofItems items)
  | .map fields => .object (ofFields fields)
termination_by structural v => v

def ofItems : List Value → List Json
  | [] => []
  | v :: vs => ofValue v :: ofItems vs
termination_by structural vs => vs

def ofFields : List (String × Value) → List (Literal × Json)
  | [] => []
  | f :: fs => ofField f :: ofFields fs
termination_by structural fs => fs

def ofField : String × Value → Literal × Json
  | (key, v) => (.ofText key, ofValue v)
termination_by structural f => f

end

/-- A text without quotes, backslashes and control characters needs no escapes. -/
theorem escape_plain {cs : List Char} (h : ∀ c ∈ cs, CompactJson.plain c = true) :
    JsonString.escape cs = cs := by
  induction cs with
  | nil => rfl
  | cons c cs ih =>
    obtain ⟨hc, hcs⟩ := List.forall_mem_cons.mp h
    simp only [CompactJson.plain, Bool.and_eq_true, decide_eq_true_eq] at hc
    rw [JsonString.escape, if_neg (not_or.mpr hc.1), ih hcs]

theorem ofText_plain {s : String} (h : CompactJson.PlainStr s) :
    (Literal.ofText s).text = CompactJson.renderStr s := by
  have hchars : (Literal.ofText s).chars = s.toList := escape_plain h
  rw [Literal.text, hchars, CompactJson.renderStr, List.cons_append]

theorem ofItems_texts {items : List Value}
    (h : ∀ v ∈ items, (ofValue v).text = CompactJson.render v) :
    itemTexts (ofItems items) = CompactJson.renderItems items := by
  induction items with
  | nil => rfl
  | cons v vs ih =>
    obtain ⟨hv, hvs⟩ := List.forall_mem_cons.mp h
    rw [ofItems, itemTexts, CompactJson.renderItems, hv, ih hvs]

theorem ofFields_texts {fields : List (String × Value)}
    (hkeys : ∀ f ∈ fields, CompactJson.PlainStr f.1)
    (h : ∀ f ∈ fields, (ofValue f.2).text = CompactJson.render f.2) :
    fieldTexts (ofFields fields) = CompactJson.renderFields fields := by
  induction fields with
  | nil => rfl
  | cons f fs ih =>
    obtain ⟨hkey, hkeys⟩ := List.forall_mem_cons.mp hkeys
    obtain ⟨hf, hfs⟩ := List.forall_mem_cons.mp h
    rw [ofFields, fieldTexts, CompactJson.renderFields, ih hkeys hfs, ofField, fieldText,
      CompactJson.renderField, ofText_plain hkey, hf]

theorem ofValue_text {v : Value} (h : CompactJson.Plain v) :
    (ofValue v).text = CompactJson.render v := by
  induction h with
  | uint n => simp [ofValue, Json.text, Number.text, CompactJson.render]
  | bool b => cases b <;> rfl
  | str hplain => rw [ofValue, Json.text, ofText_plain hplain, CompactJson.render]
  | arr _ ih => rw [ofValue, Json.text, CompactJson.render, ofItems_texts ih, List.cons_append]
  | map hkeys _ ih =>
    rw [ofValue, Json.text, CompactJson.render, ofFields_texts hkeys ih, List.cons_append]

end JsonText
