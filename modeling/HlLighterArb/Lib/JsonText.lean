import HlLighterArb.Lib.JsonString

/-!
# Lib.JsonText

JSON without white space, as it is written.

* `Number`: a number of the grammar, with its fraction and exponent.
* `Json.text`: a value as text. Strings are literals, so every way to escape one is a value of its
  own.
* `MemberAt key v doc before behind`: a member of `doc` or of an object within it, and the text on
  both sides of it; `MemberAt.text_eq`.
* `Balanced`: a text whose strings end and whose brackets outside strings match;
  `Json.balanced_text`: the text of a value is one.
* `Bare`: a character of a text with nothing of the syntax around values in it; `Number.bare`,
  `Word.bare`.
-/

namespace JsonText

open JsonString (Literal Escaped)

/-! ## Values -/

structure Digits where
  chars : List Char
  nonempty : chars ≠ []
  digits : ∀ c ∈ chars, c.isDigit = true

structure Exponent where
  mark : Char
  sign : List Char := []
  digits : Digits
  mark_e : mark ∈ ['e', 'E']
  sign_one : sign ∈ [[], ['+'], ['-']]

def Exponent.text (e : Exponent) : List Char := e.mark :: (e.sign ++ e.digits.chars)

structure Number where
  minus : Bool := false
  whole : Nat
  fraction : Option Digits := none
  exponent : Option Exponent := none

def Number.text (n : Number) : List Char :=
  (if n.minus then ['-'] else []) ++ Nat.toDigits 10 n.whole ++
    (n.fraction.elim [] fun ds => '.' :: ds.chars) ++ n.exponent.elim [] Exponent.text

inductive Word where
  | null
  | true
  | false

def Word.text : Word → List Char
  | .null => "null".toList
  | .true => "true".toList
  | .false => "false".toList

inductive Json where
  | string (l : Literal)
  | number (n : Number)
  | word (w : Word)
  | array (items : List Json)
  | object (fields : List (Literal × Json))

mutual

def Json.text : Json → List Char
  | .string l => l.text
  | .number n => n.text
  | .word w => w.text
  | .array items => '[' :: ([','].intercalate (itemTexts items) ++ [']'])
  | .object fields => '\x7b' :: ([','].intercalate (fieldTexts fields) ++ ['\x7d'])
termination_by structural v => v

def itemTexts : List Json → List (List Char)
  | [] => []
  | v :: vs => v.text :: itemTexts vs
termination_by structural vs => vs

def fieldTexts : List (Literal × Json) → List (List Char)
  | [] => []
  | f :: fs => fieldText f :: fieldTexts fs
termination_by structural fs => fs

def fieldText : Literal × Json → List Char
  | (key, v) => key.text ++ ':' :: v.text
termination_by structural f => f

end

theorem itemTexts_append (vs ws : List Json) :
    itemTexts (vs ++ ws) = itemTexts vs ++ itemTexts ws := by
  induction vs with
  | nil => rfl
  | cons v vs ih => rw [List.cons_append, itemTexts, itemTexts, ih, List.cons_append]

theorem fieldTexts_append (fs gs : List (Literal × Json)) :
    fieldTexts (fs ++ gs) = fieldTexts fs ++ fieldTexts gs := by
  induction fs with
  | nil => rfl
  | cons f fs ih => rw [List.cons_append, fieldTexts, fieldTexts, ih, List.cons_append]

/-! ## Members -/

/-- Texts with a comma behind each. -/
def commaBehind (ts : List (List Char)) : List Char := ts.flatMap (· ++ [','])

/-- Texts with a comma before each. -/
def commaBefore (ts : List (List Char)) : List Char := ts.flatMap (',' :: ·)

theorem intercalate_split (ts us : List (List Char)) (t : List Char) :
    [','].intercalate (ts ++ t :: us) = commaBehind ts ++ (t ++ commaBefore us) := by
  have hlater : ∀ t, [','].intercalate (t :: us) = t ++ commaBefore us := by
    induction us with
    | nil => simp [commaBefore]
    | cons u us ih =>
      intro t
      rw [List.intercalate_cons_cons, ih]
      simp [commaBefore]
  induction ts with
  | nil => exact hlater t
  | cons s ts ih =>
    rw [List.cons_append, List.intercalate_cons_of_ne_nil (by simp), ih]
    simp [commaBehind]

/-- The value `doc` has an object with the member, itself or deeper inside; `before` and `behind`
are its text on both sides of the member. -/
inductive MemberAt (key : Literal) (v : Json) : Json → List Char → List Char → Prop where
  | here (earlier later : List (Literal × Json)) :
      MemberAt key v (.object (earlier ++ (key, v) :: later))
        ('\x7b' :: commaBehind (fieldTexts earlier)) (commaBefore (fieldTexts later) ++ ['\x7d'])
  | field {w : Json} {before behind : List Char} (earlier : List (Literal × Json)) (name : Literal)
      (later : List (Literal × Json)) (inside : MemberAt key v w before behind) :
      MemberAt key v (.object (earlier ++ (name, w) :: later))
        ('\x7b' :: commaBehind (fieldTexts earlier) ++ (name.text ++ ':' :: before))
        (behind ++ (commaBefore (fieldTexts later) ++ ['\x7d']))
  | item {w : Json} {before behind : List Char} (earlier later : List Json)
      (inside : MemberAt key v w before behind) :
      MemberAt key v (.array (earlier ++ w :: later))
        ('[' :: commaBehind (itemTexts earlier) ++ before)
        (behind ++ (commaBefore (itemTexts later) ++ [']']))

theorem text_object_split (earlier later : List (Literal × Json)) (name : Literal) (w : Json) :
    (Json.object (earlier ++ (name, w) :: later)).text =
      '\x7b' :: commaBehind (fieldTexts earlier) ++
        (name.text ++ ':' :: w.text ++ (commaBefore (fieldTexts later) ++ ['\x7d'])) := by
  rw [Json.text, fieldTexts_append, fieldTexts, fieldText, intercalate_split]
  simp

theorem text_array_split (earlier later : List Json) (w : Json) :
    (Json.array (earlier ++ w :: later)).text =
      '[' :: commaBehind (itemTexts earlier) ++
        (w.text ++ (commaBefore (itemTexts later) ++ [']'])) := by
  rw [Json.text, itemTexts_append, itemTexts, intercalate_split]
  simp

section Members

variable {key : Literal} {v doc : Json} {before behind : List Char}

theorem MemberAt.text_eq (h : MemberAt key v doc before behind) :
    doc.text = before ++ (key.text ++ ':' :: (v.text ++ behind)) := by
  induction h with
  | here earlier later =>
    rw [text_object_split]
    simp
  | field earlier name later _ ih =>
    rw [text_object_split, ih]
    simp
  | item earlier later _ ih =>
    rw [text_array_split, ih]
    simp

/-- Behind a member comes the next one, or the end of its object. -/
theorem MemberAt.behind_head (h : MemberAt key v doc before behind) :
    ∃ c rest, behind = c :: rest ∧ (c = ',' ∨ c = '\x7d') := by
  induction h with
  | here earlier later =>
    cases later with
    | nil => exact ⟨'\x7d', [], rfl, .inr rfl⟩
    | cons f later => exact ⟨',', _, rfl, .inl rfl⟩
  | field _ _ _ _ ih | item _ _ _ ih =>
    obtain ⟨c, rest, rfl, hc⟩ := ih
    exact ⟨c, _, rfl, hc⟩

end Members

/-! ## Brackets -/

/-- A character that neither starts a string nor is a bracket. -/
def Plain (c : Char) : Prop := c ∉ ['"', '{', '}', '[', ']']

instance (c : Char) : Decidable (Plain c) :=
  inferInstanceAs (Decidable (c ∉ ['"', '{', '}', '[', ']']))

inductive Balanced : List Char → Prop where
  | nil : Balanced []
  | plain {c : Char} {s : List Char} (plain : Plain c) (rest : Balanced s) : Balanced (c :: s)
  | string (l : Literal) {s : List Char} (rest : Balanced s) : Balanced (l.text ++ s)
  | brackets {inner s : List Char} (inside : Balanced inner) (rest : Balanced s) :
      Balanced ('[' :: (inner ++ ']' :: s))
  | braces {inner s : List Char} (inside : Balanced inner) (rest : Balanced s) :
      Balanced ('{' :: (inner ++ '}' :: s))

section Balanced

variable {s t : List Char}

theorem Balanced.append (hs : Balanced s) (ht : Balanced t) : Balanced (s ++ t) := by
  induction hs with
  | nil => exact ht
  | plain hc _ ih => exact .plain hc ih
  | string l _ ih =>
    rw [List.append_assoc]
    exact .string l ih
  | brackets inside _ _ ih =>
    rw [List.cons_append, List.append_assoc, List.cons_append]
    exact .brackets inside ih
  | braces inside _ _ ih =>
    rw [List.cons_append, List.append_assoc, List.cons_append]
    exact .braces inside ih

theorem Balanced.of_plain (h : ∀ c ∈ s, Plain c) : Balanced s := by
  induction s with
  | nil => exact .nil
  | cons c s ih =>
    obtain ⟨hc, hs⟩ := List.forall_mem_cons.mp h
    exact .plain hc (ih hs)

theorem Balanced.intercalate {ts : List (List Char)} (h : ∀ t ∈ ts, Balanced t) :
    Balanced ([','].intercalate ts) := by
  induction ts with
  | nil => exact .nil
  | cons t ts ih =>
    obtain ⟨ht, hts⟩ := List.forall_mem_cons.mp h
    cases ts with
    | nil => simpa using ht
    | cons u us =>
      rw [List.intercalate_cons_cons, List.append_assoc]
      exact ht.append (.plain (by decide) (ih hts))

end Balanced

/-! ## Numbers and words -/

/-- A character of a number or a word, or any other that does not stand around values. -/
def Bare (c : Char) : Prop := c ∉ ['"', '\x7b', '\x7d', '[', ']', ',', ':', ' ']

instance (c : Char) : Decidable (Bare c) :=
  inferInstanceAs (Decidable (c ∉ ['"', '\x7b', '\x7d', '[', ']', ',', ':', ' ']))

theorem Bare.plain {c : Char} (h : Bare c) : Plain c := by
  intro hc
  refine h ?_
  simp only [List.mem_cons, List.not_mem_nil, or_false] at hc ⊢
  tauto

theorem bare_digit {c : Char} (h : c.isDigit = true) : Bare c := by
  intro hc
  simp only [List.mem_cons, List.not_mem_nil, or_false] at hc
  rcases hc with rfl | rfl | rfl | rfl | rfl | rfl | rfl | rfl <;> cases h

theorem Digits.bare (ds : Digits) : ∀ c ∈ ds.chars, Bare c :=
  fun c hc => bare_digit (ds.digits c hc)

theorem bare_of_all {s : List Char} (h : s.all (fun c => decide (Bare c)) = true) :
    ∀ c ∈ s, Bare c :=
  fun c hc => of_decide_eq_true (List.all_eq_true.mp h c hc)

theorem Exponent.bare (e : Exponent) : ∀ c ∈ e.text, Bare c := by
  intro c hc
  rcases List.mem_cons.mp hc with rfl | hc
  · exact bare_of_all (s := ['e', 'E']) (by decide) _ e.mark_e
  · rcases List.mem_append.mp hc with hc | hc
    · have hall : ∀ sign ∈ [[], ['+'], ['-']], sign.all (fun c => decide (Bare c)) = true := by
        decide
      exact bare_of_all (hall _ e.sign_one) c hc
    · exact e.digits.bare c hc

theorem Number.bare (n : Number) : ∀ c ∈ n.text, Bare c := by
  intro c hc
  simp only [Number.text, List.mem_append, or_assoc] at hc
  rcases hc with hc | hc | hc | hc
  · split_ifs at hc
    · obtain rfl := List.mem_singleton.mp hc
      decide
    · cases hc
  · exact bare_digit (Nat.isDigit_of_mem_toDigits (by decide) (by decide) hc)
  · cases hfraction : n.fraction with
    | none =>
      rw [hfraction] at hc
      cases hc
    | some ds =>
      rw [hfraction] at hc
      rcases List.mem_cons.mp hc with rfl | hc
      · decide
      · exact ds.bare c hc
  · cases hexponent : n.exponent with
    | none =>
      rw [hexponent] at hc
      cases hc
    | some e =>
      rw [hexponent] at hc
      exact e.bare c hc

theorem Number.text_ne_nil (n : Number) : n.text ≠ [] := by
  simp [Number.text]

theorem Word.bare (w : Word) : ∀ c ∈ w.text, Bare c :=
  bare_of_all (by cases w <;> decide)

theorem Word.text_ne_nil (w : Word) : w.text ≠ [] := by
  cases w <;> exact List.cons_ne_nil _ _

/-! ## The brackets of a value -/

mutual

theorem Json.balanced_text : ∀ v : Json, Balanced v.text
  | .string l => by
    rw [Json.text, ← List.append_nil l.text]
    exact .string l .nil
  | .number n => by
    rw [Json.text]
    exact .of_plain fun c hc => (n.bare c hc).plain
  | .word w => by
    rw [Json.text]
    exact .of_plain fun c hc => (w.bare c hc).plain
  | .array items => by
    rw [Json.text]
    exact .brackets (.intercalate (balanced_items items)) .nil
  | .object fields => by
    rw [Json.text]
    exact .braces (.intercalate (balanced_fields fields)) .nil
termination_by structural v => v

theorem balanced_items : ∀ vs : List Json, ∀ t ∈ itemTexts vs, Balanced t
  | [] => by simp [itemTexts]
  | v :: vs => by
    rw [itemTexts]
    exact List.forall_mem_cons.mpr ⟨v.balanced_text, balanced_items vs⟩
termination_by structural vs => vs

theorem balanced_fields : ∀ fs : List (Literal × Json), ∀ t ∈ fieldTexts fs, Balanced t
  | [] => by simp [fieldTexts]
  | f :: fs => by
    rw [fieldTexts]
    exact List.forall_mem_cons.mpr ⟨balanced_field f, balanced_fields fs⟩
termination_by structural fs => fs

theorem balanced_field : ∀ f : Literal × Json, Balanced (fieldText f)
  | (key, v) => by
    rw [fieldText]
    exact .string key (.plain (by decide) v.balanced_text)
termination_by structural f => f

end

end JsonText
