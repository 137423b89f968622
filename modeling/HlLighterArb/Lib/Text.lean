import HlLighterArb.Lib.Double
import Mathlib.Data.List.Infix
import Mathlib.Data.List.TakeWhile
import Mathlib.Tactic.Common

/-!
# Lib.Text

Searching a text. A position in a text is what the text reads from there on.

* `search f s`: what `f` reads at the first position of `s` where it reads anything;
  `searchLast f s` at the last.
* `find pat s`: `s` from the first occurrence of `pat` on; `after pat s`: `s` behind it.
* `readAfter pat read s`: what `read` makes of the text behind an occurrence of `pat`.
* `stoi`, `stoll`, `stoull`, `stoul`, `stod`: the number a text starts with, as the C++ functions of
  these names read it; `decimal`: the decimal number it starts with, exactly.
* `contains_iff`: an occurrence is found when there is one.
* `Decimal`: a decimal number as it is written; `Decimal.decimal_text`: it denotes its value;
  `Decimal.stod_text`: it is read as its value when that is in range.
-/

namespace Text

section Search

variable {α β : Type} {f : List α → Option β} {s : List α}

def search (f : List α → Option β) : List α → Option β
  | [] => f []
  | c :: s => (f (c :: s)).or (search f s)

/-- What `f` reads at the last position where it reads anything. -/
def searchLast (f : List α → Option β) : List α → Option β
  | [] => f []
  | c :: s => (searchLast f s).or (f (c :: s))

theorem search_eq_none_iff : search f s = none ↔ ∀ t, t <:+ s → f t = none := by
  induction s with
  | nil => simp [search]
  | cons c s ih =>
    rw [search, Option.or_eq_none_iff, ih]
    constructor
    · rintro ⟨hc, hs⟩ t ht
      rcases List.suffix_cons_iff.mp ht with rfl | ht
      · exact hc
      · exact hs t ht
    · exact fun h => ⟨h _ (List.suffix_refl _), fun t ht => h t (ht.trans (List.suffix_cons c s))⟩

end Search

section Find

variable {α : Type} [DecidableEq α] {pat s : List α}

def find (pat s : List α) : Option (List α) :=
  search (fun t => if pat <+: t then some t else none) s

def contains (pat s : List α) : Bool := (find pat s).isSome

def after (pat s : List α) : Option (List α) := (find pat s).map (List.drop pat.length)

/-- What `read` makes of the text behind the first occurrence of `pat` where it makes anything. -/
def readAfter {β : Type} (pat : List α) (read : List α → Option β) (s : List α) : Option β :=
  search (fun t => if pat <+: t then read (t.drop pat.length) else none) s

def readAfterLast {β : Type} (pat : List α) (read : List α → Option β) (s : List α) : Option β :=
  searchLast (fun t => if pat <+: t then read (t.drop pat.length) else none) s

theorem find_eq_none_iff : find pat s = none ↔ ¬ pat <:+: s := by
  rw [find, search_eq_none_iff, List.infix_iff_prefix_suffix]
  simp only [ite_eq_right_iff, reduceCtorEq, imp_false, not_exists, not_and]
  exact ⟨fun h t hp hs => h t hs hp, fun h t hs hp => h t hp hs⟩

theorem find_eq_some {t : List α} (h : find pat s = some t) : t <:+ s ∧ pat <+: t := by
  have hhere {u : List α} (hu : (if pat <+: u then some u else none) = some t) :
      t = u ∧ pat <+: t := by
    split_ifs at hu with hpat
    cases hu
    exact ⟨rfl, hpat⟩
  induction s with
  | nil =>
    obtain ⟨rfl, hpat⟩ := hhere h
    exact ⟨List.suffix_refl _, hpat⟩
  | cons c s ih =>
    rcases Option.or_eq_some_iff.mp h with hc | ⟨-, hs⟩
    · obtain ⟨rfl, hpat⟩ := hhere hc
      exact ⟨List.suffix_refl _, hpat⟩
    · obtain ⟨hsuffix, hpat⟩ := ih hs
      exact ⟨hsuffix.trans (List.suffix_cons c s), hpat⟩

/-- The pattern stands at the start of `t`, a rest of the text, and nowhere before. -/
structure FirstAt (pat s t : List α) : Prop where
  suffix : t <:+ s
  here : pat <+: t
  first : ∀ u, u <:+ s → pat <+: u → u.length ≤ t.length

theorem FirstAt.of_find {t : List α} (h : find pat s = some t) : FirstAt pat s t := by
  obtain ⟨hsuffix, hpat⟩ := find_eq_some h
  refine ⟨hsuffix, hpat, ?_⟩
  induction s with
  | nil =>
    intro u hu _
    rw [List.suffix_nil.mp hu]
    exact Nat.zero_le _
  | cons c s ih =>
    intro u hu hpu
    rw [find, search] at h
    split_ifs at h with hhere
    · obtain rfl : c :: s = t := Option.some.inj h
      exact hu.length_le
    · rw [Option.none_or] at h
      rcases List.suffix_cons_iff.mp hu with rfl | hu
      · exact absurd hpu hhere
      · exact ih h (find_eq_some h).1 u hu hpu

omit [DecidableEq α] in
theorem FirstAt.unique {t t' : List α} (h : FirstAt pat s t) (h' : FirstAt pat s t') : t = t' := by
  have hle : t.length ≤ t'.length := h'.first t h.suffix h.here
  have hsub : t <:+ t' := List.suffix_of_suffix_length_le h.suffix h'.suffix hle
  exact hsub.eq_of_length_le (h.first t' h'.suffix h'.here)

/-- A search ends at the first occurrence. -/
theorem find_eq_some_iff {t : List α} : find pat s = some t ↔ FirstAt pat s t := by
  refine ⟨.of_find, fun h => ?_⟩
  cases hfind : find pat s with
  | none => exact absurd (h.here.isInfix.trans h.suffix.isInfix) (find_eq_none_iff.mp hfind)
  | some t' => rw [h.unique (.of_find hfind)]

/-- What occurs in the front of a text is found there. -/
theorem find_append_of_infix (h : pat <:+: s) (rest : List α) :
    ∃ t, t <:+ s ∧ find pat (s ++ rest) = some (t ++ rest) := by
  induction s with
  | nil =>
    obtain rfl := List.infix_nil.mp h
    refine ⟨[], List.suffix_refl _, ?_⟩
    cases rest <;> simp [find, search]
  | cons c s ih =>
    rw [List.cons_append, find, search]
    by_cases hhere : pat <+: c :: (s ++ rest)
    · exact ⟨c :: s, List.suffix_refl _, by rw [if_pos hhere, Option.some_or, List.cons_append]⟩
    · have hlater : pat <:+: s := by
        refine (List.infix_cons_iff.mp h).resolve_left fun hat => hhere ?_
        exact hat.trans (List.prefix_append (c :: s) rest)
      obtain ⟨t, ht, hfind⟩ := ih hlater
      exact ⟨t, ht.trans (List.suffix_cons c s), by rw [if_neg hhere, Option.none_or]; exact hfind⟩

theorem contains_iff : contains pat s = true ↔ pat <:+: s := by
  rw [contains, Option.isSome_iff_ne_none, ne_eq, find_eq_none_iff, not_not]

end Find

/-! ## Numbers -/

def isSpace (c : Char) : Bool := c = ' ' ∨ '\t' ≤ c ∧ c ≤ '\r'

/-- Whether a text starts with a minus, and what it reads behind its sign. -/
def takeSign : List Char → Bool × List Char
  | '-' :: s => (true, s)
  | '+' :: s => (false, s)
  | s => (false, s)

def digits (s : List Char) : List Char := s.takeWhile Char.isDigit

def afterDigits (s : List Char) : List Char := s.dropWhile Char.isDigit

/-- `none` where `std::stoi` throws: no number, or one that is not an `int`. -/
def stoi (s : List Char) : Option Int :=
  let (minus, s) := takeSign (s.dropWhile isSpace)
  let n : Int := Nat.ofDigitChars 10 (digits s) 0
  let n := if minus then -n else n
  if digits s ≠ [] ∧ -2 ^ 31 ≤ n ∧ n < 2 ^ 31 then some n else none

/-- `none` where `std::stoull` throws on a text of digits. -/
def stoull (s : List Char) : Option Nat :=
  let n := Nat.ofDigitChars 10 s 0
  if s ≠ [] ∧ n < 2 ^ 64 then some n else none

/-- `none` where `std::stoll` throws on a text of digits. -/
def stoll (s : List Char) : Option Int :=
  let n := Nat.ofDigitChars 10 s 0
  if s ≠ [] ∧ n < 2 ^ 63 then some n else none

/-- The value of a digit in `base`, which is at most 36. -/
def digitValue (base : Nat) (c : Char) : Option Nat :=
  let v :=
    if c.isDigit then c.toNat - '0'.toNat
    else if 'a' ≤ c ∧ c ≤ 'z' then c.toNat - 'a'.toNat + 10
    else if 'A' ≤ c ∧ c ≤ 'Z' then c.toNat - 'A'.toNat + 10
    else base
  if v < base then some v else none

/-- The digits in `base` a text starts with. -/
def digitValues (base : Nat) : List Char → List Nat
  | [] => []
  | c :: s =>
    match digitValue base c with
    | some d => d :: digitValues base s
    | none => []

/-- A hexadecimal number may start with `0x`. -/
def skipHexPrefix (base : Nat) : List Char → List Char
  | '0' :: x :: s =>
    if base = 16 ∧ (x = 'x' ∨ x = 'X') ∧ digitValues 16 s ≠ [] then s else '0' :: x :: s
  | s => s

/-- An unsigned 64-bit number in `base` as `std::stoul` and `std::stoull` read it: a minus wraps
around. `none` where they throw. -/
def stoul (base : Nat) (s : List Char) : Option Nat :=
  let (minus, s) := takeSign (s.dropWhile isSpace)
  let ds := digitValues base (skipHexPrefix base s)
  let n := ds.foldl (fun n d => base * n + d) 0
  if ds ≠ [] ∧ n < 2 ^ 64 then some (if minus then (2 ^ 64 - n) % 2 ^ 64 else n) else none

/-- The digits behind a decimal point, and the text behind them. -/
def takeFraction : List Char → List Char × List Char
  | '.' :: s => (digits s, afterDigits s)
  | s => ([], s)

/-- The power in an exponent that a letter marks, zero where there is none. -/
def takeExponent (lower upper : Char) : List Char → Int
  | e :: s =>
    let (minus, s) := takeSign s
    let n : Int := Nat.ofDigitChars 10 (digits s) 0
    if e = lower ∨ e = upper then if minus then -n else n else 0
  | [] => 0

def decimalNumber (s : List Char) : Option ℚ :=
  let whole := digits s
  let (fraction, rest) := takeFraction (afterDigits s)
  let n : ℚ := Nat.ofDigitChars 10 (whole ++ fraction) 0
  if whole = [] ∧ fraction = [] then none
  else some (n * 10 ^ (takeExponent 'e' 'E' rest - fraction.length))

/-- A hexadecimal number behind its `0x`, with a power of two for an exponent. -/
def hexNumber (s : List Char) : Option ℚ :=
  let whole := digitValues 16 s
  let (fraction, rest) :=
    match s.drop whole.length with
    | '.' :: s => (digitValues 16 s, s.drop (digitValues 16 s).length)
    | s => ([], s)
  let n : Nat := (whole ++ fraction).foldl (fun n d => 16 * n + d) 0
  if whole = [] ∧ fraction = [] then none
  else some (n * 2 ^ (takeExponent 'p' 'P' rest - 4 * fraction.length))

/-- A number without a sign; `0x` with no digit behind it is a zero. -/
def unsignedNumber : List Char → Option ℚ
  | '0' :: x :: s =>
    if x = 'x' ∨ x = 'X' then (hexNumber s).or (decimalNumber ('0' :: x :: s))
    else decimalNumber ('0' :: x :: s)
  | s => decimalNumber s

/-- `inf`, `infinity` and `nan` in any case of letters. -/
def namedDouble (minus : Bool) (s : List Char) : Option Double :=
  let name := (s.take 3).map Char.toLower
  if name = ['i', 'n', 'f'] then some (.infinity minus)
  else if name = ['n', 'a', 'n'] then some .nan
  else none

/-- `none` where `std::stod` throws: no number, or one out of range. Numbers are not rounded. -/
def stod (s : List Char) : Option Double :=
  let (minus, s) := takeSign (s.dropWhile isSpace)
  match unsignedNumber s with
  | some v => Double.ofNumber? (if minus then -v else v)
  | none => namedDouble minus s

/-- The decimal number that a text denotes. -/
def decimal (s : List Char) : Option ℚ :=
  let (minus, s) := takeSign (s.dropWhile isSpace)
  (decimalNumber s).map fun v => if minus then -v else v

/-! ## Reading digits back -/

theorem not_space_of_le {c : Char} (h : 48 ≤ c.toNat) : isSpace c = false := by
  rw [isSpace, decide_eq_false_iff_not]
  rintro (rfl | ⟨-, hle⟩)
  · revert h
    decide
  · have : c.toNat ≤ 13 := hle
    omega

/-- A text that starts with a digit has neither white space nor a sign in front. -/
theorem takeSign_of_digit {c : Char} (hc : c.isDigit = true) (s : List Char) :
    takeSign ((c :: s).dropWhile isSpace) = (false, c :: s) := by
  have hminus : c ≠ '-' := by rintro rfl; cases hc
  have hplus : c ≠ '+' := by rintro rfl; cases hc
  simp [not_space_of_le (Char.isDigit_iff_toNat.mp hc).1, takeSign, hminus, hplus]

theorem digitValues_ten {s : List Char} (h : ∀ c ∈ s, c.isDigit = true) :
    digitValues 10 s = s.map fun c => c.toNat - '0'.toNat := by
  induction s with
  | nil => rfl
  | cons c s ih =>
    obtain ⟨hc, hs⟩ := List.forall_mem_cons.mp h
    have hvalue : digitValue 10 c = some (c.toNat - '0'.toNat) := by
      have hlt : c.toNat - '0'.toNat < 10 := by
        have h9 : c.toNat ≤ 57 := (Char.isDigit_iff_toNat.mp hc).2
        have h0 : '0'.toNat = 48 := rfl
        omega
      simp only [digitValue, hc, if_true, if_pos hlt]
    rw [digitValues, hvalue, ih hs]
    rfl

theorem digitValues_append {base : Nat} {s rest : List Char}
    (hrest : ∀ c ∈ rest.head?, digitValue base c = none) :
    digitValues base (s ++ rest) = digitValues base s := by
  induction s with
  | nil =>
    cases rest with
    | nil => rfl
    | cons c rest => simp [digitValues, hrest c rfl]
  | cons c s ih =>
    rw [List.cons_append, digitValues, digitValues]
    cases digitValue base c with
    | none => rfl
    | some d => simp only [ih]

/-- The decimal numeral of a 64-bit number is read as that number. -/
theorem stoul_toDigits_append {n : Nat} (h : n < 2 ^ 64) {rest : List Char}
    (hrest : ∀ c ∈ rest.head?, digitValue 10 c = none) :
    stoul 10 (Nat.toDigits 10 n ++ rest) = some n := by
  have hdigits : ∀ c ∈ Nat.toDigits 10 n, c.isDigit = true :=
    fun c hc => Nat.isDigit_of_mem_toDigits (by decide) (by decide) hc
  have hvalues : digitValues 10 (Nat.toDigits 10 n ++ rest) =
      (Nat.toDigits 10 n).map fun c => c.toNat - '0'.toNat := by
    rw [digitValues_append hrest, digitValues_ten hdigits]
  have hvalue : (digitValues 10 (Nat.toDigits 10 n ++ rest)).foldl (fun n d => 10 * n + d) 0 =
      n := by
    rw [hvalues, List.foldl_map]
    exact Nat.ofDigitChars_ten_toDigits
  have hne : digitValues 10 (Nat.toDigits 10 n ++ rest) ≠ [] := by
    rw [hvalues]
    simp
  have hat (s : List Char) : skipHexPrefix 10 s = s := by
    unfold skipHexPrefix
    split
    · rw [if_neg (by simp)]
    · rfl
  have hsign : takeSign ((Nat.toDigits 10 n ++ rest).dropWhile isSpace) =
      (false, Nat.toDigits 10 n ++ rest) := by
    cases hcons : Nat.toDigits 10 n with
    | nil => exact absurd hcons Nat.toDigits_ne_nil
    | cons c s =>
      have hc : c.isDigit = true := hdigits c (hcons ▸ List.mem_cons_self ..)
      exact takeSign_of_digit hc (s ++ rest)
  simp only [stoul, hsign, hat, hvalue]
  rw [if_pos ⟨hne, h⟩]
  rfl

theorem stoul_toDigits {n : Nat} (h : n < 2 ^ 64) : stoul 10 (Nat.toDigits 10 n) = some n := by
  rw [← List.append_nil (Nat.toDigits 10 n)]
  exact stoul_toDigits_append h (by simp)

section Integers

theorem int_toList (n : Int) :
    (toString n).toList =
      if n < 0 then '-' :: Nat.toDigits 10 n.natAbs else Nat.toDigits 10 n.natAbs := by
  cases n with
  | ofNat n =>
    rw [if_neg (by simp)]
    exact Nat.toList_repr
  | negSucc n =>
    have hneg : (toString (Int.negSucc n)).toList = '-' :: ((n + 1).repr).toList := by
      simp [toString, Int.repr]
    rw [if_pos (Int.negSucc_lt_zero n), hneg, Nat.toList_repr]
    rfl

theorem int_chars {n : Int} {c : Char} (hc : c ∈ (toString n).toList) :
    c.isDigit = true ∨ c = '-' := by
  have hdigits {m : Nat} (hc : c ∈ Nat.toDigits 10 m) : c.isDigit = true :=
    Nat.isDigit_of_mem_toDigits (by decide) (by decide) hc
  rw [int_toList] at hc
  split_ifs at hc
  · exact (List.mem_cons.mp hc).symm.imp_left hdigits
  · exact .inl (hdigits hc)

/-- Integers with the same text are the same. -/
theorem int_toList_inj {m n : Int} (h : (toString m).toList = (toString n).toList) : m = n := by
  have hdigits {a b : Nat} (h : Nat.toDigits 10 a = Nat.toDigits 10 b) : a = b := by
    rw [← Nat.ofDigitChars_ten_toDigits (n := a), h, Nat.ofDigitChars_ten_toDigits]
  have hminus {a b : Nat} (h : '-' :: Nat.toDigits 10 a = Nat.toDigits 10 b) : False := by
    have hmem : '-' ∈ Nat.toDigits 10 b := h ▸ List.mem_cons_self ..
    exact absurd (Nat.isDigit_of_mem_toDigits (by decide) (by decide) hmem) (by decide)
  rw [int_toList, int_toList] at h
  split_ifs at h with hm hn hn
  · have := hdigits (List.cons.inj h).2
    omega
  · exact (hminus h).elim
  · exact (hminus h.symm).elim
  · have := hdigits h
    omega

/-- An `int` is read from its text. -/
theorem stoi_toString {n : Int} (h : -2 ^ 31 ≤ n ∧ n < 2 ^ 31) :
    stoi (toString n).toList = some n := by
  have hdigits : digits (Nat.toDigits 10 n.natAbs) = Nat.toDigits 10 n.natAbs :=
    List.takeWhile_eq_self_iff.mpr fun c hc =>
      Nat.isDigit_of_mem_toDigits (by decide) (by decide) hc
  have hne : Nat.toDigits 10 n.natAbs ≠ [] := Nat.toDigits_ne_nil
  rw [int_toList, stoi]
  split_ifs with hneg
  · have hsign : takeSign (('-' :: Nat.toDigits 10 n.natAbs).dropWhile isSpace) =
        (true, Nat.toDigits 10 n.natAbs) := rfl
    have hvalue : -((n.natAbs : Nat) : Int) = n := by omega
    simp only [hsign, hdigits, Nat.ofDigitChars_ten_toDigits, if_true, hvalue]
    exact if_pos ⟨hne, h⟩
  · have hsign : takeSign ((Nat.toDigits 10 n.natAbs).dropWhile isSpace) =
        (false, Nat.toDigits 10 n.natAbs) := by
      obtain ⟨d, ds, hcons⟩ := List.exists_cons_of_ne_nil hne
      rw [hcons]
      refine takeSign_of_digit ?_ ds
      exact Nat.isDigit_of_mem_toDigits (by decide) (by decide) (hcons ▸ List.mem_cons_self ..)
    have hvalue : ((n.natAbs : Nat) : Int) = n := by omega
    simp only [hsign, hdigits, Nat.ofDigitChars_ten_toDigits, hvalue, Bool.false_eq_true, if_false]
    exact if_pos ⟨hne, h⟩

end Integers

section Decimals

variable {whole fraction : List Char}

theorem ofDigits_concat (s : List Char) (c : Char) :
    Nat.ofDigitChars 10 (s ++ [c]) 0 = 10 * Nat.ofDigitChars 10 s 0 + (c.toNat - '0'.toNat) := by
  rw [Nat.ofDigitChars_append, Nat.ofDigitChars_cons, Nat.ofDigitChars_nil]

theorem digit_lt {c : Char} (hc : c.isDigit = true) : c.toNat - '0'.toNat < 10 := by
  have hle : c.toNat ≤ 57 := (Char.isDigit_iff_toNat.mp hc).2
  have hzero : '0'.toNat = 48 := rfl
  omega

theorem ofDigits_lt {s : List Char} (hs : ∀ c ∈ s, c.isDigit = true) :
    Nat.ofDigitChars 10 s 0 < 10 ^ s.length := by
  induction s using List.reverseRecOn with
  | nil => simp
  | append_singleton s c ih =>
    have hlt := ih fun d hd => hs d (List.mem_append_left _ hd)
    have hc := digit_lt (hs c (by simp))
    rw [ofDigits_concat, List.length_append, List.length_singleton, pow_succ]
    omega

theorem digits_append (hw : ∀ c ∈ whole, c.isDigit = true) (rest : List Char) :
    digits (whole ++ '.' :: rest) = whole := by
  rw [digits, List.takeWhile_append_of_pos hw, List.takeWhile_cons_of_neg (by decide),
    List.append_nil]

theorem afterDigits_append (hw : ∀ c ∈ whole, c.isDigit = true) (rest : List Char) :
    afterDigits (whole ++ '.' :: rest) = '.' :: rest := by
  rw [afterDigits, List.dropWhile_append_of_pos hw, List.dropWhile_cons_of_neg (by decide)]

/-- The digits of a text of digits are the text. -/
theorem digits_self (hw : ∀ c ∈ whole, c.isDigit = true) :
    digits whole = whole ∧ afterDigits whole = [] :=
  ⟨List.takeWhile_eq_self_iff.mpr hw, List.dropWhile_eq_nil_iff.mpr hw⟩

theorem decimal_whole (hne : whole ≠ []) (hw : ∀ c ∈ whole, c.isDigit = true) :
    decimal whole = some (Nat.ofDigitChars 10 whole 0 : ℚ) := by
  obtain ⟨c, s, rfl⟩ := List.exists_cons_of_ne_nil hne
  obtain ⟨hself, hafter⟩ := digits_self hw
  simp [decimal, decimalNumber, takeSign_of_digit (hw c (List.mem_cons_self ..)), hself, hafter,
    takeFraction, takeExponent]

theorem decimal_point (hne : whole ≠ []) (hw : ∀ c ∈ whole, c.isDigit = true)
    (hf : ∀ c ∈ fraction, c.isDigit = true) :
    decimal (whole ++ '.' :: fraction) =
      some ((Nat.ofDigitChars 10 (whole ++ fraction) 0 : ℚ) / 10 ^ fraction.length) := by
  obtain ⟨c, s, rfl⟩ := List.exists_cons_of_ne_nil hne
  obtain ⟨hself, hafter⟩ := digits_self hf
  have hsign : takeSign ((c :: s ++ '.' :: fraction).dropWhile isSpace) =
      (false, c :: s ++ '.' :: fraction) := by
    rw [List.cons_append]
    exact takeSign_of_digit (hw c (List.mem_cons_self ..)) _
  simp only [decimal, decimalNumber, hsign, digits_append hw, afterDigits_append hw, takeFraction,
    hself, hafter, takeExponent]
  simp [div_eq_mul_inv]

end Decimals

theorem decimal_minus {c : Char} (hc : c.isDigit = true) (s : List Char) :
    decimal ('-' :: c :: s) = (decimal (c :: s)).map (- ·) := by
  have hsign : takeSign (('-' :: c :: s).dropWhile isSpace) = (true, c :: s) := rfl
  simp only [decimal, hsign, takeSign_of_digit hc, if_true, Bool.false_eq_true, if_false,
    Option.map_map]
  rfl

theorem unsignedNumber_eq {s : List Char} (h : 'x' ∉ s ∧ 'X' ∉ s) :
    unsignedNumber s = decimalNumber s := by
  unfold unsignedNumber
  split
  · next x s =>
    refine if_neg ?_
    rintro (rfl | rfl)
    · exact h.1 (by simp)
    · exact h.2 (by simp)
  · rfl

/-- Where a text denotes a decimal number, and nothing in it is hexadecimal, that is read. -/
theorem stod_of_decimal {s : List Char} {v : ℚ} (h : decimal s = some v)
    (hx : 'x' ∉ s ∧ 'X' ∉ s) : stod s = Double.ofNumber? v := by
  have hsub : (takeSign (s.dropWhile isSpace)).2 ⊆ s := by
    refine List.Subset.trans ?_ (List.dropWhile_suffix isSpace).subset
    generalize s.dropWhile isSpace = t
    unfold takeSign
    split
    · exact List.subset_cons_self _ _
    · exact List.subset_cons_self _ _
    · exact List.Subset.refl _
  simp only [decimal] at h
  obtain ⟨w, hw, rfl⟩ := Option.map_eq_some_iff.mp h
  have hnumber := unsignedNumber_eq ⟨fun hmem => hx.1 (hsub hmem), fun hmem => hx.2 (hsub hmem)⟩
  simp only [stod, hnumber, hw]

/-- A decimal number as it is written. -/
structure Decimal where
  minus : Bool := false
  whole : List Char
  fraction : List Char := []
  nonempty : whole ≠ []
  wholeDigits : whole.all Char.isDigit = true
  fractionDigits : fraction.all Char.isDigit = true
  deriving DecidableEq

namespace Decimal

/-- A number without a sign, from its digits. -/
def ofDigits (whole fraction : List Char)
    (h : (!whole.isEmpty && (whole ++ fraction).all Char.isDigit) = true) : Decimal where
  whole
  fraction
  nonempty := fun hnil => by rw [hnil] at h; cases h
  wholeDigits := by
    rw [List.all_append, Bool.and_eq_true, Bool.and_eq_true] at h
    exact h.2.1
  fractionDigits := by
    rw [List.all_append, Bool.and_eq_true, Bool.and_eq_true] at h
    exact h.2.2

variable (d : Decimal)

def unsigned : List Char :=
  if d.fraction = [] then d.whole else d.whole ++ '.' :: d.fraction

def text : List Char := if d.minus then '-' :: d.unsigned else d.unsigned

def value : ℚ :=
  let n : ℚ := Nat.ofDigitChars 10 (d.whole ++ d.fraction) 0
  (if d.minus then -n else n) / 10 ^ d.fraction.length

theorem unsigned_head : ∃ c s, d.unsigned = c :: s ∧ c.isDigit = true := by
  obtain ⟨c, s, hwhole⟩ := List.exists_cons_of_ne_nil d.nonempty
  have hc : c.isDigit = true := List.all_eq_true.mp d.wholeDigits c (hwhole ▸ List.mem_cons_self ..)
  rw [unsigned, hwhole]
  split_ifs
  · exact ⟨c, s, rfl, hc⟩
  · exact ⟨c, _, rfl, hc⟩

theorem decimal_unsigned :
    decimal d.unsigned =
      some ((Nat.ofDigitChars 10 (d.whole ++ d.fraction) 0 : ℚ) / 10 ^ d.fraction.length) := by
  have hwhole := List.all_eq_true.mp d.wholeDigits
  rw [unsigned]
  split_ifs with h
  · rw [decimal_whole d.nonempty hwhole, h]
    simp
  · exact decimal_point d.nonempty hwhole (List.all_eq_true.mp d.fractionDigits)

/-- A decimal number denotes its value. -/
theorem decimal_text : decimal d.text = some d.value := by
  rw [text, value]
  split_ifs
  · obtain ⟨c, s, hcons, hc⟩ := d.unsigned_head
    rw [hcons, decimal_minus hc, ← hcons, decimal_unsigned, Option.map_some, neg_div]
  · exact d.decimal_unsigned

theorem text_head : ∃ c s, d.text = c :: s ∧ (c = '-' ∨ c.isDigit = true) := by
  obtain ⟨c, s, hcons, hc⟩ := d.unsigned_head
  rw [text]
  split_ifs
  · exact ⟨'-', d.unsigned, rfl, .inl rfl⟩
  · exact ⟨c, s, hcons, .inr hc⟩

theorem text_chars {c : Char} (hc : c ∈ d.text) : c = '-' ∨ c = '.' ∨ c.isDigit = true := by
  have hunsigned {c : Char} (hc : c ∈ d.unsigned) : c = '.' ∨ c.isDigit = true := by
    rw [unsigned] at hc
    split_ifs at hc
    · exact .inr (List.all_eq_true.mp d.wholeDigits c hc)
    · rcases List.mem_append.mp hc with hwhole | hfraction
      · exact .inr (List.all_eq_true.mp d.wholeDigits c hwhole)
      · rcases List.mem_cons.mp hfraction with rfl | hfraction
        · exact .inl rfl
        · exact .inr (List.all_eq_true.mp d.fractionDigits c hfraction)
  rw [text] at hc
  split_ifs at hc
  · rcases List.mem_cons.mp hc with rfl | hc
    · exact .inl rfl
    · exact .inr (hunsigned hc)
  · exact .inr (hunsigned hc)

theorem unquoted : '"' ∉ d.text := fun h => absurd (d.text_chars h) (by decide)

def InRange : Prop := Double.InRange d.value

instance : Decidable d.InRange := inferInstanceAs (Decidable (Double.InRange d.value))

/-- A decimal number is read as its value, if that is in range. -/
theorem stod_text : stod d.text = if d.InRange then some (.number d.value) else none :=
  stod_of_decimal d.decimal_text
    ⟨fun h => absurd (d.text_chars h) (by decide), fun h => absurd (d.text_chars h) (by decide)⟩

/-- Numbers of up to 307 digits are in range. -/
theorem inRange_of_short (h : d.whole.length + d.fraction.length ≤ 307) : d.InRange := by
  have hdigits : ∀ c ∈ d.whole ++ d.fraction, c.isDigit = true := by
    intro c hc
    rcases List.mem_append.mp hc with hc | hc
    · exact List.all_eq_true.mp d.wholeDigits c hc
    · exact List.all_eq_true.mp d.fractionDigits c hc
  have hlength : (d.whole ++ d.fraction).length ≤ 308 := by
    rw [List.length_append]
    omega
  have hread := @Double.inRange_decimal _ _ d.fraction.length (ofDigits_lt hdigits) hlength
    (by omega)
  rw [InRange, value]
  split_ifs
  · rw [neg_div]
    exact Double.inRange_neg.mpr hread
  · exact hread

end Decimal

end Text
