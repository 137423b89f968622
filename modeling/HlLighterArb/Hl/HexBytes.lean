import HlLighterArb.Hl.Signing

/-!
# HlLighterArb.Hl.HexBytes

Which texts `hex_to_bytes` takes, the signing key and the vault address among them, and what
`bytes_to_hex` writes.

* `PairReads`: a pair of characters that `std::stoul` reads a number from.
* `hexToBytes_isSome_iff`: a text is taken exactly when all its pairs read.
* `hexToBytes_bytesToHex`: the round trip.
* `hexToBytes_hex_iff`: for which texts nothing but hexadecimal is taken.
-/

namespace Arb

def bytesToHex (data : ByteBuffer) (size : Nat) (withPrefix : Bool) : String :=
  let digits := "0123456789abcdef".toList
  String.ofList ((if withPrefix then "0x".toList else []) ++
    (List.range size).flatMap fun i =>
      [digits.getD ((data.getD i 0 >>> 4) &&& 0x0f).toNat '0',
        digits.getD (data.getD i 0 &&& 0x0f).toNat '0'])

/-- The text denotes the bytes: hexadecimal digits, two for each byte, behind an optional prefix. -/
def HexText (text : String) (bytes : ByteBuffer) : Prop :=
  ∃ digits, HexDigits digits bytes ∧ (text.toList = digits ∨ text.toList = '0' :: 'x' :: digits ∨
    text.toList = '0' :: 'X' :: digits)

/-! ## Pairs -/

def IsHexDigit (c : Char) : Prop := (Text.digitValue 16 c).isSome

instance (c : Char) : Decidable (IsHexDigit c) :=
  inferInstanceAs (Decidable ((Text.digitValue 16 c).isSome = true))

def HexPair (c d : Char) : Prop := IsHexDigit c ∧ IsHexDigit d

/-- A digit with anything behind it, or a digit behind white space or a sign. -/
def PairReads (c d : Char) : Prop :=
  IsHexDigit c ∨ (Text.isSpace c ∨ c = '+' ∨ c = '-') ∧ IsHexDigit d

/-- The text is of even length, and so are all its pairs. -/
def AllPairs (p : Char → Char → Prop) : List Char → Prop
  | [] => True
  | [_] => False
  | c :: d :: cs => p c d ∧ AllPairs p cs

theorem AllPairs.even {p : Char → Char → Prop} {cs : List Char} (h : AllPairs p cs) :
    cs.length % 2 = 0 := by
  induction cs using AllPairs.induct with
  | case1 => rfl
  | case2 => exact h.elim
  | case3 c d cs ih =>
    have := ih h.2
    simp only [List.length_cons]
    omega

/-- A digit is read whatever stands behind it. -/
theorem stoul_digit {c : Char} (hc : IsHexDigit c) (d : Char) :
    (Text.stoul 16 [c, d]).isSome := by
  obtain ⟨v, hv⟩ := Option.isSome_iff_exists.mp hc
  obtain ⟨hspace, hminus, hplus, -, -, hlt⟩ := hexDigit_spec hv
  have hsign : Text.takeSign [c, d] = (false, [c, d]) := by
    simp [Text.takeSign, hminus, hplus]
  have hskip : Text.skipHexPrefix 16 [c, d] = [c, d] := by
    unfold Text.skipHexPrefix
    split
    · simp_all [Text.digitValues]
    · rfl
  cases hd : Text.digitValue 16 d with
  | none => simp [Text.stoul, hspace, hsign, hskip, Text.digitValues, hv, hd]; omega
  | some w =>
    obtain ⟨-, -, -, -, -, hw⟩ := hexDigit_spec hd
    simp [Text.stoul, hspace, hsign, hskip, Text.digitValues, hv, hd]
    omega

theorem skipHexPrefix_of_ne {s : List Char} (h : s.head? ≠ some '0') :
    Text.skipHexPrefix 16 s = s := by
  unfold Text.skipHexPrefix
  split
  · simp at h
  · rfl

theorem stoul_single {d : Char} {minus : Bool} {s : List Char}
    (hs : Text.takeSign (s.dropWhile Text.isSpace) = (minus, [d])) :
    (Text.stoul 16 s).isSome ↔ IsHexDigit d := by
  have hskip : Text.skipHexPrefix 16 [d] = [d] := by
    unfold Text.skipHexPrefix
    split
    · simp_all
    · rfl
  cases hd : Text.digitValue 16 d with
  | none => simp [Text.stoul, hs, hskip, Text.digitValues, hd, IsHexDigit]
  | some w =>
    obtain ⟨-, -, -, -, -, hw⟩ := hexDigit_spec hd
    simp [Text.stoul, hs, hskip, Text.digitValues, hd, IsHexDigit]
    omega

/-- Without a digit behind its sign a text has no number. -/
theorem stoul_none {s t : List Char} {minus : Bool}
    (hs : Text.takeSign (s.dropWhile Text.isSpace) = (minus, t))
    (ht : ∀ c ∈ t.head?, ¬ IsHexDigit c) : Text.stoul 16 s = none := by
  have hvalues : Text.digitValues 16 t = [] := by
    cases t with
    | nil => rfl
    | cons c t =>
      have hc : Text.digitValue 16 c = none := by simpa [IsHexDigit] using ht c rfl
      rw [Text.digitValues, hc]
  have hskip : Text.skipHexPrefix 16 t = t := by
    refine skipHexPrefix_of_ne fun h => ht '0' h ?_
    decide
  simp [Text.stoul, hs, hskip, hvalues]

theorem IsHexDigit.spec {c : Char} (h : IsHexDigit c) :
    Text.isSpace c = false ∧ c ≠ '-' ∧ c ≠ '+' := by
  obtain ⟨v, hv⟩ := Option.isSome_iff_exists.mp h
  obtain ⟨hspace, hminus, hplus, -⟩ := hexDigit_spec hv
  exact ⟨hspace, hminus, hplus⟩

theorem stoul_isSome_iff (c d : Char) : (Text.stoul 16 [c, d]).isSome ↔ PairReads c d := by
  by_cases hc : IsHexDigit c
  · exact iff_of_true (stoul_digit hc d) (.inl hc)
  by_cases hspace : Text.isSpace c = true
  · -- white space is passed over, and nothing but a digit may follow
    have hreads : PairReads c d ↔ IsHexDigit d :=
      (or_iff_right hc).trans (and_iff_right (.inl hspace))
    have hdrop : [c, d].dropWhile Text.isSpace = [d].dropWhile Text.isSpace :=
      List.dropWhile_cons_of_pos hspace
    rw [hreads]
    by_cases hd : IsHexDigit d
    · obtain ⟨hd0, hminus, hplus⟩ := hd.spec
      refine @stoul_single d false _ ?_
      rw [hdrop, List.dropWhile_cons_of_neg (by simp [hd0])]
      simp [Text.takeSign, hminus, hplus]
    · refine iff_of_false ?_ hd
      have hnone : ∃ minus t, Text.takeSign ([c, d].dropWhile Text.isSpace) = (minus, t) ∧
          ∀ x ∈ t.head?, ¬ IsHexDigit x := by
        rw [hdrop]
        by_cases hd0 : Text.isSpace d = true
        · exact ⟨false, [], by simp [hd0, Text.takeSign], by simp⟩
        rw [List.dropWhile_cons_of_neg hd0]
        by_cases hminus : d = '-'
        · exact ⟨true, [], by simp [hminus, Text.takeSign], by simp⟩
        by_cases hplus : d = '+'
        · exact ⟨false, [], by simp [hplus, Text.takeSign], by simp⟩
        exact ⟨false, [d], by simp [Text.takeSign, hminus, hplus], by simpa using hd⟩
      obtain ⟨minus, t, hsign, ht⟩ := hnone
      rw [stoul_none hsign ht]
      simp
  have hdrop : [c, d].dropWhile Text.isSpace = [c, d] := List.dropWhile_cons_of_neg hspace
  by_cases hminus : c = '-'
  · have hreads : PairReads c d ↔ IsHexDigit d :=
      (or_iff_right hc).trans (and_iff_right (.inr (.inr hminus)))
    rw [hreads]
    exact stoul_single (by rw [hdrop, hminus]; rfl)
  by_cases hplus : c = '+'
  · have hreads : PairReads c d ↔ IsHexDigit d :=
      (or_iff_right hc).trans (and_iff_right (.inr (.inl hplus)))
    rw [hreads]
    exact stoul_single (by rw [hdrop, hplus]; rfl)
  have hreads : ¬ PairReads c d := by simp [PairReads, hc, hspace, hminus, hplus]
  have hsign : Text.takeSign ([c, d].dropWhile Text.isSpace) = (false, [c, d]) := by
    rw [hdrop]
    simp [Text.takeSign, hminus, hplus]
  rw [stoul_none hsign (by simpa using hc)]
  simpa using hreads

/-! ## Texts -/

/-- The loop over the pairs throws at the first one that does not read. -/
theorem mapM_isSome_iff {cs : List Char} (h : cs.length % 2 = 0) :
    ((List.range (cs.length / 2)).mapM fun i =>
      (Text.stoul 16 ((cs.drop (i * 2)).take 2)).map UInt8.ofNat).isSome ↔
        AllPairs PairReads cs := by
  induction cs using AllPairs.induct with
  | case1 => simp [AllPairs]
  | case2 => simp at h
  | case3 c d cs ih =>
    have hhalf : (c :: d :: cs).length / 2 = cs.length / 2 + 1 := by
      simp only [List.length_cons]
      omega
    have heven : cs.length % 2 = 0 := by
      simp only [List.length_cons] at h
      omega
    rw [hhalf, mapM_pairs_cons fun pair => (Text.stoul 16 pair).map UInt8.ofNat, AllPairs,
      ← stoul_isSome_iff, ← ih heven]
    cases Text.stoul 16 [c, d] with
    | none => simp
    | some n => simp

/-- A text is taken exactly when it is made of pairs that read. -/
theorem hexToBytes_isSome_iff (text : String) :
    (hexToBytes text).isSome ↔ AllPairs PairReads (hexBody text) := by
  rw [hexToBytes_eq]
  split_ifs with hodd
  · exact iff_of_false (by simp) fun h => hodd h.even
  · exact mapM_isSome_iff (not_not.mp hodd)

/-- Pairs of digits denote bytes. -/
theorem allPairs_hexPair_iff (cs : List Char) :
    AllPairs HexPair cs ↔ ∃ bytes, HexDigits cs bytes := by
  induction cs using AllPairs.induct with
  | case1 => exact iff_of_true trivial ⟨[], trivial⟩
  | case2 c =>
    refine iff_of_false id ?_
    rintro ⟨_ | ⟨b, bs⟩, h⟩ <;> exact h
  | case3 c d cs ih =>
    rw [AllPairs, ih]
    constructor
    · rintro ⟨⟨hc, hd⟩, bytes, hbytes⟩
      obtain ⟨hi, hhi⟩ := Option.isSome_iff_exists.mp hc
      obtain ⟨lo, hlo⟩ := Option.isSome_iff_exists.mp hd
      have hhi16 := (hexDigit_spec hhi).2.2.2.2.2
      have hlo16 := (hexDigit_spec hlo).2.2.2.2.2
      have hbyte : (UInt8.ofNat (16 * hi + lo)).toNat = 16 * hi + lo := by
        rw [UInt8.toNat_ofNat']
        exact Nat.mod_eq_of_lt (by omega)
      refine ⟨UInt8.ofNat (16 * hi + lo) :: bytes, ?_, ?_, hbytes⟩
      · rw [hbyte, hhi]
        congr 1
        omega
      · rw [hbyte, hlo]
        congr 1
        omega
    · rintro ⟨_ | ⟨b, bs⟩, h⟩
      · exact h.elim
      · obtain ⟨hc, hd, hbytes⟩ := h
        exact ⟨⟨by simp [IsHexDigit, hc], by simp [IsHexDigit, hd]⟩, bs, hbytes⟩

theorem hexText_iff (text : String) (bytes : ByteBuffer) :
    HexText text bytes ↔ HexDigits (hexBody text) bytes := by
  constructor
  · rintro ⟨digits, h, htext⟩
    rwa [h.body htext]
  · intro h
    refine ⟨_, h, ?_⟩
    simp only [hexBody]
    split_ifs with hat
    · rcases hat with ⟨rest, hrest⟩ | ⟨rest, hrest⟩
      · rw [← hrest]
        exact .inr (.inl rfl)
      · rw [← hrest]
        exact .inr (.inr rfl)
    · exact .inl rfl

/-! ## The round trip -/

theorem digitValue_digit (n : Nat) (h : n < 16) :
    Text.digitValue 16 ("0123456789abcdef".toList.getD n '0') = some n := by
  revert n
  decide

theorem hexDigits_bytes (bytes : ByteBuffer) :
    HexDigits ((List.range bytes.length).flatMap fun i =>
      ["0123456789abcdef".toList.getD ((bytes.getD i 0 >>> 4) &&& 0x0f).toNat '0',
        "0123456789abcdef".toList.getD (bytes.getD i 0 &&& 0x0f).toNat '0']) bytes := by
  induction bytes with
  | nil => trivial
  | cons b bs ih =>
    have hlow : (b &&& 0x0f).toNat = b.toNat % 16 := by
      rw [UInt8.toNat_and]
      exact Nat.and_two_pow_sub_one_eq_mod b.toNat 4
    have hhigh : ((b >>> 4) &&& 0x0f).toNat = b.toNat / 16 := by
      have hlt := b.toNat_lt
      rw [UInt8.toNat_and, UInt8.toNat_shiftRight, Nat.shiftRight_eq_div_pow]
      refine (Nat.and_two_pow_sub_one_eq_mod _ 4).trans (Nat.mod_eq_of_lt ?_)
      show b.toNat / 16 < 16
      omega
    rw [List.length_cons, List.range_succ_eq_map, List.flatMap_cons, List.flatMap_map]
    refine ⟨?_, ?_, ih⟩
    · rw [List.getD_cons_zero, hhigh]
      exact digitValue_digit _ (by have := b.toNat_lt; omega)
    · rw [List.getD_cons_zero, hlow]
      exact digitValue_digit _ (by omega)

/-- What is written is read back. -/
theorem hexToBytes_bytesToHex (bytes : ByteBuffer) (withPrefix : Bool) :
    hexToBytes (bytesToHex bytes bytes.length withPrefix) = some bytes := by
  refine hexToBytes_digits (hexDigits_bytes bytes) ?_
  cases withPrefix with
  | true => exact .inr (.inl (by simp [bytesToHex]))
  | false => exact .inl (by simp [bytesToHex])

/-! ## What is taken -/

/-- Of a text nothing but hexadecimal is taken exactly when its pairs do not all read, or are all
two digits. What is written is read back. -/
theorem hexToBytes_hex_iff (text : String) :
    ((∀ bytes, hexToBytes text = some bytes ↔ HexText text bytes) ∧
      ∀ (bytes : ByteBuffer) (withPrefix : Bool),
        hexToBytes (bytesToHex bytes bytes.length withPrefix) = some bytes) ↔
      (AllPairs PairReads (hexBody text) → AllPairs HexPair (hexBody text)) := by
  refine ⟨fun ⟨h, _⟩ hreads => ?_, fun h => ⟨fun bytes => ⟨fun htaken => ?_, ?_⟩,
    hexToBytes_bytesToHex⟩⟩
  · obtain ⟨bytes, hbytes⟩ := Option.isSome_iff_exists.mp ((hexToBytes_isSome_iff text).mpr hreads)
    exact (allPairs_hexPair_iff _).mpr ⟨bytes, (hexText_iff text bytes).mp ((h bytes).mp hbytes)⟩
  · have hreads : AllPairs PairReads (hexBody text) :=
      (hexToBytes_isSome_iff text).mp (by rw [htaken]; rfl)
    obtain ⟨denoted, hdenoted⟩ := (allPairs_hexPair_iff _).mp (h hreads)
    obtain ⟨digits, hdigits, htext⟩ := (hexText_iff text denoted).mpr hdenoted
    have hsame := hexToBytes_digits hdigits htext
    obtain rfl : bytes = denoted := Option.some.inj (htaken.symm.trans hsame)
    exact ⟨digits, hdigits, htext⟩
  · rintro ⟨digits, hdigits, htext⟩
    exact hexToBytes_digits hdigits htext

/-- A digit with a letter behind it is taken for a byte. -/
theorem hexToBytes_junk :
    hexToBytes "1g" = some [1] ∧
      ¬ ∀ bytes, hexToBytes "1g" = some bytes ↔ HexText "1g" bytes := by
  have htaken : hexToBytes "1g" = some [1] := by decide +kernel
  refine ⟨htaken, fun h => ?_⟩
  have hdigits := (hexText_iff "1g" [1]).mp ((h [1]).mp htaken)
  exact absurd hdigits (by decide +kernel)

end Arb
