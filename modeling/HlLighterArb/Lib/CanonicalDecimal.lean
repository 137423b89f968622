import HlLighterArb.Lib.Text
import Mathlib.Tactic.Positivity

/-!
# Lib.CanonicalDecimal

The one way to write a decimal number without digits that say nothing.

* `ofDigits_inj`: numerals of one length, read as numbers.
* `Canonical`: no sign, no zero in front of another digit, no zero at the end of a fraction.
* `Canonical.fraction_le`: no way to write the number has fewer digits behind its point.
* `Canonical.text_eq`: a number has one canonical text.
-/

namespace Text

/-! ## Numerals -/

section Numerals

variable {s t : List Char}

theorem digit_inj {c d : Char} (hc : c.isDigit = true) (hd : d.isDigit = true)
    (h : c.toNat - '0'.toNat = d.toNat - '0'.toNat) : c = d := by
  have hzero : '0'.toNat = 48 := rfl
  have hc48 := (Char.isDigit_iff_toNat.mp hc).1
  have hd48 := (Char.isDigit_iff_toNat.mp hd).1
  exact Char.toNat_inj.mp (by omega)

/-- Numerals of one length that stand for one number are the same. -/
theorem ofDigits_inj (hs : ∀ c ∈ s, c.isDigit = true) (ht : ∀ c ∈ t, c.isDigit = true)
    (hlen : s.length = t.length) (h : Nat.ofDigitChars 10 s 0 = Nat.ofDigitChars 10 t 0) :
    s = t := by
  induction s using List.reverseRecOn generalizing t with
  | nil => exact (List.length_eq_zero_iff.mp hlen.symm).symm
  | append_singleton s c ih =>
    induction t using List.reverseRecOn with
    | nil => simp at hlen
    | append_singleton t d _ =>
      rw [ofDigits_concat, ofDigits_concat] at h
      have hc := hs c (by simp)
      have hd := ht d (by simp)
      have hclt := digit_lt hc
      have hdlt := digit_lt hd
      have hfront : s = t := by
        refine ih (fun x hx => hs x (List.mem_append_left _ hx))
          (fun x hx => ht x (List.mem_append_left _ hx)) (by simpa using hlen) ?_
        omega
      rw [hfront, digit_inj hc hd (by omega)]

/-- A numeral that does not start with a zero is not short for its number. -/
theorem le_ofDigits (hs : ∀ c ∈ s, c.isDigit = true) (hne : s ≠ []) (hhead : s.head? ≠ some '0') :
    10 ^ (s.length - 1) ≤ Nat.ofDigitChars 10 s 0 := by
  induction s using List.reverseRecOn with
  | nil => exact absurd rfl hne
  | append_singleton s c ih =>
    rw [ofDigits_concat, List.length_append, List.length_singleton, Nat.add_sub_cancel]
    cases s with
    | nil =>
      have hpos : c.toNat - '0'.toNat ≠ '0'.toNat - '0'.toNat := by
        intro h
        have hzero : c = '0' := digit_inj (hs c (by simp)) (by decide) h
        exact hhead (by rw [hzero]; rfl)
      simp only [Nat.sub_self] at hpos
      simp only [List.length_nil, pow_zero, Nat.ofDigitChars_nil]
      omega
    | cons d s =>
      have hle := ih (fun x hx => hs x (List.mem_append_left _ hx)) (List.cons_ne_nil d s) hhead
      rw [List.length_cons, Nat.add_sub_cancel] at hle
      rw [List.length_cons, pow_succ]
      omega

/-- No zero in front of another digit. -/
def NoLeadingZero (s : List Char) : Prop := s = ['0'] ∨ s.head? ≠ some '0'

/-- Numerals without a zero in front that stand for one number are the same. -/
theorem NoLeadingZero.eq (hs : ∀ c ∈ s, c.isDigit = true) (ht : ∀ c ∈ t, c.isDigit = true)
    (hsne : s ≠ []) (htne : t ≠ []) (hs0 : NoLeadingZero s) (ht0 : NoLeadingZero t)
    (h : Nat.ofDigitChars 10 s 0 = Nat.ofDigitChars 10 t 0) : s = t := by
  have hle {s t : List Char} (hs : ∀ c ∈ s, c.isDigit = true) (ht : ∀ c ∈ t, c.isDigit = true)
      (hsne : s ≠ []) (htne : t ≠ []) (ht0 : NoLeadingZero t)
      (h : Nat.ofDigitChars 10 s 0 = Nat.ofDigitChars 10 t 0) : t.length ≤ s.length := by
    have hspos : 0 < s.length := List.length_pos_iff.mpr hsne
    rcases ht0 with rfl | hhead
    · exact hspos
    · have hpow : 10 ^ (t.length - 1) < 10 ^ s.length :=
        calc 10 ^ (t.length - 1) ≤ Nat.ofDigitChars 10 t 0 := le_ofDigits ht htne hhead
          _ = Nat.ofDigitChars 10 s 0 := h.symm
          _ < 10 ^ s.length := ofDigits_lt hs
      have := (Nat.pow_lt_pow_iff_right (by norm_num)).mp hpow
      omega
  exact ofDigits_inj hs ht (le_antisymm (hle ht hs htne hsne hs0 h.symm) (hle hs ht hsne htne ht0 h))
    h

end Numerals

/-! ## Decimals -/

namespace Decimal

/-- A decimal without digits, or a sign, that say nothing. -/
structure Canonical (d : Decimal) : Prop where
  unsigned : d.minus = false
  whole : NoLeadingZero d.whole
  fraction : d.fraction.getLast? ≠ some '0'

variable {d e : Decimal}

theorem Canonical.value_eq (h : d.Canonical) :
    d.value = Nat.ofDigitChars 10 (d.whole ++ d.fraction) 0 / 10 ^ d.fraction.length := by
  rw [value, h.unsigned]
  rfl

theorem digits_all (d : Decimal) : ∀ c ∈ d.whole ++ d.fraction, c.isDigit = true := by
  intro c hc
  rcases List.mem_append.mp hc with h | h
  · exact List.all_eq_true.mp d.wholeDigits c h
  · exact List.all_eq_true.mp d.fractionDigits c h

/-- The digits of two decimals of one value, as whole numbers. -/
theorem Canonical.digits_eq (hd : d.Canonical) (he : e.Canonical) (h : d.value = e.value) :
    Nat.ofDigitChars 10 (d.whole ++ d.fraction) 0 * 10 ^ e.fraction.length =
      Nat.ofDigitChars 10 (e.whole ++ e.fraction) 0 * 10 ^ d.fraction.length := by
  rw [hd.value_eq, he.value_eq, div_eq_div_iff (by positivity) (by positivity)] at h
  exact_mod_cast h

/-- No decimal of the same value has fewer digits behind its point. -/
theorem Canonical.fraction_le (hd : d.Canonical) (he : e.Canonical) (h : d.value = e.value) :
    d.fraction.length ≤ e.fraction.length := by
  by_contra hlt
  push Not at hlt
  obtain ⟨k, hk⟩ : ∃ k, d.fraction.length = e.fraction.length + (k + 1) :=
    ⟨d.fraction.length - e.fraction.length - 1, by omega⟩
  have hdigits := hd.digits_eq he h
  rw [hk, pow_add, ← mul_assoc, mul_right_comm] at hdigits
  have hmultiple : Nat.ofDigitChars 10 (d.whole ++ d.fraction) 0 =
      Nat.ofDigitChars 10 (e.whole ++ e.fraction) 0 * 10 ^ (k + 1) :=
    Nat.eq_of_mul_eq_mul_right (by positivity) hdigits
  -- the last digit of the longer one is a zero
  obtain ⟨front, c, hfront⟩ : ∃ front c, d.fraction = front ++ [c] :=
    ⟨_, _, (List.dropLast_append_getLast (List.ne_nil_of_length_pos (by omega))).symm⟩
  have hc : c.isDigit = true := d.digits_all c (by simp [hfront])
  rw [hfront, ← List.append_assoc, ofDigits_concat, pow_succ, ← mul_assoc] at hmultiple
  have hclt := digit_lt hc
  have hzero : c = '0' := digit_inj hc (by decide) (by omega)
  exact hd.fraction (by rw [hfront, hzero]; simp)

/-- A number has one canonical text. -/
theorem Canonical.text_eq (hd : d.Canonical) (he : e.Canonical) (h : d.value = e.value) :
    d.text = e.text := by
  have hlength : d.fraction.length = e.fraction.length :=
    le_antisymm (hd.fraction_le he h) (he.fraction_le hd h.symm)
  have hdigits := hd.digits_eq he h
  rw [hlength] at hdigits
  have hvalues := Nat.eq_of_mul_eq_mul_right (by positivity) hdigits
  have hdall := List.all_eq_true.mp d.wholeDigits
  have heall := List.all_eq_true.mp e.wholeDigits
  have hdf := List.all_eq_true.mp d.fractionDigits
  have hef := List.all_eq_true.mp e.fractionDigits
  rw [Nat.ofDigitChars_append, Nat.ofDigitChars_append, Nat.ofDigitChars_eq_ofDigitChars_zero,
    Nat.ofDigitChars_eq_ofDigitChars_zero (l := e.fraction), hlength] at hvalues
  have hdlt := ofDigits_lt hdf
  have helt := ofDigits_lt hef
  rw [hlength] at hdlt
  have hwhole : d.whole = e.whole := by
    refine NoLeadingZero.eq hdall heall d.nonempty e.nonempty hd.whole he.whole ?_
    have hdiv := congrArg (· / 10 ^ e.fraction.length) hvalues
    simpa only [Nat.mul_add_div (show 0 < 10 ^ e.fraction.length by positivity),
      Nat.div_eq_of_lt hdlt, Nat.div_eq_of_lt helt, Nat.add_zero] using hdiv
  have hfraction : d.fraction = e.fraction := by
    refine ofDigits_inj hdf hef hlength ?_
    rw [hwhole] at hvalues
    exact Nat.add_left_cancel hvalues
  rw [text, text, Decimal.unsigned, Decimal.unsigned, hd.unsigned, he.unsigned, hwhole, hfraction]

theorem unsigned_eq (h : d.minus = false) :
    d.text = if d.fraction = [] then d.whole else d.whole ++ '.' :: d.fraction := by
  rw [text, h, if_neg Bool.false_ne_true, Decimal.unsigned]

/-- A decimal does not end with its point. -/
theorem getLast_ne_point (d : Decimal) : d.text.getLast? ≠ some '.' := by
  have hlast : d.unsigned.getLast? ≠ some '.' := by
    rw [Decimal.unsigned]
    split_ifs with hnil
    · intro h
      have hdigit := List.all_eq_true.mp d.wholeDigits '.' (List.mem_of_getLast? h)
      exact absurd hdigit (by decide)
    · obtain ⟨c, s, hcons⟩ := List.exists_cons_of_ne_nil hnil
      rw [hcons, List.getLast?_append_cons, List.getLast?_cons_cons, ← hcons]
      intro h
      have hdigit := List.all_eq_true.mp d.fractionDigits '.' (List.mem_of_getLast? h)
      exact absurd hdigit (by decide)
  obtain ⟨c, s, hcons, -⟩ := d.unsigned_head
  rw [text]
  split_ifs
  · rwa [hcons, List.getLast?_cons_cons, ← hcons]
  · exact hlast

/-- What stands behind the point is the fraction. -/
theorem Canonical.getLast_fraction (hd : d.Canonical) {whole fraction : List Char}
    (h : d.text = whole ++ '.' :: fraction) : fraction.getLast? ≠ some '0' := by
  have hpoint : '.' ∉ d.whole := fun hmem =>
    absurd (List.all_eq_true.mp d.wholeDigits '.' hmem) (by decide)
  rw [unsigned_eq hd.unsigned] at h
  split_ifs at h with hnil
  · exact absurd (h ▸ List.mem_append_right _ (List.mem_cons_self ..)) hpoint
  · have hfraction : '.' ∉ d.fraction := fun hmem =>
      absurd (List.all_eq_true.mp d.fractionDigits '.' hmem) (by decide)
    obtain ⟨-, -, rfl⟩ := (List.append_cons_inj_of_notMem hpoint hfraction).mp h
    exact hd.fraction

end Decimal

end Text
