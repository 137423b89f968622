import HlLighterArb.Hl.Signing
import HlLighterArb.Lib.CanonicalDecimal
import HlLighterArb.Lib.Rounding
import HlLighterArb.MakerPrices

/-!
# HlLighterArb.Hl.WireNumbers

The price HL reads from an order: five significant digits, then eight decimals with the zeros at the
end cut off.

* `decimal_floatToWire`: the decimal that `floatToWire` writes; `floatToWire_canonical`: it is written
  in its one canonical form.
* `onWire`: that decimal for a price. It is monotone, and keeps a price of at most five digits and
  eight decimals (`onWire_mono`, `onWire_of_quote`).
* `maker_order_stays_passive`: a maker order that rests on its book rests there after rounding.
-/

namespace Arb

open Rounding (Nearest HasDigits)

/-! ## The roundings -/

theorem roundHalfAway_nearest : Nearest roundHalfAway := roundHalfAway_error

theorem roundHalfEven_nearest : Nearest roundHalfEven := by
  intro x
  have hle := Int.floor_le x
  have hlt := Int.lt_floor_add_one x
  unfold roundHalfEven
  rw [abs_le]
  split_ifs
  all_goals push_cast
  all_goals constructor <;> linarith

theorem roundSigFigs_eq {value : ℚ} (h : value ≠ 0) (sigFigs : ℤ) :
    roundSigFigs value sigFigs = Rounding.toDigits roundHalfAway sigFigs value := by
  rw [roundSigFigs, if_neg h]
  rfl

/-! ## The decimal that is written -/

/-- What stands before and behind the point of a number that is not negative. -/
theorem fixed8_split {value : ℚ} (h : 0 ≤ value) :
    ∃ whole fraction : List Char, fixed8 value = whole ++ '.' :: fraction ∧ whole ≠ [] ∧
      (∀ c ∈ whole, c.isDigit = true) ∧ (∀ c ∈ fraction, c.isDigit = true) ∧
      fraction.length = 8 ∧ Nat.ofDigitChars 10 (whole ++ fraction) 0 =
        (roundHalfEven (|value| * 10 ^ 8)).toNat ∧ Text.NoLeadingZero whole := by
  generalize hn : (roundHalfEven (|value| * 10 ^ 8)).toNat = n
  have hlength : (Nat.toDigits 10 (n % 10 ^ 8)).length ≤ 8 :=
    (Nat.length_toDigits_le_iff (by norm_num) (by norm_num)).mpr (Nat.mod_lt _ (by norm_num))
  have hpadded : ((Nat.toDigits 10 (n % 10 ^ 8)).leftpad 8 '0').length = 8 := by
    rw [List.length_leftpad, max_eq_left hlength]
  have hvalue : ∀ init, Nat.ofDigitChars 10 ((Nat.toDigits 10 (n % 10 ^ 8)).leftpad 8 '0') init =
      10 ^ 8 * init + n % 10 ^ 8 := by
    intro init
    rw [Nat.ofDigitChars_eq_ofDigitChars_zero, hpadded, List.leftpad, Nat.ofDigitChars_append,
      Nat.ofDigitChars_replicate_zero, Nat.mul_zero, Nat.ofDigitChars_ten_toDigits]
  refine ⟨Nat.toDigits 10 (n / 10 ^ 8), (Nat.toDigits 10 (n % 10 ^ 8)).leftpad 8 '0', ?_,
    Nat.toDigits_ne_nil, fun c hc => Nat.isDigit_of_mem_toDigits (by decide) (by decide) hc, ?_,
    hpadded, ?_, ?_⟩
  · simp [fixed8, hn, not_lt.mpr h]
  · intro c hc
    rw [List.leftpad, List.mem_append, List.mem_replicate] at hc
    rcases hc with ⟨-, rfl⟩ | hc
    · rfl
    · exact Nat.isDigit_of_mem_toDigits (by decide) (by decide) hc
  · rw [Nat.ofDigitChars_append, Nat.ofDigitChars_ten_toDigits, hvalue]
    exact Nat.div_add_mod n (10 ^ 8)
  · rcases Nat.eq_zero_or_pos (n / 10 ^ 8) with hzero | hpos
    · exact .inl (by rw [hzero]; rfl)
    · exact .inr (CompactJson.head_toDigits hpos)

/-- Cutting zeros off behind the point ends at the point. -/
theorem rdropWhile_zeros (whole fraction : List Char) :
    (whole ++ '.' :: fraction).rdropWhile (· = '0') =
      whole ++ '.' :: fraction.rdropWhile (· = '0') := by
  induction fraction using List.reverseRecOn with
  | nil =>
    rw [List.rdropWhile_nil, List.rdropWhile_concat_neg _ _ _ (by decide)]
  | append_singleton fraction c ih =>
    rw [← List.cons_append, ← List.append_assoc]
    by_cases hc : c = '0'
    · rw [List.rdropWhile_concat_pos _ _ _ (by simpa using hc),
        List.rdropWhile_concat_pos _ _ _ (by simpa using hc), ih]
    · rw [List.rdropWhile_concat_neg _ _ _ (by simpa using hc),
        List.rdropWhile_concat_neg _ _ _ (by simpa using hc), List.append_assoc, List.cons_append]

/-- The zeros that are cut off. -/
theorem rdropWhile_zeros_append (fraction : List Char) :
    ∃ k, fraction = fraction.rdropWhile (· = '0') ++ List.replicate k '0' := by
  refine ⟨(fraction.rtakeWhile (· = '0')).length, ?_⟩
  have hzeros : fraction.rtakeWhile (· = '0') =
      List.replicate (fraction.rtakeWhile (· = '0')).length '0' :=
    List.eq_replicate_iff.mpr ⟨rfl, fun c hc => by simpa using List.mem_rtakeWhile_imp hc⟩
  rw [← hzeros, List.rdropWhile_append_rtakeWhile]

/-- The text of a number that is not negative, with and without a fraction. -/
theorem floatToWire_split {value : ℚ} {whole fraction : List Char}
    (h : fixed8 value = whole ++ '.' :: fraction) (hne : whole ≠ [])
    (hdigits : ∀ c ∈ fraction, c.isDigit = true) :
    (floatToWire value).toList =
      if fraction.rdropWhile (· = '0') = [] then whole
      else whole ++ '.' :: fraction.rdropWhile (· = '0') := by
  have hcut : ∀ c ∈ fraction.rdropWhile (· = '0'), c.isDigit = true :=
    fun c hc => hdigits c ((List.rdropWhile_prefix _ _).subset hc)
  simp only [floatToWire, h, rdropWhile_zeros]
  generalize fraction.rdropWhile (· = '0') = cut at hcut ⊢
  cases cut with
  | nil => simp [hne]
  | cons d ds =>
    have hlast : (d :: ds).getLast? ≠ some '.' :=
      fun heq => absurd (hcut '.' (List.mem_of_getLast? heq)) (by decide)
    rw [List.getLast?_append_cons, List.getLast?_cons_cons, if_neg hlast, if_neg (by simp),
      if_neg (by simp), String.toList_ofList]

/-- The decimal of a number that is not negative is the number rounded to eight decimals. -/
theorem decimal_floatToWire {value : ℚ} (h : 0 ≤ value) :
    Text.decimal (floatToWire value).toList =
      some (Rounding.toStep roundHalfEven (10 ^ 8) value) := by
  obtain ⟨whole, fraction, hsplit, hne, hwhole, hdigits, hlength, hvalue, -⟩ := fixed8_split h
  have hround : (0 : ℤ) ≤ roundHalfEven (|value| * 10 ^ 8) := by
    have hmono : roundHalfEven ((0 : ℤ) : ℚ) ≤ roundHalfEven (|value| * 10 ^ 8) :=
      roundHalfEven_nearest.monotone (by push_cast; positivity)
    rwa [roundHalfEven_nearest.intCast] at hmono
  have hnumber : (Nat.ofDigitChars 10 (whole ++ fraction) 0 : ℚ) / 10 ^ 8 =
      Rounding.toStep roundHalfEven (10 ^ 8) value := by
    rw [hvalue, Rounding.toStep]
    congr 1
    rw [abs_of_nonneg h] at hround ⊢
    exact_mod_cast Int.toNat_of_nonneg hround
  obtain ⟨k, hk⟩ := rdropWhile_zeros_append fraction
  have hcut : ∀ c ∈ fraction.rdropWhile (· = '0'), c.isDigit = true :=
    fun c hc => hdigits c ((List.rdropWhile_prefix _ _).subset hc)
  rw [floatToWire_split hsplit hne hdigits, ← hnumber]
  generalize fraction.rdropWhile (· = '0') = cut at hk hcut ⊢
  subst hk
  have hzeros : Nat.ofDigitChars 10 (whole ++ (cut ++ List.replicate k '0')) 0 =
      10 ^ k * Nat.ofDigitChars 10 (whole ++ cut) 0 := by
    rw [← List.append_assoc, Nat.ofDigitChars_append, Nat.ofDigitChars_replicate_zero]
  rw [List.length_append, List.length_replicate] at hlength
  rw [hzeros, ← hlength, pow_add, Nat.cast_mul, Nat.cast_pow, Nat.cast_ofNat]
  split_ifs with hnil
  · subst hnil
    rw [Text.decimal_whole hne hwhole]
    simp
  · rw [Text.decimal_point hne hwhole hcut]
    field_simp

/-- The text of a number that is not negative is the canonical one of a decimal. -/
theorem floatToWire_decimal {value : ℚ} (h : 0 ≤ value) :
    ∃ d : Text.Decimal, d.Canonical ∧ (floatToWire value).toList = d.text ∧
      d.value = Rounding.toStep roundHalfEven (10 ^ 8) value := by
  obtain ⟨whole, fraction, hsplit, hne, hwhole, hdigits, -, -, hlead⟩ := fixed8_split h
  let d : Text.Decimal :=
    { whole
      fraction := fraction.rdropWhile (· = '0')
      nonempty := hne
      wholeDigits := List.all_eq_true.mpr hwhole
      fractionDigits := List.all_eq_true.mpr fun c hc =>
        hdigits c ((List.rdropWhile_prefix _ _).subset hc) }
  have htext : (floatToWire value).toList = d.text := floatToWire_split hsplit hne hdigits
  refine ⟨d, ⟨rfl, hlead, ?_⟩, htext, ?_⟩
  · intro hlast
    have hcut : fraction.rdropWhile (· = '0') ≠ [] := by
      intro hnil
      simp [d, hnil] at hlast
    have hnonzero := List.rdropWhile_last_not (fun c => decide (c = '0')) fraction hcut
    rw [List.getLast?_eq_getLast_of_ne_nil hcut] at hlast
    exact hnonzero (by simpa using hlast)
  · have hread := decimal_floatToWire h
    rw [htext, d.decimal_text] at hread
    exact Option.some.inj hread

/-- The text depends on the number that eight decimals round to only. -/
theorem floatToWire_congr {v w : ℚ} (hv : 0 ≤ v) (hw : 0 ≤ w)
    (h : Rounding.toStep roundHalfEven (10 ^ 8) v = Rounding.toStep roundHalfEven (10 ^ 8) w) :
    floatToWire v = floatToWire w := by
  obtain ⟨d, hd, hdtext, hdvalue⟩ := floatToWire_decimal hv
  obtain ⟨e, he, hetext, hevalue⟩ := floatToWire_decimal hw
  rw [← String.toList_inj, hdtext, hetext]
  exact hd.text_eq he (by rw [hdvalue, hevalue, h])

/-- The text of a number that is not negative denotes it with eight decimals, has a digit behind a
point and no zero at the end behind it, is the one canonical text of its decimal, and tells
numbers apart exactly when eight decimals do. -/
theorem floatToWire_canonical (v : ℚ) (hv : 0 ≤ v) :
    (∃ d : Text.Decimal, d.Canonical ∧ (floatToWire v).toList = d.text ∧
      d.value = Rounding.toStep roundHalfEven (10 ^ 8) v ∧
        ∀ e : Text.Decimal, e.Canonical → e.value = d.value → e.text = d.text) ∧
      floatToWire v ≠ "" ∧ (floatToWire v).toList.getLast? ≠ some '.' ∧
        (∀ whole fraction, (floatToWire v).toList = whole ++ '.' :: fraction →
          fraction.getLast? ≠ some '0') ∧
        ∀ w, 0 ≤ w → (floatToWire v = floatToWire w ↔
          Rounding.toStep roundHalfEven (10 ^ 8) v =
            Rounding.toStep roundHalfEven (10 ^ 8) w) := by
  obtain ⟨d, hd, htext, hvalue⟩ := floatToWire_decimal hv
  refine ⟨⟨d, hd, htext, hvalue, fun e he h => he.text_eq hd h⟩, ?_, ?_, ?_, fun w hw => ⟨?_, ?_⟩⟩
  · intro hempty
    obtain ⟨c, s, hcons, -⟩ := d.text_head
    rw [hempty, hcons] at htext
    cases htext
  · rw [htext]
    exact d.getLast_ne_point
  · intro whole fraction hsplit
    rw [htext] at hsplit
    exact hd.getLast_fraction hsplit
  · intro heq
    have hread := decimal_floatToWire hv
    rw [heq, decimal_floatToWire hw] at hread
    exact (Option.some.inj hread).symm
  · exact floatToWire_congr hv hw

/-- A multiple of ten keeps its zeros, and only what rounds to it is written like it. -/
theorem floatToWire_canonical_hundred :
    floatToWire 100 = "100" ∧ ∀ w, 0 ≤ w → (floatToWire 100 = floatToWire w ↔
      Rounding.toStep roundHalfEven (10 ^ 8) 100 = Rounding.toStep roundHalfEven (10 ^ 8) w) :=
  ⟨by decide +kernel, (floatToWire_canonical 100 (by norm_num)).2.2.2.2⟩

/-! ## Prices -/

/-- The decimal HL reads as the price of an order. -/
def onWire (r : ℚ → ℤ) (price : ℚ) : ℚ :=
  Rounding.toStep r (10 ^ 8) (roundSigFigs price 5)

/-- A price as HL quotes it: at most five significant digits and eight decimals. -/
def Quote (price : ℚ) : Prop := HasDigits 5 price ∧ ∃ n : ℤ, price = n / 10 ^ 8

theorem decimal_wire {price : ℚ} (h : 0 < price) :
    Text.decimal (floatToWire (roundSigFigs price 5)).toList = some (onWire roundHalfEven price) := by
  refine decimal_floatToWire ?_
  rw [roundSigFigs_eq h.ne']
  exact (Rounding.toDigits_pos roundHalfAway_nearest (by norm_num) h).le

section Wire

variable {r : ℚ → ℤ} {price other : ℚ}

theorem onWire_mono (hr : Nearest r) (hprice : 0 < price) (hle : price ≤ other) :
    onWire r price ≤ onWire r other := by
  have hother : 0 < other := lt_of_lt_of_le hprice hle
  refine Rounding.toStep_mono hr (by norm_num) ?_
  rw [roundSigFigs_eq hprice.ne', roundSigFigs_eq hother.ne']
  exact Rounding.toDigits_mono roundHalfAway_nearest (by norm_num) hprice hle

theorem onWire_of_quote (hr : Nearest r) (hpos : 0 < price) (h : Quote price) :
    onWire r price = price := by
  obtain ⟨hdigits, n, hn⟩ := h
  have hsig : roundSigFigs price 5 = price := by
    rw [roundSigFigs_eq hpos.ne']
    exact Rounding.toDigits_of_hasDigits roundHalfAway_nearest hpos hdigits
  rw [onWire, hsig, hn]
  exact Rounding.toStep_of_multiple hr (by norm_num) n

theorem onWire_nonneg (hr : Nearest r) (hprice : 0 < price) : 0 ≤ onWire r price := by
  refine Rounding.toStep_nonneg hr (by norm_num) ?_
  rw [roundSigFigs_eq hprice.ne']
  exact (Rounding.toDigits_pos roundHalfAway_nearest (by norm_num) hprice).le

end Wire

/-- A buy at `px` is at most the bid, a sell at least the ask. -/
def RestsAt (s : SpreadSnapshot) (order : PendingMakerOrder) (px : ℚ) : Prop :=
  (order.isBuy = true → px ≤ s.hl.bid) ∧ (order.isBuy = false → s.hl.ask ≤ px)

theorem HlMakerLighterHedger.buildMakerOrder_rests (cfg : HedgerConfig) (s : SpreadSnapshot)
    (gate : SignalGate) :
    RestsAt s (buildMakerOrder cfg s gate) (buildMakerOrder cfg s gate).price := by
  cases hdir : gate.direction with
  | shortLighterLongHl =>
    refine ⟨fun _ => ?_, fun hsell => by simp [buildMakerOrder, hdir] at hsell⟩
    simp only [buildMakerOrder, hdir]
    exact min_le_right _ _
  | longLighterShortHl =>
    refine ⟨fun hbuy => by simp [buildMakerOrder, hdir] at hbuy, fun _ => ?_⟩
    simp only [buildMakerOrder, hdir]
    exact le_max_right _ _

theorem RestsAt.onWire {s : SpreadSnapshot} {order : PendingMakerOrder} {r : ℚ → ℤ}
    (h : RestsAt s order order.price) (hr : Nearest r) (hpos : 0 < order.price)
    (hbid : Quote s.hl.bid) (hask : Quote s.hl.ask) :
    RestsAt s order (onWire r order.price) := by
  refine ⟨fun hbuy => ?_, fun hsell => ?_⟩
  · have hle := h.1 hbuy
    calc Arb.onWire r order.price ≤ Arb.onWire r s.hl.bid := onWire_mono hr hpos hle
      _ = s.hl.bid := onWire_of_quote hr (lt_of_lt_of_le hpos hle) hbid
  · have hle := h.2 hsell
    rcases lt_or_ge 0 s.hl.ask with hask0 | hask0
    · calc s.hl.ask = Arb.onWire r s.hl.ask := (onWire_of_quote hr hask0 hask).symm
        _ ≤ Arb.onWire r order.price := onWire_mono hr hask0 hle
    · exact hask0.trans (onWire_nonneg hr hpos)

/-- Rounding an HL maker order for the wire does not move it across the book, with the stream's
rounding of the eighth decimal or with halves away from zero. -/
theorem maker_order_stays_passive (cfg : HedgerConfig) (s : SpreadSnapshot) (gate : SignalGate)
    (hbid : Quote s.hl.bid) (hask : Quote s.hl.ask)
    (hpos : 0 < (HlMakerLighterHedger.buildMakerOrder cfg s gate).price) :
    (∃ px, Text.decimal (floatToWire (roundSigFigs
          (HlMakerLighterHedger.buildMakerOrder cfg s gate).price 5)).toList = some px ∧
        RestsAt s (HlMakerLighterHedger.buildMakerOrder cfg s gate) px) ∧
      RestsAt s (HlMakerLighterHedger.buildMakerOrder cfg s gate)
        (onWire roundHalfAway (HlMakerLighterHedger.buildMakerOrder cfg s gate).price) := by
  have hrests := HlMakerLighterHedger.buildMakerOrder_rests cfg s gate
  exact ⟨⟨_, decimal_wire hpos, hrests.onWire roundHalfEven_nearest hpos hbid hask⟩,
    hrests.onWire roundHalfAway_nearest hpos hbid hask⟩

/-- A buy at 100.4 / 1.005, which has no end as a decimal, under a bid of 100. -/
theorem maker_order_stays_passive_wide :
    let cfg : HedgerConfig :=
      { spread_pos := StrategyConfig.default_spread_pos
        cancel_band_nonneg := StrategyConfig.default_cancel_band_nonneg }
    let order := HlMakerLighterHedger.buildMakerOrder cfg wideSnapshot (armedGate 60 50)
    ∃ px, Text.decimal (floatToWire (roundSigFigs order.price 5)).toList = some px ∧
      RestsAt wideSnapshot order px := by
  intro cfg order
  exact (maker_order_stays_passive cfg wideSnapshot (armedGate 60 50)
    ⟨⟨1, 2, by norm_num, by norm_num [wideSnapshot]⟩, 10000000000, by norm_num [wideSnapshot]⟩
    ⟨⟨1001, -1, by norm_num, by norm_num [wideSnapshot]⟩, 10010000000,
      by norm_num [wideSnapshot]⟩
    (by decide +kernel)).1

end Arb
