import Mathlib.Data.List.TakeWhile

/-!
# Lib.FormEncoding

Forms as URLs and request bodies carry them: fields with a name and a value of any bytes.

* `encode`, `decode`: bytes with a percent sign for those that do not stand for themselves.
* `renderForm`, `parseForm`: fields with `&` between them.
* `decode_encode`, `parse_render`: the round trips.
-/

namespace FormEncoding

abbrev Bytes := List UInt8

/-- The characters that stand for themselves: letters, digits and four marks. -/
def unreserved (c : Char) : Bool :=
  c.isAlphanum || c ∈ ['-', '_', '.', '~']

def hexDigit (n : Nat) : Char :=
  "0123456789ABCDEF".toList.getD n '0'

def hexValue (c : Char) : Option Nat :=
  if c.isDigit then some (c.toNat - '0'.toNat)
  else if 'A' ≤ c ∧ c ≤ 'F' then some (c.toNat - 'A'.toNat + 10)
  else if 'a' ≤ c ∧ c ≤ 'f' then some (c.toNat - 'a'.toNat + 10)
  else none

def encodeByte (b : UInt8) : List Char :=
  if unreserved (Char.ofNat b.toNat) then [Char.ofNat b.toNat]
  else ['%', hexDigit (b.toNat / 16), hexDigit (b.toNat % 16)]

def encode (bytes : Bytes) : List Char := bytes.flatMap encodeByte

def decode : List Char → Option Bytes
  | [] => some []
  | '%' :: h :: l :: rest =>
    match hexValue h, hexValue l with
    | some h, some l => (decode rest).map (UInt8.ofNat (16 * h + l) :: ·)
    | _, _ => none
  | c :: rest => (decode rest).map ((if c = '+' then 0x20 else UInt8.ofNat c.toNat) :: ·)

abbrev Form := List (List Char × Bytes)

def renderField (f : List Char × Bytes) : List Char := f.1 ++ '=' :: encode f.2

def renderForm (form : Form) : List Char := ['&'].intercalate (form.map renderField)

def parseField (text : List Char) : Option (List Char × Bytes) :=
  (decode (text.dropWhile (· ≠ '=')).tail).map (text.takeWhile (· ≠ '='), ·)

def parseForm (text : List Char) : Option Form := (text.splitOn '&').mapM parseField

/-! ## Bytes -/

theorem unreserved_ne {c : Char} (h : unreserved c = true) :
    c ≠ '%' ∧ c ≠ '+' ∧ c ≠ '&' ∧ c ≠ '=' := by
  refine ⟨?_, ?_, ?_, ?_⟩ <;> rintro rfl <;> revert h <;> decide

theorem byteChar_toNat (b : UInt8) : (Char.ofNat b.toNat).toNat = b.toNat := by
  have hvalid : b.toNat.isValidChar := .inl (by have := b.toNat_lt; omega)
  rw [Char.ofNat, dif_pos hvalid]
  rfl

theorem hexDigit_spec : ∀ n < 16, hexValue (hexDigit n) = some n ∧ unreserved (hexDigit n) = true := by
  decide

/-- Nothing that is written has a meaning in a form, but for the percent sign. -/
theorem mem_encode {bytes : Bytes} {c : Char} (h : c ∈ encode bytes) : c ≠ '&' ∧ c ≠ '=' := by
  obtain ⟨b, -, hc⟩ := List.mem_flatMap.mp h
  have hlt := b.toNat_lt
  rw [encodeByte] at hc
  split_ifs at hc with hself
  · obtain rfl := List.mem_singleton.mp hc
    exact (unreserved_ne hself).2.2
  · simp only [List.mem_cons, List.not_mem_nil, or_false] at hc
    rcases hc with rfl | rfl | rfl
    · decide
    · exact (unreserved_ne (hexDigit_spec _ (by omega)).2).2.2
    · exact (unreserved_ne (hexDigit_spec _ (by omega)).2).2.2

theorem decode_encodeByte (b : UInt8) (rest : List Char) :
    decode (encodeByte b ++ rest) = (decode rest).map (b :: ·) := by
  have hlt := b.toNat_lt
  rw [encodeByte]
  split_ifs with hself
  · obtain ⟨hpercent, hplus, -⟩ := unreserved_ne hself
    rw [List.singleton_append, decode.eq_3, if_neg hplus, byteChar_toNat, UInt8.ofNat_toNat]
    exact fun _ _ _ h => absurd h hpercent
  · have hwhole : 16 * (b.toNat / 16) + b.toNat % 16 = b.toNat := Nat.div_add_mod ..
    simp only [List.cons_append, List.nil_append, decode, (hexDigit_spec _ (show b.toNat / 16 < 16
      by omega)).1, (hexDigit_spec _ (show b.toNat % 16 < 16 by omega)).1, hwhole,
      UInt8.ofNat_toNat]

theorem decode_encode (bytes : Bytes) : decode (encode bytes) = some bytes := by
  induction bytes with
  | nil => rfl
  | cons b bytes ih => rw [encode, List.flatMap_cons, decode_encodeByte, ← encode, ih, Option.map_some]

/-! ## Forms -/

/-- A name that does not end before it should. -/
def PlainName (name : List Char) : Prop := '&' ∉ name ∧ '=' ∉ name

theorem parseField_render {f : List Char × Bytes} (h : PlainName f.1) :
    parseField (renderField f) = some f := by
  have hname : ∀ c ∈ f.1, decide (c ≠ '=') = true := fun c hc =>
    decide_eq_true fun heq => h.2 (heq ▸ hc)
  rw [parseField, renderField, List.dropWhile_append_of_pos hname,
    List.takeWhile_append_of_pos hname]
  simp [decode_encode]

theorem parse_render {form : Form} (hne : form ≠ []) (h : ∀ f ∈ form, PlainName f.1) :
    parseForm (renderForm form) = some form := by
  have hfields : ∀ text ∈ form.map renderField, '&' ∉ text := by
    intro text htext hmem
    obtain ⟨f, hf, rfl⟩ := List.mem_map.mp htext
    rw [renderField, List.mem_append, List.mem_cons] at hmem
    rcases hmem with hmem | hmem | hmem
    · exact (h f hf).1 hmem
    · cases hmem
    · exact (mem_encode hmem).1 rfl
  rw [parseForm, renderForm, List.splitOn_intercalate '&' hfields (by simpa using hne)]
  clear hne hfields
  induction form with
  | nil => rfl
  | cons f form ih =>
    obtain ⟨hf, hform⟩ := List.forall_mem_cons.mp h
    rw [List.map_cons, List.mapM_cons, parseField_render hf, ih hform]
    rfl

end FormEncoding
