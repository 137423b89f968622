import HlLighterArb.Exchange
import HlLighterArb.Lib.CompactJson
import HlLighterArb.Lib.Text
import Mathlib.Data.Int.Log
import Mathlib.Data.List.DropRight
import Mathlib.Data.Rat.Floor

/-!
# HlLighterArb.Hl.Signing

What `NativeHyperliquidTrading` signs and what it sends. An action is written twice by hand: as JSON
text in the request and as MessagePack bytes for the hash that is signed. The request with the nonce
and the vault address goes to the exchange, which packs the action again and checks the signature.

* `mpPackStr` to `mpPackMapSize`: the packing functions, which append to a buffer.
* `orderActionJson`, `cancelActionJson`: the text sent.
* `orderActionBytes`, `cancelActionBytes`: the bytes hashed.
* `signed_is_sent`: the bytes decode to the action of the text, the nonce and the vault address, and
  no other call has the same bytes.
-/

namespace Arb

open MsgPack (Value Fits FitsStr bigEndian strBytes)
open CompactJson (Plain PlainStr)

abbrev ByteBuffer := List UInt8

/-! ## Packing -/

def mpPackStr (out : ByteBuffer) (value : String) : ByteBuffer :=
  let size := value.length % 2 ^ 32
  (if size ≤ 31 then out ++ [UInt8.ofNat (0xa0 ||| size)] else out ++ [0xd9, UInt8.ofNat size]) ++
    strBytes value

def mpPackBool (out : ByteBuffer) (value : Bool) : ByteBuffer :=
  out ++ [if value then 0xc3 else 0xc2]

/-- The bytes of `value` at these shifts. -/
def bytesAt (value : Nat) (shifts : List Nat) : ByteBuffer :=
  shifts.map fun shift => UInt8.ofNat ((value >>> shift) &&& 0xff)

def mpPackUint (out : ByteBuffer) (value : Nat) : ByteBuffer :=
  if value ≤ 0x7f then out ++ [UInt8.ofNat value]
  else if value ≤ 0xff then out ++ [0xcc, UInt8.ofNat value]
  else if value ≤ 0xffff then out ++ 0xcd :: bytesAt value [8, 0]
  else if value ≤ 0xffffffff then out ++ 0xce :: bytesAt value [24, 16, 8, 0]
  else out ++ 0xcf :: bytesAt value [56, 48, 40, 32, 24, 16, 8, 0]

def mpPackArraySize (out : ByteBuffer) (size : Nat) : ByteBuffer :=
  if size ≤ 15 then out ++ [UInt8.ofNat (0x90 ||| size)]
  else out ++ 0xdc :: bytesAt size [8, 0]

def mpPackMapSize (out : ByteBuffer) (size : Nat) : ByteBuffer :=
  if size ≤ 15 then out ++ [UInt8.ofNat (0x80 ||| size)]
  else out ++ 0xde :: bytesAt size [8, 0]

/-- `none` where `hex_to_bytes` throws. -/
def hexToBytes (hex : String) : Option ByteBuffer :=
  let digits := hex.toList
  let digits := if ['0', 'x'] <+: digits ∨ ['0', 'X'] <+: digits then digits.drop 2 else digits
  if digits.length % 2 ≠ 0 then none
  else (List.range (digits.length / 2)).mapM fun i =>
    (Text.stoul 16 ((digits.drop (i * 2)).take 2)).map UInt8.ofNat

/-! ## Numbers on the wire -/

/-- `std::round`: halves away from zero. -/
def roundHalfAway (x : ℚ) : ℤ :=
  if x < 0 then -⌊-x + 1 / 2⌋ else ⌊x + 1 / 2⌋

theorem roundHalfAway_error (x : ℚ) : |(roundHalfAway x : ℚ) - x| ≤ 1 / 2 := by
  unfold roundHalfAway
  split_ifs
  · have hle := Int.floor_le (-x + 1 / 2)
    have hlt := Int.lt_floor_add_one (-x + 1 / 2)
    rw [abs_le]
    push_cast
    constructor <;> linarith
  · have hle := Int.floor_le (x + 1 / 2)
    have hlt := Int.lt_floor_add_one (x + 1 / 2)
    rw [abs_le]
    constructor <;> linarith

/-- The rounding of an output stream: halves to even. -/
def roundHalfEven (x : ℚ) : ℤ :=
  if x - ⌊x⌋ < 1 / 2 then ⌊x⌋
  else if 1 / 2 < x - ⌊x⌋ then ⌊x⌋ + 1
  else if ⌊x⌋ % 2 = 0 then ⌊x⌋ else ⌊x⌋ + 1

/-- A number as a stream prints it with eight decimals. -/
def fixed8 (value : ℚ) : List Char :=
  let n := (roundHalfEven (|value| * 10 ^ 8)).toNat
  (if value < 0 then ['-'] else []) ++ Nat.toDigits 10 (n / 10 ^ 8) ++
    '.' :: (Nat.toDigits 10 (n % 10 ^ 8)).leftpad 8 '0'

def floatToWire (value : ℚ) : String :=
  let out := (fixed8 value).rdropWhile (· = '0')
  let out := if out.getLast? = some '.' then out.dropLast else out
  if out = [] then "0" else String.ofList out

def roundSigFigs (value : ℚ) (sigFigs : ℤ) : ℚ :=
  if value = 0 then 0
  else
    let scale : ℚ := 10 ^ (sigFigs - 1 - Int.log 10 |value|)
    roundHalfAway (value * scale) / scale

/-! ## Actions -/

/-- The asset is an `int`, the number of decimals one that fits a double's exponent. -/
structure MetaEntry where
  asset : Int32 := 0
  szDecimals : ℤ := 0

structure NativeHyperliquidTrading where
  vaultAddress : Option String := none
  /-- What `ensure_meta` has loaded; `meta_for_coin` throws where it is `none`. -/
  metaForCoin : String → Option MetaEntry := fun _ => none

namespace NativeHyperliquidTrading

variable (t : NativeHyperliquidTrading)

def tif (request : HlLimitOrderRequest) (ioc : Bool) : String :=
  if ioc then "Ioc" else if request.postOnly then "Alo" else "Gtc"

def wirePrice (request : HlLimitOrderRequest) : String :=
  floatToWire (roundSigFigs request.price 5)

def wireSize (request : HlLimitOrderRequest) (entry : MetaEntry) : String :=
  floatToWire (roundHalfAway (request.size * 10 ^ entry.szDecimals) / 10 ^ entry.szDecimals)

def orderActionJson (request : HlLimitOrderRequest) (entry : MetaEntry) (ioc reduceOnly : Bool) :
    String :=
  "\x7b\"type\":\"order\",\"orders\":[\x7b\"a\":" ++ toString entry.asset.toInt ++
    ",\"b\":" ++ (if request.isBuy then "true" else "false") ++
    ",\"p\":\"" ++ wirePrice request ++
    "\",\"s\":\"" ++ wireSize request entry ++
    "\",\"r\":" ++ (if reduceOnly then "true" else "false") ++
    ",\"t\":\x7b\"limit\":\x7b\"tif\":\"" ++ tif request ioc ++
    "\"\x7d\x7d\x7d],\"grouping\":\"na\"\x7d"

def cancelActionJson (coin oid : String) : Option String := do
  let entry ← t.metaForCoin coin
  some ("\x7b\"type\":\"cancel\",\"cancels\":[\x7b\"a\":" ++ toString entry.asset.toInt ++
    ",\"o\":" ++ oid ++ "\x7d]\x7d")

def appendVaultAndNonce (buf : ByteBuffer) (nonce : UInt64) : Option ByteBuffer :=
  let buf := buf ++ bytesAt nonce.toNat [56, 48, 40, 32, 24, 16, 8, 0]
  match t.vaultAddress with
  | some address => (hexToBytes address).map fun addrBytes => buf ++ 0x01 :: addrBytes
  | none => some (buf ++ [0x00])

/-- `static_cast<std::uint64_t>` of an `int`. -/
def uint64OfInt (n : Int32) : Nat :=
  (n.toInt % 2 ^ 64).toNat

/-- What `order_action_hash` feeds to `keccak256`. -/
def orderActionBytes (request : HlLimitOrderRequest) (entry : MetaEntry) (ioc reduceOnly : Bool)
    (nonce : UInt64) : Option ByteBuffer :=
  let out := mpPackMapSize [] 3
  let out := mpPackStr out "type"
  let out := mpPackStr out "order"
  let out := mpPackStr out "orders"
  let out := mpPackArraySize out 1
  let out := mpPackMapSize out 6
  let out := mpPackStr out "a"
  let out := mpPackUint out (uint64OfInt entry.asset)
  let out := mpPackStr out "b"
  let out := mpPackBool out request.isBuy
  let out := mpPackStr out "p"
  let out := mpPackStr out (wirePrice request)
  let out := mpPackStr out "s"
  let out := mpPackStr out (wireSize request entry)
  let out := mpPackStr out "r"
  let out := mpPackBool out reduceOnly
  let out := mpPackStr out "t"
  let out := mpPackMapSize out 1
  let out := mpPackStr out "limit"
  let out := mpPackMapSize out 1
  let out := mpPackStr out "tif"
  let out := mpPackStr out (tif request ioc)
  let out := mpPackStr out "grouping"
  let out := mpPackStr out "na"
  t.appendVaultAndNonce out nonce

/-- What `cancel_action_hash` feeds to `keccak256`. -/
def cancelActionBytes (coin oid : String) (nonce : UInt64) : Option ByteBuffer := do
  let entry ← t.metaForCoin coin
  let out := mpPackMapSize [] 2
  let out := mpPackStr out "type"
  let out := mpPackStr out "cancel"
  let out := mpPackStr out "cancels"
  let out := mpPackArraySize out 1
  let out := mpPackMapSize out 2
  let out := mpPackStr out "a"
  let out := mpPackUint out (uint64OfInt entry.asset)
  let out := mpPackStr out "o"
  let n ← Text.stoul 10 oid.toList
  let out := mpPackUint out n
  t.appendVaultAndNonce out nonce

def orderActionHash {β : Type} (keccak256 : ByteBuffer → β) (request : HlLimitOrderRequest)
    (entry : MetaEntry) (ioc reduceOnly : Bool) (nonce : UInt64) : Option β :=
  (t.orderActionBytes request entry ioc reduceOnly nonce).map keccak256

def cancelActionHash {β : Type} (keccak256 : ByteBuffer → β) (coin oid : String) (nonce : UInt64) :
    Option β :=
  (t.cancelActionBytes coin oid nonce).map keccak256

end NativeHyperliquidTrading

/-! ## The packing functions follow the format -/

theorem bytesAt_cons (value k : Nat) (shifts : List Nat) :
    bytesAt value (8 * k :: shifts) = UInt8.ofNat (value / 256 ^ k) :: bytesAt value shifts := by
  have hbyte : UInt8.ofNat ((value >>> (8 * k)) &&& 0xff) = UInt8.ofNat (value / 256 ^ k) := by
    have hmask : (value >>> (8 * k)) &&& 0xff = value / 256 ^ k % 2 ^ 8 := by
      rw [Nat.shiftRight_eq_div_pow, pow_mul]
      exact Nat.and_two_pow_sub_one_eq_mod _ 8
    rw [hmask, ← UInt8.toNat_inj, UInt8.toNat_ofNat', UInt8.toNat_ofNat', Nat.mod_mod]
  rw [bytesAt, List.map_cons, hbyte]
  rfl

theorem bytesAt_two (value : Nat) : bytesAt value [8, 0] = bigEndian 2 value := by
  rw [bytesAt_cons value 1, bytesAt_cons value 0]
  rfl

theorem bytesAt_four (value : Nat) : bytesAt value [24, 16, 8, 0] = bigEndian 4 value := by
  rw [bytesAt_cons value 3, bytesAt_cons value 2, bytesAt_cons value 1, bytesAt_cons value 0]
  rfl

theorem bytesAt_eight (value : Nat) :
    bytesAt value [56, 48, 40, 32, 24, 16, 8, 0] = bigEndian 8 value := by
  rw [bytesAt_cons value 7, bytesAt_cons value 6, bytesAt_cons value 5, bytesAt_cons value 4,
    bytesAt_cons value 3, bytesAt_cons value 2, bytesAt_cons value 1, bytesAt_cons value 0]
  rfl

theorem mpPackUint_eq (out : ByteBuffer) (n : Nat) :
    mpPackUint out n = out ++ (Value.uint n).encode := by
  have h0 : n < 0x80 ↔ n ≤ 0x7f := by omega
  have h1 : n < 256 ^ 1 ↔ n ≤ 0xff := by omega
  have h2 : n < 256 ^ 2 ↔ n ≤ 0xffff := by omega
  have h4 : n < 256 ^ 4 ↔ n ≤ 0xffffffff := by omega
  simp only [mpPackUint, Value.encode, MsgPack.packUint, bytesAt_two, bytesAt_four, bytesAt_eight,
    h0, h1, h2, h4]
  split_ifs
  · rfl
  · simp [bigEndian]
  · rfl
  · rfl
  · rfl

/-- A string of 256 bytes or more would get a wrong size. -/
theorem mpPackStr_eq (out : ByteBuffer) {value : String} (h : value.length < 256) :
    mpPackStr out value = out ++ (Value.str value).encode := by
  have hmod : value.length % 2 ^ 32 = value.length := Nat.mod_eq_of_lt (by omega)
  simp only [mpPackStr, Value.encode, MsgPack.packStr, MsgPack.packStrSize, hmod]
  by_cases hfix : value.length ≤ 31
  · have hor : 0xa0 ||| value.length = 0xa0 + value.length :=
      (Nat.two_pow_add_eq_or_of_lt (i := 5) (by omega) 5).symm
    rw [if_pos hfix, if_pos (by omega), hor, List.append_assoc]
  · rw [if_neg hfix, if_neg (by omega), if_pos (by omega), List.append_assoc]
    simp [bigEndian]

theorem mpPackArraySize_eq (out : ByteBuffer) {n : Nat} (h : n < 2 ^ 16) :
    mpPackArraySize out n = out ++ MsgPack.packArrSize n := by
  simp only [mpPackArraySize, MsgPack.packArrSize, bytesAt_two]
  by_cases hfix : n ≤ 15
  · have hor : 0x90 ||| n = 0x90 + n := (Nat.two_pow_add_eq_or_of_lt (i := 4) (by omega) 9).symm
    rw [if_pos hfix, if_pos (by omega), hor]
  · rw [if_neg hfix, if_neg (by omega), if_pos (by omega)]

theorem mpPackMapSize_eq (out : ByteBuffer) {n : Nat} (h : n < 2 ^ 16) :
    mpPackMapSize out n = out ++ MsgPack.packMapSize n := by
  simp only [mpPackMapSize, MsgPack.packMapSize, bytesAt_two]
  by_cases hfix : n ≤ 15
  · have hor : 0x80 ||| n = 0x80 + n := (Nat.two_pow_add_eq_or_of_lt (i := 4) (by omega) 8).symm
    rw [if_pos hfix, if_pos (by omega), hor]
  · rw [if_neg hfix, if_neg (by omega), if_pos (by omega)]

/-! ## The vault address -/

/-- The text is two hexadecimal digits for every byte. -/
def HexDigits : List Char → ByteBuffer → Prop
  | [], [] => True
  | c :: d :: cs, b :: bs => Text.digitValue 16 c = some (b.toNat / 16) ∧
      Text.digitValue 16 d = some (b.toNat % 16) ∧ HexDigits cs bs
  | _, _ => False

def decideHexDigits : (digits : List Char) → (bytes : ByteBuffer) →
    Decidable (HexDigits digits bytes)
  | [], [] => .isTrue trivial
  | _ :: _ :: cs, _ :: bs =>
    have := decideHexDigits cs bs
    inferInstanceAs (Decidable (_ ∧ _ ∧ _))
  | [], _ :: _ => .isFalse id
  | [_], [] => .isFalse id
  | [_], _ :: _ => .isFalse id
  | _ :: _ :: _, [] => .isFalse id

instance (digits : List Char) (bytes : ByteBuffer) : Decidable (HexDigits digits bytes) :=
  decideHexDigits digits bytes

/-- The address is absent, or 20 bytes of hexadecimal digits. -/
def NativeHyperliquidTrading.Vault (t : NativeHyperliquidTrading) : Option ByteBuffer → Prop
  | none => t.vaultAddress = none
  | some bytes => bytes.length = 20 ∧ ∃ text digits, t.vaultAddress = some text ∧
      HexDigits digits bytes ∧ (text.toList = digits ∨ text.toList = '0' :: 'x' :: digits ∨
        text.toList = '0' :: 'X' :: digits)

theorem HexDigits.length {digits : List Char} {bytes : ByteBuffer} (h : HexDigits digits bytes) :
    digits.length = 2 * bytes.length := by
  induction digits, bytes using HexDigits.induct with
  | case1 => rfl
  | case2 c d cs b bs ih =>
    have := ih h.2.2
    simp only [List.length_cons]
    omega
  | case3 => simp_all [HexDigits]

theorem digitValue_of_low {c : Char} (h : c.toNat < 48) : Text.digitValue 16 c = none := by
  have hdigit : c.isDigit = false := by
    by_contra hd
    have : 48 ≤ c.toNat := (Char.isDigit_iff_toNat.mp (by simpa using hd)).1
    omega
  have hlower : ¬ 'a' ≤ c := by
    intro ha
    have : 97 ≤ c.toNat := ha
    omega
  have hupper : ¬ 'A' ≤ c := by
    intro ha
    have : 65 ≤ c.toNat := ha
    omega
  simp [Text.digitValue, hdigit, hlower, hupper]

/-- A hexadecimal digit is neither white space nor a sign nor the mark of a prefix. -/
theorem hexDigit_spec {c : Char} {v : Nat} (h : Text.digitValue 16 c = some v) :
    Text.isSpace c = false ∧ c ≠ '-' ∧ c ≠ '+' ∧ c ≠ 'x' ∧ c ≠ 'X' ∧ v < 16 := by
  refine ⟨?_, ?_, ?_, ?_, ?_, ?_⟩
  · refine Text.not_space_of_le ?_
    by_contra hlow
    have hnone : Text.digitValue 16 c = none := digitValue_of_low (by omega)
    rw [hnone] at h
    cases h
  · rintro rfl
    cases h
  · rintro rfl
    cases h
  · rintro rfl
    cases h
  · rintro rfl
    cases h
  · unfold Text.digitValue at h
    simp only at h
    split_ifs at h with hlt hlt hlt hlt <;> cases h <;> omega

/-- Two hexadecimal digits are read as their value. -/
theorem stoul_pair {c d : Char} {hi lo : Nat} (hc : Text.digitValue 16 c = some hi)
    (hd : Text.digitValue 16 d = some lo) : Text.stoul 16 [c, d] = some (16 * hi + lo) := by
  obtain ⟨hspace, hminus, hplus, -, -, hhi⟩ := hexDigit_spec hc
  obtain ⟨-, -, -, hx, hX, hlo⟩ := hexDigit_spec hd
  have hsign : Text.takeSign [c, d] = (false, [c, d]) := by
    simp [Text.takeSign, hminus, hplus]
  have hskip : Text.skipHexPrefix 16 [c, d] = [c, d] := by
    unfold Text.skipHexPrefix
    split
    · simp_all
    · rfl
  simp [Text.stoul, hspace, hsign, hskip, Text.digitValues, hc, hd]
  omega

/-- A loop over the pairs of a text takes the first pair, and goes on behind it. -/
theorem mapM_pairs_cons {β : Type} (f : List Char → Option β) (c d : Char) (cs : List Char)
    (n : Nat) :
    (List.range (n + 1)).mapM (fun i => f (((c :: d :: cs).drop (i * 2)).take 2)) =
      (f [c, d]).bind fun b =>
        ((List.range n).mapM fun i => f ((cs.drop (i * 2)).take 2)).map (b :: ·) := by
  have hshift : (fun i => f (((c :: d :: cs).drop ((i + 1) * 2)).take 2)) =
      fun i => f ((cs.drop (i * 2)).take 2) := by
    funext i
    rw [Nat.succ_mul]
    rfl
  rw [List.range_succ_eq_map, List.mapM_cons, List.mapM_map]
  simp only [Nat.zero_mul, List.drop_zero, List.take_succ_cons, List.take_zero, Function.comp_def,
    Nat.succ_eq_add_one, hshift]
  cases f [c, d] with
  | none => rfl
  | some b => cases (List.range n).mapM fun i => f ((cs.drop (i * 2)).take 2) <;> rfl

/-- Hexadecimal digits are read pair by pair. -/
theorem mapM_pairs {digits : List Char} {bytes : ByteBuffer} (h : HexDigits digits bytes) :
    (List.range bytes.length).mapM (fun i =>
      (Text.stoul 16 ((digits.drop (i * 2)).take 2)).map UInt8.ofNat) = some bytes := by
  induction digits, bytes using HexDigits.induct with
  | case1 => rfl
  | case2 c d cs b bs ih =>
    obtain ⟨hc, hd, hrest⟩ := h
    have hbyte : UInt8.ofNat (16 * (b.toNat / 16) + b.toNat % 16) = b := by
      rw [Nat.div_add_mod]
      exact UInt8.ofNat_toNat
    rw [List.length_cons, mapM_pairs_cons fun pair => (Text.stoul 16 pair).map UInt8.ofNat,
      stoul_pair hc hd, ih hrest]
    simp only [Option.map_some, Option.bind_some, hbyte]
  | case3 => simp_all [HexDigits]

/-- Hexadecimal digits do not start with a prefix. -/
theorem HexDigits.not_prefixed {c d : Char} {rest : List Char} {bytes : ByteBuffer}
    (h : HexDigits (c :: d :: rest) bytes) (hd : Text.digitValue 16 d = none) : False := by
  cases bytes with
  | nil => exact h
  | cons b bs =>
    have hsecond := h.2.1
    rw [hd] at hsecond
    cases hsecond

/-- The digits of a text, without the prefix it may have. -/
def hexBody (text : String) : List Char :=
  let digits := text.toList
  if ['0', 'x'] <+: digits ∨ ['0', 'X'] <+: digits then digits.drop 2 else digits

theorem HexDigits.body {text : String} {digits : List Char} {bytes : ByteBuffer}
    (h : HexDigits digits bytes) (htext : text.toList = digits ∨
      text.toList = '0' :: 'x' :: digits ∨ text.toList = '0' :: 'X' :: digits) :
    hexBody text = digits := by
  rcases htext with heq | heq | heq
  · simp only [hexBody, heq]
    rw [if_neg]
    rintro (⟨rest, rfl⟩ | ⟨rest, rfl⟩)
    · exact h.not_prefixed (by decide)
    · exact h.not_prefixed (by decide)
  · simp only [hexBody, heq]
    exact if_pos (.inl ⟨digits, rfl⟩)
  · simp only [hexBody, heq]
    exact if_pos (.inr ⟨digits, rfl⟩)

theorem hexToBytes_eq (text : String) :
    hexToBytes text = if (hexBody text).length % 2 ≠ 0 then none
      else (List.range ((hexBody text).length / 2)).mapM fun i =>
        (Text.stoul 16 (((hexBody text).drop (i * 2)).take 2)).map UInt8.ofNat :=
  rfl

theorem hexToBytes_digits {text : String} {digits : List Char} {bytes : ByteBuffer}
    (h : HexDigits digits bytes) (htext : text.toList = digits ∨
      text.toList = '0' :: 'x' :: digits ∨ text.toList = '0' :: 'X' :: digits) :
    hexToBytes text = some bytes := by
  have hlength := h.length
  rw [hexToBytes_eq, h.body htext, if_neg (by omega),
    show digits.length / 2 = bytes.length by omega]
  exact mapM_pairs h

/-- The bytes behind the action: the nonce, and a flag with the vault address. -/
def trailer (nonce : UInt64) (vault : Option ByteBuffer) : ByteBuffer :=
  bigEndian 8 nonce.toNat ++ match vault with
    | some bytes => 0x01 :: bytes
    | none => [0x00]

theorem appendVaultAndNonce_eq {t : NativeHyperliquidTrading} {vault : Option ByteBuffer}
    (h : t.Vault vault) (buf : ByteBuffer) (nonce : UInt64) :
    t.appendVaultAndNonce buf nonce = some (buf ++ trailer nonce vault) := by
  cases vault with
  | none =>
    have haddress : t.vaultAddress = none := h
    simp [NativeHyperliquidTrading.appendVaultAndNonce, haddress, bytesAt_eight, trailer]
  | some bytes =>
    obtain ⟨-, text, digits, haddress, hdigits, htext⟩ := h
    simp [NativeHyperliquidTrading.appendVaultAndNonce, haddress, hexToBytes_digits hdigits htext,
      bytesAt_eight, trailer]

theorem trailer_inj {nonce nonce' : UInt64} {vault vault' : Option ByteBuffer}
    (h : trailer nonce vault = trailer nonce' vault') : nonce = nonce' ∧ vault = vault' := by
  obtain ⟨hnonce, hvault⟩ := List.append_inj h (by simp)
  refine ⟨?_, ?_⟩
  · rw [← UInt64.toNat_inj]
    exact MsgPack.bigEndian_inj nonce.toNat_lt nonce'.toNat_lt hnonce
  · cases vault <;> cases vault' <;> simp_all

/-! ## The action behind both encodings -/

/-- The object an order is sent as. -/
def orderAction (asset : Nat) (isBuy : Bool) (price size : String) (reduceOnly : Bool)
    (tif : String) : Value :=
  .map [("type", .str "order"),
    ("orders", .arr [.map [("a", .uint asset), ("b", .bool isBuy), ("p", .str price),
      ("s", .str size), ("r", .bool reduceOnly),
      ("t", .map [("limit", .map [("tif", .str tif)])])]]),
    ("grouping", .str "na")]

/-- The object a cancel is sent as. -/
def cancelAction (asset oid : Nat) : Value :=
  .map [("type", .str "cancel"), ("cancels", .arr [.map [("a", .uint asset), ("o", .uint oid)]])]

theorem uint64OfInt_eq {n : Int32} (h : 0 ≤ n.toInt) :
    NativeHyperliquidTrading.uint64OfInt n = n.toInt.toNat := by
  have := n.toInt_lt
  rw [NativeHyperliquidTrading.uint64OfInt, Int.emod_eq_of_lt h (by omega)]

theorem orderActionBytes_eq {t : NativeHyperliquidTrading} {vault : Option ByteBuffer}
    (hvault : t.Vault vault) {request : HlLimitOrderRequest} {entry : MetaEntry}
    (hasset : 0 ≤ entry.asset.toInt)
    (hprice : (NativeHyperliquidTrading.wirePrice request).length < 256)
    (hsize : (NativeHyperliquidTrading.wireSize request entry).length < 256)
    (ioc reduceOnly : Bool) (nonce : UInt64) :
    t.orderActionBytes request entry ioc reduceOnly nonce =
      some ((orderAction entry.asset.toInt.toNat request.isBuy
        (NativeHyperliquidTrading.wirePrice request)
        (NativeHyperliquidTrading.wireSize request entry) reduceOnly
        (NativeHyperliquidTrading.tif request ioc)).encode ++ trailer nonce vault) := by
  have htif : (NativeHyperliquidTrading.tif request ioc).length < 256 := by
    unfold NativeHyperliquidTrading.tif
    split_ifs <;> decide
  rw [NativeHyperliquidTrading.orderActionBytes, appendVaultAndNonce_eq hvault,
    uint64OfInt_eq hasset]
  simp (disch := first | assumption | decide) only [mpPackStr_eq, mpPackUint_eq,
    mpPackArraySize_eq, mpPackMapSize_eq]
  simp [mpPackBool, orderAction, Value.encode, MsgPack.encodeItems, MsgPack.encodeFields,
    MsgPack.encodeField]

theorem cancelActionBytes_eq {t : NativeHyperliquidTrading} {vault : Option ByteBuffer}
    (hvault : t.Vault vault) {coin : String} {entry : MetaEntry}
    (hcoin : t.metaForCoin coin = some entry) (hasset : 0 ≤ entry.asset.toInt) {oid : Nat}
    (hoid : oid < 2 ^ 64) (nonce : UInt64) :
    t.cancelActionBytes coin (toString oid) nonce =
      some ((cancelAction entry.asset.toInt.toNat oid).encode ++ trailer nonce vault) := by
  have hread : Text.stoul 10 (toString oid).toList = some oid := by
    rw [show (toString oid).toList = Nat.toDigits 10 oid from Nat.toList_repr]
    exact Text.stoul_toDigits hoid
  simp only [NativeHyperliquidTrading.cancelActionBytes, hcoin, hread, Option.bind_eq_bind,
    Option.bind_some, appendVaultAndNonce_eq hvault, uint64OfInt_eq hasset]
  simp (disch := decide) only [mpPackStr_eq, mpPackUint_eq, mpPackArraySize_eq, mpPackMapSize_eq]
  simp [cancelAction, Value.encode, MsgPack.encodeItems, MsgPack.encodeFields, MsgPack.encodeField]

theorem toString_toInt {i : Int} (h : 0 ≤ i) :
    (toString i).toList = Nat.toDigits 10 i.toNat := by
  obtain ⟨n, rfl⟩ := Int.eq_ofNat_of_zero_le h
  rw [show toString (n : Int) = n.repr from rfl, Int.toNat_natCast]
  exact Nat.toList_repr

theorem orderActionJson_eq {request : HlLimitOrderRequest} {entry : MetaEntry}
    (hasset : 0 ≤ entry.asset.toInt) (ioc reduceOnly : Bool) :
    NativeHyperliquidTrading.orderActionJson request entry ioc reduceOnly =
      String.ofList (CompactJson.render (orderAction entry.asset.toInt.toNat request.isBuy
        (NativeHyperliquidTrading.wirePrice request)
        (NativeHyperliquidTrading.wireSize request entry) reduceOnly
        (NativeHyperliquidTrading.tif request ioc))) := by
  have hnumber := toString_toInt hasset
  have hbuy : (if request.isBuy then "true" else "false").toList =
      CompactJson.render (.bool request.isBuy) := by cases request.isBuy <;> rfl
  have hreduce : (if reduceOnly then "true" else "false").toList =
      CompactJson.render (.bool reduceOnly) := by cases reduceOnly <;> rfl
  unfold NativeHyperliquidTrading.orderActionJson
  generalize toString entry.asset.toInt = number at hnumber ⊢
  generalize (if request.isBuy then "true" else "false") = buy at hbuy ⊢
  generalize (if reduceOnly then "true" else "false") = reduce at hreduce ⊢
  apply String.toList_inj.mp
  simp only [String.toList_append, hnumber, hbuy, hreduce, String.toList_ofList]
  simp [orderAction, CompactJson.render, CompactJson.renderItems, CompactJson.renderFields,
    CompactJson.renderField, CompactJson.renderStr]

theorem cancelActionJson_eq {t : NativeHyperliquidTrading} {coin : String} {entry : MetaEntry}
    (hcoin : t.metaForCoin coin = some entry) (hasset : 0 ≤ entry.asset.toInt) (oid : Nat) :
    t.cancelActionJson coin (toString oid) =
      some (String.ofList (CompactJson.render (cancelAction entry.asset.toInt.toNat oid))) := by
  have hnumber := toString_toInt hasset
  have hoid : (toString oid).toList = Nat.toDigits 10 oid := Nat.toList_repr
  simp only [NativeHyperliquidTrading.cancelActionJson, hcoin, Option.bind_eq_bind,
    Option.bind_some, Option.some.injEq]
  generalize toString entry.asset.toInt = number at hnumber ⊢
  generalize toString oid = numeral at hoid ⊢
  apply String.toList_inj.mp
  simp only [String.toList_append, hnumber, hoid, String.toList_ofList]
  simp [cancelAction, CompactJson.render, CompactJson.renderItems, CompactJson.renderFields,
    CompactJson.renderField, CompactJson.renderStr]

/-! ## The strings on the wire -/

/-- The characters of a number on the wire. -/
def WireChar (c : Char) : Prop :=
  c.isDigit = true ∨ c = '.' ∨ c = '-'

theorem fixed8_wire (value : ℚ) : ∀ c ∈ fixed8 value, WireChar c := by
  have hdigits : ∀ n, ∀ c ∈ Nat.toDigits 10 n, WireChar c :=
    fun n c hc => .inl (Nat.isDigit_of_mem_toDigits (by decide) (by decide) hc)
  intro c hc
  simp only [fixed8, List.mem_append, List.mem_cons, List.leftpad, List.mem_replicate] at hc
  rcases hc with (hsign | hwhole) | rfl | ⟨-, rfl⟩ | hfraction
  · split_ifs at hsign
    · exact .inr (.inr (by simpa using hsign))
    · cases hsign
  · exact hdigits _ c hwhole
  · exact .inr (.inl rfl)
  · exact .inl rfl
  · exact hdigits _ c hfraction

theorem floatToWire_wire (value : ℚ) : ∀ c ∈ (floatToWire value).toList, WireChar c := by
  have hstripped : ∀ c ∈ (fixed8 value).rdropWhile (· = '0'), WireChar c :=
    fun c hc => fixed8_wire value c ((List.rdropWhile_prefix _ _).subset hc)
  unfold floatToWire
  generalize (fixed8 value).rdropWhile (· = '0') = stripped at hstripped ⊢
  have hout : ∀ c ∈ (if stripped.getLast? = some '.' then stripped.dropLast else stripped),
      WireChar c := by
    split_ifs
    · exact fun c hc => hstripped c (List.dropLast_subset _ hc)
    · exact hstripped
  simp only
  generalize (if stripped.getLast? = some '.' then stripped.dropLast else stripped) = out at hout ⊢
  split_ifs
  · exact fun c hc => .inl (by simp_all)
  · rw [String.toList_ofList]
    exact hout

theorem WireChar.range {c : Char} (h : WireChar c) : CompactJson.plain c = true ∧ c.toNat < 256 := by
  rcases h with hdigit | rfl | rfl
  · obtain ⟨hlow, hhigh⟩ := Char.isDigit_iff_toNat.mp hdigit
    have hspace : ' ' ≤ c := by
      have : 32 ≤ c.toNat := le_trans (by decide) hlow
      exact this
    have hquote : c ≠ '"' := by rintro rfl; cases hdigit
    have hescape : c ≠ '\\' := by rintro rfl; cases hdigit
    exact ⟨by simp [CompactJson.plain, hquote, hescape, hspace], lt_of_le_of_lt hhigh (by decide)⟩
  · decide
  · decide

theorem wire_plain (value : ℚ) : PlainStr (floatToWire value) :=
  fun c hc => (floatToWire_wire value c hc).range.1

theorem wire_fits {value : ℚ} (h : (floatToWire value).length < 256) : FitsStr (floatToWire value) :=
  ⟨by omega, fun c hc => (floatToWire_wire value c hc).range.2⟩

/-! ## What is signed is what is sent -/

/-- A call that signs an action and sends it. -/
inductive ActionCall where
  | order (request : HlLimitOrderRequest) (entry : MetaEntry) (ioc reduceOnly : Bool)
  | cancel (coin oid : String)

namespace NativeHyperliquidTrading

variable (t : NativeHyperliquidTrading)

def actionJson : ActionCall → Option String
  | .order request entry ioc reduceOnly => some (orderActionJson request entry ioc reduceOnly)
  | .cancel coin oid => t.cancelActionJson coin oid

def actionBytes (nonce : UInt64) : ActionCall → Option ByteBuffer
  | .order request entry ioc reduceOnly => t.orderActionBytes request entry ioc reduceOnly nonce
  | .cancel coin oid => t.cancelActionBytes coin oid nonce

def actionHash {β : Type} (keccak256 : ByteBuffer → β) (nonce : UInt64) : ActionCall → Option β
  | .order request entry ioc reduceOnly =>
    t.orderActionHash keccak256 request entry ioc reduceOnly nonce
  | .cancel coin oid => t.cancelActionHash keccak256 coin oid nonce

/-- The asset is not negative; the numbers of an order have fewer than 256 characters on the wire,
and the oid of a cancel is the decimal numeral of a 64-bit number. -/
def InRange : ActionCall → Prop
  | .order request entry _ _ => 0 ≤ entry.asset.toInt ∧ (wirePrice request).length < 256 ∧
      (wireSize request entry).length < 256
  | .cancel coin oid => ∃ entry n, t.metaForCoin coin = some entry ∧ 0 ≤ entry.asset.toInt ∧
      oid = toString n ∧ n < 2 ^ 64

theorem actionHash_eq {β : Type} (keccak256 : ByteBuffer → β) (nonce : UInt64)
    (call : ActionCall) :
    t.actionHash keccak256 nonce call = (t.actionBytes nonce call).map keccak256 := by
  cases call <;> rfl

end NativeHyperliquidTrading

open NativeHyperliquidTrading

theorem tif_range (request : HlLimitOrderRequest) (ioc : Bool) :
    PlainStr (tif request ioc) ∧ FitsStr (tif request ioc) := by
  unfold tif
  split_ifs <;> decide +kernel

theorem orderAction_fits {asset : Nat} (isBuy : Bool) {price size : String} (reduceOnly : Bool)
    {tif : String} (hasset : asset < 2 ^ 64) (hprice : FitsStr price) (hsize : FitsStr size)
    (htif : FitsStr tif) : Fits (orderAction asset isBuy price size reduceOnly tif) := by
  have hnames : FitsStr "type" ∧ FitsStr "order" ∧ FitsStr "orders" ∧ FitsStr "a" ∧ FitsStr "b" ∧
      FitsStr "p" ∧ FitsStr "s" ∧ FitsStr "r" ∧ FitsStr "t" ∧ FitsStr "limit" ∧ FitsStr "tif" ∧
      FitsStr "grouping" ∧ FitsStr "na" := by decide +kernel
  simpa [orderAction, hnames, hprice, hsize, htif] using hasset

theorem orderAction_plain (asset : Nat) (isBuy : Bool) {price size : String} (reduceOnly : Bool)
    {tif : String} (hprice : PlainStr price) (hsize : PlainStr size) (htif : PlainStr tif) :
    Plain (orderAction asset isBuy price size reduceOnly tif) := by
  have hnames : PlainStr "type" ∧ PlainStr "order" ∧ PlainStr "orders" ∧ PlainStr "a" ∧
      PlainStr "b" ∧ PlainStr "p" ∧ PlainStr "s" ∧ PlainStr "r" ∧ PlainStr "t" ∧
      PlainStr "limit" ∧ PlainStr "tif" ∧ PlainStr "grouping" ∧ PlainStr "na" := by
    decide +kernel
  simp [orderAction, hnames, hprice, hsize, htif]

theorem cancelAction_fits {asset oid : Nat} (hasset : asset < 2 ^ 64) (hoid : oid < 2 ^ 64) :
    Fits (cancelAction asset oid) := by
  have hnames : FitsStr "type" ∧ FitsStr "cancel" ∧ FitsStr "cancels" ∧ FitsStr "a" ∧
      FitsStr "o" := by decide +kernel
  simpa [cancelAction, hnames] using And.intro hasset hoid

theorem cancelAction_plain (asset oid : Nat) : Plain (cancelAction asset oid) := by
  have hnames : PlainStr "type" ∧ PlainStr "cancel" ∧ PlainStr "cancels" ∧ PlainStr "a" ∧
      PlainStr "o" := by decide +kernel
  simp [cancelAction, hnames]

/-- A call in range writes one action, which both formats can carry, in both formats. -/
theorem NativeHyperliquidTrading.InRange.encodings {t : NativeHyperliquidTrading}
    {call : ActionCall} (h : t.InRange call) :
    ∃ action, Fits action ∧ Plain action ∧
      t.actionJson call = some (String.ofList (CompactJson.render action)) ∧
      ∀ nonce vault, t.Vault vault →
        t.actionBytes nonce call = some (action.encode ++ trailer nonce vault) := by
  have hrange : ∀ n : Int32, n.toInt.toNat < 2 ^ 64 := by
    intro n
    have := n.toInt_lt
    omega
  cases call with
  | order request entry ioc reduceOnly =>
    obtain ⟨hasset, hprice, hsize⟩ := h
    obtain ⟨htifPlain, htifFits⟩ := tif_range request ioc
    exact ⟨_, orderAction_fits _ _ (hrange _) (wire_fits hprice) (wire_fits hsize) htifFits,
      orderAction_plain _ _ _ (wire_plain _) (wire_plain _) htifPlain,
      congrArg some (orderActionJson_eq hasset ioc reduceOnly),
      fun nonce vault hvault => orderActionBytes_eq hvault hasset hprice hsize ioc reduceOnly nonce⟩
  | cancel coin oid =>
    obtain ⟨entry, n, hcoin, hasset, rfl, hn⟩ := h
    exact ⟨_, cancelAction_fits (hrange _) hn, cancelAction_plain _ _,
      cancelActionJson_eq hcoin hasset n,
      fun nonce vault hvault => cancelActionBytes_eq hvault hcoin hasset hn nonce⟩

/-- The bytes hashed for a call decode to the action its text stands for, followed by the nonce and
the vault address; and a call with the same bytes has the same text, nonce and vault address. -/
theorem signed_is_sent {β : Type} (keccak256 : ByteBuffer → β) {t : NativeHyperliquidTrading}
    {call : ActionCall} {vault : Option ByteBuffer} (nonce : UInt64) (hcall : t.InRange call)
    (hvault : t.Vault vault) :
    ∃ text bytes action, t.actionJson call = some text ∧ t.actionBytes nonce call = some bytes ∧
      t.actionHash keccak256 nonce call = some (keccak256 bytes) ∧
      CompactJson.parse text = some action ∧
      MsgPack.unpack bytes = some (action, trailer nonce vault) ∧
      ∀ (t' : NativeHyperliquidTrading) (call' : ActionCall) (nonce' : UInt64)
        (vault' : Option ByteBuffer), t'.InRange call' → t'.Vault vault' →
        t'.actionBytes nonce' call' = some bytes →
        t'.actionJson call' = some text ∧ nonce' = nonce ∧ vault' = vault := by
  obtain ⟨action, hfits, hplain, hjson, hbytes⟩ := NativeHyperliquidTrading.InRange.encodings hcall
  refine ⟨_, _, action, hjson, hbytes nonce vault hvault, ?_, CompactJson.parse_render hplain,
    MsgPack.unpack_encode hfits _, ?_⟩
  · rw [actionHash_eq, hbytes nonce vault hvault]
    rfl
  · intro t' call' nonce' vault' hcall' hvault' hsame
    obtain ⟨action', hfits', -, hjson', hbytes'⟩ := NativeHyperliquidTrading.InRange.encodings hcall'
    rw [hbytes' nonce' vault' hvault'] at hsame
    obtain ⟨rfl, htrailer⟩ := MsgPack.encode_append_inj hfits' hfits (Option.some.inj hsame)
    obtain ⟨rfl, rfl⟩ := trailer_inj htrailer
    exact ⟨hjson', rfl, rfl⟩

/-- HL lists one coin as asset 132 with two decimals, and orders are signed for a vault. -/
def vaultTrading : NativeHyperliquidTrading where
  vaultAddress := some "0xa3fb9fed3fe24baaafcbe783409bedaeff28d0a7"
  metaForCoin coin := if coin = "HYPE" then some { asset := 132, szDecimals := 2 } else none

def vaultBytes : ByteBuffer :=
  [0xa3, 0xfb, 0x9f, 0xed, 0x3f, 0xe2, 0x4b, 0xaa, 0xaf, 0xcb, 0xe7, 0x83, 0x40, 0x9b, 0xed, 0xae,
    0xff, 0x28, 0xd0, 0xa7]

def makerBuy : HlLimitOrderRequest where
  price := 37.9
  size := 0.26

/-- The packed order of the signing test. -/
example : vaultTrading.orderActionBytes makerBuy { asset := 132, szDecimals := 2 } false false
    1711584000000 = (hexToBytes ("83a474797065a56f72646572a66f72646572739186a161cc84a162c3a170a433" ++
      "372e39a173a4302e3236a172c2a17481a56c696d697481a3746966a3416c6fa867726f7570696e67a26e61")).map
      (· ++ trailer 1711584000000 (some vaultBytes)) := by
  decide +kernel

theorem vaultTrading_vault : vaultTrading.Vault (some vaultBytes) :=
  ⟨rfl, _, "a3fb9fed3fe24baaafcbe783409bedaeff28d0a7".toList, rfl, by decide +kernel,
    .inr (.inl (by decide +kernel))⟩

/-- The order of the signing test, and a cancel of it with the same nonce. -/
theorem signed_is_sent_sample :
    ∃ text bytes action,
      vaultTrading.actionJson (.order makerBuy { asset := 132, szDecimals := 2 } false false) =
        some text ∧
      vaultTrading.actionBytes 1711584000000
        (.order makerBuy { asset := 132, szDecimals := 2 } false false) = some bytes ∧
      CompactJson.parse text = some action ∧
      MsgPack.unpack bytes = some (action, trailer 1711584000000 (some vaultBytes)) ∧
      (vaultTrading.actionBytes 1711584000000 (.cancel "HYPE" (toString 77)) = some bytes →
        vaultTrading.actionJson (.cancel "HYPE" (toString 77)) = some text) := by
  obtain ⟨text, bytes, action, hjson, hbytes, -, hparse, hunpack, honly⟩ :=
    @signed_is_sent _ (fun bytes => bytes.length) vaultTrading
      (.order makerBuy { asset := 132, szDecimals := 2 } false false) (some vaultBytes)
      1711584000000 (by decide +kernel : _ ∧ _ ∧ _) vaultTrading_vault
  have hcancel : vaultTrading.InRange (.cancel "HYPE" (toString 77)) :=
    ⟨{ asset := 132, szDecimals := 2 }, 77, rfl, by decide, rfl, by decide⟩
  exact ⟨text, bytes, action, hjson, hbytes, hparse, hunpack,
    fun h => (honly _ _ _ _ hcancel vaultTrading_vault h).1⟩

end Arb
