import Mathlib.Algebra.Order.Ring.Nat
import Mathlib.Tactic.Common
import Mathlib.Tactic.Ring

/-!
# Lib.MsgPack

The MessagePack format, for the values it shares with JSON: unsigned integers, booleans, strings,
arrays, and maps with string keys in their order. A string has one character a byte.

* `Value.encode`: a value in the shortest format.
* `decode`: the value a byte sequence starts with, in any format for these values, and what is left.
* `unpack_encode`: a value that fits is decoded from its encoding, whatever follows it. So no
  encoding is the beginning of another one.
-/

namespace MsgPack

inductive Value where
  | uint (n : Nat)
  | bool (b : Bool)
  | str (s : String)
  | arr (items : List Value)
  | map (fields : List (String × Value))

/-! ## Big-endian integers -/

def bigEndian : Nat → Nat → List UInt8
  | 0, _ => []
  | width + 1, n => UInt8.ofNat (n / 256 ^ width) :: bigEndian width n

def ofBigEndian (bytes : List UInt8) : Nat :=
  bytes.foldl (fun n b => 256 * n + b.toNat) 0

/-- The integer in the first `width` bytes, and what is left. -/
def takeUint (width : Nat) (bytes : List UInt8) : Option (Nat × List UInt8) :=
  if width ≤ bytes.length then some (ofBigEndian (bytes.take width), bytes.drop width) else none

@[simp] theorem bigEndian_length (width n : Nat) : (bigEndian width n).length = width := by
  induction width with
  | zero => rfl
  | succ width ih => simp [bigEndian, ih]

theorem foldl_bigEndian (width n acc : Nat) :
    (bigEndian width n).foldl (fun n b => 256 * n + b.toNat) acc =
      acc * 256 ^ width + n % 256 ^ width := by
  induction width generalizing acc with
  | zero => simp [bigEndian, Nat.mod_one]
  | succ width ih =>
    have hbyte : (UInt8.ofNat (n / 256 ^ width)).toNat = n / 256 ^ width % 256 := by simp
    have hmod : n % 256 ^ (width + 1) = n % 256 ^ width + 256 ^ width * (n / 256 ^ width % 256) := by
      rw [pow_succ, Nat.mod_mul]
    rw [bigEndian, List.foldl_cons, ih, hbyte, hmod]
    ring

theorem takeUint_bigEndian {width n : Nat} (h : n < 256 ^ width) (rest : List UInt8) :
    takeUint width (bigEndian width n ++ rest) = some (n, rest) := by
  have hlength : width ≤ (bigEndian width n ++ rest).length := by simp
  have htake : (bigEndian width n ++ rest).take width = bigEndian width n :=
    List.take_left' (bigEndian_length width n)
  have hdrop : (bigEndian width n ++ rest).drop width = rest :=
    List.drop_left' (bigEndian_length width n)
  rw [takeUint, if_pos hlength, htake, hdrop, ofBigEndian, foldl_bigEndian, Nat.mod_eq_of_lt h]
  simp

theorem bigEndian_inj {width m n : Nat} (hm : m < 256 ^ width) (hn : n < 256 ^ width)
    (h : bigEndian width m = bigEndian width n) : m = n := by
  have hread := takeUint_bigEndian hm []
  rw [h, takeUint_bigEndian hn] at hread
  simpa using hread.symm

/-! ## First bytes -/

/-- How a string, an array or a map says its size. -/
inductive Size where
  | fixed (n : Nat)
  | wide (width : Nat)

def Size.read : Size → List UInt8 → Option (Nat × List UInt8)
  | .fixed n, bytes => some (n, bytes)
  | .wide width, bytes => takeUint width bytes

/-- What the first byte of a value announces. -/
inductive Head where
  | uint (n : Nat)
  | wide (width : Nat)
  | bool (b : Bool)
  | str (size : Size)
  | arr (size : Size)
  | map (size : Size)

/-- `none` for the formats of values that are not modelled: nil, negative integers, floats, binary
data and extensions. -/
def head (byte : UInt8) : Option Head :=
  let b := byte.toNat
  if b < 0x80 then some (.uint b)
  else if b < 0x90 then some (.map (.fixed (b - 0x80)))
  else if b < 0xa0 then some (.arr (.fixed (b - 0x90)))
  else if b < 0xc0 then some (.str (.fixed (b - 0xa0)))
  else match b with
    | 0xc2 => some (.bool false)
    | 0xc3 => some (.bool true)
    | 0xcc => some (.wide 1)
    | 0xcd => some (.wide 2)
    | 0xce => some (.wide 4)
    | 0xcf => some (.wide 8)
    | 0xd9 => some (.str (.wide 1))
    | 0xda => some (.str (.wide 2))
    | 0xdb => some (.str (.wide 4))
    | 0xdc => some (.arr (.wide 2))
    | 0xdd => some (.arr (.wide 4))
    | 0xde => some (.map (.wide 2))
    | 0xdf => some (.map (.wide 4))
    | _ => none

def packUint (n : Nat) : List UInt8 :=
  if n < 0x80 then [UInt8.ofNat n]
  else if n < 256 ^ 1 then 0xcc :: bigEndian 1 n
  else if n < 256 ^ 2 then 0xcd :: bigEndian 2 n
  else if n < 256 ^ 4 then 0xce :: bigEndian 4 n
  else 0xcf :: bigEndian 8 n

def packStrSize (n : Nat) : List UInt8 :=
  if n < 32 then [UInt8.ofNat (0xa0 + n)]
  else if n < 256 ^ 1 then 0xd9 :: bigEndian 1 n
  else if n < 256 ^ 2 then 0xda :: bigEndian 2 n
  else 0xdb :: bigEndian 4 n

def packArrSize (n : Nat) : List UInt8 :=
  if n < 16 then [UInt8.ofNat (0x90 + n)]
  else if n < 256 ^ 2 then 0xdc :: bigEndian 2 n
  else 0xdd :: bigEndian 4 n

def packMapSize (n : Nat) : List UInt8 :=
  if n < 16 then [UInt8.ofNat (0x80 + n)]
  else if n < 256 ^ 2 then 0xde :: bigEndian 2 n
  else 0xdf :: bigEndian 4 n

/-- The bytes start with a first byte and a size that say `n` of a kind. -/
def Announces (kind : Size → Head) (n : Nat) (bytes : List UInt8) : Prop :=
  ∃ byte size tail, bytes = byte :: tail ∧ head byte = some (kind size) ∧
    ∀ rest, size.read (tail ++ rest) = some (n, rest)

theorem Announces.of_fixed {kind : Size → Head} {n : Nat} {byte : UInt8}
    (h : head byte = some (kind (.fixed n))) : Announces kind n [byte] :=
  ⟨byte, .fixed n, [], rfl, h, fun _ => rfl⟩

theorem Announces.of_wide {kind : Size → Head} {n width : Nat} {byte : UInt8}
    (h : head byte = some (kind (.wide width))) (hn : n < 256 ^ width) :
    Announces kind n (byte :: bigEndian width n) :=
  ⟨byte, .wide width, _, rfl, h, takeUint_bigEndian hn⟩

theorem toNat_ofNat_add (base n : Nat) (h : base + n < 256) :
    (UInt8.ofNat (base + n)).toNat = base + n := by
  rw [UInt8.toNat_ofNat', Nat.mod_eq_of_lt h]

theorem announces_str {n : Nat} (h : n < 256 ^ 4) : Announces .str n (packStrSize n) := by
  unfold packStrSize
  split_ifs with hfix h1 h2
  · refine .of_fixed ?_
    simp only [head, toNat_ofNat_add 0xa0 n (by omega)]
    rw [if_neg (by omega), if_neg (by omega), if_neg (by omega), if_pos (by omega)]
    rw [Nat.add_sub_cancel_left]
  · exact .of_wide rfl h1
  · exact .of_wide rfl h2
  · exact .of_wide rfl h

theorem announces_arr {n : Nat} (h : n < 256 ^ 4) : Announces .arr n (packArrSize n) := by
  unfold packArrSize
  split_ifs with hfix h2
  · refine .of_fixed ?_
    simp only [head, toNat_ofNat_add 0x90 n (by omega)]
    rw [if_neg (by omega), if_neg (by omega), if_pos (by omega)]
    rw [Nat.add_sub_cancel_left]
  · exact .of_wide rfl h2
  · exact .of_wide rfl h

theorem announces_map {n : Nat} (h : n < 256 ^ 4) : Announces .map n (packMapSize n) := by
  unfold packMapSize
  split_ifs with hfix h2
  · refine .of_fixed ?_
    simp only [head, toNat_ofNat_add 0x80 n (by omega)]
    rw [if_neg (by omega), if_pos (by omega)]
    rw [Nat.add_sub_cancel_left]
  · exact .of_wide rfl h2
  · exact .of_wide rfl h

/-! ## Values -/

def strBytes (s : String) : List UInt8 :=
  s.toList.map fun c => UInt8.ofNat c.toNat

def ofStrBytes (bytes : List UInt8) : String :=
  String.ofList (bytes.map fun b => Char.ofNat b.toNat)

def packStr (s : String) : List UInt8 :=
  packStrSize s.length ++ strBytes s

mutual

def Value.encode : Value → List UInt8
  | .uint n => packUint n
  | .bool b => [if b then 0xc3 else 0xc2]
  | .str s => packStr s
  | .arr items => packArrSize items.length ++ encodeItems items
  | .map fields => packMapSize fields.length ++ encodeFields fields
termination_by structural v => v

def encodeItems : List Value → List UInt8
  | [] => []
  | v :: vs => v.encode ++ encodeItems vs
termination_by structural vs => vs

def encodeFields : List (String × Value) → List UInt8
  | [] => []
  | f :: fs => encodeField f ++ encodeFields fs
termination_by structural fs => fs

def encodeField : String × Value → List UInt8
  | (key, v) => packStr key ++ v.encode
termination_by structural f => f

end

/-- `n` values one after the other. -/
def times {α : Type} (p : List UInt8 → Option (α × List UInt8)) :
    Nat → List UInt8 → Option (List α × List UInt8)
  | 0, bytes => some ([], bytes)
  | n + 1, bytes => do
    let (a, rest) ← p bytes
    let (as, rest) ← times p n rest
    some (a :: as, rest)

/-- A key, which is a string, and its value. -/
def field (p : List UInt8 → Option (Value × List UInt8)) (bytes : List UInt8) :
    Option ((String × Value) × List UInt8) := do
  let (key, rest) ← p bytes
  match key with
  | .str key => do
    let (v, rest) ← p rest
    some ((key, v), rest)
  | _ => none

/-- `fuel` bounds the depth of the value. -/
def decode : Nat → List UInt8 → Option (Value × List UInt8)
  | 0, _ => none
  | _ + 1, [] => none
  | fuel + 1, byte :: rest =>
    match head byte with
    | none => none
    | some (.uint n) => some (.uint n, rest)
    | some (.wide width) => do
      let (n, rest) ← takeUint width rest
      some (.uint n, rest)
    | some (.bool b) => some (.bool b, rest)
    | some (.str size) => do
      let (n, rest) ← size.read rest
      if n ≤ rest.length then some (.str (ofStrBytes (rest.take n)), rest.drop n) else none
    | some (.arr size) => do
      let (n, rest) ← size.read rest
      let (items, rest) ← times (decode fuel) n rest
      some (.arr items, rest)
    | some (.map size) => do
      let (n, rest) ← size.read rest
      let (fields, rest) ← times (field (decode fuel)) n rest
      some (.map fields, rest)

/-- The value a byte sequence starts with, and what follows it. -/
def unpack (bytes : List UInt8) : Option (Value × List UInt8) :=
  decode bytes.length bytes

/-! ## The round trip -/

def FitsStr (s : String) : Prop :=
  s.length < 256 ^ 4 ∧ ∀ c ∈ s.toList, c.toNat < 256

/-- The value has an encoding: its integers, sizes and characters are in range. -/
inductive Fits : Value → Prop where
  | uint {n : Nat} (range : n < 256 ^ 8) : Fits (.uint n)
  | bool (b : Bool) : Fits (.bool b)
  | str {s : String} (fits : FitsStr s) : Fits (.str s)
  | arr {items : List Value} (size : items.length < 256 ^ 4) (all : ∀ v ∈ items, Fits v) :
      Fits (.arr items)
  | map {fields : List (String × Value)} (size : fields.length < 256 ^ 4)
      (keys : ∀ f ∈ fields, FitsStr f.1) (values : ∀ f ∈ fields, Fits f.2) : Fits (.map fields)

theorem ofStrBytes_strBytes {s : String} (h : FitsStr s) : ofStrBytes (strBytes s) = s := by
  have hchar : ∀ c ∈ s.toList, Char.ofNat (UInt8.ofNat c.toNat).toNat = c := by
    intro c hc
    rw [UInt8.toNat_ofNat', Nat.mod_eq_of_lt (h.2 c hc), Char.ofNat_toNat]
  have hchars : (strBytes s).map (fun b => Char.ofNat b.toNat) = s.toList := by
    rw [strBytes, List.map_map]
    exact (List.map_congr_left hchar).trans (List.map_id' _)
  rw [ofStrBytes, hchars, String.ofList_toList]

@[simp] theorem strBytes_length (s : String) : (strBytes s).length = s.length := by
  rw [strBytes, List.length_map, String.length_toList]

theorem encodeItems_eq (items : List Value) : encodeItems items = items.flatMap Value.encode := by
  induction items with
  | nil => rfl
  | cons v vs ih => rw [encodeItems, ih, List.flatMap_cons]

theorem encodeFields_eq (fields : List (String × Value)) :
    encodeFields fields = fields.flatMap encodeField := by
  induction fields with
  | nil => rfl
  | cons f fs ih => rw [encodeFields, ih, List.flatMap_cons]

theorem length_le_flatMap {α β : Type} {f : α → List β} {a : α} {as : List α} (h : a ∈ as) :
    (f a).length ≤ (as.flatMap f).length := by
  induction as with
  | nil => cases h
  | cons x xs ih =>
    rw [List.flatMap_cons, List.length_append]
    rcases List.mem_cons.mp h with rfl | hmem
    · omega
    · have := ih hmem
      omega

theorem times_flatMap {α : Type} {p : List UInt8 → Option (α × List UInt8)}
    {enc : α → List UInt8} {as : List α} (h : ∀ a ∈ as, ∀ rest, p (enc a ++ rest) = some (a, rest))
    (rest : List UInt8) : times p as.length (as.flatMap enc ++ rest) = some (as, rest) := by
  induction as with
  | nil => rfl
  | cons a as ih =>
    obtain ⟨ha, has⟩ := List.forall_mem_cons.mp h
    rw [List.flatMap_cons, List.append_assoc, List.length_cons, times, ha]
    simp [ih has]

theorem decode_packUint {n : Nat} (h : n < 256 ^ 8) (fuel : Nat) (rest : List UInt8) :
    decode (fuel + 1) (packUint n ++ rest) = some (.uint n, rest) := by
  have hwide : ∀ byte width, head byte = some (.wide width) → n < 256 ^ width →
      decode (fuel + 1) (byte :: bigEndian width n ++ rest) = some (.uint n, rest) := by
    intro byte width hhead hn
    rw [List.cons_append, decode, hhead]
    simp [takeUint_bigEndian hn]
  unfold packUint
  split_ifs with hfix h1 h2 h4
  · have hbyte : (UInt8.ofNat n).toNat = n := by
      rw [UInt8.toNat_ofNat', Nat.mod_eq_of_lt (by omega)]
    rw [List.singleton_append, decode, head, hbyte, if_pos hfix]
  · exact hwide 0xcc 1 rfl h1
  · exact hwide 0xcd 2 rfl h2
  · exact hwide 0xce 4 rfl h4
  · exact hwide 0xcf 8 rfl h

/-- An announced size leaves room for at least its first byte. -/
theorem Announces.length_pos {kind : Size → Head} {n : Nat} {bytes : List UInt8}
    (h : Announces kind n bytes) : 0 < bytes.length := by
  obtain ⟨byte, size, tail, rfl, -⟩ := h
  simp

theorem encode_length_pos {v : Value} (h : Fits v) : 0 < v.encode.length := by
  cases h with
  | @uint n =>
    simp only [Value.encode, packUint]
    split_ifs <;> simp
  | bool => simp [Value.encode]
  | str fits =>
    have := (announces_str fits.1).length_pos
    rw [Value.encode, packStr, List.length_append]
    omega
  | arr size =>
    have := (announces_arr size).length_pos
    rw [Value.encode, List.length_append]
    omega
  | map size =>
    have := (announces_map size).length_pos
    rw [Value.encode, List.length_append]
    omega

/-- With fuel for the length of its encoding, a value that fits is decoded from it. -/
theorem decode_encode (fuel : Nat) {v : Value} (hfits : Fits v) (hfuel : v.encode.length ≤ fuel)
    (rest : List UInt8) : decode fuel (v.encode ++ rest) = some (v, rest) := by
  induction fuel generalizing v rest with
  | zero =>
    have := encode_length_pos hfits
    omega
  | succ fuel ih =>
    have hstr : ∀ key rest, FitsStr key →
        decode (fuel + 1) (packStr key ++ rest) = some (.str key, rest) := by
      intro key rest fits
      obtain ⟨byte, size, tail, hbytes, hhead, hread⟩ := announces_str fits.1
      rw [packStr, hbytes, List.append_assoc, List.cons_append, decode, hhead]
      simp [hread, ofStrBytes_strBytes fits]
    cases hfits with
    | uint range => exact decode_packUint range fuel rest
    | bool b => cases b <;> rfl
    | str fits => exact hstr _ rest fits
    | @arr items size all =>
      have hlength := (announces_arr size).length_pos
      obtain ⟨byte, first, tail, hbytes, hhead, hread⟩ := announces_arr size
      rw [Value.encode, List.length_append, encodeItems_eq] at hfuel
      have hitems : ∀ v ∈ items, ∀ rest, decode fuel (v.encode ++ rest) = some (v, rest) := by
        intro v hv rest
        have := @length_le_flatMap _ _ Value.encode v items hv
        exact ih (all v hv) (by omega) rest
      rw [Value.encode, encodeItems_eq, hbytes, List.append_assoc, List.cons_append, decode, hhead]
      simp [hread, times_flatMap hitems]
    | @map fields size keys values =>
      have hlength := (announces_map size).length_pos
      obtain ⟨byte, first, tail, hbytes, hhead, hread⟩ := announces_map size
      rw [Value.encode, List.length_append, encodeFields_eq] at hfuel
      have hfields : ∀ f ∈ fields, ∀ rest,
          field (decode fuel) (encodeField f ++ rest) = some (f, rest) := by
        rintro ⟨key, v⟩ hf rest
        have hle := @length_le_flatMap _ _ encodeField (key, v) fields hf
        rw [encodeField, List.length_append] at hle
        have hkeyFits : FitsStr key := keys _ hf
        have hvalueFits : Fits v := values _ hf
        -- a key is decoded as the string it is
        have hkey : decode fuel (packStr key ++ (v.encode ++ rest)) =
            some (.str key, v.encode ++ rest) :=
          ih (.str hkeyFits) (by rw [Value.encode]; omega) _
        have hvalue : decode fuel (v.encode ++ rest) = some (v, rest) :=
          ih hvalueFits (by omega) rest
        rw [encodeField, List.append_assoc, field, hkey]
        simp [hvalue]
      rw [Value.encode, encodeFields_eq, hbytes, List.append_assoc, List.cons_append, decode, hhead]
      simp [hread, times_flatMap hfields]

/-- The round trip, whatever follows the encoding. -/
theorem unpack_encode {v : Value} (hfits : Fits v) (rest : List UInt8) :
    unpack (v.encode ++ rest) = some (v, rest) :=
  decode_encode _ hfits (by simp) rest

/-- No encoding is the beginning of another one. -/
theorem encode_append_inj {v w : Value} (hv : Fits v) (hw : Fits w) {rest rest' : List UInt8}
    (h : v.encode ++ rest = w.encode ++ rest') : v = w ∧ rest = rest' := by
  have hread := unpack_encode hv rest
  rw [h, unpack_encode hw] at hread
  simpa [eq_comm] using hread

/-! ## Which values fit -/

@[simp] theorem fits_uint {n : Nat} : Fits (.uint n) ↔ n < 256 ^ 8 :=
  ⟨fun h => by cases h; assumption, .uint⟩

@[simp] theorem fits_bool {b : Bool} : Fits (.bool b) ↔ True :=
  iff_true_intro (.bool b)

@[simp] theorem fits_str {s : String} : Fits (.str s) ↔ FitsStr s :=
  ⟨fun h => by cases h; assumption, .str⟩

@[simp] theorem fits_arr {items : List Value} :
    Fits (.arr items) ↔ items.length < 256 ^ 4 ∧ ∀ v ∈ items, Fits v :=
  ⟨fun h => by cases h; exact ⟨by assumption, by assumption⟩, fun h => .arr h.1 h.2⟩

@[simp] theorem fits_map {fields : List (String × Value)} :
    Fits (.map fields) ↔
      fields.length < 256 ^ 4 ∧ ∀ f ∈ fields, FitsStr f.1 ∧ Fits f.2 := by
  constructor
  · intro h
    cases h with
    | map size keys values => exact ⟨size, fun f hf => ⟨keys f hf, values f hf⟩⟩
  · rintro ⟨size, hfields⟩
    exact .map size (fun f hf => (hfields f hf).1) fun f hf => (hfields f hf).2

instance (s : String) : Decidable (FitsStr s) :=
  @instDecidableAnd _ _ _ (List.decidableBAll (·.toNat < 256) s.toList)

end MsgPack
