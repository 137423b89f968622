import Mathlib

/-!
# Lib.Keccak

The Keccak permutations and the sponge over them, bit by bit and without tables.

* `theta`, `rho`, `pi`, `chi`, `iota`: the maps of a round, on a state of lanes of `w` bits. The
  offsets of `rho` are read off the walk through the lanes, the round constants off the shift
  register.
* `keccakF`: the permutation.
* `padding rate n`: what is put behind a message of `n` bytes.
* `absorb`, `squeeze`, `sponge`: the sponge over byte strings, with a permutation and a rate in
  bytes.
* `absorbMessage_block`, `absorbMessage_last`: absorbing a message block by block, and its end.
-/

namespace Keccak

instance fiveNeZero : NeZero 5 := ⟨by decide⟩

/-- The bit `z` of the lane `x`, `y`. -/
abbrev State (w : Nat) := Fin 5 → Fin 5 → Fin w → Bool

section Rounds

variable {w : Nat} [NeZero w]

/-! ## The maps of a round -/

/-- The parity of a column. -/
def parity (A : State w) (x : Fin 5) (z : Fin w) : Bool :=
  A x 0 z ^^ A x 1 z ^^ A x 2 z ^^ A x 3 z ^^ A x 4 z

def theta (A : State w) : State w :=
  fun x y z => A x y z ^^ (parity A (x - 1) z ^^ parity A (x + 1) (z - 1))

/-- The walk through all lanes but the one at the origin. -/
def walk (t : Nat) : Fin 5 × Fin 5 :=
  (fun p => (p.2, 2 * p.1 + 3 * p.2))^[t] (1, 0)

/-- By how much `rho` rotates a lane: a triangular number, by when the walk gets there. -/
def offset (x y : Fin 5) : Nat :=
  ((List.range 24).find? fun t => walk t = (x, y)).elim 0 fun t => (t + 1) * (t + 2) / 2

def rho (A : State w) : State w :=
  fun x y z => A x y (z - Fin.ofNat w (offset x y))

def pi (A : State w) : State w :=
  fun x y => A (x + 3 * y) x

def chi (A : State w) : State w :=
  fun x y z => A x y z ^^ (!A (x + 1) y z && A (x + 2) y z)

/-- A step of the shift register: the powers of `x` modulo `x^8 + x^6 + x^5 + x^4 + 1`. -/
def shift (r : BitVec 8) : BitVec 8 :=
  (r <<< 1) ^^^ if r.msb then 0x71 else 0

def rc (t : Nat) : Bool := (shift^[t] 1).getLsbD 0

/-- The constant of a round has bits from the register at the places `2 ^ j - 1`. -/
def roundConstant (w round z : Nat) : Bool :=
  (List.range (Nat.log2 w + 1)).any fun j => z = 2 ^ j - 1 && rc (j + 7 * round)

def iota (round : Nat) (A : State w) : State w :=
  fun x y z => A x y z ^^ (x = 0 && y = 0 && roundConstant w round z)

def round (A : State w) (i : Nat) : State w :=
  iota i (chi (pi (rho (theta A))))

def keccakF (A : State w) : State w :=
  (List.range (12 + 2 * Nat.log2 w)).foldl round A

end Rounds

/-! ## The sponge -/

section Sponge

variable {w : Nat}

/-- The bits of a byte string, from the lowest bit of each byte on. Behind it there are zeros. -/
def bit (bytes : List UInt8) (k : Nat) : Bool :=
  (bytes.getD (k / 8) 0).toBitVec.getLsbD (k % 8)

/-- The byte with the given bits. -/
def byte (f : Nat → Bool) : UInt8 :=
  UInt8.ofBitVec ((BitVec.ofBoolListLE ((List.range 8).map f)).setWidth 8)

theorem getLsbD_byte (f : Nat → Bool) {j : Nat} (hj : j < 8) :
    (byte f).toBitVec.getLsbD j = f j := by
  rw [byte, UInt8.toBitVec_ofBitVec, BitVec.getLsbD_setWidth, BitVec.getLsbD_ofBoolListLE,
    List.getD_eq_getElem?_getD, List.getElem?_map, List.getElem?_range hj]
  simp [hj]

/-- Where a bit of the state stands in it as a string. -/
def place (x y : Fin 5) (z : Fin w) : Nat := w * (5 * y + x) + z

def xorBlock (A : State w) (block : List UInt8) : State w :=
  fun x y z => A x y z ^^ bit block (place x y z)

def stateBit [NeZero w] (A : State w) (k : Nat) : Bool :=
  A (Fin.ofNat 5 (k / w)) (Fin.ofNat 5 (k / w / 5)) (Fin.ofNat w k)

def stateByte [NeZero w] (A : State w) (i : Nat) : UInt8 :=
  byte fun j => stateBit A (8 * i + j)

/-- The byte string in pieces of `rate`; what is left over is dropped. -/
def blocks (rate : Nat) (bytes : List UInt8) : List (List UInt8) :=
  (List.range (bytes.length / rate)).map fun i => (bytes.drop (i * rate)).take rate

/-- One bit, zeros, and one bit, up to the next block. -/
def padding (rate n : Nat) : List UInt8 :=
  if rate - n % rate = 1 then [0x81]
  else 0x01 :: (List.replicate (rate - n % rate - 2) 0 ++ [0x80])

variable (f : State w → State w) (rate : Nat)

def absorb (A : State w) (bytes : List UInt8) : State w :=
  (blocks rate bytes).foldl (fun A block => f (xorBlock A block)) A

/-- A message is absorbed with its padding. -/
def absorbMessage (A : State w) (message : List UInt8) : State w :=
  absorb f rate A (message ++ padding rate message.length)

def squeeze [NeZero w] (n : Nat) (A : State w) : List UInt8 :=
  ((List.range (n / rate + 1)).flatMap fun i =>
    (List.range rate).map (stateByte (f^[i] A))).take n

/-- `n` bytes of output for a message. -/
def sponge [NeZero w] (n : Nat) (message : List UInt8) : List UInt8 :=
  squeeze f rate n (absorbMessage f rate (fun _ _ _ => false) message)

/-! ## Rules -/

variable {f rate} {A : State w} {block rest message : List UInt8}

theorem blocks_append (hrate : 0 < rate) (hblock : block.length = rate) :
    blocks rate (block ++ rest) = block :: blocks rate rest := by
  have hcount : (block ++ rest).length / rate = rest.length / rate + 1 := by
    rw [List.length_append, hblock, Nat.add_div_left _ hrate]
  have hdrop (i : Nat) : (block ++ rest).drop ((i + 1) * rate) = rest.drop (i * rate) := by
    rw [Nat.succ_mul, Nat.add_comm, ← List.drop_drop, List.drop_left' hblock]
  rw [blocks, hcount, List.range_succ_eq_map, List.map_cons, Nat.zero_mul, List.drop_zero,
    List.take_left' hblock, List.map_map]
  simp only [Function.comp_def, Nat.succ_eq_add_one, hdrop]
  rfl

theorem absorb_block (hrate : 0 < rate) (hblock : block.length = rate) :
    absorb f rate A (block ++ rest) = absorb f rate (f (xorBlock A block)) rest := by
  rw [absorb, blocks_append hrate hblock]
  rfl

theorem absorb_nil : absorb f rate A [] = A := by
  simp [absorb, blocks]

theorem padding_length (h : message.length < rate) :
    (message ++ padding rate message.length).length = rate := by
  rw [padding, Nat.mod_eq_of_lt h]
  split_ifs
  · simp
    omega
  · simp
    omega

theorem padding_add (n : Nat) : padding rate (rate + n) = padding rate n := by
  rw [padding, padding, Nat.add_mod_left]

/-- A message of a block or more: the block is absorbed first. -/
theorem absorbMessage_block (hrate : 0 < rate) (h : rate ≤ message.length) :
    absorbMessage f rate A message =
      absorbMessage f rate (f (xorBlock A (message.take rate))) (message.drop rate) := by
  have hlength : message.length = rate + (message.drop rate).length := by
    rw [List.length_drop]
    omega
  have hblock : (message.take rate).length = rate := List.length_take_of_le h
  have hsplit : message ++ padding rate message.length =
      message.take rate ++ (message.drop rate ++ padding rate (message.drop rate).length) := by
    rw [hlength, padding_add, ← List.append_assoc, List.take_append_drop]
  rw [absorbMessage, hsplit, absorb_block hrate hblock, ← absorbMessage]

/-- What is left is absorbed with the padding, as one block. -/
theorem absorbMessage_last (h : message.length < rate) :
    absorbMessage f rate A message =
      f (xorBlock A (message ++ padding rate message.length)) := by
  have hblock := @absorb_block _ f _ A _ [] (Nat.zero_lt_of_lt h) (padding_length h)
  rw [List.append_nil] at hblock
  rw [absorbMessage, hblock, absorb_nil]

/-- Output of at most a block comes from one state. -/
theorem squeeze_of_le [NeZero w] {n : Nat} (h : n ≤ rate) (A : State w) :
    squeeze f rate n A = (List.range n).map (stateByte A) := by
  have hlength : n ≤ ((List.range rate).map (stateByte A)).length := by simpa using h
  rw [squeeze, List.range_succ_eq_map, List.flatMap_cons, Function.iterate_zero, id,
    List.take_append_of_le_length hlength, ← List.map_take, List.take_range, Nat.min_eq_left h]

end Sponge

end Keccak
