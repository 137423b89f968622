import HlLighterArb.Hl.Signing
import HlLighterArb.Lib.Keccak

/-!
# HlLighterArb.Hl.Keccak

`keccak256` of crypto.cpp, on its array of 25 lanes.

* `keccakf`: the permutation in place, with the tables of the source.
* `keccak256`: the full blocks, the last block, and the first 32 bytes of the state.
* `keccak256_eq`: it is the sponge over the Keccak permutation of 1600 bits, with a rate of 136
  bytes.
-/

namespace Arb

/-! ## The permutation -/

def kRoundConstants : List UInt64 :=
  [0x0000000000000001, 0x0000000000008082, 0x800000000000808a, 0x8000000080008000,
    0x000000000000808b, 0x0000000080000001, 0x8000000080008081, 0x8000000000008009,
    0x000000000000008a, 0x0000000000000088, 0x0000000080008009, 0x000000008000000a,
    0x000000008000808b, 0x800000000000008b, 0x8000000000008089, 0x8000000000008003,
    0x8000000000008002, 0x8000000000000080, 0x000000000000800a, 0x800000008000000a,
    0x8000000080008081, 0x8000000000008080, 0x0000000080000001, 0x8000000080008008]

def kRotation : Vector (Vector Nat 5) 5 :=
  #v[#v[0, 36, 3, 41, 18],
    #v[1, 44, 10, 45, 2],
    #v[62, 6, 43, 15, 61],
    #v[28, 55, 25, 21, 56],
    #v[27, 20, 39, 8, 14]]

/-- What the machine makes of a shift by 64, which the language leaves undefined and `rotl64` does
for a rotation by zero: nothing is left, or the count is taken modulo 64. -/
inductive WideShift where
  | zero
  | masked

def shiftRight (wide : WideShift) (x : UInt64) (count : Nat) : UInt64 :=
  if count < 64 then x >>> UInt64.ofNat count
  else match wide with
    | .zero => 0
    | .masked => x >>> UInt64.ofNat (count % 64)

def rotl64 (wide : WideShift) (x : UInt64) (shift : Nat) : UInt64 :=
  (x <<< UInt64.ofNat shift) ||| shiftRight wide x (64 - shift)

/-- The index of a lane. -/
def lane (x y : Fin 5) : Fin 25 := ⟨x + 5 * y, by omega⟩

/-- The loops over `x` and `y`, in their order. -/
def lanes : List (Fin 5 × Fin 5) :=
  (List.finRange 5).flatMap fun x => (List.finRange 5).map fun y => (x, y)

/-- The loops over `c`, `d` and the state. -/
def thetaLoops (wide : WideShift) (state : Vector UInt64 25) : Vector UInt64 25 :=
  let c : Vector UInt64 5 := .ofFn fun x =>
    state[lane x 0] ^^^ state[lane x 1] ^^^ state[lane x 2] ^^^ state[lane x 3] ^^^ state[lane x 4]
  let d : Vector UInt64 5 := .ofFn fun x => c.get (x + 4) ^^^ rotl64 wide (c.get (x + 1)) 1
  lanes.foldl (fun state (x, y) => state.set (lane x y) (state[lane x y] ^^^ d[x])) state

/-- The loop that writes `b`, all entries of it. -/
def rhoPiLoop (wide : WideShift) (state : Vector UInt64 25) : Vector UInt64 25 :=
  lanes.foldl
    (fun b (x, y) => b.set (lane y (2 * x + 3 * y)) (rotl64 wide state[lane x y] kRotation[x][y]))
    (Vector.replicate 25 0)

/-- The loop that writes the state from `b`. -/
def chiLoop (b state : Vector UInt64 25) : Vector UInt64 25 :=
  lanes.foldl
    (fun state (x, y) =>
      state.set (lane x y) (b[lane x y] ^^^ (~~~b[lane (x + 1) y] &&& b[lane (x + 2) y]))) state

def keccakRound (wide : WideShift) (state : Vector UInt64 25) (rc : UInt64) : Vector UInt64 25 :=
  let state := thetaLoops wide state
  let b := rhoPiLoop wide state
  let state := chiLoop b state
  state.set 0 (state[0] ^^^ rc)

def keccakf (wide : WideShift) (state : Vector UInt64 25) : Vector UInt64 25 :=
  kRoundConstants.foldl (keccakRound wide) state

/-! ## The sponge -/

def rate : Nat := 136

/-- The lane whose bytes stand at `8 * i` and behind. -/
def laneAt (bytes : List UInt8) (i : Nat) : UInt64 :=
  (List.range 8).foldl
    (fun lane j => lane ||| (bytes.getD (i * 8 + j) 0).toUInt64 <<< UInt64.ofNat (8 * j)) 0

/-- The lanes of a block go into the first lanes of the state. -/
def absorbBlock (state : Vector UInt64 25) (block : List UInt8) : Vector UInt64 25 :=
  (List.finRange 17).foldl
    (fun state (i : Fin 17) => state.set i.val (state[i.val] ^^^ laneAt block i) (by omega)) state

/-- The loop over the full blocks of the data from `offset` on, and where it ends. -/
def absorbFull (wide : WideShift) (data : ByteBuffer) (offset : Nat) (state : Vector UInt64 25) :
    Nat × Vector UInt64 25 :=
  if offset + rate ≤ data.length then
    absorbFull wide data (offset + rate) (keccakf wide (absorbBlock state (data.drop offset)))
  else (offset, state)
termination_by data.length - offset
decreasing_by
  have : 0 < rate := by decide
  omega

/-- The last block: what is left of the data, and the padding. -/
def lastBlock (data : ByteBuffer) (offset : Nat) : List UInt8 :=
  let remaining := data.length - offset
  let block := (List.range remaining).foldl (fun block i => block.set i (data.getD (offset + i) 0))
    (List.replicate rate (0 : UInt8))
  let block := block.set remaining 0x01
  block.set (rate - 1) (block.getD (rate - 1) 0 ^^^ 0x80)

def keccak256 (wide : WideShift) (data : ByteBuffer) : ByteBuffer :=
  let (offset, state) := absorbFull wide data 0 (Vector.replicate 25 0)
  let state := keccakf wide (absorbBlock state (lastBlock data offset))
  (List.finRange 32).map fun (i : Fin 32) =>
    ((state[i.val / 8] >>> UInt64.ofNat (8 * (i % 8))) &&& 0xff).toUInt8

/-! ## Loops that write every entry once -/

section Writes

variable {α ι : Type} {n : Nat} {idx : ι → Fin n} {g : ι → α → α} {l : List ι}

/-- An entry whose index no step has stays as it is. -/
theorem getElem_foldl_set_of_ne {k : Fin n} (h : ∀ i ∈ l, idx i ≠ k) (v : Vector α n) :
    (l.foldl (fun v i => v.set (idx i) (g i v[idx i])) v)[k] = v[k] := by
  induction l generalizing v with
  | nil => rfl
  | cons i l ih =>
    obtain ⟨hi, hl⟩ := List.forall_mem_cons.mp h
    have hne : (idx i).val ≠ k.val := fun heq => hi (Fin.ext heq)
    rw [List.foldl_cons, ih hl]
    simp [hne]

/-- Each step finds the entry it writes as it was before the loop. -/
theorem getElem_foldl_set (hidx : Function.Injective idx) (hl : l.Nodup) (v : Vector α n) {i : ι}
    (hi : i ∈ l) :
    (l.foldl (fun v i => v.set (idx i) (g i v[idx i])) v)[idx i] = g i v[idx i] := by
  induction l generalizing v with
  | nil => cases hi
  | cons j l ih =>
    obtain ⟨hj, hl⟩ := List.nodup_cons.mp hl
    rw [List.foldl_cons]
    rcases List.mem_cons.mp hi with rfl | hi
    · have hlater : ∀ k ∈ l, idx k ≠ idx i := fun k hk heq => hj (hidx heq ▸ hk)
      rw [getElem_foldl_set_of_ne hlater]
      simp
    · have hne : (idx j).val ≠ (idx i).val := by
        intro heq
        exact hj (hidx (Fin.ext heq) ▸ hi)
      rw [ih hl _ hi]
      simp [hne]

end Writes

theorem mem_lanes : ∀ x y : Fin 5, (x, y) ∈ lanes := by decide

theorem lanes_nodup : lanes.Nodup := by decide

theorem lane_inj {x y x' y' : Fin 5} (h : lane x y = lane x' y') : x = x' ∧ y = y' := by
  have hval : x.val + 5 * y.val = x'.val + 5 * y'.val := congrArg Fin.val h
  exact ⟨Fin.ext (by omega), Fin.ext (by omega)⟩

/-- The loop updates every lane in place. -/
theorem getElem_lanes (g : Fin 5 → Fin 5 → UInt64 → UInt64) (v : Vector UInt64 25) (x y : Fin 5) :
    (lanes.foldl (fun v (x, y) => v.set (lane x y) (g x y v[lane x y])) v)[lane x y] =
      g x y v[lane x y] := by
  have hinjective : Function.Injective fun p : Fin 5 × Fin 5 => lane p.1 p.2 :=
    fun _ _ h => Prod.ext (lane_inj h).1 (lane_inj h).2
  have hmem := mem_lanes x y
  have hnodup := lanes_nodup
  generalize lanes = l at hmem hnodup ⊢
  exact @getElem_foldl_set _ _ _ _ (fun p => g p.1 p.2) l hinjective hnodup v (x, y) hmem

/-- The loop that rotates the lanes also moves them, each to its place. -/
theorem getElem_moved (g : Fin 5 → Fin 5 → UInt64) (v : Vector UInt64 25) (x y : Fin 5) :
    (lanes.foldl (fun v (x, y) => v.set (lane y (2 * x + 3 * y)) (g x y)) v)[lane x y] =
      g (x + 3 * y) x := by
  have hcancel : ∀ x x' y : Fin 5, 2 * x + 3 * y = 2 * x' + 3 * y → x = x' := by decide
  have hinjective : Function.Injective fun p : Fin 5 × Fin 5 => lane p.2 (2 * p.1 + 3 * p.2) := by
    rintro ⟨x, y⟩ ⟨x', y'⟩ h
    obtain ⟨rfl, h⟩ := lane_inj h
    rw [hcancel x x' y h]
  have hplace : ∀ x y : Fin 5, 2 * (x + 3 * y) + 3 * x = y := by decide
  have hmem := mem_lanes (x + 3 * y) x
  have hnodup := lanes_nodup
  generalize lanes = l at hmem hnodup ⊢
  have h := @getElem_foldl_set _ _ _ _ (fun p _ => g p.1 p.2) l hinjective hnodup v _ hmem
  simp only [hplace] at h
  exact h

/-! ## A round -/

/-- The bits of the lanes, from the lowest on. -/
def stateBits (state : Vector UInt64 25) : Keccak.State 64 :=
  fun x y z => state[lane x y].toBitVec.getLsbD z

theorem toBitVec_shiftLeft_ofNat (x : UInt64) {c : Nat} (h : c < 64) :
    (x <<< UInt64.ofNat c).toBitVec = x.toBitVec <<< c := by
  have hcount : ((UInt64.ofNat c).toBitVec % 64).toNat = c := by
    simp [Nat.mod_eq_of_lt h]
  rw [UInt64.toBitVec_shiftLeft, BitVec.shiftLeft_eq', hcount]

theorem toBitVec_shiftRight_ofNat (x : UInt64) {c : Nat} (h : c < 64) :
    (x >>> UInt64.ofNat c).toBitVec = x.toBitVec >>> c := by
  have hcount : ((UInt64.ofNat c).toBitVec % 64).toNat = c := by
    simp [Nat.mod_eq_of_lt h]
  rw [UInt64.toBitVec_shiftRight, BitVec.ushiftRight_eq', hcount]

/-- However the machine shifts by 64, a rotation by less moves every bit around. -/
theorem getLsbD_rotl64 (wide : WideShift) (x : UInt64) {shift : Nat} (h : shift < 64)
    (z : Fin 64) :
    (rotl64 wide x shift).toBitVec.getLsbD z =
      x.toBitVec.getLsbD (z - Fin.ofNat 64 shift : Fin 64) := by
  have hz : (z - Fin.ofNat 64 shift : Fin 64).val = (64 - shift + z) % 64 := by
    rw [Fin.sub_def, Fin.val_ofNat, Nat.mod_eq_of_lt h]
  rw [hz, rotl64, UInt64.toBitVec_or, BitVec.getLsbD_or, toBitVec_shiftLeft_ofNat x h,
    BitVec.getLsbD_shiftLeft]
  simp only [z.isLt, decide_true, Bool.true_and]
  rcases Nat.eq_zero_or_pos shift with rfl | hpos
  · have hwhole : (64 - 0 + z.val) % 64 = z := by omega
    cases wide <;> simp [shiftRight, hwhole]
  · have hcount : 64 - shift < 64 := by omega
    rw [shiftRight.eq_def, if_pos hcount, toBitVec_shiftRight_ofNat x hcount,
      BitVec.getLsbD_ushiftRight]
    by_cases hlow : z.val < shift
    · have hindex : (64 - shift + z.val) % 64 = 64 - shift + z.val := by omega
      simp [hlow, hindex]
    · have hindex : (64 - shift + z.val) % 64 = z.val - shift := by omega
      have hover : 64 ≤ 64 - shift + z.val := by omega
      simp [hlow, hindex, BitVec.getLsbD_of_ge _ _ hover]
theorem kRotation_offset : ∀ x y : Fin 5, kRotation[x][y] < 64 ∧
    Fin.ofNat 64 kRotation[x][y] = Fin.ofNat 64 (Keccak.offset x y) := by
  decide +kernel

theorem kRoundConstants_bit : ∀ i < 24, ∀ z < 64,
    (kRoundConstants.getD i 0).toBitVec.getLsbD z = Keccak.roundConstant 64 i z := by
  decide +kernel

theorem stateBits_thetaLoops (wide : WideShift) (state : Vector UInt64 25) :
    stateBits (thetaLoops wide state) = Keccak.theta (stateBits state) := by
  funext x y z
  have hbefore : ∀ x : Fin 5, x + 4 = x - 1 := by decide
  have hrotate (x : UInt64) : (rotl64 wide x 1).toBitVec.getLsbD z =
      x.toBitVec.getLsbD (z - 1 : Fin 64) := getLsbD_rotl64 wide x (by decide) z
  have hlanes (d : Vector UInt64 5) :
      (lanes.foldl (fun state (x, y) =>
        state.set (lane x y) (state[lane x y] ^^^ d[x])) state)[lane x y] =
      state[lane x y] ^^^ d[x] :=
    getElem_lanes (fun x _ lane => lane ^^^ d[x]) state x y
  have hget (v : Vector UInt64 5) (i : Fin 5) : v.get i = v[i] := rfl
  rw [stateBits, thetaLoops, hlanes]
  simp only [Keccak.theta, Keccak.parity, stateBits, hget, Fin.getElem_fin, Vector.getElem_ofFn,
    Fin.eta, UInt64.toBitVec_xor, BitVec.getLsbD_xor, hrotate, hbefore]

theorem stateBits_rhoPiLoop (wide : WideShift) (state : Vector UInt64 25) :
    stateBits (rhoPiLoop wide state) = Keccak.pi (Keccak.rho (stateBits state)) := by
  funext x y z
  obtain ⟨hlt, hoffset⟩ := kRotation_offset (x + 3 * y) x
  rw [stateBits, rhoPiLoop, getElem_moved fun x y => rotl64 wide state[lane x y] kRotation[x][y],
    getLsbD_rotl64 wide _ hlt, hoffset]
  rfl

theorem stateBits_chiLoop (b state : Vector UInt64 25) :
    stateBits (chiLoop b state) = Keccak.chi (stateBits b) := by
  funext x y z
  rw [stateBits, chiLoop, getElem_lanes fun x y _ =>
    b[lane x y] ^^^ (~~~b[lane (x + 1) y] &&& b[lane (x + 2) y])]
  simp [Keccak.chi, stateBits]

theorem stateBits_round (wide : WideShift) (state : Vector UInt64 25) {i : Nat} (h : i < 24) :
    stateBits (keccakRound wide state (kRoundConstants.getD i 0)) =
      Keccak.round (stateBits state) i := by
  rw [Keccak.round, ← stateBits_thetaLoops wide, ← stateBits_rhoPiLoop wide,
    ← stateBits_chiLoop _ (thetaLoops wide state)]
  funext x y z
  simp only [keccakRound, Keccak.iota, ← kRoundConstants_bit i h z z.isLt]
  by_cases horigin : x = 0 ∧ y = 0
  · obtain ⟨rfl, rfl⟩ := horigin
    simp [stateBits, lane]
  · have hlane : (lane x y).val ≠ 0 := by
      intro hzero
      exact horigin (@lane_inj x y 0 0 (Fin.ext hzero))
    have hfalse : (decide (x = 0) && decide (y = 0)) = false := by
      rw [← Bool.decide_and, decide_eq_false_iff_not]
      exact horigin
    simp [stateBits, hlane.symm, hfalse]

/-- The permutation of the source is the one of 1600 bits. -/
theorem stateBits_keccakf (wide : WideShift) (state : Vector UInt64 25) :
    stateBits (keccakf wide state) = Keccak.keccakF (stateBits state) := by
  have hrounds : ∀ l : List Nat, (∀ i ∈ l, i < 24) → ∀ state : Vector UInt64 25,
      stateBits ((l.map fun i => kRoundConstants.getD i 0).foldl (keccakRound wide) state) =
        l.foldl Keccak.round (stateBits state) := by
    intro l
    induction l with
    | nil => exact fun _ _ => rfl
    | cons i l ih =>
      intro hl state
      obtain ⟨hi, hl⟩ := List.forall_mem_cons.mp hl
      rw [List.map_cons, List.foldl_cons, List.foldl_cons, ih hl, stateBits_round wide state hi]
  have hconstants : kRoundConstants = (List.range 24).map fun i => kRoundConstants.getD i 0 := by
    decide
  have hcount : 12 + 2 * Nat.log2 64 = 24 := by decide
  rw [keccakf, hconstants, hrounds _ (fun i hi => List.mem_range.mp hi), Keccak.keccakF, hcount]

/-! ## A block -/

/-- The bytes of a lane take eight bits each. -/
theorem getLsbD_laneAt (bytes : List UInt8) (i : Nat) {z : Nat} (hz : z < 64) :
    (laneAt bytes i).toBitVec.getLsbD z =
      (bytes.getD (i * 8 + z / 8) 0).toBitVec.getLsbD (z % 8) := by
  have hread : ∀ n ≤ 8, ((List.range n).foldl (fun lane j =>
      lane ||| (bytes.getD (i * 8 + j) 0).toUInt64 <<< UInt64.ofNat (8 * j)) 0).toBitVec.getLsbD z =
        (decide (z < 8 * n) && (bytes.getD (i * 8 + z / 8) 0).toBitVec.getLsbD (z % 8)) := by
    intro n hn
    induction n with
    | zero => simp
    | succ n ih =>
      have hshift : 8 * n < 64 := by omega
      rw [List.range_succ, List.foldl_append, List.foldl_cons, List.foldl_nil, UInt64.toBitVec_or,
        BitVec.getLsbD_or, ih (by omega), toBitVec_shiftLeft_ofNat _ hshift,
        BitVec.getLsbD_shiftLeft, UInt8.toBitVec_toUInt64, BitVec.getLsbD_setWidth]
      by_cases hbefore : z < 8 * n
      · have hwithin : z < 8 * (n + 1) := by omega
        simp [hbefore, hwithin]
      · by_cases hhere : z < 8 * (n + 1)
        · have hbyte : z / 8 = n := by omega
          have hbit : z % 8 = z - 8 * n := by omega
          simp [hbefore, hhere, hz, hbyte, hbit, show z - 8 * n < 64 by omega]
        · have hover : 8 ≤ z - 8 * n := by omega
          simp [hbefore, hhere, BitVec.getLsbD_of_ge _ _ hover]
  rw [laneAt, hread 8 le_rfl, decide_eq_true hz, Bool.true_and]

theorem getElem_absorbBlock (state : Vector UInt64 25) (bytes : List UInt8) (k : Fin 25) :
    (absorbBlock state bytes)[k] =
      if k.val < 17 then state[k] ^^^ laneAt bytes k else state[k] := by
  let idx : Fin 17 → Fin 25 := fun i => ⟨i, by omega⟩
  let g : Fin 17 → UInt64 → UInt64 := fun i lane => lane ^^^ laneAt bytes i
  have hinjective : Function.Injective idx := by
    intro i j h
    have hval : (idx i).val = (idx j).val := congrArg Fin.val h
    exact Fin.ext hval
  split_ifs with hk
  · exact @getElem_foldl_set _ _ _ idx g _ hinjective (List.nodup_finRange 17) state ⟨k, hk⟩
      (List.mem_finRange _)
  · have hother : ∀ i ∈ List.finRange 17, idx i ≠ k := fun i _ heq => hk (heq ▸ i.isLt)
    exact @getElem_foldl_set_of_ne _ _ _ idx g _ k hother state

/-- The first 17 lanes take the block, bit by bit. -/
theorem stateBits_absorbBlock (state : Vector UInt64 25) (bytes : List UInt8) :
    stateBits (absorbBlock state bytes) = Keccak.xorBlock (stateBits state) (bytes.take rate) := by
  funext x y z
  have hbyte : Keccak.place x y z / 8 = (lane x y).val * 8 + z / 8 := by
    simp only [Keccak.place, lane]
    omega
  have hbit : Keccak.place x y z % 8 = z % 8 := by
    simp only [Keccak.place]
    omega
  have htake : (bytes.take rate).getD ((lane x y).val * 8 + z / 8) 0 =
      if (lane x y).val < 17 then bytes.getD ((lane x y).val * 8 + z / 8) 0 else 0 := by
    have hrate : (lane x y).val * 8 + z / 8 < rate ↔ (lane x y).val < 17 := by
      have : rate = 136 := rfl
      omega
    simp only [List.getD_eq_getElem?_getD, List.getElem?_take, hrate]
    split_ifs <;> rfl
  simp only [Keccak.xorBlock, Keccak.bit, hbyte, hbit, htake, stateBits, getElem_absorbBlock]
  split_ifs
  · rw [UInt64.toBitVec_xor, BitVec.getLsbD_xor, getLsbD_laneAt bytes _ z.isLt]
  · simp

/-! ## The data -/

/-- The loop over the full blocks leaves less than a block, with the blocks absorbed. -/
theorem absorbFull_spec (wide : WideShift) (data : ByteBuffer) (offset : Nat)
    (state : Vector UInt64 25) (hoffset : offset ≤ data.length) :
    (absorbFull wide data offset state).1 ≤ data.length ∧
      data.length < (absorbFull wide data offset state).1 + rate ∧
      Keccak.absorbMessage Keccak.keccakF rate (stateBits state) (data.drop offset) =
        Keccak.absorbMessage Keccak.keccakF rate
          (stateBits (absorbFull wide data offset state).2)
          (data.drop (absorbFull wide data offset state).1) := by
  fun_induction absorbFull wide data offset state with
  | case1 offset state hfull ih =>
    obtain ⟨hle, hlt, habsorb⟩ := ih hfull
    refine ⟨hle, hlt, ?_⟩
    have hlength : rate ≤ (data.drop offset).length := by
      rw [List.length_drop]
      omega
    rw [← habsorb, Keccak.absorbMessage_block (by decide) hlength, stateBits_keccakf,
      stateBits_absorbBlock, List.drop_drop]
  | case2 offset state hrest => exact ⟨hoffset, by omega, rfl⟩

/-- The copy loop puts what is left of the data in front of the zeros. -/
theorem copied (data : ByteBuffer) (offset : Nat) {n : Nat} (hn : n ≤ rate)
    (hrest : n ≤ (data.drop offset).length) :
    (List.range n).foldl (fun block i => block.set i (data.getD (offset + i) 0))
        (List.replicate rate 0) =
      (data.drop offset).take n ++ List.replicate (rate - n) 0 := by
  induction n with
  | zero => simp
  | succ n ih =>
    have hlength : ((data.drop offset).take n).length = n := List.length_take_of_le (by omega)
    have hzeros : rate - n = rate - (n + 1) + 1 := by omega
    have hindex : offset + n < data.length := by
      rw [List.length_drop] at hrest
      omega
    have hnext : data.getD (offset + n) 0 = (data.drop offset)[n] := by
      rw [List.getElem_drop, List.getD_eq_getElem?_getD, List.getElem?_eq_getElem hindex,
        Option.getD_some]
    rw [List.range_succ, List.foldl_append, ih (by omega) (by omega), List.foldl_cons,
      List.foldl_nil, List.set_append_right _ _ hlength.le, hlength, Nat.sub_self, hzeros,
      List.replicate_succ, List.set_cons_zero, hnext, List.take_succ_eq_append_getElem (by omega),
      List.append_assoc, List.singleton_append]

/-- The last byte of a block takes the end of the padding. -/
theorem set_last (l : List UInt8) (b m : UInt8) (h : (l ++ [b]).length = rate) :
    (l ++ [b]).set (rate - 1) ((l ++ [b]).getD (rate - 1) 0 ^^^ m) = l ++ [b ^^^ m] := by
  have hlast : rate - 1 = l.length := by
    rw [← h]
    simp
  rw [hlast, List.set_append_right _ _ le_rfl]
  simp

/-- The last block of the source is what is left of the data, with the padding. -/
theorem lastBlock_eq {data : ByteBuffer} {offset : Nat} (hle : offset ≤ data.length)
    (hlt : data.length < offset + rate) :
    lastBlock data offset =
      data.drop offset ++ Keccak.padding rate (data.drop offset).length := by
  have hlength : (data.drop offset).length = data.length - offset := List.length_drop
  have hcopied := copied data offset (n := data.length - offset) (by omega) hlength.ge
  rw [← hlength, List.take_length] at hcopied
  simp only [lastBlock, ← hlength]
  generalize data.drop offset = left at hcopied hlength
  have hleft : left.length < rate := by omega
  rw [hcopied, List.set_append_right _ _ le_rfl, Nat.sub_self, Keccak.padding,
    Nat.mod_eq_of_lt hleft]
  by_cases hone : rate - left.length = 1
  · rw [if_pos hone, hone]
    exact set_last left 1 0x80 (by simp; omega)
  · obtain ⟨zeros, hzeros⟩ : ∃ zeros, rate - left.length = zeros + 2 :=
      ⟨rate - left.length - 2, by omega⟩
    have hblock : left ++ (List.replicate (zeros + 2) (0 : UInt8)).set 0 1 =
        left ++ 1 :: List.replicate zeros 0 ++ [0] := by
      rw [List.replicate_succ, List.set_cons_zero, List.replicate_succ']
      simp
    rw [if_neg hone, hzeros, hblock, set_last _ _ _ (by simp; omega)]
    simp

/-! ## The digest -/

/-- The bytes of the digest are the first bytes of the state. -/
theorem digest_byte (state : Vector UInt64 25) (i : Fin 32) :
    ((state[i.val / 8] >>> UInt64.ofNat (8 * (i % 8))) &&& 0xff).toUInt8 =
      Keccak.stateByte (stateBits state) i := by
  have hshift : 8 * (i.val % 8) < 64 := by omega
  have hmask : ∀ j < 8, (0xff : UInt64).toBitVec.getLsbD j = true := by decide
  refine UInt8.toBitVec_inj.mp (BitVec.eq_of_getLsbD_eq fun j hj => ?_)
  have hplace : Keccak.stateBit (stateBits state) (8 * i + j) =
      state[i.val / 8].toBitVec.getLsbD (8 * (i.val % 8) + j) := by
    have hz : (8 * i.val + j) % 64 = 8 * (i.val % 8) + j := by omega
    have hlane : lane (Fin.ofNat 5 ((8 * i.val + j) / 64))
        (Fin.ofNat 5 ((8 * i.val + j) / 64 / 5)) = ⟨i.val / 8, by omega⟩ := by
      refine Fin.ext ?_
      simp only [lane, Fin.val_ofNat]
      omega
    simp only [Keccak.stateBit, stateBits, hlane, Fin.val_ofNat, hz]
    rfl
  rw [Keccak.stateByte, Keccak.getLsbD_byte _ hj, hplace, UInt64.toBitVec_toUInt8,
    BitVec.getLsbD_setWidth, UInt64.toBitVec_and, BitVec.getLsbD_and, hmask j hj,
    toBitVec_shiftRight_ofNat _ hshift, BitVec.getLsbD_ushiftRight, decide_eq_true hj,
    Bool.true_and, Bool.and_true]

/-- `keccak256` is the sponge over the Keccak permutation of 1600 bits, with a rate of 1088 bits
and 32 bytes of output. -/
theorem keccak256_eq (wide : WideShift) (data : ByteBuffer) :
    keccak256 wide data = Keccak.sponge (@Keccak.keccakF 64 _) 136 32 data := by
  have hzero : stateBits (Vector.replicate 25 0) = fun _ _ _ => false := by
    funext x y z
    simp [stateBits]
  obtain ⟨hle, hlt, habsorb⟩ :=
    absorbFull_spec wide data 0 (Vector.replicate 25 0) (Nat.zero_le _)
  have hlast : (data.drop (absorbFull wide data 0 (Vector.replicate 25 0)).1).length < rate := by
    rw [List.length_drop]
    omega
  have hblock : (lastBlock data (absorbFull wide data 0 (Vector.replicate 25 0)).1).take rate =
      lastBlock data (absorbFull wide data 0 (Vector.replicate 25 0)).1 := by
    rw [lastBlock_eq hle hlt, List.take_of_length_le (Keccak.padding_length hlast).le]
  rw [hzero, List.drop_zero, Keccak.absorbMessage_last hlast, ← lastBlock_eq hle hlt] at habsorb
  have hdigest := @Keccak.squeeze_of_le 64 Keccak.keccakF rate _ 32 (by decide)
  rw [Keccak.sponge, show 136 = rate from rfl, habsorb, hdigest, keccak256]
  simp only [digest_byte, stateBits_keccakf, stateBits_absorbBlock, hblock]
  rfl

end Arb
