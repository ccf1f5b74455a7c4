-- SUMMARY: Registers of 128 bits as bytes and lanes, and the SSE and carry-less instructions on them.
import Mathlib.Data.List.GetD
import TriHaRd.Base.CarryLess

/-!
# Vector registers

A register, `__m128i`, is a vector of 128 bits. Its byte 0 is the lowest one, and the first one
in memory. The intrinsics keep their names, `_mm_slli_epi32` being `mmSlliEpi32`.
-/

namespace Simd

/-- The vector with the given bits. -/
def ofBits : (w : ℕ) → (ℕ → Bool) → BitVec w
  | 0, _ => BitVec.nil
  | w + 1, f => BitVec.cons (f w) (ofBits w f)

def byte (a : BitVec 128) (i : ℕ) : UInt8 := ⟨a.extractLsb' (8 * i) 8⟩

def ofBytes (f : ℕ → UInt8) : BitVec 128 :=
  ofBits 128 fun i => (f (i / 8)).toBitVec.getLsbD (i % 8)

/-- A lane of 32 bits. -/
def lane (a : BitVec 128) (i : ℕ) : BitVec 32 := a.extractLsb' (32 * i) 32

def ofLanes (f : ℕ → BitVec 32) : BitVec 128 :=
  ofBits 128 fun i => (f (i / 32)).getLsbD (i % 32)

/-- The upper or the lower 64 bits. -/
def half (a : BitVec 128) (upper : Bool) : BitVec 64 := a.extractLsb' (if upper then 64 else 0) 64

-- ---------------------------------------------------------------------------
-- Intrinsics
-- ---------------------------------------------------------------------------

/-- `_mm_loadu_si128`, and `_mm_load_si128`. Bytes after the end are zeros. -/
def mmLoaduSi128 (bs : List UInt8) : BitVec 128 := ofBytes fun i => bs.getD i 0

/-- `_mm_storeu_si128` -/
def mmStoreuSi128 (a : BitVec 128) : List UInt8 := (List.range 16).map (byte a)

/-- `_mm_set_epi8`, the highest byte first. -/
def mmSetEpi8 (bs : List UInt8) : BitVec 128 := mmLoaduSi128 bs.reverse

def mmSlliSi128 (a : BitVec 128) (n : ℕ) : BitVec 128 := a <<< (8 * n)

def mmSrliSi128 (a : BitVec 128) (n : ℕ) : BitVec 128 := a >>> (8 * n)

def mmSlliEpi32 (a : BitVec 128) (n : ℕ) : BitVec 128 := ofLanes fun i => lane a i <<< n

def mmSrliEpi32 (a : BitVec 128) (n : ℕ) : BitVec 128 := ofLanes fun i => lane a i >>> n

def mmShuffleEpi8 (a mask : BitVec 128) : BitVec 128 :=
  ofBytes fun i =>
    if (byte mask i).toNat < 128 then byte a ((byte mask i).toNat % 16) else 0

/-- The lane that two bits of the immediate choose. -/
def chosen (imm i : ℕ) : ℕ := imm / 4 ^ i % 4

def mmShuffleEpi32 (a : BitVec 128) (imm : ℕ) : BitVec 128 := ofLanes fun i => lane a (chosen imm i)

def mmShufflePs (a b : BitVec 128) (imm : ℕ) : BitVec 128 :=
  ofLanes fun i => if i < 2 then lane a (chosen imm i) else lane b (chosen imm i)

def mmClmulepi64Si128 (a b : BitVec 128) (imm : ℕ) : BitVec 128 :=
  CarryLess.clmul (half a (imm.testBit 0)) (half b (imm.testBit 4))

-- ---------------------------------------------------------------------------
-- Bits
-- ---------------------------------------------------------------------------

section Bits

variable {a b : BitVec 128} {i j n : ℕ}

theorem getLsbD_ofBits (w : ℕ) (f : ℕ → Bool) (j : ℕ) :
    (ofBits w f).getLsbD j = (decide (j < w) && f j) := by
  induction w with
  | zero => simp [ofBits]
  | succ w ih =>
      rw [ofBits, BitVec.getLsbD_cons, ih]
      split
      · simp_all
      · rw [show decide (j < w) = decide (j < w + 1) by rw [decide_eq_decide]; omega]

theorem getLsbD_byte :
    (byte a i).toBitVec.getLsbD j = (decide (j < 8) && a.getLsbD (8 * i + j)) :=
  BitVec.getLsbD_extractLsb' (8 * i) 8 a j

theorem getLsbD_ofBytes (f : ℕ → UInt8) :
    (ofBytes f).getLsbD j = (decide (j < 128) && (f (j / 8)).toBitVec.getLsbD (j % 8)) :=
  getLsbD_ofBits 128 _ j

theorem getLsbD_lane : (lane a i).getLsbD j = (decide (j < 32) && a.getLsbD (32 * i + j)) :=
  BitVec.getLsbD_extractLsb' (32 * i) 32 a j

theorem getLsbD_ofLanes (f : ℕ → BitVec 32) :
    (ofLanes f).getLsbD j = (decide (j < 128) && (f (j / 32)).getLsbD (j % 32)) :=
  getLsbD_ofBits 128 _ j

theorem getLsbD_mmSlliEpi32 : (mmSlliEpi32 a n).getLsbD j =
    (decide (j < 128) && decide (n ≤ j % 32) && a.getLsbD (j - n)) := by
  rw [mmSlliEpi32, getLsbD_ofLanes, BitVec.getLsbD_shiftLeft, getLsbD_lane]
  by_cases hn : n ≤ j % 32
  · rw [show 32 * (j / 32) + (j % 32 - n) = j - n by omega]
    simp [hn, show ¬ j % 32 < n by omega, show j % 32 < 32 by omega, show j % 32 - n < 32 by omega]
  · simp [hn, show j % 32 < n by omega]

theorem getLsbD_mmSrliEpi32 : (mmSrliEpi32 a n).getLsbD j =
    (decide (j < 128) && decide (n + j % 32 < 32) && a.getLsbD (n + j)) := by
  rw [mmSrliEpi32, getLsbD_ofLanes, BitVec.getLsbD_ushiftRight, getLsbD_lane,
    show 32 * (j / 32) + (n + j % 32) = n + j by omega, Bool.and_assoc]

end Bits

-- ---------------------------------------------------------------------------
-- Shifts of the whole register from shifts of its lanes
-- ---------------------------------------------------------------------------

section Shifts

variable (a : BitVec 128)

theorem slli_or_carry :
    mmSlliEpi32 a 1 ||| mmSlliSi128 (mmSrliEpi32 a 31) 4 = a <<< 1 := by
  refine BitVec.eq_of_getLsbD_eq fun j hj => ?_
  rw [BitVec.getLsbD_or, mmSlliSi128, BitVec.getLsbD_shiftLeft, BitVec.getLsbD_shiftLeft,
    getLsbD_mmSlliEpi32, getLsbD_mmSrliEpi32]
  have hback : 32 ≤ j → 31 + (j - 32) = j - 1 := by omega
  grind

theorem srli_carry_out : mmSrliSi128 (mmSrliEpi32 a 31) 12 = a >>> 127 := by
  refine BitVec.eq_of_getLsbD_eq fun j hj => ?_
  rw [mmSrliSi128, BitVec.getLsbD_ushiftRight, BitVec.getLsbD_ushiftRight, getLsbD_mmSrliEpi32]
  grind

/-- The lowest lane in the place of the highest. -/
theorem slli_to_top (n : ℕ) : mmSlliSi128 (mmSlliEpi32 a n) 12 = a <<< (96 + n) := by
  refine BitVec.eq_of_getLsbD_eq fun j hj => ?_
  rw [mmSlliSi128, BitVec.getLsbD_shiftLeft, BitVec.getLsbD_shiftLeft, getLsbD_mmSlliEpi32]
  grind

theorem srli_xor_carry {n : ℕ} (hn : n < 32) :
    mmSrliEpi32 a n ^^^ mmSrliSi128 (mmSlliEpi32 a (32 - n)) 4 = a >>> n := by
  refine BitVec.eq_of_getLsbD_eq fun j hj => ?_
  rw [BitVec.getLsbD_xor, mmSrliSi128, BitVec.getLsbD_ushiftRight, BitVec.getLsbD_ushiftRight,
    getLsbD_mmSrliEpi32, getLsbD_mmSlliEpi32]
  grind

/-- The bits that were moved to the top of a lane are shifted out of it. -/
theorem slli_shiftLeft_top {m n : ℕ} (h : 32 ≤ m + n) : mmSlliEpi32 (a <<< (96 + m)) n = 0#128 := by
  refine BitVec.eq_of_getLsbD_eq fun j hj => ?_
  rw [getLsbD_mmSlliEpi32, BitVec.getLsbD_shiftLeft]
  grind

theorem mmSlliEpi32_xor (a b : BitVec 128) (n : ℕ) :
    mmSlliEpi32 (a ^^^ b) n = mmSlliEpi32 a n ^^^ mmSlliEpi32 b n := by
  refine BitVec.eq_of_getLsbD_eq fun j hj => ?_
  rw [BitVec.getLsbD_xor, getLsbD_mmSlliEpi32, getLsbD_mmSlliEpi32, getLsbD_mmSlliEpi32,
    BitVec.getLsbD_xor]
  grind

theorem mmSlliSi128_xor (a b : BitVec 128) (n : ℕ) :
    mmSlliSi128 (a ^^^ b) n = mmSlliSi128 a n ^^^ mmSlliSi128 b n :=
  BitVec.shiftLeft_xor_distrib a b (8 * n)

theorem mmSrliSi128_xor (a b : BitVec 128) (n : ℕ) :
    mmSrliSi128 (a ^^^ b) n = mmSrliSi128 a n ^^^ mmSrliSi128 b n :=
  BitVec.ushiftRight_xor_distrib a b (8 * n)

end Shifts

-- ---------------------------------------------------------------------------
-- Bytes
-- ---------------------------------------------------------------------------

section Bytes

variable {a b : BitVec 128} {i j : ℕ}

theorem eq_of_byte_eq (h : ∀ i < 16, byte a i = byte b i) : a = b := by
  refine BitVec.eq_of_getLsbD_eq fun j hj => ?_
  have hbit := congrArg (fun c : UInt8 => c.toBitVec.getLsbD (j % 8)) (h (j / 8) (by omega))
  simp only [getLsbD_byte, Nat.div_add_mod, show j % 8 < 8 by omega, decide_true,
    Bool.true_and] at hbit
  exact hbit

@[simp] theorem byte_ofBytes (f : ℕ → UInt8) (hi : i < 16) : byte (ofBytes f) i = f i := by
  refine UInt8.toBitVec_inj.mp (BitVec.eq_of_getLsbD_eq fun j hj => ?_)
  rw [getLsbD_byte, getLsbD_ofBytes, show (8 * i + j) / 8 = i by omega,
    show (8 * i + j) % 8 = j by omega]
  simp [hj, show 8 * i + j < 128 by omega]

@[simp] theorem byte_xor (a b : BitVec 128) (i : ℕ) : byte (a ^^^ b) i = byte a i ^^^ byte b i := by
  refine UInt8.toBitVec_inj.mp (BitVec.eq_of_getLsbD_eq fun j hj => ?_)
  rw [UInt8.toBitVec_xor, BitVec.getLsbD_xor, getLsbD_byte, getLsbD_byte, getLsbD_byte,
    BitVec.getLsbD_xor]
  simp [hj]

@[simp] theorem byte_zero (i : ℕ) : byte 0 i = 0 := by
  refine UInt8.toBitVec_inj.mp (BitVec.eq_of_getLsbD_eq fun j hj => ?_)
  rw [getLsbD_byte]
  simp

theorem byte_mmLoaduSi128 (bs : List UInt8) (hi : i < 16) :
    byte (mmLoaduSi128 bs) i = bs.getD i 0 := byte_ofBytes _ hi

@[simp] theorem length_mmStoreuSi128 (a : BitVec 128) : (mmStoreuSi128 a).length = 16 := by
  simp [mmStoreuSi128]

theorem getD_mmStoreuSi128 (a : BitVec 128) (hi : i < 16) :
    (mmStoreuSi128 a).getD i 0 = byte a i := by
  simp [mmStoreuSi128, hi]

@[simp] theorem mmLoaduSi128_mmStoreuSi128 (a : BitVec 128) : mmLoaduSi128 (mmStoreuSi128 a) = a :=
  eq_of_byte_eq fun i hi => by rw [byte_mmLoaduSi128 _ hi, getD_mmStoreuSi128 a hi]

/-- Registers stored one after the other. -/
theorem getD_flatMap_mmStoreuSi128 (as : List (BitVec 128)) {j : ℕ} (h : j < 16 * as.length) :
    (as.flatMap mmStoreuSi128).getD j 0 = byte (as.getD (j / 16) 0) (j % 16) := by
  induction as generalizing j with
  | nil => simp at h
  | cons a as ih =>
      rw [List.flatMap_cons]
      obtain hlt | hge := Nat.lt_or_ge j 16
      · rw [List.getD_append _ _ _ _ (by simpa using hlt), getD_mmStoreuSi128 a hlt,
          Nat.div_eq_of_lt hlt, Nat.mod_eq_of_lt hlt, List.getD_cons_zero]
      · rw [List.getD_append_right _ _ _ _ (by simpa using hge), length_mmStoreuSi128,
          ih (by rw [List.length_cons] at h; omega), show j / 16 = (j - 16) / 16 + 1 by omega,
          List.getD_cons_succ, show j % 16 = (j - 16) % 16 by omega]

@[simp] theorem length_flatMap_mmStoreuSi128 (as : List (BitVec 128)) :
    (as.flatMap mmStoreuSi128).length = 16 * as.length := by
  induction as with
  | nil => rfl
  | cons a as ih =>
      rw [List.flatMap_cons, List.length_append, ih, length_mmStoreuSi128, List.length_cons]
      omega

/-- The bytes of a register in the reverse order. -/
def reverse (a : BitVec 128) : BitVec 128 := ofBytes fun i => byte a (15 - i)

@[simp] theorem byte_reverse (a : BitVec 128) (hi : i < 16) :
    byte (reverse a) i = byte a (15 - i) :=
  byte_ofBytes _ hi

@[simp] theorem reverse_reverse (a : BitVec 128) : reverse (reverse a) = a :=
  eq_of_byte_eq fun i hi => by
    rw [byte_reverse _ hi, byte_reverse _ (by omega), show 15 - (15 - i) = i by omega]

theorem reverse_xor (a b : BitVec 128) : reverse (a ^^^ b) = reverse a ^^^ reverse b :=
  eq_of_byte_eq fun i hi => by
    rw [byte_xor, byte_reverse _ hi, byte_reverse _ hi, byte_reverse _ hi, byte_xor]

/-- A mask without a byte from 128 on permutes bytes. -/
theorem mmShuffleEpi8_mmSetEpi8 (a : BitVec 128) (bs : List UInt8)
    (h : ∀ i < 16, (bs.reverse.getD i 0).toNat < 16) :
    mmShuffleEpi8 a (mmSetEpi8 bs) = ofBytes fun i => byte a (bs.reverse.getD i 0).toNat := by
  refine eq_of_byte_eq fun i hi => ?_
  have hmask := h i hi
  rw [mmShuffleEpi8, byte_ofBytes _ hi, byte_ofBytes _ hi, mmSetEpi8, byte_mmLoaduSi128 _ hi,
    if_pos (by omega), Nat.mod_eq_of_lt hmask]

end Bytes

-- ---------------------------------------------------------------------------
-- Lanes and halves
-- ---------------------------------------------------------------------------

section Lanes

variable {a b : BitVec 128} {i : ℕ}

theorem eq_of_lane_eq (h : ∀ i < 4, lane a i = lane b i) : a = b := by
  refine BitVec.eq_of_getLsbD_eq fun j hj => ?_
  have hbit := congrArg (fun l : BitVec 32 => l.getLsbD (j % 32)) (h (j / 32) (by omega))
  simp only [getLsbD_lane, Nat.div_add_mod, show j % 32 < 32 by omega, decide_true,
    Bool.true_and] at hbit
  exact hbit

@[simp] theorem lane_ofLanes (f : ℕ → BitVec 32) (hi : i < 4) : lane (ofLanes f) i = f i := by
  refine BitVec.eq_of_getLsbD_eq fun j hj => ?_
  rw [getLsbD_lane, getLsbD_ofLanes, show (32 * i + j) / 32 = i by omega,
    show (32 * i + j) % 32 = j by omega]
  simp [hj, show 32 * i + j < 128 by omega]

@[simp] theorem lane_xor (a b : BitVec 128) (i : ℕ) : lane (a ^^^ b) i = lane a i ^^^ lane b i := by
  refine BitVec.eq_of_getLsbD_eq fun j hj => ?_
  rw [BitVec.getLsbD_xor, getLsbD_lane, getLsbD_lane, getLsbD_lane, BitVec.getLsbD_xor]
  simp [hj]

@[simp] theorem lane_zero (i : ℕ) : lane 0 i = 0 := by
  refine BitVec.eq_of_getLsbD_eq fun j hj => ?_
  rw [getLsbD_lane]
  simp

theorem half_xor (a b : BitVec 128) (upper : Bool) :
    half (a ^^^ b) upper = half a upper ^^^ half b upper := by
  refine BitVec.eq_of_getLsbD_eq fun j hj => ?_
  rw [BitVec.getLsbD_xor, half, half, half, BitVec.getLsbD_extractLsb', BitVec.getLsbD_extractLsb',
    BitVec.getLsbD_extractLsb', BitVec.getLsbD_xor]
  simp [hj]

theorem value_half {R : Type*} [CommRing R] (x : R) (a : BitVec 128) : CarryLess.value x a =
    CarryLess.value x (half a true) + x ^ 64 * CarryLess.value x (half a false) :=
  CarryLess.value_halves a

/-- The shuffle that exchanges the halves. -/
theorem half_swap (a : BitVec 128) : half (mmShuffleEpi32 a 0x4e) false = half a true := by
  refine BitVec.eq_of_getLsbD_eq fun j hj => ?_
  have hlane : chosen 0x4e (j / 32) = j / 32 + 2 := by
    obtain h | h : j / 32 = 0 ∨ j / 32 = 1 := by omega
    all_goals rw [h]; rfl
  rw [half, half, BitVec.getLsbD_extractLsb', BitVec.getLsbD_extractLsb', mmShuffleEpi32,
    getLsbD_ofLanes, if_neg Bool.false_ne_true, if_pos rfl, Nat.zero_add, hlane, getLsbD_lane,
    show 32 * (j / 32 + 2) + j % 32 = 64 + j by omega]
  simp [hj, show j < 128 by omega, show j % 32 < 32 by omega]

end Lanes

end Simd
