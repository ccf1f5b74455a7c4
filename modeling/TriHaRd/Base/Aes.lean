-- SUMMARY: The block cipher AES-256 and its key schedule, on registers, and the instructions that do a round of it.
import TriHaRd.Base.Simd

/-!
# AES-256

Byte `r + 4c` of the state is in row `r` and column `c`. A word of the key schedule is a lane,
its first byte the lowest.
-/

namespace Aes

open Simd

-- ---------------------------------------------------------------------------
-- Bytes
-- ---------------------------------------------------------------------------

/-- Multiplication by `x` in GF(2⁸). -/
def xtime (b : UInt8) : UInt8 := if b &&& 0x80 = 0 then b <<< 1 else (b <<< 1) ^^^ 0x1b

def mul (a b : UInt8) : UInt8 :=
  ((List.range 8).foldl (fun (acc, v) i =>
    (if b &&& (1 <<< UInt8.ofNat i) = 0 then acc else acc ^^^ v, xtime v)) ((0 : UInt8), a)).1

/-- `b²⁵⁴`, the inverse of `b`, or zero. -/
def inv (b : UInt8) : UInt8 :=
  ((List.range 7).foldl (fun (acc, v) _ => (mul acc (mul v v), mul v v)) ((1 : UInt8), b)).1

def rotl (b : UInt8) (n : UInt8) : UInt8 := (b <<< n) ||| (b >>> (8 - n))

def sbox (b : UInt8) : UInt8 :=
  let b := inv b
  b ^^^ rotl b 1 ^^^ rotl b 2 ^^^ rotl b 3 ^^^ rotl b 4 ^^^ 0x63

-- ---------------------------------------------------------------------------
-- The cipher
-- ---------------------------------------------------------------------------

def subBytes (s : BitVec 128) : BitVec 128 := ofBytes fun i => sbox (byte s i)

/-- Row `r` moves `r` columns to the left. -/
def shiftRows (s : BitVec 128) : BitVec 128 := ofBytes fun i => byte s ((i + 4 * (i % 4)) % 16)

def mixColumns (s : BitVec 128) : BitVec 128 :=
  ofBytes fun i =>
    let b (k : ℕ) := byte s (4 * (i / 4) + (i + k) % 4)
    mul (b 0) 2 ^^^ mul (b 1) 3 ^^^ b 2 ^^^ b 3

def wordByte (w : BitVec 32) (j : ℕ) : UInt8 := ⟨w.extractLsb' (8 * j) 8⟩

def ofWordBytes (f : ℕ → UInt8) : BitVec 32 :=
  ofBits 32 fun i => (f (i / 8)).toBitVec.getLsbD (i % 8)

def subWord (w : BitVec 32) : BitVec 32 := ofWordBytes fun j => sbox (wordByte w j)

def rotWord (w : BitVec 32) : BitVec 32 := ofWordBytes fun j => wordByte w ((j + 1) % 4)

/-- What is added to word `i - 8` for word `i`, from word `i - 1`. -/
def scheduled (i : ℕ) (w : BitVec 32) : BitVec 32 :=
  if i % 8 = 0 then subWord (rotWord w) ^^^ BitVec.ofNat 32 (2 ^ (i / 8 - 1))
  else if i % 8 = 4 then subWord w
  else w

/-- The first words of the schedule of a key of 32 bytes. -/
def keySchedule (key : List UInt8) : ℕ → List (BitVec 32)
  | 0 => []
  | i + 1 =>
    let ws := keySchedule key i
    ws ++ [if i < 8 then ofWordBytes fun j => key.getD (4 * i + j) 0
      else ws.getD (i - 8) 0 ^^^ scheduled i (ws.getD (i - 1) 0)]

def keyWord (key : List UInt8) (i : ℕ) : BitVec 32 := (keySchedule key (i + 1)).getD i 0

def roundKey (key : List UInt8) (r : ℕ) : BitVec 128 := ofLanes fun j => keyWord key (4 * r + j)

/-- The encryption of a block. -/
def cipher (key : List UInt8) (block : BitVec 128) : BitVec 128 :=
  let s := (List.range' 1 13).foldl
    (fun s r => mixColumns (shiftRows (subBytes s)) ^^^ roundKey key r) (block ^^^ roundKey key 0)
  shiftRows (subBytes s) ^^^ roundKey key 14

-- ---------------------------------------------------------------------------
-- Instructions
-- ---------------------------------------------------------------------------

def mmAesencSi128 (a rk : BitVec 128) : BitVec 128 := mixColumns (subBytes (shiftRows a)) ^^^ rk

def mmAesenclastSi128 (a rk : BitVec 128) : BitVec 128 := subBytes (shiftRows a) ^^^ rk

def mmAeskeygenassistSi128 (a : BitVec 128) (rcon : ℕ) : BitVec 128 :=
  ofLanes fun i =>
    match i with
    | 0 => subWord (lane a 1)
    | 1 => rotWord (subWord (lane a 1)) ^^^ BitVec.ofNat 32 rcon
    | 2 => subWord (lane a 3)
    | _ => rotWord (subWord (lane a 3)) ^^^ BitVec.ofNat 32 rcon

theorem lane_two_mmAeskeygenassistSi128 (a : BitVec 128) (rcon : ℕ) :
    lane (mmAeskeygenassistSi128 a rcon) 2 = subWord (lane a 3) := lane_ofLanes _ (by omega)

theorem lane_three_mmAeskeygenassistSi128 (a : BitVec 128) (rcon : ℕ) :
    lane (mmAeskeygenassistSi128 a rcon) 3 =
      rotWord (subWord (lane a 3)) ^^^ BitVec.ofNat 32 rcon := lane_ofLanes _ (by omega)

-- ---------------------------------------------------------------------------
-- The key schedule
-- ---------------------------------------------------------------------------

section KeySchedule

variable {key : List UInt8} {i n : ℕ}

theorem length_keySchedule (key : List UInt8) (n : ℕ) : (keySchedule key n).length = n := by
  induction n with
  | zero => rfl
  | succ n ih => rw [keySchedule, List.length_append, ih, List.length_singleton]

theorem getD_keySchedule (h : i < n) : (keySchedule key n).getD i 0 = keyWord key i := by
  induction n with
  | zero => omega
  | succ n ih =>
      obtain hlt | rfl := Nat.lt_or_eq_of_le (Nat.le_of_lt_succ h)
      · rw [keySchedule, List.getD_append _ _ _ _ (by rwa [length_keySchedule]), ih hlt]
      · rfl

theorem getD_concat_keySchedule (key : List UInt8) (i : ℕ) (w : BitVec 32) :
    (keySchedule key i ++ [w]).getD i 0 = w := by
  rw [List.getD_append_right _ _ _ _ (by rw [length_keySchedule]), length_keySchedule, Nat.sub_self]
  rfl

theorem keyWord_of_lt (h : i < 8) :
    keyWord key i = ofWordBytes fun j => key.getD (4 * i + j) 0 := by
  rw [keyWord, keySchedule, getD_concat_keySchedule, if_pos h]

theorem keyWord_of_le (h : 8 ≤ i) :
    keyWord key i = keyWord key (i - 8) ^^^ scheduled i (keyWord key (i - 1)) := by
  rw [keyWord, keySchedule, getD_concat_keySchedule, if_neg (by omega), getD_keySchedule (by omega),
    getD_keySchedule (by omega)]

end KeySchedule

theorem lane_mmLoaduSi128 (bs : List UInt8) {j : ℕ} (hj : j < 4) :
    lane (mmLoaduSi128 bs) j = ofWordBytes fun i => bs.getD (4 * j + i) 0 := by
  refine BitVec.eq_of_getLsbD_eq fun i hi => ?_
  rw [getLsbD_lane, mmLoaduSi128, getLsbD_ofBytes, ofWordBytes, getLsbD_ofBits,
    show (32 * j + i) / 8 = 4 * j + i / 8 by omega, show (32 * j + i) % 8 = i % 8 by omega]
  simp [hi, show 32 * j + i < 128 by omega]

-- ---------------------------------------------------------------------------
-- Orders that do not matter
-- ---------------------------------------------------------------------------

theorem subBytes_shiftRows (s : BitVec 128) : subBytes (shiftRows s) = shiftRows (subBytes s) :=
  eq_of_byte_eq fun i hi => by
    rw [subBytes, byte_ofBytes _ hi, shiftRows, byte_ofBytes _ hi, shiftRows, byte_ofBytes _ hi,
      subBytes, byte_ofBytes _ (by omega)]

theorem wordByte_ofWordBytes (f : ℕ → UInt8) {j : ℕ} (hj : j < 4) :
    wordByte (ofWordBytes f) j = f j := by
  refine UInt8.toBitVec_inj.mp (BitVec.eq_of_getLsbD_eq fun i hi => ?_)
  rw [wordByte, BitVec.getLsbD_extractLsb', ofWordBytes, getLsbD_ofBits,
    show (8 * j + i) / 8 = j by omega, show (8 * j + i) % 8 = i by omega]
  simp [hi, show 8 * j + i < 32 by omega]

theorem ofWordBytes_congr {f g : ℕ → UInt8} (h : ∀ j < 4, f j = g j) :
    ofWordBytes f = ofWordBytes g := by
  refine BitVec.eq_of_getLsbD_eq fun i hi => ?_
  rw [ofWordBytes, getLsbD_ofBits, ofWordBytes, getLsbD_ofBits, h (i / 8) (by omega)]

theorem rotWord_subWord (w : BitVec 32) : rotWord (subWord w) = subWord (rotWord w) :=
  ofWordBytes_congr fun j hj => by
    rw [subWord, wordByte_ofWordBytes _ (by omega), rotWord, wordByte_ofWordBytes _ hj]

end Aes
