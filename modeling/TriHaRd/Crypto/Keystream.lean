-- SUMMARY: The key expansion and the encryptions of the vendored AES-GCM, as AES-256 of counter blocks.
import TriHaRd.Base.Aes
import TriHaRd.Base.Gcm

/-!
# AES instructions

`aesni_key256_expand` makes the round keys four words at a time, with two shuffles for the
running sums of a round key. `aesni_encrypt1` encrypts one block and `aesni_encrypt8` the next
eight counter blocks.
-/

namespace TriHaRd.Aesni

open Simd Aes Gcm

-- ---------------------------------------------------------------------------
-- The round keys
-- ---------------------------------------------------------------------------

/-- The variables of `aesni_key256_expand`. -/
structure KeyExpansion where
  X0 : BitVec 128
  X2 : BitVec 128
  X3 : BitVec 128
  rkeys : List (BitVec 128)

def expandKey1 (S : ℕ) (e : KeyExpansion) : KeyExpansion :=
  let X1 := mmShuffleEpi32 (mmAeskeygenassistSi128 e.X2 S) 0xff
  let X3 := mmShufflePs e.X3 e.X0 0x10
  let X0 := e.X0 ^^^ X3
  let X3 := mmShufflePs X3 X0 0x8c
  let X0 := (X0 ^^^ X3) ^^^ X1
  ⟨X0, e.X2, X3, e.rkeys ++ [X0]⟩

def expandKey2 (S : ℕ) (e : KeyExpansion) : KeyExpansion :=
  let X1 := mmShuffleEpi32 (mmAeskeygenassistSi128 e.X0 S) 0xaa
  let X3 := mmShufflePs e.X3 e.X2 0x10
  let X2 := e.X2 ^^^ X3
  let X3 := mmShufflePs X3 X2 0x8c
  let X2 := (X2 ^^^ X3) ^^^ X1
  ⟨e.X0, X2, X3, e.rkeys ++ [X2]⟩

def aesniKey256Expand (key : List UInt8) : List (BitVec 128) :=
  let X0 := mmLoaduSi128 key
  let X2 := mmLoaduSi128 (key.drop 16)
  let e : KeyExpansion := ⟨X0, X2, 0, [X0, X2]⟩
  let e := [0x01, 0x02, 0x04, 0x08, 0x10, 0x20].foldl (fun e S => expandKey2 S (expandKey1 S e)) e
  let e := expandKey1 0x40 e
  e.rkeys

/-- The register that both macros make of `X` and `X3` before they add `X1`. -/
def runningSums (X3 X : BitVec 128) : BitVec 128 :=
  X ^^^ mmShufflePs X3 X 0x10 ^^^
    mmShufflePs (mmShufflePs X3 X 0x10) (X ^^^ mmShufflePs X3 X 0x10) 0x8c

/-- Lane by lane the sum of the lanes up to it. `X3` needs nothing but a zero in its lowest
    lane. -/
theorem lane_runningSums {X3 : BitVec 128} (h : lane X3 0 = 0) (X : BitVec 128) :
    lane (runningSums X3 X) 0 = lane X 0 ∧
    lane (runningSums X3 X) 1 = lane X 1 ^^^ lane (runningSums X3 X) 0 ∧
    lane (runningSums X3 X) 2 = lane X 2 ^^^ lane (runningSums X3 X) 1 ∧
    lane (runningSums X3 X) 3 = lane X 3 ^^^ lane (runningSums X3 X) 2 := by
  have h0 : lane (runningSums X3 X) 0 = lane X 0 := by
    simp [runningSums, mmShufflePs, chosen, h]
  have h1 : lane (runningSums X3 X) 1 = lane X 1 ^^^ lane X 0 := by
    simp [runningSums, mmShufflePs, chosen, h]
  have h2 : lane (runningSums X3 X) 2 = lane X 2 ^^^ (lane X 1 ^^^ lane X 0) := by
    simp [runningSums, mmShufflePs, chosen, h, BitVec.xor_assoc]
  have h3 : lane (runningSums X3 X) 3 = lane X 3 ^^^ (lane X 2 ^^^ (lane X 1 ^^^ lane X 0)) := by
    simp [runningSums, mmShufflePs, chosen, BitVec.xor_assoc]
    rw [BitVec.xor_comm (lane X 0), BitVec.xor_assoc]
  rw [h0, h1, h2, h3]
  exact ⟨rfl, rfl, rfl, rfl⟩

theorem lane_roundKey (key : List UInt8) (r : ℕ) {j : ℕ} (hj : j < 4) :
    lane (roundKey key r) j = keyWord key (4 * r + j) := lane_ofLanes _ hj

/-- Two round keys further on, from what the schedule adds to the first word. -/
theorem roundKey_next {key : List UInt8} {r : ℕ} {X1 X3 : BitVec 128} (h : lane X3 0 = 0)
    (hX1 : ∀ j < 4, lane X1 j = scheduled (4 * r + 8) (keyWord key (4 * r + 7))) :
    runningSums X3 (roundKey key r) ^^^ X1 = roundKey key (r + 2) := by
  obtain ⟨h0, h1, h2, h3⟩ := lane_runningSums h (roundKey key r)
  -- the other words add the word before them
  have hword {j : ℕ} (hj : 1 ≤ j) (hj' : j < 4) : keyWord key (4 * (r + 2) + j) =
      keyWord key (4 * r + j) ^^^ keyWord key (4 * (r + 2) + (j - 1)) := by
    rw [keyWord_of_le (by omega), show 4 * (r + 2) + j - 8 = 4 * r + j by omega,
      show 4 * (r + 2) + j - 1 = 4 * (r + 2) + (j - 1) by omega, scheduled, if_neg (by omega),
      if_neg (by omega)]
  have hfirst : keyWord key (4 * (r + 2) + 0) =
      keyWord key (4 * r + 0) ^^^ scheduled (4 * r + 8) (keyWord key (4 * r + 7)) :=
    keyWord_of_le (by omega)
  rw [lane_roundKey _ _ (by omega)] at h0 h1 h2 h3
  have hnext {j : ℕ} {w v : BitVec 32} (hj : 1 ≤ j) (hj' : j < 4)
      (hw : w = keyWord key (4 * r + j) ^^^ v)
      (hv : v ^^^ lane X1 (j - 1) = keyWord key (4 * (r + 2) + (j - 1))) :
      w ^^^ lane X1 j = keyWord key (4 * (r + 2) + j) := by
    rw [hword hj hj', ← hv, hw, hX1 j hj', hX1 (j - 1) (by omega), BitVec.xor_assoc]
  have hlane0 : lane (runningSums X3 (roundKey key r)) 0 ^^^ lane X1 0 =
      keyWord key (4 * (r + 2) + 0) := by
    rw [h0, hfirst, hX1 0 (by omega)]
  have hlane1 := hnext (j := 1) le_rfl (by omega) h1 hlane0
  have hlane2 := hnext (j := 2) (by omega) (by omega) h2 hlane1
  have hlane3 := hnext (j := 3) (by omega) (by omega) h3 hlane2
  refine eq_of_lane_eq fun j hj => ?_
  rw [lane_xor, lane_roundKey _ _ hj]
  obtain rfl | rfl | rfl | rfl : j = 0 ∨ j = 1 ∨ j = 2 ∨ j = 3 := by omega
  · exact hlane0
  · exact hlane1
  · exact hlane2
  · exact hlane3

/-- The variables after `k` rounds of the two macros. -/
structure Expanded (key : List UInt8) (k : ℕ) (e : KeyExpansion) : Prop where
  X0 : e.X0 = roundKey key (2 * k)
  X2 : e.X2 = roundKey key (2 * k + 1)
  X3 : lane e.X3 0 = 0
  rkeys : e.rkeys = (List.range (2 * k + 2)).map (roundKey key)

theorem lane_X3 {X3 X Y : BitVec 128} (h : lane X3 0 = 0) :
    lane (mmShufflePs (mmShufflePs X3 X 0x10) Y 0x8c) 0 = 0 := by
  simp [mmShufflePs, chosen, h]

theorem expandKey1_eq {key : List UInt8} {k : ℕ} {e : KeyExpansion} (h : Expanded key k e) :
    (expandKey1 (2 ^ k) e).X0 = roundKey key (2 * k + 2) := by
  have hX1 (j : ℕ) (hj : j < 4) :
      lane (mmShuffleEpi32 (mmAeskeygenassistSi128 e.X2 (2 ^ k)) 0xff) j =
        scheduled (4 * (2 * k) + 8) (keyWord key (4 * (2 * k) + 7)) := by
    have hchosen : chosen 0xff j = 3 := by
      revert j
      decide
    rw [mmShuffleEpi32, lane_ofLanes _ hj, hchosen, lane_three_mmAeskeygenassistSi128, scheduled,
      if_pos (by omega), rotWord_subWord, h.X2, lane_roundKey _ _ (by omega),
      show 4 * (2 * k + 1) + 3 = 4 * (2 * k) + 7 by omega,
      show (4 * (2 * k) + 8) / 8 - 1 = k by omega]
  rw [← roundKey_next h.X3 hX1, ← h.X0]
  rfl

theorem expandKey2_eq {key : List UInt8} {k : ℕ} {e : KeyExpansion} (S : ℕ)
    (hX0 : e.X0 = roundKey key (2 * k + 2)) (hX2 : e.X2 = roundKey key (2 * k + 1))
    (hX3 : lane e.X3 0 = 0) : (expandKey2 S e).X2 = roundKey key (2 * k + 3) := by
  have hX1 (j : ℕ) (hj : j < 4) :
      lane (mmShuffleEpi32 (mmAeskeygenassistSi128 e.X0 S) 0xaa) j =
        scheduled (4 * (2 * k + 1) + 8) (keyWord key (4 * (2 * k + 1) + 7)) := by
    have hchosen : chosen 0xaa j = 2 := by
      revert j
      decide
    rw [mmShuffleEpi32, lane_ofLanes _ hj, hchosen, lane_two_mmAeskeygenassistSi128, scheduled,
      if_neg (by omega), if_pos (by omega), hX0, lane_roundKey _ _ (by omega),
      show 4 * (2 * k + 2) + 3 = 4 * (2 * k + 1) + 7 by omega]
  rw [← roundKey_next hX3 hX1, ← hX2]
  rfl

theorem Expanded.step {key : List UInt8} {k : ℕ} {e : KeyExpansion} (h : Expanded key k e) :
    Expanded key (k + 1) (expandKey2 (2 ^ k) (expandKey1 (2 ^ k) e)) := by
  have hX0 := expandKey1_eq h
  have hX3 : lane (expandKey1 (2 ^ k) e).X3 0 = 0 := lane_X3 h.X3
  have hX2 := expandKey2_eq (2 ^ k) hX0 h.X2 hX3
  refine ⟨hX0, hX2, lane_X3 hX3, ?_⟩
  have hrkeys : (expandKey2 (2 ^ k) (expandKey1 (2 ^ k) e)).rkeys =
      e.rkeys ++ [(expandKey1 (2 ^ k) e).X0] ++
        [(expandKey2 (2 ^ k) (expandKey1 (2 ^ k) e)).X2] := rfl
  rw [hrkeys, hX0, hX2, h.rkeys, show 2 * (k + 1) + 2 = 2 * k + 2 + 1 + 1 by omega,
    List.range_succ (n := 2 * k + 2 + 1), List.range_succ (n := 2 * k + 2), List.map_append,
    List.map_append]
  rfl

/-- The round keys are those of the standard. -/
theorem aesniKey256Expand_eq (key : List UInt8) :
    aesniKey256Expand key = (List.range 15).map (roundKey key) := by
  have hX0 : mmLoaduSi128 key = roundKey key 0 := eq_of_lane_eq fun j hj => by
    rw [lane_roundKey _ _ hj, keyWord_of_lt (by omega), lane_mmLoaduSi128 _ hj, Nat.mul_zero,
      Nat.zero_add]
  have hX2 : mmLoaduSi128 (key.drop 16) = roundKey key 1 := eq_of_lane_eq fun j hj => by
    rw [lane_roundKey _ _ hj, keyWord_of_lt (by omega), lane_mmLoaduSi128 _ hj]
    refine ofWordBytes_congr fun i _ => ?_
    rw [List.getD_eq_getElem?_getD, List.getElem?_drop, List.getD_eq_getElem?_getD,
      show 16 + (4 * j + i) = 4 * (4 * 1 + j) + i by omega]
  have hstart : Expanded key 0 ⟨mmLoaduSi128 key, mmLoaduSi128 (key.drop 16), 0,
      [mmLoaduSi128 key, mmLoaduSi128 (key.drop 16)]⟩ :=
    ⟨hX0, hX2, lane_zero 0, by rw [hX0, hX2]; rfl⟩
  have hloop := hstart.step.step.step.step.step.step
  have hlast := expandKey1_eq hloop
  have hrkeys := hloop.rkeys
  generalize he : expandKey2 (2 ^ 5) _ = e at hlast hrkeys
  have hcode : aesniKey256Expand key = e.rkeys ++ [(expandKey1 (2 ^ 6) e).X0] := by
    rw [← he]
    rfl
  rw [hcode, hrkeys, hlast, List.range_succ (n := 14), List.map_append]
  rfl

-- ---------------------------------------------------------------------------
-- Blocks
-- ---------------------------------------------------------------------------

/-- One block under the round keys. -/
def aesniEncrypt1 (nv : BitVec 128) (rkeys : List (BitVec 128)) : BitVec 128 :=
  let temp := nv ^^^ rkeys.getD 0 0
  let temp := (List.range' 1 13).foldl (fun temp r => mmAesencSi128 temp (rkeys.getD r 0)) temp
  mmAesenclastSi128 temp (rkeys.getD 14 0)

/-- The array `n2`, three words of the nonce and a counter. -/
structure NVec where
  npub : List UInt8
  n3 : BitVec 32

/-- The array in memory. -/
def NVec.load (n : NVec) : BitVec 128 :=
  ofBytes fun i => if i < 12 then n.npub.getD i 0 else ⟨n.n3.extractLsb' (8 * (i - 12)) 8⟩

def pt : BitVec 128 := mmSetEpi8 [12, 13, 14, 15, 11, 10, 9, 8, 7, 6, 5, 4, 3, 2, 1, 0]

/-- `NVx`, the next counter block -/
def nvx (n : NVec) : BitVec 128 × NVec := (mmShuffleEpi8 n.load pt, { n with n3 := n.n3 + 1 })

/-- `MAKE8(NVx)` -/
def make8Nvx (n : NVec) : List (BitVec 128) × NVec :=
  (List.range 8).foldl (fun (nv, n) _ => (nv ++ [(nvx n).1], (nvx n).2)) ([], n)

/-- The registers `temp0` to `temp7` after `AESENCLASTx`. -/
def make8Temp (nv rkeys : List (BitVec 128)) : List (BitVec 128) :=
  let temp := nv.map fun nv => nv ^^^ rkeys.getD 0 0
  let temp := (List.range' 1 13).foldl
    (fun temp roundctr => temp.map fun temp => mmAesencSi128 temp (rkeys.getD roundctr 0)) temp
  temp.map fun temp => mmAesenclastSi128 temp (rkeys.getD 14 0)

def aesniEncrypt8 (n : NVec) (rkeys : List (BitVec 128)) : List UInt8 × NVec :=
  let nv := make8Nvx n
  ((make8Temp nv.1 rkeys).flatMap mmStoreuSi128, nv.2)

theorem aesniEncrypt1_eq (key : List UInt8) (nv : BitVec 128) :
    aesniEncrypt1 nv (aesniKey256Expand key) = cipher key nv := by
  have hrkey {r : ℕ} (hr : r < 15) : (aesniKey256Expand key).getD r 0 = roundKey key r := by
    rw [aesniKey256Expand_eq, List.getD_eq_getElem?_getD, List.getElem?_map,
      List.getElem?_range hr]
    rfl
  have hround (s : BitVec 128) (r : ℕ) (hr : r ∈ List.range' 1 13) :
      mmAesencSi128 s ((aesniKey256Expand key).getD r 0) =
        mixColumns (shiftRows (subBytes s)) ^^^ roundKey key r := by
    have hr : r < 15 := by
      have := List.mem_range'_1.mp hr
      omega
    rw [hrkey hr, mmAesencSi128, subBytes_shiftRows]
  rw [aesniEncrypt1, List.foldl_ext _ _ _ hround, hrkey (by omega), hrkey (by omega),
    mmAesenclastSi128, subBytes_shiftRows, cipher]

/-- The registers go through the rounds side by side. -/
theorem make8Temp_eq (nv rkeys : List (BitVec 128)) :
    make8Temp nv rkeys = nv.map fun nv => aesniEncrypt1 nv rkeys := by
  have hrounds (rs : List ℕ) (f : BitVec 128 → BitVec 128) :
      rs.foldl (fun temp r => temp.map fun temp => mmAesencSi128 temp (rkeys.getD r 0))
        (nv.map f) =
      nv.map fun nv => rs.foldl (fun temp r => mmAesencSi128 temp (rkeys.getD r 0)) (f nv) := by
    induction rs generalizing f with
    | nil => rfl
    | cons r rs ih => rw [List.foldl_cons, List.map_map, ih]; rfl
  rw [make8Temp, hrounds, List.map_map]
  rfl

-- ---------------------------------------------------------------------------
-- Counter blocks
-- ---------------------------------------------------------------------------

/-- The shuffle puts the counter into big-endian order. -/
theorem nvx_eq (n : NVec) : nvx n = (counterBlock n.npub n.n3, ⟨n.npub, n.n3 + 1⟩) := by
  have hblock : mmShuffleEpi8 n.load pt = counterBlock n.npub n.n3 := by
    rw [pt, mmShuffleEpi8_mmSetEpi8 _ _ (by decide)]
    refine eq_of_byte_eq fun i hi => ?_
    have hmask : ([12, 13, 14, 15, 11, 10, 9, 8, 7, 6, 5, 4, 3, 2, 1, 0].reverse.getD i
        (0 : UInt8)).toNat = if i < 12 then i else 27 - i := by
      revert i
      decide
    rw [byte_ofBytes _ hi, hmask, counterBlock, byte_ofBytes _ hi, NVec.load]
    split
    · rw [byte_ofBytes _ hi, if_pos (by assumption)]
    · rw [byte_ofBytes _ (by omega), if_neg (by omega), show 27 - i - 12 = 15 - i by omega]
  rw [nvx, hblock]

theorem make8Nvx_eq (n : NVec) : make8Nvx n =
    ((List.range 8).map fun a => counterBlock n.npub (n.n3 + BitVec.ofNat 32 a),
      ⟨n.npub, n.n3 + 8⟩) := by
  have hsteps (k : ℕ) : (List.range k).foldl
      (fun (s : List (BitVec 128) × NVec) _ => (s.1 ++ [(nvx s.2).1], (nvx s.2).2)) ([], n) =
      ((List.range k).map fun a => counterBlock n.npub (n.n3 + BitVec.ofNat 32 a),
        ⟨n.npub, n.n3 + BitVec.ofNat 32 k⟩) := by
    induction k with
    | zero => simp
    | succ k ih =>
        have hcount : n.n3 + BitVec.ofNat 32 k + 1 = n.n3 + BitVec.ofNat 32 (k + 1) := by
          rw [BitVec.ofNat_add, BitVec.add_assoc]
          rfl
        rw [List.range_succ, List.foldl_append, ih, List.foldl_cons, List.foldl_nil, nvx_eq,
          List.map_append]
        dsimp only
        rw [hcount]
        rfl
  exact hsteps 8

/-- The counter block that the tag is encrypted with. -/
theorem load_one (npub : List UInt8) :
    NVec.load ⟨npub, 0x01000000⟩ = counterBlock npub 1 := by
  refine eq_of_byte_eq fun i hi => ?_
  rw [NVec.load, byte_ofBytes _ hi, counterBlock, byte_ofBytes _ hi]
  split
  · rfl
  · have hbytes : ∀ i < 16, ¬ i < 12 → (0x01000000#32).extractLsb' (8 * (i - 12)) 8 =
        (1#32).extractLsb' (8 * (15 - i)) 8 := by decide
    rw [show (0x01000000 : BitVec 32) = 0x01000000#32 from rfl, hbytes i hi (by assumption)]
    rfl

/-- Eight blocks of the keystream. -/
theorem temps_eq (n : NVec) (key : List UInt8) :
    make8Temp (make8Nvx n).1 (aesniKey256Expand key) = (List.range 8).map fun a =>
      cipher key (counterBlock n.npub (n.n3 + BitVec.ofNat 32 a)) := by
  rw [make8Temp_eq, make8Nvx_eq, List.map_map]
  exact List.map_congr_left fun a _ => aesniEncrypt1_eq key _

theorem getD_aesniEncrypt8 (n : NVec) (key : List UInt8) {j : ℕ} (hj : j < 128) :
    (aesniEncrypt8 n (aesniKey256Expand key)).1.getD j 0 =
      keystream (cipher key) n.npub n.n3 j := by
  have hout : (aesniEncrypt8 n (aesniKey256Expand key)).1 =
      ((List.range 8).map fun a => cipher key
        (counterBlock n.npub (n.n3 + BitVec.ofNat 32 a))).flatMap mmStoreuSi128 := by
    rw [aesniEncrypt8, temps_eq]
  rw [hout, getD_flatMap_mmStoreuSi128 _ (by simpa using hj), List.getD_eq_getElem?_getD,
    List.getElem?_map, List.getElem?_range (by omega), keystream]
  rfl

theorem aesniEncrypt8_snd (n : NVec) (rkeys : List (BitVec 128)) :
    (aesniEncrypt8 n rkeys).2 = ⟨n.npub, n.n3 + 8⟩ := by
  rw [aesniEncrypt8, make8Nvx_eq]

end TriHaRd.Aesni
