-- SUMMARY: Galois/Counter mode over any block cipher, block by block, and the laws of its parts.
import TriHaRd.Base.Simd

/-!
# Galois/Counter mode

The plain description of the mode: counter mode under a nonce of twelve bytes, and a tag that
is the hash of the associated data, the ciphertext and their lengths, encrypted with the first
counter block. GHASH reads a block as a polynomial, its first bit the coefficient of `x⁰`.
-/

namespace Gcm

open Simd CarryLess

/-- The first sixteen bytes, padded with zeros, as a polynomial. -/
def block (bs : List UInt8) : BitVec 128 := ofBytes fun i => bs.getD (15 - i) 0

def blocks (bs : List UInt8) : List (BitVec 128) :=
  (List.range ((bs.length + 15) / 16)).map fun i => block (bs.drop (16 * i))

/-- GHASH, from a hash of the blocks before. -/
def ghash (h y : BitVec 128) (xs : List (BitVec 128)) : BitVec 128 :=
  xs.foldl (fun y x => gmul (y ^^^ x) h) y

/-- The nonce and a counter in big-endian order. -/
def counterBlock (iv : List UInt8) (ctr : BitVec 32) : BitVec 128 :=
  ofBytes fun i => if i < 12 then iv.getD i 0 else ⟨ctr.extractLsb' (8 * (15 - i)) 8⟩

def lengthBlock (adlen mlen : ℕ) : BitVec 128 :=
  BitVec.ofNat 64 (8 * adlen) ++ BitVec.ofNat 64 (8 * mlen)

section Mode

variable (ciph : BitVec 128 → BitVec 128) (iv : List UInt8)

/-- Byte `i` of the keystream that starts with a counter. -/
def keystream (ctr : BitVec 32) (i : ℕ) : UInt8 :=
  byte (ciph (counterBlock iv (ctr + BitVec.ofNat 32 (i / 16)))) (i % 16)

/-- Counter mode. -/
def gctr (ctr : BitVec 32) (text : List UInt8) : List UInt8 :=
  text.mapIdx fun i b => b ^^^ keystream ciph iv ctr i

def tag (ad c : List UInt8) : List UInt8 :=
  let h := reverse (ciph 0)
  let s := ghash h 0 (blocks ad ++ blocks c ++ [lengthBlock ad.length c.length])
  mmStoreuSi128 (reverse s ^^^ ciph (counterBlock iv 1))

/-- The ciphertext and the tag. -/
def encrypt (ad m : List UInt8) : List UInt8 × List UInt8 :=
  let c := gctr ciph iv 2 m
  (c, tag ciph iv ad c)

/-- The message, if the tag is right. -/
def decrypt (ad c t : List UInt8) : Option (List UInt8) :=
  if t = tag ciph iv ad c then some (gctr ciph iv 2 c) else none

end Mode

-- ---------------------------------------------------------------------------
-- Blocks
-- ---------------------------------------------------------------------------

section Blocks

variable {a b bs : List UInt8}

@[simp] theorem blocks_nil : blocks [] = [] := rfl

theorem block_append (h : 16 ≤ a.length) (b : List UInt8) : block (a ++ b) = block a :=
  eq_of_byte_eq fun i hi => by
    rw [block, byte_ofBytes _ hi, block, byte_ofBytes _ hi, List.getD_append _ _ _ _ (by omega)]

theorem block_take {n : ℕ} (h : 16 ≤ n) (bs : List UInt8) : block (bs.take n) = block bs :=
  eq_of_byte_eq fun i hi => by
    rw [block, byte_ofBytes _ hi, block, byte_ofBytes _ hi, List.getD_eq_getElem?_getD,
      List.getElem?_take_of_lt (by omega), List.getD_eq_getElem?_getD]

theorem block_append_zeros (bs : List UInt8) (n : ℕ) :
    block (bs ++ List.replicate n 0) = block bs :=
  eq_of_byte_eq fun i hi => by
    rw [block, byte_ofBytes _ hi, block, byte_ofBytes _ hi]
    obtain hlt | hge := Nat.lt_or_ge (15 - i) bs.length
    · rw [List.getD_append _ _ _ _ hlt]
    · rw [List.getD_append_right _ _ _ _ hge, List.getD_eq_getElem?_getD,
        List.getElem?_getD_replicate_default_eq,
        List.getD_eq_default _ _ hge]

theorem reverse_mmLoaduSi128 (bs : List UInt8) : reverse (mmLoaduSi128 bs) = block bs :=
  eq_of_byte_eq fun i hi => by
    rw [byte_reverse _ hi, byte_mmLoaduSi128 _ (by omega), block, byte_ofBytes _ hi]

theorem blocks_append (h : 16 ∣ a.length) (b : List UInt8) :
    blocks (a ++ b) = blocks a ++ blocks b := by
  obtain ⟨n, hn⟩ := h
  have hcount : ((a ++ b).length + 15) / 16 = n + (b.length + 15) / 16 := by
    rw [List.length_append, hn, Nat.add_assoc, Nat.mul_add_div (by omega)]
  have hcount' : (a.length + 15) / 16 = n := by omega
  rw [blocks, hcount, List.range_add, List.map_append, List.map_map, blocks, hcount', blocks]
  refine congrArg₂ (· ++ ·) (List.map_congr_left fun i hi => ?_)
    (List.map_congr_left fun i hi => ?_)
  · have hi : i < n := List.mem_range.mp hi
    rw [List.drop_append_of_le_length (by omega), block_append]
    rw [List.length_drop]
    omega
  · rw [Function.comp_apply, Nat.mul_add, ← hn, List.drop_append,
      List.drop_eq_nil_of_le (Nat.le_add_right _ _), List.nil_append, Nat.add_sub_cancel_left]

/-- The blocks of the next bytes. -/
theorem blocks_take_add {i : ℕ} (h : 16 ∣ i) (hi : i ≤ bs.length) (n : ℕ) :
    blocks (bs.take (i + n)) = blocks (bs.take i) ++ blocks ((bs.drop i).take n) := by
  rw [List.take_add, blocks_append]
  rwa [List.length_take, Nat.min_eq_left hi]

/-- A last block that may be short. -/
theorem blocks_of_length_le (h : 0 < bs.length) (h' : bs.length ≤ 16) : blocks bs = [block bs] := by
  rw [blocks, show (bs.length + 15) / 16 = 1 by omega]
  rfl

@[simp] theorem ghash_nil (h y : BitVec 128) : ghash h y [] = y := by
  rw [ghash, List.foldl_nil]

theorem ghash_cons (h y x : BitVec 128) (xs : List (BitVec 128)) :
    ghash h y (x :: xs) = ghash h (gmul (y ^^^ x) h) xs := by
  rw [ghash, List.foldl_cons, ← ghash]

/-- The blocks of a whole number of blocks. -/
theorem blocks_take_mul {n : ℕ} (h : 16 * n ≤ bs.length) :
    blocks (bs.take (16 * n)) = (List.range n).map fun i => block (bs.drop (16 * i)) := by
  rw [blocks, List.length_take, Nat.min_eq_left h, show (16 * n + 15) / 16 = n by omega]
  refine List.map_congr_left fun i hi => ?_
  have hi : i < n := List.mem_range.mp hi
  rw [List.drop_take, block_take (by omega)]

theorem ghash_append (h y : BitVec 128) (xs ys : List (BitVec 128)) :
    ghash h y (xs ++ ys) = ghash h (ghash h y xs) ys := List.foldl_append

end Blocks

-- ---------------------------------------------------------------------------
-- Counter mode
-- ---------------------------------------------------------------------------

section Mode

variable (ciph : BitVec 128 → BitVec 128) (iv : List UInt8) (ctr : BitVec 32)

@[simp] theorem length_gctr (text : List UInt8) : (gctr ciph iv ctr text).length = text.length := by
  simp [gctr]

theorem gctr_gctr (text : List UInt8) : gctr ciph iv ctr (gctr ciph iv ctr text) = text := by
  refine List.ext_getElem (by simp) fun i _ _ => ?_
  simp only [gctr, List.getElem_mapIdx]
  rw [UInt8.xor_assoc, UInt8.xor_self, UInt8.xor_zero]

theorem keystream_add (n i : ℕ) : keystream ciph iv ctr (16 * n + i) =
    keystream ciph iv (ctr + BitVec.ofNat 32 n) i := by
  rw [keystream, keystream, Nat.mul_add_div (by omega), Nat.mul_add_mod, BitVec.ofNat_add,
    BitVec.add_assoc]

theorem gctr_append {n : ℕ} {a : List UInt8} (h : a.length = 16 * n) (b : List UInt8) :
    gctr ciph iv ctr (a ++ b) =
      gctr ciph iv ctr a ++ gctr ciph iv (ctr + BitVec.ofNat 32 n) b := by
  have htail : b.mapIdx (fun i x => x ^^^ keystream ciph iv ctr (i + a.length)) =
      gctr ciph iv (ctr + BitVec.ofNat 32 n) b := by
    rw [gctr]
    refine congrArg (b.mapIdx ·) (funext fun i => funext fun x => ?_)
    rw [Nat.add_comm i, h, keystream_add]
  rw [← htail, gctr, gctr, List.mapIdx_append]

@[simp] theorem length_tag (ad c : List UInt8) : (tag ciph iv ad c).length = 16 :=
  length_mmStoreuSi128 _

theorem decrypt_encrypt (ad m : List UInt8) :
    decrypt ciph iv ad (encrypt ciph iv ad m).1 (encrypt ciph iv ad m).2 = some m := by
  rw [decrypt, encrypt, if_pos rfl, gctr_gctr]

theorem decrypt_eq_some_iff {ad c t m : List UInt8} :
    decrypt ciph iv ad c t = some m ↔ encrypt ciph iv ad m = (c, t) := by
  rw [decrypt, Option.ite_none_right_eq_some, Option.some_inj, encrypt, Prod.mk.injEq]
  constructor
  · rintro ⟨rfl, rfl⟩
    rw [gctr_gctr]
    exact ⟨rfl, rfl⟩
  · rintro ⟨rfl, rfl⟩
    exact ⟨rfl, gctr_gctr ciph iv 2 m⟩

end Mode

-- ---------------------------------------------------------------------------
-- One nonce for several messages
-- ---------------------------------------------------------------------------

def xorBytes (a b : List UInt8) : List UInt8 := List.zipWith (· ^^^ ·) a b

section Reuse

variable {a b c : List UInt8}

theorem length_xorBytes (h : a.length = b.length) : (xorBytes a b).length = a.length := by
  rw [xorBytes, List.length_zipWith, h, Nat.min_self]

theorem getD_xorBytes (h : a.length = b.length) (i : ℕ) :
    (xorBytes a b).getD i 0 = a.getD i 0 ^^^ b.getD i 0 := by
  obtain hlt | hge := Nat.lt_or_ge i a.length
  · simp [xorBytes, hlt, h ▸ hlt]
  · rw [List.getD_eq_default _ _ (by rwa [length_xorBytes h]), List.getD_eq_default _ _ hge,
      List.getD_eq_default _ _ (h ▸ hge)]
    rfl

theorem block_xorBytes (h : a.length = b.length) : block (xorBytes a b) = block a ^^^ block b :=
  eq_of_byte_eq fun i hi => by
    rw [byte_xor, block, byte_ofBytes _ hi, block, byte_ofBytes _ hi, block, byte_ofBytes _ hi,
      getD_xorBytes h]

theorem blocks_xorBytes (h : a.length = b.length) :
    blocks (xorBytes a b) = List.zipWith (· ^^^ ·) (blocks a) (blocks b) := by
  rw [blocks, length_xorBytes h, blocks, blocks, ← h, List.zipWith_map, List.zipWith_self]
  refine List.map_congr_left fun i _ => ?_
  rw [← block_xorBytes (by rw [List.length_drop, List.length_drop, h]), xorBytes, xorBytes,
    List.drop_zipWith]

/-- GHASH is linear in the blocks. -/
theorem ghash_zipWith_xor (h : BitVec 128) {xs ys : List (BitVec 128)}
    (hlength : xs.length = ys.length) (y z : BitVec 128) :
    ghash h (y ^^^ z) (List.zipWith (· ^^^ ·) xs ys) = ghash h y xs ^^^ ghash h z ys := by
  induction xs generalizing ys y z with
  | nil =>
      obtain rfl := List.length_eq_zero_iff.mp hlength.symm
      rw [List.zipWith_nil_left, ghash_nil, ghash_nil, ghash_nil]
  | cons x xs ih =>
      cases ys with
      | nil => cases hlength
      | cons x' ys =>
          have hregroup : y ^^^ z ^^^ (x ^^^ x') = y ^^^ x ^^^ (z ^^^ x') := by
            rw [BitVec.xor_assoc, BitVec.xor_assoc, ← BitVec.xor_assoc z, BitVec.xor_comm z x,
              BitVec.xor_assoc x]
          rw [List.zipWith_cons_cons, ghash_cons, ghash_cons, ghash_cons, hregroup, xor_gmul,
            ih (Nat.succ.inj hlength)]

theorem mmStoreuSi128_xor (a b : BitVec 128) :
    mmStoreuSi128 (a ^^^ b) = xorBytes (mmStoreuSi128 a) (mmStoreuSi128 b) := by
  rw [mmStoreuSi128, mmStoreuSi128, mmStoreuSi128, xorBytes, List.zipWith_map, List.zipWith_self]
  exact List.map_congr_left fun i _ => byte_xor a b i

/-- Three times the same is the same. -/
theorem zipWith_xor_self (xs : List (BitVec 128)) :
    List.zipWith (· ^^^ ·) (List.zipWith (· ^^^ ·) xs xs) xs = xs := by
  induction xs with
  | nil => rfl
  | cons x xs ih =>
      rw [List.zipWith_cons_cons, List.zipWith_cons_cons, ih, BitVec.xor_self, BitVec.zero_xor]

variable (ciph : BitVec 128 → BitVec 128) (iv : List UInt8) (ctr : BitVec 32)

/-- Under one nonce the keystream drops out of a sum of two ciphertexts. -/
theorem xorBytes_gctr (a b : List UInt8) :
    xorBytes (gctr ciph iv ctr a) (gctr ciph iv ctr b) = xorBytes a b := by
  have hcancel (x y k : UInt8) : x ^^^ k ^^^ (y ^^^ k) = x ^^^ y := by
    rw [UInt8.xor_comm y, UInt8.xor_assoc, ← UInt8.xor_assoc k, UInt8.xor_self, UInt8.zero_xor]
  refine List.ext_getElem (by simp [xorBytes]) fun i _ _ => ?_
  simp only [gctr, xorBytes, List.getElem_mapIdx, List.getElem_zipWith]
  exact hcancel _ _ _

theorem gctr_xorBytes (a b c : List UInt8) :
    gctr ciph iv ctr (xorBytes (xorBytes a b) c) =
      xorBytes (xorBytes (gctr ciph iv ctr a) (gctr ciph iv ctr b)) (gctr ciph iv ctr c) := by
  rw [xorBytes_gctr]
  refine List.ext_getElem (by simp [xorBytes]) fun i _ _ => ?_
  simp only [gctr, xorBytes, List.getElem_mapIdx, List.getElem_zipWith, UInt8.xor_assoc]

theorem tag_xorBytes (ad : List UInt8) (hb : a.length = b.length) (hc : a.length = c.length) :
    tag ciph iv ad (xorBytes (xorBytes a b) c) =
      xorBytes (xorBytes (tag ciph iv ad a) (tag ciph iv ad b)) (tag ciph iv ad c) := by
  obtain ⟨h, hh⟩ : ∃ h, h = reverse (ciph 0) := ⟨_, rfl⟩
  obtain ⟨e, he⟩ : ∃ e, e = ciph (counterBlock iv 1) := ⟨_, rfl⟩
  have htag (x : List UInt8) (hx : x.length = a.length) : tag ciph iv ad x = mmStoreuSi128
      (reverse (ghash h 0 (blocks ad ++ blocks x ++ [lengthBlock ad.length a.length])) ^^^ e) := by
    rw [tag, hh, he, hx]
  have hblocks (x : List UInt8) (hx : x.length = a.length) :
      (blocks x).length = (blocks a).length := by
    simp [blocks, hx]
  have hlengths := And.intro (hblocks b hb.symm) (hblocks c hc.symm)
  have hab := length_xorBytes hb
  have hlength : (xorBytes (xorBytes a b) c).length = a.length := by
    rw [length_xorBytes (hab.trans hc), hab]
  -- the other blocks are the same in all three
  have hsum : blocks ad ++ blocks (xorBytes (xorBytes a b) c) ++ [lengthBlock ad.length a.length] =
      List.zipWith (· ^^^ ·) (List.zipWith (· ^^^ ·)
        (blocks ad ++ blocks a ++ [lengthBlock ad.length a.length])
        (blocks ad ++ blocks b ++ [lengthBlock ad.length a.length]))
        (blocks ad ++ blocks c ++ [lengthBlock ad.length a.length]) := by
    rw [List.zipWith_append (by simp [hlengths]), List.zipWith_append (by simp [hlengths]),
      List.zipWith_append (by simp), List.zipWith_append (by simp),
      zipWith_xor_self, zipWith_xor_self, blocks_xorBytes (hab.trans hc), blocks_xorBytes hb]
  have hghash : ghash h 0 (blocks ad ++ blocks (xorBytes (xorBytes a b) c) ++
      [lengthBlock ad.length a.length]) =
      ghash h 0 (blocks ad ++ blocks a ++ [lengthBlock ad.length a.length]) ^^^
        ghash h 0 (blocks ad ++ blocks b ++ [lengthBlock ad.length a.length]) ^^^
        ghash h 0 (blocks ad ++ blocks c ++ [lengthBlock ad.length a.length]) := by
    rw [hsum, ← ghash_zipWith_xor h (by simp [hlengths]), ← ghash_zipWith_xor h
      (by simp [hlengths])]
    rfl
  have hregroup (x y z : BitVec 128) :
      x ^^^ y ^^^ z ^^^ e = (x ^^^ e) ^^^ (y ^^^ e) ^^^ (z ^^^ e) := by
    have hpair : (x ^^^ e) ^^^ (y ^^^ e) = x ^^^ y := by
      rw [BitVec.xor_comm y, BitVec.xor_assoc, ← BitVec.xor_assoc e, BitVec.xor_self,
        BitVec.zero_xor]
    rw [hpair, BitVec.xor_assoc]
  rw [htag _ hlength, htag a rfl, htag b hb.symm, htag c hc.symm, hghash, reverse_xor, reverse_xor,
    hregroup, mmStoreuSi128_xor, mmStoreuSi128_xor]

/-- Under one nonce, the sum of three encryptions of messages of one length is an encryption of
    their sum. -/
theorem encrypt_xorBytes (ad : List UInt8) (hb : a.length = b.length) (hc : a.length = c.length) :
    encrypt ciph iv ad (xorBytes (xorBytes a b) c) =
      (xorBytes (xorBytes (encrypt ciph iv ad a).1 (encrypt ciph iv ad b).1)
          (encrypt ciph iv ad c).1,
        xorBytes (xorBytes (encrypt ciph iv ad a).2 (encrypt ciph iv ad b).2)
          (encrypt ciph iv ad c).2) := by
  simp only [encrypt]
  rw [gctr_xorBytes, tag_xorBytes _ _ _ (by simpa using hb) (by simpa using hc)]

end Reuse

end Gcm
