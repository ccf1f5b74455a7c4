-- SUMMARY: The vendored AES-256-GCM with its loops over eight and four blocks, and that it is the plain mode.
import TriHaRd.Base.Loop
import TriHaRd.Crypto.Ghash
import TriHaRd.Crypto.Keystream

/-!
# crypto_aead_aes256gcm

Eight blocks are encrypted at once, and four are hashed at once, as long as there are enough.
Other loops do the rest. Lengths are those of the lists, and a call of `sodium_misuse`, which
aborts, gives `none`. An output grows at its end, where the source writes at the index `i` of the
loop.
-/

namespace TriHaRd.Aesni

open Simd Loop Aes Gcm

/-- `crypto_aead_aes256gcm_MESSAGEBYTES_MAX` -/
def messagebytesMax : ℕ := min (2 ^ 64 - 1 - 16) (16 * (2 ^ 32 - 2))

structure Aes256gcmState where
  rkeys : List (BitVec 128)
  H : BitVec 128

/-- `crypto_aead_aes256gcm_beforenm` -/
def beforenm (k : List UInt8) : Aes256gcmState :=
  let rkeys := aesniKey256Expand k
  ⟨rkeys, aesniEncrypt1 0 rkeys⟩

/-- `Hv`, `H2v`, `H3v` and `H4v` -/
structure Powers where
  Hv : BitVec 128
  H2v : BitVec 128
  H3v : BitVec 128
  H4v : BitVec 128

def powers (ctx : Aes256gcmState) : Powers :=
  let Hv := mmShuffleEpi8 ctx.H rev
  let H2v := mulv Hv Hv
  let H3v := mulv H2v Hv
  let H4v := mulv H3v Hv
  ⟨Hv, H2v, H3v, H4v⟩

/-- `MULREDUCE4` with the powers. -/
def Powers.mulreduce4 (p : Powers) (X0 X1 X2 X3 accv : BitVec 128) : BitVec 128 :=
  Aesni.mulreduce4 rev p.Hv p.H2v p.H3v p.H4v X0 X1 X2 X3 accv

-- ---------------------------------------------------------------------------
-- Hashes
-- ---------------------------------------------------------------------------

/-- Four blocks of the associated data. -/
def addmul4 (p : Powers) (ad : List UInt8) (i : ℕ) (accv : BitVec 128) : BitVec 128 :=
  let X4 := mmLoaduSi128 (ad.drop (i + 0))
  let X3 := mmLoaduSi128 (ad.drop (i + 16))
  let X2 := mmLoaduSi128 (ad.drop (i + 32))
  let X1 := mmLoaduSi128 (ad.drop (i + 48))
  p.mulreduce4 X1 X2 X3 X4 accv

/-- The two loops over the associated data. -/
def hashAd (p : Powers) (ad : List UInt8) : BitVec 128 :=
  let adlen := ad.length
  let adlenRnd64 := adlen / 64 * 64
  let accv := forUpTo 0 adlenRnd64 64 (addmul4 p ad) 0
  let blocklen (i : ℕ) := if i + 16 > adlen then adlen - i else 16
  forUpTo adlenRnd64 adlen 16 (fun i accum => addmul accum (ad.drop i) (blocklen i) p.Hv) accv

/-- The two calls of `MULREDUCE4` for eight blocks. -/
def mulreduce8 (p : Powers) (temp : List (BitVec 128)) (accv : BitVec 128) : BitVec 128 :=
  let X (a : ℕ) := temp.getD a 0
  let accv := p.mulreduce4 (X 3) (X 2) (X 1) (X 0) accv
  p.mulreduce4 (X 7) (X 6) (X 5) (X 4) accv

/-- `LOADx` for eight blocks. -/
def make8Load (inp : List UInt8) : List (BitVec 128) :=
  (List.range 8).map fun a => mmLoaduSi128 (inp.drop (a * 16))

def aesniAddmul8full (inp : List UInt8) (accum : BitVec 128) (p : Powers) : BitVec 128 :=
  mulreduce8 p (make8Load inp) accum

/-- The blocks of a part of at most 128 bytes. -/
def addmulRest (p : Powers) (c : List UInt8) (accum : BitVec 128) : BitVec 128 :=
  let mj := c.length
  let bl (j : ℕ) := if j + 16 ≥ mj then mj - j else 16
  forUpTo 0 mj 16 (fun j accum => addmul accum (c.drop j) (bl j) p.Hv) accum

-- ---------------------------------------------------------------------------
-- Lengths and tags
-- ---------------------------------------------------------------------------

def bswap64 (x : BitVec 64) : BitVec 64 :=
  ofBits 64 fun i => x.getLsbD (8 * (7 - i / 8) + i % 8)

/-- A `uint64_t` in memory. -/
def bytes64 (x : BitVec 64) : List UInt8 :=
  (List.range 8).map fun i => ⟨x.extractLsb' (8 * i) 8⟩

/-- The block with the lengths in bits. -/
def fb (adlen mlen : ℕ) : List UInt8 :=
  bytes64 (bswap64 (BitVec.ofNat 64 (8 * adlen))) ++ bytes64 (bswap64 (BitVec.ofNat 64 (8 * mlen)))

/-- `n2` with the counter of the tag. -/
def tagVec (npub : List UInt8) : NVec := ⟨npub, 0x01000000⟩

/-- `n2` with the counter of the first block of the message. -/
def messageVec (npub : List UInt8) : NVec := ⟨npub, ((tagVec npub).n3 &&& 0x00ffffff) + 2⟩

-- ---------------------------------------------------------------------------
-- Encryption
-- ---------------------------------------------------------------------------

/-- What the loops over the message change. -/
structure Pass where
  n2 : NVec
  accum : BitVec 128
  out : List UInt8

def aesniEncrypt8full (rkeys : List (BitVec 128)) (p : Powers) (inp : List UInt8) (s : Pass) :
    Pass :=
  let nv := make8Nvx s.n2
  let temp := make8Temp nv.1 rkeys
  let temp := List.zipWith (· ^^^ ·) temp (make8Load inp)
  ⟨nv.2, mulreduce8 p temp s.accum, s.out ++ temp.flatMap mmStoreuSi128⟩

/-- `LOOPRND128` -/
def loopRnd128 (rkeys : List (BitVec 128)) (p : Powers) (m : List UInt8) (s : Pass) : Pass :=
  let mlenRnd128 := m.length / 128 * 128
  forUpTo 0 mlenRnd128 128 (fun i s => aesniEncrypt8full rkeys p (m.drop i) s) s

/-- The bytes of a part of at most 128 bytes, encrypted with eight blocks. -/
def xorRest (inp outni : List UInt8) : List UInt8 :=
  inp.mapIdx fun j b => b ^^^ outni.getD j 0

/-- `mj`, how many bytes of the part are left. -/
def partLength (mlen i : ℕ) : ℕ := if i + 128 ≥ mlen then mlen - i else 128

/-- A round of `LOOPRMD128` -/
def encryptRest (rkeys : List (BitVec 128)) (p : Powers) (m : List UInt8) (i : ℕ) (s : Pass) :
    Pass :=
  let r := aesniEncrypt8 s.n2 rkeys
  let c := xorRest ((m.drop i).take (partLength m.length i)) r.1
  ⟨r.2, addmulRest p c s.accum, s.out ++ c⟩

/-- `LOOPRMD128` -/
def loopRmd128 (rkeys : List (BitVec 128)) (p : Powers) (m : List UInt8) (s : Pass) : Pass :=
  let mlenRnd128 := m.length / 128 * 128
  forUpTo mlenRnd128 m.length 128 (encryptRest rkeys p m) s

/-- The last block, and `mac`. -/
def finish (p : Powers) (T : BitVec 128) (adlen mlen : ℕ) (accum : BitVec 128) : List UInt8 :=
  let accum := addmul accum (fb adlen mlen) 16 p.Hv
  (List.range 16).map fun i => byte T i ^^^ byte accum (15 - i)

/-- `crypto_aead_aes256gcm_encrypt_detached_afternm`, with the ciphertext and the tag. -/
def encryptDetachedAfternm (m ad npub : List UInt8) (ctx : Aes256gcmState) :
    Option (List UInt8 × List UInt8) :=
  if m.length > messagebytesMax then none
  else
    let T := aesniEncrypt1 (tagVec npub).load ctx.rkeys
    let p := powers ctx
    let accum := hashAd p ad
    let s := loopRnd128 ctx.rkeys p m ⟨messageVec npub, accum, []⟩
    let s := loopRmd128 ctx.rkeys p m s
    some (s.out, finish p T ad.length m.length s.accum)

/-- `crypto_aead_aes256gcm_encrypt_afternm` and `*clen_p` -/
def encryptAfternm (m ad npub : List UInt8) (ctx : Aes256gcmState) : Option (List UInt8 × ℕ) :=
  (encryptDetachedAfternm m ad npub ctx).map fun (c, mac) => (c ++ mac, m.length + 16)

-- ---------------------------------------------------------------------------
-- Decryption
-- ---------------------------------------------------------------------------

/-- `LOOPACCUMDRND128` and `LOOPACCUMDRMD128` -/
def loopAccum (p : Powers) (c : List UInt8) (accum : BitVec 128) : BitVec 128 :=
  let mlen := c.length
  let mlenRnd128 := mlen / 128 * 128
  let accum := forUpTo 0 mlenRnd128 128
    (fun i accum => aesniAddmul8full (c.drop i) accum p) accum
  forUpTo mlenRnd128 mlen 128
    (fun i accum => addmulRest p ((c.drop i).take (partLength mlen i)) accum) accum

/-- What the loops of the decryption change. -/
structure DecryptPass where
  n2 : NVec
  out : List UInt8

def aesniDecrypt8full (rkeys : List (BitVec 128)) (inp : List UInt8) (s : DecryptPass) :
    DecryptPass :=
  let nv := make8Nvx s.n2
  let temp := make8Temp nv.1 rkeys
  let temp := List.zipWith (· ^^^ ·) temp (make8Load inp)
  ⟨nv.2, s.out ++ temp.flatMap mmStoreuSi128⟩

/-- A round of `LOOPDRMD128` -/
def decryptRest (rkeys : List (BitVec 128)) (c : List UInt8) (i : ℕ) (s : DecryptPass) :
    DecryptPass :=
  let r := aesniEncrypt8 s.n2 rkeys
  ⟨r.2, s.out ++ xorRest ((c.drop i).take (partLength c.length i)) r.1⟩

/-- `LOOPDRND128` and `LOOPDRMD128` -/
def loopDecrypt (rkeys : List (BitVec 128)) (c : List UInt8) (s : DecryptPass) : DecryptPass :=
  let mlen := c.length
  let mlenRnd128 := mlen / 128 * 128
  let s := forUpTo 0 mlenRnd128 128 (fun i s => aesniDecrypt8full rkeys (c.drop i) s) s
  forUpTo mlenRnd128 mlen 128 (decryptRest rkeys c) s

/-- The difference of two tags, all bytes together. -/
def difference (mac mac' : List UInt8) : UInt8 :=
  (List.range 16).foldl (fun d i => d ||| (mac.getD i 0 ^^^ mac'.getD i 0)) 0

/-- `crypto_aead_aes256gcm_decrypt_detached_afternm`, with its return code and what the buffer
    `m` holds afterwards. The buffer may be `NULL`. -/
def decryptDetachedAfternm (m : Option (List UInt8)) (c mac ad npub : List UInt8)
    (ctx : Aes256gcmState) : Option (ℤ × Option (List UInt8)) :=
  if c.length > messagebytesMax then none
  else
    let mlen := c.length
    let T := aesniEncrypt1 (tagVec npub).load ctx.rkeys
    let p := powers ctx
    let accum := hashAd p ad
    let accum := loopAccum p c accum
    if difference mac (finish p T ad.length mlen accum) ≠ 0 then
      some (-1, m.map fun m => List.replicate mlen 0 ++ m.drop mlen)
    else
      match m with
      | none => some (0, none)
      | some m =>
        let n2 : NVec := ⟨npub, 0 + 2⟩
        let s := loopDecrypt ctx.rkeys c ⟨n2, []⟩
        some (0, some (s.out ++ m.drop mlen))

-- ---------------------------------------------------------------------------
-- The hash of the mode
-- ---------------------------------------------------------------------------

section Hash

/-- The key of the hash, as the mode has it. -/
def hashKey (key : List UInt8) : BitVec 128 := reverse (cipher key 0)

theorem powers_beforenm (key : List UInt8) : powers (beforenm key) =
    let h := hashKey key
    ⟨h, mulv h h, mulv (mulv h h) h, mulv (mulv (mulv h h) h) h⟩ := by
  have hH : mmShuffleEpi8 (beforenm key).H rev = hashKey key := by
    rw [mmShuffleEpi8_rev, hashKey, ← aesniEncrypt1_eq]
    rfl
  rw [powers, hH]

variable {h : BitVec 128} {p : Powers}
  (hp : p = ⟨h, mulv h h, mulv (mulv h h) h, mulv (mulv (mulv h h) h) h⟩)

include hp

theorem mulreduce4_powers (X0 X1 X2 X3 accv : BitVec 128) : p.mulreduce4 X0 X1 X2 X3 accv =
    ghash h accv [reverse X3, reverse X2, reverse X1, reverse X0] := by
  rw [hp, Powers.mulreduce4, mulreduce4_ghash]

theorem mulreduce8_powers (temp : List (BitVec 128)) (accv : BitVec 128) :
    mulreduce8 p temp accv =
      ghash h accv ((List.range 8).map fun a => reverse (temp.getD a 0)) := by
  rw [mulreduce8, mulreduce4_powers hp, mulreduce4_powers hp, ← ghash_append]
  rfl

/-- A block at a time. -/
theorem forUpTo_addmul {bs : List UInt8} {start : ℕ} (bl : ℕ → ℕ) (hstart : 16 ∣ start)
    (hle : start ≤ bs.length) (hbl : ∀ i < bs.length, bl i = min 16 (bs.length - i))
    (y : BitVec 128) :
    forUpTo start bs.length 16 (fun i accum => addmul accum (bs.drop i) (bl i) p.Hv)
      (ghash h y (blocks (bs.take start))) = ghash h y (blocks bs) := by
  have hloop := forUpTo_induct start bs.length 16
    (fun i accum => addmul accum (bs.drop i) (bl i) p.Hv)
    (s := ghash h y (blocks (bs.take start)))
    (P := fun k accum => accum = ghash h y (blocks (bs.take (start + 16 * k)))) rfl ?_
  · rw [hloop, List.take_of_length_le]
    rw [rounds]
    omega
  · intro k accum hk hacc
    have hblock : (bs.drop (start + 16 * k)).take (bl (start + 16 * k)) =
        (bs.drop (start + 16 * k)).take 16 := by
      rw [hbl _ hk, ← List.length_drop, List.take_eq_take_iff]
      simp
    have hlength : ((bs.drop (start + 16 * k)).take 16).length =
        min 16 (bs.length - (start + 16 * k)) := by
      rw [List.length_take, List.length_drop]
    have hi : 16 ∣ start + 16 * k := Dvd.dvd.add hstart (Nat.dvd_mul_right 16 k)
    have hone : blocks ((bs.drop (start + 16 * k)).take 16) =
        [block ((bs.drop (start + 16 * k)).take 16)] :=
      blocks_of_length_le (by omega) (by omega)
    rw [hacc, addmul_eq, hblock, hp, show start + 16 * (k + 1) = start + 16 * k + 16 by omega,
      blocks_take_add hi hk.le, ghash_append, hone, ghash_cons, ghash_nil]

theorem addmul4_eq {ad : List UInt8} {i : ℕ} (hi : i + 64 ≤ ad.length) (accv : BitVec 128) :
    addmul4 p ad i accv = ghash h accv (blocks ((ad.drop i).take 64)) := by
  have hdrop (n : ℕ) : reverse (mmLoaduSi128 (ad.drop (i + n))) = block ((ad.drop i).drop n) := by
    rw [reverse_mmLoaduSi128, List.drop_drop]
  have hfour : blocks ((ad.drop i).take (16 * 4)) = (List.range 4).map fun k =>
      block ((ad.drop i).drop (16 * k)) :=
    blocks_take_mul (by rw [List.length_drop]; omega)
  rw [addmul4, mulreduce4_powers hp, hdrop, hdrop, hdrop, hdrop, hfour]
  rfl

theorem hashAd_eq (ad : List UInt8) : hashAd p ad = ghash h 0 (blocks ad) := by
  have hloop : forUpTo 0 (0 + 64 * (ad.length / 64)) 64 (addmul4 p ad) 0 =
      ghash h 0 (blocks (ad.take (64 * (ad.length / 64)))) := by
    have hsteps := forUpTo_induct 0 (0 + 64 * (ad.length / 64)) 64 (addmul4 p ad) (s := 0)
      (P := fun k accv => accv = ghash h 0 (blocks (ad.take (64 * k)))) (by simp) ?_
    · rwa [rounds_of_dvd (by omega)] at hsteps
    · intro k accv hk hacc
      rw [addmul4_eq hp (by omega), hacc, Nat.zero_add, Nat.mul_add, Nat.mul_one,
        blocks_take_add (by omega) (by omega), ghash_append]
  rw [hashAd, show ad.length / 64 * 64 = 0 + 64 * (ad.length / 64) by omega, hloop]
  rw [Nat.zero_add]
  exact forUpTo_addmul hp _ (by omega) (by omega) (fun i hi => by split <;> omega) 0

theorem addmulRest_eq (c : List UInt8) (accum : BitVec 128) :
    addmulRest p c accum = ghash h accum (blocks c) := by
  have hloop := forUpTo_addmul hp (fun j => if j + 16 ≥ c.length then c.length - j else 16)
    (Nat.dvd_zero 16) (Nat.zero_le c.length) (fun i hi => by split <;> omega) accum
  rw [List.take_zero, blocks_nil, ghash_nil] at hloop
  exact hloop

end Hash

-- ---------------------------------------------------------------------------
-- Eight blocks
-- ---------------------------------------------------------------------------

section Eight

theorem blocks_flatMap_mmStoreuSi128 (as : List (BitVec 128)) :
    blocks (as.flatMap mmStoreuSi128) = as.map reverse := by
  induction as with
  | nil => rfl
  | cons a as ih =>
      have hone : blocks (mmStoreuSi128 a) = [reverse a] := by
        rw [blocks_of_length_le (by simp) (by simp), ← reverse_mmLoaduSi128,
          mmLoaduSi128_mmStoreuSi128]
      rw [List.flatMap_cons, blocks_append (by simp), hone, ih]
      rfl

/-- The blocks of the keystream, and the input that they are added to. -/
theorem xored_eq (key : List UInt8) (n : NVec) (inp : List UInt8) :
    List.zipWith (· ^^^ ·) (make8Temp (make8Nvx n).1 (aesniKey256Expand key)) (make8Load inp) =
      (List.range 8).map fun a =>
        cipher key (counterBlock n.npub (n.n3 + BitVec.ofNat 32 a)) ^^^
          mmLoaduSi128 (inp.drop (a * 16)) := by
  rw [temps_eq, make8Load, List.zipWith_map, List.zipWith_self]

theorem flatMap_xored {inp : List UInt8} (h : 128 ≤ inp.length) (key : List UInt8) (n : NVec) :
    (List.zipWith (· ^^^ ·) (make8Temp (make8Nvx n).1 (aesniKey256Expand key))
      (make8Load inp)).flatMap mmStoreuSi128 =
      gctr (cipher key) n.npub n.n3 (inp.take 128) := by
  rw [xored_eq]
  refine List.ext_getElem ?_ fun j hj hj' => ?_
  · rw [length_flatMap_mmStoreuSi128, length_gctr, List.length_take, Nat.min_eq_left h]
    rfl
  · have hlt : j < 128 := by
      rw [length_gctr, List.length_take] at hj'
      omega
    rw [← List.getD_eq_getElem _ 0 hj, getD_flatMap_mmStoreuSi128 _ hlt, List.getD_eq_getElem?_getD,
      List.getElem?_map, List.getElem?_range (by omega), Option.map_some, Option.getD_some,
      byte_xor, byte_mmLoaduSi128 _ (by omega), List.getD_eq_getElem?_getD, List.getElem?_drop,
      show j / 16 * 16 + j % 16 = j by omega, List.getElem?_eq_getElem (by omega),
      Option.getD_some, UInt8.xor_comm]
    simp only [gctr, List.getElem_mapIdx, List.getElem_take, keystream]

theorem mulreduce8_map {h : BitVec 128} {p : Powers}
    (hp : p = ⟨h, mulv h h, mulv (mulv h h) h, mulv (mulv (mulv h h) h) h⟩)
    {temp : List (BitVec 128)} (htemp : temp.length = 8) (accv : BitVec 128) :
    mulreduce8 p temp accv = ghash h accv (blocks (temp.flatMap mmStoreuSi128)) := by
  rw [mulreduce8_powers hp, blocks_flatMap_mmStoreuSi128]
  refine congrArg (ghash h accv) (List.ext_getElem (by simp [htemp]) fun a ha ha' => ?_)
  rw [List.length_map] at ha'
  simp [List.getD_eq_getElem?_getD, ha']

end Eight

-- ---------------------------------------------------------------------------
-- The loops over a text
-- ---------------------------------------------------------------------------

section Text

variable {key npub text : List UInt8} {n : ℕ}

/-- After `n` bytes the counter has gone on by as many blocks, and the output is the one of
    counter mode. -/
structure Streamed (key npub text : List UInt8) (n : ℕ) (n2 : NVec) (out : List UInt8) : Prop where
  n2 : n2 = ⟨npub, 2 + BitVec.ofNat 32 (n / 16)⟩
  out : out = gctr (cipher key) npub 2 (text.take n)

theorem Streamed.start (key npub text : List UInt8) : Streamed key npub text 0 ⟨npub, 2⟩ [] :=
  ⟨rfl, rfl⟩

theorem Streamed.length_out {n2 : NVec} {out : List UInt8} (h : Streamed key npub text n n2 out)
    (hn : n ≤ text.length) : out.length = n := by
  rw [h.out, length_gctr, List.length_take, Nat.min_eq_left hn]

/-- Eight counter blocks and at most 128 bytes further. -/
theorem Streamed.advance {n2 : NVec} {out : List UInt8} (h : Streamed key npub text n n2 out)
    (hdvd : 16 ∣ n) (hn : n ≤ text.length) :
    Streamed key npub text (n + 128) ⟨n2.npub, n2.n3 + 8⟩
      (out ++ gctr (cipher key) n2.npub n2.n3 ((text.drop n).take 128)) := by
  obtain ⟨k, rfl⟩ := hdvd
  have hlength : (text.take (16 * k)).length = 16 * k := by
    rw [List.length_take, Nat.min_eq_left hn]
  have hcount : (2 : BitVec 32) + BitVec.ofNat 32 k + 8 = 2 + BitVec.ofNat 32 (k + 8) := by
    rw [BitVec.ofNat_add, ← BitVec.add_assoc]
    rfl
  rw [h.n2, h.out, Nat.mul_div_cancel_left k (by omega)]
  refine ⟨?_, ?_⟩
  · rw [show (16 * k + 128) / 16 = k + 8 by omega, ← hcount]
  · rw [List.take_add, gctr_append _ _ _ hlength]

/-- What the slower loop gets from its eight blocks. -/
theorem xorRest_eq (inp key : List UInt8) (n2 : NVec) (h : inp.length ≤ 128) :
    xorRest inp (aesniEncrypt8 n2 (aesniKey256Expand key)).1 =
      gctr (cipher key) n2.npub n2.n3 inp := by
  refine List.ext_getElem (by simp [xorRest]) fun j hj _ => ?_
  have hj : j < 128 := by
    simp only [xorRest, List.length_mapIdx] at hj
    omega
  simp only [xorRest, gctr, List.getElem_mapIdx, getD_aesniEncrypt8 n2 key hj]

theorem take_partLength {i : ℕ} (hi : i < text.length) :
    (text.drop i).take (partLength text.length i) = (text.drop i).take 128 := by
  rw [partLength]
  split
  · rw [← List.length_drop, List.take_length, List.take_of_length_le]
    rw [List.length_drop]
    omega
  · rfl

theorem length_part_le {i : ℕ} : ((text.drop i).take 128).length ≤ 128 := by
  rw [List.length_take]
  omega

/-- How far the slower loop gets. -/
theorem le_rounds (start stop : ℕ) : stop ≤ start + 128 * rounds start stop 128 := by
  rw [rounds]
  omega

-- ---------------------------------------------------------------------------
-- Encryption
-- ---------------------------------------------------------------------------

section Encrypt

variable {h y : BitVec 128} {p : Powers}
  (hp : p = ⟨h, mulv h h, mulv (mulv h h) h, mulv (mulv (mulv h h) h) h⟩)

/-- Besides, the output has been hashed. -/
structure Encrypted (key npub m : List UInt8) (h y : BitVec 128) (n : ℕ) (s : Pass) : Prop where
  streamed : Streamed key npub m n s.n2 s.out
  accum : s.accum = ghash h y (blocks s.out)

theorem Encrypted.advance {s : Pass} (hs : Encrypted key npub text h y n s) (hdvd : 16 ∣ n)
    (hn : n ≤ text.length) :
    let c := gctr (cipher key) s.n2.npub s.n2.n3 ((text.drop n).take 128)
    Encrypted key npub text h y (n + 128)
      ⟨⟨s.n2.npub, s.n2.n3 + 8⟩, ghash h s.accum (blocks c), s.out ++ c⟩ := by
  refine ⟨hs.streamed.advance hdvd hn, ?_⟩
  rw [blocks_append (by rwa [hs.streamed.length_out hn]), ghash_append, ← hs.accum]

include hp

theorem Encrypted.encrypt8full {s : Pass} (hs : Encrypted key npub text h y n s) (hdvd : 16 ∣ n)
    (hn : n + 128 ≤ text.length) : Encrypted key npub text h y (n + 128)
      (aesniEncrypt8full (aesniKey256Expand key) p (text.drop n) s) := by
  have hlength : 128 ≤ (text.drop n).length := by
    rw [List.length_drop]
    omega
  have htemp : (List.zipWith (· ^^^ ·) (make8Temp (make8Nvx s.n2).1 (aesniKey256Expand key))
      (make8Load (text.drop n))).length = 8 := by
    rw [xored_eq, List.length_map, List.length_range]
  have hnext : (make8Nvx s.n2).2 = ⟨s.n2.npub, s.n2.n3 + 8⟩ := by rw [make8Nvx_eq]
  rw [aesniEncrypt8full, mulreduce8_map hp htemp, flatMap_xored hlength, hnext]
  exact hs.advance hdvd (by omega)

theorem Encrypted.rest {s : Pass} (hs : Encrypted key npub text h y n s) (hdvd : 16 ∣ n)
    (hn : n < text.length) : Encrypted key npub text h y (n + 128)
      (encryptRest (aesniKey256Expand key) p text n s) := by
  rw [encryptRest, take_partLength hn, xorRest_eq _ _ _ length_part_le, addmulRest_eq hp,
    aesniEncrypt8_snd]
  exact hs.advance hdvd hn.le

/-- The loops encrypt and hash the whole message. -/
theorem Encrypted.loops (key npub m : List UInt8) (y : BitVec 128) :
    let rkeys := aesniKey256Expand key
    let s := loopRmd128 rkeys p m (loopRnd128 rkeys p m ⟨⟨npub, 2⟩, y, []⟩)
    s.out = gctr (cipher key) npub 2 m ∧ s.accum = ghash h y (blocks s.out) := by
  have hstart : Encrypted key npub m h y 0 ⟨⟨npub, 2⟩, y, []⟩ :=
    ⟨Streamed.start key npub m, by rw [blocks_nil, ghash_nil]⟩
  have hfull := forUpTo_induct 0 (0 + 128 * (m.length / 128)) 128
    (fun i s => aesniEncrypt8full (aesniKey256Expand key) p (m.drop i) s)
    (P := fun k s => Encrypted key npub m h y (0 + 128 * k) s) hstart
    fun k s hk hs => hs.encrypt8full hp (by omega) (by omega)
  have hrest := forUpTo_induct (0 + 128 * (m.length / 128)) m.length 128
    (encryptRest (aesniKey256Expand key) p m)
    (P := fun k s => Encrypted key npub m h y (0 + 128 * (m.length / 128) + 128 * k) s)
    (by rwa [rounds_of_dvd (by omega)] at hfull)
    fun k s hk hs => hs.rest hp (by omega) hk
  have hall := hrest.streamed.out
  rw [List.take_of_length_le (le_rounds _ _)] at hall
  simp only [loopRmd128, loopRnd128,
    show m.length / 128 * 128 = 0 + 128 * (m.length / 128) by omega]
  exact ⟨hall, hrest.accum⟩

end Encrypt

-- ---------------------------------------------------------------------------
-- Decryption
-- ---------------------------------------------------------------------------

theorem Streamed.decrypt8full {s : DecryptPass} (hs : Streamed key npub text n s.n2 s.out)
    (hdvd : 16 ∣ n) (hn : n + 128 ≤ text.length) :
    let s' := aesniDecrypt8full (aesniKey256Expand key) (text.drop n) s
    Streamed key npub text (n + 128) s'.n2 s'.out := by
  have hlength : 128 ≤ (text.drop n).length := by
    rw [List.length_drop]
    omega
  have hnext : (make8Nvx s.n2).2 = ⟨s.n2.npub, s.n2.n3 + 8⟩ := by rw [make8Nvx_eq]
  simp only [aesniDecrypt8full, flatMap_xored hlength, hnext]
  exact hs.advance hdvd (by omega)

theorem Streamed.decryptRest {s : DecryptPass} (hs : Streamed key npub text n s.n2 s.out)
    (hdvd : 16 ∣ n) (hn : n < text.length) :
    let s' := Aesni.decryptRest (aesniKey256Expand key) text n s
    Streamed key npub text (n + 128) s'.n2 s'.out := by
  simp only [Aesni.decryptRest, take_partLength hn, xorRest_eq _ _ _ length_part_le,
    aesniEncrypt8_snd]
  exact hs.advance hdvd hn.le

theorem loopDecrypt_eq (key npub c : List UInt8) :
    (loopDecrypt (aesniKey256Expand key) c ⟨⟨npub, 2⟩, []⟩).out = gctr (cipher key) npub 2 c := by
  have hfull := forUpTo_induct 0 (0 + 128 * (c.length / 128)) 128
    (fun i s => aesniDecrypt8full (aesniKey256Expand key) (c.drop i) s)
    (P := fun k s => Streamed key npub c (0 + 128 * k) s.n2 s.out)
    (s := ⟨⟨npub, 2⟩, []⟩) (Streamed.start key npub c)
    fun k s hk hs => hs.decrypt8full (by omega) (by omega)
  have hrest := forUpTo_induct (0 + 128 * (c.length / 128)) c.length 128
    (Aesni.decryptRest (aesniKey256Expand key) c)
    (P := fun k s => Streamed key npub c (0 + 128 * (c.length / 128) + 128 * k) s.n2 s.out)
    (by rwa [rounds_of_dvd (by omega)] at hfull)
    fun k s hk hs => hs.decryptRest (by omega) hk
  have hall := hrest.out
  rw [List.take_of_length_le (le_rounds _ _)] at hall
  simp only [loopDecrypt, show c.length / 128 * 128 = 0 + 128 * (c.length / 128) by omega]
  exact hall

section Accum

variable {h : BitVec 128} {p : Powers}
  (hp : p = ⟨h, mulv h h, mulv (mulv h h) h, mulv (mulv (mulv h h) h) h⟩)

include hp

theorem aesniAddmul8full_eq {inp : List UInt8} (hlength : 128 ≤ inp.length) (accum : BitVec 128) :
    aesniAddmul8full inp accum p = ghash h accum (blocks (inp.take 128)) := by
  have height : blocks (inp.take (16 * 8)) =
      (List.range 8).map fun a => block (inp.drop (16 * a)) :=
    blocks_take_mul (by omega)
  rw [aesniAddmul8full, mulreduce8_powers hp, height]
  refine congrArg (ghash h accum) (List.map_congr_left fun a ha => ?_)
  rw [make8Load, List.getD_eq_getElem?_getD, List.getElem?_map,
    List.getElem?_range (List.mem_range.mp ha), Option.map_some, Option.getD_some,
    reverse_mmLoaduSi128, Nat.mul_comm]

theorem loopAccum_eq (c : List UInt8) (y : BitVec 128) :
    loopAccum p c y = ghash h y (blocks c) := by
  have hnext {i : ℕ} (hdvd : 16 ∣ i) (hi : i ≤ c.length) {accum : BitVec 128}
      (hacc : accum = ghash h y (blocks (c.take i))) :
      ghash h accum (blocks ((c.drop i).take 128)) = ghash h y (blocks (c.take (i + 128))) := by
    rw [hacc, blocks_take_add hdvd hi, ghash_append]
  have hfull := forUpTo_induct 0 (0 + 128 * (c.length / 128)) 128
    (fun i accum => aesniAddmul8full (c.drop i) accum p) (s := y)
    (P := fun k accum => accum = ghash h y (blocks (c.take (0 + 128 * k)))) (by simp)
    fun k accum hk hacc => by
      rw [aesniAddmul8full_eq hp (by rw [List.length_drop]; omega),
        hnext (by omega) (by omega) hacc, Nat.add_assoc, Nat.mul_add, Nat.mul_one]
  rw [rounds_of_dvd (by omega)] at hfull
  have hrest := forUpTo_induct (0 + 128 * (c.length / 128)) c.length 128
    (fun i accum => addmulRest p ((c.drop i).take (partLength c.length i)) accum)
    (s := forUpTo 0 (0 + 128 * (c.length / 128)) 128
      (fun i accum => aesniAddmul8full (c.drop i) accum p) y)
    (P := fun k accum =>
      accum = ghash h y (blocks (c.take (0 + 128 * (c.length / 128) + 128 * k)))) hfull
    fun k accum hk hacc => by
      rw [addmulRest_eq hp, take_partLength hk, hnext (by omega) hk.le hacc, Nat.add_assoc _ _ 128,
        Nat.mul_add 128 k, Nat.mul_one]
  rw [List.take_of_length_le (le_rounds _ _)] at hrest
  simp only [loopAccum, show c.length / 128 * 128 = 0 + 128 * (c.length / 128) by omega]
  exact hrest

end Accum

-- ---------------------------------------------------------------------------
-- Tags
-- ---------------------------------------------------------------------------

theorem getD_bytes64_bswap64 (x : BitVec 64) {j : ℕ} (hj : j < 8) :
    (bytes64 (bswap64 x)).getD j 0 = ⟨x.extractLsb' (8 * (7 - j)) 8⟩ := by
  have hbyte : (bswap64 x).extractLsb' (8 * j) 8 = x.extractLsb' (8 * (7 - j)) 8 := by
    refine BitVec.eq_of_getLsbD_eq fun i hi => ?_
    rw [BitVec.getLsbD_extractLsb', bswap64, getLsbD_ofBits, BitVec.getLsbD_extractLsb',
      show (8 * j + i) / 8 = j by omega, show (8 * j + i) % 8 = i by omega]
    simp [hi, show 8 * j + i < 64 by omega]
  rw [bytes64, List.getD_eq_getElem?_getD, List.getElem?_map, List.getElem?_range hj,
    Option.map_some, Option.getD_some, hbyte]

theorem length_bytes64 (x : BitVec 64) : (bytes64 x).length = 8 := by
  simp [bytes64]

theorem block_fb (adlen mlen : ℕ) : block (fb adlen mlen) = lengthBlock adlen mlen := by
  refine eq_of_byte_eq fun i hi => ?_
  have hlow (a b : BitVec 64) (hi : i < 8) : (a ++ b : BitVec 128).extractLsb' (8 * i) 8 =
      b.extractLsb' (8 * (7 - (7 - i))) 8 := by
    refine BitVec.eq_of_getLsbD_eq fun j hj => ?_
    rw [BitVec.getLsbD_extractLsb', BitVec.getLsbD_append, BitVec.getLsbD_extractLsb',
      if_pos (by omega), show 7 - (7 - i) = i by omega]
  have hhigh (a b : BitVec 64) (hi' : 8 ≤ i) : (a ++ b : BitVec 128).extractLsb' (8 * i) 8 =
      a.extractLsb' (8 * (7 - (15 - i))) 8 := by
    refine BitVec.eq_of_getLsbD_eq fun j hj => ?_
    rw [BitVec.getLsbD_extractLsb', BitVec.getLsbD_append, BitVec.getLsbD_extractLsb',
      if_neg (by omega), show 8 * (7 - (15 - i)) + j = 8 * i + j - 64 by omega]
  rw [block, byte_ofBytes _ hi, fb, lengthBlock, byte]
  obtain hlt | hge := Nat.lt_or_ge i 8
  · rw [hlow _ _ hlt, List.getD_append_right _ _ _ _ (by rw [length_bytes64]; omega),
      length_bytes64, show 15 - i - 8 = 7 - i by omega, getD_bytes64_bswap64 _ (by omega)]
  · rw [hhigh _ _ hge, List.getD_append _ _ _ _ (by rw [length_bytes64]; omega),
      getD_bytes64_bswap64 _ (by omega)]

theorem finish_eq {h : BitVec 128} {p : Powers} (hp : p.Hv = h) (T : BitVec 128) (adlen mlen : ℕ)
    (accum : BitVec 128) : finish p T adlen mlen accum =
      mmStoreuSi128 (reverse (ghash h accum [lengthBlock adlen mlen]) ^^^ T) := by
  have hfb : (fb adlen mlen).take 16 = fb adlen mlen := by
    refine List.take_of_length_le ?_
    rw [fb, List.length_append, length_bytes64, length_bytes64]
  rw [finish, addmul_eq, hfb, block_fb, hp, ghash_cons, ghash_nil, mmStoreuSi128]
  refine List.map_congr_left fun i hi => ?_
  rw [byte_xor, byte_reverse _ (List.mem_range.mp hi), UInt8.xor_comm]

end Text

-- ---------------------------------------------------------------------------
-- The mode
-- ---------------------------------------------------------------------------

section Mode

variable (key npub : List UInt8)

/-- The mask and the increment take the counter from one to two, past the block of the tag. -/
theorem messageVec_eq : messageVec npub = ⟨npub, 2⟩ := by
  have hcount : ((0x01000000 : BitVec 32) &&& 0x00ffffff) + 2 = 2 := by decide
  rw [messageVec, tagVec, hcount]

/-- The block that the tag is encrypted with. -/
theorem encrypt1_tagVec : aesniEncrypt1 (tagVec npub).load (aesniKey256Expand key) =
    cipher key (counterBlock npub 1) := by
  rw [tagVec, load_one, aesniEncrypt1_eq]

theorem encryptDetachedAfternm_eq (m ad : List UInt8) :
    encryptDetachedAfternm m ad npub (beforenm key) =
      if m.length > messagebytesMax then none
      else some (Gcm.encrypt (cipher key) npub ad m) := by
  have hp := powers_beforenm key
  obtain ⟨hout, haccum⟩ := Encrypted.loops hp key npub m (ghash (hashKey key) 0 (blocks ad))
  have hrkeys : (beforenm key).rkeys = aesniKey256Expand key := rfl
  have htag : finish (powers (beforenm key)) (cipher key (counterBlock npub 1)) ad.length m.length
      (ghash (hashKey key) (ghash (hashKey key) 0 (blocks ad))
        (blocks (gctr (cipher key) npub 2 m))) =
      tag (cipher key) npub ad (gctr (cipher key) npub 2 m) := by
    rw [finish_eq (h := hashKey key) (by rw [hp]), tag, length_gctr, ghash_append, ghash_append]
    rfl
  rw [encryptDetachedAfternm]
  simp only [hashAd_eq hp, messageVec_eq, encrypt1_tagVec, hrkeys, haccum, hout, htag]
  rfl

/-- The bytes of two tags differ in no bit. -/
theorem difference_eq_zero_iff {mac mac' : List UInt8} (h : mac.length = 16)
    (h' : mac'.length = 16) : difference mac mac' = 0 ↔ mac = mac' := by
  have hsteps (k : ℕ) : (List.range k).foldl
      (fun d i => d ||| (mac.getD i 0 ^^^ mac'.getD i 0)) (0 : UInt8) = 0 ↔
        ∀ i < k, mac.getD i 0 = mac'.getD i 0 := by
    induction k with
    | zero => simp
    | succ k ih =>
        rw [List.range_succ, List.foldl_append, List.foldl_cons, List.foldl_nil,
          UInt8.or_eq_zero_iff, ih, UInt8.xor_eq_zero_iff]
        constructor
        · rintro ⟨hall, hlast⟩ i hi
          obtain hlt | rfl := Nat.lt_or_eq_of_le (Nat.le_of_lt_succ hi)
          · exact hall i hlt
          · exact hlast
        · intro hall
          exact ⟨fun i hi => hall i (by omega), hall k (by omega)⟩
  rw [difference, hsteps 16]
  constructor
  · intro hall
    refine List.ext_getElem (by omega) fun i hi hi' => ?_
    rw [← List.getD_eq_getElem _ 0 hi, ← List.getD_eq_getElem _ 0 hi']
    exact hall i (by omega)
  · rintro rfl i _
    rfl

theorem decryptDetachedAfternm_eq (buffer : Option (List UInt8)) (c ad : List UInt8)
    {mac : List UInt8} (h : mac.length = 16) :
    decryptDetachedAfternm buffer c mac ad npub (beforenm key) =
      if c.length > messagebytesMax then none
      else some (match Gcm.decrypt (cipher key) npub ad c mac with
        | some m => (0, buffer.map fun b => m ++ b.drop c.length)
        | none => (-1, buffer.map fun b => List.replicate c.length 0 ++ b.drop c.length)) := by
  have hp := powers_beforenm key
  have hrkeys : (beforenm key).rkeys = aesniKey256Expand key := rfl
  have htag : finish (powers (beforenm key)) (cipher key (counterBlock npub 1)) ad.length c.length
      (ghash (hashKey key) (ghash (hashKey key) 0 (blocks ad)) (blocks c)) =
      tag (cipher key) npub ad c := by
    rw [finish_eq (h := hashKey key) (by rw [hp]), tag, ghash_append, ghash_append]
    rfl
  have hcompare : difference mac (tag (cipher key) npub ad c) ≠ 0 ↔
      mac ≠ tag (cipher key) npub ad c := by
    rw [ne_eq, difference_eq_zero_iff h (length_tag ..)]
  have hn2 : (⟨npub, 0 + 2⟩ : NVec) = ⟨npub, 2⟩ := rfl
  rw [decryptDetachedAfternm]
  simp only [hashAd_eq hp, encrypt1_tagVec, loopAccum_eq hp, htag, hcompare, hrkeys, hn2,
    loopDecrypt_eq]
  refine if_congr Iff.rfl rfl ?_
  rw [Gcm.decrypt]
  by_cases hmac : mac = tag (cipher key) npub ad c
  · rw [if_neg (not_not.mpr hmac), if_pos hmac]
    cases buffer <;> rfl
  · rw [if_pos hmac, if_neg hmac]

end Mode

end TriHaRd.Aesni
