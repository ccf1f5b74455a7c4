-- SUMMARY: The multiplications of the vendored AES-GCM, alone and four at a time, as GHASH.
import TriHaRd.Base.Gcm

/-!
# Multiplication with carry-less instructions

`mulv` multiplies two registers, `addmul` adds a block to the hash and multiplies, and
`MULREDUCE4` does that for four blocks with one reduction. The hash and the powers of the key
are kept with their bytes reversed. Arrays of sixteen bytes that are only loaded and stored
whole (`H`, `accum`) are registers here.
-/

namespace TriHaRd.Aesni

open Simd CarryLess Gcm

/-- The mask that reverses the bytes. -/
def rev : BitVec 128 := mmSetEpi8 [0, 1, 2, 3, 4, 5, 6, 7, 8, 9, 10, 11, 12, 13, 14, 15]

/-- The instructions that reduce a product, from the shift by one bit on. They are the same in
    `addmul`, `mulv` and `MULREDUCE4`. -/
def mulReduction (tmp15 tmp17 : BitVec 128) : BitVec 128 :=
  let tmp7 := mmSrliEpi32 tmp15 31
  let tmp8 := mmSrliEpi32 tmp17 31
  let tmp16 := mmSlliEpi32 tmp15 1
  let tmp18 := mmSlliEpi32 tmp17 1
  let tmp9 := mmSrliSi128 tmp7 12
  let tmp22 := mmSlliSi128 tmp8 4
  let tmp25 := mmSlliSi128 tmp7 4
  let tmp29 := tmp16 ||| tmp25
  let tmp19 := tmp18 ||| tmp22
  let tmp20 := tmp19 ||| tmp9
  let tmp26 := mmSlliEpi32 tmp29 31
  let tmp23 := mmSlliEpi32 tmp29 30
  let tmp32 := mmSlliEpi32 tmp29 25
  let tmp27 := tmp26 ^^^ tmp23
  let tmp28 := tmp27 ^^^ tmp32
  let tmp24 := mmSrliSi128 tmp28 4
  let tmp33 := mmSlliSi128 tmp28 12
  let tmp30 := tmp29 ^^^ tmp33
  let tmp2 := mmSrliEpi32 tmp30 1
  let tmp12 := mmSrliEpi32 tmp30 2
  let tmp14 := mmSrliEpi32 tmp30 7
  let tmp34 := tmp2 ^^^ tmp12
  let tmp35 := tmp34 ^^^ tmp14
  let tmp36 := tmp35 ^^^ tmp24
  let tmp31 := tmp30 ^^^ tmp36
  tmp20 ^^^ tmp31

def mulv (A B : BitVec 128) : BitVec 128 :=
  let tmp3 := mmClmulepi64Si128 A B 0x00
  let tmp4 := mmClmulepi64Si128 A B 0x10
  let tmp5 := mmClmulepi64Si128 A B 0x01
  let tmp6 := mmClmulepi64Si128 A B 0x11
  let tmp10 := tmp4 ^^^ tmp5
  let tmp13 := mmSlliSi128 tmp10 8
  let tmp11 := mmSrliSi128 tmp10 8
  let tmp15 := tmp3 ^^^ tmp13
  let tmp17 := tmp6 ^^^ tmp11
  mulReduction tmp15 tmp17

/-- From the product on, its instructions are those of `mulv`. -/
def addmul (c : BitVec 128) (a : List UInt8) (xlen : ℕ) (b : BitVec 128) : BitVec 128 :=
  let A :=
    if xlen ≥ 16 then mmLoaduSi128 a
    else
      let padded := a.take xlen ++ List.replicate (16 - xlen) 0
      mmLoaduSi128 padded
  let A := mmShuffleEpi8 A rev
  let A := A ^^^ c
  mulv A b

def redMulLow (H X : BitVec 128) : BitVec 128 := mmClmulepi64Si128 H X 0x00

def redMulHigh (H X : BitVec 128) : BitVec 128 := mmClmulepi64Si128 H X 0x11

def redMulMid (H X : BitVec 128) : BitVec 128 :=
  let tmp := mmShuffleEpi32 H 0x4e
  let tmpB := mmShuffleEpi32 X 0x4e
  let tmp := tmp ^^^ H
  let tmpB := tmpB ^^^ X
  mmClmulepi64Si128 tmp tmpB 0x00

/-- `MULREDUCE4`, the new `accv` -/
def mulreduce4 (rev H0 H1 H2 H3 X0 X1 X2 X3 accv : BitVec 128) : BitVec 128 :=
  let X0 := mmShuffleEpi8 X0 rev
  let X1 := mmShuffleEpi8 X1 rev
  let X2 := mmShuffleEpi8 X2 rev
  let X3 := mmShuffleEpi8 X3 rev
  let X3 := X3 ^^^ accv
  let lo := redMulLow H0 X0 ^^^ redMulLow H1 X1
  let lo := lo ^^^ redMulLow H2 X2
  let lo := lo ^^^ redMulLow H3 X3
  let hi := redMulHigh H0 X0 ^^^ redMulHigh H1 X1
  let hi := hi ^^^ redMulHigh H2 X2
  let hi := hi ^^^ redMulHigh H3 X3
  -- the middle products, with one multiplication each
  let tmp0 := redMulMid H0 X0 ^^^ lo
  let tmp0 := tmp0 ^^^ hi
  let tmp0 := redMulMid H1 X1 ^^^ tmp0
  let tmp0 := redMulMid H2 X2 ^^^ tmp0
  let tmp0 := redMulMid H3 X3 ^^^ tmp0
  let tmp0B := mmSlliSi128 tmp0 8
  let tmp0 := mmSrliSi128 tmp0 8
  let lo := tmp0B ^^^ lo
  let hi := tmp0 ^^^ hi
  mulReduction lo hi

-- ---------------------------------------------------------------------------
-- The reduction
-- ---------------------------------------------------------------------------

theorem mmShuffleEpi8_rev (a : BitVec 128) : mmShuffleEpi8 a rev = reverse a := by
  rw [rev, mmShuffleEpi8_mmSetEpi8 a _ (by decide)]
  refine eq_of_byte_eq fun i hi => ?_
  have hmask : ([0, 1, 2, 3, 4, 5, 6, 7, 8, 9, 10, 11, 12, 13, 14, 15].reverse.getD i
      (0 : UInt8)).toNat = 15 - i := by
    revert i
    decide
  rw [byte_ofBytes _ hi, byte_reverse _ hi, hmask]

/-- The lanes are shifted so that the bits that leave one are put into the next. -/
theorem mulReduction_eq (lo hi : BitVec 128) :
    mulReduction lo hi = reduce ((hi <<< 1) ||| (lo >>> 127)) (lo <<< 1) := by
  obtain ⟨e, he⟩ : ∃ e, e = lo <<< 1 := ⟨_, rfl⟩
  obtain ⟨t, ht⟩ : ∃ t, t = mmSlliEpi32 e 31 ^^^ mmSlliEpi32 e 30 ^^^ mmSlliEpi32 e 25 := ⟨_, rfl⟩
  obtain ⟨f, hf⟩ : ∃ f, f = e ^^^ mmSlliSi128 t 12 := ⟨_, rfl⟩
  have htop : mmSlliSi128 t 12 = (e <<< 127) ^^^ (e <<< 126) ^^^ (e <<< 121) := by
    rw [ht, mmSlliSi128_xor, mmSlliSi128_xor, slli_to_top, slli_to_top, slli_to_top]
  -- the bits at the top of `f` are not among those that its lanes shift out
  have hlanes {n : ℕ} (hn : 25 ≤ n) : mmSlliEpi32 f n = mmSlliEpi32 e n := by
    rw [hf, htop, mmSlliEpi32_xor, mmSlliEpi32_xor, mmSlliEpi32_xor,
      slli_shiftLeft_top e (m := 31) (by omega), slli_shiftLeft_top e (m := 30) (by omega),
      slli_shiftLeft_top e (m := 25) (by omega), BitVec.xor_zero, BitVec.xor_zero, BitVec.xor_zero]
  have hcarry : mmSrliSi128 t 4 = mmSrliSi128 (mmSlliEpi32 f 31) 4 ^^^
      mmSrliSi128 (mmSlliEpi32 f 30) 4 ^^^ mmSrliSi128 (mmSlliEpi32 f 25) 4 := by
    rw [hlanes (by omega), hlanes (by omega), hlanes (by omega), ht, mmSrliSi128_xor,
      mmSrliSi128_xor]
  have hreduce : reduce ((hi <<< 1) ||| (lo >>> 127)) e =
      ((hi <<< 1) ||| (lo >>> 127)) ^^^ f ^^^ (f >>> 1) ^^^ (f >>> 2) ^^^ (f >>> 7) := by
    rw [reduce, hf, htop]
  rw [← he, hreduce, ← srli_xor_carry f (n := 1) (by omega), ← srli_xor_carry f (n := 2) (by omega),
    ← srli_xor_carry f (n := 7) (by omega)]
  have hcode : mulReduction lo hi = ((hi <<< 1) ||| (lo >>> 127)) ^^^
      (f ^^^ (mmSrliEpi32 f 1 ^^^ mmSrliEpi32 f 2 ^^^ mmSrliEpi32 f 7 ^^^ mmSrliSi128 t 4)) := by
    simp only [mulReduction, slli_or_carry, srli_carry_out, ← he, ← ht, ← hf]
  have hregroup (p f a b c a' b' c' : BitVec 128) :
      p ^^^ (f ^^^ (a ^^^ b ^^^ c ^^^ (a' ^^^ b' ^^^ c'))) =
        p ^^^ f ^^^ (a ^^^ a') ^^^ (b ^^^ b') ^^^ (c ^^^ c') := by ac_rfl
  rw [hcode, hcarry, hregroup]

-- ---------------------------------------------------------------------------
-- Products
-- ---------------------------------------------------------------------------

/-- Three parts of a product, added up and reduced. -/
theorem mulReduction_eq_fold (hi mid lo : BitVec 128) :
    mulReduction (lo ^^^ mmSlliSi128 mid 8) (hi ^^^ mmSrliSi128 mid 8) = fold hi mid lo :=
  mulReduction_eq _ _

theorem mulv_eq (A B : BitVec 128) : mulv A B = gmul A B := by
  have hcode : mulv A B = fold (clmul (half A true) (half B true))
      (clmul (half A false) (half B true) ^^^ clmul (half A true) (half B false))
      (clmul (half A false) (half B false)) := mulReduction_eq_fold _ _ _
  rw [hcode]
  refine fold_eq_of_value (clmul_getLsbD_last _ _) ?_
  rw [value_gmul isGcmRoot_root, value_half _ A, value_half _ B, value_xor, value_clmul,
    value_clmul, value_clmul, value_clmul]
  ring

/-- The middle product of two sums has the outer products in it too. -/
theorem value_redMulMid (H X : BitVec 128) : value gcmRoot (redMulMid H X) =
    gcmRoot * (value gcmRoot (half H true) + value gcmRoot (half H false)) *
      (value gcmRoot (half X true) + value gcmRoot (half X false)) := by
  have hcode : redMulMid H X = clmul (half (mmShuffleEpi32 H 0x4e ^^^ H) false)
      (half (mmShuffleEpi32 X 0x4e ^^^ X) false) := rfl
  rw [hcode, value_clmul, half_xor, half_xor, half_swap, half_swap, value_xor, value_xor]

theorem addmul_eq (c : BitVec 128) (a : List UInt8) (xlen : ℕ) (b : BitVec 128) :
    addmul c a xlen b = gmul (c ^^^ block (a.take xlen)) b := by
  have hblock : mmShuffleEpi8 (if xlen ≥ 16 then mmLoaduSi128 a
      else mmLoaduSi128 (a.take xlen ++ List.replicate (16 - xlen) 0)) rev =
        block (a.take xlen) := by
    rw [mmShuffleEpi8_rev]
    split
    · rw [reverse_mmLoaduSi128, block_take (by assumption)]
    · rw [reverse_mmLoaduSi128, block_append_zeros]
  simp only [addmul, mulv_eq, hblock, BitVec.xor_comm]

/-- One reduction does for four blocks. -/
theorem mulreduce4_eq (H0 H1 H2 H3 X0 X1 X2 X3 accv : BitVec 128) :
    mulreduce4 rev H0 H1 H2 H3 X0 X1 X2 X3 accv =
      gmul (accv ^^^ reverse X3) H3 ^^^ gmul (reverse X2) H2 ^^^ gmul (reverse X1) H1 ^^^
        gmul (reverse X0) H0 := by
  simp only [mulreduce4, mmShuffleEpi8_rev, BitVec.xor_comm (reverse X3) accv]
  generalize reverse X0 = X0
  generalize reverse X1 = X1
  generalize reverse X2 = X2
  generalize accv ^^^ reverse X3 = X3
  rw [BitVec.xor_comm (mmSlliSi128 _ 8), BitVec.xor_comm (mmSrliSi128 _ 8), mulReduction_eq_fold]
  have hhigh (H X : BitVec 128) : value gcmRoot (redMulHigh H X) =
      gcmRoot * value gcmRoot (half H true) * value gcmRoot (half X true) := value_clmul _ _
  have hlow (H X : BitVec 128) : value gcmRoot (redMulLow H X) =
      gcmRoot * value gcmRoot (half H false) * value gcmRoot (half X false) := value_clmul _ _
  refine fold_eq_of_value ?_ ?_
  · have hbit (H X : BitVec 128) : (redMulHigh H X).getLsbD 127 = false := clmul_getLsbD_last _ _
    simp only [BitVec.getLsbD_xor, hbit, Bool.xor_false]
  · simp only [value_xor, hhigh, hlow, value_redMulMid, value_gmul isGcmRoot_root]
    rw [value_half _ H0, value_half _ H1, value_half _ H2, value_half _ H3, value_half _ X0,
      value_half _ X1, value_half _ X2, value_half _ X3]
    -- the outer products of the halves cancel out of the middle
    obtain ⟨high, hhigh⟩ : ∃ f : BitVec 128 → Gf128, f = fun a => value gcmRoot (half a true) :=
      ⟨_, rfl⟩
    obtain ⟨low, hlow⟩ : ∃ f : BitVec 128 → Gf128, f = fun a => value gcmRoot (half a false) :=
      ⟨_, rfl⟩
    have htwo : (2 : Gf128) = 0 := CharTwo.two_eq_zero
    simp only [← congrFun hhigh, ← congrFun hlow]
    linear_combination gcmRoot ^ 65 * (high H0 * high X0 + low H0 * low X0 + high H1 * high X1 +
      low H1 * low X1 + high H2 * high X2 + low H2 * low X2 + high H3 * high X3 +
      low H3 * low X3) * htwo

/-- With the powers of the key, four blocks go through the hash, the last operand first. -/
theorem mulreduce4_ghash (H X0 X1 X2 X3 accv : BitVec 128) :
    mulreduce4 rev H (mulv H H) (mulv (mulv H H) H) (mulv (mulv (mulv H H) H) H) X0 X1 X2 X3 accv =
      ghash H accv [reverse X3, reverse X2, reverse X1, reverse X0] := by
  rw [mulreduce4_eq]
  simp only [mulv_eq, ghash_cons, ghash_nil, xor_gmul, gmul_assoc]

end TriHaRd.Aesni
