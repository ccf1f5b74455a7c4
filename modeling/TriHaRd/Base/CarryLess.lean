-- SUMMARY: Bit vectors as polynomials over GF(2), the carry-less product, and its reduction in the field of GCM.
import Mathlib.Algebra.BigOperators.Intervals
import Mathlib.Algebra.CharP.Algebra
import Mathlib.Algebra.CharP.Two
import Mathlib.Algebra.Field.ZMod
import Mathlib.RingTheory.AdjoinRoot
import Mathlib.Tactic.ComputeDegree
import Mathlib.Tactic.LinearCombination

/-!
# Carry-less arithmetic

The bits of a vector are the coefficients of a polynomial, its top bit that of `x⁰`.
`value x` evaluates it at an element of a ring of characteristic two. A carry-less
product of two halves, shifts and exclusive ors then are ring operations, and the
reduction of a double-width product is an identity of the ring in which
`x¹²⁸ = 1 + x + x² + x⁷`.

`Gf128` is that ring. A block of 128 bits is determined by its value there.
-/

namespace CarryLess

open Finset

variable {R : Type*} [CommRing R] {x : R} {w : ℕ}

/-- The polynomial of the vector at `x`. -/
def value (x : R) (a : BitVec w) : R :=
  ∑ i ∈ range w, if a.getLsbD i then x ^ (w - 1 - i) else 0

/-- The product of two polynomials, without carries. -/
def clmul (a b : BitVec 64) : BitVec 128 :=
  (List.range 64).foldl (fun acc i => if b.getLsbD i then acc ^^^ (a.setWidth 128 <<< i) else acc) 0

-- ---------------------------------------------------------------------------
-- Values
-- ---------------------------------------------------------------------------

section Value

@[simp] theorem value_zero : value x (0#w) = 0 := by
  simp [value]

theorem value_xor [CharP R 2] (a b : BitVec w) : value x (a ^^^ b) = value x a + value x b := by
  rw [value, value, value, ← sum_add_distrib]
  refine sum_congr rfl fun i _ => ?_
  rw [BitVec.getLsbD_xor]
  cases a.getLsbD i <;> cases b.getLsbD i <;> simp [CharTwo.add_self_eq_zero]

/-- The halves of a vector. -/
theorem value_halves (a : BitVec 128) :
    value x a = value x (a.extractLsb' 64 64) + x ^ 64 * value x (a.extractLsb' 0 64) := by
  have hlow : ∑ i ∈ range 64, (if a.getLsbD i then x ^ (127 - i) else 0) =
      x ^ 64 * value x (a.extractLsb' 0 64) := by
    rw [value, mul_sum]
    refine sum_congr rfl fun i hi => ?_
    have hi : i < 64 := mem_range.mp hi
    rw [BitVec.getLsbD_extractLsb', mul_ite, mul_zero, ← pow_add]
    simp only [hi, decide_true, Bool.true_and, Nat.zero_add]
    rw [show 64 + (64 - 1 - i) = 127 - i by omega]
  have hhigh : ∑ i ∈ range 64, (if a.getLsbD (64 + i) then x ^ (127 - (64 + i)) else 0) =
      value x (a.extractLsb' 64 64) := by
    rw [value]
    refine sum_congr rfl fun i hi => ?_
    have hi : i < 64 := mem_range.mp hi
    rw [BitVec.getLsbD_extractLsb']
    simp only [hi, decide_true, Bool.true_and]
    rw [show 64 - 1 - i = 127 - (64 + i) by omega]
  rw [← hlow, ← hhigh, add_comm]
  exact sum_range_add (fun i => if a.getLsbD i then x ^ (127 - i) else 0) 64 64

/-- The sum in two parts. -/
theorem value_split (a : BitVec 128) {k : ℕ} (hk : k ≤ 128) :
    value x a = ∑ i ∈ range k, (if a.getLsbD i then x ^ (127 - i) else 0) +
      ∑ i ∈ range (128 - k), if a.getLsbD (k + i) then x ^ (127 - (k + i)) else 0 := by
  rw [← sum_range_add (fun i => if a.getLsbD i then x ^ (127 - i) else 0), Nat.add_sub_cancel' hk]
  rfl

/-- What is left of a vector that is shifted to the left. -/
theorem value_shiftLeft (a : BitVec 128) {n : ℕ} (hn : n ≤ 128) :
    value x (a <<< (128 - n)) =
      ∑ i ∈ range n, if a.getLsbD i then x ^ (n - 1 - i) else 0 := by
  have hnone : ∑ i ∈ range (128 - n),
      (if (a <<< (128 - n)).getLsbD i then x ^ (127 - i) else 0) = 0 := by
    refine sum_eq_zero fun i hi => ?_
    have hi : i < 128 - n := mem_range.mp hi
    simp [hi]
  rw [value_split _ (Nat.sub_le 128 n), hnone, zero_add, Nat.sub_sub_self hn]
  refine sum_congr rfl fun i hi => ?_
  have hi : i < n := mem_range.mp hi
  have hbit : (a <<< (128 - n)).getLsbD (128 - n + i) = a.getLsbD i := by
    rw [BitVec.getLsbD_shiftLeft, Nat.add_sub_cancel_left]
    simp [show 128 - n + i < 128 by omega]
  rw [hbit, show 127 - (128 - n + i) = n - 1 - i by omega]

/-- And to the right. -/
theorem value_ushiftRight (a : BitVec 128) {n : ℕ} (hn : n ≤ 128) :
    value x (a >>> n) =
      ∑ i ∈ range (128 - n), if a.getLsbD (n + i) then x ^ (127 - i) else 0 := by
  have hnone : ∑ i ∈ range (128 - (128 - n)),
      (if (a >>> n).getLsbD (128 - n + i) then x ^ (127 - (128 - n + i)) else 0) = 0 := by
    refine sum_eq_zero fun i _ => ?_
    simp [BitVec.getLsbD_of_ge _ _ (show 128 ≤ n + (128 - n + i) by omega)]
  rw [value_split _ (Nat.sub_le 128 n), hnone, add_zero]
  refine sum_congr rfl fun i _ => ?_
  rw [BitVec.getLsbD_ushiftRight]

/-- Multiplication by a power of `x` shifts, and what is shifted out comes back as a multiple of
    `x¹²⁸`. -/
theorem pow_mul_value (a : BitVec 128) {n : ℕ} (hn : n ≤ 128) :
    x ^ n * value x a = value x (a >>> n) + x ^ 128 * value x (a <<< (128 - n)) := by
  rw [value_ushiftRight a hn, value_shiftLeft a hn, value_split a hn, mul_add, mul_sum, mul_sum,
    mul_sum, add_comm]
  refine congrArg₂ (· + ·) (sum_congr rfl fun i hi => ?_) (sum_congr rfl fun i hi => ?_)
  · have hi : i < 128 - n := mem_range.mp hi
    rw [mul_ite, mul_zero, ← pow_add, show n + (127 - (n + i)) = 127 - i by omega]
  · have hi : i < n := mem_range.mp hi
    rw [mul_ite, mul_zero, mul_ite, mul_zero, ← pow_add, ← pow_add,
      show n + (127 - i) = 128 + (n - 1 - i) by omega]

/-- A half in the place of a shift. -/
theorem value_setWidth_shiftLeft (a : BitVec 64) {i : ℕ} (hi : i ≤ 64) :
    value x (a.setWidth 128 <<< i) = x ^ (64 - i) * value x a := by
  have hnone : ∑ j ∈ range (64 - i),
      (if (a.setWidth 128).getLsbD (64 + j) then x ^ (128 - i - 1 - (64 + j)) else 0) = 0 :=
    sum_eq_zero fun j _ => by simp
  have hshift := value_shiftLeft (x := x) (a.setWidth 128) (Nat.sub_le 128 i)
  rw [Nat.sub_sub_self (by omega), show 128 - i = 64 + (64 - i) by omega, sum_range_add] at hshift
  rw [hshift, show 64 + (64 - i) = 128 - i by omega, hnone, add_zero, value, mul_sum]
  refine sum_congr rfl fun j hj => ?_
  have hj : j < 64 := mem_range.mp hj
  rw [BitVec.getLsbD_setWidth, mul_ite, mul_zero, ← pow_add,
    show 64 - i + (64 - 1 - j) = 128 - i - 1 - j by omega]
  simp [show j < 128 by omega]

theorem value_twoPow {k : ℕ} (hk : k < 128) :
    value x (BitVec.twoPow 128 k) = x ^ (127 - k) := by
  have hbit (i : ℕ) : (if (BitVec.twoPow 128 k).getLsbD i then x ^ (128 - 1 - i) else 0) =
      if k = i then x ^ (127 - i) else 0 := by
    simp [BitVec.getLsbD_twoPow, hk]
  rw [value, sum_congr rfl fun i _ => hbit i, sum_ite_eq, if_pos (mem_range.mpr hk)]

theorem map_value {S : Type*} [CommRing S] {w : ℕ} (f : R →+* S) (x : R) (a : BitVec w) :
    f (value x a) = value (f x) a := by
  rw [value, value, map_sum]
  refine sum_congr rfl fun i _ => ?_
  rw [apply_ite f, map_pow, map_zero]

/-- The product of two halves. -/
theorem value_clmul [CharP R 2] (a b : BitVec 64) :
    value x (clmul a b) = x * value x a * value x b := by
  have hsteps (k : ℕ) (hk : k ≤ 64) :
      value x ((List.range k).foldl
        (fun acc i => if b.getLsbD i then acc ^^^ (a.setWidth 128 <<< i) else acc) 0) =
        x * value x a * ∑ i ∈ range k, if b.getLsbD i then x ^ (63 - i) else 0 := by
    induction k with
    | zero => simp
    | succ k ih =>
        rw [List.range_succ, List.foldl_append, List.foldl_cons, List.foldl_nil, sum_range_succ,
          mul_add, ← ih (by omega)]
        split
        · rw [value_xor, value_setWidth_shiftLeft a (by omega),
            show 64 - k = 1 + (63 - k) by omega, pow_add, pow_one]
          ring
        · rw [mul_zero, add_zero]
  exact hsteps 64 le_rfl

theorem clmul_getLsbD_last (a b : BitVec 64) : (clmul a b).getLsbD 127 = false := by
  have hsteps (k : ℕ) (hk : k ≤ 64) : ((List.range k).foldl
      (fun acc i => if b.getLsbD i then acc ^^^ (a.setWidth 128 <<< i) else acc)
      (0#128)).getLsbD 127 = false := by
    induction k with
    | zero => simp
    | succ k ih =>
        rw [List.range_succ, List.foldl_append, List.foldl_cons, List.foldl_nil]
        have hshift : (a.setWidth 128 <<< k).getLsbD 127 = false := by
          simp [BitVec.getLsbD_of_ge a _ (show 64 ≤ 127 - k by omega)]
        split
        · rw [BitVec.getLsbD_xor, ih (by omega), hshift]
          rfl
        · exact ih (by omega)
  exact hsteps 64 le_rfl

end Value

-- ---------------------------------------------------------------------------
-- Reduction
-- ---------------------------------------------------------------------------

/-- The block that a product of 256 bits is reduced to. -/
def reduce (hi lo : BitVec 128) : BitVec 128 :=
  let folded := lo ^^^ ((lo <<< 127) ^^^ (lo <<< 126) ^^^ (lo <<< 121))
  hi ^^^ folded ^^^ (folded >>> 1) ^^^ (folded >>> 2) ^^^ (folded >>> 7)

/-- A product in three parts, shifted by one bit and reduced. -/
def fold (hi mid lo : BitVec 128) : BitVec 128 :=
  let hi := hi ^^^ (mid >>> 64)
  let lo := lo ^^^ (mid <<< 64)
  reduce ((hi <<< 1) ||| (lo >>> 127)) (lo <<< 1)

/-- `x` is a root of the polynomial of GCM. -/
def IsGcmRoot (x : R) : Prop := x ^ 128 = 1 + x + x ^ 2 + x ^ 7

section Reduction

variable [CharP R 2]

theorem isGcmRoot_of_eq_zero (h : x ^ 128 + x ^ 7 + x ^ 2 + x + 1 = 0) : IsGcmRoot x := by
  rw [IsGcmRoot]
  linear_combination h - CharTwo.two_eq_zero (R := R) * (1 + x + x ^ 2 + x ^ 7)

theorem IsGcmRoot.eq_of_mul_eq (hx : IsGcmRoot x) {a b : R} (h : x * a = x * b) : a = b := by
  have hinv : (x ^ 127 + 1 + x + x ^ 6) * x = 1 := by
    rw [IsGcmRoot] at hx
    linear_combination hx + CharTwo.two_eq_zero (R := R) * (x + x ^ 2 + x ^ 7)
  calc a = (x ^ 127 + 1 + x + x ^ 6) * (x * a) := by rw [← mul_assoc, hinv, one_mul]
    _ = (x ^ 127 + 1 + x + x ^ 6) * (x * b) := by rw [h]
    _ = b := by rw [← mul_assoc, hinv, one_mul]

theorem value_reduce (hx : IsGcmRoot x) (hi lo : BitVec 128) :
    value x (reduce hi lo) = value x hi + x ^ 128 * value x lo := by
  obtain ⟨E, hE⟩ : ∃ E, E = (lo <<< 127) ^^^ (lo <<< 126) ^^^ (lo <<< 121) := ⟨_, rfl⟩
  have hvalueE : value x E =
      value x (lo <<< 127) + value x (lo <<< 126) + value x (lo <<< 121) := by
    rw [hE, value_xor, value_xor]
  -- nothing is shifted out of the bits that have been folded over
  have hkeeps (n : ℕ) (hn : n ≤ 7) : x ^ n * value x E = value x (E >>> n) := by
    have hzero : E <<< (128 - n) = 0#128 := by
      rw [hE, BitVec.shiftLeft_xor_distrib, BitVec.shiftLeft_xor_distrib, ← BitVec.shiftLeft_add,
        ← BitVec.shiftLeft_add, ← BitVec.shiftLeft_add]
      rw [BitVec.shiftLeft_eq_zero (by omega), BitVec.shiftLeft_eq_zero (by omega),
        BitVec.shiftLeft_eq_zero (by omega)]
      rfl
    rw [pow_mul_value E (by omega), hzero, value_zero, mul_zero, add_zero]
  have hshift (n : ℕ) := pow_mul_value (x := x) lo (n := n)
  have h1 := hshift 1 (by omega)
  have h2 := hshift 2 (by omega)
  have h7 := hshift 7 (by omega)
  have hfolded : reduce hi lo = hi ^^^ (lo ^^^ E) ^^^ ((lo ^^^ E) >>> 1) ^^^ ((lo ^^^ E) >>> 2) ^^^
      ((lo ^^^ E) >>> 7) := by
    rw [reduce, hE]
  rw [hfolded]
  simp only [value_xor, BitVec.ushiftRight_xor_distrib, ← hkeeps 1 (by omega),
    ← hkeeps 2 (by omega), ← hkeeps 7 (by omega)]
  rw [IsGcmRoot] at hx
  linear_combination -h1 - h2 - h7 + x ^ 128 * hvalueE - (value x lo + value x E) * hx

/-- A product in three parts has the value of its fold, and one factor `x`. -/
theorem value_fold (hx : IsGcmRoot x) (hi mid lo : BitVec 128) (htop : hi.getLsbD 127 = false) :
    x * value x (fold hi mid lo) = value x hi + x ^ 64 * value x mid + x ^ 128 * value x lo := by
  obtain ⟨H, hH⟩ : ∃ H, H = hi ^^^ (mid >>> 64) := ⟨_, rfl⟩
  obtain ⟨L, hL⟩ : ∃ L, L = lo ^^^ (mid <<< 64) := ⟨_, rfl⟩
  have hmid := pow_mul_value (x := x) mid (n := 64) (by omega)
  have hvalueH : value x H = value x hi + value x (mid >>> 64) := by rw [hH, value_xor]
  have hvalueL : value x L = value x lo + value x (mid <<< 64) := by rw [hL, value_xor]
  have htopH : H.getLsbD 127 = false := by
    rw [hH, BitVec.getLsbD_xor, htop, BitVec.getLsbD_ushiftRight,
      BitVec.getLsbD_of_ge mid _ (by omega)]
    rfl
  -- the shift by one bit, within each half and from one into the other
  have hor : (H <<< 1) ||| (L >>> 127) = (H <<< 1) ^^^ (L >>> 127) := by
    refine BitVec.eq_of_getLsbD_eq fun i hi => ?_
    rw [BitVec.getLsbD_or, BitVec.getLsbD_xor, BitVec.getLsbD_shiftLeft, BitVec.getLsbD_ushiftRight]
    obtain rfl | hpos := Nat.eq_zero_or_pos i
    · simp
    · simp [BitVec.getLsbD_of_ge L _ (show 128 ≤ 127 + i by omega)]
  have hbackH : (H <<< 1) >>> 1 = H := by
    refine BitVec.eq_of_getLsbD_eq fun i hi => ?_
    rw [BitVec.getLsbD_ushiftRight, BitVec.getLsbD_shiftLeft]
    obtain rfl | hlt := Nat.eq_or_lt_of_le (Nat.le_of_lt_succ hi)
    · rw [htopH]
      simp
    · simp [show 1 + i < 128 by omega]
  have hbackL : ((L <<< 1) >>> 1) ^^^ ((L >>> 127) <<< 127) = L := by
    refine BitVec.eq_of_getLsbD_eq fun i hi => ?_
    rw [BitVec.getLsbD_xor, BitVec.getLsbD_ushiftRight, BitVec.getLsbD_shiftLeft,
      BitVec.getLsbD_shiftLeft, BitVec.getLsbD_ushiftRight]
    obtain rfl | hlt := Nat.eq_or_lt_of_le (Nat.le_of_lt_succ hi)
    · simp
    · simp [show 1 + i < 128 by omega, show i < 127 by omega]
  have hshiftH := pow_mul_value (x := x) (H <<< 1) (n := 1) (by omega)
  have hshiftC := pow_mul_value (x := x) (L >>> 127) (n := 1) (by omega)
  have hshiftL := pow_mul_value (x := x) (L <<< 1) (n := 1) (by omega)
  have hlost (a : BitVec 128) : (a <<< 1) <<< (128 - 1) = 0#128 := by
    rw [← BitVec.shiftLeft_add, BitVec.shiftLeft_eq_zero (by omega)]
  have hgone : (L >>> 127) >>> 1 = 0#128 := by
    rw [← BitVec.shiftRight_add, BitVec.ushiftRight_eq_zero (by omega)]
  rw [hlost, value_zero] at hshiftH hshiftL
  rw [hgone, value_zero] at hshiftC
  rw [hbackH] at hshiftH
  have hvalueL' : value x L = value x ((L <<< 1) >>> 1) + value x ((L >>> 127) <<< 127) := by
    rw [← value_xor, hbackL]
  rw [fold, ← hH, ← hL, value_reduce hx, hor, value_xor]
  linear_combination hshiftH + hshiftC + x ^ 128 * hshiftL - x ^ 128 * hvalueL' + hvalueH +
    x ^ 128 * hvalueL - hmid

end Reduction

-- ---------------------------------------------------------------------------
-- Multiplication bit by bit
-- ---------------------------------------------------------------------------

/-- The constant `R` of GCM, the bits of `1 + x + x² + x⁷`. -/
def gcmPoly : BitVec 128 := 0xe1#128 <<< 120

/-- One step of the multiplication. -/
def gmulStep (a : BitVec 128) (zv : BitVec 128 × BitVec 128) (i : ℕ) : BitVec 128 × BitVec 128 :=
  let (z, v) := zv
  (if a.getLsbD (127 - i) then z ^^^ v else z,
    if v.getLsbD 0 then (v >>> 1) ^^^ gcmPoly else v >>> 1)

/-- The product of two blocks, bit by bit. -/
def gmul (a b : BitVec 128) : BitVec 128 := ((List.range 128).foldl (gmulStep a) (0, b)).1

section Multiplication

variable [CharP R 2]

theorem value_gcmPoly : value x gcmPoly = 1 + x + x ^ 2 + x ^ 7 := by
  have hbits : gcmPoly = BitVec.twoPow 128 127 ^^^ BitVec.twoPow 128 126 ^^^
      BitVec.twoPow 128 125 ^^^ BitVec.twoPow 128 120 := by decide
  rw [hbits, value_xor, value_xor, value_xor, value_twoPow (by omega), value_twoPow (by omega),
    value_twoPow (by omega), value_twoPow (by omega)]
  ring

/-- Multiplication by `x`. -/
theorem value_gmulStep_snd (hx : IsGcmRoot x) (a : BitVec 128) (zv : BitVec 128 × BitVec 128)
    (i : ℕ) : value x (gmulStep a zv i).2 = x * value x zv.2 := by
  obtain ⟨z, v⟩ := zv
  have hshift := pow_mul_value (x := x) v (n := 1) (by omega)
  have hout : value x (v <<< (128 - 1)) = if v.getLsbD 0 then 1 else 0 := by
    rw [value_shiftLeft v (by omega), sum_range_one, pow_zero]
  rw [pow_one, hout, hx] at hshift
  simp only [gmulStep]
  split_ifs at hshift ⊢
  · rw [hshift, value_xor, value_gcmPoly, mul_one]
  · rw [hshift, mul_zero, add_zero]

theorem value_gmulStep_fst (a : BitVec 128) (zv : BitVec 128 × BitVec 128) (i : ℕ) :
    value x (gmulStep a zv i).1 =
      value x zv.1 + if a.getLsbD (127 - i) then value x zv.2 else 0 := by
  obtain ⟨z, v⟩ := zv
  simp only [gmulStep]
  split
  · rw [value_xor]
  · rw [add_zero]

theorem value_gmul (hx : IsGcmRoot x) (a b : BitVec 128) :
    value x (gmul a b) = value x a * value x b := by
  -- after `k` bits, the first block is the product with these bits, the second `b` times `xᵏ`
  have hsteps (k : ℕ) :
      value x ((List.range k).foldl (gmulStep a) (0, b)).1 =
        (∑ i ∈ range k, if a.getLsbD (127 - i) then x ^ i else 0) * value x b ∧
      value x ((List.range k).foldl (gmulStep a) (0, b)).2 = x ^ k * value x b := by
    induction k with
    | zero => simp
    | succ k ih =>
        obtain ⟨hz, hv⟩ := ih
        rw [List.range_succ, List.foldl_append, List.foldl_cons, List.foldl_nil,
          value_gmulStep_fst, value_gmulStep_snd hx, hz, hv, sum_range_succ, pow_succ']
        refine ⟨?_, by ring⟩
        split <;> ring
  have hreflect : ∑ i ∈ range 128, (if a.getLsbD (127 - i) then x ^ i else 0) = value x a := by
    rw [value, ← sum_range_reflect]
    refine sum_congr rfl fun i hi => ?_
    have hi : i < 128 := mem_range.mp hi
    rw [show 127 - (128 - 1 - i) = i by omega]
  rw [gmul, (hsteps 128).1, hreflect]


end Multiplication

-- ---------------------------------------------------------------------------
-- The field
-- ---------------------------------------------------------------------------

section Field

open Polynomial

noncomputable def pentanomial (n : ℕ) : (ZMod 2)[X] := X ^ n + X ^ 7 + X ^ 2 + X + 1

noncomputable def gcmPolynomial : (ZMod 2)[X] := pentanomial 128

abbrev Gf128 := AdjoinRoot gcmPolynomial

theorem natDegree_gcmPolynomial : gcmPolynomial.natDegree = 128 := by
  unfold gcmPolynomial pentanomial
  compute_degree!

theorem monic_gcmPolynomial : gcmPolynomial.Monic := by
  unfold gcmPolynomial pentanomial
  monicity!

theorem eval₂_pentanomial {S : Type*} [CommRing S] (f : ZMod 2 →+* S) (y : S) (n : ℕ) :
    (pentanomial n).eval₂ f y = y ^ n + y ^ 7 + y ^ 2 + y + 1 := by
  simp only [pentanomial, eval₂_add, eval₂_one, eval₂_X, eval₂_pow]

instance : Nontrivial Gf128 := by
  refine AdjoinRoot.nontrivial _ fun h => ?_
  have hdegree := natDegree_eq_of_degree_eq_some (n := 0) h
  rw [natDegree_gcmPolynomial] at hdegree
  omega

instance : CharP Gf128 2 := by
  have hinj : Function.Injective (algebraMap (ZMod 2) Gf128) := RingHom.injective _
  exact charP_of_injective_algebraMap hinj 2

/-- `x` in the field. -/
noncomputable def gcmRoot : Gf128 := AdjoinRoot.root gcmPolynomial

theorem isGcmRoot_root : IsGcmRoot gcmRoot := by
  refine isGcmRoot_of_eq_zero ?_
  rw [← eval₂_pentanomial (AdjoinRoot.of gcmPolynomial), ← gcmPolynomial, gcmRoot,
    AdjoinRoot.eval₂_root]

theorem coeff_value (a : BitVec 128) (n : ℕ) : (value (X : (ZMod 2)[X]) a).coeff n =
    if n < 128 ∧ a.getLsbD (127 - n) then 1 else 0 := by
  have hcoeff (i : ℕ) : (if a.getLsbD i then (X : (ZMod 2)[X]) ^ (127 - i) else 0).coeff n =
      if n = 127 - i then (if a.getLsbD i then 1 else 0) else 0 := by
    split_ifs <;> simp_all [coeff_X_pow]
  rw [value, finsetSum_coeff, sum_congr rfl fun i _ => hcoeff i]
  split_ifs with h
  · obtain ⟨hn, hbit⟩ := h
    rw [sum_eq_single_of_mem (127 - n) (mem_range.mpr (by omega)), if_pos (by omega), if_pos hbit]
    intro i hi hne
    have hi : i < 128 := mem_range.mp hi
    rw [if_neg (by omega)]
  · refine sum_eq_zero fun i hi => ?_
    have hi : i < 128 := mem_range.mp hi
    split_ifs with hn hbit
    · exact absurd ⟨by omega, by rwa [hn, show 127 - (127 - i) = i by omega]⟩ h
    · rfl
    · rfl

theorem modByMonic_value (a : BitVec 128) : value X a %ₘ gcmPolynomial = value X a := by
  rw [modByMonic_eq_self_iff monic_gcmPolynomial,
    degree_eq_natDegree monic_gcmPolynomial.ne_zero, natDegree_gcmPolynomial,
    degree_lt_iff_coeff_zero]
  intro n hn
  rw [coeff_value, if_neg (by omega)]

/-- A block is determined by its value. -/
theorem value_injective : Function.Injective
    (value gcmRoot : BitVec 128 → Gf128) := by
  intro a b h
  have hmk : AdjoinRoot.mk gcmPolynomial (value X a) = AdjoinRoot.mk gcmPolynomial (value X b) := by
    rw [map_value, map_value, AdjoinRoot.mk_X, ← gcmRoot, h]
  have hvalue := modByMonic_eq_of_dvd_sub monic_gcmPolynomial (AdjoinRoot.mk_eq_mk.mp hmk)
  rw [modByMonic_value, modByMonic_value] at hvalue
  refine BitVec.eq_of_getLsbD_eq fun i hi => ?_
  have hcoeff := coeff_value a (127 - i)
  rw [hvalue, coeff_value, show 127 - (127 - i) = i by omega] at hcoeff
  simp only [show 127 - i < 128 by omega, true_and] at hcoeff
  cases ha : a.getLsbD i <;> cases hb : b.getLsbD i <;> simp [ha, hb] at hcoeff ⊢

/-- The fold of a product whose parts have the right value is the product. -/
theorem fold_eq_of_value {hi mid lo p : BitVec 128} (htop : hi.getLsbD 127 = false)
    (h : value gcmRoot hi + gcmRoot ^ 64 * value gcmRoot mid + gcmRoot ^ 128 * value gcmRoot lo =
      gcmRoot * value gcmRoot p) : fold hi mid lo = p := by
  refine value_injective (isGcmRoot_root.eq_of_mul_eq ?_)
  rw [value_fold isGcmRoot_root hi mid lo htop, h]

theorem xor_gmul (a b c : BitVec 128) : gmul (a ^^^ b) c = gmul a c ^^^ gmul b c := by
  refine value_injective ?_
  rw [value_xor, value_gmul isGcmRoot_root, value_gmul isGcmRoot_root, value_gmul isGcmRoot_root,
    value_xor, add_mul]

theorem gmul_assoc (a b c : BitVec 128) : gmul (gmul a b) c = gmul a (gmul b c) := by
  refine value_injective ?_
  simp only [value_gmul isGcmRoot_root, mul_assoc]

end Field

end CarryLess
