-- SUMMARY: Rounding a rational towards zero, the conversion from a floating type to an integer type, and the values a double holds exactly.
import Mathlib.Algebra.Order.Floor.Ring
import Mathlib.Data.Rat.Floor
import Mathlib.Tactic.Linarith

/-!
# Truncation

A C++ cast from `double` to an integer type drops the fractional part. Over
exact rationals this is the floor of a non-negative number and the ceiling of a
negative one. The lemmas say how far a truncation is from its argument, and how
the truncation of a sum relates to the sum of the truncations.

A floating-point operation rounds its exact result. The last part says which
results need no rounding.
-/

namespace Truncate

/-- Rounding towards zero. -/
def truncate (q : ℚ) : ℤ :=
  if 0 ≤ q then ⌊q⌋ else ⌈q⌉

theorem truncate_of_nonneg {q : ℚ} (h : 0 ≤ q) : truncate q = ⌊q⌋ := if_pos h

theorem truncate_of_nonpos {q : ℚ} (h : q ≤ 0) : truncate q = ⌈q⌉ := by
  rcases h.lt_or_eq with hlt | rfl
  · exact if_neg (not_le.mpr hlt)
  · simp [truncate]

@[simp] theorem truncate_intCast (n : ℤ) : truncate (n : ℚ) = n := by
  unfold truncate
  split <;> simp

@[simp] theorem truncate_zero : truncate 0 = 0 := by
  simpa using truncate_intCast 0

theorem truncate_nonneg {q : ℚ} (h : 0 ≤ q) : 0 ≤ truncate q := by
  rw [truncate_of_nonneg h]
  exact Int.floor_nonneg.mpr h

/-- A truncation drops less than one. -/
theorem abs_truncate_sub_lt (q : ℚ) : |(truncate q : ℚ) - q| < 1 := by
  rw [abs_lt]
  rcases le_total 0 q with hq | hq
  · rw [truncate_of_nonneg hq]
    have hle := Int.floor_le q
    have hlt := Int.lt_floor_add_one q
    constructor <;> linarith
  · rw [truncate_of_nonpos hq]
    have hle := Int.le_ceil q
    have hlt := Int.ceil_lt_add_one q
    constructor <;> linarith

/-- Dividing integers in a floating type and truncating is the integer division of C++. -/
theorem truncate_div (a b : ℤ) : truncate ((a : ℚ) / b) = a.tdiv b := by
  have hfloor (n : ℤ) (d : ℕ) : ⌊(n : ℚ) / (d : ℤ)⌋ = n / d := by
    rw [Int.cast_natCast, Rat.floor_intCast_div_natCast]
  have hnat (n : ℤ) (d : ℕ) : truncate ((n : ℚ) / (d : ℤ)) = n.tdiv d := by
    rcases le_total 0 n with hn | hn
    · rw [truncate_of_nonneg (by positivity), hfloor, Int.tdiv_eq_ediv_of_nonneg hn]
    · have hnonpos : (n : ℚ) / (d : ℤ) ≤ 0 :=
        div_nonpos_of_nonpos_of_nonneg (by exact_mod_cast hn) (by positivity)
      obtain ⟨k, rfl⟩ : ∃ k : ℤ, n = -k := ⟨-n, (neg_neg n).symm⟩
      rw [truncate_of_nonpos hnonpos, Int.cast_neg, neg_div, Int.ceil_neg, hfloor, Int.neg_tdiv,
        Int.tdiv_eq_ediv_of_nonneg (by omega)]
  rcases le_total 0 b with hb | hb
  · obtain ⟨d, rfl⟩ := Int.eq_ofNat_of_zero_le hb
    exact hnat a d
  · obtain ⟨d, hd⟩ := Int.eq_ofNat_of_zero_le (neg_nonneg.mpr hb)
    obtain rfl : b = -d := by omega
    rw [Int.cast_neg, div_neg, ← neg_div, ← Int.cast_neg, Int.cast_natCast, ← Int.cast_natCast d,
      hnat, Int.tdiv_neg, Int.neg_tdiv]

/-! ## Sums

The fraction that a truncation drops is below one, so splitting a sum in two
loses at most one. -/

/-- Over non-negative summands, splitting never gains. -/
theorem truncate_add_le {a b : ℚ} (ha : 0 ≤ a) (hb : 0 ≤ b) :
    truncate a + truncate b ≤ truncate (a + b) := by
  rw [truncate_of_nonneg ha, truncate_of_nonneg hb, truncate_of_nonneg (add_nonneg ha hb)]
  exact Int.le_floor_add a b

/-- Splitting off a non-negative summand changes the result by at most one. -/
theorem abs_truncate_add_sub_le {a b : ℚ} (hb : 0 ≤ b) :
    |truncate a + truncate b - truncate (a + b)| ≤ 1 := by
  have hfb := Int.floor_le b
  have hlb := Int.lt_floor_add_one b
  rw [truncate_of_nonneg hb, abs_le]
  rcases le_total 0 a with ha | ha
  · have hle := Int.le_floor_add a b
    have hge := Int.le_floor_add_floor a b
    rw [truncate_of_nonneg ha, truncate_of_nonneg (add_nonneg ha hb)]
    constructor <;> linarith
  · have hca := Int.le_ceil a
    have hla := Int.ceil_lt_add_one a
    rw [truncate_of_nonpos ha]
    rcases le_total 0 (a + b) with hab | hab
    · have hfs := Int.floor_le (a + b)
      have hls := Int.lt_floor_add_one (a + b)
      rw [truncate_of_nonneg hab]
      have hlow : (-1 : ℚ) < ((⌈a⌉ + ⌊b⌋ - ⌊a + b⌋ : ℤ) : ℚ) := by push_cast; linarith
      have hhigh : ((⌈a⌉ + ⌊b⌋ - ⌊a + b⌋ : ℤ) : ℚ) < 2 := by push_cast; linarith
      have hlow' : (-1 : ℤ) < ⌈a⌉ + ⌊b⌋ - ⌊a + b⌋ := by exact_mod_cast hlow
      have hhigh' : ⌈a⌉ + ⌊b⌋ - ⌊a + b⌋ < 2 := by exact_mod_cast hhigh
      constructor <;> omega
    · have hcs := Int.le_ceil (a + b)
      have hls := Int.ceil_lt_add_one (a + b)
      rw [truncate_of_nonpos hab]
      have hlow : (-2 : ℚ) < ((⌈a⌉ + ⌊b⌋ - ⌈a + b⌉ : ℤ) : ℚ) := by push_cast; linarith
      have hhigh : ((⌈a⌉ + ⌊b⌋ - ⌈a + b⌉ : ℤ) : ℚ) < 1 := by push_cast; linarith
      have hlow' : (-2 : ℤ) < ⌈a⌉ + ⌊b⌋ - ⌈a + b⌉ := by exact_mod_cast hlow
      have hhigh' : ⌈a⌉ + ⌊b⌋ - ⌈a + b⌉ < 1 := by exact_mod_cast hhigh
      constructor <;> omega

/-! ## Doubles -/

/-- The finite values of an IEEE double. -/
def Representable (q : ℚ) : Prop :=
  ∃ m e : ℤ, |m| ≤ 2 ^ 53 ∧ -1074 ≤ e ∧ e ≤ 970 ∧ q = m * 2 ^ e

/-- The rounding of an operation, in any mode, leaves what is representable alone. -/
def IsExact (round : ℚ → ℚ) : Prop := ∀ q, Representable q → round q = q

theorem isExact_id : IsExact id := fun _ _ => rfl

theorem representable_intCast {n : ℤ} (h : |n| ≤ 2 ^ 53) : Representable n :=
  ⟨n, 0, h, by norm_num, by norm_num, by simp⟩

theorem representable_half {n : ℤ} (h : |n| ≤ 2 ^ 53) : Representable (n / 2) :=
  ⟨n, -1, h, by norm_num, by norm_num, by rw [zpow_neg_one, div_eq_mul_inv]⟩

end Truncate
