-- SUMMARY: The timespec operators of timespec.h, and their reading as integer nanoseconds.
import TriHaRd.Base.Truncate
import Mathlib.Tactic.FieldSimp
import Mathlib.Tactic.Ring

/-!
# timespec arithmetic

The overloaded operators of `timespec.h`. `time_t` and `long` are integers without
bounds, and `double` is read as an exact rational, so a cast back to an integer type
is `Truncate.truncate`. Which offsets are computed within 64 bits is said where the
offset is, in `Clock.Offset`.

Every result passes through `standardize`. The second half of the file reads a
`timespec` as its number of nanoseconds, `ns`. A normal timespec is determined by
it, and the operators and comparisons are those of the integers.
-/

namespace TriHaRd

open Truncate

structure Timespec where
  tvSec : ℤ
  tvNsec : ℤ
deriving DecidableEq, Repr

namespace Timespec

/-! ## timespec.h -/

/-- The loop `while(result.tv_nsec < 0)`, bounded by `fuel` iterations. -/
def borrow : ℕ → Timespec → Timespec
  | 0, result => result
  | fuel + 1, result =>
    if result.tvNsec < 0 then
      borrow fuel ⟨result.tvSec - 1, result.tvNsec + 1000000000⟩
    else result

/-- The loop `while(result.tv_nsec >= 1000000000)`, bounded by `fuel` iterations. -/
def carry : ℕ → Timespec → Timespec
  | 0, result => result
  | fuel + 1, result =>
    if result.tvNsec ≥ 1000000000 then
      carry fuel ⟨result.tvSec + 1, result.tvNsec - 1000000000⟩
    else result

/-- The fuel is one iteration for each second in `tv_nsec`, and one more. Neither
    loop is cut short by it, see `standardize_normal`. -/
def standardize (ts : Timespec) : Timespec :=
  let result := borrow (ts.tvNsec.natAbs / 1000000000 + 1) ts
  carry (result.tvNsec.natAbs / 1000000000 + 1) result

def toDouble (ts : Timespec) : ℚ :=
  ts.tvSec + ts.tvNsec / 1000000000

/-- `operator!=` -/
def ne (lhs rhs : Timespec) : Bool :=
  let tempLhs := lhs.standardize
  let tempRhs := rhs.standardize
  if tempLhs.tvSec ≠ tempRhs.tvSec ∨ tempLhs.tvNsec ≠ tempRhs.tvNsec then true else false

/-- `operator==`, which is coarser than the equality of the two fields. -/
def eq (lhs rhs : Timespec) : Bool := !lhs.ne rhs

/-- `operator<` -/
def lt (lhs rhs : Timespec) : Bool :=
  let tempLhs := lhs.standardize
  let tempRhs := rhs.standardize
  if tempLhs.tvSec < tempRhs.tvSec then true
  else if tempLhs.tvSec = tempRhs.tvSec ∧ tempLhs.tvNsec < tempRhs.tvNsec then true
  else false

/-- `operator<=`. The operators `>` and `>=` are the same two with the operands exchanged. -/
def le (lhs rhs : Timespec) : Bool := !rhs.lt lhs

/-- `operator>` -/
def gt (lhs rhs : Timespec) : Bool := rhs.lt lhs

/-- `operator>=` -/
def ge (lhs rhs : Timespec) : Bool := !lhs.lt rhs

instance : LT Timespec := ⟨fun lhs rhs => lhs.lt rhs = true⟩
instance : LE Timespec := ⟨fun lhs rhs => lhs.le rhs = true⟩
instance (lhs rhs : Timespec) : Decidable (lhs < rhs) := inferInstanceAs (Decidable (lhs.lt rhs = true))
instance (lhs rhs : Timespec) : Decidable (lhs ≤ rhs) := inferInstanceAs (Decidable (lhs.le rhs = true))

/-- `operator+` -/
def add (lhs rhs : Timespec) : Timespec :=
  standardize ⟨lhs.tvSec + rhs.tvSec, lhs.tvNsec + rhs.tvNsec⟩

/-- `operator+` with a `long long` count of nanoseconds. -/
def addNsec (lhs : Timespec) (rhs : ℤ) : Timespec :=
  standardize ⟨lhs.tvSec, lhs.tvNsec + rhs⟩

/-- `operator-` -/
def sub (lhs rhs : Timespec) : Timespec :=
  standardize ⟨lhs.tvSec - rhs.tvSec, lhs.tvNsec - rhs.tvNsec⟩

/-- `operator-` with a `long long` count of nanoseconds. -/
def subNsec (lhs : Timespec) (rhs : ℤ) : Timespec :=
  standardize ⟨lhs.tvSec, lhs.tvNsec - rhs⟩

/-- The unary `operator-`. -/
def neg (lhs : Timespec) : Timespec :=
  standardize ⟨-lhs.tvSec, -lhs.tvNsec⟩

/-- What the operators with a `double` share: a fractional number of seconds is cut to whole
    ones, and what is left of it joins the nanoseconds. -/
def ofSeconds (seconds nsec : ℚ) : Timespec :=
  let secondRemainder : ℚ := seconds - (truncate seconds : ℤ)
  standardize ⟨truncate seconds, truncate (secondRemainder * 1000000000 + nsec)⟩

/-- `operator+` with a `double`, in seconds. -/
def addDouble (lhs : Timespec) (rhs : ℚ) : Timespec := ofSeconds (lhs.tvSec + rhs) lhs.tvNsec

/-- `operator-` with a `double`, in seconds. -/
def subDouble (lhs : Timespec) (rhs : ℚ) : Timespec := ofSeconds (lhs.tvSec - rhs) lhs.tvNsec

/-- `operator*` with a `double`. -/
def mulDouble (lhs : Timespec) (rhs : ℚ) : Timespec :=
  ofSeconds (lhs.tvSec * rhs) (lhs.tvNsec * rhs)

/-- `operator/` with a `double`. -/
def div (lhs : Timespec) (rhs : ℚ) : Timespec :=
  let tvSec := truncate (lhs.tvSec / rhs)
  let secRemainder : ℚ := lhs.tvSec / rhs - (truncate (lhs.tvSec / rhs) : ℤ)
  let tvNsec := truncate (secRemainder * 1000000000 + (truncate (lhs.tvNsec / rhs) : ℤ))
  standardize ⟨tvSec, tvNsec⟩

/-- `operator/` as doubles compute it: `round` is applied to the result of every conversion to
    `double` and of every operation. -/
def divRounded (round : ℚ → ℚ) (lhs : Timespec) (rhs : ℚ) : Timespec :=
  let quotient := round (round lhs.tvSec / rhs)
  let tvSec := truncate quotient
  let secRemainder := round (quotient - round (truncate quotient : ℤ))
  let tvNsec := truncate (round (round (secRemainder * 1000000000) +
    round (truncate (round (round lhs.tvNsec / rhs)) : ℤ)))
  standardize ⟨tvSec, tvNsec⟩

instance : Add Timespec := ⟨add⟩
instance : HAdd Timespec ℤ Timespec := ⟨addNsec⟩
instance : Sub Timespec := ⟨sub⟩
instance : HSub Timespec ℤ Timespec := ⟨subNsec⟩
instance : Neg Timespec := ⟨neg⟩
instance : HAdd Timespec ℚ Timespec := ⟨addDouble⟩
instance : HSub Timespec ℚ Timespec := ⟨subDouble⟩
instance : HMul Timespec ℚ Timespec := ⟨mulDouble⟩
instance : HDiv Timespec ℚ Timespec := ⟨div⟩

/-! The compound assignments store the result in `lhs` and return a reference to it. They are
modelled by the new value of `lhs`. -/

/-- `operator+=` -/
def addAssign (lhs rhs : Timespec) : Timespec := lhs + rhs

/-- `operator+=` with a `long long` count of nanoseconds. -/
def addAssignNsec (lhs : Timespec) (rhs : ℤ) : Timespec := lhs + rhs

/-- `operator-=` -/
def subAssign (lhs rhs : Timespec) : Timespec := lhs - rhs

/-- `operator-=` with a `long long` count of nanoseconds. -/
def subAssignNsec (lhs : Timespec) (rhs : ℤ) : Timespec := lhs - rhs

/-! ## Nanoseconds -/

/-- The instant as a number of nanoseconds. -/
def ns (ts : Timespec) : ℤ := ts.tvSec * 1000000000 + ts.tvNsec

/-- The form that every operator returns. -/
def Normal (ts : Timespec) : Prop := 0 ≤ ts.tvNsec ∧ ts.tvNsec < 1000000000

theorem borrow_eq {fuel : ℕ} {ts : Timespec} (h : -ts.tvNsec ≤ fuel * 1000000000) :
    borrow fuel ts =
      if ts.tvNsec < 0 then ⟨ts.tvSec + ts.tvNsec / 1000000000, ts.tvNsec % 1000000000⟩ else ts := by
  induction fuel generalizing ts with
  | zero =>
      rw [if_neg (by omega), borrow]
  | succ fuel ih =>
      rw [borrow]
      split
      case isFalse => rfl
      case isTrue hneg =>
        push_cast at h
        have hfuel : -(ts.tvNsec + 1000000000) ≤ fuel * 1000000000 := by omega
        rw [ih hfuel]
        dsimp only
        split
        · congr 1 <;> omega
        · congr 1 <;> omega

theorem carry_eq {fuel : ℕ} {ts : Timespec} (hnonneg : 0 ≤ ts.tvNsec)
    (h : ts.tvNsec < (fuel + 1) * 1000000000) :
    carry fuel ts = ⟨ts.tvSec + ts.tvNsec / 1000000000, ts.tvNsec % 1000000000⟩ := by
  induction fuel generalizing ts with
  | zero =>
      rw [carry, Int.ediv_eq_zero_of_lt hnonneg (by omega), Int.emod_eq_of_lt hnonneg (by omega)]
      simp
  | succ fuel ih =>
      rw [carry]
      split
      case isTrue hge =>
        push_cast at h
        rw [ih (by dsimp only; omega) (by dsimp only; omega)]
        congr 1
        · dsimp only; omega
        · dsimp only; omega
      case isFalse hlt =>
        rw [Int.ediv_eq_zero_of_lt hnonneg (by omega), Int.emod_eq_of_lt hnonneg (by omega)]
        simp

/-- After the first loop `tv_nsec` is not negative, and no larger than a second unless it was so
    before. -/
theorem borrow_bounds {fuel : ℕ} {ts : Timespec} (h : -ts.tvNsec ≤ fuel * 1000000000) :
    0 ≤ (borrow fuel ts).tvNsec ∧ (borrow fuel ts).tvNsec < max 1000000000 (ts.tvNsec + 1) := by
  rw [borrow_eq h]
  split
  · dsimp only
    omega
  · omega

/-- The two loops together carry all whole seconds out of `tv_nsec`, with any fuel that covers
    them. -/
theorem carry_borrow_eq {fuel fuel' : ℕ} {ts : Timespec} (h : -ts.tvNsec ≤ fuel * 1000000000)
    (h' : (borrow fuel ts).tvNsec < (fuel' + 1) * 1000000000) : carry fuel' (borrow fuel ts) =
      ⟨ts.tvSec + ts.tvNsec / 1000000000, ts.tvNsec % 1000000000⟩ := by
  obtain ⟨hnonneg, _⟩ := borrow_bounds h
  rw [carry_eq hnonneg h', borrow_eq h]
  split
  case isTrue =>
    dsimp only
    congr 1
    · omega
    · omega
  case isFalse => rfl

theorem standardize_eq (ts : Timespec) :
    ts.standardize = ⟨ts.tvSec + ts.tvNsec / 1000000000, ts.tvNsec % 1000000000⟩ := by
  unfold standardize
  apply carry_borrow_eq
  · omega
  · omega

theorem standardize_normal (ts : Timespec) : ts.standardize.Normal := by
  rw [standardize_eq]
  constructor
  · exact Int.emod_nonneg _ (by decide)
  · exact Int.emod_lt_of_pos _ (by decide)

/-- Both loops end: whatever the bound on their iterations, once it covers the seconds in
    `tv_nsec` each loop is left by its condition, and the result is `standardize`. -/
theorem standardize_terminates {fuel : ℕ} {ts : Timespec}
    (h : |ts.tvNsec| ≤ fuel * 1000000000) : 0 ≤ (borrow fuel ts).tvNsec ∧
      carry fuel (borrow fuel ts) = ts.standardize ∧ ts.standardize.tvNsec < 1000000000 := by
  rw [abs_le] at h
  have hborrow : -ts.tvNsec ≤ fuel * 1000000000 := by omega
  obtain ⟨hnonneg, hlt⟩ := borrow_bounds hborrow
  refine ⟨hnonneg, ?_, ?_⟩
  · rw [standardize_eq]
    apply carry_borrow_eq hborrow
    omega
  · exact (standardize_normal ts).2

@[simp] theorem ns_standardize (ts : Timespec) : ts.standardize.ns = ts.ns := by
  rw [standardize_eq]
  simp only [ns]
  omega

/-- A normal timespec is determined by its nanoseconds. -/
theorem Normal.ext {a b : Timespec} (ha : a.Normal) (hb : b.Normal) (h : a.ns = b.ns) : a = b := by
  obtain ⟨aSec, aNsec⟩ := a
  obtain ⟨bSec, bNsec⟩ := b
  simp only [Normal, ns] at ha hb h
  congr 1 <;> omega

/-- `standardize` picks the one normal timespec among all that stand for the same instant. -/
theorem standardize_iff {ts result : Timespec} :
    result = ts.standardize ↔ result.Normal ∧ result.ns = ts.ns := by
  constructor
  case mp =>
    rintro rfl
    exact ⟨standardize_normal ts, ns_standardize ts⟩
  case mpr =>
    rintro ⟨hnormal, hns⟩
    apply hnormal.ext (standardize_normal ts)
    rw [hns, ns_standardize]

theorem standardize_inj {a b : Timespec} : a.standardize = b.standardize ↔ a.ns = b.ns := by
  rw [standardize_iff, ns_standardize]
  exact and_iff_right (standardize_normal a)

@[simp] theorem ns_zero : (⟨0, 0⟩ : Timespec).ns = 0 := rfl

/-! ### The operators on nanoseconds -/

@[simp] theorem ns_add (lhs rhs : Timespec) : (lhs + rhs).ns = lhs.ns + rhs.ns := by
  change (add lhs rhs).ns = _
  rw [add, ns_standardize]
  simp only [ns]
  omega

@[simp] theorem ns_addNsec (lhs : Timespec) (rhs : ℤ) : (lhs + rhs).ns = lhs.ns + rhs := by
  change (addNsec lhs rhs).ns = _
  rw [addNsec, ns_standardize]
  simp only [ns]
  omega

@[simp] theorem ns_sub (lhs rhs : Timespec) : (lhs - rhs).ns = lhs.ns - rhs.ns := by
  change (sub lhs rhs).ns = _
  rw [sub, ns_standardize]
  simp only [ns]
  omega

@[simp] theorem ns_subNsec (lhs : Timespec) (rhs : ℤ) : (lhs - rhs).ns = lhs.ns - rhs := by
  change (subNsec lhs rhs).ns = _
  rw [subNsec, ns_standardize]
  simp only [ns]
  omega

@[simp] theorem ns_neg (lhs : Timespec) : (-lhs).ns = -lhs.ns := by
  change (neg lhs).ns = _
  rw [neg, ns_standardize]
  simp only [ns]
  omega

theorem normal_add (lhs rhs : Timespec) : (lhs + rhs).Normal := standardize_normal _

theorem normal_sub (lhs rhs : Timespec) : (lhs - rhs).Normal := standardize_normal _

theorem normal_div (lhs : Timespec) (rhs : ℚ) : (lhs / rhs).Normal := standardize_normal _

theorem normal_addNsec (lhs : Timespec) (rhs : ℤ) : (lhs + rhs).Normal := standardize_normal _

theorem normal_subNsec (lhs : Timespec) (rhs : ℤ) : (lhs - rhs).Normal := standardize_normal _

theorem normal_neg (lhs : Timespec) : (-lhs).Normal := standardize_normal _

/-- What `operator/` computes on the way to a half: the seconds are truncated towards zero, and
    half a second of their sign may be left. -/
theorem half_parts (sec : ℤ) :
    truncate ((sec : ℚ) / 2) = sec.tdiv 2 ∧ (sec : ℚ) / 2 - sec.tdiv 2 = (sec.tmod 2 : ℤ) / 2 := by
  have hparts : 2 * sec.tdiv 2 + sec.tmod 2 = sec := Int.mul_tdiv_add_tmod sec 2
  have hcast : (sec : ℚ) = 2 * (sec.tdiv 2 : ℤ) + (sec.tmod 2 : ℤ) := by exact_mod_cast hparts.symm
  refine ⟨by exact_mod_cast truncate_div sec 2, ?_⟩
  rw [hcast]
  ring

theorem truncate_half_nonneg {nsec : ℤ} (h : 0 ≤ nsec) : truncate ((nsec : ℚ) / 2) = nsec / 2 := by
  rw [(half_parts nsec).1, Int.tdiv_eq_ediv_of_nonneg h]

theorem half_eq {ts : Timespec} (h : ts.Normal) : ts / (2 : ℚ) =
    standardize ⟨ts.tvSec.tdiv 2, ts.tvSec.tmod 2 * 500000000 + ts.tvNsec / 2⟩ := by
  obtain ⟨sec, nsec⟩ := ts
  obtain ⟨hsec, hrest⟩ := half_parts sec
  have hnsec : ((sec.tmod 2 : ℤ) / 2 * 1000000000 + (nsec / 2 : ℤ) : ℚ) =
      ((sec.tmod 2 * 500000000 + nsec / 2 : ℤ) : ℚ) := by
    push_cast
    ring
  change div ⟨sec, nsec⟩ 2 = _
  rw [div]
  dsimp only
  rw [hsec, hrest, truncate_half_nonneg h.1, hnsec, truncate_intCast]

/-- A half rounds down, for either sign. -/
theorem ns_half {ts : Timespec} (h : ts.Normal) : (ts / (2 : ℚ)).ns = ts.ns / 2 := by
  have hparts : 2 * ts.tvSec.tdiv 2 + ts.tvSec.tmod 2 = ts.tvSec := Int.mul_tdiv_add_tmod _ 2
  rw [half_eq h, ns_standardize]
  simp only [ns]
  omega

/-- Below 2⁵³ seconds no operation of a halving rounds. -/
theorem divRounded_half {round : ℚ → ℚ} (hround : IsExact round) {ts : Timespec} (h : ts.Normal)
    (hbound : |ts.tvSec| < 2 ^ 53) : divRounded round ts 2 = ts / (2 : ℚ) := by
  obtain ⟨sec, nsec⟩ := ts
  obtain ⟨hnonneg, hlt⟩ := h
  obtain ⟨hsec, hrest⟩ := half_parts sec
  dsimp only at hnonneg hlt hbound
  have hint (n : ℤ) (hn : |n| ≤ 2 ^ 53) : round n = n := hround _ (representable_intCast hn)
  have hhalf (n : ℤ) (hn : |n| ≤ 2 ^ 53) : round (n / 2) = n / 2 := hround _ (representable_half hn)
  have hparts : 2 * sec.tdiv 2 + sec.tmod 2 = sec := Int.mul_tdiv_add_tmod sec 2
  have hmod : |sec.tmod 2| ≤ 1 := by
    have hlow := Int.lt_tmod_of_pos sec (b := 2) (by norm_num)
    have hhigh := Int.tmod_lt_of_pos sec (b := 2) (by norm_num)
    rw [abs_le]
    omega
  rw [abs_lt] at hbound
  rw [abs_le] at hmod
  have hscaled : (sec.tmod 2 : ℚ) / 2 * 1000000000 = (sec.tmod 2 * 500000000 : ℤ) := by
    push_cast
    ring
  have hsum : ((sec.tmod 2 * 500000000 : ℤ) + (nsec / 2 : ℤ) : ℚ) =
      ((sec.tmod 2 * 500000000 + nsec / 2 : ℤ) : ℚ) := (Int.cast_add _ _).symm
  rw [half_eq ⟨hnonneg, hlt⟩, divRounded]
  dsimp only
  rw [hint sec (abs_le.mpr (by omega)), hhalf sec (abs_le.mpr (by omega)), hsec,
    hint (sec.tdiv 2) (abs_le.mpr (by omega)), hrest, hhalf _ (abs_le.mpr (by omega)), hscaled,
    hint _ (abs_le.mpr (by omega)), hint nsec (abs_le.mpr (by omega)),
    hhalf nsec (abs_le.mpr (by omega)), truncate_half_nonneg hnonneg,
    hint _ (abs_le.mpr (by omega)), hsum, hint _ (abs_le.mpr (by omega)), truncate_intCast]

theorem lt_iff_ns (lhs rhs : Timespec) : lhs < rhs ↔ lhs.ns < rhs.ns := by
  change lt lhs rhs = true ↔ _
  obtain ⟨lsec, lnsec⟩ := lhs
  obtain ⟨rsec, rnsec⟩ := rhs
  simp only [lt, standardize_eq, ns]
  split
  · simp only [true_iff]; omega
  · split
    · simp only [true_iff]; omega
    · simp only [Bool.false_eq_true, false_iff]; omega

theorem le_iff_ns (lhs rhs : Timespec) : lhs ≤ rhs ↔ lhs.ns ≤ rhs.ns := by
  change (!rhs.lt lhs) = true ↔ _
  rw [Bool.not_eq_true', Bool.eq_false_iff, ne_eq, show rhs.lt lhs = true ↔ rhs < lhs from Iff.rfl,
    lt_iff_ns, not_lt]

theorem gt_iff_ns (lhs rhs : Timespec) : lhs.gt rhs = true ↔ lhs.ns > rhs.ns := lt_iff_ns rhs lhs

theorem ge_iff_ns (lhs rhs : Timespec) : lhs.ge rhs = true ↔ lhs.ns ≥ rhs.ns := le_iff_ns rhs lhs

theorem ne_iff_ns (lhs rhs : Timespec) : lhs.ne rhs = true ↔ lhs.ns ≠ rhs.ns := by
  have hfields (a b : Timespec) : a.tvSec ≠ b.tvSec ∨ a.tvNsec ≠ b.tvNsec ↔ a ≠ b := by
    obtain ⟨aSec, aNsec⟩ := a
    obtain ⟨bSec, bNsec⟩ := b
    rw [Ne, Ne, Ne, Timespec.mk.injEq, not_and_or]
  rw [Ne, ← standardize_inj]
  simp only [ne, hfields]
  split <;> simp_all

theorem eq_iff_ns (lhs rhs : Timespec) : lhs.eq rhs = true ↔ lhs.ns = rhs.ns := by
  rw [eq, Bool.not_eq_true', Bool.eq_false_iff, ne_eq, ne_iff_ns, not_not]

theorem toDouble_eq_ns (ts : Timespec) : ts.toDouble = ts.ns / 1000000000 := by
  simp only [toDouble, ns]
  push_cast
  ring

/-- timespec.h is arithmetic on the integer number of nanoseconds: `standardize` ends and picks
    the normal form of an instant, the operators are those of the integers in normal form, and the
    comparisons are those of the integers, so that `==` joins the representations of one instant
    and `<=` is a total order on what it joins. -/
theorem arithmetic_is_integer (lhs rhs : Timespec) (count : ℤ) :
    (∃ least, ∀ fuel ≥ least, 0 ≤ (borrow fuel lhs).tvNsec ∧
      carry fuel (borrow fuel lhs) = lhs.standardize ∧ lhs.standardize.tvNsec < 1000000000) ∧
    (∀ result : Timespec, result = lhs.standardize ↔ result.Normal ∧ result.ns = lhs.ns) ∧
    ((lhs + rhs).Normal ∧ (lhs + rhs).ns = lhs.ns + rhs.ns) ∧
    ((lhs - rhs).Normal ∧ (lhs - rhs).ns = lhs.ns - rhs.ns) ∧
    ((-lhs).Normal ∧ (-lhs).ns = -lhs.ns) ∧
    ((lhs + count).Normal ∧ (lhs + count).ns = lhs.ns + count) ∧
    ((lhs - count).Normal ∧ (lhs - count).ns = lhs.ns - count) ∧
    ((lhs.addAssign rhs).Normal ∧ (lhs.addAssign rhs).ns = lhs.ns + rhs.ns) ∧
    ((lhs.subAssign rhs).Normal ∧ (lhs.subAssign rhs).ns = lhs.ns - rhs.ns) ∧
    ((lhs.addAssignNsec count).Normal ∧ (lhs.addAssignNsec count).ns = lhs.ns + count) ∧
    ((lhs.subAssignNsec count).Normal ∧ (lhs.subAssignNsec count).ns = lhs.ns - count) ∧
    ((lhs.eq rhs = true ↔ lhs.ns = rhs.ns) ∧ (lhs.ne rhs = true ↔ lhs.ns ≠ rhs.ns) ∧
      (lhs < rhs ↔ lhs.ns < rhs.ns) ∧ (lhs.gt rhs = true ↔ lhs.ns > rhs.ns) ∧
      (lhs ≤ rhs ↔ lhs.ns ≤ rhs.ns) ∧ (lhs.ge rhs = true ↔ lhs.ns ≥ rhs.ns)) ∧
    ((lhs ≤ rhs ∨ rhs ≤ lhs) ∧ (lhs ≤ rhs ∧ rhs ≤ lhs ↔ lhs.eq rhs = true) ∧
      ∀ mid : Timespec, lhs ≤ mid → mid ≤ rhs → lhs ≤ rhs) := by
  have hends : ∃ least, ∀ fuel ≥ least, 0 ≤ (borrow fuel lhs).tvNsec ∧
      carry fuel (borrow fuel lhs) = lhs.standardize ∧ lhs.standardize.tvNsec < 1000000000 := by
    refine ⟨lhs.tvNsec.natAbs, fun fuel hfuel => standardize_terminates ?_⟩
    rw [abs_le]
    omega
  have htotal : (lhs ≤ rhs ∨ rhs ≤ lhs) ∧ (lhs ≤ rhs ∧ rhs ≤ lhs ↔ lhs.eq rhs = true) ∧
      ∀ mid : Timespec, lhs ≤ mid → mid ≤ rhs → lhs ≤ rhs := by
    simp only [le_iff_ns, eq_iff_ns]
    exact ⟨le_total _ _, le_antisymm_iff.symm, fun mid => le_trans⟩
  refine ⟨hends, fun result => standardize_iff, ⟨normal_add .., ns_add ..⟩,
    ⟨normal_sub .., ns_sub ..⟩, ⟨normal_neg .., ns_neg ..⟩, ⟨normal_addNsec .., ns_addNsec ..⟩,
    ⟨normal_subNsec .., ns_subNsec ..⟩, ⟨normal_add .., ns_add ..⟩, ⟨normal_sub .., ns_sub ..⟩,
    ⟨normal_addNsec .., ns_addNsec ..⟩, ⟨normal_subNsec .., ns_subNsec ..⟩,
    ⟨eq_iff_ns .., ne_iff_ns .., lt_iff_ns .., gt_iff_ns .., le_iff_ns .., ge_iff_ns ..⟩, htotal⟩

/-! ### The operators with a double -/

theorem ns_ofSeconds (seconds nsec : ℚ) : (ofSeconds seconds nsec).ns = truncate seconds *
    1000000000 + truncate ((seconds - (truncate seconds : ℤ)) * 1000000000 + nsec) := by
  rw [ofSeconds, ns_standardize, ns]

/-- Only the last truncation shows: what the first one cuts off joins the nanoseconds. -/
theorem abs_ns_ofSeconds_sub_lt (seconds nsec : ℚ) :
    |((ofSeconds seconds nsec).ns : ℚ) - (seconds * 1000000000 + nsec)| < 1 := by
  have hlast := abs_truncate_sub_lt ((seconds - (truncate seconds : ℤ)) * 1000000000 + nsec)
  rw [ns_ofSeconds]
  push_cast
  calc _ = |(truncate ((seconds - (truncate seconds : ℤ)) * 1000000000 + nsec) : ℚ) -
        ((seconds - (truncate seconds : ℤ)) * 1000000000 + nsec)| := by congr 1; ring
    _ < 1 := hlast

theorem normal_ofSeconds (seconds nsec : ℚ) : (ofSeconds seconds nsec).Normal :=
  standardize_normal _

theorem addDouble_eq (lhs : Timespec) (rhs : ℚ) :
    lhs + rhs = ofSeconds (lhs.tvSec + rhs) lhs.tvNsec := by
  change addDouble lhs rhs = _
  rw [addDouble]

theorem subDouble_eq (lhs : Timespec) (rhs : ℚ) :
    lhs - rhs = ofSeconds (lhs.tvSec - rhs) lhs.tvNsec := by
  change subDouble lhs rhs = _
  rw [subDouble]

theorem mulDouble_eq (lhs : Timespec) (rhs : ℚ) :
    lhs * rhs = ofSeconds (lhs.tvSec * rhs) (lhs.tvNsec * rhs) := by
  change mulDouble lhs rhs = _
  rw [mulDouble]

/-- The quotient of the nanoseconds is truncated on its own first. -/
theorem div_eq (lhs : Timespec) (rhs : ℚ) :
    lhs / rhs = ofSeconds (lhs.tvSec / rhs) (truncate (lhs.tvNsec / rhs) : ℤ) := by
  change div lhs rhs = _
  rw [div, ofSeconds]

theorem ns_cast (ts : Timespec) : (ts.ns : ℚ) = ts.tvSec * 1000000000 + ts.tvNsec := by
  simp only [ns]
  push_cast
  ring

/-- The operators with a double are within a nanosecond of exact arithmetic, and the division,
    which truncates twice, within two. -/
theorem double_operators_close (lhs : Timespec) (rhs : ℚ) :
    ((lhs + rhs).Normal ∧ |((lhs + rhs).ns : ℚ) - (lhs.ns + rhs * 1000000000)| < 1) ∧
    ((lhs - rhs).Normal ∧ |((lhs - rhs).ns : ℚ) - (lhs.ns - rhs * 1000000000)| < 1) ∧
    ((lhs * rhs).Normal ∧ |((lhs * rhs).ns : ℚ) - lhs.ns * rhs| < 1) ∧
    (rhs ≠ 0 → (lhs / rhs).Normal ∧ |((lhs / rhs).ns : ℚ) - lhs.ns / rhs| < 2) := by
  have hadd : (lhs.tvSec + rhs) * 1000000000 + lhs.tvNsec = lhs.ns + rhs * 1000000000 := by
    rw [ns_cast]; ring
  have hsub : (lhs.tvSec - rhs) * 1000000000 + lhs.tvNsec = lhs.ns - rhs * 1000000000 := by
    rw [ns_cast]; ring
  have hmul : lhs.tvSec * rhs * 1000000000 + lhs.tvNsec * rhs = lhs.ns * rhs := by
    rw [ns_cast]; ring
  refine ⟨?_, ?_, ?_, ?_⟩
  case refine_1 =>
    rw [addDouble_eq, ← hadd]
    exact ⟨normal_ofSeconds .., abs_ns_ofSeconds_sub_lt ..⟩
  case refine_2 =>
    rw [subDouble_eq, ← hsub]
    exact ⟨normal_ofSeconds .., abs_ns_ofSeconds_sub_lt ..⟩
  case refine_3 =>
    rw [mulDouble_eq, ← hmul]
    exact ⟨normal_ofSeconds .., abs_ns_ofSeconds_sub_lt ..⟩
  case refine_4 =>
    intro _
    have hfirst := abs_truncate_sub_lt ((lhs.tvNsec : ℚ) / rhs)
    have hlast := abs_ns_ofSeconds_sub_lt (lhs.tvSec / rhs) (truncate (lhs.tvNsec / rhs : ℚ) : ℤ)
    have hdiv : (lhs.ns : ℚ) / rhs = lhs.tvSec / rhs * 1000000000 + lhs.tvNsec / rhs := by
      rw [ns_cast]; ring
    rw [div_eq, hdiv]
    refine ⟨normal_ofSeconds .., ?_⟩
    rw [abs_lt] at hfirst hlast ⊢
    constructor
    · linarith
    · linarith

/-- A division of a negative instant, not normalised, by a negative fraction. -/
theorem double_operators_close_negative :
    ((⟨-3, 2000000001⟩ : Timespec) / (-3 / 2 : ℚ)).Normal ∧
      |(((⟨-3, 2000000001⟩ : Timespec) / (-3 / 2 : ℚ)).ns : ℚ) -
        (⟨-3, 2000000001⟩ : Timespec).ns / (-3 / 2 : ℚ)| < 2 :=
  (double_operators_close ⟨-3, 2000000001⟩ (-3 / 2)).2.2.2 (by norm_num)

end Timespec

end TriHaRd
