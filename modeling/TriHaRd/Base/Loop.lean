-- SUMMARY: Counted loops, and their rule.
import Mathlib.Data.List.Basic
import Mathlib.Order.Basic

/-!
# Counted loops

`forUpTo start stop step body` is `for (i = start; i < stop; i += step) body`.
-/

namespace Loop

variable {σ : Type*} {start stop step : ℕ} {body : ℕ → σ → σ} {s : σ}

/-- How often the loop goes round. -/
def rounds (start stop step : ℕ) : ℕ := (stop - start + (step - 1)) / step

def forUpTo (start stop step : ℕ) (body : ℕ → σ → σ) (s : σ) : σ :=
  (List.range (rounds start stop step)).foldl (fun s k => body (start + step * k) s) s

theorem lt_stop_of_lt_rounds {k : ℕ} (h : k < rounds start stop step) :
    start + step * k < stop := by
  obtain rfl | hpos := Nat.eq_zero_or_pos step
  · simp [rounds] at h
  · have hmul : (k + 1) * step ≤ stop - start + (step - 1) := (Nat.le_div_iff_mul_le hpos).mp h
    rw [Nat.add_mul, Nat.one_mul, Nat.mul_comm] at hmul
    omega

/-- What every round preserves holds in the end. -/
theorem forUpTo_induct (start stop step : ℕ) (body : ℕ → σ → σ) {P : ℕ → σ → Prop}
    (hstart : P 0 s)
    (hstep : ∀ k s, start + step * k < stop → P k s → P (k + 1) (body (start + step * k) s)) :
    P (rounds start stop step) (forUpTo start stop step body s) := by
  have hsteps (k : ℕ) (hk : k ≤ rounds start stop step) :
      P k ((List.range k).foldl (fun s k => body (start + step * k) s) s) := by
    induction k with
    | zero => exact hstart
    | succ k ih =>
        rw [List.range_succ, List.foldl_append, List.foldl_cons, List.foldl_nil]
        exact hstep k _ (lt_stop_of_lt_rounds hk) (ih (by omega))
  exact hsteps _ (Nat.le_refl _)

/-- A loop over a whole number of steps. -/
theorem rounds_of_dvd {n : ℕ} (hstep : 0 < step) : rounds start (start + step * n) step = n := by
  rw [rounds, Nat.add_sub_cancel_left, Nat.mul_add_div hstep, Nat.div_eq_of_lt (by omega),
    Nat.add_zero]

end Loop
