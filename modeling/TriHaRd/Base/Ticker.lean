-- SUMMARY: A counter that fires when it equals its bound, while the bound may grow between two calls.
import TriHaRd.Base.Run
import Mathlib.Data.Int.Basic
import Mathlib.Data.List.Count

/-!
# Tickers

A ticker counts calls, and fires when the count equals a bound. Others may change
the bound between two calls. The test for equality never misses the bound as long
as the bound does not shrink.
-/

namespace Lts

variable {σ α ε : Type*}

/-- Some steps are `calls` of a ticker. Each counts one and compares `count` with `bound`; when they
    are equal it fires and starts anew. The bound does not shrink in a state of `I`. -/
structure Ticker (step : σ → α → Option (σ × List ε)) (I : σ → Prop) (count bound : σ → ℤ)
    (calls : Transition σ α ε → Bool) : Prop where
  invariant : ∀ t : Transition σ α ε, t.IsStep step → I t.pre → I t.post
  grow : ∀ t : Transition σ α ε, t.IsStep step → I t.pre → bound t.pre ≤ bound t.post
  call : ∀ t : Transition σ α ε, t.IsStep step → calls t = true →
    count t.post = if count t.pre + 1 = bound t.pre then 0 else count t.pre + 1
  keep : ∀ t : Transition σ α ε, t.IsStep step → calls t = false → count t.post = count t.pre

/-- The step is a call that fires. -/
def Transition.fires (count bound : σ → ℤ) (calls : Transition σ α ε → Bool)
    (t : Transition σ α ε) : Bool :=
  calls t && decide (count t.pre + 1 = bound t.pre)

namespace Ticker

variable {step : σ → α → Option (σ × List ε)} {I : σ → Prop} {count bound : σ → ℤ}
  {calls : Transition σ α ε → Bool} {s₀ s : σ} {tr : List (Transition σ α ε)}
  {t : Transition σ α ε}

theorem count_of_fires (h : Ticker step I count bound calls) (hs : t.IsStep step)
    (hfires : t.fires count bound calls = true) : count t.post = 0 := by
  obtain ⟨hcall, hreached⟩ := Bool.and_eq_true_iff.mp hfires
  rw [h.call t hs hcall, if_pos (of_decide_eq_true hreached)]

theorem count_of_not_fires (h : Ticker step I count bound calls) (hs : t.IsStep step)
    (hfires : t.fires count bound calls = false) :
    count t.post = count t.pre + if calls t = true then 1 else 0 := by
  cases hcall : calls t with
  | true =>
      rw [Transition.fires, hcall, Bool.true_and, decide_eq_false_iff_not] at hfires
      rw [h.call t hs hcall, if_neg hfires, if_pos rfl]
  | false => simpa using h.keep t hs hcall

/-- The count stays below the bound. -/
theorem below_step (h : Ticker step I count bound calls) (hs : t.IsStep step) (hI : I t.pre)
    (hbelow : 0 ≤ count t.pre ∧ count t.pre < bound t.pre) :
    0 ≤ count t.post ∧ count t.post < bound t.post := by
  have hgrow := h.grow t hs hI
  cases hcall : calls t with
  | true =>
      rw [h.call t hs hcall]
      split_ifs <;> omega
  | false =>
      rw [h.keep t hs hcall]
      omega

theorem below (h : Ticker step I count bound calls) (hrun : Run step s₀ tr s) (hI : I s₀)
    (hbelow : 0 ≤ count s₀ ∧ count s₀ < bound s₀) :
    ∀ t ∈ tr, 0 ≤ count t.post ∧ count t.post < bound t.post := by
  intro t ht
  refine (hrun.invariant_at (I := fun s => I s ∧ 0 ≤ count s ∧ count s < bound s)
    (P := fun _ => True) (fun t hs _ hpre => ?_) (fun _ _ => trivial) ⟨hI, hbelow⟩ t ht).2.2
  exact ⟨h.invariant t hs hpre.1, h.below_step hs hpre.1 hpre.2⟩

/-- Until it fires, the ticker counts its calls. -/
theorem count_of_run (h : Ticker step I count bound calls) (hrun : Run step s₀ tr s)
    (hquiet : ∀ t ∈ tr, t.fires count bound calls = false) :
    count s = count s₀ + tr.countP calls := by
  induction hrun with
  | refl => simp
  | @snoc tr t _ hs ih =>
      have hlast : t.fires count bound calls = false := hquiet t (by simp)
      have hinit : count t.pre = count s₀ + tr.countP calls :=
        ih fun u hu => hquiet u (List.mem_append_left _ hu)
      rw [h.count_of_not_fires hs hlast, hinit, List.countP_append, List.countP_singleton]
      split_ifs <;> push_cast <;> omega

/-- From one firing to the next, the second one included, there are as many calls as the bound of
    the second one says. -/
theorem calls_between {before mid after : List (Transition σ α ε)} {t₁ t₂ : Transition σ α ε}
    (h : Ticker step I count bound calls)
    (hrun : Run step s₀ (before ++ t₁ :: (mid ++ t₂ :: after)) s)
    (h₁ : t₁.fires count bound calls = true) (h₂ : t₂.fires count bound calls = true)
    (hquiet : ∀ t ∈ mid, t.fires count bound calls = false) :
    ((mid ++ [t₂]).countP calls : ℤ) = bound t₂.pre := by
  obtain ⟨_, hs₁, hrest⟩ := hrun.split_at
  obtain ⟨hmid, _, _⟩ := hrest.split_at
  obtain ⟨hcall, hreached⟩ := Bool.and_eq_true_iff.mp h₂
  have hcount : count t₂.pre = count t₁.post + mid.countP calls := h.count_of_run hmid hquiet
  rw [h.count_of_fires hs₁ h₁] at hcount
  rw [← of_decide_eq_true hreached, hcount, List.countP_append, List.countP_singleton, if_pos hcall]
  push_cast
  omega

end Ticker

end Lts
