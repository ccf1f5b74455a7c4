-- SUMMARY: How much the calls of get_timestamp that were made before change the timestamp of a later one.
import TriHaRd.Node.System

/-!
# Reading the clock

Every call of `get_timestamp` drops the fraction of a nanosecond and makes the
result the new reference. The fractions add up: after `n` calls, the timestamp
may be off by `n` nanoseconds from the one without these calls. As long as the
TSC does not lie before the reference, it is behind and never ahead.
-/

namespace TriHaRd

open Truncate

/-- The TSC takes the values `tscs` one after the other, and at `calls` of them a call of
    `get_timestamp`, forced or not, returns. Nothing else happens to the clock. -/
inductive Polls : ENode → List ℤ → ℕ → ENode → Prop where
  | done (s : ENode) : Polls s [] 0 s
  | pass {s s' : ENode} {tsc : ℤ} {tscs : List ℤ} {calls : ℕ} :
      Polls { s with tsc := tsc } tscs calls s' → Polls s (tsc :: tscs) calls s'
  | call {s m s' : ENode} {tsc : ℤ} {tscs : List ℤ} {calls : ℕ} {ts : Timespec}
      (force : Bool) (memTsc : ℤ) :
      { s with tsc := tsc }.getTimestamp force memTsc = some (m, ts) →
      Polls m tscs calls s' → Polls s (tsc :: tscs) (calls + 1) s'

namespace Polls

variable {s s' : ENode} {tsc : ℤ} {tscs : List ℤ} {calls : ℕ}

/-- The nanoseconds that a read at `tsc` returns. -/
def readAt (s : ENode) (tsc : ℤ) : ℤ := { s with tsc := tsc }.readClock.2.ns

theorem readAt_eq (s : ENode) (tsc : ℤ) :
    readAt s tsc = s.tsRef.ns + truncate ((tsc + s.tscOffset - s.tscRef : ℤ) / s.tscFreq) :=
  ENode.ns_readClock { s with tsc := tsc }

/-- A later read after one at `tsc₁` adds up two truncated stretches. -/
theorem readAt_after_read (s : ENode) (tsc₁ tsc₂ : ℤ) :
    readAt { s with tsc := tsc₁ }.readClock.1 tsc₂ =
      s.tsRef.ns + (truncate ((tsc₁ + s.tscOffset - s.tscRef : ℤ) / s.tscFreq) +
        truncate ((tsc₂ - tsc₁ : ℤ) / s.tscFreq)) := by
  have hfirst : { s with tsc := tsc₁ }.readClock.2.ns =
      s.tsRef.ns + truncate ((tsc₁ + s.tscOffset - s.tscRef : ℤ) / s.tscFreq) := readAt_eq s tsc₁
  have hgap : tsc₂ + s.tscOffset - (tsc₁ + s.tscOffset) = tsc₂ - tsc₁ := by omega
  rw [readAt_eq, ENode.readClock_tsRef, hfirst, ENode.readClock_tscRef, add_assoc]
  dsimp only [ENode.readClock]
  rw [hgap]

/-- The whole stretch is the sum of the two. -/
theorem stretch_add (s : ENode) (tsc₁ tsc₂ : ℤ) :
    ((tsc₂ + s.tscOffset - s.tscRef : ℤ) / s.tscFreq : ℚ) =
      (tsc₁ + s.tscOffset - s.tscRef : ℤ) / s.tscFreq + (tsc₂ - tsc₁ : ℤ) / s.tscFreq := by
  rw [← add_div]
  push_cast
  ring

theorem abs_readAt_sub_le (h : Polls s tscs calls s') (hfreq : 0 < s.tscFreq)
    (hsorted : (tscs ++ [tsc]).Pairwise (· ≤ ·)) :
    |readAt s' tsc - readAt s tsc| ≤ calls := by
  induction h with
  | done s => simp
  | pass _ ih => exact ih hfreq (List.pairwise_cons.mp hsorted).2
  | @call s m s' tsc₁ tscs calls ts force memTsc hread _ ih =>
      obtain rfl : m = { s with tsc := tsc₁ }.readClock.1 :=
        congrArg Prod.fst (ENode.getTimestamp_eq_some hread)
      obtain ⟨hle, hrest⟩ := List.pairwise_cons.mp hsorted
      have hlater := ih hfreq hrest
      have hgap : (0 : ℚ) ≤ (tsc - tsc₁ : ℤ) / s.tscFreq := by
        refine div_nonneg ?_ hfreq.le
        exact_mod_cast sub_nonneg.mpr (hle tsc (by simp))
      have hone := abs_truncate_add_sub_le
        (a := (tsc₁ + s.tscOffset - s.tscRef : ℤ) / s.tscFreq) hgap
      rw [← stretch_add] at hone
      rw [readAt_after_read] at hlater
      rw [readAt_eq s]
      rw [abs_le] at hlater hone ⊢
      constructor <;> omega

theorem readAt_le (h : Polls s tscs calls s') (hfreq : 0 < s.tscFreq)
    (hsorted : (tscs ++ [tsc]).Pairwise (· ≤ ·))
    (href : ∀ tsc₁ ∈ tscs, s.tscRef ≤ tsc₁ + s.tscOffset) :
    readAt s' tsc ≤ readAt s tsc := by
  induction h with
  | done s => exact le_refl _
  | pass _ ih =>
      exact ih hfreq (List.pairwise_cons.mp hsorted).2
        fun tsc₂ h₂ => href tsc₂ (List.mem_cons_of_mem _ h₂)
  | @call s m s' tsc₁ tscs calls ts force memTsc hread _ ih =>
      obtain rfl : m = { s with tsc := tsc₁ }.readClock.1 :=
        congrArg Prod.fst (ENode.getTimestamp_eq_some hread)
      obtain ⟨hle, hrest⟩ := List.pairwise_cons.mp hsorted
      have hlater : readAt s' tsc ≤ readAt { s with tsc := tsc₁ }.readClock.1 tsc := by
        refine ih hfreq hrest fun tsc₂ h₂ => ?_
        have := hle tsc₂ (List.mem_append_left _ h₂)
        dsimp only [ENode.readClock]
        omega
      have hgap : (0 : ℚ) ≤ (tsc - tsc₁ : ℤ) / s.tscFreq := by
        refine div_nonneg ?_ hfreq.le
        exact_mod_cast sub_nonneg.mpr (hle tsc (by simp))
      have hfirst : (0 : ℚ) ≤ (tsc₁ + s.tscOffset - s.tscRef : ℤ) / s.tscFreq := by
        refine div_nonneg ?_ hfreq.le
        exact_mod_cast sub_nonneg.mpr (href tsc₁ List.mem_cons_self)
      have hsum := truncate_add_le hfirst hgap
      rw [← stretch_add] at hsum
      rw [readAt_after_read] at hlater
      rw [readAt_eq s]
      omega

end Polls

/-- The timestamp of a call at `tsc` after `calls` other calls, and that of the same call
    without them, differ by at most one nanosecond for each of the other calls. If no TSC
    value lies before the reference, the calls can only make it earlier. -/
theorem polls_disturb_le {s s' u v : ENode} {tscs : List ℤ} {tsc memTsc memTsc' : ℤ} {calls : ℕ}
    {force force' : Bool} {polled direct : Timespec} (hfreq : 0 < s.tscFreq)
    (hsorted : (tscs ++ [tsc]).Pairwise (· ≤ ·)) (hpolls : Polls s tscs calls s')
    (hpolled : { s' with tsc := tsc }.getTimestamp force memTsc = some (u, polled))
    (hdirect : { s with tsc := tsc }.getTimestamp force' memTsc' = some (v, direct)) :
    |polled.ns - direct.ns| ≤ calls ∧
      ((∀ tsc₁ ∈ tscs, s.tscRef ≤ tsc₁ + s.tscOffset) → polled ≤ direct) := by
  obtain rfl : polled = _ := congrArg Prod.snd (ENode.getTimestamp_eq_some hpolled)
  obtain rfl : direct = _ := congrArg Prod.snd (ENode.getTimestamp_eq_some hdirect)
  refine ⟨hpolls.abs_readAt_sub_le hfreq hsorted, fun href => ?_⟩
  rw [Timespec.le_iff_ns]
  exact hpolls.readAt_le hfreq hsorted href

/-- The node of the scenario after the initialisation of its clock at tick 0. -/
def Scenario.started : ENode := { boot.node with tsRef := ⟨1000, 0⟩ }

open Scenario in
/-- The theorem at three ticks of half a nanosecond, with a call at the first of them. -/
theorem polls_disturb_le_started :
    let s' := { { started with tsc := 1 }.readClock.1 with tsc := 2 }
    Polls started [1, 2] 1 s' ∧
      |{ s' with tsc := 3 }.readClock.2.ns - { started with tsc := 3 }.readClock.2.ns| ≤
          ((1 : ℕ) : ℤ) ∧
      ((∀ tsc₁ ∈ [1, 2], started.tscRef ≤ tsc₁ + started.tscOffset) →
        { s' with tsc := 3 }.readClock.2 ≤ { started with tsc := 3 }.readClock.2) := by
  intro s'
  have hpolls : Polls started [1, 2] 1 s' := .call true 0 rfl (.pass (.done _))
  have hpolled : { s' with tsc := 3 }.getTimestamp true 0 = some _ := rfl
  have hdirect : { started with tsc := 3 }.getTimestamp true 0 = some _ := rfl
  exact ⟨hpolls, polls_disturb_le (by decide +kernel) (by decide) hpolls hpolled hdirect⟩

open Scenario in
/-- With two ticks for each nanosecond, a call at the first tick drops half a nanosecond that
    the call at the second tick then misses. -/
theorem polls_disturb :
    ¬ ∀ (s s' u v : ENode) (tscs : List ℤ) (tsc memTsc memTsc' : ℤ) (calls : ℕ)
        (force force' : Bool) (polled direct : Timespec), s.attacker = false → s.tscOffset = 0 →
        0 < s.tscFreq → (tscs ++ [tsc]).Pairwise (· ≤ ·) → Polls s tscs calls s' →
        { s' with tsc := tsc }.getTimestamp force memTsc = some (u, polled) →
        { s with tsc := tsc }.getTimestamp force' memTsc' = some (v, direct) →
        polled = direct := by
  intro h
  have hpolls : Polls started [1] 1 _ := .call true 0 rfl (.done _)
  have heq := h started _ _ _ [1] 2 0 0 1 true true _ _ rfl rfl (by decide +kernel) (by decide)
    hpolls rfl rfl
  revert heq
  decide +kernel

end TriHaRd
