-- SUMMARY: Rounds of monitoring, the schedule on which a node should taint itself, and two ways of counting towards it.
import TriHaRd.Base.Run
import Mathlib.Data.List.Infix

/-!
# Rounds

What counts of a round is whether it was interrupted, and whether the node
tainted itself at its end. The schedule says that it does so when `n + 1`
consecutive rounds without an interruption are complete, for the bound `n`.

Both builds follow a counter that they compare with the bound after each round.
They differ in what an interrupted round leaves in it. `restarting` is the counter
that starts from zero after such a round. `resuming` is the one that counts the
rest of the round, after its last interruption, as an uninterrupted round.
-/

namespace TriHaRd

open Lts

/-- A round of monitoring. `resumed` is whether it went on after its last interruption. -/
structure Round where
  interrupted : Bool
  resumed : Bool
  selfTainted : Bool
deriving DecidableEq, Repr

namespace Round

/-! ## The schedule -/

/-- The uninterrupted rounds since the last one that was interrupted or ended in a self-taint. -/
def streak (rounds : List Round) : ℕ :=
  (rounds.reverse.takeWhile fun r => !r.interrupted && !r.selfTainted).length

/-- The node taints itself exactly in the rounds that complete `n + 1` consecutive
    uninterrupted ones. -/
def OnSchedule (n : ℕ) (rounds : List Round) : Prop :=
  EachStep (fun before r => r.selfTainted = true ↔ r.interrupted = false ∧ streak before = n) rounds

theorem streak_snoc (rounds : List Round) (r : Round) :
    streak (rounds ++ [r]) =
      if r.interrupted = false ∧ r.selfTainted = false then streak rounds + 1 else 0 := by
  cases hi : r.interrupted <;> cases ht : r.selfTainted <;>
    simp [streak, hi, ht]

/-- The schedule leaves no choice: the rounds that are interrupted determine those that end in
    a self-taint. -/
theorem OnSchedule.unique {n : ℕ} {rounds rounds' : List Round} (h : OnSchedule n rounds)
    (h' : OnSchedule n rounds') (hmarks : rounds.map interrupted = rounds'.map interrupted) :
    rounds.map selfTainted = rounds'.map selfTainted ∧ streak rounds = streak rounds' := by
  induction rounds using List.reverseRecOn generalizing rounds' with
  | nil =>
      obtain rfl : rounds' = [] := List.map_eq_nil_iff.mp hmarks.symm
      exact ⟨rfl, rfl⟩
  | append_singleton rounds r ih =>
      rcases List.eq_nil_or_concat rounds' with rfl | ⟨rounds', r', rfl⟩
      · simp at hmarks
      · rw [List.concat_eq_append] at h' hmarks ⊢
        rw [List.map_append, List.map_append] at hmarks
        obtain ⟨hinit, hlast⟩ := List.append_inj' hmarks rfl
        have hinterrupted : r.interrupted = r'.interrupted := List.singleton_inj.mp hlast
        obtain ⟨htaints, hstreak⟩ := ih h.init h'.init hinit
        have hr := h.last
        have hr' := h'.last
        rw [← hinterrupted, ← hstreak] at hr'
        have hselfTainted : r.selfTainted = r'.selfTainted :=
          Bool.eq_iff_iff.mpr (hr.trans hr'.symm)
        refine ⟨?_, ?_⟩
        · rw [List.map_append, List.map_append, htaints, List.map_singleton, List.map_singleton,
            hselfTainted]
        · rw [streak_snoc, streak_snoc, hinterrupted, hselfTainted, hstreak]

/-! ## Counters -/

/-- A counter with the update `next` has reached `c` after the rounds. When it exceeds `n` the
    node taints itself, and the counter is set to zero. -/
inductive Counted (n : ℕ) (next : Round → ℤ → ℤ) : List Round → ℤ → Prop where
  | nil : Counted n next [] 0
  | snoc {rounds : List Round} {c : ℤ} {r : Round} : Counted n next rounds c →
      (r.selfTainted = true ↔ next r c > n) →
      Counted n next (rounds ++ [r]) (if next r c > n then 0 else next r c)

/-- An interrupted round sets the counter to zero. -/
def restarting (r : Round) (c : ℤ) : ℤ := if r.interrupted then 0 else c + 1

/-- An interrupted round sets the counter to zero, and what follows its last interruption
    counts as one round. -/
def resuming (r : Round) (c : ℤ) : ℤ :=
  if r.interrupted then if r.resumed then 1 else 0 else c + 1

namespace Counted

variable {n : ℕ} {next : Round → ℤ → ℤ} {rounds : List Round} {c : ℤ}

theorem of_snoc {r : Round} (h : Counted n next (rounds ++ [r]) c) :
    ∃ c', Counted n next rounds c' ∧ (r.selfTainted = true ↔ next r c' > n) ∧
      c = if next r c' > n then 0 else next r c' := by
  generalize hl : rounds ++ [r] = l at h
  cases h with
  | nil => simp at hl
  | @snoc rounds' c' r' hcounted htaint =>
      obtain ⟨rfl, hr⟩ := List.append_inj' hl rfl
      obtain rfl := List.singleton_inj.mp hr
      exact ⟨c', hcounted, htaint, rfl⟩

/-- The restarting counter follows the schedule. -/
theorem onSchedule_of_restarting (h : Counted n restarting rounds c) :
    OnSchedule n rounds ∧ c = streak rounds ∧ streak rounds ≤ n := by
  induction h with
  | nil => exact ⟨.nil, rfl, Nat.zero_le n⟩
  | @snoc rounds c r _ htaint ih =>
      obtain ⟨honSchedule, hc, hle⟩ := ih
      have hstreak := streak_snoc rounds r
      cases hi : r.interrupted with
      | true =>
          have hnext : restarting r c = 0 := by simp [restarting, hi]
          have hnot : ¬ (0 : ℤ) > n := by omega
          simp only [hnext, hnot, iff_false, if_false, hi] at htaint hstreak ⊢
          simp only [Bool.true_eq_false, false_and, if_false] at hstreak
          refine ⟨honSchedule.snoc ?_, by rw [hstreak]; rfl, by omega⟩
          simp [htaint, hi]
      | false =>
          have hnext : restarting r c = c + 1 := by simp [restarting, hi]
          have hiff : c + 1 > n ↔ streak rounds = n := by omega
          rw [hnext, hiff] at htaint
          simp only [hnext, hi, true_and] at hstreak ⊢
          refine ⟨honSchedule.snoc (by simpa [hi] using htaint), ?_⟩
          by_cases hfull : streak rounds = n
          · simp only [htaint.mpr hfull, Bool.true_eq_false, if_false] at hstreak
            rw [if_pos (hiff.mpr hfull), hstreak]
            exact ⟨rfl, Nat.zero_le n⟩
          · have hnot : r.selfTainted = false := Bool.eq_false_iff.mpr fun ht => hfull (htaint.mp ht)
            simp only [hnot, if_true] at hstreak
            rw [if_neg fun hgt => hfull (hiff.mp hgt), hstreak]
            constructor <;> omega

end Counted

/-! ## When the resuming counter follows the schedule -/

/-- A round that went on after an interruption is followed by `n` rounds without one. -/
def ResumesQuietly (n : ℕ) (rounds : List Round) : Prop :=
  ∃ r quiet, r :: quiet <:+: rounds ∧ r.interrupted = true ∧ r.resumed = true ∧
    quiet.length = n ∧ ∀ u ∈ quiet, u.interrupted = false

theorem ResumesQuietly.mono {n : ℕ} {rounds rounds' : List Round} (h : ResumesQuietly n rounds)
    (hwithin : rounds <:+: rounds') : ResumesQuietly n rounds' := by
  obtain ⟨r, quiet, hmem, hr⟩ := h
  exact ⟨r, quiet, hmem.trans hwithin, hr⟩

/-- The rounds end with one that went on after an interruption, and `k` without one. -/
def EndsQuietly (k : ℕ) (rounds : List Round) : Prop :=
  ∃ before r quiet, rounds = before ++ r :: quiet ∧ r.interrupted = true ∧ r.resumed = true ∧
    quiet.length = k ∧ ∀ u ∈ quiet, u.interrupted = false

namespace EndsQuietly

variable {k : ℕ} {rounds : List Round} {r : Round}

theorem resumesQuietly (h : EndsQuietly k rounds) : ResumesQuietly k rounds := by
  obtain ⟨before, r, quiet, rfl, hr⟩ := h
  exact ⟨r, quiet, ⟨before, [], by simp⟩, hr⟩

theorem of_resumed (hi : r.interrupted = true) (hresumed : r.resumed = true) :
    EndsQuietly 0 (rounds ++ [r]) :=
  ⟨rounds, r, [], rfl, hi, hresumed, rfl, by simp⟩

theorem snoc (h : EndsQuietly k rounds) (hi : r.interrupted = false) :
    EndsQuietly (k + 1) (rounds ++ [r]) := by
  obtain ⟨before, r', quiet, rfl, hi', hresumed, rfl, hquiet⟩ := h
  refine ⟨before, r', quiet ++ [r], by simp, hi', hresumed, by simp, ?_⟩
  intro u hu
  rcases List.mem_append.mp hu with hu | hu
  · exact hquiet u hu
  · rw [List.mem_singleton.mp hu]
    exact hi

end EndsQuietly

namespace Counted

variable {n : ℕ} {rounds : List Round} {c : ℤ}

theorem of_append {next : Round → ℤ → ℤ} {rest : List Round} (h : Counted n next (rounds ++ rest) c) :
    ∃ c', Counted n next rounds c' := by
  induction rest using List.reverseRecOn generalizing c with
  | nil =>
      rw [List.append_nil] at h
      exact ⟨c, h⟩
  | append_singleton rest r ih =>
      rw [← List.append_assoc] at h
      obtain ⟨c', hcounted, _⟩ := h.of_snoc
      exact ih hcounted

/-- On schedule, the resuming counter is one ahead of the streak after a round that it has
    resumed, and so the streak is not allowed to reach `n`. -/
theorem ahead_of_endsQuietly {before quiet : List Round} {r : Round}
    (h : Counted n resuming (before ++ r :: quiet) c) (hon : OnSchedule n (before ++ r :: quiet))
    (hi : r.interrupted = true) (hresumed : r.resumed = true)
    (hquiet : ∀ u ∈ quiet, u.interrupted = false) :
    quiet.length < n ∧ c = quiet.length + 1 ∧ streak (before ++ r :: quiet) = quiet.length := by
  induction quiet using List.reverseRecOn generalizing c with
  | nil =>
      obtain ⟨c', _, htaint, rfl⟩ := h.of_snoc
      have hnext : resuming r c' = 1 := by simp [resuming, hi, hresumed]
      have hclean : r.selfTainted = false := by
        refine Bool.eq_false_iff.mpr fun ht => ?_
        have hquiet := (hon.last.mp ht).1
        simp [hi] at hquiet
      rw [hnext] at htaint
      have hle : ¬ (1 : ℤ) > n := fun hgt => by simp [htaint.mpr hgt] at hclean
      rw [hnext, if_neg hle, streak_snoc, hi]
      simp only [List.length_nil, Bool.true_eq_false, false_and, if_false]
      exact ⟨by omega, rfl, trivial⟩
  | append_singleton quiet u ih =>
      have hu : u.interrupted = false := hquiet u (by simp)
      have hassoc : before ++ r :: (quiet ++ [u]) = before ++ r :: quiet ++ [u] := by simp
      rw [hassoc] at h hon ⊢
      obtain ⟨c', hcounted, htaint, rfl⟩ := h.of_snoc
      obtain ⟨hlt, rfl, hstreak⟩ :=
        ih hcounted hon.init fun v hv => hquiet v (List.mem_append_left _ hv)
      have hnext : resuming u (quiet.length + 1) = quiet.length + 2 := by
        simp only [resuming, hu, Bool.false_eq_true, if_false]
        omega
      have hclean : u.selfTainted = false := by
        refine Bool.eq_false_iff.mpr fun ht => ?_
        have := (hon.last.mp ht).2
        omega
      rw [hnext] at htaint
      have hle : ¬ (quiet.length + 2 : ℤ) > n := fun hgt => by simp [htaint.mpr hgt] at hclean
      rw [hnext, if_neg hle, streak_snoc, hu, hclean, hstreak, List.length_append,
        List.length_singleton]
      simp only [and_self, if_true]
      exact ⟨by omega, by omega, trivial⟩

/-- Until a resumed round is followed by `n` quiet ones, the resuming counter is the streak, or
    one ahead of it since such a round. -/
theorem onSchedule_of_resuming (h : Counted n resuming rounds c)
    (hnot : ¬ ResumesQuietly n rounds) :
    OnSchedule n rounds ∧ c ≤ n ∧
      (c = streak rounds ∨ c = streak rounds + 1 ∧ EndsQuietly (streak rounds) rounds) := by
  induction h with
  | nil => exact ⟨.nil, by simp, .inl rfl⟩
  | @snoc rounds c r _ htaint ih =>
      have hbefore : ¬ ResumesQuietly n rounds := fun h =>
        hnot (h.mono (List.prefix_append rounds [r]).isInfix)
      obtain ⟨hon, hle, hc⟩ := ih hbefore
      have hstreak := streak_snoc rounds r
      cases hi : r.interrupted with
      | true =>
          simp only [hi, Bool.true_eq_false, false_and, if_false] at hstreak
          cases hresumed : r.resumed with
          | true =>
              have hnext : resuming r c = 1 := by simp [resuming, hi, hresumed]
              have hends : EndsQuietly 0 (rounds ++ [r]) := .of_resumed hi hresumed
              have hpos : n ≠ 0 := by
                rintro rfl
                exact hnot hends.resumesQuietly
              have hfew : ¬ (1 : ℤ) > n := by omega
              rw [hnext] at htaint ⊢
              rw [if_neg hfew, hstreak]
              refine ⟨hon.snoc ?_, by omega, .inr ⟨rfl, hends⟩⟩
              simp [htaint, hfew, hi]
          | false =>
              have hnext : resuming r c = 0 := by simp [resuming, hi, hresumed]
              have hfew : ¬ (0 : ℤ) > n := by omega
              rw [hnext] at htaint ⊢
              rw [if_neg hfew, hstreak]
              refine ⟨hon.snoc ?_, by omega, .inl rfl⟩
              simp [htaint, hfew, hi]
      | false =>
          have hnext : resuming r c = c + 1 := by simp [resuming, hi]
          rw [hnext] at htaint ⊢
          simp only [hi, true_and] at hstreak
          rcases hc with hc | ⟨hc, hends⟩
          · have hiff : c + 1 > n ↔ streak rounds = n := by omega
            rw [hiff] at htaint
            refine ⟨hon.snoc (by simpa [hi] using htaint), ?_⟩
            by_cases hfull : streak rounds = n
            · rw [if_pos (hiff.mpr hfull), hstreak, if_neg (by simp [htaint.mpr hfull])]
              exact ⟨by omega, .inl rfl⟩
            · have hclean : r.selfTainted = false :=
                Bool.eq_false_iff.mpr fun ht => hfull (htaint.mp ht)
              rw [if_neg fun hgt => hfull (hiff.mp hgt), hstreak, if_pos hclean]
              exact ⟨by omega, .inl (by omega)⟩
          · have hends' := hends.snoc hi
            have hfew : streak rounds + 1 ≠ n := by
              rintro rfl
              exact hnot hends'.resumesQuietly
            have hnone : ¬ c + 1 > n := by omega
            have hclean : r.selfTainted = false :=
              Bool.eq_false_iff.mpr fun ht => hnone (htaint.mp ht)
            rw [if_pos hclean] at hstreak
            rw [if_neg hnone, hstreak]
            refine ⟨hon.snoc ?_, by omega, .inr ⟨by omega, hends'⟩⟩
            simp only [hclean, hi, Bool.false_eq_true, true_and, false_iff]
            omega

/-- The resuming counter follows the schedule unless it has resumed too early. -/
theorem onSchedule_iff_of_resuming (h : Counted n resuming rounds c) :
    OnSchedule n rounds ↔ ¬ ResumesQuietly n rounds := by
  constructor
  · rintro hon ⟨r, quiet, ⟨before, after, rfl⟩, hi, hresumed, hlength, hquiet⟩
    obtain ⟨c', hcounted⟩ := h.of_append
    have hlt := (hcounted.ahead_of_endsQuietly hon.of_append hi hresumed hquiet).1
    omega
  · exact fun hnot => (h.onSchedule_of_resuming hnot).1

end Counted

end Round

end TriHaRd
