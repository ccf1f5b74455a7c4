-- SUMMARY: Runs that can take a kind of step only finitely often: the rule by a measure, and the rule that refutes it.
import TriHaRd.Base.Run

/-!
# Finitely many steps of a kind

`Exhausts step P s`: no run from `s`, however long, takes infinitely many steps
whose label meets `P`. A measure that every such step decreases, and no other
step increases, proves it. A state from which such a step leads to a state of
the same kind refutes it.
-/

namespace Lts

variable {σ α ε : Type*} {step : σ → α → Option (σ × List ε)} {P : α → Prop} {s s' : σ}

/-- A run that takes a step with `P` leads from `s` to `s'`. -/
def Advances (step : σ → α → Option (σ × List ε)) (P : α → Prop) (s' s : σ) : Prop :=
  ∃ tr, Run step s tr s' ∧ ∃ t ∈ tr, P t.act

def Exhausts (step : σ → α → Option (σ × List ε)) (P : α → Prop) (s : σ) : Prop :=
  Acc (Advances step P) s

theorem Advances.of_step {a : α} {es : List ε} (h : step s a = some (s', es)) (ha : P a) :
    Advances step P s' s := by
  have hrun : Run step s [⟨s, a, es, s'⟩] s' := by
    simpa using Run.snoc (t := ⟨s, a, es, s'⟩) Run.refl h
  exact ⟨_, hrun, _, List.mem_singleton.mpr rfl, ha⟩

/-- `w` does not grow along a run, and gets smaller if a step with `P` is taken. -/
theorem Run.measure {I : σ → Prop} {w : σ → ℕ} {tr : List (Transition σ α ε)}
    (hstep : ∀ t : Transition σ α ε, t.IsStep step → I t.pre →
      I t.post ∧ w t.post ≤ w t.pre ∧ (P t.act → w t.post < w t.pre))
    (hrun : Run step s tr s') (hs : I s) :
    I s' ∧ w s' ≤ w s ∧ ((∃ t ∈ tr, P t.act) → w s' < w s) := by
  induction hrun with
  | refl => exact ⟨hs, Nat.le_refl _, by simp⟩
  | @snoc tr t _ ht ih =>
      obtain ⟨hpre, hle, hlt⟩ := ih
      obtain ⟨hpost, hle', hlt'⟩ := hstep t ht hpre
      refine ⟨hpost, Nat.le_trans hle' hle, ?_⟩
      rintro ⟨u, hu, hP⟩
      rcases List.mem_append.mp hu with hbefore | hlast
      · exact Nat.lt_of_le_of_lt hle' (hlt ⟨u, hbefore, hP⟩)
      · obtain rfl := List.mem_singleton.mp hlast
        exact Nat.lt_of_lt_of_le (hlt' hP) hle

theorem exhausts_of_measure {I : σ → Prop} (w : σ → ℕ)
    (hstep : ∀ t : Transition σ α ε, t.IsStep step → I t.pre →
      I t.post ∧ w t.post ≤ w t.pre ∧ (P t.act → w t.post < w t.pre))
    (hs : I s) : Exhausts step P s := by
  induction hw : w s using Nat.strongRecOn generalizing s with
  | _ n ih =>
      apply Acc.intro
      rintro s' ⟨tr, hrun, hP⟩
      obtain ⟨hs', _, hlt⟩ := hrun.measure hstep hs
      exact ih (w s') (hw ▸ hlt hP) hs' rfl

theorem not_exhausts_of_recurrent {J : σ → Prop}
    (hstep : ∀ s, J s → ∃ s', Advances step P s' s ∧ J s') (hs : J s) : ¬ Exhausts step P s := by
  intro hacc
  induction hacc with
  | intro s _ ih =>
      obtain ⟨s', hadvances, hs'⟩ := hstep s hs
      exact ih s' hadvances hs'

end Lts
