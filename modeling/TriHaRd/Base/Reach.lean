-- SUMMARY: States from which a run can still get somewhere, and the rule that shows it by a measure.
import TriHaRd.Base.Run

/-!
# What can still be reached

`CanReach step G s`: some run from `s` ends in a state with `G`. It is shown by a
measure: as long as `G` does not hold, some step makes it smaller.
-/

namespace Lts

variable {σ α ε : Type*} {step : σ → α → Option (σ × List ε)} {G : σ → Prop} {s s' : σ}

def CanReach (step : σ → α → Option (σ × List ε)) (G : σ → Prop) (s : σ) : Prop :=
  ∃ tr s', Run step s tr s' ∧ G s'

theorem CanReach.of_step {a : α} {es : List ε} (hs : step s a = some (s', es))
    (h : CanReach step G s') : CanReach step G s := by
  obtain ⟨tr, u, hrun, hu⟩ := h
  have hfirst : Run step s [⟨s, a, es, s'⟩] s' := by
    simpa using Run.snoc (t := ⟨s, a, es, s'⟩) Run.refl hs
  exact ⟨_, u, hfirst.append hrun, hu⟩

theorem canReach_of_measure {I : σ → Prop} (w : σ → ℕ)
    (hstep : ∀ s, I s → ¬ G s → ∃ a s' es, step s a = some (s', es) ∧ I s' ∧ w s' < w s)
    (hs : I s) : CanReach step G s := by
  induction hw : w s using Nat.strongRecOn generalizing s with
  | _ n ih =>
      by_cases hgoal : G s
      · exact ⟨[], s, .refl, hgoal⟩
      · obtain ⟨a, s', es, hmove, hs', hlt⟩ := hstep s hs hgoal
        exact .of_step hmove (ih (w s') (hw ▸ hlt) hs' rfl)

/-- What no step leads out of rules out everything that it excludes. -/
theorem not_canReach_of_trap {J : σ → Prop}
    (hstep : ∀ t : Transition σ α ε, t.IsStep step → J t.pre → J t.post)
    (hexcludes : ∀ s, J s → ¬ G s) (hs : J s) : ¬ CanReach step G s := by
  rintro ⟨tr, s', hrun, hgoal⟩
  exact hexcludes s' (hrun.invariant hstep hs) hgoal

end Lts
