-- SUMMARY: A mutex among threads: what a step of one thread may do with it, and that at most one thread is inside.
import Mathlib.Logic.Basic

/-!
# Mutual exclusion

A system of threads is seen from one mutex: who owns it, and which threads stand
inside the sections that it protects. If a thread only enters by taking the free
mutex, and only leaves by giving it back, then whoever is inside owns the mutex.
-/

namespace Mutex

variable {θ : Type*}

/-- The owner of the mutex, and the threads inside its sections. -/
structure View (θ : Type*) where
  owner : Option θ
  inside : θ → Prop

/-- A step of `th`. The other threads stay inside or outside. -/
inductive Move (th : θ) (v v' : View θ) : Prop where
  | keep (howner : v'.owner = v.owner) (hinside : ∀ u, v'.inside u ↔ v.inside u)
  | acquire (hfree : v.owner = none) (howner : v'.owner = some th)
      (hothers : ∀ u, u ≠ th → (v'.inside u ↔ v.inside u))
  | release (hinside : v.inside th) (hleft : ¬ v'.inside th)
      (hothers : ∀ u, u ≠ th → (v'.inside u ↔ v.inside u))

/-- Whoever is inside owns the mutex. -/
def Exclusive (v : View θ) : Prop :=
  ∀ u, v.inside u → v.owner = some u

variable {th u : θ} {v v' : View θ}

theorem Exclusive.unique (h : Exclusive v) (hth : v.inside th) (hu : v.inside u) : th = u :=
  Option.some.inj ((h th hth).symm.trans (h u hu))

theorem Exclusive.move (h : Exclusive v) (hmove : Move th v v') : Exclusive v' := by
  intro u hu
  cases hmove with
  | keep howner hinside => exact howner.trans (h u ((hinside u).mp hu))
  | acquire hfree howner hothers =>
      by_cases hth : u = th
      · rw [hth, howner]
      · cases hfree.symm.trans (h u ((hothers u hth).mp hu))
  | release hinside hleft hothers =>
      by_cases hth : u = th
      · exact absurd (hth ▸ hu) hleft
      · exact absurd (h.unique ((hothers u hth).mp hu) hinside) hth

end Mutex
