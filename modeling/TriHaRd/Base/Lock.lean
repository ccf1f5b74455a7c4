-- SUMMARY: What one call does with a lock: the discipline that it keeps, and the count of how often it holds the lock.
import TriHaRd.Base.Run
import Mathlib.Data.List.Count
import Mathlib.Data.List.Induction

/-!
# Lock discipline

A call is seen from its lock: it acquires the lock, releases it, and touches what
the lock guards. The discipline of a call speaks of all its uses; `held` runs
through them once and keeps the count.
-/

namespace Lock

/-- What an operation is to a lock. -/
inductive Use where
  | acquire
  | release
  /-- An access to what the lock guards. -/
  | touch
deriving DecidableEq, Repr

/-- The caller holds the lock: it has acquired it more often than it has released it. -/
def Holds (before : List Use) : Prop :=
  before.count .release < before.count .acquire

/-- A use that needs the lock comes while the caller holds it. -/
def Covered (before : List Use) (u : Use) : Prop :=
  u ≠ .acquire → Holds before

/-- The uses of a call so far, and whether the call has returned. -/
structure Session where
  uses : List Use
  returned : Bool
deriving DecidableEq, Repr

/-- The lock is released and its data touched only while the caller holds it, and a call that
    returns has released it as often as it has acquired it. -/
structure Session.Disciplined (c : Session) : Prop where
  covered : Lts.EachStep Covered c.uses
  balanced : c.returned = true → c.uses.count .release = c.uses.count .acquire

/-! ## Counting -/

/-- How often the caller holds the lock after `uses`, if it held it `n` times before. `none` if one
    of them needed the lock and did not find it held. -/
def held : ℕ → List Use → Option ℕ
  | n, [] => some n
  | n, .acquire :: us => held (n + 1) us
  | 0, .release :: _ => none
  | n + 1, .release :: us => held n us
  | 0, .touch :: _ => none
  | n + 1, .touch :: us => held (n + 1) us

@[simp] theorem held_nil (n : ℕ) : held n [] = some n := rfl

@[simp] theorem held_acquire (n : ℕ) (us : List Use) :
    held n (.acquire :: us) = held (n + 1) us := by
  cases n <;> rfl

@[simp] theorem held_release_succ (n : ℕ) (us : List Use) :
    held (n + 1) (.release :: us) = held n us := rfl

@[simp] theorem held_touch_succ (n : ℕ) (us : List Use) :
    held (n + 1) (.touch :: us) = held (n + 1) us := rfl

@[simp] theorem held_release_zero (us : List Use) : held 0 (.release :: us) = none := rfl

@[simp] theorem held_touch_zero (us : List Use) : held 0 (.touch :: us) = none := rfl

theorem held_append (n : ℕ) (us vs : List Use) :
    held n (us ++ vs) = (held n us).bind fun m => held m vs := by
  induction us generalizing n with
  | nil => rfl
  | cons u us ih => cases u <;> cases n <;> simp [ih]

/-- What is held comes from what has been acquired and not released. -/
theorem count_of_held {us : List Use} {n m : ℕ} (h : held n us = some m) :
    n + us.count .acquire = m + us.count .release := by
  induction us generalizing n with
  | nil => simpa using h
  | cons u us ih =>
      cases u with
      | acquire =>
          have hrest := ih (held_acquire n us ▸ h)
          rw [List.count_cons_self, List.count_cons_of_ne (by decide)]
          omega
      | release =>
          cases n with
          | zero => cases h
          | succ n =>
              have hrest := ih (held_release_succ n us ▸ h)
              rw [List.count_cons_self, List.count_cons_of_ne (by decide)]
              omega
      | touch =>
          cases n with
          | zero => cases h
          | succ n =>
              have hrest := ih (held_touch_succ n us ▸ h)
              rw [List.count_cons_of_ne (by decide), List.count_cons_of_ne (by decide)]
              exact hrest

/-- The count goes through exactly when every use that needs the lock finds it held. -/
theorem held_isSome_iff (us : List Use) : (held 0 us).isSome ↔ Lts.EachStep Covered us := by
  induction us using List.reverseRecOn with
  | nil => exact iff_of_true rfl .nil
  | append_singleton us u ih =>
      have hlast : Lts.EachStep Covered (us ++ [u]) ↔ Lts.EachStep Covered us ∧ Covered us u :=
        ⟨fun h => ⟨h.init, h.last⟩, fun h => h.1.snoc h.2⟩
      rw [hlast, ← ih, held_append]
      cases hus : held 0 us with
      | none => simp
      | some m =>
          have hcount := count_of_held hus
          cases u with
          | acquire => simp [Covered]
          | release => cases m <;> simp [Covered, Holds] <;> omega
          | touch => cases m <;> simp [Covered, Holds] <;> omega

namespace Session

/-- The count goes through from `n` on, and a call that returns holds the lock no more. -/
def KeptFrom (n : ℕ) (c : Session) : Prop :=
  ∃ m, held n c.uses = some m ∧ (c.returned = true → m = 0)

theorem disciplined_iff (c : Session) : c.Disciplined ↔ c.KeptFrom 0 := by
  constructor
  · rintro ⟨hcovered, hbalanced⟩
    obtain ⟨m, hm⟩ := Option.isSome_iff_exists.mp ((held_isSome_iff _).mpr hcovered)
    refine ⟨m, hm, ?_⟩
    intro hreturned
    have hcount := count_of_held hm
    have hequal := hbalanced hreturned
    omega
  · rintro ⟨m, hm, hzero⟩
    refine ⟨(held_isSome_iff _).mp (by rw [hm]; rfl), ?_⟩
    intro hreturned
    have hcount := count_of_held hm
    have hm0 := hzero hreturned
    omega

/-! The rules by which the discipline of a concrete call is computed. -/

@[simp] theorem eta (c : Session) : (⟨c.uses, c.returned⟩ : Session) = c := rfl

variable {n : ℕ} {us : List Use} {returned : Bool}

@[simp] theorem keptFrom_nil : KeptFrom n ⟨[], returned⟩ ↔ (returned = true → n = 0) := by
  simp [KeptFrom]

@[simp] theorem keptFrom_acquire :
    KeptFrom n ⟨.acquire :: us, returned⟩ ↔ KeptFrom (n + 1) ⟨us, returned⟩ := by
  simp [KeptFrom]

@[simp] theorem keptFrom_release_succ :
    KeptFrom (n + 1) ⟨.release :: us, returned⟩ ↔ KeptFrom n ⟨us, returned⟩ := Iff.rfl

@[simp] theorem keptFrom_touch_succ :
    KeptFrom (n + 1) ⟨.touch :: us, returned⟩ ↔ KeptFrom (n + 1) ⟨us, returned⟩ := Iff.rfl

@[simp] theorem not_keptFrom_release_zero : ¬ KeptFrom 0 ⟨.release :: us, returned⟩ := by
  simp [KeptFrom]

@[simp] theorem not_keptFrom_touch_zero : ¬ KeptFrom 0 ⟨.touch :: us, returned⟩ := by
  simp [KeptFrom]

instance (n : ℕ) (c : Session) : Decidable (c.KeptFrom n) :=
  decidable_of_iff ((held n c.uses).any fun m => !c.returned || m == 0) <| by
    unfold KeptFrom
    cases held n c.uses with
    | none => simp
    | some m => cases c.returned <;> simp

instance (c : Session) : Decidable c.Disciplined :=
  decidable_of_iff _ c.disciplined_iff.symm

end Session

end Lock
