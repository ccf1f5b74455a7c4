-- SUMMARY: What the steps of a system use and fix of a store, and the run that goes the same way from another store.
import TriHaRd.Base.Run
import Mathlib.Data.List.Forall2

/-!
# Footprints

A state holds a store, the values of some members, besides other things. A step
is confined to a footprint if all it needs of the store are the members that it
uses, and all it changes are those that it fixes: the members that it writes, and
with them it may count those that it uses and leaves as they are. Then the same
step can be taken with another store, as long as the two agree on what is used. A
whole run can be taken with another store, as long as no member is used on which
the two have been different from the start.

Some members may be dead. They are kept up to date and never used, and nothing is
said about them.
-/

namespace Lts

variable {M : Type*} {X : M → Type*}

/-- `y` with the members in `W` taken from `x`. -/
def patch (W : M → Bool) (y x : ∀ m, X m) : ∀ m, X m := fun m => bif W m then x m else y m

theorem patch_of_mem {W : M → Bool} {y x : ∀ m, X m} {m : M} (h : W m = true) :
    patch W y x m = x m := by
  rw [patch, h, cond_true]

theorem patch_of_not_mem {W : M → Bool} {y x : ∀ m, X m} {m : M} (h : W m = false) :
    patch W y x m = y m := by
  rw [patch, h, cond_false]

/-- A store is not changed by the members that it agrees on. -/
theorem patch_eq_self {W : M → Bool} {y x : ∀ m, X m} (h : ∀ m, W m = true → x m = y m) :
    patch W y x = y := by
  funext m
  cases hm : W m with
  | true => rw [patch_of_mem hm, h m hm]
  | false => rw [patch_of_not_mem hm]

/-- Where two histories are alike step by step, what is the same of the steps is the same of the
    histories. -/
theorem map_eq_of_forall₂ {τ β : Type*} {R : τ → τ → Prop} {f : τ → β} {tr tr' : List τ}
    (h : List.Forall₂ R tr tr') (hf : ∀ t t', R t t' → f t' = f t) : tr'.map f = tr.map f := by
  induction h with
  | nil => rfl
  | cons hfirst _ ih => rw [List.map_cons, List.map_cons, hf _ _ hfirst, ih]

/-- Where the store of a state is. -/
structure Lens (σ : Type*) (X : M → Type*) where
  get : σ → ∀ m, X m
  put : σ → (∀ m, X m) → σ
  get_put : ∀ s x, get (put s x) = x
  put_get : ∀ s, put s (get s) = s
  put_put : ∀ s x y, put (put s x) y = put s y

/-- `s` with the members outside `K` taken from `y`. -/
def Lens.keep {σ : Type*} (L : Lens σ X) (K : M → Bool) (y : ∀ m, X m) (s : σ) : σ :=
  L.put s (patch K y (L.get s))

theorem Lens.keep_of_agree {σ : Type*} {L : Lens σ X} {K : M → Bool} {y : ∀ m, X m} {s : σ}
    (h : ∀ m, K m = true → L.get s m = y m) : L.put s y = L.keep K y s := by
  rw [keep, patch_eq_self h]

variable {σ α ε : Type*} {step : σ → α → Option (σ × List ε)} {L : Lens σ X}
  {uses fixes : σ → α → M → Bool} {dead : M → Bool}

/-- With another store that agrees on what the step uses, it is taken in the same way. Then the two
    stores agree on what has been fixed, and are otherwise left alone. -/
def Mirrored (step : σ → α → Option (σ × List ε)) (L : Lens σ X) (uses fixes : σ → α → M → Bool)
    (dead : M → Bool) (s : σ) (a : α) : Prop :=
  ∀ s' es y, step s a = some (s', es) → (∀ m, uses s a m = true → L.get s m = y m) →
    ∃ y', step (L.put s y) a = some (L.put s' y', es) ∧
      ∀ m, dead m = false → y' m = patch (fixes s a) y (L.get s') m

/-- It is enough to look at stores that agree on what the step uses. -/
theorem Mirrored.of_keep {s : σ} {a : α}
    (h : ∀ s' es y, step s a = some (s', es) → ∃ y', (∀ m, dead m = false → y' m = y m) ∧
      step (L.keep (uses s a) y s) a = some (L.keep (fixes s a) y' s', es)) :
    Mirrored step L uses fixes dead s a := by
  intro s' es y hs hagree
  obtain ⟨y', hlive, hs'⟩ := h s' es y hs
  rw [Lens.keep_of_agree hagree]
  refine ⟨patch (fixes s a) y' (L.get s'), hs', ?_⟩
  intro m hdead
  rw [patch, patch, hlive m hdead]

/-- Every step is confined to its footprint. -/
structure Confined (step : σ → α → Option (σ × List ε)) (L : Lens σ X)
    (uses fixes : σ → α → M → Bool) (dead : M → Bool) : Prop where
  live : ∀ s a m, uses s a m = true → dead m = false
  mirrored : ∀ s a, Mirrored step L uses fixes dead s a

namespace Confined

/-- What a step does not fix it does not change. -/
theorem frame (hconfined : Confined step L uses fixes dead) {s s' : σ} {a : α} {es : List ε}
    (h : step s a = some (s', es)) {m : M} (hdead : dead m = false)
    (hm : fixes s a m = false) : L.get s' m = L.get s m := by
  obtain ⟨y, hy, hpatch⟩ := hconfined.mirrored s a s' es (L.get s) h fun _ _ => rfl
  rw [L.put_get, h] at hy
  have hput : L.put s' y = s' := (Prod.mk.inj (Option.some.inj hy)).1.symm
  calc L.get s' m
      = L.get (L.put s' y) m := by rw [hput]
    _ = patch (fixes s a) (L.get s) (L.get s') m := by rw [L.get_put, hpatch m hdead]
    _ = L.get s m := patch_of_not_mem hm

/-! ## Runs from two stores -/

/-- The member holds the same in the stores `x` and `y`, or has been fixed. -/
def Settled (fixes : σ → α → M → Bool) (x y : ∀ m, X m) (past : List (Transition σ α ε))
    (m : M) : Prop :=
  x m = y m ∨ ∃ u ∈ past, fixes u.pre u.act m = true

/-- Two steps with the same label and the same events, between states that differ in their stores
    only. -/
structure Alike (L : Lens σ X) (t t' : Transition σ α ε) : Prop where
  act : t'.act = t.act
  events : t'.events = t.events
  pre : ∃ y, t'.pre = L.put t.pre y
  post : ∃ y, t'.post = L.put t.post y

/-- A run can be taken in the same way from another store, if its steps use what is settled only. -/
theorem mirror (hconfined : Confined step L uses fixes dead) {s₀ s : σ}
    {tr : List (Transition σ α ε)} {y₀ : ∀ m, X m} (hrun : Run step s₀ tr s)
    (hsettled : EachStep (fun past t => ∀ m, uses t.pre t.act m = true →
      Settled fixes (L.get s₀) y₀ past m) tr) :
    ∃ tr' y, Run step (L.put s₀ y₀) tr' (L.put s y) ∧ List.Forall₂ (Alike L) tr tr' ∧
      ∀ m, dead m = false → Settled fixes (L.get s₀) y₀ tr m → L.get s m = y m := by
  refine hrun.history_of (I := fun past s => ∃ tr' y, Run step (L.put s₀ y₀) tr' (L.put s y) ∧
    List.Forall₂ (Alike L) past tr' ∧
      ∀ m, dead m = false → Settled fixes (L.get s₀) y₀ past m → L.get s m = y m) ?_ hsettled ?_
  · intro past t hs huses ⟨tr', y, hrun', halike, hagree⟩
    obtain ⟨y', hs', hy'⟩ := hconfined.mirrored t.pre t.act t.post t.events y hs fun m hm =>
      hagree m (hconfined.live t.pre t.act m hm) (huses m hm)
    refine ⟨tr' ++ [⟨L.put t.pre y, t.act, t.events, L.put t.post y'⟩], y',
      .snoc (t := ⟨L.put t.pre y, t.act, t.events, L.put t.post y'⟩) hrun' hs', ?_, ?_⟩
    · exact List.rel_append halike (.cons ⟨rfl, rfl, ⟨y, rfl⟩, ⟨y', rfl⟩⟩ .nil)
    · intro m hdead hm
      rw [hy' m hdead]
      cases hw : fixes t.pre t.act m with
      | true => rw [patch_of_mem hw]
      | false =>
          rw [patch_of_not_mem hw, hconfined.frame hs hdead hw]
          refine hagree m hdead (hm.imp_right fun ⟨u, hu, hfixed⟩ => ⟨u, ?_, hfixed⟩)
          rcases List.mem_append.mp hu with hpast | hlast
          · exact hpast
          · rw [List.mem_singleton.mp hlast, hw] at hfixed
            cases hfixed
  · refine ⟨[], y₀, .refl, .nil, fun m _ hm => hm.resolve_right ?_⟩
    rintro ⟨u, hu, _⟩
    cases hu

end Confined

end Lts
