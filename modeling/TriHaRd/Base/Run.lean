-- SUMMARY: Runs of a labelled system with observable events, and the induction and splitting rules over them.
import Mathlib.Logic.Basic
import Mathlib.Data.List.Basic
import Mathlib.Data.List.Induction

/-!
# Runs

A system is a partial step function: `step s a = some (s', es)` says that the
label `a` is enabled in `s`, leads to `s'` and shows the events `es`. A run
keeps the whole history, one `Transition` for each step, so that a property can
speak about what came before a step.

Two readings of the same history are offered. `Run` is the inductive one that
proofs use; it grows at the end, where the newest step is. `exec` computes the
run of a list of labels, for concrete schedules.
-/

namespace Lts

variable {σ α ε : Type*}

/-- One step of a run, with the states it leads from and to. -/
structure Transition (σ α ε : Type*) where
  pre : σ
  act : α
  events : List ε
  post : σ

/-- The transition is one that `step` takes. -/
def Transition.IsStep (step : σ → α → Option (σ × List ε)) (t : Transition σ α ε) : Prop :=
  step t.pre t.act = some (t.post, t.events)

/-- `Run step s₀ tr s`: the history `tr`, oldest step first, leads from `s₀` to `s`. -/
inductive Run (step : σ → α → Option (σ × List ε)) (s₀ : σ) :
    List (Transition σ α ε) → σ → Prop where
  | refl : Run step s₀ [] s₀
  | snoc {tr : List (Transition σ α ε)} {t : Transition σ α ε} :
      Run step s₀ tr t.pre → t.IsStep step → Run step s₀ (tr ++ [t]) t.post

namespace Run

variable {step : σ → α → Option (σ × List ε)} {s₀ s : σ} {tr : List (Transition σ α ε)}

/-! ## Invariants -/

/-- An invariant may use a condition `P` that every step of the run meets. -/
theorem invariant_of {I : σ → Prop} {P : Transition σ α ε → Prop}
    (hstep : ∀ t : Transition σ α ε, t.IsStep step → P t → I t.pre → I t.post)
    (h : Run step s₀ tr s) (hP : ∀ t ∈ tr, P t) (h₀ : I s₀) : I s := by
  induction h with
  | refl => exact h₀
  | @snoc tr t _ hs ih =>
      have hpre : I t.pre := ih fun u hu => hP u (List.mem_append_left _ hu)
      exact hstep t hs (hP t (by simp)) hpre

theorem invariant {I : σ → Prop}
    (hstep : ∀ t : Transition σ α ε, t.IsStep step → I t.pre → I t.post)
    (h : Run step s₀ tr s) (h₀ : I s₀) : I s :=
  invariant_of (P := fun _ => True) (fun t hs _ => hstep t hs) h (fun _ _ => trivial) h₀

/-! ## Splitting a run -/

theorem isStep {t : Transition σ α ε} (h : Run step s₀ tr s) (ht : t ∈ tr) : t.IsStep step := by
  induction h with
  | refl => cases ht
  | @snoc tr u _ hs ih =>
      rcases List.mem_append.mp ht with ht | ht
      · exact ih ht
      · rw [List.mem_singleton.mp ht]
        exact hs

theorem append {m : σ} {tr₁ tr₂ : List (Transition σ α ε)}
    (h₁ : Run step s₀ tr₁ m) (h₂ : Run step m tr₂ s) : Run step s₀ (tr₁ ++ tr₂) s := by
  induction h₂ with
  | refl => simpa using h₁
  | snoc _ hs ih =>
      rw [← List.append_assoc]
      exact .snoc ih hs

/-- Every prefix of a run is a run, and the rest continues it. -/
theorem split {tr₁ tr₂ : List (Transition σ α ε)} (h : Run step s₀ (tr₁ ++ tr₂) s) :
    ∃ m, Run step s₀ tr₁ m ∧ Run step m tr₂ s := by
  generalize htr : tr₁ ++ tr₂ = tr at h
  induction h generalizing tr₂ with
  | refl =>
      obtain ⟨rfl, rfl⟩ := List.append_eq_nil_iff.mp htr
      exact ⟨s₀, .refl, .refl⟩
  | @snoc tr t hr hs ih =>
      rcases List.eq_nil_or_concat tr₂ with rfl | ⟨rest, u, rfl⟩
      · refine ⟨t.post, ?_, .refl⟩
        rw [List.append_nil] at htr
        exact htr ▸ .snoc hr hs
      · rw [List.concat_eq_append, ← List.append_assoc] at htr
        obtain ⟨hinit, hlast⟩ := List.append_inj' htr rfl
        obtain rfl : u = t := List.singleton_inj.mp hlast
        obtain ⟨m, h₁, h₂⟩ := ih hinit
        exact ⟨m, h₁, by simpa using Run.snoc h₂ hs⟩

theorem eq_of_nil (h : Run step s₀ [] s) : s = s₀ := by
  generalize htr : ([] : List (Transition σ α ε)) = tr at h
  cases h with
  | refl => rfl
  | snoc => simp at htr

/-- A run that begins with `t` begins where `t` does and goes on from where it leads. -/
theorem of_cons {t : Transition σ α ε} (h : Run step s₀ (t :: tr) s) :
    t.pre = s₀ ∧ t.IsStep step ∧ Run step t.post tr s := by
  have hcons : Run step s₀ ([t] ++ tr) s := h
  obtain ⟨m, hone, hrest⟩ := split hcons
  rw [← List.nil_append [t]] at hone
  generalize hl : [] ++ [t] = l at hone
  cases hone with
  | refl => simp at hl
  | @snoc tr' u hr hs =>
      obtain ⟨hinit, hlast⟩ := List.append_inj' hl rfl
      obtain rfl : t = u := List.singleton_inj.mp hlast
      subst hinit
      exact ⟨hr.eq_of_nil, hs, hrest⟩

/-- Around any of its steps, a run splits into what came before and what comes after. -/
theorem split_at {t : Transition σ α ε} {before after : List (Transition σ α ε)}
    (h : Run step s₀ (before ++ t :: after) s) :
    Run step s₀ before t.pre ∧ t.IsStep step ∧ Run step t.post after s := by
  obtain ⟨m, hbefore, hrest⟩ := split h
  obtain ⟨hpre, hs, hafter⟩ := of_cons hrest
  exact ⟨hpre ▸ hbefore, hs, hafter⟩

/-- An invariant holds before and after every step of the run. -/
theorem invariant_at {I : σ → Prop} {P : Transition σ α ε → Prop}
    (hstep : ∀ t : Transition σ α ε, t.IsStep step → P t → I t.pre → I t.post)
    (h : Run step s₀ tr s) (hP : ∀ t ∈ tr, P t) (h₀ : I s₀) :
    ∀ t ∈ tr, I t.pre ∧ I t.post := by
  intro t ht
  obtain ⟨before, after, rfl⟩ := List.append_of_mem ht
  obtain ⟨hbefore, hs, _⟩ := h.split_at
  have hpre : I t.pre :=
    invariant_of hstep hbefore (fun u hu => hP u (List.mem_append_left _ hu)) h₀
  exact ⟨hpre, hstep t hs (hP t ht) hpre⟩

/-- What the state shows at the end, and not at the start, a step has brought about. -/
theorem exists_change {β : Type*} {f : σ → β} (h : Run step s₀ tr s) (hne : f s ≠ f s₀) :
    ∃ t ∈ tr, f t.post = f s ∧ f t.post ≠ f t.pre := by
  induction h with
  | refl => exact absurd rfl hne
  | @snoc tr t _ _ ih =>
      by_cases hlast : f t.post = f t.pre
      · rw [hlast] at hne
        obtain ⟨u, hu, hpost, hchange⟩ := ih hne
        exact ⟨u, List.mem_append_left _ hu, hpost.trans hlast.symm, hchange⟩
      · exact ⟨t, by simp, rfl, hlast⟩

/-! ## Hiding steps -/

/-- A run is one of another system on the same states, if `f` shows each of its steps as a step of
    that system, and those that it hides do nothing. -/
theorem hide {β : Type*} {step' : σ → β → Option (σ × List ε)}
    {f : Transition σ α ε → Option (Transition σ β ε)}
    (hshown : ∀ (t : Transition σ α ε) (u : Transition σ β ε), t.IsStep step → f t = some u →
      u.pre = t.pre ∧ u.post = t.post ∧ u.events = t.events ∧ u.IsStep step')
    (hhidden : ∀ t : Transition σ α ε, t.IsStep step → f t = none →
      t.post = t.pre ∧ t.events = [])
    (h : Run step s₀ tr s) :
    Run step' s₀ (tr.filterMap f) s ∧
      (tr.filterMap f).flatMap Transition.events = tr.flatMap Transition.events := by
  induction h with
  | refl => exact ⟨.refl, rfl⟩
  | @snoc tr t _ hs ih =>
      obtain ⟨hrun, hevents⟩ := ih
      rw [List.filterMap_append, List.flatMap_append, List.flatMap_append, hevents]
      cases hf : f t with
      | none =>
          obtain ⟨hpost, hnone⟩ := hhidden t hs hf
          rw [List.filterMap_cons_none hf, List.filterMap_nil, List.append_nil, hpost]
          exact ⟨hrun, by simp [hnone]⟩
      | some u =>
          obtain ⟨hpre, hpost, hsame, hu⟩ := hshown t u hs hf
          rw [List.filterMap_cons_some hf, List.filterMap_nil, ← hpost]
          exact ⟨.snoc (hpre ▸ hrun) hu, by simp [hsame]⟩

/-! ## Simulation -/

/-- Another system shows the same as a run, if it can follow each step, from states that are
    related by `R`, with steps of its own. -/
theorem simulate {σ' β : Type*} {step' : σ' → β → Option (σ' × List ε)} {R : σ → σ' → Prop}
    {P : Transition σ α ε → Prop}
    (hstep : ∀ (t : Transition σ α ε) (c : σ'), t.IsStep step → P t → R t.pre c →
      ∃ tr' c', Run step' c tr' c' ∧ R t.post c' ∧ tr'.flatMap Transition.events = t.events)
    (h : Run step s₀ tr s) (hP : ∀ t ∈ tr, P t) {c₀ : σ'} (hR : R s₀ c₀) :
    ∃ tr' c, Run step' c₀ tr' c ∧ R s c ∧
      tr'.flatMap Transition.events = tr.flatMap Transition.events := by
  induction h with
  | refl => exact ⟨[], c₀, .refl, hR, rfl⟩
  | @snoc tr t _ hs ih =>
      obtain ⟨tr₁, c, hrun₁, hmid, hevents₁⟩ := ih fun u hu => hP u (List.mem_append_left _ hu)
      obtain ⟨tr₂, c', hrun₂, hend, hevents₂⟩ := hstep t c hs (hP t (by simp)) hmid
      exact ⟨tr₁ ++ tr₂, c', hrun₁.append hrun₂, hend, by simp [hevents₁, hevents₂]⟩

end Run

/-! ## Conditions on a history -/

/-- Every step `t` of the history meets the condition `P before t`, where `before` is
    what happened up to then. -/
def EachStep {τ : Type*} (P : List τ → τ → Prop) (tr : List τ) : Prop :=
  ∀ before t after, tr = before ++ t :: after → P before t

namespace EachStep

variable {τ : Type*} {P : List τ → τ → Prop} {tr : List τ} {t : τ}

theorem nil : EachStep P [] := by
  intro before t after h
  simp at h

theorem of_append {rest : List τ} (h : EachStep P (tr ++ rest)) : EachStep P tr := by
  intro before u after htr
  exact h before u (after ++ rest) (by simp [htr])

theorem init (h : EachStep P (tr ++ [t])) : EachStep P tr := h.of_append

theorem last (h : EachStep P (tr ++ [t])) : P tr t :=
  h tr t [] rfl

theorem snoc (h : EachStep P tr) (ht : P tr t) : EachStep P (tr ++ [t]) := by
  intro before u after htr
  rcases List.eq_nil_or_concat after with rfl | ⟨rest, v, rfl⟩
  · obtain ⟨rfl, hu⟩ := List.append_inj' htr rfl
    rwa [← List.singleton_inj.mp hu]
  · rw [List.concat_eq_append, ← List.cons_append, ← List.append_assoc] at htr
    exact h before u rest (List.append_inj' htr rfl).1

theorem append {rest : List τ} (h : EachStep P tr) (hrest : ∀ past, ∀ u ∈ rest, P past u) :
    EachStep P (tr ++ rest) := by
  induction rest using List.reverseRecOn with
  | nil => simpa using h
  | append_singleton rest u ih =>
      have hinit := ih fun past v hv => hrest past v (List.mem_append_left _ hv)
      rw [← List.append_assoc]
      exact hinit.snoc (hrest _ u (by simp))

/-- By position, so that a condition that can be decided can be decided of a history. -/
theorem iff_forall_lt :
    EachStep P tr ↔ ∀ i, (h : i < tr.length) → P (tr.take i) (tr.get ⟨i, h⟩) := by
  constructor
  · intro h i hi
    refine h _ _ (tr.drop (i + 1)) ?_
    rw [List.get_eq_getElem, List.getElem_cons_drop, List.take_append_drop]
  · rintro h before t after rfl
    have hi : before.length < (before ++ t :: after).length := by simp
    simpa using h before.length hi

/-- A condition that does not look back is a condition on the steps. -/
theorem iff_forall_mem {Q : τ → Prop} : EachStep (fun _ => Q) tr ↔ ∀ t ∈ tr, Q t := by
  constructor
  · intro h t ht
    obtain ⟨before, after, htr⟩ := List.append_of_mem ht
    exact h before t after htr
  · rintro h before t after rfl
    exact h t (by simp)

instance [DecidablePred (Function.uncurry P)] : Decidable (EachStep P tr) :=
  haveI : ∀ before t, Decidable (P before t) := fun before t =>
    inferInstanceAs (Decidable (Function.uncurry P (before, t)))
  decidable_of_iff _ iff_forall_lt.symm

end EachStep

namespace Run

variable {step : σ → α → Option (σ × List ε)} {s₀ s : σ} {tr : List (Transition σ α ε)}

/-- An invariant that relates the state to the history may use a condition `P` that every step
    meets, given what happened before it. -/
theorem history_of {I : List (Transition σ α ε) → σ → Prop}
    {P : List (Transition σ α ε) → Transition σ α ε → Prop}
    (hstep : ∀ past (t : Transition σ α ε), t.IsStep step → P past t → I past t.pre →
      I (past ++ [t]) t.post)
    (h : Run step s₀ tr s) (hP : EachStep P tr) (h₀ : I [] s₀) : I tr s := by
  induction h with
  | refl => exact h₀
  | @snoc tr t _ hs ih => exact hstep tr t hs hP.last (ih hP.init)

theorem history {I : List (Transition σ α ε) → σ → Prop}
    (hstep : ∀ past (t : Transition σ α ε), t.IsStep step → I past t.pre → I (past ++ [t]) t.post)
    (h : Run step s₀ tr s) (h₀ : I [] s₀) : I tr s :=
  history_of (P := fun _ _ => True) (fun past t hs _ => hstep past t hs) h
    (fun _ _ _ _ => trivial) h₀

/-- Two conditions `P` and `Q` on histories that agree on every step of a run, given an invariant
    that the steps meeting them keep, hold of the same runs. All steps may be assumed to meet a
    third one, `R`. -/
theorem eachStep_iff_of {P Q R : List (Transition σ α ε) → Transition σ α ε → Prop}
    {I : List (Transition σ α ε) → σ → Prop} (hrun : Run step s₀ tr s) (hR : EachStep R tr)
    (hinit : I [] s₀)
    (hiff : ∀ past (t : Transition σ α ε), t.IsStep step → I past t.pre → (P past t ↔ Q past t))
    (hkeep : ∀ past (t : Transition σ α ε), t.IsStep step → R past t → I past t.pre → P past t →
      I (past ++ [t]) t.post) : EachStep P tr ↔ EachStep Q tr := by
  refine (hrun.history_of (I := fun past s =>
    (EachStep P past ↔ EachStep Q past) ∧ (EachStep P past → I past s)) ?_ hR
    ⟨iff_of_true .nil .nil, fun _ => hinit⟩).1
  intro past t hs hRt ⟨hall, hinv⟩
  refine ⟨⟨fun h => ?_, fun h => ?_⟩, fun h => ?_⟩
  · exact (hall.mp h.init).snoc ((hiff past t hs (hinv h.init)).mp h.last)
  · have hbefore := hall.mpr h.init
    exact hbefore.snoc ((hiff past t hs (hinv hbefore)).mpr h.last)
  · exact hkeep past t hs hRt (hinv h.init) h.last

theorem eachStep_iff {P Q : List (Transition σ α ε) → Transition σ α ε → Prop}
    {I : List (Transition σ α ε) → σ → Prop} (hrun : Run step s₀ tr s) (hinit : I [] s₀)
    (hiff : ∀ past (t : Transition σ α ε), t.IsStep step → I past t.pre → (P past t ↔ Q past t))
    (hkeep : ∀ past (t : Transition σ α ε), t.IsStep step → I past t.pre → P past t →
      I (past ++ [t]) t.post) : EachStep P tr ↔ EachStep Q tr :=
  hrun.eachStep_iff_of (R := fun _ _ => True) (fun _ _ _ _ => trivial) hinit hiff
    fun past t hs _ => hkeep past t hs

end Run

/-! ## Computing a run -/

/-- The history and the final state of a schedule, if all its labels are enabled in turn. -/
def exec (step : σ → α → Option (σ × List ε)) (s : σ) :
    List α → Option (List (Transition σ α ε) × σ)
  | [] => some ([], s)
  | a :: as =>
    match step s a with
    | none => none
    | some (s', es) =>
      match exec step s' as with
      | none => none
      | some (tr, u) => some (⟨s, a, es, s'⟩ :: tr, u)

theorem exec_run {step : σ → α → Option (σ × List ε)} {s u : σ} {as : List α}
    {tr : List (Transition σ α ε)} (h : exec step s as = some (tr, u)) : Run step s tr u := by
  induction as generalizing s tr with
  | nil =>
      simp only [exec, Option.some.injEq, Prod.mk.injEq] at h
      obtain ⟨rfl, rfl⟩ := h
      exact .refl
  | cons a as ih =>
      simp only [exec] at h
      split at h
      · cases h
      · rename_i s' es hs
        split at h
        · cases h
        · rename_i tr' u' hrest
          simp only [Option.some.injEq, Prod.mk.injEq] at h
          obtain ⟨rfl, rfl⟩ := h
          have hfirst : Run step s [⟨s, a, es, s'⟩] s' := by
            simpa using Run.snoc (t := ⟨s, a, es, s'⟩) Run.refl hs
          exact hfirst.append (ih hrest)

/-- A run is the one that its labels compute. -/
theorem Run.exec_eq {step : σ → α → Option (σ × List ε)} {s u : σ} {tr : List (Transition σ α ε)}
    (h : Run step s tr u) : exec step s (tr.map Transition.act) = some (tr, u) := by
  induction tr generalizing s with
  | nil =>
      rw [h.eq_of_nil]
      rfl
  | cons t tr ih =>
      obtain ⟨rfl, hs, hrest⟩ := h.of_cons
      simp only [List.map_cons, exec, show step t.pre t.act = some (t.post, t.events) from hs,
        ih hrest]

/-- A schedule whose result meets a decidable condition gives a run whose history and final state
    do. -/
theorem exists_run_of_exec (step : σ → α → Option (σ × List ε)) (s : σ) (as : List α)
    (p : List (Transition σ α ε) → σ → Prop) [∀ tr u, Decidable (p tr u)]
    (h : ((exec step s as).any fun r => decide (p r.1 r.2)) = true) :
    ∃ tr u, Run step s tr u ∧ p tr u := by
  obtain ⟨⟨tr, u⟩, hexec, hp⟩ := (Option.any_eq_true _ _).mp h
  exact ⟨tr, u, exec_run hexec, of_decide_eq_true hp⟩

/-- The same for a schedule and one more step after it. -/
theorem exists_step_of_exec (step : σ → α → Option (σ × List ε)) (s : σ) (as : List α) (a : α)
    (p : List (Transition σ α ε) → Transition σ α ε → Prop) [∀ tr t, Decidable (p tr t)]
    (h : ((exec step s as).any fun r =>
      (step r.2 a).any fun q => decide (p r.1 ⟨r.2, a, q.2, q.1⟩)) = true) :
    ∃ tr t, Run step s tr t.pre ∧ t.IsStep step ∧ t.act = a ∧ p tr t := by
  obtain ⟨⟨tr, u⟩, hexec, hstep⟩ := (Option.any_eq_true _ _).mp h
  obtain ⟨⟨u', es⟩, hlast, hp⟩ := (Option.any_eq_true _ _).mp hstep
  exact ⟨tr, ⟨u, a, es, u'⟩, exec_run hexec, hlast, rfl, of_decide_eq_true hp⟩

/-- The same for two schedules, each with one more step after it. -/
theorem exists_steps_of_exec (step : σ → α → Option (σ × List ε)) (s : σ) (as : List α) (a : α)
    (as' : List α) (a' : α) (p : List (Transition σ α ε) → Transition σ α ε →
      List (Transition σ α ε) → Transition σ α ε → Prop)
    [∀ tr t tr' t', Decidable (p tr t tr' t')]
    (h : ((exec step s as).any fun r => (step r.2 a).any fun q =>
      (exec step q.1 as').any fun r' => (step r'.2 a').any fun q' =>
        decide (p r.1 ⟨r.2, a, q.2, q.1⟩ r'.1 ⟨r'.2, a', q'.2, q'.1⟩)) = true) :
    ∃ tr t tr' t', Run step s (tr ++ t :: (tr' ++ [t'])) t'.post ∧ t.act = a ∧ t'.act = a' ∧
      p tr t tr' t' := by
  obtain ⟨⟨tr, u⟩, hexec, h⟩ := (Option.any_eq_true _ _).mp h
  obtain ⟨⟨v, es⟩, hstep, h⟩ := (Option.any_eq_true _ _).mp h
  obtain ⟨⟨tr', u'⟩, hexec', h⟩ := (Option.any_eq_true _ _).mp h
  obtain ⟨⟨v', es'⟩, hstep', hp⟩ := (Option.any_eq_true _ _).mp h
  refine ⟨tr, ⟨u, a, es, v⟩, tr', ⟨u', a', es', v'⟩, ?_, rfl, rfl, of_decide_eq_true hp⟩
  have hfirst : Run step s (tr ++ [⟨u, a, es, v⟩]) v := .snoc (exec_run hexec) hstep
  have hsecond : Run step v (tr' ++ [⟨u', a', es', v'⟩]) v' := .snoc (exec_run hexec') hstep'
  simpa using hfirst.append hsecond

end Lts
