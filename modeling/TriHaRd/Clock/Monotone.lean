-- SUMMARY: The timestamps that clients receive do not go backwards, as long as no two tasks are at the clock at once.
import TriHaRd.Clock.Serving

/-!
# Served time

The clock of an honest node is set back in `FREQ_STATE` only, and there nobody is
served. But a read takes `ts_ref` and stores it again, moved on, without a lock. Of
two reads that overlap, the one that stores last undoes what the other has moved.
As long as no section of the clock overlaps another, a client is never served an
earlier time than a client before it, unless the node returns to `FREQ_STATE`.
-/

namespace TriHaRd

open Lts SharedMemory

/-- The conditions on a step. Once the clock has started, `stop` has not been requested, the stored
    TSC does not go back, and the frequency is positive. The node is not sent back to `FREQ_STATE`. -/
structure Steady (s s' : Memory) : Prop where
  running : s.started = true → s.stop = false
  tsc : s.started = true → s.tsc ≤ s'.tsc
  tscFreq : s.started = true → 0 < s.tscFreq
  trained : s'.nodeState = .freq → s.nodeState = .freq

instance (s s' : Memory) : Decidable (Steady s s') :=
  decidable_of_iff ((s.started = true → s.stop = false) ∧ (s.started = true → s.tsc ≤ s'.tsc) ∧
      (s.started = true → 0 < s.tscFreq) ∧ (s'.nodeState = .freq → s.nodeState = .freq))
    ⟨fun h => ⟨h.1, h.2.1, h.2.2.1, h.2.2.2⟩, fun h => ⟨h.running, h.tsc, h.tscFreq, h.trained⟩⟩

/-- No task makes an access of a section of the clock while another stands inside one. -/
def Apart (b : Build) (t : Access) : Prop :=
  ∀ place op, t.access? (node b) = some (place, op) → place.ofClock = true →
    ∀ p, StandsBy t p → p.within = false

/-- What clients have been served since the clock has started, oldest first. -/
def served (tr : List Access) : List Timespec :=
  servedIn ((tr.filter (·.pre.mem.started)).flatMap Transition.events)

/-- Sections do not overlap, and a client counts on the node to stay out of `FREQ_STATE`. -/
def timeTerms : Terms := { gateTerms with apart := True }

-- ---------------------------------------------------------------------------
-- What one access does to the clock
-- ---------------------------------------------------------------------------

section Perform

variable {op : Option Store} {s : Memory} {place : Place}

theorem perform_started (h : s.started = true) : (perform Store.exec op s).1.started = true := by
  cases op with
  | none => exact h
  | some op => cases op <;> first | exact h | rfl

/-- The reference stays behind the stored TSC. -/
theorem KeepsTime.tscRef_le (h : KeepsTime place op s)
    (hpre : s.started = true → s.tscRef ≤ s.tsc)
    (htsc : s.started = true → s.tsc ≤ (perform Store.exec op s).1.tsc)
    (hpost : (perform Store.exec op s).1.started = true) :
    (perform Store.exec op s).1.tscRef ≤ (perform Store.exec op s).1.tsc := by
  cases op with
  | none => exact hpre hpost
  | some op =>
      by_cases hinit : ∃ v, op = .initTsc v
      · obtain ⟨v, rfl⟩ := hinit
        exact (h.initTsc v rfl).2
      · have hstarted : s.started = true :=
          (Store.exec_started s fun v hv => hinit ⟨v, hv⟩).symm.trans hpost
        by_cases href : ∃ v, op = .tscRef v
        · obtain ⟨v, rfl⟩ := href
          exact (h.tscRef v rfl).2 hstarted
        · have hsame : (op.exec s).1.tscRef = s.tscRef :=
            Store.exec_tscRef s fun v hv => href ⟨v, hv⟩
          exact (hsame.trans_le (hpre hstarted)).trans (htsc hstarted)

/-- Outside `FREQ_STATE` the clock is not set back. -/
theorem KeepsTime.ns_le (h : KeepsTime place op s) (hstarted : s.started = true)
    (hstate : s.nodeState ≠ .freq) : s.tsRef.ns ≤ (perform Store.exec op s).1.tsRef.ns := by
  cases op with
  | none => exact le_refl _
  | some op =>
      by_cases href : ∃ ts, op = .tsRef ts
      · obtain ⟨ts, rfl⟩ := href
        exact (h.tsRef ts rfl).2 hstarted hstate
      · have hsame : (op.exec s).1.tsRef = s.tsRef :=
          Store.exec_tsRef s fun ts hts => href ⟨ts, hts⟩
        exact (congrArg Timespec.ns hsame).ge

/-- An access serves at most one timestamp, and then stores nothing. -/
theorem servedIn_perform (op : Option Store) (s : Memory) :
    servedIn (perform Store.exec op s).2 = [] ∨
      ∃ ts, op = some (.event (.served ts)) ∧ servedIn (perform Store.exec op s).2 = [ts] := by
  by_cases hop : ∃ ts, op = some (.event (.served ts))
  · obtain ⟨ts, rfl⟩ := hop
    exact .inr ⟨ts, rfl, rfl⟩
  · left
    rw [List.eq_nil_iff_forall_not_mem]
    intro ts hts
    rw [mem_servedIn] at hts
    cases op with
    | none => cases hts
    | some op => exact hop ⟨ts, congrArg some ((Store.served_mem_exec s).mp hts)⟩

end Perform

-- ---------------------------------------------------------------------------
-- Runs
-- ---------------------------------------------------------------------------

/-- What has been served is sorted and not ahead of the clock, which is fit to serve more. -/
structure ServesForward (b : Build) (past : List Timespec) (c : NodePool) : Prop where
  keep : AllKeep b timeTerms c
  gate : c.mem.nodeState = .freq → c.mem.clockState = .taInconsistent
  honest : c.mem.attacker = false
  unshifted : c.mem.tscOffset = 0
  started : c.mem.started = true → c.mem.tscRef ≤ c.mem.tsc
  sorted : past.Pairwise (· ≤ ·)
  behind : ∀ ts ∈ past, ts.ns ≤ c.mem.tsRef.ns
  trained : past ≠ [] → c.mem.started = true ∧ c.mem.nodeState ≠ .freq

namespace ServesForward

variable {b : Build} {past : List Timespec} {t : Access}

theorem of_initial {c : NodePool} (h : c.Initial) (honest : c.mem.attacker = false) :
    ServesForward b [] c := by
  have hkeep : AllKeep b timeTerms c := allKeep_of_initial h
  obtain ⟨_, _, _, _, _, _, _, rfl⟩ := h
  exact ⟨hkeep, fun _ => rfl, honest, rfl, fun h => (Bool.false_ne_true h).elim, .nil, by simp,
    by simp⟩

/-- What an access knows when it is made. -/
theorem knows {c : NodePool} (h : ServesForward b past c) (place : Place)
    (hstop : c.mem.started = true → c.mem.stop = false)
    (hfreq : c.mem.started = true → 0 < c.mem.tscFreq) : Knows timeTerms place c.mem where
  relied := by
    rintro f hgood rfl hstate
    simp [Flag.good, h.gate hstate] at hgood
  unheld := fun h => h.elim
  time := fun _ => ⟨h.honest, h.unshifted, fun hs => ⟨hfreq hs, h.started hs, hstop hs⟩⟩

/-- No step serves a timestamp before those that have been served. -/
theorem step (hs : t.IsStep (node b).step) (hsteady : Steady t.pre.mem t.post.mem)
    (hapart : Apart b t) (h : ServesForward b past t.pre) :
    ServesForward b
      (past ++ if t.pre.mem.started then servedIn t.events else []) t.post := by
  obtain ⟨place, op, haccess, hmem, hevents⟩ := access_cases hs
  obtain ⟨hkeeps, hkept⟩ :=
    h.keep.step hs haccess hmem (h.knows place hsteady.running hsteady.tscFreq)
  have htime : KeepsTime place op t.pre.mem := hkeeps.time trivial
  have hstays : t.pre.mem.nodeState ≠ .freq → t.post.mem.nodeState ≠ .freq := mt hsteady.trained
  have hforward (hstarted : t.pre.mem.started = true) (hstate : t.pre.mem.nodeState ≠ .freq) :
      t.pre.mem.tsRef.ns ≤ t.post.mem.tsRef.ns := hmem ▸ htime.ns_le hstarted hstate
  have hstored (hop : op = some (.nodeState .freq)) : t.pre.mem.nodeState = .freq :=
    hsteady.trained (by rw [hmem, hop]; rfl)
  -- the part that does not depend on what is served
  have hnext : ServesForward b past t.post := by
    refine ⟨hkept ⟨?_, ?_, ?_, fun _ => hsteady.tsc⟩, ?_, ?_, ?_, ?_, h.sorted, ?_, ?_⟩
    · rintro p _ f _ hrelied rfl
      exact hstays (hrelied rfl)
    · exact fun _ hop hstate => absurd (hstored hop) hstate
    · exact fun _ hclock => hapart place op haccess hclock
    · rw [hmem]
      exact gate_perform h.gate (hkeeps.clockState trivial) fun hop => h.gate (hstored hop)
    · rw [hmem]
      cases op with
      | none => exact h.honest
      | some op => exact (Store.exec_attacker _).trans h.honest
    · rw [hmem]
      cases op with
      | none => exact h.unshifted
      | some op =>
          refine (Store.exec_tscOffset _ fun n hn => ?_).trans h.unshifted
          exact htime.tscOffset n (congrArg some hn)
    · intro hstarted
      have htsc := hsteady.tsc
      rw [hmem] at hstarted htsc ⊢
      exact htime.tscRef_le h.started htsc hstarted
    · intro ts hts
      obtain ⟨hstarted, hstate⟩ := h.trained (List.ne_nil_of_mem hts)
      exact (h.behind ts hts).trans (hforward hstarted hstate)
    · intro hpast
      obtain ⟨hstarted, hstate⟩ := h.trained hpast
      exact ⟨hmem ▸ perform_started hstarted, hstays hstate⟩
  split
  case isFalse => rwa [List.append_nil]
  case isTrue hstarted =>
    rw [hevents]
    rcases servedIn_perform op t.pre.mem with hnone | ⟨ts, rfl, hserved⟩
    · rwa [hnone, List.append_nil]
    · rw [hserved]
      obtain ⟨r, _, hrelied, _, hfit⟩ := hkeeps.served ts rfl
      have hstate : t.pre.mem.nodeState ≠ .freq := hrelied (hfit trivial hstarted) .clockState rfl
      have hns : ts.ns = t.pre.mem.tsRef.ns := htime.served ts rfl hstarted
      refine { hnext with sorted := ?_, behind := ?_, trained := ?_ }
      · refine List.pairwise_append.mpr ⟨h.sorted, List.pairwise_singleton _ _, ?_⟩
        intro ts' hts' ts'' hts''
        rw [List.mem_singleton.mp hts'', Timespec.le_iff_ns, hns]
        exact h.behind ts' hts'
      · intro ts' hts'
        rcases List.mem_append.mp hts' with hts' | hts'
        · exact hnext.behind ts' hts'
        · rw [List.mem_singleton.mp hts', hns]
          exact hforward hstarted hstate
      · exact fun _ => ⟨hmem ▸ perform_started hstarted, hstays hstate⟩

end ServesForward

theorem served_snoc (tr : List Access) (t : Access) :
    served (tr ++ [t]) = served tr ++ if t.pre.mem.started then servedIn t.events else [] := by
  cases hstarted : t.pre.mem.started <;> simp [served, servedIn, hstarted]

/-- In every run of an honest node whose steps are steady and whose sections do not overlap, the
    timestamps served since the start of the clock are non-decreasing. -/
theorem served_sorted {b : Build} {c₀ c : NodePool} {tr : List Access} (hinit : c₀.Initial)
    (honest : c₀.mem.attacker = false) (hrun : Interleaving b c₀ tr c)
    (hsteady : ∀ t ∈ tr, Steady t.pre.mem t.post.mem) (hapart : ∀ t ∈ tr, Apart b t) :
    (served tr).Pairwise (· ≤ ·) := by
  have hboth : ∀ t ∈ tr, Steady t.pre.mem t.post.mem ∧ Apart b t :=
    fun t ht => ⟨hsteady t ht, hapart t ht⟩
  refine (hrun.history_of (I := fun past c => ServesForward b (served past) c)
    (P := fun _ t => Steady t.pre.mem t.post.mem ∧ Apart b t) (fun past t hs h hpast => ?_)
    (EachStep.iff_forall_mem.mpr hboth) (.of_initial hinit honest)).sorted
  rw [served_snoc]
  exact hpast.step hs h.1 h.2

/-- The access is steady. -/
def steadyAccess (s : Memory) (op : Option Store) : Bool :=
  decide (Steady s (perform Store.exec op s).1)

/-- A step alone is apart, and steady if that is what is asked of its access. -/
theorem steady_of_alone {b : Build} {t : Access} (hs : t.IsStep (node b).step)
    (h : Step.Alone (node b) (fun _ s _ op => steadyAccess s op) t) :
    Steady t.pre.mem t.post.mem ∧ Apart b t := by
  refine ⟨?_, fun _ _ _ _ p hp => absurd hp (not_standsBy_of_alone h p)⟩
  obtain ⟨place, op, haccess, hsteady, _⟩ := h
  obtain ⟨place', op', haccess', hmem, _⟩ := access_cases hs
  obtain ⟨rfl, rfl⟩ := Prod.mk.inj (Option.some.inj (haccess'.symm.trans haccess))
  rw [hmem]
  exact of_decide_eq_true hsteady

namespace Scenario

/-- A round of the monitor in which others interleave with it: its entry, and an iteration. -/
def enterRound (tsc : ℤ) : List (Slice NodeThread Outside) :=
  List.replicate 5 ⟨.monitor, ⟨reading tsc, .nothing⟩⟩

def iteration (tsc : ℤ) : List (Slice NodeThread Outside) :=
  List.replicate 3 ⟨.monitor, ⟨reading tsc, .nothing⟩⟩

/-- Client 0 reads the elapsed time, 50 ms, and is held up before it stores it. Client 1 is served a
    time 400 ms later. Client 0 goes on, and then client 2 calls. -/
def lostUpdate : List (Slice NodeThread Outside) :=
  [call 0, call 1] ++ enterRound 21000000000 ++ iteration 21100000000 ++
    List.replicate 11 (pass 0) ++ iteration 21900000000 ++ List.replicate 16 (pass 1) ++
    List.replicate 5 (pass 0) ++ [call 2] ++ iteration 21950000000 ++ List.replicate 16 (pass 2)

end Scenario

set_option maxRecDepth 10000 in
open Scenario in
/-- The theorem at two reads. -/
theorem served_sorted_twoReads :
    ∃ tr c, Interleaving .aexNotify pool tr c ∧
      (servedIn (tr.flatMap Transition.events)).length = 2 ∧ (served tr).Pairwise (· ≤ ·) := by
  have hend : ((afterTurns .aexNotify (fun _ s _ op => steadyAccess s op) twoReads).any fun r =>
      decide ((servedIn r.1).length = 2)) = true := by decide +kernel
  obtain ⟨r, hturns, hr⟩ := (Option.any_eq_true _ _).mp hend
  obtain ⟨tr, hrun, hevents, halone⟩ := exists_run_of_afterTurns hturns
  refine ⟨tr, _, hrun, by rw [hevents]; exact of_decide_eq_true hr, ?_⟩
  exact served_sorted initial_pool rfl hrun
    (fun t ht => (steady_of_alone (hrun.isStep ht) (halone t ht)).1)
    fun t ht => (steady_of_alone (hrun.isStep ht) (halone t ht)).2

set_option maxRecDepth 10000 in
open Scenario in
/-- Client 2 calls after client 1 has been served, and is served an earlier time. -/
theorem served_back :
    ¬ ∀ (b : Build) (c₀ c : NodePool) (tr : List Access), c₀.Initial →
        c₀.mem.attacker = false → Interleaving b c₀ tr c →
        (∀ t ∈ tr, Steady t.pre.mem t.post.mem) → (served tr).Pairwise (· ≤ ·) := by
  intro h
  have hend : ((afterTurns .aexNotify (fun _ s _ op => steadyAccess s op)
      (trusted.filterMap Action.turn?)).any fun r =>
        (exec (node .aexNotify).step (.resting r.2.1 r.2.2) lostUpdate).any fun r' =>
          decide ((∀ t ∈ r'.1, Steady t.pre.mem t.post.mem) ∧
            ¬ (served r'.1).Pairwise (· ≤ ·))) = true := by decide +kernel
  obtain ⟨r, hturns, hrest⟩ := (Option.any_eq_true _ _).mp hend
  obtain ⟨⟨tr', c⟩, hexec, hr'⟩ := (Option.any_eq_true _ _).mp hrest
  obtain ⟨hsteady, hback⟩ := of_decide_eq_true hr'
  obtain ⟨tr, hrun, _, halone⟩ := exists_run_of_afterTurns hturns
  have hsorted := h .aexNotify pool c (tr ++ tr') initial_pool rfl (hrun.append (exec_run hexec))
    fun t ht => (List.mem_append.mp ht).elim
      (fun ht => (steady_of_alone (hrun.isStep ht) (halone t ht)).1) (hsteady t)
  rw [served, List.filter_append, List.flatMap_append, servedIn, List.filterMap_append] at hsorted
  exact hback (List.pairwise_append.mp hsorted).2.1

end TriHaRd
