-- SUMMARY: The loop counts with which the AEX-Notify build stays calibrated, and how soon a count that is off is noticed.
import TriHaRd.Monitor.Recalibration
import TriHaRd.Monitor.SelfTaint

/-!
# The count of a round

A round counts how often its loop runs until the TSC has advanced by a fixed amount,
and `calibrate_count` stores the mean of ten such counts. A later count that is more
than `ACCURACY` off shows that the TSC no longer ticks at the same rate. The check
is left out in a round that was interrupted. A round after which the node taints
itself counts as such.
-/

namespace TriHaRd

open Lts

variable {s s₀ : System} {tr past : List NodeStep} {t : NodeStep} {lo hi : ℤ}

-- ---------------------------------------------------------------------------
-- The rounds of the build
-- ---------------------------------------------------------------------------

/-- The caller of the round that ends in the step, and `total_aex_count` at its start. -/
def NodeStep.endsRound (t : NodeStep) : Option (Caller × ℤ) :=
  match t.act, t.pre.monitor with
  | .monitor _, .counted caller memTotalAexCount => some (caller, memTotalAexCount)
  | _, _ => none

/-- The step stores a mean of loop counts. -/
def NodeStep.StoresMean (t : NodeStep) : Prop :=
  ∃ amb i addCountSum, t.act = .monitor amb ∧ t.pre.monitor = .returned (.calibrate i addCountSum)

/-- The count of a round that ends in the step lies between `lo` and `hi`, if it is part of a
    calibration or the round was not interrupted. -/
def NodeStep.CountsWithin (lo hi : ℤ) (t : NodeStep) : Prop :=
  ∀ r ∈ t.endsRound, (r.1 = .monitor → t.pre.node.totalAexCount = r.2) →
    lo ≤ t.pre.node.addCount ∧ t.pre.node.addCount ≤ hi

instance : DecidablePred (NodeStep.CountsWithin lo hi) := fun t =>
  inferInstanceAs (Decidable (∀ r ∈ t.endsRound, _ → _))

theorem NodeStep.of_endsRound {caller : Caller} {mem : ℤ}
    (h : (caller, mem) ∈ t.endsRound) :
    (∃ amb, t.act = .monitor amb) ∧ t.pre.monitor = .counted caller mem := by
  unfold endsRound at h
  split at h
  case h_1 amb caller' mem' hact hpc =>
    cases h
    exact ⟨⟨amb, hact⟩, hpc⟩
  case h_2 => cases h

/-- `s'` has the loop count of `s`, and its reference. -/
structure KeepsCounts (s s' : ENode) : Prop where
  addCount : s'.addCount = s.addCount
  addCountRef : s'.addCountRef = s.addCountRef

namespace KeepsCounts

theorem trans {s m s' : ENode} (h₁ : KeepsCounts s m) (h₂ : KeepsCounts m s') : KeepsCounts s s' :=
  ⟨h₂.addCount.trans h₁.addCount, h₂.addCountRef.trans h₁.addCountRef⟩

theorem of_message (s : ENode) (payload : List UInt8) (src : Addr) (amb : Ambient) :
    KeepsCounts s (s.handleMessage payload src amb).node := by
  obtain ⟨m, hshadows, hwrites⟩ := s.handleMessage_writes_shadowed payload src amb
  have hm : KeepsCounts s m := by
    rcases hshadows with rfl | ⟨osTime, rfl⟩
    · exact ⟨rfl, rfl⟩
    · unfold ENode.shadowTscUpdate
      split <;> exact ⟨rfl, rfl⟩
  refine hm.trans ?_
  generalize (s.handleMessage payload src amb).node = n at hwrites
  cases hwrites <;> exact ⟨rfl, rfl⟩

/-- Only the monitor counts. -/
theorem of_effect {b : Build} {a : Action} {es : List Event} {n : ENode}
    (h : System.Effect b s a es n) (hact : ∀ amb, a ≠ .monitor amb) : KeepsCounts s.node n := by
  cases h with
  | monitor amb => exact absurd rfl (hact amb)
  | refresh amb =>
      rw [refreshStep_eq_setRefresh]
      exact ⟨rfl, rfl⟩
  | recv payload src amb => exact of_message s.node payload src amb
  | recvFailed payload src amb => exact (of_message s.node payload src amb).trans ⟨rfl, rfl⟩
  | addSibling addr sendOk =>
      unfold ENode.addSibling
      split_ifs <;> exact ⟨rfl, rfl⟩
  | clientReturn i memTsc node ts hread =>
      obtain rfl : n = s.node.readClock.1 :=
        congrArg Prod.fst (ENode.getTimestamp_eq_some hread)
      exact ⟨rfl, rfl⟩
  | _ => exact ⟨rfl, rfl⟩

end KeepsCounts

-- ---------------------------------------------------------------------------
-- The sum of a calibration
-- ---------------------------------------------------------------------------

/-- The iteration of `calibrate_count` under way, and the sum of the counts before it. -/
def MonitorPc.summed : MonitorPc → Option (ℤ × ℤ)
  | .calibrateCount i addCountSum => some (i, addCountSum)
  | .counting (.calibrate i addCountSum) _ _ _ => some (i, addCountSum)
  | .counted (.calibrate i addCountSum) _ => some (i, addCountSum)
  | .returned (.calibrate i addCountSum) => some (i, addCountSum)
  | _ => none

/-- The sum and the count that a calibration goes on with come from counts between `lo` and
    `hi`. -/
structure Sums (lo hi : ℤ) (s : ENode) (pc : MonitorPc) : Prop where
  samples : pc.samples = false
  summed : ∀ i addCountSum, pc.summed = some (i, addCountSum) →
    1 ≤ i ∧ (i - 1) * lo ≤ addCountSum ∧ addCountSum ≤ (i - 1) * hi
  returned : ∀ i addCountSum, pc = .returned (.calibrate i addCountSum) →
    lo ≤ s.addCount ∧ s.addCount ≤ hi

namespace Sums

variable {n : ENode} {pc : MonitorPc}

/-- Outside `calibrate_count` there is no sum. -/
theorem of_none (hsamples : pc.samples = false) (h : pc.summed = none) : Sums lo hi n pc where
  samples := hsamples
  summed := fun i addCountSum hpc => by
    rw [h] at hpc
    cases hpc
  returned := fun i addCountSum hpc => by
    rw [hpc] at h
    cases h

/-- The sum of `i` counts, and one more. -/
theorem add_count {i addCountSum addCount : ℤ}
    (hsum : (i - 1) * lo ≤ addCountSum ∧ addCountSum ≤ (i - 1) * hi)
    (hcount : lo ≤ addCount ∧ addCount ≤ hi) :
    i * lo ≤ addCountSum + addCount ∧ addCountSum + addCount ≤ i * hi := by
  constructor <;> linarith

/-- The mean is in the band, too. -/
theorem mean {i addCountSum : ℤ} (hi₁ : 1 ≤ i) (hlo : 0 ≤ lo)
    (hsum : i * lo ≤ addCountSum ∧ addCountSum ≤ i * hi) :
    lo ≤ addCountSum.tdiv i ∧ addCountSum.tdiv i ≤ hi := by
  have hnonneg : 0 ≤ addCountSum := (mul_nonneg (by omega) hlo).trans hsum.1
  rw [Int.tdiv_eq_ediv_of_nonneg hnonneg]
  have hpos : 0 < i := by omega
  refine ⟨?_, ?_⟩
  · rw [Int.le_ediv_iff_mul_le hpos, mul_comm]
    exact hsum.1
  · have hle := Int.ediv_le_ediv hpos hsum.2
    rwa [Int.mul_ediv_cancel_left _ hpos.ne'] at hle

/-- What a step of the monitor leaves of them. -/
theorem monitorStep (amb : Ambient) (h : Sums lo hi n pc)
    (hcount : ∀ caller mem, pc = .counted caller mem →
      (caller = .monitor → n.totalAexCount = mem) → lo ≤ n.addCount ∧ n.addCount ≤ hi) :
    Sums lo hi (TriHaRd.monitorStep .aexNotify n amb pc).2.1
      (TriHaRd.monitorStep .aexNotify n amb pc).1 := by
  obtain ⟨hsamples, hsummed, hreturned⟩ := h
  cases pc with
  | sampling | polling => cases hsamples
  | start | calibrateDrift | done => exact of_none rfl rfl
  | loop =>
      simp only [TriHaRd.monitorStep]
      split_ifs
      · exact of_none rfl rfl
      · refine ⟨rfl, fun i addCountSum hpc => ?_, by simp⟩
        cases hpc
        simp
      · exact of_none rfl rfl
  | calibrateCount i addCountSum =>
      simp only [TriHaRd.monitorStep]
      split_ifs
      · exact ⟨rfl, hsummed, fun _ _ hpc => (by cases hpc)⟩
      · exact of_none rfl rfl
  | counting caller stopTsc mem count =>
      have hkept := hsummed
      simp only [TriHaRd.monitorStep]
      split_ifs
      · exact ⟨rfl, fun i sum hpc => hkept i sum (by cases caller <;> exact hpc), by simp⟩
      · exact ⟨rfl, fun i sum hpc => hkept i sum (by cases caller <;> exact hpc), by simp⟩
  | counted caller mem =>
      refine ⟨rfl, fun i sum hpc => hsummed i sum (by cases caller <;> exact hpc), ?_⟩
      intro i addCountSum hpc
      obtain rfl : caller = .calibrate i addCountSum := MonitorPc.returned.inj hpc
      have haddCount : (n.endCounting mem).1.addCount = n.addCount := by
        rw [ENode.endCounting_eq_setRound]
        rfl
      change lo ≤ (n.endCounting mem).1.addCount ∧ (n.endCounting mem).1.addCount ≤ hi
      rw [haddCount]
      exact hcount _ mem rfl fun hmonitor => by cases hmonitor
  | returned caller =>
      cases caller with
      | monitor => exact of_none rfl rfl
      | calibrate i addCountSum =>
          obtain ⟨hi₁, hsum⟩ := hsummed i addCountSum rfl
          simp only [TriHaRd.monitorStep]
          split_ifs
          · exact of_none rfl rfl
          · refine ⟨rfl, fun j addCountSum' hpc => ?_, by simp⟩
            cases hpc
            have hadd := add_count hsum (hreturned i addCountSum rfl)
            rw [add_sub_cancel_right]
            exact ⟨by omega, hadd⟩

end Sums

/-- The reference after a step of the monitor, if the sum does not overflow. -/
theorem monitorStep_addCountRef (n : ENode) (amb : Ambient) (pc : MonitorPc)
    (hcount : ∀ i addCountSum, pc = .returned (.calibrate i addCountSum) → 0 ≤ n.addCount) :
    ((∀ i addCountSum, pc ≠ .returned (.calibrate i addCountSum)) ∧
        (monitorStep .aexNotify n amb pc).2.1.addCountRef = n.addCountRef) ∨
      ∃ i addCountSum, pc = .returned (.calibrate i addCountSum) ∧
        (monitorStep .aexNotify n amb pc).2.1.addCountRef = (addCountSum + n.addCount).tdiv i := by
  cases pc with
  | returned caller =>
      cases caller with
      | monitor =>
          refine .inl ⟨by simp, ?_⟩
          change (n.monitorNtp amb).1.addCountRef = n.addCountRef
          rw [ENode.monitorNtp_eq_setRequest]
          rfl
      | calibrate i addCountSum =>
          have hnonneg := hcount i addCountSum rfl
          simp only [monitorStep]
          split_ifs
          · omega
          · exact .inr ⟨i, addCountSum, rfl, rfl⟩
  | calibrateDrift =>
      refine .inl ⟨by simp, ?_⟩
      change (n.sendRecvDriftMessage 0 0 amb).1.addCountRef = n.addCountRef
      rw [ENode.sendRecvDriftMessage_eq_setRequest]
      rfl
  | counted caller mem =>
      refine .inl ⟨by simp, ?_⟩
      change (n.endCounting mem).1.addCountRef = n.addCountRef
      rw [ENode.endCounting_eq_setRound]
      rfl
  | polling caller stopTsc a =>
      refine .inl ⟨by simp, ?_⟩
      simp only [monitorStep]
      split_ifs
      · rfl
      · rw [ENode.endPolling_eq_setRound]
        rfl
      · rw [ENode.endPolling_eq_setRound]
        rfl
  | start | sampling | done => exact .inl ⟨by simp, rfl⟩
  | loop | calibrateCount | counting =>
      refine .inl ⟨by simp, ?_⟩
      simp only [monitorStep]
      split_ifs <;> rfl

namespace ENode

/-- The check is made in a round that was not interrupted and after which the node does not taint
    itself. -/
theorem discalibrated_atRoundEnd {n : ENode} (mem : ℤ) (hbound : 0 ≤ n.selftaintingRounds) :
    (n.atRoundEnd mem).discalibrated mem =
      (n.discalibrated mem && decide (n.nbUninterrRounds + 1 ≤ n.selftaintingRounds)) := by
  unfold atRoundEnd selfTaint
  by_cases hsame : n.totalAexCount = mem
  · rw [if_pos hsame]
    by_cases hmany : n.nbUninterrRounds + 1 ≤ n.selftaintingRounds
    · simp [discalibrated, hmany, hsame, not_lt.mpr hmany]
    · simp [discalibrated, hmany, hsame, not_le.mp hmany]
  · rw [if_neg hsame]
    simp [discalibrated, hsame, not_lt.mpr hbound]

/-- A count in a band that is narrow enough is not off from a reference in the band. -/
theorem not_discalibrated_of_band {n : ENode} {mem : ℤ} (hlo : 0 ≤ lo) (hband : 100 * hi ≤ 105 * lo)
    (hcount : lo ≤ n.addCount ∧ n.addCount ≤ hi) (href : lo ≤ n.addCountRef ∧ n.addCountRef ≤ hi) :
    n.discalibrated mem = false := by
  have hnonneg : (0 : ℚ) ≤ lo := by exact_mod_cast hlo
  have hnarrow : (100 : ℚ) * hi ≤ 105 * lo := by exact_mod_cast hband
  obtain ⟨hcount₁, hcount₂⟩ : (lo : ℚ) ≤ n.addCount ∧ (n.addCount : ℚ) ≤ hi := by
    exact_mod_cast hcount
  obtain ⟨href₁, href₂⟩ : (lo : ℚ) ≤ n.addCountRef ∧ (n.addCountRef : ℚ) ≤ hi := by
    exact_mod_cast href
  have habove : ¬ (n.addCount : ℚ) > n.addCountRef * (1 + 5 / 100) := by
    rw [gt_iff_lt, not_lt]
    linarith
  have hbelow : ¬ (n.addCount : ℚ) < n.addCountRef * (1 - 5 / 100) := by
    rw [not_lt]
    linarith
  simp only [discalibrated, habove, hbelow]
  simp

end ENode

-- ---------------------------------------------------------------------------
-- Counts in a band
-- ---------------------------------------------------------------------------

/-- What holds after the history `past`, if all counts lie in the band. -/
structure InBand (lo hi : ℤ) (past : List NodeStep) (s : System) : Prop where
  sums : Sums lo hi s.node s.monitor
  bound : 0 ≤ s.node.selftaintingRounds
  mean : (∃ u ∈ past, NodeStep.StoresMean u) → lo ≤ s.node.addCountRef ∧ s.node.addCountRef ≤ hi

theorem selftaintingRounds_post {b : Build} (hs : t.IsStep (System.step b)) :
    t.post.node.selftaintingRounds = t.pre.node.selftaintingRounds := by
  by_cases hact : ∃ amb, t.act = .monitor amb
  · obtain ⟨amb, hact⟩ := hact
    rw [(NodeStep.of_monitor hs hact).2.1, monitorStep_eq_setMonitor]
    rfl
  · exact ((NodeStep.effect hs).keepsRounds (not_exists.mp hact)).selftaintingRounds

theorem InBand.step (hlo : 0 ≤ lo) (hs : t.IsStep (System.step .aexNotify))
    (hcounts : t.CountsWithin lo hi) (h : InBand lo hi past t.pre) :
    InBand lo hi (past ++ [t]) t.post := by
  have hbound : 0 ≤ t.post.node.selftaintingRounds := selftaintingRounds_post hs ▸ h.bound
  by_cases hact : ∃ amb, t.act = .monitor amb
  · obtain ⟨amb, hact⟩ := hact
    obtain ⟨hmonitor, hnode, _⟩ := NodeStep.of_monitor hs hact
    have hsums := h.sums.monitorStep amb fun caller mem hpc =>
      hcounts (caller, mem) (by simp [NodeStep.endsRound, hact, hpc])
    refine ⟨hmonitor ▸ hnode ▸ hsums, hbound, fun ⟨u, hu, hstores⟩ => ?_⟩
    rw [hnode]
    rcases monitorStep_addCountRef t.pre.node amb t.pre.monitor
      (fun i sum hpc => hlo.trans (h.sums.returned i sum hpc).1) with
      ⟨hother, href⟩ | ⟨i, sum, hpc, href⟩
    · rw [href]
      rcases List.mem_append.mp hu with hpast | hlast
      · exact h.mean ⟨u, hpast, hstores⟩
      · rw [List.mem_singleton.mp hlast] at hstores
        obtain ⟨_, i, sum, _, hpc⟩ := hstores
        exact absurd hpc (hother i sum)
    · rw [href]
      obtain ⟨hi₁, hsum⟩ := h.sums.summed i sum (by rw [hpc]; rfl)
      exact Sums.mean hi₁ hlo (Sums.add_count hsum (h.sums.returned i sum hpc))
  · have hother := not_exists.mp hact
    have hmonitor := System.monitor_of_step hs hother
    have hcount := KeepsCounts.of_effect (NodeStep.effect hs) hother
    refine ⟨⟨?_, ?_, ?_⟩, hbound, fun ⟨u, hu, hstores⟩ => ?_⟩
    · exact hmonitor ▸ h.sums.samples
    · exact hmonitor ▸ h.sums.summed
    · rw [hmonitor, hcount.addCount]
      exact h.sums.returned
    · rw [hcount.addCountRef]
      rcases List.mem_append.mp hu with hpast | hlast
      · exact h.mean ⟨u, hpast, hstores⟩
      · rw [List.mem_singleton.mp hlast] at hstores
        obtain ⟨amb, _, _, hact, _⟩ := hstores
        exact absurd hact (hother amb)

theorem inBand_of_run (hlo : 0 ≤ lo) (hinit : s₀.Initial) (hrun : NodeRun .aexNotify s₀ tr s)
    (hcounts : ∀ t ∈ tr, NodeStep.CountsWithin lo hi t) : InBand lo hi tr s := by
  refine hrun.history_of (I := InBand lo hi) (P := fun _ => NodeStep.CountsWithin lo hi)
    (fun past t hs hwithin h => h.step hlo hs hwithin) (EachStep.iff_forall_mem.mpr hcounts) ?_
  obtain ⟨_, _, _, _, _, _, _, rfl⟩ := hinit
  exact ⟨.of_none rfl rfl, show (0 : ℤ) ≤ 100 by decide, fun ⟨_, hu, _⟩ => by cases hu⟩

/-- What a round that ends in a step does to the calibration. -/
theorem NodeStep.requestsCalibration_of_endsRound {caller : Caller} {mem : ℤ}
    (h : (caller, mem) ∈ t.endsRound) :
    t.requestsCalibration = (t.pre.node.atRoundEnd mem).discalibrated mem := by
  obtain ⟨⟨amb, hact⟩, hpc⟩ := NodeStep.of_endsRound h
  rw [NodeStep.requestsCalibration, hact, hpc]
  rfl

/-- If the counts of the calibrations, and those of the rounds that are not interrupted, lie within
    five percent of each other, then once a first mean is stored no round discalibrates the node,
    whatever else happens to it. -/
theorem calibrated_in_band (hlo : 0 ≤ lo) (hband : 100 * hi ≤ 105 * lo) (hinit : s₀.Initial)
    (hrun : NodeRun .aexNotify s₀ tr s) (hcounts : ∀ t ∈ tr, NodeStep.CountsWithin lo hi t)
    {before after : List NodeStep} (htr : tr = before ++ t :: after) {caller : Caller} {mem : ℤ}
    (hround : (caller, mem) ∈ t.endsRound) (hstored : ∃ u ∈ before, NodeStep.StoresMean u) :
    t.requestsCalibration = false ∧ t.post.node.calibCount = t.pre.node.calibCount ∧
      t.post.node.nodeState = t.pre.node.nodeState := by
  subst htr
  obtain ⟨hbefore, hs, _⟩ := hrun.split_at
  have hinv := inBand_of_run hlo hinit hbefore fun u hu => hcounts u (List.mem_append_left _ hu)
  obtain ⟨⟨amb, hact⟩, hpc⟩ := NodeStep.of_endsRound hround
  have hkept : (t.pre.node.atRoundEnd mem).discalibrated mem = false := by
    rw [ENode.discalibrated_atRoundEnd mem hinv.bound]
    by_cases hsame : t.pre.node.totalAexCount = mem
    · have hcount := hcounts t (by simp) _ hround fun _ => hsame
      rw [ENode.not_discalibrated_of_band hlo hband hcount (hinv.mean hstored), Bool.false_and]
    · simp [ENode.discalibrated, hsame]
  obtain ⟨_, hnode, _⟩ := NodeStep.of_monitor hs hact
  have hend : t.post.node = t.pre.node.atRoundEnd mem := by
    rw [hnode, hpc]
    change (t.pre.node.endCounting mem).1 = _
    rw [ENode.endCounting_eq, hkept]
    rfl
  have hround' : (t.pre.node.atRoundEnd mem).calibCount = t.pre.node.calibCount := by
    unfold ENode.atRoundEnd
    split <;> exact ENode.selfTaint_calibCount _
  refine ⟨(NodeStep.requestsCalibration_of_endsRound hround).trans hkept, ?_, ?_⟩
  · rw [hend, hround']
  · rw [hend]
    exact (ENode.atRoundEnd_sameClock _ _).nodeState

namespace Scenario

/-- A round that reads the TSC twice before it ends, up to its end. -/
def countingTwice (startTsc : ℤ) : List Action :=
  [.monitor (reading startTsc), .monitor (reading (startTsc + 1)),
    .monitor (reading (startTsc + 1000000000))]

end Scenario

set_option maxRecDepth 10000 in
open Scenario in
/-- The theorem at a calibrated node whose rounds go on to count one. -/
theorem calibrated_in_band_ones :
    ∃ tr t, NodeRun .aexNotify boot (tr ++ [t]) t.post ∧ t.endsRound = some (.monitor, 0) ∧
      t.requestsCalibration = false ∧ t.post.node.calibCount = t.pre.node.calibCount ∧
      t.post.node.nodeState = t.pre.node.nodeState := by
  obtain ⟨tr, t, hrun, hs, _, hround, hcounts, u, hu, hact, hpc⟩ := exists_step_of_exec
    (System.step .aexNotify) boot (calibrated ++ (countingRound 0 1000000000).take 2)
    (.monitor (reading 0))
    (fun tr t => NodeStep.endsRound t = some (.monitor, 0) ∧
      (∀ u ∈ tr ++ [t], NodeStep.CountsWithin 1 1 u) ∧
      ∃ u ∈ tr, u.act = .monitor (reading 1000000000) ∧
        u.pre.monitor = .returned (.calibrate 1 0)) (by decide +kernel)
  have hall : NodeRun .aexNotify boot (tr ++ [t]) t.post := .snoc hrun hs
  exact ⟨tr, t, hall, hround, calibrated_in_band (by decide) (by decide)
    initial_boot hall hcounts rfl hround ⟨u, hu, _, 1, 0, hact, hpc⟩⟩

-- ---------------------------------------------------------------------------
-- A count that is off
-- ---------------------------------------------------------------------------

/-- A round ends that was not interrupted, and its count is off. -/
def NodeStep.CountsOff (t : NodeStep) : Prop :=
  ∃ r ∈ t.endsRound, t.pre.node.discalibrated r.2 = true

instance : DecidablePred NodeStep.CountsOff := fun t =>
  inferInstanceAs (Decidable (∃ r ∈ t.endsRound, t.pre.node.discalibrated r.2 = true))

/-- The monitor of this build is never in the loops of the other one, and taints the node after
    100 rounds. -/
structure Monitored (s : System) : Prop where
  samples : s.monitor.samples = false
  bound : s.node.selftaintingRounds = 100

theorem Monitored.step (hs : t.IsStep (System.step .aexNotify)) (h : Monitored t.pre) :
    Monitored t.post := by
  refine ⟨?_, (selftaintingRounds_post hs).trans h.bound⟩
  by_cases hact : ∃ amb, t.act = .monitor amb
  · obtain ⟨amb, hact⟩ := hact
    rw [(NodeStep.of_monitor hs hact).1]
    exact (monitorStep_counting t.pre.node amb h.samples).1
  · rw [System.monitor_of_step hs (not_exists.mp hact)]
    exact h.samples

theorem monitored_of_run (hinit : s₀.Initial) (hrun : NodeRun .aexNotify s₀ tr s) :
    Monitored s := by
  refine hrun.invariant (fun _ hs h => h.step hs) ?_
  obtain ⟨_, _, _, _, _, _, _, rfl⟩ := hinit
  exact ⟨rfl, rfl⟩

/-- Only the end of a round writes the counter of uninterrupted rounds. -/
theorem Monitored.nbUninterrRounds_post (hs : t.IsStep (System.step .aexNotify))
    (h : Monitored t.pre) (hround : t.endsRound = none) :
    t.post.node.nbUninterrRounds = t.pre.node.nbUninterrRounds := by
  by_cases hact : ∃ amb, t.act = .monitor amb
  · obtain ⟨amb, hact⟩ := hact
    have hquiet : t.pre.monitor.countsNothing = true := by
      cases hpc : t.pre.monitor with
      | counted caller mem => simp [NodeStep.endsRound, hact, hpc] at hround
      | polling => simpa [hpc, MonitorPc.samples] using h.samples
      | _ => rfl
    rw [(NodeStep.of_monitor hs hact).2.1]
    exact (monitorStep_keepsRounds .aexNotify t.pre.node amb hquiet).nbUninterrRounds
  · exact ((NodeStep.effect hs).keepsRounds (not_exists.mp hact)).nbUninterrRounds

/-- A count that is off is noticed, or the node taints itself and counts its rounds anew. -/
theorem Monitored.detects (hs : t.IsStep (System.step .aexNotify)) (h : Monitored t.pre)
    (hoff : t.CountsOff) :
    (t.post.node.calibCount = false ∧ t.post.node.nodeState = .freq ∨
      t.post.node.nbUninterrRounds = 0) ∧
    (t.pre.node.nbUninterrRounds = 0 →
      t.post.node.calibCount = false ∧ t.post.node.nodeState = .freq) := by
  obtain ⟨⟨caller, mem⟩, hround, hcount⟩ := hoff
  obtain ⟨⟨amb, hact⟩, hpc⟩ := NodeStep.of_endsRound hround
  have hnode : t.post.node = (t.pre.node.endCounting mem).1 := by
    rw [(NodeStep.of_monitor hs hact).2.1, hpc]
    rfl
  have hsame : t.pre.node.totalAexCount = mem := by
    simp only [ENode.discalibrated, Bool.and_eq_true, decide_eq_true_iff] at hcount
    exact hcount.1
  have hcheck := ENode.discalibrated_atRoundEnd (n := t.pre.node) mem
    (by rw [h.bound]; decide)
  have hrounds := (t.pre.node.endCounting_countsRound mem).nbUninterrRounds
  rw [if_pos hsame, h.bound] at hrounds
  rw [hcount, Bool.true_and, h.bound] at hcheck
  have hdetected (hfew : t.pre.node.nbUninterrRounds + 1 ≤ 100) :
      t.post.node.calibCount = false ∧ t.post.node.nodeState = .freq := by
    rw [decide_eq_true hfew] at hcheck
    rw [hnode, ENode.endCounting_eq, if_pos hcheck]
    exact ⟨rfl, rfl⟩
  refine ⟨?_, fun hzero => hdetected (by omega)⟩
  by_cases hfew : t.pre.node.nbUninterrRounds + 1 ≤ 100
  · exact .inl (hdetected hfew)
  · right
    rw [hnode, hrounds, if_pos (by omega)]

/-- Of two consecutive rounds that are not interrupted and whose counts are off, one sends the node
    back to calibrate its count and to train its frequency. -/
theorem off_detected (hinit : s₀.Initial) (hrun : NodeRun .aexNotify s₀ tr s)
    {before mid after : List NodeStep} {t₁ t₂ : NodeStep}
    (htr : tr = before ++ t₁ :: (mid ++ t₂ :: after)) (hfirst : t₁.CountsOff)
    (hmid : ∀ u ∈ mid, NodeStep.endsRound u = none) (hsecond : t₂.CountsOff) :
    (t₁.post.node.calibCount = false ∧ t₁.post.node.nodeState = .freq) ∨
      t₂.post.node.calibCount = false ∧ t₂.post.node.nodeState = .freq := by
  subst htr
  obtain ⟨hbefore, hs₁, hrest⟩ := hrun.split_at
  obtain ⟨hrun₂, hs₂, _⟩ := hrest.split_at
  have hmonitored := monitored_of_run hinit hbefore
  rcases (hmonitored.detects hs₁ hfirst).1 with hdetected | hzero
  · exact .inl hdetected
  · right
    have hinv := hrun₂.invariant_of
      (I := fun u => Monitored u ∧ u.node.nbUninterrRounds = 0)
      (fun u hu hround h => ⟨h.1.step hu, (h.1.nbUninterrRounds_post hu hround).trans h.2⟩)
      hmid ⟨hmonitored.step hs₁, hzero⟩
    exact (hinv.1.detects hs₂ hsecond).2 hinv.2

set_option maxRecDepth 10000 in
open Scenario in
/-- The theorem at a calibrated node whose loop then runs twice as often. -/
theorem off_detected_twice :
    ∃ tr s, NodeRun .aexNotify boot tr s ∧ ∃ t₁ ∈ tr, ∃ t₂ ∈ tr,
      (t₁.post.node.calibCount = false ∧ t₁.post.node.nodeState = .freq) ∨
        t₂.post.node.calibCount = false ∧ t₂.post.node.nodeState = .freq := by
  obtain ⟨before, t₁, mid, t₂, hrun, _, _, hfirst, hmid, hsecond⟩ := exists_steps_of_exec
    (System.step .aexNotify) boot (calibrated ++ countingTwice 10000000000) (.monitor (reading 0))
    ([.monitor (reading 0), .monitor (reading 0)] ++ countingTwice 12000000000)
    (.monitor (reading 0))
    (fun _ t₁ mid t₂ => NodeStep.CountsOff t₁ ∧ (∀ u ∈ mid, NodeStep.endsRound u = none) ∧
      NodeStep.CountsOff t₂) (by decide +kernel)
  exact ⟨_, _, hrun, t₁, by simp, t₂, by simp,
    off_detected initial_boot hrun rfl hfirst hmid hsecond⟩

end TriHaRd
