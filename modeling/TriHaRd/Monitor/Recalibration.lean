-- SUMMARY: Requests for a new calibration, and when a calibration that is in progress overwrites them.
import TriHaRd.Monitor.Moves
import TriHaRd.Clock.Moves

/-!
# Recalibration

`calib_count` is false while the reference count is out of date. The receive loop
sets it to false when the training ends with a new frequency, the monitor when a
round shows that the count or the TSC is off. `calibrate` takes ten rounds, and
stores the result of `calibrate_count` without looking at what the flag has become.
-/

namespace TriHaRd

open Lts

/-- Does the next step of the monitor store false in `calib_count`? -/
def MonitorPc.decalibrates (s : ENode) (amb : Ambient) : MonitorPc → Bool
  | .counted _ memTotalAexCount =>
    (s.atRoundEnd memTotalAexCount).discalibrated memTotalAexCount
  | .polling _ _ a => decide (amb.tsc - a < 0)
  | .returned (.calibrate _ addCountSum) => decide (addCountSum + s.addCount < addCountSum)
  | _ => false

/-- Does it store true there, after the last round of a calibration? -/
def MonitorPc.calibrates (s : ENode) : MonitorPc → Bool
  | .calibrateCount i _ => !decide (i ≤ 10 ∧ !s.stop)
  | _ => false

/-- The step starts a calibration. -/
def NodeStep.starts (t : NodeStep) : Bool :=
  match t.act with
  | .monitor _ => decide (t.pre.monitor = .loop) && !t.pre.node.stop && !t.pre.node.calibCount
  | _ => false

/-- The step completes a calibration. -/
def NodeStep.completes (t : NodeStep) : Bool :=
  match t.act with
  | .monitor _ => t.pre.monitor.calibrates t.pre.node
  | _ => false

/-- The step asks for a calibration. -/
def NodeStep.requestsCalibration (t : NodeStep) : Bool :=
  match t.act with
  | .monitor amb => t.pre.monitor.decalibrates t.pre.node amb
  | .recv payload _ _ => decide (IsDrift payload) && t.pre.node.endsTraining
  | _ => false

/-- Has a calibration been asked for, and none started since? -/
def unserved (past : List NodeStep) : Bool :=
  past.foldl (fun u t => if t.starts then false else u || t.requestsCalibration) false

theorem unserved_snoc (past : List NodeStep) (t : NodeStep) :
    unserved (past ++ [t]) =
      if t.starts then false else unserved past || t.requestsCalibration := by
  simp [unserved]

/-! ## Who writes the flag -/

namespace ENode

theorem selfTaint_calibCount (s : ENode) : s.selfTaint.1.calibCount = s.calibCount := by
  unfold selfTaint
  split <;> rfl

theorem endCounting_calibCount (s : ENode) (memTotalAexCount : ℤ) :
    (s.endCounting memTotalAexCount).1.calibCount =
      (s.calibCount && !(s.atRoundEnd memTotalAexCount).discalibrated memTotalAexCount) := by
  have hround : (s.atRoundEnd memTotalAexCount).calibCount = s.calibCount := by
    unfold atRoundEnd
    split <;> exact selfTaint_calibCount _
  rw [endCounting_eq]
  split
  case isTrue hoff => simp [hoff]
  case isFalse hoff => simp [hround, hoff]

theorem endPolling_calibCount (b : Build) (s : ENode) (delta : ℤ) :
    (s.endPolling b delta).1.calibCount = (s.calibCount && !decide (delta < 0)) := by
  have hthreshold : 0 < b.threshold := by
    unfold Build.threshold
    split <;> decide
  unfold endPolling
  split_ifs with hgap hback
  · have hforward : ¬ delta < 0 := by omega
    simp [hforward]
  · simp [hback]
  · rw [selfTaint_calibCount]
    simp [hback]

theorem selectClock_calibCount {s : ENode} (h : s.nodeState ≠ .freq) :
    s.selectClock.calibCount = s.calibCount := by
  unfold selectClock
  split
  case h_1 =>
    unfold selectClockSync disciplineClock
    dsimp only
    split <;> rfl
  case h_2 =>
    unfold selectClockSpik
    dsimp only
    split_ifs <;> rfl
  case h_3 hfreq => exact absurd hfreq h

theorem selectClockFreq_calibCount {s : ENode} (h : s.nodeState = .freq) :
    s.selectClockFreq.calibCount = (s.calibCount && !s.endsTraining) := by
  unfold selectClockFreq endsTraining
  dsimp only
  split_ifs with henter hpass
  · simp [henter, stepClock]
  · simp [h, henter, hpass, finishTraining]
  · simp [h, henter, hpass]

/-- An answer stores false in the flag exactly when it ends the training. -/
theorem applyDrift_calibCount (s : ENode) (msg : DriftMsg) :
    (s.applyDrift msg).calibCount = (s.calibCount && !s.endsTraining) := by
  have hread : (s.readOffset msg).nodeState = s.nodeState := rfl
  rw [applyDrift]
  by_cases hfreq : s.nodeState = .freq
  · rw [applyOffset_of_freq (hread.trans hfreq), selectClockFreq_calibCount (hread.trans hfreq)]
    rfl
  · have hjudged : (s.readOffset msg).detectSpike.judgeClock.calibCount = s.calibCount := by
      unfold judgeClock detectSpike
      split_ifs <;> rfl
    rw [applyOffset, selectClock_calibCount (judged_nodeState_ne_freq (hread.trans_ne hfreq)),
      hjudged]
    simp [endsTraining, hfreq]

theorem storeRecvd_calibCount (s : ENode) (count : ℤ) :
    (s.storeRecvd count).calibCount = s.calibCount := rfl

end ENode

/-- A step of the monitor stores true after a calibration, and false in its rounds. -/
theorem monitorStep_calibCount (b : Build) (s : ENode) (amb : Ambient) (pc : MonitorPc) :
    (monitorStep b s amb pc).2.1.calibCount =
      (pc.calibrates s || (s.calibCount && !pc.decalibrates s amb)) := by
  have hkept (c : Bool) : c = (false || (c && !false)) := by simp
  cases pc with
  | counted caller memTotalAexCount =>
      exact (s.endCounting_calibCount memTotalAexCount).trans (Bool.false_or _).symm
  | polling caller stopTsc a =>
      have hend := ENode.endPolling_calibCount b { s with tsc := amb.tsc } (amb.tsc - a)
      simp only [monitorStep, MonitorPc.calibrates, MonitorPc.decalibrates, Bool.false_or]
      split_ifs with hstay
      · have hforward : ¬ amb.tsc - a < 0 := by omega
        simp [hforward]
      · exact hend
      · exact hend
  | calibrateCount i addCountSum =>
      simp only [monitorStep, MonitorPc.calibrates, MonitorPc.decalibrates]
      split_ifs with hmore
      · rw [decide_eq_true hmore]
        simp
      · rw [decide_eq_false hmore]
        rfl
  | calibrateDrift => exact ((s.sendRecvDriftMessage_keeps 0 0 amb).2.calibCount).trans (hkept _)
  | returned caller =>
      cases caller with
      | monitor => exact ((s.monitorNtp_keeps amb).2.calibCount).trans (hkept _)
      | calibrate i addCountSum =>
          simp only [monitorStep, MonitorPc.calibrates, MonitorPc.decalibrates, Bool.false_or]
          split_ifs with hoverflow <;> simp [hoverflow]
  | start | sampling | done => exact hkept _
  | loop | counting =>
      simp only [monitorStep]
      split_ifs <;> exact hkept _

/-- What a step leaves in the flag. -/
theorem NodeStep.calibCount_post {b : Build} {t : NodeStep} (hs : t.IsStep (System.step b)) :
    t.post.node.calibCount =
      (t.completes || (t.pre.node.calibCount && !t.requestsCalibration)) := by
  have hkept (c : Bool) : c = (false || (c && !false)) := by simp
  unfold NodeStep.completes NodeStep.requestsCalibration
  cases hact : t.act with
  | monitor amb =>
      rw [(NodeStep.of_monitor hs hact).2.1]
      exact monitorStep_calibCount b t.pre.node amb t.pre.monitor
  | recv payload src amb =>
      by_cases hdrift : IsDrift payload
      · have hshadow := ENode.shadows_keepsTraining (.inr ⟨amb.osTime, rfl⟩ : t.pre.node.shadows
          (t.pre.node.shadowTscUpdate amb.osTime).1)
        have hends : (t.pre.node.shadowTscUpdate amb.osTime).1.endsTraining =
            t.pre.node.endsTraining := by
          unfold ENode.shadowTscUpdate
          split <;> rfl
        rw [NodeStep.post_of_drift hs hact hdrift, ENode.handleDrift_of_length hdrift.2,
          ENode.storeRecvd_calibCount, ENode.applyDrift_calibCount, hends, hshadow.calibCount]
        simp only [hdrift, decide_true, Bool.true_and, Bool.false_or]
      · have hkeeps := (NodeStep.effect hs).keepsTraining (by simp [hact])
          (fun payload' _ _ hact' => by
            rw [hact] at hact'
            cases hact'
            exact hdrift)
        simp [hkeeps.calibCount, hdrift]
  | _ =>
      have hkeeps := (NodeStep.effect hs).keepsTraining (by simp [hact]) (by simp [hact])
      exact hkeeps.calibCount.trans (hkept _)

/-! ## Requests during a calibration -/

/-- If the node counts as calibrated after the step, a calibration was started after the last
    request for one. -/
def CalibratedSince (past : List NodeStep) (t : NodeStep) : Prop :=
  t.post.node.calibCount = true → unserved (past ++ [t]) = false

/-- If the step completes a calibration, no other has been asked for since that one started. -/
def CompletesUndisturbed (past : List NodeStep) (t : NodeStep) : Prop :=
  t.completes = true → unserved past = false

instance : DecidablePred (Function.uncurry CalibratedSince) := fun (past, t) =>
  inferInstanceAs (Decidable (t.post.node.calibCount = true → unserved (past ++ [t]) = false))

/-- A step that completes a calibration starts none and asks for none. -/
theorem NodeStep.of_completes {t : NodeStep} (h : t.completes = true) :
    t.starts = false ∧ t.requestsCalibration = false := by
  unfold completes starts requestsCalibration at *
  cases hact : t.act with
  | monitor amb =>
      rw [hact] at h
      cases hpc : t.pre.monitor with
      | calibrateCount i addCountSum => exact ⟨by simp, rfl⟩
      | _ =>
          rw [hpc] at h
          cases h
  | _ =>
      rw [hact] at h
      cases h

theorem calibratedSince_iff {b : Build} {past : List NodeStep} {t : NodeStep}
    (hs : t.IsStep (System.step b))
    (h : t.pre.node.calibCount = true → unserved past = false) :
    CalibratedSince past t ↔ CompletesUndisturbed past t := by
  rw [CalibratedSince, CompletesUndisturbed, NodeStep.calibCount_post hs, unserved_snoc]
  cases hcompletes : t.completes with
  | true =>
      obtain ⟨hstarts, hrequests⟩ := NodeStep.of_completes hcompletes
      simp [hstarts, hrequests]
  | false =>
      refine iff_of_true (fun hcalib => ?_) (fun hcompletes' => ?_)
      · simp only [Bool.false_or, Bool.and_eq_true, Bool.not_eq_true'] at hcalib
        simp [h hcalib.1, hcalib.2]
      · cases hcompletes'

/-- In every run, a node that counts as calibrated has been calibrated since the last request
    exactly when no request comes during a calibration that completes. -/
theorem calibrated_since_iff {b : Build} {s₀ s : System} {tr : List NodeStep}
    (hrun : NodeRun b s₀ tr s) : EachStep CalibratedSince tr ↔ EachStep CompletesUndisturbed tr := by
  refine hrun.eachStep_iff
    (I := fun past s => s.node.calibCount = true → unserved past = false) ?_
    (fun _ _ hs h => calibratedSince_iff hs h) (fun _ _ _ _ h => h)
  exact fun _ => rfl

/-- A node whose memory already held the count of its rounds. With another value there, the first
    round of its first calibration would ask for one. -/
def Scenario.counted : System :=
  .boot (ENode.construct { zeroed with addCountRef := 1 } .init 12345 2 2 0
    ⟨"127.0.0.1", 12340⟩ 3)

/-- The calibrated node has been sent 24 answers when a round shows that its count is off. The
    answer that ends the training arrives after `before` steps of the calibration that follows. -/
def Scenario.trainedWithin (before : ℕ) : List Action :=
  let recalibration := recounting.drop 1
  calibrated ++
    List.replicate 24 (.recv (driftAnswer ⟨1005, 0⟩) ⟨"127.0.0.1", 12340⟩ (reading 0)) ++
    [.monitor (reading 10000000000), .monitor (reading 10500000000),
      .monitor (reading 12000000000), .monitor (reading 12000000000)] ++
    recalibration.take before ++
    [.recv (driftAnswer ⟨1010, 0⟩) ⟨"127.0.0.1", 12340⟩ (reading 0)] ++ recalibration.drop before

set_option maxRecDepth 10000 in
open Scenario in
/-- The theorem at an answer that arrives before the calibration starts. -/
theorem calibrated_since_iff_before :
    ∃ tr s, NodeRun .aexNotify Scenario.counted tr s ∧ s.node.calibCount = true ∧
      EachStep CompletesUndisturbed tr := by
  obtain ⟨tr, s, hrun, hs⟩ := exists_run_of_exec (System.step .aexNotify) Scenario.counted
    (trainedWithin 1)
    (fun tr s => s.node.calibCount = true ∧ EachStep CalibratedSince tr)
    (by decide +kernel)
  obtain ⟨hcalib, hsince⟩ := hs
  exact ⟨tr, s, hrun, hcalib, (calibrated_since_iff hrun).mp hsince⟩

set_option maxRecDepth 10000 in
open Scenario in
/-- The same answer in the middle of the calibration, which then hides that the frequency is new. -/
theorem request_lost :
    ¬ ∀ (b : Build) (s₀ s : System) (tr : List NodeStep), s₀.Initial → NodeRun b s₀ tr s →
        EachStep CalibratedSince tr := by
  intro h
  obtain ⟨tr, s, hrun, hs⟩ := exists_run_of_exec (System.step .aexNotify) Scenario.counted
    (trainedWithin 20)
    (fun tr s => s.node.calibCount = true ∧ ¬ EachStep CalibratedSince tr ∧
      (tr.filter NodeStep.requestsCalibration).length = 2)
    (by decide +kernel)
  obtain ⟨_, hlost, _⟩ := hs
  exact hlost (h _ _ _ _ ⟨_, _, _, _, _, _, _, rfl⟩ hrun)

end TriHaRd
