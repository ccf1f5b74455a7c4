-- SUMMARY: Which gaps between the TSC readings of its thread the polling build takes for interruptions.
import TriHaRd.Monitor.Moves

/-!
# Gaps

Without AEX-Notify, an interruption shows as a gap between two readings of the
monitor's thread. The inner loop of `monitor_rdtsc` measures the gap from each
reading to the next. The readings at the hand-overs, `start_tsc` of a call and the
reference `a` that the outer loop samples anew, are not compared with the reading
before them, so a gap that ends there goes unseen.
-/

namespace TriHaRd

open Lts

/-- If the step reads the TSC at least `THRESHOLD` after the last reading, it taints the node
    and counts an interruption. -/
def GapDetected (b : Build) (past : List NodeStep) (t : NodeStep) : Prop :=
  ∀ tsc ∈ t.reading, ∀ last ∈ (readings past).getLast?, b.threshold ≤ tsc - last →
    t.post.node.tainted = true ∧ t.post.node.totalAexCount = t.pre.node.totalAexCount + 1

def MonitorPc.inInnerLoop : MonitorPc → Bool
  | .polling .. => true
  | _ => false

/-- If the step reads the TSC at least `THRESHOLD` after the last reading, it is one of the
    inner loop. -/
def GapInInnerLoop (b : Build) (past : List NodeStep) (t : NodeStep) : Prop :=
  ∀ tsc ∈ t.reading, ∀ last ∈ (readings past).getLast?, b.threshold ≤ tsc - last →
    t.pre.monitor.inInnerLoop = true

instance (b : Build) : DecidablePred (Function.uncurry (GapDetected b)) := fun (past, t) =>
  inferInstanceAs (Decidable (∀ tsc ∈ t.reading, ∀ last ∈ (readings past).getLast?, _ → _))

theorem NodeStep.act_of_reading {t : NodeStep} {tsc : ℤ} (h : tsc ∈ t.reading) :
    ∃ amb, t.act = .monitor amb ∧ t.pre.monitor.readsTsc t.pre.node = true ∧ amb.tsc = tsc := by
  unfold NodeStep.reading at h
  split at h
  case h_1 amb hact =>
    rw [Option.mem_def, Option.ite_none_right_eq_some] at h
    exact ⟨amb, hact, h.1, Option.some.inj h.2⟩
  case h_2 => cases h

/-- A reading outside the inner loop counts no interruption. -/
theorem monitorStep_totalAexCount_of_outside (b : Build) (s : ENode) (amb : Ambient)
    {pc : MonitorPc} (hreads : pc.readsTsc s = true) (houtside : pc.inInnerLoop = false) :
    (monitorStep b s amb pc).2.1.totalAexCount = s.totalAexCount := by
  cases pc with
  | start | sampling => rfl
  | polling caller stopTsc a => cases houtside
  | calibrateDrift | counted | returned | done => cases hreads
  | loop | calibrateCount | counting =>
      simp only [monitorStep]
      split_ifs <;> rfl

/-- A gap before a reading of the inner loop is taken for an interruption. -/
theorem monitorStep_of_gap (b : Build) (s : ENode) (amb : Ambient) (caller : Caller)
    (stopTsc : ℤ) {a : ℤ} (hgap : b.threshold ≤ amb.tsc - a) :
    (monitorStep b s amb (.polling caller stopTsc a)).2.1.tainted = true ∧
      (monitorStep b s amb (.polling caller stopTsc a)).2.1.totalAexCount =
        s.totalAexCount + 1 := by
  have hstay : ¬ (amb.tsc < stopTsc ∧ amb.tsc - a < b.threshold ∧ amb.tsc - a > 0) :=
    fun h => absurd h.2.1 (not_lt.mpr hgap)
  simp only [monitorStep, if_neg hstay, ENode.endPolling, ge_iff_le, hgap, if_true]
  split_ifs <;> exact ⟨rfl, rfl⟩

theorem gapDetected_iff {useSgx2 : Bool} {past : List NodeStep} {t : NodeStep}
    (hs : t.IsStep (System.step (.polling useSgx2))) (hlast : ComparesLast past t.pre) :
    GapDetected (.polling useSgx2) past t ↔ GapInInnerLoop (.polling useSgx2) past t := by
  constructor
  · intro h tsc htsc last hmem hgap
    obtain ⟨amb, hact, hreads, rfl⟩ := NodeStep.act_of_reading htsc
    by_contra houtside
    have hkept := monitorStep_totalAexCount_of_outside (.polling useSgx2) t.pre.node amb hreads
      (Bool.eq_false_iff.mpr houtside)
    rw [← (NodeStep.of_monitor hs hact).2.1] at hkept
    have hcounted := (h amb.tsc htsc last hmem hgap).2
    omega
  · intro h tsc htsc last hmem hgap
    have hinner := h tsc htsc last hmem hgap
    obtain ⟨amb, hact, _, rfl⟩ := NodeStep.act_of_reading htsc
    cases hpc : t.pre.monitor with
    | polling caller stopTsc a =>
        obtain rfl : a = last := Option.some.inj ((hlast caller stopTsc a hpc).symm.trans hmem)
        have hdetected := monitorStep_of_gap (.polling useSgx2) t.pre.node amb caller stopTsc hgap
        rwa [← hpc, ← (NodeStep.of_monitor hs hact).2.1] at hdetected
    | _ =>
        rw [hpc] at hinner
        cases hinner

/-- In every run of the polling build, all gaps are detected exactly when all of them lie
    before a reading of the inner loop. -/
theorem gaps_detected_iff {useSgx2 : Bool} {s₀ s : System} {tr : List NodeStep}
    (hinit : s₀.Initial) (hrun : NodeRun (.polling useSgx2) s₀ tr s) :
    EachStep (GapDetected (.polling useSgx2)) tr ↔
      EachStep (GapInInnerLoop (.polling useSgx2)) tr := by
  have hstart : s₀.monitor = .start := by
    obtain ⟨_, _, _, _, _, _, _, rfl⟩ := hinit
    rfl
  exact hrun.eachStep_iff (comparesLast_of_start hstart)
    (fun _ _ hs hlast => gapDetected_iff hs hlast) (fun _ _ hs hlast _ => hlast.step hs)

/-- The monitor enters its first round, whose `start_tsc` is 1000, and samples `a` at `tsc`. -/
def Scenario.samplesAt (tsc : ℤ) : List Action :=
  [.monitor (reading 0), .monitor (reading 0), .monitor (reading 1000), .monitor (reading tsc)]

set_option maxRecDepth 10000 in
open Scenario in
/-- The theorem at a gap of 39000 ticks in the inner loop. -/
theorem gaps_detected_iff_inside :
    ∃ tr s, NodeRun (.polling true) Scenario.boot tr s ∧ s.node.tainted = true ∧
      EachStep (GapInInnerLoop (.polling true)) tr := by
  obtain ⟨tr, s, hrun, hs⟩ := exists_run_of_exec (System.step (.polling true)) Scenario.boot
    (samplesAt 1000 ++ [.monitor (reading 40000)])
    (fun tr s => s.node.tainted = true ∧ EachStep (GapDetected (.polling true)) tr)
    (by decide +kernel)
  obtain ⟨htainted, hdetected⟩ := hs
  exact ⟨tr, s, hrun, htainted, (gaps_detected_iff initial_boot hrun).mp hdetected⟩

set_option maxRecDepth 10000 in
open Scenario in
/-- The same gap between `start_tsc` and `a` leaves the node untainted. -/
theorem gap_missed :
    ¬ ∀ (useSgx2 : Bool) (s₀ s : System) (tr : List NodeStep), s₀.Initial →
        NodeRun (.polling useSgx2) s₀ tr s → EachStep (GapDetected (.polling useSgx2)) tr := by
  intro h
  obtain ⟨tr, s, hrun, hs⟩ := exists_run_of_exec (System.step (.polling true)) Scenario.boot
    (samplesAt 40000)
    (fun tr s => s.node.tainted = false ∧ s.node.totalAexCount = 0 ∧
      ¬ EachStep (GapDetected (.polling true)) tr) (by decide +kernel)
  obtain ⟨_, _, hmissed⟩ := hs
  exact hmissed (h true _ _ _ initial_boot hrun)

end TriHaRd
