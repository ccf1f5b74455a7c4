-- SUMMARY: The rounds of a run in both builds, and when the two builds taint themselves on the same schedule.
import TriHaRd.Monitor.Gaps
import TriHaRd.Monitor.Rounds
import Mathlib.Data.List.Chain

/-!
# Self-tainting

`RoundLog` reads the rounds off a history. A round is interrupted if an
interruption is counted while it runs: by the AEX handler in one build, at a gap
between two readings in the other.

The counter of the AEX-Notify build is updated once at the end of a round, and is
the restarting one. The polling build updates it at each exit of its inner loop,
so that what follows an interruption in the same round counts as a round.
-/

namespace TriHaRd

open Lts Round

/-- The rounds that are over, and whether the one under way has been interrupted. -/
structure RoundLog where
  rounds : List Round
  interrupted : Bool
deriving DecidableEq, Repr

namespace RoundLog

/-- What a step of the AEX-Notify build adds. -/
def recordCounting (l : RoundLog) (t : NodeStep) : RoundLog :=
  match t.act, t.pre.monitor with
  | .monitor _, .loop => { l with interrupted := false }
  | .monitor _, .calibrateCount .. => { l with interrupted := false }
  | .monitor _, .counted .. =>
    { rounds := l.rounds ++ [⟨l.interrupted, false, decide (.taint ∈ t.events)⟩]
      interrupted := false }
  | .monitor _, _ => l
  | _, _ => { l with
      interrupted :=
        l.interrupted || decide (t.pre.node.totalAexCount < t.post.node.totalAexCount) }

/-- What a step of the polling build adds. A store in `tainted` at a gap is not a self-taint. -/
def recordPolling (b : Build) (l : RoundLog) (t : NodeStep) : RoundLog :=
  match t.act, t.pre.monitor with
  | .monitor amb, .polling _ stopTsc a =>
    let gap := decide (b.threshold ≤ amb.tsc - a)
    if amb.tsc < stopTsc then { l with interrupted := l.interrupted || gap }
    else
      { rounds := l.rounds ++
          [⟨l.interrupted || gap, l.interrupted && !gap, decide (.taint ∈ t.events) && !gap⟩]
        interrupted := false }
  | _, _ => l

def record : Build → RoundLog → NodeStep → RoundLog
  | .aexNotify => recordCounting
  | .polling useSgx2 => recordPolling (.polling useSgx2)

end RoundLog

def roundLog (b : Build) (tr : List NodeStep) : RoundLog :=
  tr.foldl (RoundLog.record b) ⟨[], false⟩

/-- The rounds that have ended in a history, oldest first. -/
def rounds (b : Build) (tr : List NodeStep) : List Round := (roundLog b tr).rounds

theorem roundLog_snoc (b : Build) (tr : List NodeStep) (t : NodeStep) :
    roundLog b (tr ++ [t]) = RoundLog.record b (roundLog b tr) t := by
  simp [roundLog]

-- ---------------------------------------------------------------------------
-- What the ends of a round do to the counter
-- ---------------------------------------------------------------------------

/-- `s'` has counted one more round, `next` of them in all, and tainted itself if these are too
    many. -/
structure CountsRound (s : ENode) (next : ℤ) (es : List Event) (s' : ENode) : Prop where
  nbUninterrRounds : s'.nbUninterrRounds = if next > s.selftaintingRounds then 0 else next
  taint : .taint ∈ es ↔ next > s.selftaintingRounds
  selftaintingRounds : s'.selftaintingRounds = s.selftaintingRounds

namespace ENode

theorem selfTaint_countsRound (s : ENode) :
    CountsRound s s.nbUninterrRounds s.selfTaint.2 s.selfTaint.1 := by
  unfold selfTaint
  split_ifs with h
  · exact ⟨(if_pos h).symm, by simp [h], rfl⟩
  · exact ⟨(if_neg h).symm, by simp [h], rfl⟩

theorem endCounting_countsRound (s : ENode) (memTotalAexCount : ℤ) :
    CountsRound s (if s.totalAexCount = memTotalAexCount then s.nbUninterrRounds + 1 else 0)
      (s.endCounting memTotalAexCount).2 (s.endCounting memTotalAexCount).1 := by
  have hround (r : ℤ) := selfTaint_countsRound { s with nbUninterrRounds := r }
  unfold endCounting
  dsimp only
  split_ifs
  · exact ⟨(hround _).1, (hround _).2, (hround _).3⟩
  · exact ⟨(hround _).1, (hround _).2, (hround _).3⟩
  · exact ⟨(hround _).1, (hround _).2, (hround _).3⟩
  · exact ⟨(hround _).1, (hround _).2, (hround _).3⟩

end ENode

/-- Does the next step of the monitor leave the counter to itself? -/
def MonitorPc.countsNothing : MonitorPc → Bool
  | .counted .. => false
  | .polling .. => false
  | _ => true

theorem monitorStep_keepsRounds (b : Build) (s : ENode) (amb : Ambient) {pc : MonitorPc}
    (h : pc.countsNothing = true) : KeepsRounds s (monitorStep b s amb pc).2.1 := by
  cases pc with
  | counted | polling => cases h
  | calibrateDrift => exact (s.sendRecvDriftMessage_keeps 0 0 amb).1
  | returned caller =>
      cases caller with
      | monitor => exact (s.monitorNtp_keeps amb).1
      | calibrate i addCountSum =>
          simp only [monitorStep]
          split_ifs <;> exact ⟨rfl, rfl, le_refl _⟩
  | start | sampling | done => exact ⟨rfl, rfl, le_refl _⟩
  | loop | calibrateCount | counting =>
      simp only [monitorStep]
      split_ifs <;> exact ⟨rfl, rfl, le_refl _⟩

/-- The counter of a node goes on as `next` says. -/
theorem CountsRound.counted {n : ℕ} {next : Round → ℤ → ℤ} {rs : List Round} {r : Round} {c : ℤ}
    {s s' : ENode} {es : List Event} (h : CountsRound s (next r c) es s')
    (hcounted : Counted n next rs c) (hbound : s.selftaintingRounds = n)
    (htaint : r.selfTainted = true ↔ .taint ∈ es) :
    Counted n next (rs ++ [r]) s'.nbUninterrRounds := by
  rw [h.nbUninterrRounds, hbound]
  refine hcounted.snoc ?_
  rw [htaint, h.taint, hbound]

-- ---------------------------------------------------------------------------
-- The AEX-Notify build
-- ---------------------------------------------------------------------------

/-- `total_aex_count` at the start of the round under way. -/
def MonitorPc.memTotalAexCount : MonitorPc → Option ℤ
  | .counting _ _ memTotalAexCount _ => some memTotalAexCount
  | .counted _ memTotalAexCount => some memTotalAexCount
  | _ => none

/-- Is the monitor in the loops of the polling build? -/
def MonitorPc.samples : MonitorPc → Bool
  | .sampling .. => true
  | .polling .. => true
  | _ => false

/-- The rounds so far, and the round under way, are those that the node counts. -/
structure CountsRestarting (n : ℕ) (l : RoundLog) (s : System) : Prop where
  counted : Counted n restarting l.rounds s.node.nbUninterrRounds
  selftaintingRounds : s.node.selftaintingRounds = n
  samples : s.monitor.samples = false
  interrupted : ∀ mem ∈ s.monitor.memTotalAexCount, mem ≤ s.node.totalAexCount ∧
    (l.interrupted = true ↔ mem ≠ s.node.totalAexCount)

theorem CountsRestarting.step_other {n : ℕ} {l : RoundLog} {t : NodeStep}
    (hs : t.IsStep (System.step .aexNotify)) (hother : ∀ amb, t.act ≠ .monitor amb)
    (h : CountsRestarting n l t.pre) : CountsRestarting n (l.recordCounting t) t.post := by
  obtain ⟨hcounted, hbound, hsamples, hinterrupted⟩ := h
  have hkeeps := (NodeStep.effect hs).keepsRounds hother
  have hmonitor := System.monitor_of_step hs hother
  have hrecord : l.recordCounting t = { l with
      interrupted :=
        l.interrupted || decide (t.pre.node.totalAexCount < t.post.node.totalAexCount) } := by
    unfold RoundLog.recordCounting
    split <;> first | rfl | exact absurd ‹_› (hother _)
  rw [hrecord]
  refine ⟨?_, hkeeps.selftaintingRounds.trans hbound, hmonitor ▸ hsamples, ?_⟩
  · rw [hkeeps.nbUninterrRounds]
    exact hcounted
  · intro mem hmem
    rw [hmonitor] at hmem
    obtain ⟨hle, hiff⟩ := hinterrupted mem hmem
    have hgrows := hkeeps.totalAexCount_le
    refine ⟨hle.trans hgrows, ?_⟩
    rw [Bool.or_eq_true, hiff, decide_eq_true_iff]
    omega

/-- After a step of the monitor in the AEX-Notify build it is in a round only if it was in it
    before, or has just entered it. -/
theorem monitorStep_counting (s : ENode) (amb : Ambient) {pc : MonitorPc}
    (hsamples : pc.samples = false) :
    (monitorStep .aexNotify s amb pc).1.samples = false ∧
      ∀ mem ∈ (monitorStep .aexNotify s amb pc).1.memTotalAexCount,
        (monitorStep .aexNotify s amb pc).2.1.totalAexCount = s.totalAexCount ∧
          (mem = s.totalAexCount ∧ (pc = .loop ∨ ∃ i addCountSum, pc = .calibrateCount i addCountSum)
            ∨ ∃ caller stopTsc count, pc = .counting caller stopTsc mem count) := by
  have hnone {mem : ℤ} {p : Prop} (h : mem ∈ (none : Option ℤ)) : p := by cases h
  cases pc with
  | sampling | polling => cases hsamples
  | start | calibrateDrift | counted | done => exact ⟨rfl, fun mem hmem => hnone hmem⟩
  | returned caller =>
      cases caller with
      | monitor => exact ⟨rfl, fun mem hmem => hnone hmem⟩
      | calibrate i addCountSum =>
          simp only [monitorStep]
          split_ifs <;> exact ⟨rfl, fun mem hmem => hnone hmem⟩
  | loop =>
      simp only [monitorStep]
      split_ifs
      · exact ⟨rfl, fun mem hmem => hnone hmem⟩
      · exact ⟨rfl, fun mem hmem => hnone hmem⟩
      · refine ⟨rfl, fun mem hmem => ?_⟩
        exact ⟨rfl, .inl ⟨(Option.some.inj hmem).symm, .inl trivial⟩⟩
  | calibrateCount i addCountSum =>
      simp only [monitorStep]
      split_ifs
      · refine ⟨rfl, fun mem hmem => ?_⟩
        exact ⟨rfl, .inl ⟨(Option.some.inj hmem).symm, .inr ⟨i, addCountSum, rfl⟩⟩⟩
      · exact ⟨rfl, fun mem hmem => hnone hmem⟩
  | counting caller stopTsc memTotalAexCount count =>
      simp only [monitorStep]
      split_ifs
      · refine ⟨rfl, fun mem hmem => ?_⟩
        obtain rfl : memTotalAexCount = mem := Option.some.inj hmem
        exact ⟨rfl, .inr ⟨caller, stopTsc, count, rfl⟩⟩
      · refine ⟨rfl, fun mem hmem => ?_⟩
        obtain rfl : memTotalAexCount = mem := Option.some.inj hmem
        exact ⟨rfl, .inr ⟨caller, stopTsc, count, rfl⟩⟩

theorem CountsRestarting.step_monitor {n : ℕ} {l : RoundLog} {t : NodeStep} {amb : Ambient}
    (hs : t.IsStep (System.step .aexNotify)) (hact : t.act = .monitor amb)
    (h : CountsRestarting n l t.pre) : CountsRestarting n (l.recordCounting t) t.post := by
  obtain ⟨hcounted, hbound, hsamples, hinterrupted⟩ := h
  obtain ⟨hmonitor, hnode, hevents⟩ := NodeStep.of_monitor hs hact
  obtain ⟨hsamples', hmem⟩ := monitorStep_counting t.pre.node amb hsamples
  rw [← hmonitor] at hsamples' hmem
  rw [← hnode] at hmem
  by_cases hpc : ∃ caller mem, t.pre.monitor = .counted caller mem
  case pos =>
    obtain ⟨caller, mem, hpc⟩ := hpc
    rw [hpc] at hmonitor hnode hevents
    obtain ⟨hle, hiff⟩ := hinterrupted mem (by rw [hpc]; rfl)
    have hrecord : l.recordCounting t =
        { rounds := l.rounds ++ [⟨l.interrupted, false, decide (.taint ∈ t.events)⟩]
          interrupted := false } := by
      unfold RoundLog.recordCounting
      rw [hact, hpc]
    have hend := t.pre.node.endCounting_countsRound mem
    have hnext : restarting ⟨l.interrupted, false, decide (.taint ∈ t.events)⟩
        t.pre.node.nbUninterrRounds =
        if t.pre.node.totalAexCount = mem then t.pre.node.nbUninterrRounds + 1 else 0 := by
      by_cases hsame : t.pre.node.totalAexCount = mem
      · have hnot : l.interrupted = false := Bool.eq_false_iff.mpr fun hi => hiff.mp hi hsame.symm
        rw [if_pos hsame, restarting, hnot]
        rfl
      · rw [if_neg hsame, restarting, hiff.mpr fun h => hsame h.symm]
        rfl
    rw [hrecord]
    rw [← hnext] at hend
    refine ⟨?_, ?_, hsamples', ?_⟩
    · rw [hnode]
      exact hend.counted hcounted hbound (by rw [hevents, decide_eq_true_iff]; rfl)
    · rw [hnode]
      exact hend.selftaintingRounds.trans hbound
    · rw [hmonitor]
      intro mem' hmem'
      cases hmem'
  case neg =>
    have hquiet : t.pre.monitor.countsNothing = true := by
      cases hpc' : t.pre.monitor with
      | counted caller mem => exact absurd ⟨caller, mem, hpc'⟩ hpc
      | polling => simp [hpc', MonitorPc.samples] at hsamples
      | _ => rfl
    have hkeeps := monitorStep_keepsRounds .aexNotify t.pre.node amb hquiet
    rw [← hnode] at hkeeps
    have hrounds : (l.recordCounting t).rounds = l.rounds := by
      unfold RoundLog.recordCounting
      split
      case h_3 hpc' => exact absurd ⟨_, _, hpc'⟩ hpc
      all_goals rfl
    refine ⟨?_, hkeeps.selftaintingRounds.trans hbound, hsamples', ?_⟩
    · rw [hrounds, hkeeps.nbUninterrRounds]
      exact hcounted
    · intro mem hmem'
      obtain ⟨htotal, ⟨rfl, hpc' | ⟨i, addCountSum, hpc'⟩⟩ | ⟨caller, stopTsc, count, hpc'⟩⟩ :=
        hmem mem hmem'
      · simp [RoundLog.recordCounting, hact, hpc', htotal]
      · simp [RoundLog.recordCounting, hact, hpc', htotal]
      · rw [htotal]
        simpa [RoundLog.recordCounting, hact, hpc'] using hinterrupted mem (by rw [hpc']; rfl)

/-- In the AEX-Notify build, `nb_uninterr_rounds` is the restarting counter. -/
theorem CountsRestarting.run {n : ℕ} {s₀ s : System} {tr : List NodeStep}
    (hrun : NodeRun .aexNotify s₀ tr s) (hstart : s₀.monitor = .start)
    (hcount : s₀.node.nbUninterrRounds = 0) (hbound : s₀.node.selftaintingRounds = n) :
    CountsRestarting n (roundLog .aexNotify tr) s := by
  refine hrun.history (I := fun past s => CountsRestarting n (roundLog .aexNotify past) s)
    (fun past t hs h => ?_) ?_
  · rw [roundLog_snoc]
    by_cases hact : ∃ amb, t.act = .monitor amb
    · obtain ⟨amb, hact⟩ := hact
      exact h.step_monitor hs hact
    · exact h.step_other hs (not_exists.mp hact)
  · refine ⟨by rw [hcount]; exact .nil, hbound, by rw [hstart]; rfl, ?_⟩
    intro mem hmem
    rw [hstart] at hmem
    cases hmem

-- ---------------------------------------------------------------------------
-- The polling build
-- ---------------------------------------------------------------------------

/-- The rounds so far are those that the node counts. An interruption in the round under way has
    set its counter to zero. -/
structure CountsResuming (n : ℕ) (l : RoundLog) (s : System) : Prop where
  counted : ∃ c, Counted n resuming l.rounds c ∧
    s.node.nbUninterrRounds = if l.interrupted then 0 else c
  selftaintingRounds : s.node.selftaintingRounds = n
  counting : s.monitor.memTotalAexCount = none

/-- The polling build does not enter the assembly loop. -/
theorem monitorStep_sampling (useSgx2 : Bool) (s : ENode) (amb : Ambient) {pc : MonitorPc}
    (hcounting : pc.memTotalAexCount = none) :
    (monitorStep (.polling useSgx2) s amb pc).1.memTotalAexCount = none := by
  cases pc with
  | counting | counted => cases hcounting
  | start | calibrateDrift | sampling | done => rfl
  | returned caller =>
      cases caller with
      | monitor => rfl
      | calibrate i addCountSum =>
          simp only [monitorStep]
          split_ifs <;> rfl
  | loop | calibrateCount | polling =>
      simp only [monitorStep]
      split_ifs <;> rfl

/-- The readings of the inner loop go on until a gap, or until the end of the round. -/
theorem monitorStep_of_increasing (b : Build) (s : ENode) (amb : Ambient) {caller : Caller}
    {stopTsc a : ℤ} (hincreases : a < amb.tsc) :
    (monitorStep b s amb (.polling caller stopTsc a)).2 =
      if amb.tsc < stopTsc ∧ amb.tsc - a < b.threshold then ({ s with tsc := amb.tsc }, [])
      else { s with tsc := amb.tsc }.endPolling b (amb.tsc - a) := by
  simp only [monitorStep]
  split_ifs <;> first | rfl | omega

/-- The end of an inner loop at a gap sets the counter to zero, and any other end counts a round. -/
theorem endPolling_of_pos (b : Build) (s : ENode) {delta : ℤ} (hpos : 0 < delta) :
    (b.threshold ≤ delta → (s.endPolling b delta).1.nbUninterrRounds = 0 ∧
      (s.endPolling b delta).1.selftaintingRounds = s.selftaintingRounds) ∧
    (¬ b.threshold ≤ delta → CountsRound s (s.nbUninterrRounds + 1) (s.endPolling b delta).2
      (s.endPolling b delta).1) := by
  have hnonneg : ¬ delta < 0 := by omega
  constructor
  · intro hgap
    rw [ENode.endPolling, if_pos hgap]
    exact ⟨rfl, rfl⟩
  · intro hgap
    rw [ENode.endPolling, if_neg hgap, if_neg hnonneg]
    have hround := ENode.selfTaint_countsRound { s with nbUninterrRounds := s.nbUninterrRounds + 1 }
    exact ⟨hround.1, hround.2, hround.3⟩

namespace CountsResuming

variable {useSgx2 : Bool} {n : ℕ} {l : RoundLog} {t : NodeStep}

/-- A step outside the inner loop adds nothing. -/
theorem step_outside (hs : t.IsStep (System.step (.polling useSgx2)))
    (houtside : ∀ amb, t.act = .monitor amb → t.pre.monitor.inInnerLoop = false)
    (h : CountsResuming n l t.pre) :
    CountsResuming n (l.recordPolling (.polling useSgx2) t) t.post := by
  obtain ⟨⟨c, hcounted, hc⟩, hbound, hcounting⟩ := h
  have hrecord : l.recordPolling (.polling useSgx2) t = l := by
    unfold RoundLog.recordPolling
    split
    case h_1 amb _ _ _ hact hpc =>
      have hinner := houtside amb hact
      rw [hpc] at hinner
      cases hinner
    case h_2 => rfl
  rw [hrecord]
  by_cases hact : ∃ amb, t.act = .monitor amb
  · obtain ⟨amb, hact⟩ := hact
    obtain ⟨hmonitor, hnode, _⟩ := NodeStep.of_monitor hs hact
    have hquiet : t.pre.monitor.countsNothing = true := by
      have hinner := houtside amb hact
      cases hpc : t.pre.monitor with
      | counted => simp [hpc, MonitorPc.memTotalAexCount] at hcounting
      | polling => simp [hpc, MonitorPc.inInnerLoop] at hinner
      | _ => rfl
    have hkeeps := monitorStep_keepsRounds (.polling useSgx2) t.pre.node amb hquiet
    rw [← hnode] at hkeeps
    refine ⟨⟨c, hcounted, hkeeps.nbUninterrRounds.trans hc⟩,
      hkeeps.selftaintingRounds.trans hbound, ?_⟩
    rw [hmonitor]
    exact monitorStep_sampling useSgx2 t.pre.node amb hcounting
  · have hother : ∀ amb, t.act ≠ .monitor amb := not_exists.mp hact
    have hkeeps := (NodeStep.effect hs).keepsRounds hother
    refine ⟨⟨c, hcounted, hkeeps.nbUninterrRounds.trans hc⟩,
      hkeeps.selftaintingRounds.trans hbound, ?_⟩
    rw [System.monitor_of_step hs hother]
    exact hcounting

/-- A reading of the inner loop that is later than the one before. -/
theorem step_polling {amb : Ambient} {caller : Caller} {stopTsc a : ℤ}
    (hs : t.IsStep (System.step (.polling useSgx2))) (hact : t.act = .monitor amb)
    (hpc : t.pre.monitor = .polling caller stopTsc a) (hincreases : a < amb.tsc)
    (h : CountsResuming n l t.pre) :
    CountsResuming n (l.recordPolling (.polling useSgx2) t) t.post := by
  obtain ⟨⟨c, hcounted, hc⟩, hbound, hcounting⟩ := h
  obtain ⟨hmonitor, hnode, hevents⟩ := NodeStep.of_monitor hs hact
  have hcounting' : t.post.monitor.memTotalAexCount = none := by
    rw [hmonitor]
    exact monitorStep_sampling useSgx2 t.pre.node amb hcounting
  rw [hpc] at hnode hevents
  rw [monitorStep_of_increasing (.polling useSgx2) t.pre.node amb hincreases] at hnode hevents
  obtain ⟨hatGap, hatEnd⟩ := endPolling_of_pos (.polling useSgx2)
    { t.pre.node with tsc := amb.tsc } (sub_pos.mpr hincreases)
  have hrecord : l.recordPolling (.polling useSgx2) t =
      (let gap := decide ((Build.polling useSgx2).threshold ≤ amb.tsc - a)
      if amb.tsc < stopTsc then { l with interrupted := l.interrupted || gap }
      else
        { rounds := l.rounds ++
            [⟨l.interrupted || gap, l.interrupted && !gap, decide (.taint ∈ t.events) && !gap⟩]
          interrupted := false }) := by
    unfold RoundLog.recordPolling
    rw [hact, hpc]
  rw [hrecord]
  dsimp only
  by_cases hend : amb.tsc < stopTsc <;>
    by_cases hgap : (Build.polling useSgx2).threshold ≤ amb.tsc - a
  · -- an interruption in the middle of the round
    have hleft : ¬ (amb.tsc < stopTsc ∧ amb.tsc - a < (Build.polling useSgx2).threshold) := by omega
    rw [if_neg hleft] at hnode
    obtain ⟨hzero, hkept⟩ := hatGap hgap
    rw [← hnode] at hzero hkept
    rw [if_pos hend]
    exact ⟨⟨c, hcounted, by simpa [hgap] using hzero⟩, hkept.trans hbound, hcounting'⟩
  · -- the round goes on
    rw [if_pos ⟨hend, not_le.mp hgap⟩] at hnode
    rw [if_pos hend]
    exact ⟨⟨c, hcounted, by rw [hnode]; simpa [hgap] using hc⟩, by rw [hnode]; exact hbound,
      hcounting'⟩
  · -- an interruption at the end of the round
    have hleft : ¬ (amb.tsc < stopTsc ∧ amb.tsc - a < (Build.polling useSgx2).threshold) := by omega
    rw [if_neg hleft] at hnode hevents
    obtain ⟨hzero, hkept⟩ := hatGap hgap
    rw [← hnode] at hzero hkept
    rw [if_neg hend]
    refine ⟨⟨0, ?_, by simpa using hzero⟩, hkept.trans hbound, hcounting'⟩
    have hnext : resuming ⟨true, false, false⟩ c = 0 := rfl
    have hfew : ¬ (0 : ℤ) > n := by omega
    have hround := hcounted.snoc (r := ⟨true, false, false⟩) (by rw [hnext]; simp)
    rw [hnext, if_neg hfew] at hround
    simpa [hgap] using hround
  · -- the end of what follows the last interruption
    have hleft : ¬ (amb.tsc < stopTsc ∧ amb.tsc - a < (Build.polling useSgx2).threshold) := by omega
    rw [if_neg hleft] at hnode hevents
    have hround := hatEnd hgap
    rw [← hnode, ← hevents] at hround
    rw [if_neg hend]
    have hnext : resuming ⟨l.interrupted, l.interrupted, decide (.taint ∈ t.events)⟩ c =
        t.pre.node.nbUninterrRounds + 1 := by
      rw [hc]
      cases hi : l.interrupted <;> simp [resuming]
    have hcounts : CountsRound t.pre.node
        (resuming ⟨l.interrupted, l.interrupted, decide (.taint ∈ t.events)⟩ c) t.events
        t.post.node := by
      rw [hnext]
      exact ⟨hround.1, hround.2, hround.3⟩
    refine ⟨⟨t.post.node.nbUninterrRounds, ?_, by simp⟩, hround.3.trans hbound, hcounting'⟩
    simpa [hgap] using hcounts.counted hcounted hbound decide_eq_true_iff

/-- In the polling build, `nb_uninterr_rounds` is the resuming counter. -/
theorem run {s₀ s : System} {tr : List NodeStep} (hrun : NodeRun (.polling useSgx2) s₀ tr s)
    (hstart : s₀.monitor = .start) (hcount : s₀.node.nbUninterrRounds = 0)
    (hbound : s₀.node.selftaintingRounds = n) (hincreases : (readings tr).IsChain (· < ·)) :
    CountsResuming n (roundLog (.polling useSgx2) tr) s ∧ ComparesLast tr s := by
  induction hrun with
  | refl =>
      exact ⟨⟨⟨0, .nil, hcount⟩, hbound, by rw [hstart]; rfl⟩, comparesLast_of_start hstart⟩
  | @snoc tr t _ hs ih =>
      rw [readings, List.filterMap_append] at hincreases
      obtain ⟨hbefore, _, hlast⟩ := List.isChain_append.mp hincreases
      obtain ⟨hlog, hcompares⟩ := ih hbefore
      refine ⟨?_, hcompares.step hs⟩
      rw [roundLog_snoc]
      by_cases hinner : ∃ amb caller stopTsc a, t.act = .monitor amb ∧
          t.pre.monitor = .polling caller stopTsc a
      · obtain ⟨amb, caller, stopTsc, a, hact, hpc⟩ := hinner
        refine hlog.step_polling hs hact hpc ?_
        refine hlast a (hcompares caller stopTsc a hpc) amb.tsc ?_
        simp [NodeStep.reading, hact, hpc, MonitorPc.readsTsc]
      · refine hlog.step_outside hs fun amb hact => ?_
        cases hpc : t.pre.monitor with
        | polling caller stopTsc a => exact absurd ⟨amb, caller, stopTsc, a, hact, hpc⟩ hinner
        | _ => rfl

end CountsResuming

-- ---------------------------------------------------------------------------
-- Both builds
-- ---------------------------------------------------------------------------

/-- For every two runs whose rounds are marked alike, the builds taint themselves in the same
    rounds, the ones on schedule, exactly when no round of the polling build that went on after
    an interruption is followed by `selftainting_rounds` rounds without one. -/
theorem selfTaint_schedule_iff {useSgx2 : Bool} {n : ℕ} {s₀ s s₀' s' : System}
    {tr tr' : List NodeStep} (hstart : s₀.monitor = .start) (hstart' : s₀'.monitor = .start)
    (hcount : s₀.node.nbUninterrRounds = 0) (hcount' : s₀'.node.nbUninterrRounds = 0)
    (hbound : s₀.node.selftaintingRounds = n) (hbound' : s₀'.node.selftaintingRounds = n)
    (hrun : NodeRun .aexNotify s₀ tr s) (hrun' : NodeRun (.polling useSgx2) s₀' tr' s')
    (hincreases : (readings tr').IsChain (· < ·))
    (hmarks : (rounds .aexNotify tr).map interrupted =
      (rounds (.polling useSgx2) tr').map interrupted) :
    ((rounds .aexNotify tr).map selfTainted = (rounds (.polling useSgx2) tr').map selfTainted ∧
        OnSchedule n (rounds .aexNotify tr) ∧ OnSchedule n (rounds (.polling useSgx2) tr')) ↔
      ¬ ResumesQuietly n (rounds (.polling useSgx2) tr') := by
  have hcounting := (CountsRestarting.run hrun hstart hcount hbound).counted
  obtain ⟨c, hpolling, _⟩ := (CountsResuming.run hrun' hstart' hcount' hbound' hincreases).1.counted
  have hon : OnSchedule n (rounds .aexNotify tr) := hcounting.onSchedule_of_restarting.1
  have hiff : OnSchedule n (rounds (.polling useSgx2) tr') ↔
      ¬ ResumesQuietly n (rounds (.polling useSgx2) tr') := hpolling.onSchedule_iff_of_resuming
  rw [← hiff]
  exact ⟨fun h => h.2.2, fun hon' => ⟨(hon.unique hon' hmarks).1, hon, hon'⟩⟩

namespace Scenario

/-- A node started with 0.1 MHz. Its rounds have 50000 ticks. -/
def slow : System :=
  .boot (ENode.construct zeroed .init 12345 (1 / 10000) (1 / 10000) 0 ⟨"127.0.0.1", 12340⟩ 3)

theorem initial_slow : slow.Initial :=
  ⟨zeroed, 12345, 1 / 10000, 1 / 10000, 0, ⟨"127.0.0.1", 12340⟩, 3, rfl⟩

/-- Steps of the monitor that read these values in turn, and the one that leaves the round. -/
def monitorRound (tscs : List ℤ) : List Action :=
  tscs.map (fun tsc => .monitor (reading tsc)) ++ [.monitor (reading 0)]

/-- An uninterrupted round of the polling build. -/
def quietPolling (i : ℕ) : List Action :=
  monitorRound ([0, 20000, 40000, 55000].map (i * 60000 + ·))

/-- The same with a gap of 35000 ticks, after which the round goes on. -/
def resumedPolling (i : ℕ) : List Action :=
  monitorRound ([0, 5000, 40000, 45000, 55000].map (i * 60000 + ·))

/-- A round of the AEX-Notify build. -/
def quietCounting (i : ℕ) : List Action :=
  monitorRound ([0, 55000, 55000].map (i * 60000 + ·))

/-- The same with an interruption. -/
def interruptedCounting (i : ℕ) : List Action :=
  .monitor (reading (i * 60000)) :: .aex (reading (i * 60000)) ::
    monitorRound ([55000, 55000].map (i * 60000 + ·))

/-- A first round, nine more that complete the calibration, and `more` rounds after it. -/
def withRounds (first : ℕ → List Action) (round : ℕ → List Action) (more : ℕ) : List Action :=
  [.monitor (reading 0), .monitor (reading 0)] ++ first 1 ++
    (List.range 9).flatMap (fun i => round (i + 2)) ++
    [.monitor (reading 0), .monitor (reading 0)] ++
    (List.range more).flatMap fun i => round (i + 11)

end Scenario

set_option maxRecDepth 10000 in
open Scenario in
/-- The theorem at ten rounds, of which the first ends with an interruption. -/
theorem selfTaint_schedule_iff_ended :
    ∃ tr tr' s s', NodeRun .aexNotify slow tr s ∧ NodeRun (.polling true) slow tr' s' ∧
      (rounds .aexNotify tr).map interrupted = true :: List.replicate 9 false ∧
      (rounds .aexNotify tr).map selfTainted = (rounds (.polling true) tr').map selfTainted ∧
        OnSchedule 100 (rounds .aexNotify tr) ∧ OnSchedule 100 (rounds (.polling true) tr') := by
  obtain ⟨tr, s, hrun, hmarks⟩ := exists_run_of_exec (System.step .aexNotify) slow
    (withRounds interruptedCounting quietCounting 0)
    (fun tr _ => (rounds .aexNotify tr).map interrupted = true :: List.replicate 9 false)
    (by decide +kernel)
  obtain ⟨tr', s', hrun', hs'⟩ := exists_run_of_exec (System.step (.polling true)) slow
    (withRounds (fun i => monitorRound ([0, 20000, 55000].map (i * 60000 + ·))) quietPolling 0)
    (fun tr _ => (readings tr).IsChain (· < ·) ∧
      (rounds (.polling true) tr).map interrupted = true :: List.replicate 9 false ∧
      ∀ r ∈ rounds (.polling true) tr, r.resumed = false) (by decide +kernel)
  obtain ⟨hincreases, hmarks', hended⟩ := hs'
  refine ⟨tr, tr', s, s', hrun, hrun', hmarks, ?_⟩
  refine (selfTaint_schedule_iff (n := 100) rfl rfl rfl rfl rfl rfl hrun hrun' hincreases
    (hmarks.trans hmarks'.symm)).mpr ?_
  rintro ⟨r, quiet, hwithin, _, hresumed, _⟩
  rw [hended r (hwithin.subset List.mem_cons_self)] at hresumed
  cases hresumed

set_option maxRecDepth 10000 in
open Scenario in
/-- The builds part after an interrupted round that goes on, and 100 rounds without interruption. -/
theorem schedules_part :
    ¬ ∀ (useSgx2 : Bool) (n : ℕ) (s₀ s s₀' s' : System) (tr tr' : List NodeStep),
        s₀.Initial → s₀'.Initial →
        s₀.node.nbUninterrRounds = 0 → s₀'.node.nbUninterrRounds = 0 →
        s₀.node.selftaintingRounds = n → s₀'.node.selftaintingRounds = n →
        NodeRun .aexNotify s₀ tr s → NodeRun (.polling useSgx2) s₀' tr' s' →
        (readings tr).IsChain (· < ·) → (readings tr').IsChain (· < ·) →
        (rounds .aexNotify tr).map interrupted = (rounds (.polling useSgx2) tr').map interrupted →
        (rounds .aexNotify tr).map selfTainted =
            (rounds (.polling useSgx2) tr').map selfTainted ∧
          OnSchedule n (rounds .aexNotify tr) ∧ OnSchedule n (rounds (.polling useSgx2) tr') := by
  intro h
  obtain ⟨tr, s, hrun, hs⟩ := exists_run_of_exec (System.step .aexNotify) slow
    (withRounds interruptedCounting quietCounting 91)
    (fun tr _ => (readings tr).IsChain (· < ·) ∧
      (rounds .aexNotify tr).map interrupted = true :: List.replicate 100 false ∧
      (rounds .aexNotify tr).map selfTainted = List.replicate 101 false)
    (by decide +kernel)
  obtain ⟨tr', s', hrun', hs'⟩ := exists_run_of_exec (System.step (.polling true)) slow
    (withRounds resumedPolling quietPolling 91)
    (fun tr _ => (readings tr).IsChain (· < ·) ∧
      (rounds (.polling true) tr).map interrupted = true :: List.replicate 100 false ∧
      (rounds (.polling true) tr).map selfTainted = List.replicate 100 false ++ [true])
    (by decide +kernel)
  obtain ⟨hincreases, hmarks, htaints⟩ := hs
  obtain ⟨hincreases', hmarks', htaints'⟩ := hs'
  obtain ⟨hsame, _⟩ := h true 100 slow s slow s' tr tr' initial_slow initial_slow rfl rfl rfl rfl
    hrun hrun' hincreases hincreases' (hmarks.trans hmarks'.symm)
  rw [htaints, htaints'] at hsame
  exact absurd hsame (by decide)

end TriHaRd
