-- SUMMARY: The long-running tasks of a node, one atomic step at a time: the monitor in both builds, the AEX handler, and refresh.
import TriHaRd.Node.HandleMessage

/-!
# Tasks

The monitor and refresh tasks are loops that other tasks interleave with. Each
is given by a program counter that carries the task's local variables, and a
function that makes its next step. A step reads the TSC at most once, so that the
readings of the TSC, interruptions and messages come in any order. What is atomic
here is taken apart in `Node.Interleaving`, access by access.
-/

namespace TriHaRd

open Truncate

-- ---------------------------------------------------------------------------
-- Taint
-- ---------------------------------------------------------------------------

/-- The custom AEX handler. It runs on the monitor's thread. -/
def ENode.aexHandler (s : ENode) (amb : Ambient) : ENode × List Event :=
  ({ s with
      tainted := true
      memAddCount := s.addCount
      totalAexCount := s.totalAexCount + 1
      tsc := amb.tsc }, [.taint])

/-- The self-tainting of both builds, taken after more than `selftainting_rounds`
    uninterrupted rounds. -/
def ENode.selfTaint (s : ENode) : ENode × List Event :=
  if s.nbUninterrRounds > s.selftaintingRounds then
    ({ s with
        nbUninterrRounds := 0
        totalAexCount := s.totalAexCount + 1
        tainted := true }, [.taint])
  else (s, [])

-- ---------------------------------------------------------------------------
-- The monitor
-- ---------------------------------------------------------------------------

/-- Where `monitor_rdtsc` returns to: the loop of `monitor`, or iteration `i` of the
    loop of `calibrate_count`. -/
inductive Caller where
  | monitor
  | calibrate (i addCountSum : ℤ)
deriving DecidableEq, Repr

inductive MonitorPc where
  /-- Before the initialisation of the clock. -/
  | start
  /-- At the head of the loop of `monitor`. -/
  | loop
  /-- At the head of the loop of `calibrate_count`. -/
  | calibrateCount (i addCountSum : ℤ)
  | calibrateDrift
  /-- In the assembly loop of the AEX-Notify build, `count` iterations done. -/
  | counting (caller : Caller) (stopTsc memTotalAexCount count : ℤ)
  /-- After that loop. -/
  | counted (caller : Caller) (memTotalAexCount : ℤ)
  /-- Before the reading of `a` in the outer loop of the polling build. -/
  | sampling (caller : Caller) (stopTsc : ℤ)
  /-- In the inner loop of the polling build. -/
  | polling (caller : Caller) (stopTsc a : ℤ)
  | returned (caller : Caller)
  | done
deriving DecidableEq, Repr

namespace ENode

/-- `stop_tsc` of a round that starts at `startTsc`. -/
def stopTsc (s : ENode) (startTsc : ℤ) : ℤ :=
  truncate (s.tscFreq * 1000000) * s.monitorTime + startTsc

/-- Is the loop count of an uninterrupted round off the reference by more than `ACCURACY`? -/
def discalibrated (s : ENode) (memTotalAexCount : ℤ) : Bool :=
  let accuracy : ℚ := 5 / 100
  decide (s.totalAexCount = memTotalAexCount) &&
    (decide ((s.addCount : ℚ) > s.addCountRef * (1 + accuracy)) ||
      decide ((s.addCount : ℚ) < s.addCountRef * (1 - accuracy)))

/-- The end of a round in the AEX-Notify build. -/
def endCounting (s : ENode) (memTotalAexCount : ℤ) : ENode × List Event :=
  let s :=
    if s.totalAexCount = memTotalAexCount then
      { s with nbUninterrRounds := s.nbUninterrRounds + 1 }
    else { s with nbUninterrRounds := 0 }
  let (s, shown) := s.selfTaint
  let s := if s.discalibrated memTotalAexCount then { s with calibCount := false, nodeState := .freq }
    else s
  (s, shown)

/-- What follows the inner loop of the polling build when it ends with the gap
    `delta`. `delta = 0` counts as an uninterrupted round. -/
def endPolling (b : Build) (s : ENode) (delta : ℤ) : ENode × List Event :=
  if delta ≥ b.threshold then
    ({ s with
        totalAexCount := s.totalAexCount + 1
        nbUninterrRounds := 0
        tainted := true }, [.taint])
  else if delta < 0 then ({ s with nbUninterrRounds := 0, calibCount := false }, [])
  else { s with nbUninterrRounds := s.nbUninterrRounds + 1 }.selfTaint

/-- The end of an iteration of the loop of `monitor`. -/
def monitorNtp (s : ENode) (amb : Ambient) : ENode × List Event :=
  let (s, shown) :=
    if s.statics.ntpStep.tmod (Int.tdiv 1000 s.monitorTime) = 0 then
      let (s, shown) := s.ntp amb
      ({ s with statics.ntpStep := 0 }, shown)
    else (s, [])
  ({ s with statics.ntpStep := s.statics.ntpStep + 1 }, shown)

end ENode

/-- The entry of `monitor_rdtsc`, up to its first loop. -/
def MonitorPc.enter (b : Build) (s : ENode) (caller : Caller) (startTsc : ℤ) : MonitorPc :=
  match b with
  | .aexNotify => .counting caller (s.stopTsc startTsc) s.totalAexCount 0
  | .polling _ => .sampling caller (s.stopTsc startTsc)

/-- The next step of the monitor task. -/
def monitorStep (b : Build) (s : ENode) (amb : Ambient) :
    MonitorPc → MonitorPc × ENode × List Event
  | .start =>
    (.loop, { s with
      tsRef := amb.osTime
      tscRef := amb.tsc
      tsc := amb.tsc
      lastUpdateTsc := amb.tsc }, [])
  | .loop =>
    if s.stop then (.done, { s with monitorStopped := true }, [])
    else if !s.calibCount then (.calibrateCount 1 0, s, [])
    else (.enter b s .monitor amb.tsc, s, [])
  | .calibrateCount i addCountSum =>
    if i ≤ 10 ∧ !s.stop then (.enter b s (.calibrate i addCountSum) amb.tsc, s, [])
    else (.calibrateDrift, { s with calibCount := true }, [])
  | .calibrateDrift =>
    let (s, shown) := s.sendRecvDriftMessage 0 0 amb
    (.loop, s, shown)
  | .counting caller stopTsc memTotalAexCount count =>
    let s := { s with tsc := amb.tsc, addCount := count + 1 }
    if amb.tsc < stopTsc then (.counting caller stopTsc memTotalAexCount (count + 1), s, [])
    else (.counted caller memTotalAexCount, s, [])
  | .counted caller memTotalAexCount =>
    let (s, shown) := s.endCounting memTotalAexCount
    (.returned caller, s, shown)
  | .sampling caller stopTsc => (.polling caller stopTsc amb.tsc, s, [])
  | .polling caller stopTsc a =>
    let s := { s with tsc := amb.tsc }
    let delta := amb.tsc - a
    if amb.tsc < stopTsc ∧ delta < b.threshold ∧ delta > 0 then
      (.polling caller stopTsc amb.tsc, s, [])
    else
      let (s, shown) := s.endPolling b delta
      -- a negative gap leaves the outer loop by `break`
      if amb.tsc < stopTsc ∧ ¬ delta < 0 then (.sampling caller stopTsc, s, shown)
      else (.returned caller, s, shown)
  | .returned .monitor =>
    let (s, shown) := s.monitorNtp amb
    (.loop, s, shown)
  | .returned (.calibrate i addCountSum) =>
    let addCountMem := addCountSum
    let addCountSum := addCountSum + s.addCount
    if addCountSum < addCountMem then (.calibrateDrift, { s with calibCount := false }, [])
    else (.calibrateCount (i + 1) addCountSum,
      { s with addCountRef := addCountSum.tdiv i }, [])
  | .done => (.done, s, [])

-- ---------------------------------------------------------------------------
-- Refresh
-- ---------------------------------------------------------------------------

inductive RefreshPc where
  /-- At the head of the outer loop. -/
  | head
  /-- In `sgx_thread_cond_wait`. -/
  | waiting
  /-- At the head of the `do` loop. -/
  | roundStart
  /-- Before `sendTaintedMessages`. -/
  | send (memTotalAexCount : ℤ)
  /-- In the 10 ms loop after a round. -/
  | spin (memTotalAexCount referenceTsc : ℤ)
  | done
deriving DecidableEq, Repr

/-- The next step of the refresh task. A wait may end at any time: every wake-up that
    a signal can cause is among these steps. -/
def refreshStep (s : ENode) (amb : Ambient) : RefreshPc → RefreshPc × ENode × List Event
  | .head => if s.stop then (.done, { s with refreshStopped := true }, []) else (.waiting, s, [])
  | .waiting =>
    if s.stop then (.done, { s with refreshStopped := true }, [])
    else if s.tainted && s.calibCount then (.roundStart, s, [])
    else (.head, s, [])
  | .roundStart =>
    let (s, shown) := s.shadowTscUpdate amb.osTime
    (.send s.totalAexCount, s, shown)
  | .send memTotalAexCount =>
    let (s, shown) := s.sendTaintedMessages amb
    (.spin memTotalAexCount s.tsc, s, shown)
  | .spin memTotalAexCount referenceTsc =>
    if s.tainted ∧ s.tsc - referenceTsc < truncate (s.tscFreq * 1000000) * 10 ∧ !s.stop then
      (.spin memTotalAexCount referenceTsc, s, [])
    else if memTotalAexCount ≠ s.totalAexCount ∧ !s.stop then (.roundStart, s, [])
    else (.head, s, [])
  | .done => (.done, s, [])

-- ---------------------------------------------------------------------------
-- What the monitor writes
-- ---------------------------------------------------------------------------

namespace ENode

/-- `s` with the members that the end of a round writes taken from `m`. -/
def setRound (s m : ENode) : ENode :=
  { s with
    nbUninterrRounds := m.nbUninterrRounds
    totalAexCount := m.totalAexCount
    tainted := m.tainted
    calibCount := m.calibCount
    nodeState := m.nodeState }

theorem endCounting_eq_setRound (s : ENode) (memTotalAexCount : ℤ) :
    (s.endCounting memTotalAexCount).1 = s.setRound (s.endCounting memTotalAexCount).1 := by
  unfold endCounting selfTaint
  dsimp only
  split_ifs <;> rfl

theorem endPolling_eq_setRound (b : Build) (s : ENode) (delta : ℤ) :
    (s.endPolling b delta).1 = s.setRound (s.endPolling b delta).1 := by
  unfold endPolling selfTaint
  split_ifs <;> rfl

/-- `s` with the members that a drift request writes taken from `m`. An attacker's node shadows
    its TSC first. -/
def setRequest (s m : ENode) : ENode :=
  { s with
    totalAexCount := m.totalAexCount
    tainted := m.tainted
    tscOffset := m.tscOffset
    tscRef := m.tscRef
    tsRef := m.tsRef
    calibSent := m.calibSent
    calibMsgCount := m.calibMsgCount
    statics := { s.statics with pollCount := m.statics.pollCount, ntpStep := m.statics.ntpStep } }

theorem sendRecvDriftMessage_eq_setRequest (s : ENode) (sleepTimeMs sleepMs : ℤ) (amb : Ambient) :
    (s.sendRecvDriftMessage sleepTimeMs sleepMs amb).1 =
      s.setRequest (s.sendRecvDriftMessage sleepTimeMs sleepMs amb).1 := by
  unfold sendRecvDriftMessage shadowTscUpdate
  dsimp only
  split <;> rfl

theorem monitorNtp_eq_setRequest (s : ENode) (amb : Ambient) :
    (s.monitorNtp amb).1 = s.setRequest (s.monitorNtp amb).1 := by
  unfold monitorNtp ntp
  dsimp only
  split_ifs
  · rw [sendRecvDriftMessage_eq_setRequest]
    rfl
  · rfl
  · rfl

end ENode

end TriHaRd
