-- SUMMARY: The clock of a node: reading, stepping and disciplining it, and the NTP state machine of select_clock.
import TriHaRd.Node.State
import Mathlib.Tactic.Positivity

/-!
# The clock

The node's time is `ts_ref` plus the TSC ticks since `tsc_ref`, divided by
`tsc_freq` (ticks for each nanosecond). A read moves both references to the
current tick.

The functions follow `ENode.cpp`. After them come the facts the rest of the
development uses instead of unfolding them: which members each one may write, and
in which direction it moves the clock.
-/

namespace TriHaRd

open Truncate

namespace ENode

-- ---------------------------------------------------------------------------
-- get_timestamp
-- ---------------------------------------------------------------------------

/-- `(long long)((double)(tsc+tsc_offset-tsc_ref)/tsc_freq)` -/
def elapsedNsec (s : ENode) : ℤ :=
  truncate ((s.tsc + s.tscOffset - s.tscRef : ℤ) / s.tscFreq)

/-- The part of `get_timestamp` after its waiting loop: the new state and the
    timestamp returned. A forced read is this part alone. -/
def readClock (s : ENode) : ENode × Timespec :=
  let timestamp := s.tsRef + s.elapsedNsec
  ({ s with tscRef := s.tsc + s.tscOffset, tsRef := timestamp }, timestamp)

/-- What an unforced read waits for to become false; `memTsc` is `tsc` at the call. -/
def unready (s : ENode) (memTsc : ℤ) : Bool :=
  !s.calibCount || s.clockState == .taInconsistent || s.tainted || memTsc == s.tsc ||
    decide (s.tsc < s.tscRef)

/-- `none` while the loop goes on. -/
def getTimestamp (force : Bool) (memTsc : ℤ) (s : ENode) : Option (ENode × Timespec) :=
  if (!force && s.unready memTsc) && !s.stop then none else some s.readClock

-- ---------------------------------------------------------------------------
-- shadow_tsc_update
-- ---------------------------------------------------------------------------

/-- `N_TSC_UPDATES` is 1, so the loop body runs once. The node taints itself when it
    runs, so the function also shows that. -/
def shadowTscUpdate (osTime : Timespec) (s : ENode) : ENode × List Event :=
  if s.attacker then
    let realDiff := s.tsc - s.tscRef
    let shadowTsc := truncate (realDiff * (s.tscFreq / s.shadowTscFreq))
    ({ s with
        tscOffset := shadowTsc - realDiff
        tsRef := osTime
        tscRef := s.tsc
        totalAexCount := s.totalAexCount + 1
        tainted := true }, [.taint])
  else (s, [])

-- ---------------------------------------------------------------------------
-- step_clock, discipline_clock, select_clock
-- ---------------------------------------------------------------------------

def stepClock (s : ENode) : ENode :=
  { s with
    tsRef := s.tsRef + s.clockOffset
    clockOffset := ⟨0, 0⟩
    lastUpdateTsc := s.tsc }

/-- `mu` of `discipline_clock`: the time since the last update. -/
def sinceUpdate (s : ENode) : Timespec :=
  (⟨0, 0⟩ : Timespec) + truncate ((s.tsc - s.lastUpdateTsc : ℤ) / s.tscFreq)

/-- What `discipline_clock` subtracts from `tsc_freq` in all: the FLL term, from the
    Allan intercept on, and the PLL term. `mu` is computed before either. -/
def freqCorrection (s : ENode) : ℚ :=
  let mu := s.sinceUpdate.toDouble
  let fll := if s.pollExponent ≥ allanIntercept then
    s.clockOffset.toDouble / (max (2 ^ s.pollExponent) mu * clockFll) else 0
  let dtemp := 4 * clockPll * 2 ^ s.pollExponent
  let etemp := min (2 ^ allanIntercept) mu
  fll + s.clockOffset.toDouble * etemp / (dtemp * dtemp)

def disciplineClock (s : ENode) : ENode :=
  let s := { s with tscFreq := s.tscFreq - s.freqCorrection }
  let s := if s.clockOffset > ⟨0, 0⟩ then s.stepClock else s
  { s with lastUpdateTsc := s.tsc }

/-- `(int)pow(2,(double)poll_exponent)` -/
def timeConstant (s : ENode) : ℤ := 2 ^ s.pollExponent

/-- `case node_state::SYNC_STATE` -/
def selectClockSync (s : ENode) : ENode :=
  let s := s.disciplineClock
  let startupCount := s.statics.startupCount - 1
  let startupCount := if s.clockOffset ≤ ⟨0, clockFloorNs⟩ then 0 else startupCount
  { s with statics.startupCount := startupCount }

/-- `case node_state::SPIK_STATE` -/
def selectClockSpik (s : ENode) : ENode :=
  let passCount := s.statics.passCount + s.timeConstant
  if s.clockOffset ≤ ⟨0, clockFloorNs⟩ then
    { s with statics.passCount := 0, nodeState := .sync }
  else if passCount ≥ stepOutThresholdS then
    { s.stepClock with statics.passCount := 0, nodeState := .sync }
  else { s with statics.passCount := passCount }

/-- The end of frequency training: `tsc_freq` is rescaled by the training duration
    over the same duration corrected by the offset. -/
def finishTraining (s : ENode) : ENode :=
  let trainStopTs := s.tsRef
  let trainDuration := (trainStopTs - s.statics.trainStartTs).toDouble
  let ratio := trainDuration / (trainDuration + s.clockOffset.toDouble)
  let s := { s with statics.trainStopTs := trainStopTs, tscFreq := s.tscFreq * ratio }
  { s.stepClock with
    calibCount := false
    statics.passCount := 0
    nodeState := .sync
    pollExponent := minPollExponent
    statics.enterFreq := true }

/-- `case node_state::FREQ_STATE` -/
def selectClockFreq (s : ENode) : ENode :=
  let s := { s with statics.passCount := s.statics.passCount + s.timeConstant }
  if s.statics.enterFreq then
    let s := s.stepClock
    { s with statics.trainStartTs := s.tsRef, statics.enterFreq := false }
  else if s.statics.passCount ≥ stepOutThresholdS then s.finishTraining
  else s

def selectClock (s : ENode) : ENode :=
  match s.nodeState with
  | .sync => s.selectClockSync
  | .spik => s.selectClockSpik
  | .freq => s.selectClockFreq

/-- Does an answer end the frequency training now? -/
def endsTraining (s : ENode) : Bool :=
  decide (s.nodeState = .freq) && !s.statics.enterFreq &&
    decide (s.statics.passCount + s.timeConstant ≥ stepOutThresholdS)

-- ---------------------------------------------------------------------------
-- What a read returns
-- ---------------------------------------------------------------------------

/-- A call that returns, forced or not, is a `readClock`. -/
theorem getTimestamp_eq_some {force : Bool} {memTsc : ℤ} {s : ENode} {r : ENode × Timespec}
    (h : s.getTimestamp force memTsc = some r) : r = s.readClock := by
  unfold getTimestamp at h
  split at h
  · cases h
  · exact (Option.some.inj h).symm

theorem ns_readClock (s : ENode) : s.readClock.2.ns = s.tsRef.ns + s.elapsedNsec :=
  Timespec.ns_addNsec s.tsRef s.elapsedNsec

theorem normal_readClock (s : ENode) : s.readClock.2.Normal :=
  Timespec.normal_addNsec s.tsRef s.elapsedNsec

@[simp] theorem readClock_tsRef (s : ENode) : s.readClock.1.tsRef = s.readClock.2 := rfl

@[simp] theorem readClock_tscRef (s : ENode) : s.readClock.1.tscRef = s.tsc + s.tscOffset := rfl

/-- A second read at the same tick returns the same timestamp and changes nothing. -/
theorem readClock_readClock (s : ENode) : s.readClock.1.readClock = s.readClock := by
  have hzero : s.readClock.1.elapsedNsec = 0 := by
    dsimp only [elapsedNsec, readClock]
    rw [sub_self, Int.cast_zero, zero_div, truncate_zero]
  have hts : s.readClock.1.readClock.2 = s.readClock.2 := by
    apply (normal_readClock _).ext (normal_readClock _)
    rw [ns_readClock, hzero, add_zero]
    rfl
  calc s.readClock.1.readClock
      = ({ s.readClock.1 with tsRef := s.readClock.1.readClock.2 }, s.readClock.1.readClock.2) := rfl
    _ = ({ s.readClock.1 with tsRef := s.readClock.2 }, s.readClock.2) := by rw [hts]
    _ = s.readClock := rfl

/-- A read on a TSC at or after the reference does not go back. -/
theorem elapsedNsec_nonneg {s : ENode} (hfreq : 0 < s.tscFreq) (h : s.tscRef ≤ s.tsc + s.tscOffset) :
    0 ≤ s.elapsedNsec := by
  refine truncate_nonneg (div_nonneg ?_ hfreq.le)
  exact_mod_cast sub_nonneg.mpr h

-- ---------------------------------------------------------------------------
-- What the clock functions write
-- ---------------------------------------------------------------------------

/-- `s` with the members that `select_clock` writes taken from `c`. -/
def setClock (s c : ENode) : ENode :=
  { s with
    nodeState := c.nodeState
    clockOffset := c.clockOffset
    pollExponent := c.pollExponent
    calibCount := c.calibCount
    tscFreq := c.tscFreq
    lastUpdateTsc := c.lastUpdateTsc
    tsRef := c.tsRef
    statics := { s.statics with
      passCount := c.statics.passCount
      startupCount := c.statics.startupCount
      trainStartTs := c.statics.trainStartTs
      trainStopTs := c.statics.trainStopTs
      enterFreq := c.statics.enterFreq } }

/-- `select_clock` writes nothing but the clock. -/
theorem selectClock_eq_setClock (s : ENode) : s.selectClock = s.setClock s.selectClock := by
  unfold selectClock
  split
  case h_1 =>
    unfold selectClockSync disciplineClock
    dsimp only
    split <;> rfl
  case h_2 =>
    unfold selectClockSpik
    dsimp only
    split
    · rfl
    · split <;> rfl
  case h_3 =>
    unfold selectClockFreq finishTraining
    dsimp only
    split
    · rfl
    · split <;> rfl

theorem selectClock_clockState (s : ENode) : s.selectClock.clockState = s.clockState := by
  rw [selectClock_eq_setClock]
  rfl

/-- `select_clock` does not lead into `FREQ_STATE`. -/
theorem selectClock_nodeState_ne_freq {s : ENode} (h : s.nodeState ≠ .freq) :
    s.selectClock.nodeState ≠ .freq := by
  unfold selectClock
  split
  case h_1 hsync =>
    unfold selectClockSync disciplineClock
    dsimp only
    split <;> exact h
  case h_2 =>
    unfold selectClockSpik
    dsimp only
    split_ifs
    · simp
    · simp
    · exact h
  case h_3 hfreq => exact absurd hfreq h

/-- Only the end of the training sets the exponent. -/
theorem selectClock_pollExponent {s : ENode} (h : s.nodeState ≠ .freq) :
    s.selectClock.pollExponent = s.pollExponent := by
  unfold selectClock
  split
  case h_1 =>
    unfold selectClockSync disciplineClock
    dsimp only
    split <;> rfl
  case h_2 =>
    unfold selectClockSpik
    dsimp only
    split_ifs <;> rfl
  case h_3 hfreq => exact absurd hfreq h

-- ---------------------------------------------------------------------------
-- The direction in which the clock moves
-- ---------------------------------------------------------------------------

theorem ns_stepClock (s : ENode) : s.stepClock.tsRef.ns = s.tsRef.ns + s.clockOffset.ns :=
  Timespec.ns_add s.tsRef s.clockOffset

theorem ns_le_disciplineClock (s : ENode) : s.tsRef.ns ≤ s.disciplineClock.tsRef.ns := by
  unfold disciplineClock
  dsimp only
  split
  case isTrue hpos =>
    have hns : (0 : ℤ) < s.clockOffset.ns := by
      simpa using (Timespec.lt_iff_ns ⟨0, 0⟩ s.clockOffset).mp hpos
    rw [ns_stepClock]
    dsimp only
    omega
  case isFalse => exact le_refl _

/-- Outside `FREQ_STATE` the clock is only stepped forward. -/
theorem ns_le_selectClock {s : ENode} (h : s.nodeState ≠ .freq) :
    s.tsRef.ns ≤ s.selectClock.tsRef.ns := by
  unfold selectClock
  split
  case h_1 => exact s.ns_le_disciplineClock
  case h_2 =>
    unfold selectClockSpik
    dsimp only
    split_ifs with hfloor
    · exact le_refl _
    · have hns : clockFloorNs < s.clockOffset.ns := by
        rw [Timespec.le_iff_ns, not_le] at hfloor
        simpa [Timespec.ns] using hfloor
      have hstep := s.ns_stepClock
      rw [clockFloorNs] at hns
      dsimp only
      omega
    · exact le_refl _
  case h_3 hfreq => exact absurd hfreq h

end ENode

end TriHaRd
