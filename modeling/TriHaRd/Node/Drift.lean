-- SUMMARY: The exchange with the Time Authority: drift requests, their polling schedule, and the handling of the answers.
import TriHaRd.Node.Peers

/-!
# Drift messages

A node asks the Time Authority for the time when it calibrates and at the polls
of `ntp`. The answer sets `clock_offset`, may send the node to `SPIK_STATE`,
decides the verdict on its own clock, and then drives `select_clock`.
-/

namespace TriHaRd

namespace ENode

def sendRecvDriftMessage (s : ENode) (sleepTimeMs sleepMs : ℤ) (amb : Ambient) :
    ENode × List Event :=
  let totalSleepTimeMs := sleepTimeMs + sleepMs
  let (s, shown) := s.shadowTscUpdate amb.osTime
  let (s, orgTs) := s.readClock
  let sendBuff := buildDrift s.calibMsgCount totalSleepTimeMs orgTs amb.dummyTs
  let s := { s with calibSent := ⟨s.calibMsgCount, s.totalAexCount, s.tsc⟩ }
  let sent := (s.sendMessage sendBuff s.timeAuthority).1
  ({ s with calibMsgCount := s.calibMsgCount + 1 }, shown ++ sent)

def ntp (s : ENode) (amb : Ambient) : ENode × List Event :=
  let s := { s with statics.pollCount := s.statics.pollCount + 1 }
  if s.statics.pollCount = s.timeConstant then
    { s with statics.pollCount := 0 }.sendRecvDriftMessage 0 s.sleepAttackMs amb
  else (s, [])

-- ---------------------------------------------------------------------------
-- Case 'D'
-- ---------------------------------------------------------------------------

/-- `clock_offset` for an answer whose reception was stamped `recvTs`. -/
def driftOffset (msg : DriftMsg) (recvTs : Timespec) : Timespec :=
  (msg.recTs - msg.orgTs + msg.xmtTs - recvTs) / (2 : ℚ)

/-- `fabs(to_double(clock_offset))<=(MAX_DRIFT_RATE*pow(2,(double)poll_exponent))` -/
def offsetIsConsistent (s : ENode) : Bool :=
  decide (|s.clockOffset.toDouble| ≤ maxDriftRate * 2 ^ s.pollExponent)

/-- A large positive offset turns `SYNC_STATE` into `SPIK_STATE`. -/
def detectSpike (s : ENode) : ENode :=
  if s.nodeState = .sync ∧ s.clockOffset ≥ ⟨0, stepThresholdNs⟩ then
    { s with nodeState := .spik }
  else s

/-- Outside `FREQ_STATE` the offset decides whether the node trusts its own clock. -/
def judgeClock (s : ENode) : ENode :=
  if s.nodeState ≠ .freq then
    if s.offsetIsConsistent then { s with clockState := .taConsistent }
    else { s with clockState := .taInconsistent }
  else s

/-- What `judgeClock` stores outside `FREQ_STATE`. -/
def verdict (s : ENode) : ClockState :=
  if s.offsetIsConsistent then .taConsistent else .taInconsistent

/-- The part of case 'D' that reads the clock and computes the offset. -/
def readOffset (s : ENode) (msg : DriftMsg) : ENode :=
  let (s, recvTs) := s.readClock
  { s with clockOffset := driftOffset msg recvTs }

/-- The part of case 'D' that acts on the offset. -/
def applyOffset (s : ENode) : ENode := s.detectSpike.judgeClock.selectClock

def applyDrift (s : ENode) (msg : DriftMsg) : ENode := (s.readOffset msg).applyOffset

/-- `calib_recvd[…] = {count, total_aex_count, tsc}` -/
def storeRecvd (s : ENode) (count : ℤ) : ENode :=
  { s with calibRecvd := ⟨count, s.totalAexCount, s.tsc⟩ }

/-- Case 'D' of `handle_message`. The count of the answer is stored, and not
    compared with anything. -/
def handleDrift (s : ENode) (buff : List UInt8) (amb : Ambient) : Outcome :=
  if buff.length ≠ dMsgExpectedLen then .quiet s
  else
    let msg := readDrift buff
    let (s, shown) := s.shadowTscUpdate amb.osTime
    ⟨(s.applyDrift msg).storeRecvd msg.count, shown, success⟩

-- ---------------------------------------------------------------------------
-- What an answer does to the states
-- ---------------------------------------------------------------------------

theorem shadowTscUpdate_nodeState (osTime : Timespec) (s : ENode) :
    (s.shadowTscUpdate osTime).1.nodeState = s.nodeState := by
  unfold shadowTscUpdate
  split <;> rfl

theorem shadowTscUpdate_clockState (osTime : Timespec) (s : ENode) :
    (s.shadowTscUpdate osTime).1.clockState = s.clockState := by
  unfold shadowTscUpdate
  split <;> rfl

theorem shadowTscUpdate_pollExponent (osTime : Timespec) (s : ENode) :
    (s.shadowTscUpdate osTime).1.pollExponent = s.pollExponent := by
  unfold shadowTscUpdate
  split <;> rfl

/-- An honest node has no shadow clock. -/
theorem shadowTscUpdate_of_honest (osTime : Timespec) {s : ENode} (h : s.attacker = false) :
    s.shadowTscUpdate osTime = (s, []) := by
  simp [shadowTscUpdate, h]

theorem detectSpike_of_freq {s : ENode} (h : s.nodeState = .freq) : s.detectSpike = s := by
  simp [detectSpike, h]

theorem judgeClock_of_freq {s : ENode} (h : s.nodeState = .freq) : s.judgeClock = s := by
  simp [judgeClock, h]

theorem judgeClock_of_ne_freq {s : ENode} (h : s.nodeState ≠ .freq) :
    s.judgeClock = { s with clockState := s.verdict } := by
  unfold judgeClock verdict
  rw [if_pos h]
  split_ifs <;> rfl

theorem detectSpike_nodeState_ne_freq {s : ENode} (h : s.nodeState ≠ .freq) :
    s.detectSpike.nodeState ≠ .freq := by
  unfold detectSpike
  split
  · simp
  · exact h

/-- What `select_clock` starts from in `SPIK_STATE`. -/
theorem judged_of_spik {s : ENode} (h : s.nodeState = .spik) :
    s.detectSpike.judgeClock = { s with clockState := s.verdict } := by
  have hdetect : s.detectSpike = s := by simp [detectSpike, h]
  rw [hdetect, judgeClock_of_ne_freq (by simp [h])]

/-- What it starts from when a spike is detected. -/
theorem judged_of_spike {s : ENode} (h : s.nodeState = .sync)
    (hspike : s.clockOffset ≥ ⟨0, stepThresholdNs⟩) :
    s.detectSpike.judgeClock = { s with nodeState := .spik, clockState := s.verdict } := by
  have hdetect : s.detectSpike = { s with nodeState := .spik } := by
    simp only [detectSpike, h, hspike, and_self, if_true]
  rw [hdetect, judgeClock_of_ne_freq (by simp)]
  rfl

theorem judged_of_sync {s : ENode} (h : s.nodeState = .sync)
    (hspike : ¬ s.clockOffset ≥ ⟨0, stepThresholdNs⟩) :
    s.detectSpike.judgeClock = { s with clockState := s.verdict } := by
  have hdetect : s.detectSpike = s := by simp only [detectSpike, hspike, and_false, if_false]
  rw [hdetect, judgeClock_of_ne_freq (by simp [h])]

theorem judgeClock_nodeState (s : ENode) : s.judgeClock.nodeState = s.nodeState := by
  unfold judgeClock
  split_ifs <;> rfl

theorem judged_nodeState_ne_freq {s : ENode} (h : s.nodeState ≠ .freq) :
    s.detectSpike.judgeClock.nodeState ≠ .freq := by
  rw [judgeClock_nodeState]
  exact detectSpike_nodeState_ne_freq h

/-- What comes before `select_clock` leaves the reading of the clock alone. -/
theorem judged_reading (s : ENode) :
    s.detectSpike.judgeClock.attacker = s.attacker ∧ s.detectSpike.judgeClock.tsc = s.tsc ∧
      s.detectSpike.judgeClock.tscOffset = s.tscOffset ∧
      s.detectSpike.judgeClock.tscRef = s.tscRef ∧ s.detectSpike.judgeClock.tsRef = s.tsRef := by
  unfold judgeClock detectSpike
  split_ifs <;> exact ⟨rfl, rfl, rfl, rfl, rfl⟩

theorem judged_pollExponent (s : ENode) :
    s.detectSpike.judgeClock.pollExponent = s.pollExponent := by
  unfold judgeClock detectSpike
  split_ifs <;> rfl

/-- In `FREQ_STATE` an offset goes to the frequency training alone. -/
theorem applyOffset_of_freq {s : ENode} (h : s.nodeState = .freq) :
    s.applyOffset = s.selectClockFreq := by
  rw [applyOffset, detectSpike_of_freq h, judgeClock_of_freq h]
  simp only [selectClock, h]

/-- In `FREQ_STATE` an answer leaves the verdict on the node's clock alone. -/
theorem applyDrift_clockState_of_freq {s : ENode} (h : s.nodeState = .freq) (msg : DriftMsg) :
    (s.applyDrift msg).clockState = s.clockState := by
  have hread : (s.readOffset msg).nodeState = .freq := h
  rw [applyDrift, applyOffset, detectSpike_of_freq hread, judgeClock_of_freq hread,
    selectClock_clockState]
  rfl

/-- An answer does not lead into `FREQ_STATE`. -/
theorem applyDrift_nodeState_ne_freq {s : ENode} (h : s.nodeState ≠ .freq) (msg : DriftMsg) :
    (s.applyDrift msg).nodeState ≠ .freq := by
  have hread : (s.readOffset msg).nodeState ≠ .freq := h
  exact selectClock_nodeState_ne_freq (judged_nodeState_ne_freq hread)

/-- An answer reads the clock, and then writes none of the members that tell the ticks. -/
theorem applyDrift_reading (s : ENode) (msg : DriftMsg) :
    (s.applyDrift msg).attacker = s.attacker ∧ (s.applyDrift msg).tsc = s.tsc ∧
      (s.applyDrift msg).tscOffset = s.tscOffset ∧
      (s.applyDrift msg).tscRef = s.tsc + s.tscOffset := by
  obtain ⟨hattacker, htsc, htscOffset, htscRef, _⟩ := (s.readOffset msg).judged_reading
  rw [applyDrift, applyOffset, selectClock_eq_setClock]
  exact ⟨hattacker, htsc, htscOffset, htscRef⟩

/-- Outside `FREQ_STATE` an answer does not set the clock back. -/
theorem ns_readClock_le_applyDrift {s : ENode} (h : s.nodeState ≠ .freq) (msg : DriftMsg) :
    s.readClock.2.ns ≤ (s.applyDrift msg).tsRef.ns := by
  have hread : (s.readOffset msg).nodeState ≠ .freq := h
  calc s.readClock.2.ns
      = (s.readOffset msg).detectSpike.judgeClock.tsRef.ns := by
        rw [(s.readOffset msg).judged_reading.2.2.2.2]
        rfl
    _ ≤ (s.applyDrift msg).tsRef.ns := ns_le_selectClock (judged_nodeState_ne_freq hread)

@[simp] theorem storeRecvd_tsc (s : ENode) (count : ℤ) : (s.storeRecvd count).tsc = s.tsc := rfl

theorem handleDrift_of_length {buff : List UInt8} (h : buff.length = dMsgExpectedLen) (s : ENode)
    (amb : Ambient) :
    s.handleDrift buff amb =
      ⟨((s.shadowTscUpdate amb.osTime).1.applyDrift (readDrift buff)).storeRecvd
        (readDrift buff).count, (s.shadowTscUpdate amb.osTime).2, success⟩ := by
  rw [handleDrift, if_neg (not_not.mpr h)]

theorem handleDrift_of_honest {buff : List UInt8} {s : ENode} (honest : s.attacker = false)
    (h : buff.length = dMsgExpectedLen) (amb : Ambient) :
    (s.handleDrift buff amb).node =
      (s.applyDrift (readDrift buff)).storeRecvd (readDrift buff).count := by
  rw [handleDrift_of_length h, shadowTscUpdate_of_honest amb.osTime honest]

end ENode

end TriHaRd
