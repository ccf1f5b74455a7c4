-- SUMMARY: A step of System is the turn of a thread that nobody interrupts, so its runs are among the interleavings.
import TriHaRd.Node.Interleaving
import TriHaRd.Node.Shutdown
import Mathlib.Data.Fintype.EquivFin

/-!
# Without interruption

A function whose accesses follow each other with nothing in between does what the
function of the same name does to an `ENode` in one step. A step of `System` is
therefore a turn of a thread, or of a client that calls or returns, and each of its
runs is an interleaving that shows the same and leads to the same node.

The receive loop of the source tests `stop` before each message. `System` lets it
handle messages after the request as well, and those are left out here.
-/

namespace TriHaRd

open Truncate SharedMemory

namespace Code

variable {w : Outside} {n : ENode} {started : Bool}

-- ---------------------------------------------------------------------------
-- Accesses
-- ---------------------------------------------------------------------------

@[simp] theorem runAlone_get {α : Type} (f : Memory → α) (s : Memory) :
    (get f).runAlone Store.exec w s = (s, [], f s) := rfl

@[simp] theorem runAlone_get_bind {α β : Type} (f : Memory → α) (k : α → Code β) (s : Memory) :
    (get f >>= k).runAlone Store.exec w s = (k (f s)).runAlone Store.exec w s := rfl

@[simp] theorem runAlone_put (op : Store) (s : Memory) :
    (put op).runAlone Store.exec w s = ((op.exec s).1, (op.exec s).2, ()) := by
  rw [put, Prog.runAlone_store]

-- ---------------------------------------------------------------------------
-- The clock
-- ---------------------------------------------------------------------------

@[simp] theorem runAlone_readClock (r : Reader) :
    (readClock r).runAlone Store.exec w ⟨n, started⟩ =
      (⟨n.readClock.1, started⟩, [], n.readClock.2) := rfl

@[simp] theorem runAlone_stepClock :
    stepClock.runAlone Store.exec w ⟨n, started⟩ = (⟨n.stepClock, started⟩, [], ()) := rfl

@[simp] theorem runAlone_shadowTscUpdate :
    shadowTscUpdate.runAlone Store.exec w ⟨n, started⟩ =
      (⟨(n.shadowTscUpdate w.osTime).1, started⟩, (n.shadowTscUpdate w.osTime).2, ()) := by
  unfold ENode.shadowTscUpdate shadowTscUpdate
  cases h : n.attacker <;> simp [Store.exec, h]

@[simp] theorem runAlone_disciplineClock :
    disciplineClock.runAlone Store.exec w ⟨n, started⟩ =
      (⟨n.disciplineClock, started⟩, [], ()) := by
  unfold disciplineClock ENode.disciplineClock ENode.freqCorrection ENode.sinceUpdate
  by_cases hexp : n.pollExponent ≥ allanIntercept <;> by_cases hoff : n.clockOffset > ⟨0, 0⟩ <;>
    simp [Store.exec, hexp, hoff, ENode.stepClock, sub_sub]

@[simp] theorem runAlone_selectClockSync :
    selectClockSync.runAlone Store.exec w ⟨n, started⟩ =
      (⟨n.selectClockSync, started⟩, [], ()) := by
  unfold selectClockSync ENode.selectClockSync
  by_cases hoff : n.disciplineClock.clockOffset ≤ ⟨0, clockFloorNs⟩ <;> simp [Store.exec, hoff]

@[simp] theorem runAlone_selectClockSpik :
    (selectClockSpik n.timeConstant).runAlone Store.exec w ⟨n, started⟩ =
      (⟨n.selectClockSpik, started⟩, [], ()) := by
  unfold selectClockSpik ENode.selectClockSpik
  by_cases hoff : n.clockOffset ≤ ⟨0, clockFloorNs⟩ <;>
    by_cases hpass : n.statics.passCount + n.timeConstant ≥ stepOutThresholdS <;>
    simp [Store.exec, hoff, hpass, ENode.stepClock]

@[simp] theorem runAlone_finishTraining :
    finishTraining.runAlone Store.exec w ⟨n, started⟩ = (⟨n.finishTraining, started⟩, [], ()) := by
  simp [finishTraining, ENode.finishTraining, Store.exec]

@[simp] theorem runAlone_selectClockFreq :
    (selectClockFreq n.timeConstant).runAlone Store.exec w ⟨n, started⟩ =
      (⟨n.selectClockFreq, started⟩, [], ()) := by
  unfold selectClockFreq ENode.selectClockFreq
  by_cases henter : n.statics.enterFreq <;>
    by_cases hpass : n.statics.passCount + n.timeConstant ≥ stepOutThresholdS <;>
    simp [Store.exec, henter, hpass, ENode.stepClock, ENode.finishTraining]

@[simp] theorem runAlone_selectClock :
    selectClock.runAlone Store.exec w ⟨n, started⟩ = (⟨n.selectClock, started⟩, [], ()) := by
  have htime : (2 : ℤ) ^ n.pollExponent = n.timeConstant := rfl
  unfold selectClock ENode.selectClock
  cases h : n.nodeState <;> simp [h, htime]

-- ---------------------------------------------------------------------------
-- Messages
-- ---------------------------------------------------------------------------

@[simp] theorem runAlone_sendMessage (buff : List UInt8) (dst : Addr) :
    (sendMessage buff dst).runAlone Store.exec w ⟨n, started⟩ =
      (⟨n, started⟩, (n.sendMessage buff dst).1, (n.sendMessage buff dst).2) := by
  unfold sendMessage ENode.sendMessage
  by_cases hsock : n.sock < 0 <;> simp [Store.exec, hsock]

@[simp] theorem runAlone_sendRecvDriftMessage (sleepTimeMs sleepMs : ℤ) :
    (sendRecvDriftMessage sleepTimeMs sleepMs).runAlone Store.exec w ⟨n, started⟩ =
      (⟨(n.sendRecvDriftMessage sleepTimeMs sleepMs w.toAmbient).1, started⟩,
        (n.sendRecvDriftMessage sleepTimeMs sleepMs w.toAmbient).2, ()) := by
  have hcount : (n.shadowTscUpdate w.osTime).1.readClock.1.calibMsgCount = n.calibMsgCount := by
    unfold ENode.shadowTscUpdate
    split <;> rfl
  unfold sendRecvDriftMessage ENode.sendRecvDriftMessage
  simp [Store.exec, hcount]

@[simp] theorem runAlone_ntp :
    ntp.runAlone Store.exec w ⟨n, started⟩ =
      (⟨(n.ntp w.toAmbient).1, started⟩, (n.ntp w.toAmbient).2, ()) := by
  unfold ntp ENode.ntp ENode.timeConstant
  by_cases hpoll : n.statics.pollCount + 1 = 2 ^ n.pollExponent <;> simp [Store.exec, hpoll]

@[simp] theorem runAlone_sendEach (buff : List UInt8) (siblings : List Peer) :
    (sendEach buff siblings).runAlone Store.exec w ⟨n, started⟩ =
      (⟨n, started⟩, siblings.flatMap fun peer => (n.sendMessage buff peer.toAddr).1, ()) := by
  induction siblings with
  | nil => rfl
  | cons peer siblings ih => simp [sendEach, ih]

@[simp] theorem runAlone_sendTaintedMessages :
    sendTaintedMessages.runAlone Store.exec w ⟨n, started⟩ =
      (⟨(n.sendTaintedMessages w.toAmbient).1, started⟩,
        (n.sendTaintedMessages w.toAmbient).2, ()) := by
  simp [sendTaintedMessages, ENode.sendTaintedMessages, Store.exec, ENode.readClock]

@[simp] theorem runAlone_addSibling (addr : Addr) (sendOk : Bool) :
    (addSibling addr sendOk).runAlone Store.exec w ⟨n, started⟩ =
      (⟨(n.addSibling addr sendOk).1, started⟩, (n.addSibling addr sendOk).2, ()) := by
  unfold addSibling ENode.addSibling ENode.findSibling
  by_cases hhost : addr.hostname = "127.0.0.1" <;> by_cases hport : addr.port = n.port <;>
    cases hfound : Table.lookup Peer.toAddr addr n.siblings <;> cases sendOk <;>
    simp [Store.exec, hhost, hport, hfound]

@[simp] theorem runAlone_handleSibling (src : Addr) :
    (handleSibling src).runAlone Store.exec w ⟨n, started⟩ =
      (⟨n.handleSibling src, started⟩, [], ()) := by
  unfold handleSibling ENode.handleSibling ENode.findSibling
  cases hfound : Table.lookup Peer.toAddr src n.siblings <;> simp [Store.exec, hfound]

@[simp] theorem runAlone_handleTainted (buff : List UInt8) (src : Addr) :
    (handleTainted buff src).runAlone Store.exec w ⟨n, started⟩ =
      (⟨(n.handleTainted buff src w.toAmbient).node, started⟩,
        (n.handleTainted buff src w.toAmbient).events,
        (n.handleTainted buff src w.toAmbient).retval) := by
  have hread : n.readClock.1.siblings = n.siblings := rfl
  have hshadow : (n.shadowTscUpdate w.osTime).1.readClock.1.siblings = n.siblings := by
    unfold ENode.shadowTscUpdate
    split <;> rfl
  unfold handleTainted ENode.handleTainted ENode.findSibling
  cases hfound : Table.lookup Peer.toAddr src n.siblings with
  | none => simp [hfound, Outcome.quiet]
  | some sibling =>
      by_cases hlen : buff.length = tMsgExpectedLen <;>
        by_cases hclock : n.clockState = .taConsistent <;>
        by_cases hport : sibling.port = 12346 <;>
        simp [hfound, hlen, hclock, hport, hread, hshadow, Outcome.quiet]

@[simp] theorem runAlone_recordUntaint (src : Addr) (msg : UntaintMsg) :
    (recordUntaint src msg (n.peerIsConsistent msg)).runAlone Store.exec w ⟨n, started⟩ =
      (⟨{ n with siblings := n.recordUntaint src msg }, started⟩, [], ()) := by
  unfold recordUntaint ENode.recordUntaint
  cases hfound : Table.lookup Peer.toAddr src n.siblings with
  | none =>
      have hself : Table.update Peer.toAddr src (n.recordReply msg) n.siblings = n.siblings :=
        Table.update_eq_self (by simp [hfound])
      simp [hfound, hself]
  | some sibling =>
      by_cases hnew : msg.count > sibling.lastTsIsConsistent.1
      · -- the two stores overwrite the one entry that `recordReply` overwrites at once
        have hone {f : Peer → Peer} (hf : f sibling = n.recordReply msg sibling) :
            Table.update Peer.toAddr src f n.siblings =
              Table.update Peer.toAddr src (n.recordReply msg) n.siblings := by
          refine Table.update_congr fun peer hpeer => ?_
          obtain rfl := Option.some.inj (hfound.symm.trans hpeer)
          exact hf
        simp [Store.exec, hfound, hnew, Table.update_update, hone, ENode.recordReply]
      · have hself : Table.update Peer.toAddr src (n.recordReply msg) n.siblings = n.siblings :=
          Table.update_eq_self (by simp [hfound, ENode.recordReply, hnew])
        simp [hfound, hnew, hself]

@[simp] theorem runAlone_countQuorum (count : ℤ) :
    (countQuorum count).runAlone Store.exec w ⟨n, started⟩ =
      (⟨if Peer.quorum count n.siblings then { n with tainted := false } else n, started⟩,
        [], ()) := by
  unfold countQuorum Peer.quorum
  by_cases hown : (n.siblings.length : ℤ) ≤
      Peer.consistentCount (Peer.maxTaintedMsgCount count n.siblings) n.siblings + 1 <;>
    by_cases hpeers : (n.siblings.length : ℤ) ≤ Peer.peerConsistentCount n.siblings + 1 <;>
    simp [Store.exec, hown, hpeers]

@[simp] theorem runAlone_handleUntaint (buff : List UInt8) (src : Addr) :
    (handleUntaint buff src).runAlone Store.exec w ⟨n, started⟩ =
      (⟨n.handleUntaint buff src, started⟩, [], ()) := by
  have hverdict (msg : UntaintMsg) : decide ((msg.recTs - msg.orgTs + msg.xmtTs -
      (n.tsRef + truncate (((n.tsc : ℚ) - n.tscRef) / n.tscFreq))) / (2 : ℚ) <
        peerConsistencyDriftThreshold) = n.peerIsConsistent msg := by
    simp [ENode.peerIsConsistent, ENode.peerClockOffset, ENode.untaintRecvTs]
  unfold handleUntaint ENode.handleUntaint ENode.findSibling
  by_cases hlen : buff.length = uMsgExpectedLen
  · cases hfound : Table.lookup Peer.toAddr src n.siblings with
    | none => simp [hlen, hfound]
    | some sibling => simp [hlen, hfound, hverdict]
  · simp [hlen]

@[simp] theorem runAlone_detectSpike :
    detectSpike.runAlone Store.exec w ⟨n, started⟩ = (⟨n.detectSpike, started⟩, [], ()) := by
  unfold detectSpike ENode.detectSpike
  by_cases hsync : n.nodeState = .sync <;>
    by_cases hspike : n.clockOffset ≥ ⟨0, stepThresholdNs⟩ <;>
    simp [Store.exec, hsync, hspike]

@[simp] theorem runAlone_judgeClock :
    judgeClock.runAlone Store.exec w ⟨n, started⟩ = (⟨n.judgeClock, started⟩, [], ()) := by
  unfold judgeClock ENode.judgeClock ENode.offsetIsConsistent
  by_cases hfreq : n.nodeState = .freq <;>
    by_cases hoffset : |n.clockOffset.toDouble| ≤ maxDriftRate * 2 ^ n.pollExponent <;>
    simp [Store.exec, hfreq, hoffset]

@[simp] theorem runAlone_handleDrift (buff : List UInt8) :
    (handleDrift buff).runAlone Store.exec w ⟨n, started⟩ =
      (⟨(n.handleDrift buff w.toAmbient).node, started⟩,
        (n.handleDrift buff w.toAmbient).events, ()) := by
  unfold handleDrift ENode.handleDrift ENode.applyDrift ENode.applyOffset ENode.readOffset
  by_cases hlen : buff.length = dMsgExpectedLen <;>
    simp [Store.exec, hlen, Outcome.quiet, ENode.storeRecvd]

@[simp] theorem runAlone_handleMessage (buff : List UInt8) (src : Addr) :
    (handleMessage buff src).runAlone Store.exec w ⟨n, started⟩ =
      (⟨(n.handleMessage buff src w.toAmbient).node, started⟩,
        (n.handleMessage buff src w.toAmbient).events,
        (n.handleMessage buff src w.toAmbient).retval) := by
  cases buff with
  | nil => rfl
  | cons tag buff =>
      have hdrift : (n.handleDrift (tag :: buff) w.toAmbient).retval = success := by
        unfold ENode.handleDrift
        split <;> rfl
      unfold handleMessage ENode.handleMessage
      dsimp only
      split_ifs <;> simp [Outcome.quiet, hdrift]

-- ---------------------------------------------------------------------------
-- The tasks
-- ---------------------------------------------------------------------------

@[simp] theorem runAlone_rdtscp (s : Memory) :
    rdtscp.runAlone Store.exec w s = (s, [], w.tsc) := rfl

@[simp] theorem runAlone_shouldStop (s : Memory) :
    shouldStop.runAlone Store.exec w s = (s, [], s.stop) := rfl

@[simp] theorem runAlone_aexHandler :
    aexHandler.runAlone Store.exec w ⟨n, started⟩ =
      (⟨(n.aexHandler w.toAmbient).1, started⟩, (n.aexHandler w.toAmbient).2, ()) := by
  simp [aexHandler, ENode.aexHandler, Store.exec]

@[simp] theorem runAlone_selfTaint :
    selfTaint.runAlone Store.exec w ⟨n, started⟩ =
      (⟨n.selfTaint.1, started⟩, n.selfTaint.2, ()) := by
  unfold selfTaint ENode.selfTaint countAex
  by_cases hrounds : n.nbUninterrRounds > n.selftaintingRounds <;> simp [Store.exec, hrounds]

@[simp] theorem runAlone_discalibrated (memTotalAexCount : ℤ) :
    (discalibrated memTotalAexCount).runAlone Store.exec w ⟨n, started⟩ =
      (⟨n, started⟩, [], n.discalibrated memTotalAexCount) := by
  unfold discalibrated ENode.discalibrated
  by_cases haex : n.totalAexCount = memTotalAexCount <;>
    by_cases habove : (n.addCount : ℚ) > n.addCountRef * (1 + 5 / 100) <;>
    simp [haex, habove]

@[simp] theorem runAlone_endCounting (memTotalAexCount : ℤ) :
    (endCounting memTotalAexCount).runAlone Store.exec w ⟨n, started⟩ =
      (⟨(n.endCounting memTotalAexCount).1, started⟩, (n.endCounting memTotalAexCount).2, ()) := by
  unfold endCounting ENode.endCounting
  by_cases haex : n.totalAexCount = memTotalAexCount <;> simp [Store.exec, haex] <;>
    split_ifs <;> simp

@[simp] theorem runAlone_endPolling (b : Build) (delta : ℤ) :
    (endPolling b delta).runAlone Store.exec w ⟨n, started⟩ =
      (⟨(n.endPolling b delta).1, started⟩, (n.endPolling b delta).2, ()) := by
  unfold endPolling ENode.endPolling countAex
  by_cases hgap : delta ≥ b.threshold <;> by_cases hneg : delta < 0 <;>
    simp [Store.exec, hgap, hneg]

@[simp] theorem runAlone_monitorNtp :
    monitorNtp.runAlone Store.exec w ⟨n, started⟩ =
      (⟨(n.monitorNtp w.toAmbient).1, started⟩, (n.monitorNtp w.toAmbient).2, ()) := by
  unfold monitorNtp ENode.monitorNtp
  by_cases hpoll : n.statics.ntpStep.tmod (Int.tdiv 1000 n.monitorTime) = 0 <;>
    simp [Store.exec, hpoll]

@[simp] theorem runAlone_enterRound (b : Build) (caller : Caller) :
    (enterRound b caller).runAlone Store.exec w ⟨n, started⟩ =
      (⟨n, started⟩, [], .enter b n caller w.tsc) := by
  cases b <;> simp [enterRound, MonitorPc.enter]

/-- The monitor's next step. -/
theorem runAlone_monitor (b : Build) (pc : MonitorPc) (started : Bool) :
    ∃ started', (monitor b pc).runAlone Store.exec w ⟨n, started⟩ =
      (⟨(monitorStep b n w.toAmbient pc).2.1, started'⟩, (monitorStep b n w.toAmbient pc).2.2,
        (monitorStep b n w.toAmbient pc).1) := by
  cases pc with
  | start => exact ⟨true, by simp [monitor, initClock, monitorStep, Store.exec]⟩
  | loop =>
      refine ⟨started, ?_⟩
      cases hstop : n.stop <;> cases hcalib : n.calibCount <;>
        simp [monitor, monitorStep, Store.exec, hstop, hcalib]
  | calibrateCount i addCountSum =>
      refine ⟨started, ?_⟩
      by_cases hi : i ≤ 10 <;> cases hstop : n.stop <;>
        simp [monitor, monitorStep, calibrated, Store.exec, hi, hstop]
  | calibrateDrift => exact ⟨started, by simp [monitor, monitorStep]⟩
  | counting caller stopTsc memTotalAexCount count =>
      refine ⟨started, ?_⟩
      by_cases htsc : w.tsc < stopTsc <;> simp [monitor, monitorStep, Store.exec, htsc]
  | counted caller memTotalAexCount => exact ⟨started, by simp [monitor, monitorStep]⟩
  | sampling caller stopTsc => exact ⟨started, by simp [monitor, monitorStep]⟩
  | polling caller stopTsc a =>
      refine ⟨started, ?_⟩
      have hkept : (ENode.endPolling b { n with tsc := w.tsc } (w.tsc - a)).1.tsc = w.tsc := by
        rw [ENode.endPolling_eq_setRound]
        rfl
      -- the two conditions of the loops, with what is left of them when the gap is negative
      by_cases htsc : w.tsc < stopTsc <;> by_cases hgap : w.tsc - a < b.threshold <;>
        by_cases hpos : a < w.tsc <;> by_cases hneg : a ≤ w.tsc <;>
        simp [monitor, monitorStep, Store.exec, hkept, htsc, hgap, hpos, hneg]
  | returned caller =>
      refine ⟨started, ?_⟩
      cases caller with
      | monitor => simp [monitor, monitorStep]
      | calibrate i addCountSum =>
          by_cases hsum : n.addCount < 0 <;>
            simp [monitor, monitorStep, Store.exec, hsum]
  | done => exact ⟨started, rfl⟩

/-- The next step of refresh. -/
theorem runAlone_refresh (pc : RefreshPc) :
    (refresh pc).runAlone Store.exec w ⟨n, started⟩ =
      (⟨(refreshStep n w.toAmbient pc).2.1, started⟩, (refreshStep n w.toAmbient pc).2.2,
        (refreshStep n w.toAmbient pc).1) := by
  cases pc with
  | head => cases hstop : n.stop <;> simp [refresh, refreshStep, Store.exec, hstop]
  | waiting =>
      cases hstop : n.stop <;> cases htainted : n.tainted <;> cases hcalib : n.calibCount <;>
        simp [refresh, refreshStep, Store.exec, hstop, htainted, hcalib]
  | roundStart => simp [refresh, refreshStep]
  | send memTotalAexCount => simp [refresh, refreshStep]
  | spin memTotalAexCount referenceTsc =>
      by_cases htsc : n.tsc - referenceTsc < truncate (n.tscFreq * 1000000) * 10 <;>
        by_cases haex : memTotalAexCount = n.totalAexCount <;>
        cases htainted : n.tainted <;> cases hstop : n.stop <;>
        simp [refresh, refreshStep, roundEnd, htsc, haex, htainted, hstop]
  | done => rfl

/-- A pass through the wait loop that ends it. After the request to stop each test that holds the
    client back lets it out, and else all of them have to be good. -/
theorem runAlone_awaitClock {memTsc : ℤ} {r : ENode × Timespec}
    (hread : n.getTimestamp false memTsc = some r) :
    (awaitClock memTsc).runAlone Store.exec w ⟨n, started⟩ =
      (⟨r.1, started⟩, [.served r.2], some r.2) := by
  obtain rfl := ENode.getTimestamp_eq_some hread
  unfold awaitClock awaitClock.orStop awaitClock.serve
  cases hstop : n.stop with
  | true => simp [Store.exec, hstop]
  | false =>
      have hready : n.unready memTsc = false := by
        by_contra h
        simp [ENode.getTimestamp, hstop, h] at hread
      simp only [ENode.unready, Bool.or_eq_false_iff, Bool.not_eq_false', beq_eq_false_iff_ne,
        decide_eq_false_iff_not] at hready
      simp [Store.exec, hready]

-- ---------------------------------------------------------------------------
-- Passes
-- ---------------------------------------------------------------------------

/-- A thread that rests at `rest` can make a pass alone, which takes the node from `n` to `n'`,
    shows `es`, and lets the thread rest at `rest'`. -/
structure Pass (b : Build) (rest : Rest) (w : Outside) (n n' : ENode) (es : List Event)
    (rest' : Rest) : Prop where
  acts : (body b rest w).place? ≠ none
  alone : ∀ started, ∃ started',
    (body b rest w).runAlone Store.exec w ⟨n, started⟩ = (⟨n', started'⟩, es, rest')

theorem pass_monitor {b : Build} {pc : MonitorPc} (hpc : pc ≠ .done) :
    Pass b (.monitor pc) w n (monitorStep b n w.toAmbient pc).2.1
      (monitorStep b n w.toAmbient pc).2.2
      (.monitor (monitorStep b n w.toAmbient pc).1) where
  acts := by
    cases pc with
    | done => exact absurd rfl hpc
    | calibrateCount i addCountSum =>
        by_cases hi : i ≤ 10 <;>
          simp [body, monitor, calibrated, shouldStop, get, put, Prog.place?, hi]
    | returned caller => cases caller <;> simp [body, monitor, monitorNtp, get, Prog.place?]
    | _ =>
        simp [body, monitor, initClock, shouldStop, get, rdtscp, endCounting,
          sendRecvDriftMessage, Prog.place?]
  alone started := by
    obtain ⟨started', halone⟩ := runAlone_monitor (w := w) (n := n) b pc started
    exact ⟨started', by simp [body, halone]⟩

theorem pass_handler {b : Build} :
    Pass b .handler w n (n.aexHandler w.toAmbient).1 (n.aexHandler w.toAmbient).2 .handler where
  acts := by simp [body, aexHandler, put, Prog.place?]
  alone started := ⟨started, by simp [body]⟩

theorem pass_refresh {b : Build} {pc : RefreshPc} (hpc : pc ≠ .done) :
    Pass b (.refresh pc) w n (refreshStep n w.toAmbient pc).2.1
      (refreshStep n w.toAmbient pc).2.2 (.refresh (refreshStep n w.toAmbient pc).1) where
  acts := by
    cases pc with
    | done => exact absurd rfl hpc
    | _ =>
        simp [body, refresh, shadowTscUpdate, sendTaintedMessages, shouldStop, get, Prog.place?]
  alone started := ⟨started, by simp [body, runAlone_refresh]⟩

/-- A message, while nobody has asked the loop to stop. -/
theorem pass_message {b : Build} {payload : List UInt8} {src : Addr}
    (hinput : w.input = .message payload src) (hstop : n.stop = false) (hsock : ¬ n.sock < 0) :
    let out := n.handleMessage payload src w.toAmbient
    Pass b .listening w n
      (if out.retval = success then out.node else { out.node with readfromStopped := true })
      out.events (if out.retval = success then .listening else .deaf) where
  acts := by simp [body, loopRecvfrom, shouldStop, get, Prog.place?]
  alone started := by
    refine ⟨started, ?_⟩
    by_cases hretval : (n.handleMessage payload src w.toAmbient).retval = success <;>
      simp [body, loopRecvfrom, loopRecvfrom.leave, Store.exec, hstop, hsock, hinput, hretval]

theorem pass_recvStop {b : Build} (hstop : n.stop = true) :
    Pass b .listening w n { n with readfromStopped := true } [] .deaf where
  acts := by simp [body, loopRecvfrom, shouldStop, get, Prog.place?]
  alone started :=
    ⟨started, by simp [body, loopRecvfrom, loopRecvfrom.leave, Store.exec, hstop]⟩

theorem pass_recvInexistent {b : Build} (hstop : n.stop = false) (hsock : n.sock < 0) :
    Pass b .listening w n n [] .deaf where
  acts := by simp [body, loopRecvfrom, shouldStop, get, Prog.place?]
  alone started := ⟨started, by simp [body, loopRecvfrom, hstop, hsock]⟩

theorem pass_recvError {b : Build} {fd : ℤ} (hinput : w.input = .recvError fd)
    (hstop : n.stop = false) (hsock : ¬ n.sock < 0) :
    Pass b .listening w n { n with sock := fd } [] .listening where
  acts := by simp [body, loopRecvfrom, shouldStop, get, Prog.place?]
  alone started :=
    ⟨started, by simp [body, loopRecvfrom, Store.exec, hstop, hsock, hinput]⟩

theorem pass_triggerStop {b : Build} (hstop : n.stop = true) :
    Pass b .trigger w n { n with triggerStopped := true } [] .triggerDone where
  acts := by simp [body, untaintTrigger, shouldStop, get, Prog.place?]
  alone started := ⟨started, by simp [body, untaintTrigger, Store.exec, hstop]⟩

theorem pass_stop {b : Build} (hinput : w.input = .stopTasks) :
    Pass b .application w n { n with stop := true } [] .application where
  acts := by simp [body, hinput, put, Prog.place?]
  alone started := ⟨started, by simp [body, hinput, Store.exec]⟩

theorem pass_addSibling {b : Build} {addr : Addr} {sendOk : Bool}
    (hinput : w.input = .addSibling addr sendOk) :
    Pass b .application w n (n.addSibling addr sendOk).1 (n.addSibling addr sendOk).2
      .application where
  acts := by simp [body, hinput, addSibling, get, Prog.place?]
  alone started := ⟨started, by simp [body, hinput]⟩

theorem pass_call {b : Build} (hinput : w.input = .getTimestamp) :
    Pass b .idle w n n [] (.waiting n.tsc) where
  acts := by simp [body, hinput, get, Prog.place?]
  alone started := ⟨started, by simp [body, hinput]⟩

/-- The pass of a client that ends its wait. -/
theorem pass_return {b : Build} {memTsc : ℤ} {r : ENode × Timespec}
    (hread : n.getTimestamp false memTsc = some r) :
    Pass b (.waiting memTsc) w n r.1 [.served r.2] .idle where
  acts := by simp [body, awaitClock, Prog.place?]
  alone started := ⟨started, by simp [body, runAlone_awaitClock hread]⟩

end Code

-- ---------------------------------------------------------------------------
-- Where the threads rest
-- ---------------------------------------------------------------------------

/-- `waiting` holds, for each client that is in its wait loop, the value of `tsc` at its call. -/
def System.rest (s : System) (waiting : ℕ → Option ℤ) : NodeThread → Rest
  | .monitor => .monitor s.monitor
  | .handler _ => .handler
  | .refresh => .refresh s.refresh
  | .receiver => if s.listening then .listening else .deaf
  | .trigger => if s.node.triggerStopped then .triggerDone else .trigger
  | .application _ => .application
  | .client k =>
    match waiting k with
    | some memTsc => .waiting memTsc
    | none => .idle

/-- The clients that wait, in the order of the list. -/
def Listed (waiting : ℕ → Option ℤ) (clients : List ℤ) : Prop :=
  ∃ ids : List ℕ, ids.Nodup ∧ ids.map waiting = clients.map some ∧ ∀ k, k ∉ ids → waiting k = none

namespace Listed

variable {waiting : ℕ → Option ℤ} {clients : List ℤ}

/-- There is always another client that can call. -/
theorem call (h : Listed waiting clients) (memTsc : ℤ) : ∃ k, waiting k = none ∧
    Listed (Function.update waiting k (some memTsc)) (clients ++ [memTsc]) := by
  obtain ⟨ids, hnodup, hmap, hidle⟩ := h
  obtain ⟨k, hk⟩ := Infinite.exists_notMem_finset ids.toFinset
  have hfresh : k ∉ ids := fun hmem => hk (List.mem_toFinset.mpr hmem)
  have hkept : ids.map (Function.update waiting k (some memTsc)) = ids.map waiting :=
    List.map_congr_left fun j hj => Function.update_of_ne (ne_of_mem_of_not_mem hj hfresh) _ _
  refine ⟨k, hidle k hfresh, ids ++ [k], ?_, ?_, fun j hj => ?_⟩
  · exact hnodup.append (List.nodup_singleton k) (List.disjoint_singleton.mpr hfresh)
  · simp [hkept, hmap]
  · obtain ⟨hj, hne⟩ : j ∉ ids ∧ j ≠ k := by simpa using hj
    rw [Function.update_of_ne hne, hidle j hj]

/-- The client that a position of the list stands for. -/
theorem leave {i : ℕ} {memTsc : ℤ} (h : Listed waiting clients)
    (hi : clients[i]? = some memTsc) : ∃ k, waiting k = some memTsc ∧
      Listed (Function.update waiting k none) (clients.eraseIdx i) := by
  obtain ⟨ids, hnodup, hmap, hidle⟩ := h
  have hget : (ids.map waiting)[i]? = some (some memTsc) := by
    rw [hmap, List.getElem?_map, hi]
    rfl
  rw [List.getElem?_map] at hget
  obtain ⟨k, hk, hwait⟩ := Option.map_eq_some_iff.mp hget
  have hout : k ∉ ids.eraseIdx i := by
    intro hmem
    obtain ⟨j, hne, hj⟩ := List.mem_eraseIdx_iff_getElem?.mp hmem
    have hlt : j < ids.length := (List.getElem?_eq_some_iff.mp hj).1
    exact hne ((List.getElem?_inj hlt hnodup).mp (hj.trans hk.symm))
  have hkept : (ids.eraseIdx i).map (Function.update waiting k none) =
      (ids.eraseIdx i).map waiting :=
    List.map_congr_left fun j hj => Function.update_of_ne (ne_of_mem_of_not_mem hj hout) _ _
  refine ⟨k, hwait, ids.eraseIdx i, hnodup.eraseIdx i, ?_, fun j hj => ?_⟩
  · rw [hkept, ← List.eraseIdx_map, hmap, List.eraseIdx_map]
  · by_cases hjk : j = k
    · rw [hjk, Function.update_self]
    · rw [Function.update_of_ne hjk]
      refine hidle j fun hmem => hj (List.mem_eraseIdx_iff_getElem?.mpr ?_)
      obtain ⟨l, hl⟩ := List.mem_iff_getElem?.mp hmem
      exact ⟨l, fun heq => hjk (Option.some.inj (hl.symm.trans (heq ▸ hk))), hl⟩

end Listed

/-- The pool in which the tasks and clients of the system rest, around its node. -/
def System.Resting (s : System) (c : NodePool) : Prop :=
  ∃ waiting started, Listed waiting s.clients ∧ c = .resting (s.rest waiting) ⟨s.node, started⟩

theorem ready_resting {b : Build} {rest : NodeThread → Rest} {i : NodeThread}
    (hi : ∀ depth, i ≠ .handler depth) : ready b (fun j => .ret (rest j)) i = true := by
  cases i with
  | handler depth => exact absurd rfl (hi depth)
  | _ => rfl

-- ---------------------------------------------------------------------------
-- Steps as turns
-- ---------------------------------------------------------------------------

namespace System

variable {b : Build} {s s' : System} {waiting waiting' : ℕ → Option ℤ} {started : Bool}
  {a : Action} {turn : Slice NodeThread Outside} {es : List Event}

/-- The threads, where they rest for `s`, can show `es` and come to rest for `s'`. -/
def Follows (b : Build) (s : System) (waiting : ℕ → Option ℤ) (started : Bool) (s' : System)
    (es : List Event) : Prop :=
  ∃ tr c', Interleaving b (.resting (s.rest waiting) ⟨s.node, started⟩) tr c' ∧ s'.Resting c' ∧
    tr.flatMap Lts.Transition.events = es

/-- A step that changes nothing and shows nothing. -/
theorem Follows.refl (hlisted : Listed waiting s.clients) : Follows b s waiting started s [] :=
  ⟨[], _, .refl, ⟨waiting, started, hlisted, rfl⟩, rfl⟩

theorem Follows.of_pass {i : NodeThread} {w : Outside}
    (hgo : ready b (fun j => .ret (s.rest waiting j)) i = true)
    (hpass : Code.Pass b (s.rest waiting i) w s.node s'.node es (s'.rest waiting' i))
    (hothers : ∀ j, j ≠ i → s.rest waiting j = s'.rest waiting' j)
    (hlisted : Listed waiting' s'.clients) : Follows b s waiting started s' es := by
  obtain ⟨started', halone⟩ := hpass.alone started
  obtain ⟨tr, hrun, hevents⟩ :=
    exists_run_alone (m := TriHaRd.node b) (ready_update b) hgo hpass.acts halone
  rw [Function.update_eq_iff.mpr ⟨rfl, hothers⟩] at hrun
  exact ⟨tr, _, hrun, ⟨waiting', started', hlisted, rfl⟩, hevents⟩

/-- A step moves one thread, and no other. -/
theorem rest_of_step (hs : step b s a = some (s', es)) (hturn : a.turn? = some turn)
    (j : NodeThread) (hj : j ≠ turn.thread) : s.rest waiting j = s'.rest waiting j := by
  have htrigger := stopped_of_step hs .trigger
  cases a with
  | clientCall | clientReturn => cases hturn
  | _ =>
      obtain rfl := Option.some.inj hturn
      simp only [step] at hs
      (try split_ifs at hs) <;> cases hs <;> cases j <;> simp_all [rest, ENode.stopped, ends]

theorem clients_of_step (hs : step b s a = some (s', es)) (hturn : a.turn? = some turn) :
    s'.clients = s.clients := by
  cases a with
  | clientCall | clientReturn => cases hturn
  | _ =>
      simp only [step] at hs
      (try split_ifs at hs) <;> cases hs <;> rfl

/-- The step is the pass that its thread makes, if it makes one. -/
theorem Follows.of_turn (hs : step b s a = some (s', es)) (hturn : a.turn? = some turn)
    (hgo : ready b (fun j => .ret (s.rest waiting j)) turn.thread = true)
    (hpass : Code.Pass b (s.rest waiting turn.thread) turn.outside s.node s'.node es
      (s'.rest waiting turn.thread))
    (hlisted : Listed waiting s.clients) : Follows b s waiting started s' es :=
  .of_pass hgo hpass (rest_of_step hs hturn) (clients_of_step hs hturn ▸ hlisted)

theorem follows_monitor {amb : Ambient} (hlisted : Listed waiting s.clients)
    (hs : step b s (.monitor amb) = some (s', es)) : Follows b s waiting started s' es := by
  by_cases hdone : s.monitor = .done
  · obtain ⟨rfl, rfl⟩ : s' = s ∧ es = [] := by
      cases s
      simp_all [step, monitorStep]
    exact .refl hlisted
  · refine .of_turn hs rfl (ready_resting (by simp)) ?_ hlisted
    obtain ⟨rfl, rfl⟩ := Prod.mk.inj (Option.some.inj hs)
    exact Code.pass_monitor hdone

theorem follows_aex {amb : Ambient} (hlisted : Listed waiting s.clients)
    (hs : step b s (.aex amb) = some (s', es)) : Follows b s waiting started s' es := by
  have hstep := hs
  simp only [step] at hs
  split at hs
  case isFalse => cases hs
  case isTrue hgo =>
    obtain ⟨rfl, rfl⟩ := Prod.mk.inj (Option.some.inj hs)
    refine .of_turn hstep rfl ?_ Code.pass_handler hlisted
    simp [ready, Prog.place?, Prog.restsAt, rest, hgo]

theorem follows_refresh {amb : Ambient} (hlisted : Listed waiting s.clients)
    (hs : step b s (.refresh amb) = some (s', es)) : Follows b s waiting started s' es := by
  by_cases hdone : s.refresh = .done
  · obtain ⟨rfl, rfl⟩ : s' = s ∧ es = [] := by
      cases s
      simp_all [step, refreshStep]
    exact .refl hlisted
  · refine .of_turn hs rfl (ready_resting (by simp)) ?_ hlisted
    obtain ⟨rfl, rfl⟩ := Prod.mk.inj (Option.some.inj hs)
    exact Code.pass_refresh hdone

theorem follows_recv {payload : List UInt8} {src : Addr} {amb : Ambient}
    (hstop : s.node.stop = false) (hlisted : Listed waiting s.clients)
    (hs : step b s (.recv payload src amb) = some (s', es)) :
    Follows b s waiting started s' es := by
  refine .of_turn hs rfl (ready_resting (by simp)) ?_ hlisted
  simp only [step] at hs
  split at hs
  case isFalse => cases hs
  case isTrue hgo =>
    have hpass := Code.pass_message (b := b) (w := ⟨amb, .message payload src⟩) (n := s.node)
      rfl hstop (not_lt.mpr hgo.2)
    split at hs
    all_goals
      rename_i hretval
      obtain ⟨rfl, rfl⟩ := Prod.mk.inj (Option.some.inj hs)
      simpa [rest, hgo.1, hretval] using hpass

theorem follows_recvStop (hlisted : Listed waiting s.clients)
    (hs : step b s .recvStop = some (s', es)) : Follows b s waiting started s' es := by
  refine .of_turn hs rfl (ready_resting (by simp)) ?_ hlisted
  simp only [step] at hs
  split at hs
  case isFalse => cases hs
  case isTrue hgo =>
    obtain ⟨rfl, rfl⟩ := Prod.mk.inj (Option.some.inj hs)
    simpa [rest, hgo.1] using Code.pass_recvStop hgo.2

theorem follows_recvInexistent (hstop : s.node.stop = false) (hlisted : Listed waiting s.clients)
    (hs : step b s .recvInexistent = some (s', es)) : Follows b s waiting started s' es := by
  refine .of_turn hs rfl (ready_resting (by simp)) ?_ hlisted
  simp only [step] at hs
  split at hs
  case isFalse => cases hs
  case isTrue hgo =>
    obtain ⟨rfl, rfl⟩ := Prod.mk.inj (Option.some.inj hs)
    simpa [rest, hgo.1] using Code.pass_recvInexistent hstop hgo.2

theorem follows_recvError {fd : ℤ} (hstop : s.node.stop = false)
    (hlisted : Listed waiting s.clients) (hs : step b s (.recvError fd) = some (s', es)) :
    Follows b s waiting started s' es := by
  refine .of_turn hs rfl (ready_resting (by simp)) ?_ hlisted
  simp only [step] at hs
  split at hs
  case isFalse => cases hs
  case isTrue hgo =>
    obtain ⟨rfl, rfl⟩ := Prod.mk.inj (Option.some.inj hs)
    simpa [rest, hgo.1] using Code.pass_recvError rfl hstop (not_lt.mpr hgo.2)

theorem follows_triggerStop (hlisted : Listed waiting s.clients)
    (hs : step b s .triggerStop = some (s', es)) : Follows b s waiting started s' es := by
  have hstep := hs
  simp only [step] at hs
  split at hs
  case isFalse => cases hs
  case isTrue hgo =>
    obtain ⟨rfl, rfl⟩ := Prod.mk.inj (Option.some.inj hs)
    cases hdone : s.node.triggerStopped with
    | true =>
        have hsame : ({ s with node := { s.node with triggerStopped := true } } : System) = s := by
          rw [← hdone]
        rw [hsame]
        exact .refl hlisted
    | false =>
        refine .of_turn hstep rfl (ready_resting (by simp)) ?_ hlisted
        simpa [rest, hdone] using Code.pass_triggerStop hgo

theorem follows_addSibling {addr : Addr} {sendOk : Bool} (hlisted : Listed waiting s.clients)
    (hs : step b s (.addSibling addr sendOk) = some (s', es)) :
    Follows b s waiting started s' es := by
  refine .of_turn hs rfl (ready_resting (by simp)) ?_ hlisted
  obtain ⟨rfl, rfl⟩ := Prod.mk.inj (Option.some.inj hs)
  exact Code.pass_addSibling rfl

theorem follows_stop (hlisted : Listed waiting s.clients)
    (hs : step b s .stop = some (s', es)) : Follows b s waiting started s' es := by
  refine .of_turn hs rfl (ready_resting (by simp)) ?_ hlisted
  obtain ⟨rfl, rfl⟩ := Prod.mk.inj (Option.some.inj hs)
  exact Code.pass_stop rfl

/-- A client that does not wait yet makes the call. -/
theorem follows_clientCall (hlisted : Listed waiting s.clients)
    (hs : step b s .clientCall = some (s', es)) : Follows b s waiting started s' es := by
  obtain ⟨rfl, rfl⟩ := Prod.mk.inj (Option.some.inj hs)
  obtain ⟨k, hidle, hlisted'⟩ := hlisted.call s.node.tsc
  refine .of_pass (i := .client k) (w := { Scenario.idle with input := .getTimestamp })
    (ready_resting (by simp)) ?_ (fun j hj => ?_) hlisted'
  · simpa [rest, hidle] using Code.pass_call rfl
  · cases j <;> simp_all [rest]

theorem follows_clientReturn {i : ℕ} (hlisted : Listed waiting s.clients)
    (hs : step b s (.clientReturn i) = some (s', es)) : Follows b s waiting started s' es := by
  have htrigger := stopped_of_step hs .trigger
  simp only [step] at hs
  cases hclient : s.clients[i]? with
  | none => simp [hclient] at hs
  | some memTsc =>
      cases hread : s.node.getTimestamp false memTsc with
      | none => simp [hclient, hread] at hs
      | some r =>
          simp only [hclient, hread] at hs
          obtain ⟨rfl, rfl⟩ := Prod.mk.inj (Option.some.inj hs)
          obtain ⟨k, hwait, hlisted'⟩ := hlisted.leave hclient
          refine .of_pass (i := .client k) (w := Scenario.idle) (ready_resting (by simp)) ?_
            (fun j hj => ?_) hlisted'
          · simpa [rest, hwait] using Code.pass_return hread
          · cases j <;> simp_all [rest, ENode.stopped, ends]

end System

-- ---------------------------------------------------------------------------
-- Runs
-- ---------------------------------------------------------------------------

/-- The receive loop does something new only while nobody has asked it to stop. -/
def NodeStep.InLoop (t : NodeStep) : Prop :=
  match t.act with
  | .recv _ _ _ | .recvInexistent | .recvError _ => t.pre.node.stop = false
  | _ => True

/-- Every step of the system is a turn of a thread that nobody interrupts. -/
theorem NodeStep.follows {b : Build} {t : NodeStep} {c : NodePool} (hs : t.IsStep (System.step b))
    (hloop : t.InLoop) (h : t.pre.Resting c) :
    ∃ tr c', Interleaving b c tr c' ∧ t.post.Resting c' ∧
      tr.flatMap Lts.Transition.events = t.events := by
  obtain ⟨waiting, started, hlisted, rfl⟩ := h
  obtain ⟨s, a, es, s'⟩ := t
  cases a with
  | monitor amb => exact System.follows_monitor hlisted hs
  | aex amb => exact System.follows_aex hlisted hs
  | refresh amb => exact System.follows_refresh hlisted hs
  | recv payload src amb => exact System.follows_recv hloop hlisted hs
  | recvStop => exact System.follows_recvStop hlisted hs
  | recvInexistent => exact System.follows_recvInexistent hloop hlisted hs
  | recvError fd => exact System.follows_recvError hloop hlisted hs
  | triggerStop => exact System.follows_triggerStop hlisted hs
  | addSibling addr sendOk => exact System.follows_addSibling hlisted hs
  | clientCall => exact System.follows_clientCall hlisted hs
  | clientReturn i => exact System.follows_clientReturn hlisted hs
  | stop => exact System.follows_stop hlisted hs

/-- The pool of a freshly constructed node rests where its system does. -/
theorem System.Initial.resting {s : System} (h : s.Initial) :
    ∃ c : NodePool, c.Initial ∧ s.Resting c := by
  obtain ⟨mem, port, tscFreq, shadowTscFreq, sleepAttackMs, timeAuthority, fd, rfl⟩ := h
  refine ⟨_, ⟨mem, port, tscFreq, shadowTscFreq, sleepAttackMs, timeAuthority, fd, rfl⟩,
    fun _ => none, false, ⟨[], List.nodup_nil, rfl, fun _ _ => rfl⟩, ?_⟩
  unfold NodePool.boot Pool.resting
  congr

/-- The runs of the system are among the interleavings: some run of the threads shows the same, and
    leads to the same node. -/
theorem System.exists_interleaving {b : Build} {s₀ s : System} {tr : List NodeStep}
    (h₀ : s₀.Initial) (hrun : NodeRun b s₀ tr s) (hloop : ∀ t ∈ tr, t.InLoop) :
    ∃ c₀ tr' c, c₀.Initial ∧ Interleaving b c₀ tr' c ∧ c.mem.toENode = s.node ∧
      tr'.flatMap Lts.Transition.events = tr.flatMap Lts.Transition.events := by
  obtain ⟨c₀, hinitial, hrests⟩ := h₀.resting
  obtain ⟨tr', c, hrun', ⟨_, _, _, rfl⟩, hevents⟩ :=
    hrun.simulate (fun _ _ hs hloop h => NodeStep.follows hs hloop h) hloop hrests
  exact ⟨c₀, tr', _, hinitial, hrun', rfl, hevents⟩

end TriHaRd
