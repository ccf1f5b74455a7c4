-- SUMMARY: The members that each task may write, and that only a reading error replaces the socket.
import TriHaRd.Messages.Writes

/-!
# What the tasks leave alone

A step of the monitor or of refresh is a record update. `setMonitor` and
`setRefresh` name the members in it, so that all others are unchanged by
definition. No task and no message writes `sock`: a node that does not receive
will not receive again.
-/

namespace TriHaRd

namespace ENode

/-- `s` with the members that the monitor writes taken from `m`. -/
def setMonitor (s m : ENode) : ENode :=
  { s with
    addCount := m.addCount
    totalAexCount := m.totalAexCount
    nbUninterrRounds := m.nbUninterrRounds
    nodeState := m.nodeState
    calibCount := m.calibCount
    tainted := m.tainted
    tsc := m.tsc
    tscOffset := m.tscOffset
    tscRef := m.tscRef
    lastUpdateTsc := m.lastUpdateTsc
    tsRef := m.tsRef
    calibSent := m.calibSent
    calibMsgCount := m.calibMsgCount
    addCountRef := m.addCountRef
    monitorStopped := m.monitorStopped
    statics := { s.statics with pollCount := m.statics.pollCount, ntpStep := m.statics.ntpStep } }

/-- `s` with the members that refresh writes taken from `m`. -/
def setRefresh (s m : ENode) : ENode :=
  { s with
    totalAexCount := m.totalAexCount
    tainted := m.tainted
    tscOffset := m.tscOffset
    tscRef := m.tscRef
    tsRef := m.tsRef
    refreshStopped := m.refreshStopped
    statics := { s.statics with taintedMsgCount := m.statics.taintedMsgCount } }

end ENode

theorem monitorStep_eq_setMonitor (b : Build) (s : ENode) (amb : Ambient) (pc : MonitorPc) :
    (monitorStep b s amb pc).2.1 = s.setMonitor (monitorStep b s amb pc).2.1 := by
  cases pc with
  | calibrateDrift =>
      change (s.sendRecvDriftMessage 0 0 amb).1 = s.setMonitor (s.sendRecvDriftMessage 0 0 amb).1
      rw [ENode.sendRecvDriftMessage_eq_setRequest]
      rfl
  | counted caller memTotalAexCount =>
      change (s.endCounting memTotalAexCount).1 = s.setMonitor (s.endCounting memTotalAexCount).1
      rw [ENode.endCounting_eq_setRound]
      rfl
  | polling caller stopTsc a =>
      have hend : (ENode.endPolling b { s with tsc := amb.tsc } (amb.tsc - a)).1 =
          s.setMonitor (ENode.endPolling b { s with tsc := amb.tsc } (amb.tsc - a)).1 := by
        rw [ENode.endPolling_eq_setRound]
        rfl
      simp only [monitorStep]
      split_ifs
      · rfl
      · exact hend
      · exact hend
  | returned caller =>
      cases caller with
      | monitor =>
          change (s.monitorNtp amb).1 = s.setMonitor (s.monitorNtp amb).1
          rw [ENode.monitorNtp_eq_setRequest]
          rfl
      | calibrate i addCountSum =>
          simp only [monitorStep]
          split_ifs <;> rfl
  | start | sampling | done => rfl
  | loop | calibrateCount | counting =>
      simp only [monitorStep]
      split_ifs <;> rfl

theorem refreshStep_eq_setRefresh (s : ENode) (amb : Ambient) (pc : RefreshPc) :
    (refreshStep s amb pc).2.1 = s.setRefresh (refreshStep s amb pc).2.1 := by
  cases pc with
  | roundStart =>
      simp only [refreshStep, ENode.shadowTscUpdate]
      split <;> rfl
  | send | done => rfl
  | _ =>
      simp only [refreshStep]
      split_ifs <;> rfl

theorem Writes.sock {s s' : ENode} {payload : List UInt8} {src : Addr}
    (h : Writes s payload src s') : s'.sock = s.sock := by
  cases h <;> rfl

namespace ENode

theorem shadowTscUpdate_sock (osTime : Timespec) (s : ENode) :
    (s.shadowTscUpdate osTime).1.sock = s.sock := by
  unfold shadowTscUpdate
  split <;> rfl

theorem shadows_sock {s m : ENode} (h : s.shadows m) : m.sock = s.sock := by
  rcases h with rfl | ⟨osTime, rfl⟩
  · rfl
  · exact s.shadowTscUpdate_sock osTime

theorem handleMessage_sock (s : ENode) (payload : List UInt8) (src : Addr) (amb : Ambient) :
    (s.handleMessage payload src amb).node.sock = s.sock := by
  obtain ⟨m, hshadows, hwrites⟩ := s.handleMessage_writes_shadowed payload src amb
  exact hwrites.sock.trans (shadows_sock hshadows)

end ENode

namespace System

/-- Only a reading error replaces the socket. -/
theorem Effect.sock {b : Build} {s : System} {a : Action} {es : List Event} {n : ENode}
    (h : Effect b s a es n) (ha : ∀ fd, a ≠ .recvError fd) : n.sock = s.node.sock := by
  cases h with
  | monitor amb => rw [monitorStep_eq_setMonitor]; rfl
  | refresh amb => rw [refreshStep_eq_setRefresh]; rfl
  | recv => exact ENode.handleMessage_sock _ _ _ _
  | recvFailed => exact ENode.handleMessage_sock _ _ _ _
  | recvError fd => exact absurd rfl (ha fd)
  | addSibling addr sendOk =>
      unfold ENode.addSibling
      split_ifs <;> rfl
  | clientReturn i memTsc node ts hread =>
      obtain rfl : n = s.node.readClock.1 :=
        congrArg Prod.fst (ENode.getTimestamp_eq_some hread)
      rfl
  | _ => rfl

/-- The receive loop runs on a socket. -/
def Receives (s : System) : Prop := s.listening = true ∧ 0 ≤ s.node.sock

instance (s : System) : Decidable s.Receives := inferInstanceAs (Decidable (_ ∧ _))

/-- A receive loop that has ended does not run again. -/
theorem listening_of_step {b : Build} {s s' : System} {a : Action} {es : List Event}
    (hs : step b s a = some (s', es)) (h : s'.listening = true) : s.listening = true := by
  cases a with
  | clientReturn i =>
      simp only [step] at hs
      split at hs
      · cases hs
      · split at hs
        · cases hs
        · cases hs
          exact h
  | recv payload src amb =>
      simp only [step] at hs
      split at hs
      case isTrue hreceives => exact hreceives.1
      case isFalse => cases hs
  | _ =>
      simp only [step] at hs
      try split_ifs at hs
      all_goals
        cases hs
        first | exact h | cases h

/-- A node that receives after a step has received before it. -/
theorem receives_of_step {b : Build} {s s' : System} {a : Action} {es : List Event}
    (hs : step b s a = some (s', es)) (h : s'.Receives) : s.Receives := by
  refine ⟨listening_of_step hs h.1, ?_⟩
  by_cases ha : ∀ fd, a ≠ .recvError fd
  · rw [← (effect_of_step hs).sock ha]
    exact h.2
  · push Not at ha
    obtain ⟨fd, rfl⟩ := ha
    simp only [step] at hs
    split at hs
    case isTrue hreceives => exact hreceives.2
    case isFalse => cases hs

end System

end TriHaRd
