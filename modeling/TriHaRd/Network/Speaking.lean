-- SUMMARY: When a step of a node sends a message: the condition on the state before it, and that it is exact.
import TriHaRd.Node.Socket

/-!
# Speaking

A node speaks of its own accord when it is given a new sibling, in a round of
refresh that has siblings, and when the monitor asks the Time Authority for the
time. It speaks in answer to some of the messages it receives.
-/

namespace TriHaRd

/-- The end of this iteration of `monitor` calls `ntp`. -/
def ENode.ntpDue (s : ENode) : Bool :=
  decide (s.statics.ntpStep.tmod (Int.tdiv 1000 s.monitorTime) = 0)

/-- It calls `ntp`, which counts its last poll and sends a drift request. -/
def ENode.polls (s : ENode) : Bool :=
  s.ntpDue && decide (s.statics.pollCount + 1 = s.timeConstant)

/-- The step calls `sendto`. -/
def System.Speaks (s : System) : Action → Prop
  | .addSibling addr _ =>
    ¬ (addr.hostname = "127.0.0.1" ∧ addr.port = s.node.port) ∧ s.node.findSibling addr = none
  | .refresh _ => (∃ n, s.refresh = .send n) ∧ s.node.siblings ≠ [] ∧ 0 ≤ s.node.sock
  | .monitor _ =>
    (s.monitor = .calibrateDrift ∨ s.monitor = .returned .monitor ∧ s.node.polls = true) ∧
      0 ≤ s.node.sock
  | .recv payload src _ => s.node.replies payload src = true
  | _ => False

/-- Some message is among the events. -/
def HasMessage (es : List Event) : Prop := ∃ q, Event.sent q ∈ es

@[simp] theorem hasMessage_nil : ¬ HasMessage [] := by simp [HasMessage]

@[simp] theorem hasMessage_taint : ¬ HasMessage [.taint] := by simp [HasMessage]

@[simp] theorem hasMessage_append {es es' : List Event} :
    HasMessage (es ++ es') ↔ HasMessage es ∨ HasMessage es' := by
  simp [HasMessage, exists_or]

namespace ENode

@[simp] theorem hasMessage_shadowTscUpdate (osTime : Timespec) (s : ENode) :
    ¬ HasMessage (s.shadowTscUpdate osTime).2 := fun ⟨q, hq⟩ =>
  s.shadowTscUpdate_sends_nothing osTime q hq

@[simp] theorem hasMessage_selfTaint (s : ENode) : ¬ HasMessage s.selfTaint.2 := by
  unfold selfTaint
  split <;> simp

@[simp] theorem hasMessage_sendMessage (s : ENode) (buff : List UInt8) (dst : Addr) :
    HasMessage (s.sendMessage buff dst).1 ↔ 0 ≤ s.sock := by
  unfold sendMessage
  split
  case isTrue hsock => simpa using hsock
  case isFalse hsock => simpa [HasMessage] using hsock

theorem hasMessage_endPolling (b : Build) (s : ENode) (delta : ℤ) :
    ¬ HasMessage (s.endPolling b delta).2 := by
  unfold endPolling
  split_ifs <;> simp

theorem hasMessage_sendRecvDriftMessage (s : ENode) (sleepTimeMs sleepMs : ℤ) (amb : Ambient) :
    HasMessage (s.sendRecvDriftMessage sleepTimeMs sleepMs amb).2 ↔ 0 ≤ s.sock := by
  simp only [sendRecvDriftMessage, hasMessage_append, hasMessage_shadowTscUpdate,
    hasMessage_sendMessage, false_or]
  rw [← shadowTscUpdate_sock amb.osTime s]
  rfl

theorem hasMessage_ntp (s : ENode) (amb : Ambient) :
    HasMessage (s.ntp amb).2 ↔ s.statics.pollCount + 1 = s.timeConstant ∧ 0 ≤ s.sock := by
  unfold ntp
  dsimp only
  split
  case isTrue hpoll =>
    have hpoll : s.statics.pollCount + 1 = s.timeConstant := hpoll
    rw [hasMessage_sendRecvDriftMessage, and_iff_right hpoll]
  case isFalse hpoll =>
    have hpoll : ¬ s.statics.pollCount + 1 = s.timeConstant := hpoll
    simp [hpoll]

/-- The monitor asks for the time when it polls. -/
theorem hasMessage_monitorNtp (s : ENode) (amb : Ambient) :
    HasMessage (s.monitorNtp amb).2 ↔ s.polls = true ∧ 0 ≤ s.sock := by
  rw [polls, ntpDue, Bool.and_eq_true, decide_eq_true_eq, decide_eq_true_eq, and_assoc,
    ← hasMessage_ntp s amb]
  unfold monitorNtp
  dsimp only
  split
  case isTrue hstep => rw [and_iff_right hstep]
  case isFalse hstep => simp [hstep]

theorem hasMessage_sendTaintedMessages (s : ENode) (amb : Ambient) :
    HasMessage (s.sendTaintedMessages amb).2 ↔ s.siblings ≠ [] ∧ 0 ≤ s.sock := by
  constructor
  · rintro ⟨q, hq⟩
    obtain ⟨peer, hpeer, hq⟩ := List.mem_flatMap.mp hq
    exact ⟨List.ne_nil_of_mem hpeer, (hasMessage_sendMessage s.readClock.1 _ _).mp ⟨q, hq⟩⟩
  · rintro ⟨hsiblings, hsock⟩
    obtain ⟨peer, hpeer⟩ := List.exists_mem_of_ne_nil _ hsiblings
    obtain ⟨q, hq⟩ := (hasMessage_sendMessage s.readClock.1
      (buildTainted s.statics.taintedMsgCount s.readClock.2 amb.dummyTs) peer.toAddr).mpr hsock
    exact ⟨q, List.mem_flatMap.mpr ⟨peer, hpeer, hq⟩⟩

/-- `add_sibling` greets a new sibling, if its `sendto` succeeds. -/
theorem hasMessage_addSibling (s : ENode) (addr : Addr) (sendOk : Bool) :
    HasMessage (s.addSibling addr sendOk).2 ↔
      (¬ (addr.hostname = "127.0.0.1" ∧ addr.port = s.port) ∧ s.findSibling addr = none) ∧
        sendOk = true := by
  unfold addSibling
  split_ifs with hself hknown hok
  · simp [hself]
  · simp [Option.ne_none_iff_isSome.mpr hknown]
  · simp [HasMessage, hself, Option.not_isSome_iff_eq_none.mp hknown, hok]
  · simp [hok]

theorem hasMessage_handleMessage {s : ENode} (hsock : 0 ≤ s.sock) (payload : List UInt8)
    (src : Addr) (amb : Ambient) :
    HasMessage (s.handleMessage payload src amb).events ↔ s.replies payload src = true :=
  (replies_iff hsock payload src amb).symm

end ENode

theorem hasMessage_monitorStep (b : Build) (s : ENode) (amb : Ambient) (pc : MonitorPc) :
    HasMessage (monitorStep b s amb pc).2.2 ↔
      (pc = .calibrateDrift ∨ pc = .returned .monitor ∧ s.polls = true) ∧ 0 ≤ s.sock := by
  cases pc with
  | calibrateDrift => simpa [monitorStep] using s.hasMessage_sendRecvDriftMessage 0 0 amb
  | returned caller =>
      cases caller with
      | monitor => simpa [monitorStep] using s.hasMessage_monitorNtp amb
      | calibrate i addCountSum =>
          simp only [monitorStep]
          split_ifs <;> simp
  | counted caller memTotalAexCount => simp [monitorStep, ENode.endCounting]
  | polling caller stopTsc a =>
      have hend := ENode.hasMessage_endPolling b { s with tsc := amb.tsc } (amb.tsc - a)
      simp only [monitorStep]
      split_ifs <;> simp [hend]
  | start | sampling | done => simp [monitorStep]
  | _ =>
      simp only [monitorStep]
      split_ifs <;> simp

theorem hasMessage_refreshStep (s : ENode) (amb : Ambient) (pc : RefreshPc) :
    HasMessage (refreshStep s amb pc).2.2 ↔
      (∃ n, pc = .send n) ∧ s.siblings ≠ [] ∧ 0 ≤ s.sock := by
  cases pc with
  | send n => simpa [refreshStep] using s.hasMessage_sendTaintedMessages amb
  | roundStart => simp [refreshStep]
  | done => simp [refreshStep]
  | _ =>
      simp only [refreshStep]
      split_ifs <;> simp

namespace System

/-- A step shows a message when it speaks, unless the `sendto` of `add_sibling` fails. -/
theorem hasMessage_iff_speaks {b : Build} {s s' : System} {a : Action} {es : List Event}
    (h : s.step b a = some (s', es)) :
    HasMessage es ↔ s.Speaks a ∧ ∀ addr, a ≠ .addSibling addr false := by
  have hreplies (payload : List UInt8) (src : Addr) (amb : Ambient)
      (ha : a = .recv payload src amb) : HasMessage (s.node.handleMessage payload src amb).events ↔
        s.node.replies payload src = true := by
    rw [ha, step] at h
    split at h
    case isTrue hreceives => exact ENode.hasMessage_handleMessage hreceives.2 payload src amb
    case isFalse => cases h
  have heffect := effect_of_step h
  generalize s'.node = n at heffect
  clear h
  cases heffect with
  | monitor amb => simpa [Speaks] using hasMessage_monitorStep b s.node amb s.monitor
  | aex amb => simp [Speaks, ENode.aexHandler]
  | refresh amb => simpa [Speaks] using hasMessage_refreshStep s.node amb s.refresh
  | recv payload src amb => simpa [Speaks] using hreplies payload src amb rfl
  | recvFailed payload src amb => simpa [Speaks] using hreplies payload src amb rfl
  | addSibling addr sendOk =>
      rw [ENode.hasMessage_addSibling]
      simp [Speaks]
  | clientReturn i memTsc node ts hread => simp [Speaks, HasMessage]
  | _ => simp [Speaks]

end System

end TriHaRd
