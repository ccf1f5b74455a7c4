-- SUMMARY: What each step of a node uses and fixes of the static variables and of the members that the constructor leaves alone.
import TriHaRd.Base.Footprint
import TriHaRd.Clock.Moves
import TriHaRd.Network.Speaking
import TriHaRd.Node.Shutdown

/-!
# The footprint of a node

Two kinds of variables are not set when a node is constructed: the function-local
statics, which belong to the enclave, and the members that the constructor leaves
to the memory. Here they are the store of a node. Every step is confined to a
footprint in it: what it does depends on some of these variables, and it gives
some a value that does not depend on the others.
-/

namespace TriHaRd

open Lts

/-- The statics, and the members that `ENode.construct` does not set. -/
inductive Member where
  | taintedMsgCount
  | passCount
  | startupCount
  | trainStartTs
  | trainStopTs
  | enterFreq
  | pollCount
  | ntpStep
  | nbUninterrRounds
  | memAddCount
  | calibMsgCount
  | addCountRef
  | tsc
  | tscRef
  | lastUpdateTsc
  | tsRef
  | calibSent
  | calibRecvd
  | readfromStopped
deriving DecidableEq, Repr

namespace Member

abbrev Val : Member → Type
  | .trainStartTs | .trainStopTs | .tsRef => Timespec
  | .enterFreq | .readfromStopped => Bool
  | .calibSent | .calibRecvd => CalibMsg
  | _ => ℤ

def isStatic : Member → Bool
  | .taintedMsgCount | .passCount | .startupCount | .trainStartTs | .trainStopTs | .enterFreq
  | .pollCount | .ntpStep => true
  | _ => false

instance (m : Member) : DecidableEq m.Val :=
  match m with
  | .trainStartTs | .trainStopTs | .tsRef => inferInstanceAs (DecidableEq Timespec)
  | .enterFreq | .readfromStopped => inferInstanceAs (DecidableEq Bool)
  | .calibSent | .calibRecvd => inferInstanceAs (DecidableEq CalibMsg)
  | .taintedMsgCount | .passCount | .startupCount | .pollCount | .ntpStep | .nbUninterrRounds
  | .memAddCount | .calibMsgCount | .addCountRef | .tsc | .tscRef | .lastUpdateTsc =>
    inferInstanceAs (DecidableEq ℤ)

def all : List Member :=
  [.taintedMsgCount, .passCount, .startupCount, .trainStartTs, .trainStopTs, .enterFreq, .pollCount,
    .ntpStep, .nbUninterrRounds, .memAddCount, .calibMsgCount, .addCountRef, .tsc, .tscRef,
    .lastUpdateTsc, .tsRef, .calibSent, .calibRecvd, .readfromStopped]

theorem mem_all (m : Member) : m ∈ all := by
  cases m <;> decide

instance {p : Member → Prop} [DecidablePred p] : Decidable (∀ m, p m) :=
  decidable_of_iff (∀ m ∈ all, p m) ⟨fun h m => h m m.mem_all, fun h m _ => h m⟩

/-- The readings that the initialisation in `monitor` sets. -/
def isClock : Member → Bool
  | .tsc | .tscRef | .lastUpdateTsc | .tsRef => true
  | _ => false

/-- `startup_count` is counted down and compared with nothing. -/
def isDead : Member → Bool
  | .startupCount => true
  | _ => false

end Member

/-- A value for each of these variables. -/
abbrev Contents := ∀ m : Member, m.Val

namespace ENode

def contents (s : ENode) : Contents
  | .taintedMsgCount => s.statics.taintedMsgCount
  | .passCount => s.statics.passCount
  | .startupCount => s.statics.startupCount
  | .trainStartTs => s.statics.trainStartTs
  | .trainStopTs => s.statics.trainStopTs
  | .enterFreq => s.statics.enterFreq
  | .pollCount => s.statics.pollCount
  | .ntpStep => s.statics.ntpStep
  | .nbUninterrRounds => s.nbUninterrRounds
  | .memAddCount => s.memAddCount
  | .calibMsgCount => s.calibMsgCount
  | .addCountRef => s.addCountRef
  | .tsc => s.tsc
  | .tscRef => s.tscRef
  | .lastUpdateTsc => s.lastUpdateTsc
  | .tsRef => s.tsRef
  | .calibSent => s.calibSent
  | .calibRecvd => s.calibRecvd
  | .readfromStopped => s.readfromStopped

def withContents (s : ENode) (y : Contents) : ENode :=
  { s with
    statics := {
      taintedMsgCount := y .taintedMsgCount
      passCount := y .passCount
      startupCount := y .startupCount
      trainStartTs := y .trainStartTs
      trainStopTs := y .trainStopTs
      enterFreq := y .enterFreq
      pollCount := y .pollCount
      ntpStep := y .ntpStep }
    nbUninterrRounds := y .nbUninterrRounds
    memAddCount := y .memAddCount
    calibMsgCount := y .calibMsgCount
    addCountRef := y .addCountRef
    tsc := y .tsc
    tscRef := y .tscRef
    lastUpdateTsc := y .lastUpdateTsc
    tsRef := y .tsRef
    calibSent := y .calibSent
    calibRecvd := y .calibRecvd
    readfromStopped := y .readfromStopped }

/-- The store in a node. -/
def lens : Lens ENode Member.Val where
  get := contents
  put := withContents
  get_put s y := by
    funext m
    cases m <;> rfl
  put_get _ := rfl
  put_put _ _ _ := rfl

end ENode

-- ---------------------------------------------------------------------------
-- The clock
-- ---------------------------------------------------------------------------

namespace ENode

/-! Where the readings are the same, the clock is. -/

theorem readClock_keep (s : ENode) (y : Contents) (K : Member → Bool) :
    (lens.keep (fun m => m.isClock || K m) y s).readClock =
      (lens.keep (fun m => m.isClock || K m) y s.readClock.1, s.readClock.2) := rfl

theorem sendMessage_keep (s : ENode) (y : Contents) (K : Member → Bool) (buff : List UInt8)
    (dst : Addr) : (lens.keep K y s).sendMessage buff dst = s.sendMessage buff dst := rfl

/-- What `shadow_tsc_update` does to the node of an attacker. -/
theorem shadowTscUpdate_of_attacker (osTime : Timespec) {s : ENode} (h : s.attacker = true) :
    s.shadowTscUpdate osTime = ({ s with
      tscOffset := Truncate.truncate ((s.tsc - s.tscRef : ℤ) * (s.tscFreq / s.shadowTscFreq)) -
        (s.tsc - s.tscRef)
      tsRef := osTime
      tscRef := s.tsc
      totalAexCount := s.totalAexCount + 1
      tainted := true }, [.taint]) := if_pos h

theorem shadowTscUpdate_keep (osTime : Timespec) (s : ENode) (y : Contents)
    (K : Member → Bool) :
    (lens.keep (fun m => m.isClock || K m) y s).shadowTscUpdate osTime =
      (lens.keep (fun m => m.isClock || K m) y (s.shadowTscUpdate osTime).1,
        (s.shadowTscUpdate osTime).2) := by
  cases h : s.attacker with
  | true =>
      rw [shadowTscUpdate_of_attacker osTime h, shadowTscUpdate_of_attacker osTime (by exact h)]
      rfl
  | false =>
      rw [shadowTscUpdate_of_honest osTime h, shadowTscUpdate_of_honest osTime (by exact h)]

end ENode

-- ---------------------------------------------------------------------------
-- The monitor
-- ---------------------------------------------------------------------------

namespace Member

/-- What a drift request uses. -/
def inRequest (m : Member) : Bool := m.isClock || m == .calibMsgCount

/-- What it fixes. -/
def byRequest (m : Member) : Bool := m.inRequest || m == .calibSent

end Member

namespace ENode

theorem sendRecvDriftMessage_keep (s : ENode) (sleepTimeMs sleepMs : ℤ) (amb : Ambient)
    (y : Contents) :
    (lens.keep Member.inRequest y s).sendRecvDriftMessage sleepTimeMs sleepMs amb =
      (lens.keep Member.byRequest y (s.sendRecvDriftMessage sleepTimeMs sleepMs amb).1,
        (s.sendRecvDriftMessage sleepTimeMs sleepMs amb).2) := by
  cases h : s.attacker with
  | true =>
      rw [sendRecvDriftMessage, sendRecvDriftMessage, shadowTscUpdate_of_attacker amb.osTime h,
        shadowTscUpdate_of_attacker amb.osTime (by exact h)]
      rfl
  | false =>
      rw [sendRecvDriftMessage, sendRecvDriftMessage, shadowTscUpdate_of_honest amb.osTime h,
        shadowTscUpdate_of_honest amb.osTime (by exact h)]
      rfl

/-! ## The end of an iteration -/

theorem ntp_of_counting {s : ENode} (h : ¬ s.statics.pollCount + 1 = s.timeConstant)
    (amb : Ambient) :
    s.ntp amb = ({ s with statics.pollCount := s.statics.pollCount + 1 }, []) := if_neg h

theorem ntp_of_counted {s : ENode} (h : s.statics.pollCount + 1 = s.timeConstant)
    (amb : Ambient) :
    s.ntp amb = { s with statics.pollCount := 0 }.sendRecvDriftMessage 0 s.sleepAttackMs amb :=
  if_pos h

theorem monitorNtp_of_not_due {s : ENode} (h : s.ntpDue = false) (amb : Ambient) :
    s.monitorNtp amb = ({ s with statics.ntpStep := s.statics.ntpStep + 1 }, []) := by
  rw [monitorNtp, if_neg (of_decide_eq_false h)]

theorem monitorNtp_of_due {s : ENode} (h : s.ntpDue = true) (amb : Ambient) :
    s.monitorNtp amb = ({ (s.ntp amb).1 with statics.ntpStep := 0 + 1 }, (s.ntp amb).2) := by
  rw [monitorNtp, if_pos (of_decide_eq_true h)]

/-- What the end of an iteration of `monitor` uses. -/
def ntpUses (s : ENode) (m : Member) : Bool :=
  m == .ntpStep || s.ntpDue && m == .pollCount || s.polls && m.inRequest

def ntpFixes (s : ENode) (m : Member) : Bool :=
  m == .ntpStep || s.ntpDue && m == .pollCount || s.polls && m.byRequest

theorem sendRecvDriftMessage_statics (s : ENode) (sleepTimeMs sleepMs : ℤ) (amb : Ambient) :
    (s.sendRecvDriftMessage sleepTimeMs sleepMs amb).1.statics = s.statics := by
  cases h : s.attacker with
  | true =>
      rw [sendRecvDriftMessage, shadowTscUpdate_of_attacker amb.osTime h]
      rfl
  | false =>
      rw [sendRecvDriftMessage, shadowTscUpdate_of_honest amb.osTime h]
      rfl

theorem monitorNtp_keep (s : ENode) (amb : Ambient) (y : Contents) :
    (lens.keep s.ntpUses y s).monitorNtp amb =
      (lens.keep s.ntpFixes y (s.monitorNtp amb).1, (s.monitorNtp amb).2) := by
  cases hdue : s.ntpDue with
  | false =>
      have hpolls : s.polls = false := by rw [polls, hdue, Bool.false_and]
      have huses : s.ntpUses = (· == .ntpStep) := by
        funext m
        simp [ntpUses, hdue, hpolls]
      have hfixes : s.ntpFixes = (· == .ntpStep) := by
        funext m
        simp [ntpFixes, hdue, hpolls]
      rw [huses, hfixes, monitorNtp_of_not_due hdue, monitorNtp_of_not_due (by exact hdue)]
      rfl
  | true =>
      by_cases hcount : s.statics.pollCount + 1 = s.timeConstant
      case neg =>
        have hpolls : s.polls = false := by simp [polls, hcount]
        have huses : s.ntpUses = fun m => m == .ntpStep || m == .pollCount := by
          funext m
          simp [ntpUses, hdue, hpolls]
        have hfixes : s.ntpFixes = fun m => m == .ntpStep || m == .pollCount := by
          funext m
          simp [ntpFixes, hdue, hpolls]
        rw [huses, hfixes, monitorNtp_of_due hdue, monitorNtp_of_due (by exact hdue),
          ntp_of_counting hcount, ntp_of_counting (by exact hcount)]
        rfl
      case pos =>
        have hpolls : s.polls = true := by simp [polls, hdue, hcount]
        have huses : s.ntpUses = fun m => m == .ntpStep || m == .pollCount || m.inRequest := by
          funext m
          simp [ntpUses, hdue, hpolls]
        have hfixes : s.ntpFixes = fun m => m == .ntpStep || m == .pollCount || m.byRequest := by
          funext m
          simp [ntpFixes, hdue, hpolls]
        rw [huses, hfixes, monitorNtp_of_due hdue, monitorNtp_of_due (by exact hdue),
          ntp_of_counted hcount, ntp_of_counted (by exact hcount)]
        let counted : ENode := { s with statics.pollCount := 0 }
        let kept : ENode := {
          lens.keep (fun m => m == .ntpStep || m == .pollCount || m.inRequest) y s with
          statics.pollCount := 0 }
        have hrequest : kept.sendRecvDriftMessage 0 s.sleepAttackMs amb =
            (lens.keep Member.byRequest kept.contents
              (counted.sendRecvDriftMessage 0 s.sleepAttackMs amb).1,
              (counted.sendRecvDriftMessage 0 s.sleepAttackMs amb).2) :=
          sendRecvDriftMessage_keep counted 0 s.sleepAttackMs amb kept.contents
        have hstatics : (counted.sendRecvDriftMessage 0 s.sleepAttackMs amb).1.statics =
            counted.statics := sendRecvDriftMessage_statics counted 0 s.sleepAttackMs amb
        change ({ (kept.sendRecvDriftMessage 0 s.sleepAttackMs amb).1 with
            statics.ntpStep := 0 + 1 }, (kept.sendRecvDriftMessage 0 s.sleepAttackMs amb).2) =
          (lens.keep (fun m => m == .ntpStep || m == .pollCount || m.byRequest) y
            { (counted.sendRecvDriftMessage 0 s.sleepAttackMs amb).1 with
              statics.ntpStep := 0 + 1 }, (counted.sendRecvDriftMessage 0 s.sleepAttackMs amb).2)
        rw [hrequest]
        generalize counted.sendRecvDriftMessage 0 s.sleepAttackMs amb = r at hstatics
        obtain ⟨n, shown⟩ := r
        have hn : n = { n with statics := counted.statics } := by rw [← hstatics]
        rw [hn]
        rfl

/-! ## The end of a round -/

/-- A comparison of the loop count with the reference that can change something. -/
def compares (s : ENode) (memTotalAexCount : ℤ) : Bool :=
  decide (s.totalAexCount = memTotalAexCount) && (s.calibCount || s.nodeState != .freq)

/-- The end of a round uses the count of uninterrupted rounds if it has been one. It uses the
    reference if it compares the loop count with it, and the comparison can change something. -/
def roundUses (s : ENode) (memTotalAexCount : ℤ) (m : Member) : Bool :=
  decide (s.totalAexCount = memTotalAexCount) && m == .nbUninterrRounds ||
    (s.atRoundEnd memTotalAexCount).compares memTotalAexCount && m == .addCountRef

def roundFixes (s : ENode) (memTotalAexCount : ℤ) (m : Member) : Bool :=
  m == .nbUninterrRounds ||
    (s.atRoundEnd memTotalAexCount).compares memTotalAexCount && m == .addCountRef

theorem selfTaint_of_lt {s : ENode} (h : s.selftaintingRounds < s.nbUninterrRounds) :
    s.selfTaint = ({ s with
      nbUninterrRounds := 0
      totalAexCount := s.totalAexCount + 1
      tainted := true }, [.taint]) := if_pos h

theorem selfTaint_of_le {s : ENode} (h : ¬ s.selftaintingRounds < s.nbUninterrRounds) :
    s.selfTaint = (s, []) := if_neg h

theorem selfTaint_keep (s : ENode) (y : Contents) (K : Member → Bool) :
    (lens.keep (fun m => m == .nbUninterrRounds || K m) y s).selfTaint =
      (lens.keep (fun m => m == .nbUninterrRounds || K m) y s.selfTaint.1, s.selfTaint.2) := by
  by_cases h : s.selftaintingRounds < s.nbUninterrRounds
  · rw [selfTaint_of_lt h, selfTaint_of_lt (by exact h)]
    rfl
  · rw [selfTaint_of_le h, selfTaint_of_le (by exact h)]

/-- The comparison at the end of a round. -/
def recalibrate (s : ENode) (memTotalAexCount : ℤ) : ENode :=
  if s.discalibrated memTotalAexCount then { s with calibCount := false, nodeState := .freq } else s

theorem recalibrate_of_not_compares {s : ENode} {memTotalAexCount : ℤ}
    (h : s.compares memTotalAexCount = false) : s.recalibrate memTotalAexCount = s := by
  unfold recalibrate
  split
  case isFalse => rfl
  case isTrue hoff =>
    rw [discalibrated, Bool.and_eq_true] at hoff
    have hidle : s.calibCount = false ∧ s.nodeState = .freq := by
      simpa [compares, hoff.1] using h
    rw [← hidle.1, ← hidle.2]

theorem recalibrate_keep (s : ENode) (memTotalAexCount : ℤ) (y : Contents) :
    recalibrate (lens.keep (fun m => m == .nbUninterrRounds ||
        s.compares memTotalAexCount && m == .addCountRef) y s) memTotalAexCount =
      lens.keep (fun m => m == .nbUninterrRounds ||
        s.compares memTotalAexCount && m == .addCountRef) y (s.recalibrate memTotalAexCount) := by
  cases h : s.compares memTotalAexCount with
  | false =>
      rw [recalibrate_of_not_compares h, recalibrate_of_not_compares (by exact h)]
  | true =>
      have hsame : discalibrated (lens.keep (fun m => m == .nbUninterrRounds ||
          true && m == .addCountRef) y s) memTotalAexCount =
        s.discalibrated memTotalAexCount := rfl
      rw [recalibrate, recalibrate, hsame]
      split <;> rfl

/-- The count of uninterrupted rounds at the end of a round. -/
def countRound (s : ENode) (memTotalAexCount : ℤ) : ENode :=
  if s.totalAexCount = memTotalAexCount then
    { s with nbUninterrRounds := s.nbUninterrRounds + 1 }
  else { s with nbUninterrRounds := 0 }

theorem endCounting_eq_recalibrate (s : ENode) (memTotalAexCount : ℤ) :
    s.endCounting memTotalAexCount =
      ((s.countRound memTotalAexCount).selfTaint.1.recalibrate memTotalAexCount,
        (s.countRound memTotalAexCount).selfTaint.2) := rfl

theorem countRound_keep (s : ENode) (memTotalAexCount : ℤ) (y : Contents) (K : Member → Bool) :
    countRound (lens.keep (fun m => decide (s.totalAexCount = memTotalAexCount) &&
        m == .nbUninterrRounds || K m) y s) memTotalAexCount =
      lens.keep (fun m => m == .nbUninterrRounds || K m) y (s.countRound memTotalAexCount) := by
  by_cases h : s.totalAexCount = memTotalAexCount
  · rw [decide_eq_true h, countRound, if_pos (by exact h), countRound, if_pos h]
    rfl
  · rw [decide_eq_false h, countRound, if_neg (by exact h), countRound, if_neg h]
    rfl

theorem endCounting_keep (s : ENode) (memTotalAexCount : ℤ) (y : Contents) :
    (lens.keep (s.roundUses memTotalAexCount) y s).endCounting memTotalAexCount =
      (lens.keep (s.roundFixes memTotalAexCount) y (s.endCounting memTotalAexCount).1,
        (s.endCounting memTotalAexCount).2) := by
  have hround : countRound (lens.keep (s.roundUses memTotalAexCount) y s) memTotalAexCount =
      lens.keep (s.roundFixes memTotalAexCount) y (s.countRound memTotalAexCount) :=
    s.countRound_keep memTotalAexCount y fun m =>
      (s.atRoundEnd memTotalAexCount).compares memTotalAexCount && m == .addCountRef
  have htaint : selfTaint (lens.keep (s.roundFixes memTotalAexCount) y
      (s.countRound memTotalAexCount)) =
        (lens.keep (s.roundFixes memTotalAexCount) y (s.countRound memTotalAexCount).selfTaint.1,
          (s.countRound memTotalAexCount).selfTaint.2) :=
    (s.countRound memTotalAexCount).selfTaint_keep y _
  rw [endCounting_eq_recalibrate, endCounting_eq_recalibrate, hround, htaint]
  exact Prod.ext ((s.atRoundEnd memTotalAexCount).recalibrate_keep memTotalAexCount y) rfl

/-! ## The polling loop -/

/-- The end of a polling loop uses the count of uninterrupted rounds if it has been one. -/
def gapUses (b : Build) (delta : ℤ) (m : Member) : Bool :=
  decide (0 ≤ delta ∧ delta < b.threshold) && m == .nbUninterrRounds

theorem endPolling_of_gap {b : Build} {delta : ℤ} (h : delta ≥ b.threshold) (s : ENode) :
    s.endPolling b delta = ({ s with
      totalAexCount := s.totalAexCount + 1
      nbUninterrRounds := 0
      tainted := true }, [.taint]) := if_pos h

theorem endPolling_of_back {b : Build} {delta : ℤ} (h : ¬ delta ≥ b.threshold) (hback : delta < 0)
    (s : ENode) :
    s.endPolling b delta = ({ s with nbUninterrRounds := 0, calibCount := false }, []) := by
  rw [endPolling, if_neg h, if_pos hback]

theorem endPolling_of_uninterrupted {b : Build} {delta : ℤ} (h : ¬ delta ≥ b.threshold)
    (hback : ¬ delta < 0) (s : ENode) :
    s.endPolling b delta = { s with nbUninterrRounds := s.nbUninterrRounds + 1 }.selfTaint := by
  rw [endPolling, if_neg h, if_neg hback]

theorem endPolling_keep (b : Build) (s : ENode) (delta : ℤ) (y : Contents) (K : Member → Bool) :
    endPolling b (lens.keep (fun m => gapUses b delta m || K m) y s) delta =
      (lens.keep (fun m => m == .nbUninterrRounds || K m) y (s.endPolling b delta).1,
        (s.endPolling b delta).2) := by
  by_cases hgap : delta ≥ b.threshold
  case pos =>
    rw [endPolling_of_gap hgap, endPolling_of_gap hgap]
    have huses : gapUses b delta = fun _ => false := by
      funext m
      simp [gapUses, hgap]
    rw [huses]
    rfl
  case neg =>
    by_cases hback : delta < 0
    case pos =>
      rw [endPolling_of_back hgap hback, endPolling_of_back hgap hback]
      have huses : gapUses b delta = fun _ => false := by
        funext m
        simp [gapUses, hback]
      rw [huses]
      rfl
    case neg =>
      have huses : gapUses b delta = fun m => m == .nbUninterrRounds := by
        funext m
        simp [gapUses, not_lt.mp hback, not_le.mp hgap]
      rw [endPolling_of_uninterrupted hgap hback, endPolling_of_uninterrupted hgap hback, huses]
      exact selfTaint_keep { s with nbUninterrRounds := s.nbUninterrRounds + 1 } y K

end ENode

-- ---------------------------------------------------------------------------
-- The tasks
-- ---------------------------------------------------------------------------

/-- The polling loop goes on. -/
def Build.polls (b : Build) (stopTsc a tsc : ℤ) : Bool :=
  decide (tsc < stopTsc ∧ tsc - a < b.threshold ∧ tsc - a > 0)

/-- What the next step of the monitor uses. -/
def MonitorPc.uses (b : Build) (s : ENode) (amb : Ambient) (m : Member) : MonitorPc → Bool
  | .calibrateDrift => m.inRequest
  | .counted _ memTotalAexCount => s.roundUses memTotalAexCount m
  | .polling _ stopTsc a => !b.polls stopTsc a amb.tsc && ENode.gapUses b (amb.tsc - a) m
  | .returned .monitor => s.ntpUses m
  | _ => false

def MonitorPc.fixes (b : Build) (s : ENode) (amb : Ambient) (m : Member) : MonitorPc → Bool
  | .start => m.isClock
  | .calibrateDrift => m.byRequest
  | .counting _ _ _ _ => m == .tsc
  | .counted _ memTotalAexCount => s.roundFixes memTotalAexCount m
  | .polling _ stopTsc a => m == .tsc || !b.polls stopTsc a amb.tsc && m == .nbUninterrRounds
  | .returned .monitor => s.ntpFixes m
  | .returned (.calibrate _ addCountSum) =>
    decide (addCountSum ≤ addCountSum + s.addCount) && m == .addCountRef
  | _ => false

open ENode in
theorem monitorStep_keep (b : Build) (s : ENode) (amb : Ambient) (pc : MonitorPc) (y : Contents) :
    monitorStep b (lens.keep (pc.uses b s amb) y s) amb pc =
      ((monitorStep b s amb pc).1, lens.keep (pc.fixes b s amb) y (monitorStep b s amb pc).2.1,
        (monitorStep b s amb pc).2.2) := by
  cases pc with
  | start | sampling | done => rfl
  | loop =>
      have hsame (K : Member → Bool) : (lens.keep K y s).stop = s.stop ∧
          (lens.keep K y s).calibCount = s.calibCount := ⟨rfl, rfl⟩
      simp only [monitorStep, hsame]
      split_ifs <;> rfl
  | calibrateCount i addCountSum =>
      have hsame (K : Member → Bool) : (lens.keep K y s).stop = s.stop := rfl
      simp only [monitorStep, hsame]
      split_ifs <;> rfl
  | calibrateDrift =>
      have hstep (n : ENode) : monitorStep b n amb .calibrateDrift =
          (.loop, n.sendRecvDriftMessage 0 0 amb) := rfl
      rw [hstep, hstep]
      exact congrArg _ (s.sendRecvDriftMessage_keep 0 0 amb y)
  | counting caller stopTsc memTotalAexCount count =>
      simp only [monitorStep]
      split_ifs <;> rfl
  | counted caller memTotalAexCount =>
      have hstep (n : ENode) : monitorStep b n amb (.counted caller memTotalAexCount) =
          (.returned caller, n.endCounting memTotalAexCount) := rfl
      rw [hstep, hstep]
      exact congrArg _ (s.endCounting_keep memTotalAexCount y)
  | polling caller stopTsc a =>
      cases hpolls : b.polls stopTsc a amb.tsc with
      | true =>
          have hstep (n : ENode) : monitorStep b n amb (.polling caller stopTsc a) =
              (.polling caller stopTsc amb.tsc, { n with tsc := amb.tsc }, []) := by
            rw [monitorStep, if_pos (of_decide_eq_true hpolls)]
          have huses : (MonitorPc.polling caller stopTsc a).uses b s amb = fun _ => false := by
            funext m
            simp [MonitorPc.uses, hpolls]
          have hfixes : (MonitorPc.polling caller stopTsc a).fixes b s amb = (· == .tsc) := by
            funext m
            simp [MonitorPc.fixes, hpolls]
          rw [hstep, hstep, huses, hfixes]
          rfl
      | false =>
          have hstep (n : ENode) : monitorStep b n amb (.polling caller stopTsc a) =
              (if amb.tsc < stopTsc ∧ ¬ amb.tsc - a < 0 then .sampling caller stopTsc
                else .returned caller,
                ENode.endPolling b { n with tsc := amb.tsc } (amb.tsc - a)) := by
            rw [monitorStep, if_neg (of_decide_eq_false hpolls)]
            split_ifs <;> rfl
          have huses : (MonitorPc.polling caller stopTsc a).uses b s amb =
              gapUses b (amb.tsc - a) := by
            funext m
            simp [MonitorPc.uses, hpolls]
          have hfixes : (MonitorPc.polling caller stopTsc a).fixes b s amb =
              fun m => m == .nbUninterrRounds || m == .tsc := by
            funext m
            simp [MonitorPc.fixes, hpolls, Bool.or_comm]
          have hread : { lens.keep (gapUses b (amb.tsc - a)) y s with tsc := amb.tsc } =
              lens.keep (fun m => gapUses b (amb.tsc - a) m || m == .tsc) y
                { s with tsc := amb.tsc } := by
            rw [show (fun m : Member => gapUses b (amb.tsc - a) m || m == .tsc) =
              fun m => m == .tsc || gapUses b (amb.tsc - a) m from funext fun m => Bool.or_comm _ _]
            rfl
          rw [hstep, hstep, huses, hfixes, hread]
          exact congrArg _ (endPolling_keep b { s with tsc := amb.tsc } (amb.tsc - a) y (· == .tsc))
  | returned caller =>
      cases caller with
      | monitor =>
          have hstep (n : ENode) : monitorStep b n amb (.returned .monitor) =
              (.loop, n.monitorNtp amb) := rfl
          rw [hstep, hstep]
          exact congrArg _ (s.monitorNtp_keep amb y)
      | calibrate i addCountSum =>
          by_cases h : addCountSum + s.addCount < addCountSum
          · have hfixes : (MonitorPc.returned (.calibrate i addCountSum)).fixes b s amb =
                fun _ => false := by
              have hneg : ¬ 0 ≤ s.addCount := by omega
              funext m
              simp [MonitorPc.fixes, hneg]
            rw [hfixes, monitorStep, if_pos (by exact h), monitorStep, if_pos h]
            rfl
          · have hfixes : (MonitorPc.returned (.calibrate i addCountSum)).fixes b s amb =
                (· == .addCountRef) := by
              have hpos : 0 ≤ s.addCount := by omega
              funext m
              simp [MonitorPc.fixes, hpos]
            rw [hfixes, monitorStep, if_neg (by exact h), monitorStep, if_neg h]
            rfl

/-- What the next step of refresh uses. -/
def RefreshPc.uses (s : ENode) (m : Member) : RefreshPc → Bool
  | .roundStart => s.attacker && m.isClock
  | .send _ => m == .taintedMsgCount || m.isClock
  | .spin _ _ => s.tainted && m == .tsc
  | _ => false

/-- It fixes what it uses. -/
theorem refreshStep_keep (s : ENode) (amb : Ambient) (pc : RefreshPc) (y : Contents) :
    refreshStep (ENode.lens.keep (pc.uses s) y s) amb pc =
      ((refreshStep s amb pc).1, ENode.lens.keep (pc.uses s) y (refreshStep s amb pc).2.1,
        (refreshStep s amb pc).2.2) := by
  cases pc with
  | head | waiting =>
      have hsame (K : Member → Bool) : (ENode.lens.keep K y s).stop = s.stop ∧
          (ENode.lens.keep K y s).tainted = s.tainted ∧
          (ENode.lens.keep K y s).calibCount = s.calibCount := ⟨rfl, rfl, rfl⟩
      simp only [refreshStep, hsame]
      split_ifs <;> rfl
  | roundStart =>
      have hstep (n : ENode) : refreshStep n amb .roundStart =
          (.send (n.shadowTscUpdate amb.osTime).1.totalAexCount, n.shadowTscUpdate amb.osTime) :=
        rfl
      rw [hstep, hstep]
      cases h : s.attacker with
      | true =>
          have huses : RefreshPc.roundStart.uses s = fun m => m.isClock || false := by
            funext m
            simp [RefreshPc.uses, h]
          rw [huses, s.shadowTscUpdate_keep amb.osTime y fun _ => false]
          rfl
      | false =>
          rw [ENode.shadowTscUpdate_of_honest amb.osTime h,
            ENode.shadowTscUpdate_of_honest amb.osTime (by exact h)]
          rfl
  | send memTotalAexCount => rfl
  | spin memTotalAexCount referenceTsc =>
      cases h : s.tainted with
      | true =>
          have hstep (n : ENode) : refreshStep n amb (.spin memTotalAexCount referenceTsc) =
              (if n.tainted ∧ n.tsc - referenceTsc < Truncate.truncate (n.tscFreq * 1000000) * 10 ∧
                  !n.stop then .spin memTotalAexCount referenceTsc
                else if memTotalAexCount ≠ n.totalAexCount ∧ !n.stop then .roundStart
                else .head, n, []) := by
            rw [refreshStep]
            split_ifs <;> rfl
          have huses : (RefreshPc.spin memTotalAexCount referenceTsc).uses s = (· == .tsc) := by
            funext m
            simp [RefreshPc.uses, h]
          rw [hstep, hstep, huses]
          rfl
      | false =>
          have hstep {n : ENode} (hn : n.tainted = false) :
              refreshStep n amb (.spin memTotalAexCount referenceTsc) =
                (if memTotalAexCount ≠ n.totalAexCount ∧ !n.stop then .roundStart else .head,
                  n, []) := by
            rw [refreshStep, if_neg (by simp [hn])]
            split_ifs <;> rfl
          rw [hstep h, hstep (by exact h)]
          rfl
  | done => rfl

-- ---------------------------------------------------------------------------
-- Messages
-- ---------------------------------------------------------------------------

namespace ENode

/-! ## Case 'D' -/

/-- What `select_clock` uses besides the readings. -/
def clockUses (s : ENode) (m : Member) : Bool :=
  match s.nodeState with
  | .sync => false
  | .spik => !decide (s.clockOffset ≤ ⟨0, clockFloorNs⟩) && m == .passCount
  | .freq => m == .passCount || m == .enterFreq || s.endsTraining && m == .trainStartTs

def clockFixes (s : ENode) (m : Member) : Bool :=
  match s.nodeState with
  | .sync => false
  | .spik => m == .passCount
  | .freq => m == .passCount || m == .enterFreq ||
      (s.statics.enterFreq || s.endsTraining) && m == .trainStartTs ||
      s.endsTraining && m == .trainStopTs

/-- `y` and `y'` differ in `startup_count` at most. -/
def SameLive (y y' : Contents) : Prop := ∀ m : Member, m.isDead = false → y' m = y m

theorem disciplineClock_keep (s : ENode) (y : Contents) :
    (lens.keep Member.isClock y s).disciplineClock =
      lens.keep Member.isClock y s.disciplineClock := by
  by_cases h : s.clockOffset > ⟨0, 0⟩
  · have hstep {n : ENode} (hn : n.clockOffset > ⟨0, 0⟩) : n.disciplineClock =
        { stepClock { n with tscFreq := n.tscFreq - n.freqCorrection } with
          lastUpdateTsc := n.tsc } := by
      rw [disciplineClock, if_pos (by exact hn)]
      rfl
    rw [hstep h, hstep (by exact h)]
    rfl
  · have hkeep {n : ENode} (hn : ¬ n.clockOffset > ⟨0, 0⟩) : n.disciplineClock =
        { n with tscFreq := n.tscFreq - n.freqCorrection, lastUpdateTsc := n.tsc } := by
      rw [disciplineClock, if_neg (by exact hn)]
    rw [hkeep h, hkeep (by exact h)]
    rfl

theorem selectClockSync_keep (s : ENode) (y : Contents) :
    ∃ y', SameLive y y' ∧ (lens.keep Member.isClock y s).selectClockSync =
      lens.keep Member.isClock y' s.selectClockSync := by
  let kept := lens.keep Member.isClock y s.disciplineClock
  let count : ℤ := if kept.clockOffset ≤ ⟨0, clockFloorNs⟩ then 0
    else kept.statics.startupCount - 1
  refine ⟨Function.update y .startupCount count, ?_, ?_⟩
  · intro m hm
    refine Function.update_of_ne ?_ _ _
    rintro rfl
    cases hm
  · rw [selectClockSync, disciplineClock_keep]
    rfl

theorem selectClockSpik_keep (s : ENode) (y : Contents) :
    (lens.keep (fun m => m.isClock || !decide (s.clockOffset ≤ ⟨0, clockFloorNs⟩) &&
        m == .passCount) y s).selectClockSpik =
      lens.keep (fun m => m.isClock || m == .passCount) y s.selectClockSpik := by
  by_cases hfloor : s.clockOffset ≤ ⟨0, clockFloorNs⟩
  · rw [decide_eq_true hfloor, selectClockSpik, if_pos (by exact hfloor), selectClockSpik,
      if_pos hfloor]
    rfl
  · rw [decide_eq_false hfloor, selectClockSpik, if_neg (by exact hfloor), selectClockSpik,
      if_neg hfloor]
    by_cases hpass : s.statics.passCount + s.timeConstant ≥ stepOutThresholdS
    · rw [if_pos (by exact hpass), if_pos hpass]
      rfl
    · rw [if_neg (by exact hpass), if_neg hpass]
      rfl

theorem selectClockFreq_keep {s : ENode} (h : s.nodeState = .freq) (y : Contents) :
    (lens.keep (fun m => m.isClock || s.clockUses m) y s).selectClockFreq =
      lens.keep (fun m => m.isClock || s.clockFixes m) y s.selectClockFreq := by
  cases henter : s.statics.enterFreq with
  | true =>
      have hends : s.endsTraining = false := by simp [endsTraining, henter]
      have huses : s.clockUses = fun m => m == .passCount || m == .enterFreq := by
        funext m
        simp [clockUses, h, hends]
      have hfixes : s.clockFixes = fun m => m == .passCount || m == .enterFreq ||
          m == .trainStartTs := by
        funext m
        simp [clockFixes, h, henter, hends]
      rw [huses, hfixes, selectClockFreq, if_pos (by exact henter), selectClockFreq,
        if_pos (by exact henter)]
      rfl
  | false =>
      have hnot {n : ENode} (hn : n.statics.enterFreq = false) :
          ¬ n.statics.enterFreq = true := by simp [hn]
      by_cases hpass : s.statics.passCount + s.timeConstant ≥ stepOutThresholdS
      · have hends : s.endsTraining = true := by simp [endsTraining, h, henter, hpass]
        have huses : s.clockUses = fun m => m == .passCount || m == .enterFreq ||
            m == .trainStartTs := by
          funext m
          simp [clockUses, h, hends]
        have hfixes : s.clockFixes = fun m => m == .passCount || m == .enterFreq ||
            m == .trainStartTs || m == .trainStopTs := by
          funext m
          simp [clockFixes, h, henter, hends]
        rw [huses, hfixes, selectClockFreq, if_neg (hnot (by exact henter)),
          if_pos (by exact hpass), selectClockFreq, if_neg (hnot (by exact henter)),
          if_pos (by exact hpass)]
        rfl
      · have hends : s.endsTraining = false := by simpa [endsTraining, h, henter] using hpass
        have huses : s.clockUses = fun m => m == .passCount || m == .enterFreq := by
          funext m
          simp [clockUses, h, hends]
        have hfixes : s.clockFixes = fun m => m == .passCount || m == .enterFreq := by
          funext m
          simp [clockFixes, h, henter, hends]
        rw [huses, hfixes, selectClockFreq, if_neg (hnot (by exact henter)),
          if_neg (by exact hpass), selectClockFreq, if_neg (hnot (by exact henter)),
          if_neg (by exact hpass)]
        rfl

theorem selectClock_keep (s : ENode) (y : Contents) :
    ∃ y', SameLive y y' ∧
      (lens.keep (fun m => m.isClock || s.clockUses m) y s).selectClock =
        lens.keep (fun m => m.isClock || s.clockFixes m) y' s.selectClock := by
  have hstate (K : Member → Bool) : (lens.keep K y s).nodeState = s.nodeState := rfl
  cases h : s.nodeState with
  | sync =>
      have huses : (fun m : Member => m.isClock || s.clockUses m) = Member.isClock := by
        funext m
        simp [clockUses, h]
      have hfixes : (fun m : Member => m.isClock || s.clockFixes m) = Member.isClock := by
        funext m
        simp [clockFixes, h]
      rw [huses, hfixes, selectClock, selectClock, hstate, h]
      exact s.selectClockSync_keep y
  | spik =>
      refine ⟨y, fun _ _ => rfl, ?_⟩
      have huses : s.clockUses = fun m => !decide (s.clockOffset ≤ ⟨0, clockFloorNs⟩) &&
          m == .passCount := by
        funext m
        simp [clockUses, h]
      have hfixes : s.clockFixes = (· == .passCount) := by
        funext m
        simp [clockFixes, h]
      rw [huses, hfixes, selectClock, selectClock, hstate, h]
      exact s.selectClockSpik_keep y
  | freq =>
      refine ⟨y, fun _ _ => rfl, ?_⟩
      rw [selectClock, selectClock, hstate, h]
      exact selectClockFreq_keep h y

theorem readOffset_keep (s : ENode) (msg : DriftMsg) (y : Contents) (K : Member → Bool) :
    (lens.keep (fun m => m.isClock || K m) y s).readOffset msg =
      lens.keep (fun m => m.isClock || K m) y (s.readOffset msg) := by
  rw [readOffset, readOffset, readClock_keep]
  rfl

theorem detectSpike_keep (s : ENode) (y : Contents) (K : Member → Bool) :
    (lens.keep K y s).detectSpike = lens.keep K y s.detectSpike := by
  by_cases h : s.nodeState = .sync ∧ s.clockOffset ≥ ⟨0, stepThresholdNs⟩
  · rw [detectSpike, if_pos (by exact h), detectSpike, if_pos h]
    rfl
  · rw [detectSpike, if_neg (by exact h), detectSpike, if_neg h]

theorem judgeClock_keep (s : ENode) (y : Contents) (K : Member → Bool) :
    (lens.keep K y s).judgeClock = lens.keep K y s.judgeClock := by
  by_cases h : s.nodeState = .freq
  · rw [judgeClock_of_freq h, judgeClock_of_freq (by exact h)]
  · rw [judgeClock_of_ne_freq h, judgeClock_of_ne_freq (by exact h)]
    rfl

/-- The node at the call of `select_clock` for an answer. -/
def judged (s : ENode) (msg : DriftMsg) (amb : Ambient) : ENode :=
  ((s.shadowTscUpdate amb.osTime).1.readOffset msg).detectSpike.judgeClock

/-- Case 'D' with the message that has been read. -/
def takeDrift (s : ENode) (msg : DriftMsg) (amb : Ambient) : Outcome :=
  ⟨(s.judged msg amb).selectClock.storeRecvd msg.count, (s.shadowTscUpdate amb.osTime).2, success⟩

theorem judged_keep (s : ENode) (msg : DriftMsg) (amb : Ambient) (y : Contents)
    (K : Member → Bool) :
    (lens.keep (fun m => m.isClock || K m) y s).judged msg amb =
      lens.keep (fun m => m.isClock || K m) y (s.judged msg amb) := by
  rw [judged, shadowTscUpdate_keep, readOffset_keep, detectSpike_keep, judgeClock_keep, judged]

theorem storeRecvd_keep (s : ENode) (count : ℤ) (y : Contents) (K : Member → Bool) :
    (lens.keep (fun m => m.isClock || K m) y s).storeRecvd count =
      lens.keep (fun m => m.isClock || m == .calibRecvd || K m) y (s.storeRecvd count) := rfl

theorem takeDrift_keep (s : ENode) (msg : DriftMsg) (amb : Ambient) (y : Contents) :
    ∃ y', SameLive y y' ∧
      (lens.keep (fun m => m.isClock || (s.judged msg amb).clockUses m) y s).takeDrift msg amb =
        ⟨lens.keep (fun m => m.isClock || m == .calibRecvd || (s.judged msg amb).clockFixes m) y'
          (s.takeDrift msg amb).node, (s.takeDrift msg amb).events, success⟩ := by
  obtain ⟨y', hlive, hselect⟩ := (s.judged msg amb).selectClock_keep y
  refine ⟨y', hlive, ?_⟩
  rw [takeDrift, judged_keep, hselect, storeRecvd_keep, shadowTscUpdate_keep, takeDrift]

/-! ## Case 'T' -/

/-- Case 'T' for the message of a sibling, on a node that trusts its clock. -/
def takeTainted (s : ENode) (sibling : Peer) (msg : TaintedMsg) (src : Addr) (amb : Ambient) :
    Outcome :=
  let r := if sibling.port = 12346 then s.shadowTscUpdate amb.osTime else (s, [])
  let n := r.1.readClock.1.readClock.1
  let sent := n.sendMessage (buildUntaint msg.count sibling.lastTsIsConsistent.2 msg.orgTs
    r.1.readClock.2 r.1.readClock.1.readClock.2) src
  ⟨n, r.2 ++ sent.1, sent.2⟩

theorem handleTainted_of_replies {s : ENode} {buff : List UInt8} {src : Addr} {sibling : Peer}
    (hfind : s.findSibling src = some sibling) (hlength : buff.length = tMsgExpectedLen)
    (hconsistent : s.clockState = .taConsistent) (amb : Ambient) :
    s.handleTainted buff src amb = s.takeTainted sibling (readTainted buff) src amb := by
  rw [handleTainted, hfind]
  simp only [hlength, hconsistent, ne_eq, not_true, if_false, if_true]
  generalize readTainted buff = msg
  rfl

theorem handleTainted_of_dropped {s : ENode} {buff : List UInt8} {src : Addr}
    (h : ¬ ((s.findSibling src).isSome ∧ buff.length = tMsgExpectedLen ∧
      s.clockState = .taConsistent)) (amb : Ambient) :
    s.handleTainted buff src amb = .quiet s := by
  unfold handleTainted
  split
  case h_1 => rfl
  case h_2 sibling hfind =>
    split
    case isTrue => rfl
    case isFalse hlength =>
      split
      case isTrue hconsistent =>
        exact absurd ⟨by simp [hfind], not_not.mp hlength, hconsistent⟩ h
      case isFalse => rfl

theorem takeTainted_keep (s : ENode) (sibling : Peer) (msg : TaintedMsg) (src : Addr)
    (amb : Ambient) (y : Contents) :
    (lens.keep (fun m => m.isClock || false) y s).takeTainted sibling msg src amb =
      ⟨lens.keep (fun m => m.isClock || false) y (s.takeTainted sibling msg src amb).node,
        (s.takeTainted sibling msg src amb).events,
        (s.takeTainted sibling msg src amb).retval⟩ := by
  by_cases h : sibling.port = 12346
  · simp only [takeTainted, if_pos h, shadowTscUpdate_keep, readClock_keep, sendMessage_keep]
  · simp only [takeTainted, if_neg h, readClock_keep, sendMessage_keep]

/-! ## Case 'U' -/

/-- The message is newer than what is recorded of its sender. -/
def records (s : ENode) (msg : UntaintMsg) (src : Addr) : Bool :=
  (s.findSibling src).any fun sibling => decide (sibling.lastTsIsConsistent.1 < msg.count)

theorem recordUntaint_keep (s : ENode) (msg : UntaintMsg) (src : Addr) (y : Contents) :
    recordUntaint (lens.keep (fun m => s.records msg src && m.isClock) y s) src msg =
      s.recordUntaint src msg := by
  cases hrecords : s.records msg src with
  | true => rfl
  | false =>
      have hold (n : ENode) (hn : n.siblings = s.siblings) :
          n.recordUntaint src msg = s.siblings := by
        rw [← hn]
        refine Table.update_eq_self fun sibling hsibling => recordReply_of_replayed ?_
        rw [hn] at hsibling
        rw [records, findSibling, hsibling] at hrecords
        exact not_lt.mp (of_decide_eq_false hrecords)
      rw [hold s rfl]
      exact hold _ rfl

theorem handleUntaint_keep {s : ENode} {payload : List UInt8}
    (hlength : payload.length = uMsgExpectedLen) (src : Addr) (y : Contents) :
    (lens.keep (fun m => s.records (readUntaint payload) src && m.isClock) y s).handleUntaint
        payload src =
      lens.keep (fun m => s.records (readUntaint payload) src && m.isClock) y
        (s.handleUntaint payload src) := by
  by_cases h : (s.findSibling src).isSome
  case pos =>
    have hrecord := s.recordUntaint_keep (readUntaint payload) src y
    rw [handleUntaint_of_sibling hlength h, handleUntaint_of_sibling hlength (by exact h), hrecord]
    generalize readUntaint payload = msg
    rfl
  case neg =>
    have hdropped : ¬ (payload.length = uMsgExpectedLen ∧ (s.findSibling src).isSome) :=
      fun hboth => h hboth.2
    rw [handleUntaint_of_dropped hdropped, handleUntaint_of_dropped (by exact hdropped)]

/-! ## All messages -/

/-- What `handle_message` uses. -/
def messageUses (s : ENode) (payload : List UInt8) (amb : Ambient) (src : Addr)
    (m : Member) : Bool :=
  if payload.head? = some letterT then s.replies payload src && m.isClock
  else if payload.head? = some letterU then
    decide (payload.length = uMsgExpectedLen) && (s.records (readUntaint payload) src && m.isClock)
  else decide (IsDrift payload) &&
    (m.isClock || (s.judged (readDrift payload) amb).clockUses m)

def messageFixes (s : ENode) (payload : List UInt8) (amb : Ambient) (src : Addr)
    (m : Member) : Bool :=
  if payload.head? = some letterT then s.replies payload src && m.isClock
  else if payload.head? = some letterU then
    decide (payload.length = uMsgExpectedLen) && (s.records (readUntaint payload) src && m.isClock)
  else decide (IsDrift payload) &&
    (m.isClock || m == .calibRecvd || (s.judged (readDrift payload) amb).clockFixes m)

theorem handleSibling_keep (s : ENode) (src : Addr) (y : Contents) (K : Member → Bool) :
    (lens.keep K y s).handleSibling src = lens.keep K y (s.handleSibling src) := by
  by_cases h : (s.findSibling src).isSome
  · rw [handleSibling, if_pos (by exact h), handleSibling, if_pos h]
  · rw [handleSibling, if_neg (by exact h), handleSibling, if_neg h]
    rfl

/-- The outcome with the members of the node outside `K` taken from `y`. -/
def keepOutcome (K : Member → Bool) (y : Contents) (out : Outcome) : Outcome :=
  { out with node := lens.keep K y out.node }

theorem handleTainted_keep (s : ENode) (payload : List UInt8) (hhead : payload.head? = some letterT)
    (src : Addr) (amb : Ambient) (y : Contents) :
    (lens.keep (fun m => s.replies payload src && m.isClock) y s).handleTainted payload src amb =
      keepOutcome (fun m => s.replies payload src && m.isClock) y
        (s.handleTainted payload src amb) := by
  obtain ⟨tail, rfl⟩ := List.head?_eq_some_iff.mp hhead
  have hreplies : s.replies (letterT :: tail) src =
      ((s.findSibling src).isSome && (letterT :: tail).length == tMsgExpectedLen &&
        s.clockState == .taConsistent) := rfl
  by_cases h : (s.findSibling src).isSome ∧ (letterT :: tail).length = tMsgExpectedLen ∧
      s.clockState = .taConsistent
  case pos =>
    obtain ⟨hsibling, hlength, hconsistent⟩ := h
    obtain ⟨sibling, hfind⟩ := Option.isSome_iff_exists.mp hsibling
    have htrue : (fun m : Member => s.replies (letterT :: tail) src && m.isClock) =
        fun m => m.isClock || false := by
      funext m
      simp [hreplies, hfind, hlength, hconsistent]
    rw [htrue, handleTainted_of_replies hfind hlength hconsistent,
      handleTainted_of_replies (by exact hfind) hlength (by exact hconsistent), takeTainted_keep]
    rfl
  case neg =>
    rw [handleTainted_of_dropped h, handleTainted_of_dropped (by exact h)]
    rfl

theorem handleDrift_keep {s : ENode} {payload : List UInt8}
    (hlength : payload.length = dMsgExpectedLen) (amb : Ambient) (y : Contents) :
    ∃ y', SameLive y y' ∧
      (lens.keep (fun m => m.isClock || (s.judged (readDrift payload) amb).clockUses m) y
          s).handleDrift payload amb =
        keepOutcome (fun m => m.isClock || m == .calibRecvd ||
          (s.judged (readDrift payload) amb).clockFixes m) y' (s.handleDrift payload amb) := by
  have htake (n : ENode) : n.handleDrift payload amb = n.takeDrift (readDrift payload) amb :=
    n.handleDrift_of_length hlength amb
  rw [htake, htake]
  generalize readDrift payload = msg
  exact s.takeDrift_keep msg amb y

/-- The messages that use nothing. -/
theorem handleMessage_keep_of_quiet {s : ENode} {payload : List UInt8}
    (hT : payload.head? ≠ some letterT) (hU : payload.head? ≠ some letterU)
    (hD : ¬ IsDrift payload) (src : Addr) (amb : Ambient) (y : Contents) (K : Member → Bool) :
    (lens.keep K y s).handleMessage payload src amb =
      keepOutcome K y (s.handleMessage payload src amb) := by
  cases payload with
  | nil => rfl
  | cons tag tail =>
      by_cases htagS : tag = letterS
      · subst htagS
        exact congrArg Outcome.quiet (s.handleSibling_keep src y K)
      by_cases htagD : tag = letterD
      · subst htagD
        have hlength : (letterD :: tail).length ≠ dMsgExpectedLen := fun hlength =>
          hD ⟨rfl, hlength⟩
        have hquiet (n : ENode) : n.handleMessage (letterD :: tail) src amb = .quiet n :=
          (n.handleMessage_drift rfl src amb).trans (if_pos hlength)
        rw [hquiet, hquiet]
        rfl
      have htagT : tag ≠ letterT := fun h => hT (congrArg some h)
      have htagU : tag ≠ letterU := fun h => hU (congrArg some h)
      simp only [handleMessage, htagS, htagT, htagU, htagD, if_false, sendMessage_keep]
      rfl

theorem handleMessage_keep (s : ENode) (payload : List UInt8) (src : Addr) (amb : Ambient)
    (y : Contents) :
    ∃ y', SameLive y y' ∧
      (lens.keep (s.messageUses payload amb src) y s).handleMessage payload src amb =
        keepOutcome (s.messageFixes payload amb src) y' (s.handleMessage payload src amb) := by
  by_cases hT : payload.head? = some letterT
  · refine ⟨y, fun _ _ => rfl, ?_⟩
    have huses : s.messageUses payload amb src = fun m => s.replies payload src && m.isClock := by
      funext m
      rw [messageUses, if_pos hT]
    have hfixes : s.messageFixes payload amb src = fun m => s.replies payload src && m.isClock := by
      funext m
      rw [messageFixes, if_pos hT]
    rw [handleMessage_tainted hT, handleMessage_tainted hT, huses, hfixes]
    exact s.handleTainted_keep payload hT src amb y
  by_cases hU : payload.head? = some letterU
  · refine ⟨y, fun _ _ => rfl, ?_⟩
    have hsame : s.messageFixes payload amb src = s.messageUses payload amb src := by
      funext m
      rw [messageFixes, if_neg hT, if_pos hU, messageUses, if_neg hT, if_pos hU]
    rw [hsame, handleMessage_untaint hU, handleMessage_untaint hU]
    refine congrArg Outcome.quiet ?_
    by_cases hlength : payload.length = uMsgExpectedLen
    · have huses : s.messageUses payload amb src = fun m =>
          s.records (readUntaint payload) src && m.isClock := by
        funext m
        rw [messageUses, if_neg hT, if_pos hU, decide_eq_true hlength, Bool.true_and]
      rw [huses]
      exact handleUntaint_keep hlength src y
    · have hdropped : ¬ (payload.length = uMsgExpectedLen ∧ (s.findSibling src).isSome) :=
        fun hboth => hlength hboth.1
      rw [handleUntaint_of_dropped hdropped, handleUntaint_of_dropped (by exact hdropped)]
      rfl
  by_cases hD : IsDrift payload
  · have huses : s.messageUses payload amb src = fun m =>
        m.isClock || (s.judged (readDrift payload) amb).clockUses m := by
      funext m
      rw [messageUses, if_neg hT, if_neg hU, decide_eq_true hD, Bool.true_and]
    have hfixes : s.messageFixes payload amb src = fun m => m.isClock || m == .calibRecvd ||
        (s.judged (readDrift payload) amb).clockFixes m := by
      funext m
      rw [messageFixes, if_neg hT, if_neg hU, decide_eq_true hD, Bool.true_and]
    rw [handleMessage_drift hD.1, handleMessage_drift hD.1, huses, hfixes]
    exact handleDrift_keep hD.2 amb y
  · have hsame : s.messageFixes payload amb src = s.messageUses payload amb src := by
      funext m
      rw [messageFixes, if_neg hT, if_neg hU, messageUses, if_neg hT, if_neg hU,
        decide_eq_false hD, Bool.false_and, Bool.false_and]
    exact ⟨y, fun _ _ => rfl, hsame ▸ handleMessage_keep_of_quiet hT hU hD src amb y _⟩

end ENode

-- ---------------------------------------------------------------------------
-- The other calls
-- ---------------------------------------------------------------------------

namespace ENode

theorem addSibling_keep (s : ENode) (addr : Addr) (sendOk : Bool) (y : Contents)
    (K : Member → Bool) :
    (lens.keep K y s).addSibling addr sendOk =
      (lens.keep K y (s.addSibling addr sendOk).1, (s.addSibling addr sendOk).2) := by
  have hsame : (lens.keep K y s).port = s.port ∧
      (lens.keep K y s).findSibling addr = s.findSibling addr := ⟨rfl, rfl⟩
  rw [addSibling, addSibling, hsame.1, hsame.2]
  split_ifs <;> rfl

theorem getTimestamp_keep (s : ENode) (force : Bool) (memTsc : ℤ) (y : Contents)
    (K : Member → Bool) :
    (lens.keep (fun m => m.isClock || K m) y s).getTimestamp force memTsc =
      (s.getTimestamp force memTsc).map fun r =>
        (lens.keep (fun m => m.isClock || K m) y r.1, r.2) := by
  have hunready : (lens.keep (fun m => m.isClock || K m) y s).unready memTsc = s.unready memTsc :=
    rfl
  have hstop : (lens.keep (fun m => m.isClock || K m) y s).stop = s.stop := rfl
  rw [getTimestamp, getTimestamp, hunready, hstop]
  split_ifs
  · rfl
  · rw [readClock_keep]
    rfl

end ENode

-- ---------------------------------------------------------------------------
-- Steps
-- ---------------------------------------------------------------------------

namespace System

def lens : Lens System Member.Val where
  get s := s.node.contents
  put s y := { s with node := s.node.withContents y }
  get_put s y := ENode.lens.get_put s.node y
  put_get _ := rfl
  put_put _ _ _ := rfl

/-- What a step uses of the store. -/
def uses (b : Build) (s : System) (a : Action) (m : Member) : Bool :=
  match a with
  | .monitor amb => s.monitor.uses b s.node amb m
  | .refresh _ => s.refresh.uses s.node m
  | .recv payload src amb => s.node.messageUses payload amb src m
  | .clientCall => m == .tsc
  | .clientReturn _ => m.isClock || false
  | _ => false

/-- What it fixes. -/
def fixes (b : Build) (s : System) (a : Action) (m : Member) : Bool :=
  match a with
  | .monitor amb => s.monitor.fixes b s.node amb m
  | .aex _ => m == .tsc || m == .memAddCount
  | .refresh _ => s.refresh.uses s.node m
  | .recv payload src amb =>
    decide ((s.node.handleMessage payload src amb).retval ≠ success) && m == .readfromStopped ||
      s.node.messageFixes payload amb src m
  | .recvStop => m == .readfromStopped
  | .clientCall => m == .tsc
  | .clientReturn _ => m.isClock || false
  | _ => false

variable {b : Build} {s s' : System} {es : List Event}

/-- The step can be taken in the same way with another store that agrees on what it uses. -/
def Same (b : Build) (s : System) (a : Action) (s' : System) (es : List Event)
    (y : Contents) : Prop :=
  ∃ y', ENode.SameLive y y' ∧
    step b (lens.keep (uses b s a) y s) a = some (lens.keep (fixes b s a) y' s', es)

theorem same_monitor {amb : Ambient} (h : step b s (.monitor amb) = some (s', es)) (y : Contents) :
    Same b s (.monitor amb) s' es y := by
  have hstep (n : System) : step b n (.monitor amb) =
      some ({ n with
        node := (monitorStep b n.node amb n.monitor).2.1
        monitor := (monitorStep b n.node amb n.monitor).1 },
        (monitorStep b n.node amb n.monitor).2.2) := rfl
  have hkeep := monitorStep_keep b s.node amb s.monitor y
  rw [hstep] at h
  cases h
  refine ⟨y, fun _ _ => rfl, ?_⟩
  rw [hstep]
  change some ({ s with
      node := (monitorStep b (ENode.lens.keep (s.monitor.uses b s.node amb) y s.node) amb
        s.monitor).2.1
      monitor := (monitorStep b (ENode.lens.keep (s.monitor.uses b s.node amb) y s.node) amb
        s.monitor).1 },
      (monitorStep b (ENode.lens.keep (s.monitor.uses b s.node amb) y s.node) amb
        s.monitor).2.2) = _
  rw [hkeep]
  rfl

theorem same_refresh {amb : Ambient} (h : step b s (.refresh amb) = some (s', es)) (y : Contents) :
    Same b s (.refresh amb) s' es y := by
  have hstep (n : System) : step b n (.refresh amb) =
      some ({ n with
        node := (refreshStep n.node amb n.refresh).2.1
        refresh := (refreshStep n.node amb n.refresh).1 },
        (refreshStep n.node amb n.refresh).2.2) := rfl
  have hkeep := refreshStep_keep s.node amb s.refresh y
  rw [hstep] at h
  cases h
  refine ⟨y, fun _ _ => rfl, ?_⟩
  rw [hstep]
  change some ({ s with
      node := (refreshStep (ENode.lens.keep (s.refresh.uses s.node) y s.node) amb s.refresh).2.1
      refresh := (refreshStep (ENode.lens.keep (s.refresh.uses s.node) y s.node) amb
        s.refresh).1 },
      (refreshStep (ENode.lens.keep (s.refresh.uses s.node) y s.node) amb s.refresh).2.2) = _
  rw [hkeep]
  rfl

theorem same_recv {payload : List UInt8} {src : Addr} {amb : Ambient}
    (h : step b s (.recv payload src amb) = some (s', es)) (y : Contents) :
    Same b s (.recv payload src amb) s' es y := by
  obtain ⟨y', hlive, hkeep⟩ := s.node.handleMessage_keep payload src amb y
  have hcall : (lens.keep (uses b s (.recv payload src amb)) y s).node.handleMessage payload src
      amb = ENode.keepOutcome (s.node.messageFixes payload amb src) y'
        (s.node.handleMessage payload src amb) := hkeep
  refine ⟨y', hlive, ?_⟩
  simp only [step] at h
  split at h
  case isFalse => cases h
  case isTrue hreceives =>
    rw [step, if_pos (by exact hreceives)]
    dsimp only
    rw [hcall]
    generalize hout : s.node.handleMessage payload src amb = out at h
    split at h
    case isTrue hretval =>
      have hfixes : fixes b s (.recv payload src amb) = s.node.messageFixes payload amb src := by
        funext m
        simp [fixes, hout, hretval]
      cases h
      rw [hfixes]
      exact if_pos hretval
    case isFalse hretval =>
      have hfixes : fixes b s (.recv payload src amb) = fun m =>
          m == .readfromStopped || s.node.messageFixes payload amb src m := by
        funext m
        simp [fixes, hout, hretval]
      cases h
      rw [hfixes]
      exact if_neg hretval

theorem same_other {a : Action} (hmonitor : ∀ amb, a ≠ .monitor amb)
    (hrefresh : ∀ amb, a ≠ .refresh amb) (hrecv : ∀ payload src amb, a ≠ .recv payload src amb)
    (h : step b s a = some (s', es)) (y : Contents) : Same b s a s' es y := by
  refine ⟨y, fun _ _ => rfl, ?_⟩
  cases a with
  | monitor amb => exact absurd rfl (hmonitor amb)
  | refresh amb => exact absurd rfl (hrefresh amb)
  | recv payload src amb => exact absurd rfl (hrecv payload src amb)
  | addSibling addr sendOk =>
      cases h
      have hkeep := s.node.addSibling_keep addr sendOk y fun _ => false
      change some ({ s with
          node := ((ENode.lens.keep (fun _ => false) y s.node).addSibling addr sendOk).1 },
        ((ENode.lens.keep (fun _ => false) y s.node).addSibling addr sendOk).2) = _
      rw [hkeep]
      rfl
  | clientReturn i =>
      simp only [step] at h
      split at h
      case h_1 => cases h
      case h_2 memTsc hclient =>
        split at h
        case h_1 => cases h
        case h_2 node ts hread =>
          cases h
          have hkeep : (ENode.lens.keep (fun m => m.isClock || false) y s.node).getTimestamp false
              memTsc = some (ENode.lens.keep (fun m => m.isClock || false) y node, ts) := by
            rw [ENode.getTimestamp_keep, hread]
            rfl
          have hclient' : (lens.keep (uses b s (.clientReturn i)) y s).clients[i]? =
              some memTsc := hclient
          have hread' : (lens.keep (uses b s (.clientReturn i)) y s).node.getTimestamp false
              memTsc = some (ENode.lens.keep (fun m => m.isClock || false) y node, ts) := hkeep
          rw [step, hclient']
          dsimp only
          rw [hread']
          rfl
  | clientCall | stop =>
      cases h
      rfl
  | aex amb =>
      simp only [step] at h
      split at h
      case isFalse => cases h
      case isTrue hruns =>
        cases h
        exact if_pos hruns
  | recvStop | recvInexistent | recvError fd | triggerStop =>
      simp only [step] at h
      split at h
      case isFalse => cases h
      case isTrue hruns =>
        cases h
        exact if_pos hruns

/-- No step uses `startup_count`. -/
theorem uses_startupCount (b : Build) (s : System) (a : Action) :
    uses b s a .startupCount = false := by
  cases a with
  | monitor amb =>
      change s.monitor.uses b s.node amb .startupCount = false
      cases s.monitor with
      | returned caller =>
          cases caller <;> simp [MonitorPc.uses, ENode.ntpUses, Member.inRequest, Member.isClock]
      | _ => simp [MonitorPc.uses, Member.inRequest, Member.isClock, ENode.roundUses, ENode.gapUses]
  | refresh amb =>
      change s.refresh.uses s.node .startupCount = false
      cases s.refresh <;> simp [RefreshPc.uses, Member.isClock]
  | recv payload src amb =>
      have hclock (n : ENode) : n.clockUses .startupCount = false := by
        unfold ENode.clockUses
        split <;> simp
      simp [uses, ENode.messageUses, Member.isClock, hclock]
  | _ => rfl

theorem confined (b : Build) :
    Confined (step b) lens (uses b) (fixes b) Member.isDead where
  live s a m h := by
    cases m with
    | startupCount => exact absurd h (by simp [uses_startupCount])
    | _ => rfl
  mirrored s a := by
    apply Mirrored.of_keep
    intro s' es y h
    cases a with
    | monitor amb => exact same_monitor h y
    | refresh amb => exact same_refresh h y
    | recv payload src amb => exact same_recv h y
    | _ => exact same_other (by simp) (by simp) (by simp) h y

end System

namespace Shutdown

def lens : Lens Shutdown Member.Val where
  get s := s.system.node.contents
  put s y := { s with system := System.lens.put s.system y }
  get_put s y := ENode.lens.get_put s.system.node y
  put_get _ := rfl
  put_put _ _ _ := rfl

/-- `stop_tasks` looks at `readfrom_stopped` if the monitor has not ended. -/
def uses (b : Build) (s : Shutdown) (a : ShutdownAction) (m : Member) : Bool :=
  match a with
  | .task a => s.system.uses b a m
  | .stopTasks =>
    decide (s.pc = .waitFirst) && !s.system.node.monitorStopped && m == .readfromStopped

def fixes (b : Build) (s : Shutdown) (a : ShutdownAction) (m : Member) : Bool :=
  match a with
  | .task a => s.system.fixes b a m
  | .stopTasks => uses b s .stopTasks m

theorem stopTasks_keep (b : Build) (s : Shutdown) (y : Contents) :
    stopTasks (lens.keep (uses b s .stopTasks) y s) =
      s.stopTasks.map (lens.keep (uses b s .stopTasks) y) := by
  obtain ⟨system, pc⟩ := s
  cases pc with
  | idle | closing | done => rfl
  | waitFirst =>
      cases hmonitor : system.node.monitorStopped with
      | true =>
          have hends (n : System) (hn : n.node.monitorStopped = true) :
              stopTasks ⟨n, .waitFirst⟩ = some ⟨n, .waitSecond⟩ := by
            simp [stopTasks, hn]
          rw [hends system hmonitor]
          exact hends _ hmonitor
      | false =>
          have huses : uses b ⟨system, .waitFirst⟩ .stopTasks = (· == .readfromStopped) := by
            funext m
            simp [uses, hmonitor]
          rw [huses]
          cases hreadfrom : system.node.readfromStopped <;>
            simp [stopTasks, hmonitor, hreadfrom, lens, Lens.keep, System.lens,
              ENode.withContents, patch, ENode.contents]
  | waitSecond =>
      have hwaits (n : System) : stopTasks ⟨n, .waitSecond⟩ =
          some ⟨n, if !n.node.refreshStopped && !n.node.triggerStopped then .waitSecond
            else .closing⟩ := by
        rw [stopTasks]
        split_ifs <;> rfl
      rw [hwaits]
      exact hwaits _

theorem step_task {b : Build} {s s' : Shutdown} {a : Action} {es : List Event} (ha : a ≠ .stop)
    (hs : s.system.step b a = some (s'.system, es)) (hpc : s'.pc = s.pc) :
    s.step b (.task a) = some (s', es) := by
  have hstep : s.step b (.task a) =
      (s.system.step b a).map fun r => ({ s with system := r.1 }, r.2) := by
    cases a <;> first | rfl | exact absurd rfl ha
  rw [hstep, hs, Option.map_some, ← hpc]

theorem confined (b : Build) :
    Confined (step b) lens (uses b) (fixes b) Member.isDead where
  live s a m h := by
    cases a with
    | task a => exact (System.confined b).live s.system a m h
    | stopTasks =>
        have hm : m = .readfromStopped := by
          simp only [uses, Bool.and_eq_true, beq_iff_eq] at h
          exact h.2
        rw [hm]
        rfl
  mirrored s a := by
    cases a with
    | stopTasks =>
        refine .of_keep fun s' es y h => ⟨y, fun _ _ => rfl, ?_⟩
        have hkeep := stopTasks_keep b s y
        simp only [step, Option.map_eq_some_iff, Prod.mk.injEq] at h ⊢
        obtain ⟨n, hn, rfl, rfl⟩ := h
        rw [hkeep, hn]
        exact ⟨_, rfl, rfl, rfl⟩
    | task a =>
        intro s' es y h hagree
        have ha : a ≠ .stop := by
          rintro rfl
          cases h
        obtain ⟨hs, hpc⟩ := task_of_step h
        obtain ⟨y', hs', hlive⟩ := (System.confined b).mirrored s.system a s'.system es y hs hagree
        exact ⟨y', step_task ha hs' hpc, hlive⟩

end Shutdown

end TriHaRd
