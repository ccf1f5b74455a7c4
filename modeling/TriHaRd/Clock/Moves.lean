-- SUMMARY: What each step of a node does to its clock and to its two state flags.
import TriHaRd.Node.System

/-!
# Moves of the clock

Most steps leave `node_state` and `clock_state` alone and do no more to the clock
of an honest node than read it. The others initialise the clock, send the node
back to `FREQ_STATE`, or handle a Drift message. `ClockMove` lists the cases.
-/

namespace TriHaRd

open Lts

/-- `s'` has the states and the clock of `s`. -/
structure SameClock (s s' : ENode) : Prop where
  nodeState : s'.nodeState = s.nodeState
  clockState : s'.clockState = s.clockState
  attacker : s'.attacker = s.attacker
  tscOffset : s'.tscOffset = s.tscOffset
  tscRef : s'.tscRef = s.tscRef
  tsRef : s'.tsRef = s.tsRef
  pollExponent : s'.pollExponent = s.pollExponent

/-- `s'` has the states of `s`, and if the node is honest then its clock is that of `s`,
    possibly read once. -/
structure KeepsClock (s s' : ENode) : Prop where
  nodeState : s'.nodeState = s.nodeState
  clockState : s'.clockState = s.clockState
  attacker : s'.attacker = s.attacker
  pollExponent : s'.pollExponent = s.pollExponent
  tscOffset : s.attacker = false → s'.tscOffset = s.tscOffset
  reads : s.attacker = false →
    (s'.tscRef = s.tscRef ∧ s'.tsRef = s.tsRef) ∨
      (s'.tscRef = s.readClock.1.tscRef ∧ s'.tsRef = s.readClock.2)

namespace KeepsClock

variable {s s' : ENode}

theorem quiet (h : SameClock s s') : KeepsClock s s' :=
  ⟨h.nodeState, h.clockState, h.attacker, h.pollExponent, fun _ => h.tscOffset,
    fun _ => .inl ⟨h.tscRef, h.tsRef⟩⟩

theorem refl (s : ENode) : KeepsClock s s := .quiet ⟨rfl, rfl, rfl, rfl, rfl, rfl, rfl⟩

theorem read (s : ENode) : KeepsClock s s.readClock.1 :=
  ⟨rfl, rfl, rfl, rfl, fun _ => rfl, fun _ => .inr ⟨rfl, rfl⟩⟩

/-- Writing other members afterwards changes nothing. -/
theorem congr {s'' : ENode} (h : KeepsClock s s') (hsame : SameClock s' s'') :
    KeepsClock s s'' where
  nodeState := hsame.nodeState.trans h.nodeState
  clockState := hsame.clockState.trans h.clockState
  attacker := hsame.attacker.trans h.attacker
  pollExponent := hsame.pollExponent.trans h.pollExponent
  tscOffset := fun honest => hsame.tscOffset.trans (h.tscOffset honest)
  reads := fun honest => by
    rw [hsame.tscRef, hsame.tsRef]
    exact h.reads honest

/-- The same, for members written before that a read does not look at. -/
theorem congr_left {r : ENode} (h : KeepsClock r s') (hsame : SameClock s r)
    (htsc : r.tsc = s.tsc) (htscFreq : r.tscFreq = s.tscFreq) : KeepsClock s s' where
  nodeState := h.nodeState.trans hsame.nodeState
  clockState := h.clockState.trans hsame.clockState
  attacker := h.attacker.trans hsame.attacker
  pollExponent := h.pollExponent.trans hsame.pollExponent
  tscOffset := fun honest => (h.tscOffset (hsame.attacker.trans honest)).trans hsame.tscOffset
  reads := fun honest => by
    have hread := h.reads (hsame.attacker.trans honest)
    simpa only [ENode.readClock, ENode.elapsedNsec, hsame.tscOffset, hsame.tscRef, hsame.tsRef,
      htsc, htscFreq] using hread

/-- The update of an attacker's clock before a move is none for an honest node. -/
theorem after_shadow {osTime : Timespec} (h : KeepsClock (s.shadowTscUpdate osTime).1 s') :
    KeepsClock s s' := by
  have hmode : (s.shadowTscUpdate osTime).1.nodeState = s.nodeState ∧
      (s.shadowTscUpdate osTime).1.clockState = s.clockState ∧
      (s.shadowTscUpdate osTime).1.attacker = s.attacker ∧
      (s.shadowTscUpdate osTime).1.pollExponent = s.pollExponent := by
    unfold ENode.shadowTscUpdate
    split <;> exact ⟨rfl, rfl, rfl, rfl⟩
  have hhonest : s.attacker = false → (s.shadowTscUpdate osTime).1 = s := by
    intro honest
    simp [ENode.shadowTscUpdate, honest]
  obtain ⟨hnodeState, hclockState, hattacker, hpollExponent⟩ := hmode
  refine ⟨h.nodeState.trans hnodeState, h.clockState.trans hclockState,
    h.attacker.trans hattacker, h.pollExponent.trans hpollExponent, fun honest => ?_,
    fun honest => ?_⟩
  · rw [hhonest honest] at h
    exact h.tscOffset honest
  · rw [hhonest honest] at h
    exact h.reads honest

end KeepsClock

/-! ## The functions that keep the clock -/

namespace ENode

theorem sendTaintedMessages_keepsClock (s : ENode) (amb : Ambient) :
    KeepsClock s (s.sendTaintedMessages amb).1 :=
  (KeepsClock.read s).congr ⟨rfl, rfl, rfl, rfl, rfl, rfl, rfl⟩

theorem sendRecvDriftMessage_keepsClock (s : ENode) (sleepTimeMs sleepMs : ℤ) (amb : Ambient) :
    KeepsClock s (s.sendRecvDriftMessage sleepTimeMs sleepMs amb).1 := by
  have hread (m : ENode) (sent : CalibMsg) (count : ℤ) :
      KeepsClock m { m.readClock.1 with calibSent := sent, calibMsgCount := count } :=
    (KeepsClock.read m).congr ⟨rfl, rfl, rfl, rfl, rfl, rfl, rfl⟩
  exact (hread (s.shadowTscUpdate amb.osTime).1 _ _).after_shadow

theorem ntp_keepsClock (s : ENode) (amb : Ambient) : KeepsClock s (s.ntp amb).1 := by
  unfold ntp
  dsimp only
  split
  · exact (sendRecvDriftMessage_keepsClock { s with statics.pollCount := 0 } 0 s.sleepAttackMs
      amb).congr_left ⟨rfl, rfl, rfl, rfl, rfl, rfl, rfl⟩ rfl rfl
  · exact .quiet ⟨rfl, rfl, rfl, rfl, rfl, rfl, rfl⟩

theorem handleTainted_keepsClock (s : ENode) (buff : List UInt8) (src : Addr) (amb : Ambient) :
    KeepsClock s (s.handleTainted buff src amb).node := by
  -- the two reads of the answer happen at one tick
  have hreads (m : ENode) : KeepsClock m m.readClock.1.readClock.1 := by
    rw [readClock_readClock]
    exact .read m
  unfold handleTainted
  split
  · exact .refl s
  case h_2 sibling _ =>
    split
    · exact .refl s
    · split
      case isTrue =>
        have hshadow (m : ENode) (h : KeepsClock
            (if sibling.port = 12346 then s.shadowTscUpdate amb.osTime else (s, [])).1 m) :
            KeepsClock s m := by
          split at h
          · exact .after_shadow h
          · exact h
        apply hshadow
        generalize (if sibling.port = 12346 then s.shadowTscUpdate amb.osTime else (s, [])) = r
        exact hreads r.1
      case isFalse => exact .refl s

theorem storeRecvd_sameClock (s : ENode) (count : ℤ) : SameClock s (s.storeRecvd count) :=
  ⟨rfl, rfl, rfl, rfl, rfl, rfl, rfl⟩

theorem selfTaint_sameClock (s : ENode) : SameClock s s.selfTaint.1 := by
  unfold selfTaint
  split <;> exact ⟨rfl, rfl, rfl, rfl, rfl, rfl, rfl⟩

theorem endPolling_sameClock (b : Build) (s : ENode) (delta : ℤ) :
    SameClock s (s.endPolling b delta).1 := by
  unfold endPolling
  split_ifs
  · exact ⟨rfl, rfl, rfl, rfl, rfl, rfl, rfl⟩
  · exact ⟨rfl, rfl, rfl, rfl, rfl, rfl, rfl⟩
  · have h := selfTaint_sameClock { s with nbUninterrRounds := s.nbUninterrRounds + 1 }
    exact ⟨h.nodeState, h.clockState, h.attacker, h.tscOffset, h.tscRef, h.tsRef, h.pollExponent⟩

theorem monitorNtp_keepsClock (s : ENode) (amb : Ambient) :
    KeepsClock s (s.monitorNtp amb).1 := by
  unfold monitorNtp
  dsimp only
  split
  · exact (s.ntp_keepsClock amb).congr ⟨rfl, rfl, rfl, rfl, rfl, rfl, rfl⟩
  · exact .quiet ⟨rfl, rfl, rfl, rfl, rfl, rfl, rfl⟩

/-- The node at the end of a round of the AEX-Notify build, before the check of the count. -/
def atRoundEnd (s : ENode) (memTotalAexCount : ℤ) : ENode :=
  (if s.totalAexCount = memTotalAexCount then
    { s with nbUninterrRounds := s.nbUninterrRounds + 1 }
  else { s with nbUninterrRounds := 0 }).selfTaint.1

theorem atRoundEnd_sameClock (s : ENode) (memTotalAexCount : ℤ) :
    SameClock s (s.atRoundEnd memTotalAexCount) := by
  have hself (r : ℤ) : SameClock s { s with nbUninterrRounds := r }.selfTaint.1 :=
    have h := selfTaint_sameClock { s with nbUninterrRounds := r }
    ⟨h.nodeState, h.clockState, h.attacker, h.tscOffset, h.tscRef, h.tsRef, h.pollExponent⟩
  unfold atRoundEnd
  split <;> exact hself _

/-- The check of the count is what sends the node back to `FREQ_STATE`. -/
theorem endCounting_eq (s : ENode) (memTotalAexCount : ℤ) :
    (s.endCounting memTotalAexCount).1 =
      if (s.atRoundEnd memTotalAexCount).discalibrated memTotalAexCount then
        { s.atRoundEnd memTotalAexCount with calibCount := false, nodeState := .freq }
      else s.atRoundEnd memTotalAexCount :=
  rfl

end ENode

/-! ## The moves -/

/-- The step ends a round of the AEX-Notify build whose count is off the reference. -/
def Discalibrates (s : System) (a : Action) : Prop :=
  ∃ amb caller memTotalAexCount, a = .monitor amb ∧
    s.monitor = .counted caller memTotalAexCount ∧
    (s.node.atRoundEnd memTotalAexCount).discalibrated memTotalAexCount = true

/-- A well-formed 'D' message. -/
def IsDrift (payload : List UInt8) : Prop :=
  payload.head? = some letterD ∧ payload.length = dMsgExpectedLen

instance (payload : List UInt8) : Decidable (IsDrift payload) :=
  inferInstanceAs (Decidable (_ ∧ _))

/-- What an action does to the clock of `s`. -/
inductive ClockMove (s : System) (a : Action) (n : ENode) : Prop where
  | keep (h : KeepsClock s.node n) (hdis : ¬ Discalibrates s a)
  | start (hpc : s.monitor = .start) (amb : Ambient) (hact : a = .monitor amb)
      (hpost : n = { s.node with
        tsRef := amb.osTime, tscRef := amb.tsc, tsc := amb.tsc, lastUpdateTsc := amb.tsc })
  | discalibrate (hdis : Discalibrates s a) (m : ENode) (h : KeepsClock s.node m)
      (hpost : n = { m with calibCount := false, nodeState := .freq })
  | drift (payload : List UInt8) (src : Addr) (amb : Ambient)
      (hact : a = .recv payload src amb) (hdrift : IsDrift payload)
      (hpost : n = (s.node.handleDrift payload amb).node)

/-- The monitor keeps the clock, apart from its initialisation and from discalibrations. -/
theorem monitorStep_clock (b : Build) (s : ENode) (amb : Ambient) {pc : MonitorPc}
    (hstart : pc ≠ .start)
    (hdis : ∀ caller memTotalAexCount, pc = .counted caller memTotalAexCount →
      (s.atRoundEnd memTotalAexCount).discalibrated memTotalAexCount = false) :
    KeepsClock s (monitorStep b s amb pc).2.1 := by
  cases pc with
  | start => exact absurd rfl hstart
  | loop =>
      simp only [monitorStep]
      split_ifs <;> exact .quiet ⟨rfl, rfl, rfl, rfl, rfl, rfl, rfl⟩
  | calibrateCount i addCountSum =>
      simp only [monitorStep]
      split_ifs <;> exact .quiet ⟨rfl, rfl, rfl, rfl, rfl, rfl, rfl⟩
  | calibrateDrift => exact s.sendRecvDriftMessage_keepsClock 0 0 amb
  | counting caller stopTsc memTotalAexCount count =>
      simp only [monitorStep]
      split_ifs <;> exact .quiet ⟨rfl, rfl, rfl, rfl, rfl, rfl, rfl⟩
  | counted caller memTotalAexCount =>
      have hround := s.endCounting_eq memTotalAexCount
      rw [hdis caller memTotalAexCount rfl] at hround
      simp only [monitorStep, hround]
      exact .quiet (s.atRoundEnd_sameClock memTotalAexCount)
  | sampling caller stopTsc => exact .refl s
  | polling caller stopTsc a =>
      have h := ENode.endPolling_sameClock b { s with tsc := amb.tsc } (amb.tsc - a)
      have hsame : SameClock s (ENode.endPolling b { s with tsc := amb.tsc } (amb.tsc - a)).1 :=
        ⟨h.nodeState, h.clockState, h.attacker, h.tscOffset, h.tscRef, h.tsRef, h.pollExponent⟩
      simp only [monitorStep]
      split_ifs
      · exact .quiet ⟨rfl, rfl, rfl, rfl, rfl, rfl, rfl⟩
      · exact .quiet hsame
      · exact .quiet hsame
  | returned caller =>
      cases caller with
      | monitor => exact s.monitorNtp_keepsClock amb
      | calibrate i addCountSum =>
          simp only [monitorStep]
          split_ifs <;> exact .quiet ⟨rfl, rfl, rfl, rfl, rfl, rfl, rfl⟩
  | done => exact .refl s

theorem refreshStep_keepsClock (s : ENode) (amb : Ambient) (pc : RefreshPc) :
    KeepsClock s (refreshStep s amb pc).2.1 := by
  cases pc with
  | head =>
      simp only [refreshStep]
      split_ifs <;> exact .quiet ⟨rfl, rfl, rfl, rfl, rfl, rfl, rfl⟩
  | waiting =>
      simp only [refreshStep]
      split_ifs <;> exact .quiet ⟨rfl, rfl, rfl, rfl, rfl, rfl, rfl⟩
  | roundStart => exact .after_shadow (.refl (s.shadowTscUpdate amb.osTime).1)
  | send memTotalAexCount => exact s.sendTaintedMessages_keepsClock amb
  | spin memTotalAexCount referenceTsc =>
      simp only [refreshStep]
      split_ifs <;> exact .refl s
  | done => exact .refl s

/-- A message that is no well-formed 'D' message keeps the clock. -/
theorem ENode.handleMessage_keepsClock {payload : List UInt8} (hdrift : ¬ IsDrift payload)
    (s : ENode) (src : Addr) (amb : Ambient) :
    KeepsClock s (s.handleMessage payload src amb).node := by
  by_cases hS : payload.head? = some letterS
  · rw [handleMessage_sibling hS]
    dsimp only [Outcome.quiet, handleSibling]
    split
    · exact .refl s
    · exact .quiet ⟨rfl, rfl, rfl, rfl, rfl, rfl, rfl⟩
  by_cases hT : payload.head? = some letterT
  · rw [handleMessage_tainted hT]
    exact s.handleTainted_keepsClock payload src amb
  by_cases hU : payload.head? = some letterU
  · rw [handleMessage_untaint hU]
    dsimp only [Outcome.quiet, handleUntaint]
    split_ifs
    · exact .refl s
    · exact .quiet ⟨rfl, rfl, rfl, rfl, rfl, rfl, rfl⟩
    · exact .quiet ⟨rfl, rfl, rfl, rfl, rfl, rfl, rfl⟩
    · exact .refl s
  by_cases hD : payload.head? = some letterD
  · rw [handleMessage_drift hD, handleDrift, if_pos fun hlen => hdrift ⟨hD, hlen⟩]
    exact .refl s
  cases payload with
  | nil => exact .refl s
  | cons tag tail =>
      simp only [List.head?_cons, Option.some.injEq] at hS hT hU hD
      simp only [handleMessage, hS, hT, hU, hD, if_false]
      exact .refl s

/-- Every effect of an action is one of the moves. -/
theorem System.Effect.clockMove {b : Build} {s : System} {a : Action} {es : List Event}
    {n : ENode} (h : System.Effect b s a es n) : ClockMove s a n := by
  have hother : (∀ amb, a ≠ .monitor amb) → ¬ Discalibrates s a :=
    fun hne ⟨amb, _, _, hact, _⟩ => hne amb hact
  cases h with
  | monitor amb =>
      by_cases hstart : s.monitor = .start
      · rw [hstart]
        exact .start hstart amb rfl rfl
      by_cases hdis : Discalibrates s (.monitor amb)
      · obtain ⟨_, caller, memTotalAexCount, _, hpc, hoff⟩ := id hdis
        refine .discalibrate hdis _ (.quiet (s.node.atRoundEnd_sameClock memTotalAexCount)) ?_
        rw [hpc]
        simp only [monitorStep, ENode.endCounting_eq, hoff, if_true]
      · refine .keep (monitorStep_clock b s.node amb hstart fun caller mem hpc => ?_) hdis
        exact Bool.eq_false_iff.mpr fun hoff => hdis ⟨amb, caller, mem, rfl, hpc, hoff⟩
  | aex amb => exact .keep (.quiet ⟨rfl, rfl, rfl, rfl, rfl, rfl, rfl⟩) (hother (by simp))
  | refresh amb => exact .keep (refreshStep_keepsClock s.node amb s.refresh) (hother (by simp))
  | recv payload src amb =>
      by_cases hdrift : IsDrift payload
      · exact .drift payload src amb rfl hdrift
          (congrArg Outcome.node (ENode.handleMessage_drift hdrift.1 s.node src amb))
      · exact .keep (ENode.handleMessage_keepsClock hdrift s.node src amb) (hother (by simp))
  | recvFailed payload src amb hretval =>
      by_cases hdrift : IsDrift payload
      · rw [ENode.handleMessage_drift hdrift.1, ENode.handleDrift,
          if_neg (not_not.mpr hdrift.2)] at hretval
        exact absurd rfl hretval
      · exact .keep ((ENode.handleMessage_keepsClock hdrift s.node src amb).congr
          ⟨rfl, rfl, rfl, rfl, rfl, rfl, rfl⟩) (hother (by simp))
  | recvStop => exact .keep (.quiet ⟨rfl, rfl, rfl, rfl, rfl, rfl, rfl⟩) (hother (by simp))
  | recvInexistent => exact .keep (.refl s.node) (hother (by simp))
  | recvError fd => exact .keep (.quiet ⟨rfl, rfl, rfl, rfl, rfl, rfl, rfl⟩) (hother (by simp))
  | triggerStop => exact .keep (.quiet ⟨rfl, rfl, rfl, rfl, rfl, rfl, rfl⟩) (hother (by simp))
  | addSibling addr sendOk =>
      refine .keep ?_ (hother (by simp))
      unfold ENode.addSibling
      split_ifs <;> exact .quiet ⟨rfl, rfl, rfl, rfl, rfl, rfl, rfl⟩
  | clientCall => exact .keep (.refl s.node) (hother (by simp))
  | clientReturn i memTsc node ts hread =>
      obtain rfl : n = s.node.readClock.1 :=
        congrArg Prod.fst (ENode.getTimestamp_eq_some hread)
      exact .keep (.read s.node) (hother (by simp))
  | stop => exact .keep (.quiet ⟨rfl, rfl, rfl, rfl, rfl, rfl, rfl⟩) (hother (by simp))

theorem NodeStep.clockMove {b : Build} {t : NodeStep} (h : t.IsStep (System.step b)) :
    ClockMove t.pre t.act t.post.node :=
  (NodeStep.effect h).clockMove

/-- What a step that handles a well-formed 'D' message leads to. -/
theorem NodeStep.post_of_drift {b : Build} {t : NodeStep} {payload : List UInt8} {src : Addr}
    {amb : Ambient} (hs : t.IsStep (System.step b)) (hact : t.act = .recv payload src amb)
    (hdrift : IsDrift payload) : t.post.node = (t.pre.node.handleDrift payload amb).node := by
  have heffect := NodeStep.effect hs
  have hhandle := ENode.handleMessage_drift hdrift.1 t.pre.node src amb
  rw [hact] at heffect
  generalize t.events = es, t.post.node = n at heffect ⊢
  cases heffect with
  | recv => rw [hhandle]
  | recvFailed _ _ _ hretval =>
      rw [hhandle, ENode.handleDrift_of_length hdrift.2] at hretval
      exact absurd rfl hretval

/-- A discalibration sets the two flags and nothing else that the gate or a read looks at. -/
theorem Discalibrates.post {b : Build} {t : NodeStep} (hs : t.IsStep (System.step b))
    (hdis : Discalibrates t.pre t.act) : ∃ m, KeepsClock t.pre.node m ∧
      t.post.node = { m with calibCount := false, nodeState := .freq } := by
  cases NodeStep.clockMove hs with
  | keep _ hkeep => exact absurd hdis hkeep
  | start hpc _ _ _ =>
      obtain ⟨_, _, _, _, hcounted, _⟩ := hdis
      rw [hpc] at hcounted
      cases hcounted
  | discalibrate _ m hkeep hpost => exact ⟨m, hkeep, hpost⟩
  | drift payload src amb hact _ _ =>
      obtain ⟨_, _, _, hmonitor, _⟩ := hdis
      rw [hact] at hmonitor
      cases hmonitor

/-! ## Honest nodes -/

/-- The node does not shadow its TSC. -/
def Unshifted (s : ENode) : Prop := s.attacker = false ∧ s.tscOffset = 0

theorem Unshifted.of_keepsClock {s m : ENode} (h : Unshifted s) (hkeep : KeepsClock s m) :
    Unshifted m :=
  ⟨hkeep.attacker.trans h.1, (hkeep.tscOffset h.1).trans h.2⟩

/-- An honest node stays honest. -/
theorem Unshifted.step {b : Build} {t : NodeStep} (hs : t.IsStep (System.step b))
    (h : Unshifted t.pre.node) : Unshifted t.post.node := by
  cases NodeStep.clockMove hs with
  | keep hkeep _ => exact h.of_keepsClock hkeep
  | start _ amb _ hpost =>
      rw [hpost]
      exact h
  | discalibrate _ m hkeep hpost =>
      have hm := h.of_keepsClock hkeep
      rw [hpost]
      exact hm
  | drift payload src amb _ hdrift hpost =>
      obtain ⟨hattacker, _, htscOffset, _⟩ := t.pre.node.applyDrift_reading (readDrift payload)
      have hstore := ENode.storeRecvd_sameClock (t.pre.node.applyDrift (readDrift payload))
        (readDrift payload).count
      rw [hpost, ENode.handleDrift_of_honest h.1 hdrift.2, Unshifted, hstore.attacker,
        hstore.tscOffset]
      exact ⟨hattacker.trans h.1, htscOffset.trans h.2⟩

theorem unshifted_of_initial {s : System} (h : s.Initial) (honest : s.node.attacker = false) :
    Unshifted s.node := by
  obtain ⟨_, _, _, _, _, _, _, rfl⟩ := h
  exact ⟨honest, rfl⟩

-- ---------------------------------------------------------------------------
-- Before the first step of the monitor
-- ---------------------------------------------------------------------------

theorem monitorStep_ne_start (b : Build) (s : ENode) (amb : Ambient) (pc : MonitorPc) :
    (monitorStep b s amb pc).1 ≠ .start := by
  have henter (caller : Caller) (startTsc : ℤ) : MonitorPc.enter b s caller startTsc ≠ .start := by
    unfold MonitorPc.enter
    split <;> simp
  cases pc with
  | returned caller =>
      cases caller with
      | monitor => simp [monitorStep]
      | calibrate i addCountSum =>
          simp only [monitorStep]
          split_ifs <;> simp
  | loop =>
      simp only [monitorStep]
      split_ifs
      · simp
      · simp
      · exact henter .monitor amb.tsc
  | calibrateCount i addCountSum =>
      simp only [monitorStep]
      split_ifs
      · exact henter (.calibrate i addCountSum) amb.tsc
      · simp
  | counting caller stopTsc memTotalAexCount count =>
      simp only [monitorStep]
      split_ifs <;> simp
  | polling caller stopTsc a =>
      simp only [monitorStep]
      split_ifs <;> simp
  | _ => simp [monitorStep]

/-- The monitor does not return to its start. -/
theorem NodeStep.start_of_post {b : Build} {t : NodeStep} (hs : t.IsStep (System.step b))
    (h : t.post.monitor = .start) : t.pre.monitor = .start ∧ ∀ amb, t.act ≠ .monitor amb := by
  have hact : ∀ amb, t.act ≠ .monitor amb := by
    intro amb hact
    have hmonitor : System.step b t.pre (.monitor amb) = some (t.post, t.events) := hact ▸ hs
    rw [← (Prod.mk.inj (Option.some.inj hmonitor)).1] at h
    exact monitorStep_ne_start b t.pre.node amb t.pre.monitor h
  exact ⟨(System.monitor_of_step hs hact).symm.trans h, hact⟩

-- ---------------------------------------------------------------------------
-- Schedules
-- ---------------------------------------------------------------------------

namespace Scenario

/-- An answer of a Time Authority that shows one time throughout. -/
def driftAnswer (ts : Timespec) : List UInt8 :=
  buildDriftReply 0 0 ts ts ts (List.replicate 16 0)

/-- A calibrated node is trained by 24 answers at its time 1005 s and one at 1006 s, and
    trusts its clock after one more. The round in which this happens reads the TSC
    twice, and the rounds of the calibration once. -/
def miscounted : List Action :=
  calibrated ++
    List.replicate 24 (.recv (driftAnswer ⟨1005, 0⟩) ⟨"127.0.0.1", 12340⟩ (reading 0)) ++
    [.monitor (reading 10000000000), .monitor (reading 10500000000),
      .monitor (reading 12000000000)] ++
    List.replicate 2 (.recv (driftAnswer ⟨1006, 0⟩) ⟨"127.0.0.1", 12340⟩ (reading 0))

/-- The step that discalibrates the node, and a calibration from there on. -/
def recounting : List Action :=
  List.replicate 3 (.monitor (reading 12000000000)) ++
    ((List.range 10).flatMap fun i =>
      countingRound ((i + 12) * 1000000000) ((i + 13) * 1000000000)) ++
    [.monitor (reading 22000000000)]

end Scenario

end TriHaRd
