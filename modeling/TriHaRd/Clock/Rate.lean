-- SUMMARY: The frequency and the clock that the training leaves behind when its first and its last exchange take no time.
import TriHaRd.Clock.Offset
import TriHaRd.Clock.Settling
import TriHaRd.Clock.Frequency
import TriHaRd.Messages.RoundTrip
import TriHaRd.Network.Speaking

/-!
# The rate that the training finds

The answer that starts the training sets the clock to the time of the Time
Authority. Until the training ends the clock is only read, so that the node then
knows two durations between the same two moments, its own and the Authority's. The
new frequency is their ratio times the old one.
-/

namespace TriHaRd

open Lts Truncate

variable {b : Build} {s s' : System} {tr : List NodeStep} {t : NodeStep}

-- ---------------------------------------------------------------------------
-- Exchanges that take no time
-- ---------------------------------------------------------------------------

/-- The monitor sends a message in the step. It sends nothing but drift requests. -/
def NodeStep.AsksTime (t : NodeStep) : Prop := (∃ amb, t.act = .monitor amb) ∧ HasMessage t.events

/-- The answer `msg`, handled after the history `past`, took no time: the Time Authority has stamped
    it with one time, and the TSC has not ticked since the node asked for it. -/
structure Instantaneous (past : List NodeStep) (msg : DriftMsg) : Prop where
  authority : msg.recTs.ns = msg.xmtTs.ns
  node : ∃ before q between, past = before ++ q :: between ∧ q.AsksTime ∧
    msg.orgTs.ns = q.pre.node.readClock.2.ns ∧
    ∀ u ∈ q :: between, u.post.node.tsc = u.pre.node.tsc

namespace ENode

/-- What the monitor sends is sent by `send_recv_drift_message`. -/
theorem events_monitorNtp {s : ENode} (h : s.polls = true) (amb : Ambient) :
    (s.monitorNtp amb).2 = (sendRecvDriftMessage { s with statics.pollCount := 0 } 0
      s.sleepAttackMs amb).2 := by
  obtain ⟨hdue, hpoll⟩ := Bool.and_eq_true_iff.mp h
  unfold monitorNtp ntp
  dsimp only
  rw [if_pos (of_decide_eq_true hdue), if_pos]
  exact of_decide_eq_true hpoll

theorem driftOrgTs_of_honest {s : ENode} (honest : s.attacker = false) (amb : Ambient) :
    s.driftOrgTs amb = s.readClock.2 := by
  rw [driftOrgTs, shadowTscUpdate_of_honest amb.osTime honest]

end ENode

/-- A request of an honest node is stamped with its time at the step. -/
theorem NodeStep.AsksTime.stamped (hs : t.IsStep (System.step b))
    (honest : t.pre.node.attacker = false) (h : t.AsksTime) {q : Packet}
    (hq : Event.sent q ∈ t.events) : ∃ count sleepTime dummyTs,
      q.payload = buildDrift count sleepTime t.pre.node.readClock.2 dummyTs := by
  obtain ⟨⟨amb, hact⟩, hmessage⟩ := h
  have hevents := (NodeStep.of_monitor hs hact).2.2
  rw [hevents, hasMessage_monitorStep] at hmessage
  rw [hevents] at hq
  obtain ⟨hpc | ⟨hpc, hpolls⟩, _⟩ := hmessage
  · rw [hpc] at hq
    have hpayload := ENode.payload_of_sendRecvDriftMessage hq
    rw [ENode.driftOrgTs_of_honest honest] at hpayload
    exact ⟨_, _, _, hpayload⟩
  · rw [hpc] at hq
    have hq : Event.sent q ∈ (t.pre.node.monitorNtp amb).2 := hq
    rw [ENode.events_monitorNtp hpolls] at hq
    have hpayload := ENode.payload_of_sendRecvDriftMessage hq
    rw [ENode.driftOrgTs_of_honest (by exact honest)] at hpayload
    exact ⟨_, _, _, hpayload⟩

-- ---------------------------------------------------------------------------
-- The answers of a training
-- ---------------------------------------------------------------------------

namespace ENode

variable {s m : ENode} {msg : DriftMsg}

theorem applyDrift_of_freq (hstate : s.nodeState = .freq) :
    s.applyDrift msg = (s.readOffset msg).selectClockFreq :=
  applyOffset_of_freq (s := s.readOffset msg) hstate

/-- The offset of an exchange that took no time is exact. -/
theorem ns_readOffset_of_instant (hnode : msg.orgTs.ns = s.readClock.2.ns)
    (hauthority : msg.recTs.ns = msg.xmtTs.ns) :
    (s.readOffset msg).clockOffset.ns = msg.xmtTs.ns - s.readClock.2.ns := by
  have hoffset := ns_driftOffset msg s.readClock.2
  rw [hnode, hauthority] at hoffset
  change (driftOffset msg s.readClock.2).ns = _
  omega

/-- A step puts the clock right. -/
theorem ns_stepClock_of_instant (hnode : msg.orgTs.ns = s.readClock.2.ns)
    (hauthority : msg.recTs.ns = msg.xmtTs.ns) :
    (s.readOffset msg).stepClock.tsRef.ns = msg.xmtTs.ns := by
  have hread : (s.readOffset msg).tsRef = s.readClock.2 := rfl
  rw [ns_stepClock, ns_readOffset_of_instant hnode hauthority, hread]
  omega

/-- A clock that has just been read shows its reference. -/
theorem ns_readClock_of_tscRef (h : s.tscRef = s.tsc + s.tscOffset) :
    s.readClock.2.ns = s.tsRef.ns := by
  rw [ns_readClock, elapsedNsec, h, sub_self, Int.cast_zero, zero_div, truncate_zero, add_zero]

/-- Until the TSC ticks, a clock that may have been read shows what it has shown before. -/
theorem ns_readClock_of_reads (htsc : m.tsc = s.tsc) (htscOffset : m.tscOffset = s.tscOffset)
    (htscFreq : m.tscFreq = s.tscFreq)
    (hreads : (m.tscRef = s.tscRef ∧ m.tsRef = s.tsRef) ∨
      (m.tscRef = s.readClock.1.tscRef ∧ m.tsRef = s.readClock.2)) :
    m.readClock.2.ns = s.readClock.2.ns := by
  rcases hreads with ⟨htscRef, htsRef⟩ | ⟨htscRef, htsRef⟩
  · rw [ns_readClock, ns_readClock, elapsedNsec, elapsedNsec, htsc, htscOffset, htscFreq, htscRef,
      htsRef]
  · rw [ns_readClock_of_tscRef, htsRef]
    rw [htscRef, htsc, htscOffset]
    rfl

end ENode

-- ---------------------------------------------------------------------------
-- A node in FREQ_STATE
-- ---------------------------------------------------------------------------

/-- An honest node in `FREQ_STATE` whose clock has been initialised. `enter` is whether its training
    has yet to start. -/
structure InFreq (enter : Bool) (tscFreq : ℚ) (trainStartTs : Timespec) (s : System) : Prop where
  honest : s.node.attacker = false
  started : s.monitor ≠ .start
  nodeState : s.node.nodeState = .freq
  enterFreq : s.node.statics.enterFreq = enter
  tscFreq : s.node.tscFreq = tscFreq
  trainStartTs : s.node.statics.trainStartTs = trainStartTs

theorem NodeStep.selects_of_drift?_eq_none (h : t.act.drift? = none) : t.selects = none := by
  unfold NodeStep.selects
  split
  case h_1 payload src amb hact =>
    rw [hact, Action.drift?, driftMsg?, ite_eq_right_iff] at h
    exact if_neg fun hdrift => by cases h hdrift
  case h_2 => rfl

/-- If the step handles an answer, then the training has started, and it goes on. -/
def Continues (enter : Bool) (t : NodeStep) : Prop :=
  t.selects ≠ none → enter = false ∧ t.endsTraining = false

namespace ENode

variable {s : ENode} {msg : DriftMsg}

theorem applyDrift_of_start (hstate : s.nodeState = .freq) (henter : s.statics.enterFreq = true) :
    s.applyDrift msg =
      { (s.readOffset msg).stepClock with
        statics := { s.statics with
          passCount := s.statics.passCount + s.timeConstant
          trainStartTs := (s.readOffset msg).stepClock.tsRef
          enterFreq := false } } := by
  have henter : (s.readOffset msg).statics.enterFreq = true := henter
  rw [applyDrift_of_freq hstate, selectClockFreq, if_pos henter]
  rfl

theorem applyDrift_of_continue (hstate : s.nodeState = .freq)
    (henter : s.statics.enterFreq = false) (hends : s.endsTraining = false) :
    s.applyDrift msg =
      { s.readOffset msg with
        statics := { s.statics with passCount := s.statics.passCount + s.timeConstant } } := by
  have hpass : ¬ s.statics.passCount + s.timeConstant ≥ stepOutThresholdS := by
    simpa [endsTraining, hstate, henter] using hends
  have henter : ¬ (s.readOffset msg).statics.enterFreq = true := by
    change ¬ s.statics.enterFreq = true
    simp [henter]
  rw [applyDrift_of_freq hstate, selectClockFreq, if_neg henter]
  exact if_neg hpass

theorem applyDrift_of_end (hstate : s.nodeState = .freq) (hends : s.endsTraining = true) :
    s.applyDrift msg = ENode.finishTraining { s.readOffset msg with
      statics := { s.statics with passCount := s.statics.passCount + s.timeConstant } } := by
  simp only [endsTraining, hstate, decide_true, Bool.true_and, Bool.and_eq_true,
    Bool.not_eq_true', decide_eq_true_eq] at hends
  obtain ⟨henter, hpass⟩ := hends
  have henter : ¬ (s.readOffset msg).statics.enterFreq = true := by
    change ¬ s.statics.enterFreq = true
    simp [henter]
  rw [applyDrift_of_freq hstate, selectClockFreq, if_neg henter]
  exact if_pos hpass

/-- The ratio of the two durations. The offset is what the one is longer than the other. -/
theorem applyDrift_tscFreq (hstate : s.nodeState = .freq) (hends : s.endsTraining = true)
    (hnode : msg.orgTs.ns = s.readClock.2.ns) (hauthority : msg.recTs.ns = msg.xmtTs.ns) :
    (s.applyDrift msg).tscFreq =
      s.tscFreq * ((s.readClock.2.ns - s.statics.trainStartTs.ns : ℤ) : ℚ) /
        ((msg.xmtTs.ns - s.statics.trainStartTs.ns : ℤ) : ℚ) := by
  have hread : (s.readOffset msg).nodeState = .freq := hstate
  have hends : (s.readOffset msg).endsTraining = true := hends
  have hduration : (s.readOffset msg).trainDuration =
      ((s.readClock.2.ns - s.statics.trainStartTs.ns : ℤ) : ℚ) / 1000000000 := by
    rw [← Timespec.ns_sub, ← Timespec.toDouble_eq_ns]
    rfl
  have hoffset : (s.readOffset msg).clockOffset.toDouble =
      ((msg.xmtTs.ns - s.readClock.2.ns : ℤ) : ℚ) / 1000000000 := by
    rw [Timespec.toDouble_eq_ns, ns_readOffset_of_instant hnode hauthority]
  have hsum : ((s.readClock.2.ns - s.statics.trainStartTs.ns : ℤ) : ℚ) +
      ((msg.xmtTs.ns - s.readClock.2.ns : ℤ) : ℚ) =
        ((msg.xmtTs.ns - s.statics.trainStartTs.ns : ℤ) : ℚ) := by
    push_cast
    ring
  rw [applyDrift_of_freq hstate, selectClockFreq_tscFreq hread, if_pos hends, hduration, hoffset,
    ← add_div, hsum, div_div_div_cancel_right₀ (by norm_num), mul_div_assoc]
  rfl

end ENode

namespace InFreq

variable {enter : Bool} {f : ℚ} {ts : Timespec} {msg : DriftMsg}

/-- What an answer leads to. -/
theorem post_of_drift (hs : t.IsStep (System.step b)) (h : InFreq enter f ts t.pre)
    (hmsg : msg ∈ t.act.drift?) :
    t.selects = some .freq ∧ t.post.monitor = t.pre.monitor ∧
      t.post.node = (t.pre.node.applyDrift msg).storeRecvd msg.count := by
  obtain ⟨payload, src, amb, hact, hdrift, rfl⟩ := Action.eq_recv_of_drift? hmsg
  refine ⟨?_, ?_, ?_⟩
  · rw [NodeStep.selects_of_drift hact hdrift, Passes.detect_of_ne_sync]
    · exact congrArg some h.nodeState
    · change t.pre.node.nodeState ≠ .sync
      simp [h.nodeState]
  · exact System.monitor_of_step hs (by simp [hact])
  · rw [NodeStep.post_of_drift hs hact hdrift, ENode.handleDrift_of_honest h.honest hdrift.2]

/-- An answer has read the clock. -/
theorem ns_readClock_of_drift (hs : t.IsStep (System.step b)) (h : InFreq enter f ts t.pre)
    (hmsg : msg ∈ t.act.drift?) : t.post.node.readClock.2.ns = t.post.node.tsRef.ns := by
  obtain ⟨_, htsc, htscOffset, htscRef⟩ := t.pre.node.applyDrift_reading msg
  have hstore := ENode.storeRecvd_sameClock (t.pre.node.applyDrift msg) msg.count
  apply ENode.ns_readClock_of_tscRef
  rw [(h.post_of_drift hs hmsg).2.2, hstore.tscRef, hstore.tscOffset, ENode.storeRecvd_tsc, htsc,
    htscOffset, htscRef]

/-- Other steps read the clock at most, and keep what the training needs. -/
theorem step_of_other (hs : t.IsStep (System.step b)) (h : InFreq enter f ts t.pre)
    (hother : t.act.drift? = none) : InFreq enter f ts t.post ∧
      (t.post.node.tsc = t.pre.node.tsc →
        t.post.node.readClock.2.ns = t.pre.node.readClock.2.ns) := by
  have hdrift (payload : List UInt8) (src : Addr) (amb : Ambient)
      (hact : t.act = .recv payload src amb) : ¬ IsDrift payload := by
    intro hdrift
    rw [hact, Action.drift?, driftMsg?, if_pos hdrift] at hother
    cases hother
  have hkeeps := (NodeStep.effect hs).keepsPass hdrift
  have htscFreq := NodeStep.tscFreq_post hs hdrift
  have hstarted : t.post.monitor ≠ .start := fun hpost =>
    h.started (NodeStep.start_of_post hs hpost).1
  have hkept (m : ENode) (hkeep : KeepsClock t.pre.node m) (htsc : t.post.node.tsc = m.tsc)
      (hfreq : t.post.node.nodeState = .freq) (hattacker : t.post.node.attacker = m.attacker)
      (htscOffset : t.post.node.tscOffset = m.tscOffset)
      (htscRef : t.post.node.tscRef = m.tscRef) (htsRef : t.post.node.tsRef = m.tsRef) :
      InFreq enter f ts t.post ∧ (t.post.node.tsc = t.pre.node.tsc →
        t.post.node.readClock.2.ns = t.pre.node.readClock.2.ns) := by
    refine ⟨⟨?_, hstarted, hfreq, ?_, ?_, ?_⟩, fun hsame => ?_⟩
    · exact hattacker.trans (hkeep.attacker.trans h.honest)
    · exact hkeeps.enterFreq.trans h.enterFreq
    · exact htscFreq.trans h.tscFreq
    · exact hkeeps.trainStartTs.trans h.trainStartTs
    · apply ENode.ns_readClock_of_reads hsame
      · exact htscOffset.trans (hkeep.tscOffset h.honest)
      · exact htscFreq
      · rw [htscRef, htsRef]
        exact hkeep.reads h.honest
  cases NodeStep.clockMove hs with
  | keep hkeep _ =>
      exact hkept _ hkeep rfl (hkeep.nodeState.trans h.nodeState) rfl rfl rfl rfl
  | start hpc _ _ _ => exact absurd hpc h.started
  | discalibrate _ m hkeep hpost =>
      rw [hpost] at hkept
      exact hpost ▸ hkept m hkeep rfl rfl rfl rfl rfl rfl
  | drift payload src amb hact hdrift' _ => exact absurd hdrift' (hdrift payload src amb hact)

/-- An answer in the middle of a training only reads the clock. -/
theorem step_of_continue (hs : t.IsStep (System.step b)) (h : InFreq false f ts t.pre)
    (hmsg : msg ∈ t.act.drift?) (hends : t.endsTraining = false) : InFreq false f ts t.post ∧
      (t.post.node.tsc = t.pre.node.tsc →
        t.post.node.readClock.2.ns = t.pre.node.readClock.2.ns) := by
  obtain ⟨hselects, hmonitor, hnode⟩ := h.post_of_drift hs hmsg
  rw [NodeStep.endsTraining, hselects, Option.isSome_some, Bool.true_and] at hends
  rw [ENode.applyDrift_of_continue h.nodeState h.enterFreq hends] at hnode
  refine ⟨⟨?_, ?_, ?_, ?_, ?_, ?_⟩, fun hsame => ?_⟩
  · exact hnode ▸ h.honest
  · exact hmonitor ▸ h.started
  · exact hnode ▸ h.nodeState
  · exact hnode ▸ h.enterFreq
  · exact hnode ▸ h.tscFreq
  · exact hnode ▸ h.trainStartTs
  · rw [hnode]
    exact ENode.ns_readClock_of_reads rfl rfl rfl (.inr ⟨rfl, rfl⟩)

theorem step (hs : t.IsStep (System.step b)) (h : InFreq enter f ts t.pre)
    (hcontinues : Continues enter t) : InFreq enter f ts t.post ∧
      (t.post.node.tsc = t.pre.node.tsc →
        t.post.node.readClock.2.ns = t.pre.node.readClock.2.ns) := by
  cases hmsg : t.act.drift? with
  | none => exact h.step_of_other hs hmsg
  | some msg =>
      have hselects := (h.post_of_drift hs hmsg).1
      obtain ⟨rfl, hends⟩ := hcontinues (by simp [hselects])
      exact h.step_of_continue hs hmsg hends

theorem run (hrun : NodeRun b s tr s') (h : InFreq enter f ts s)
    (hcontinues : ∀ t ∈ tr, Continues enter t) : InFreq enter f ts s' :=
  hrun.invariant_of (fun _ hs hcontinues h => (h.step hs hcontinues).1) hcontinues h

/-- As long as the TSC does not tick, the clock shows one time. -/
theorem ns_readClock_of_run (hrun : NodeRun b s tr s') (h : InFreq enter f ts s)
    (hcontinues : ∀ t ∈ tr, Continues enter t)
    (htsc : ∀ t ∈ tr, t.post.node.tsc = t.pre.node.tsc) :
    s'.node.readClock.2.ns = s.node.readClock.2.ns := by
  refine (hrun.invariant_of
    (I := fun u => InFreq enter f ts u ∧ u.node.readClock.2.ns = s.node.readClock.2.ns)
    (P := fun t => Continues enter t ∧ t.post.node.tsc = t.pre.node.tsc)
    (fun t hs ht hpre => ?_) (fun t ht => ⟨hcontinues t ht, htsc t ht⟩) ⟨h, rfl⟩).2
  obtain ⟨hpost, hsame⟩ := hpre.1.step hs ht.1
  exact ⟨hpost, (hsame ht.2).trans hpre.2⟩

/-- The time in an answer that took no time is the node's own. -/
theorem orgTs_of_instantaneous (hrun : NodeRun b s tr s') (h : InFreq enter f ts s)
    (hcontinues : ∀ t ∈ tr, Continues enter t) (hinstant : Instantaneous tr msg) :
    msg.orgTs.ns = s'.node.readClock.2.ns := by
  obtain ⟨before, q, between, rfl, _, horg, htsc⟩ := hinstant.node
  obtain ⟨hbefore, hq, hbetween⟩ := hrun.split_at
  have hpre : InFreq enter f ts q.pre := h.run hbefore fun u hu =>
    hcontinues u (List.mem_append_left _ hu)
  have hq' : NodeRun b q.pre [q] q.post := .snoc .refl hq
  rw [horg, hpre.ns_readClock_of_run (hq'.append hbetween)]
  · exact fun u hu => hcontinues u (List.mem_append_right _ hu)
  · exact htsc

/-- The answer that starts the training puts the clock right. -/
theorem start (hs : t.IsStep (System.step b)) (h : InFreq true f ts t.pre)
    (hmsg : msg ∈ t.act.drift?) (hnode : msg.orgTs.ns = t.pre.node.readClock.2.ns)
    (hauthority : msg.recTs.ns = msg.xmtTs.ns) :
    InFreq false f t.post.node.tsRef t.post ∧ t.post.node.tsRef.ns = msg.xmtTs.ns ∧
      t.post.node.readClock.2.ns = msg.xmtTs.ns := by
  obtain ⟨_, hmonitor, hpost⟩ := h.post_of_drift hs hmsg
  rw [ENode.applyDrift_of_start h.nodeState h.enterFreq] at hpost
  have hstep := ENode.ns_stepClock_of_instant hnode hauthority
  have htsRef : t.post.node.tsRef.ns = msg.xmtTs.ns := by
    rw [hpost]
    exact hstep
  refine ⟨⟨?_, ?_, ?_, ?_, ?_, ?_⟩, htsRef, ?_⟩
  · exact hpost ▸ h.honest
  · exact hmonitor ▸ h.started
  · exact hpost ▸ h.nodeState
  · rw [hpost]
    rfl
  · exact hpost ▸ h.tscFreq
  · rw [hpost]
    rfl
  · rw [h.ns_readClock_of_drift hs hmsg, htsRef]

/-- The one that ends it puts the clock right again, and the frequency. -/
theorem finish (hs : t.IsStep (System.step b)) (h : InFreq false f ts t.pre)
    (hmsg : msg ∈ t.act.drift?) (hends : t.endsTraining = true)
    (hnode : msg.orgTs.ns = t.pre.node.readClock.2.ns)
    (hauthority : msg.recTs.ns = msg.xmtTs.ns) :
    t.post.node.tscFreq = f * ((t.pre.node.readClock.2.ns - ts.ns : ℤ) : ℚ) /
        ((msg.xmtTs.ns - ts.ns : ℤ) : ℚ) ∧
      t.post.node.readClock.2.ns = msg.xmtTs.ns ∧ t.post.node.clockOffset = ⟨0, 0⟩ ∧
      t.post.node.nodeState = .sync := by
  obtain ⟨hselects, _, hpost⟩ := h.post_of_drift hs hmsg
  rw [NodeStep.endsTraining, hselects, Option.isSome_some, Bool.true_and] at hends
  have htscFreq := ENode.applyDrift_tscFreq h.nodeState hends hnode hauthority
  rw [h.tscFreq, h.trainStartTs] at htscFreq
  have hfreq : t.post.node.tscFreq = (t.pre.node.applyDrift msg).tscFreq := by
    rw [hpost]
    rfl
  rw [ENode.applyDrift_of_end h.nodeState hends] at hpost
  have hstep := ENode.ns_stepClock_of_instant hnode hauthority
  refine ⟨?_, ?_, ?_, ?_⟩
  · exact hfreq.trans htscFreq
  · rw [h.ns_readClock_of_drift hs hmsg, hpost]
    exact hstep
  · rw [hpost]
    rfl
  · rw [hpost]
    rfl

end InFreq

/-- An honest node in `FREQ_STATE`, its clock initialised, is trained from the answer `start` to the
    answer `stop`, whatever it handles in between. If these two exchanges take no time, the new
    frequency is the old one times the time that has passed on the node's clock over the time that
    has passed at the Time Authority, and the clock shows the Authority's time. -/
theorem training_recovers_rate {before mid : List NodeStep} {start stop : NodeStep}
    {msg₀ msg₁ : DriftMsg} (honest : s.node.attacker = false) (hclock : s.monitor ≠ .start)
    (hstate : s.node.nodeState = .freq) (henter : s.node.statics.enterFreq = true)
    (hrun : NodeRun b s (before ++ start :: (mid ++ [stop])) s')
    (hbefore : ∀ t ∈ before, t.act.drift? = none) (hstart : msg₀ ∈ start.act.drift?)
    (hmid : ∀ t ∈ mid, NodeStep.endsTraining t = false) (hstop : msg₁ ∈ stop.act.drift?)
    (hends : stop.endsTraining = true) (hinstant₀ : Instantaneous before msg₀)
    (hinstant₁ : Instantaneous mid msg₁) :
    s'.node.tscFreq = s.node.tscFreq *
        ((stop.pre.node.readClock.2.ns - start.post.node.readClock.2.ns : ℤ) : ℚ) /
          ((msg₁.xmtTs.ns - msg₀.xmtTs.ns : ℤ) : ℚ) ∧
      s'.node.readClock.2.ns = msg₁.xmtTs.ns ∧ s'.node.clockOffset = ⟨0, 0⟩ ∧
      s'.node.nodeState = .sync := by
  have hwaits : InFreq true s.node.tscFreq s.node.statics.trainStartTs s :=
    ⟨honest, hclock, hstate, henter, rfl, rfl⟩
  have hcontinues : ∀ t ∈ before, Continues true t := by
    intro t ht hselects
    exact absurd (NodeStep.selects_of_drift?_eq_none (hbefore t ht)) hselects
  obtain ⟨hrun₀, hs₀, hrest⟩ := hrun.split_at
  obtain ⟨hrun₁, hs₁, hlast⟩ := hrest.split_at
  obtain rfl : s' = stop.post := hlast.eq_of_nil
  have horg₀ := hwaits.orgTs_of_instantaneous hrun₀ hcontinues hinstant₀
  obtain ⟨htrains, htsRef, hclock₀⟩ :=
    (hwaits.run hrun₀ hcontinues).start hs₀ hstart horg₀ hinstant₀.authority
  have hcontinues₁ : ∀ t ∈ mid, Continues false t := fun t ht _ => ⟨rfl, hmid t ht⟩
  have horg₁ := htrains.orgTs_of_instantaneous hrun₁ hcontinues₁ hinstant₁
  have hfinish := (htrains.run hrun₁ hcontinues₁).finish hs₁ hstop hends horg₁ hinstant₁.authority
  rw [htsRef] at hfinish
  rwa [hclock₀]

namespace Scenario

/-- The node after the initialisation of its clock. -/
def clocked : System := { boot with node := requesting, monitor := .loop }

/-- An answer that the Time Authority has stamped once, at `ts`. -/
def instantAnswer (count : ℤ) (orgTs ts : Timespec) : List UInt8 :=
  buildDriftReply count 0 orgTs ts ts (List.replicate 16 0)

/-- 23 answers, and seven rounds of 500 ms that end with a drift request. -/
def trained : List Action :=
  List.replicate 23 (.recv (driftAnswer ⟨1005, 0⟩) ⟨"127.0.0.1", 12340⟩ (reading 0)) ++
    (List.range 7).flatMap fun i =>
      countingRound ((i + 10) * 1000000000) ((i + 11) * 1000000000)

/-- The step sends the drift request `count` at `tsc`, when the node's time is `orgTs`. -/
def AsksAt (tsc count : ℤ) (orgTs : Timespec) (q : NodeStep) : Prop :=
  q.act = .monitor (reading tsc) ∧
    q.events = [.sent ⟨⟨"127.0.0.1", 12340⟩, buildDrift count 0 orgTs ⟨0, 0⟩⟩] ∧
    q.pre.node.readClock.2 = orgTs ∧ q.post.node.tsc = q.pre.node.tsc

instance (tsc count : ℤ) (orgTs : Timespec) : DecidablePred (AsksAt tsc count orgTs) := fun q =>
  inferInstanceAs (Decidable (q.act = _ ∧ _ ∧ _ ∧ _))

theorem instantaneous_of_asksAt {tsc count : ℤ} {orgTs ts : Timespec} {past : List NodeStep}
    (h : ∃ q ∈ past.getLast?, AsksAt tsc count orgTs q) :
    Instantaneous past ⟨count, 0, orgTs, ts, ts⟩ := by
  obtain ⟨q, hlast, hact, hevents, horg, htsc⟩ := h
  obtain ⟨before, rfl⟩ := List.getLast?_eq_some_iff.mp hlast
  refine ⟨rfl, before, q, [], rfl, ⟨⟨_, hact⟩, ?_⟩, congrArg Timespec.ns horg.symm, ?_⟩
  · rw [hevents]
    exact ⟨_, List.mem_singleton_self _⟩
  · intro u hu
    rw [List.mem_singleton.mp hu]
    exact htsc

end Scenario

set_option maxRecDepth 10000 in
open Scenario in
/-- The theorem at a node that is two seconds behind and sees half of the Authority's time pass. -/
theorem training_recovers_rate_slow :
    ∃ tr s, NodeRun .aexNotify Scenario.clocked tr s ∧ s.node.tscFreq = 1 ∧
      s.node.readClock.2.ns = 1014000000000 ∧ s.node.nodeState = .sync := by
  obtain ⟨before, start, mid, stop, hrun, hact₀, hact₁, hs⟩ :=
    exists_steps_of_exec (System.step .aexNotify) clocked (calibrated.drop 3)
      (.recv (instantAnswer 0 ⟨1005, 0⟩ ⟨1007, 0⟩) ⟨"127.0.0.1", 12340⟩ (reading 0)) trained
      (.recv (instantAnswer 1 ⟨1010, 500000000⟩ ⟨1014, 0⟩) ⟨"127.0.0.1", 12340⟩ (reading 0))
      (fun before start mid stop =>
        (∀ t ∈ before, t.act.drift? = none) ∧
          (∀ t ∈ mid, NodeStep.endsTraining t = false) ∧ NodeStep.endsTraining stop = true ∧
          (∃ q ∈ before.getLast?, AsksAt 0 0 ⟨1005, 0⟩ q) ∧
          (∃ q ∈ mid.getLast?, AsksAt 17000000000 1 ⟨1010, 500000000⟩ q) ∧
          stop.pre.node.readClock.2 = ⟨1010, 500000000⟩ ∧
          start.post.node.readClock.2 = ⟨1007, 0⟩) (by decide +kernel)
  obtain ⟨hbefore, hmid, hends, hasks₀, hasks₁, horg₁, horg₀⟩ := hs
  have hstart : (⟨0, 0, ⟨1005, 0⟩, ⟨1007, 0⟩, ⟨1007, 0⟩⟩ : DriftMsg) ∈ start.act.drift? := by
    rw [hact₀]
    decide +kernel
  have hstop : (⟨1, 0, ⟨1010, 500000000⟩, ⟨1014, 0⟩, ⟨1014, 0⟩⟩ : DriftMsg) ∈
      stop.act.drift? := by
    rw [hact₁]
    decide +kernel
  obtain ⟨hfreq, hclock, _, hsync⟩ := training_recovers_rate (s := clocked) rfl
    (by simp [clocked]) rfl rfl hrun hbefore hstart hmid hstop hends
    (instantaneous_of_asksAt hasks₀) (instantaneous_of_asksAt hasks₁)
  refine ⟨_, _, hrun, ?_, hclock, hsync⟩
  rw [hfreq, horg₁, horg₀]
  decide +kernel

end TriHaRd
