-- SUMMARY: When an answer of the Time Authority that the node did not ask for leaves its clock alone.
import TriHaRd.Clock.Moves
import Mathlib.Tactic.MkIffOfInductiveProp

/-!
# Unsolicited answers

Case 'D' stores the count of an answer and compares it with nothing, so an answer
that was not asked for, or that has been handled before, drives `select_clock`
like any other. Whether it then changes something depends on the state and on the
offset that the answer gives.
-/

namespace TriHaRd

open Lts

/-! ## Requests and answers -/

/-- The members of a 'D' message, if it is well-formed. -/
def driftMsg? (payload : List UInt8) : Option DriftMsg :=
  if IsDrift payload then some (readDrift payload) else none

/-- The answer that the action handles. -/
def Action.drift? : Action → Option DriftMsg
  | .recv payload _ _ => driftMsg? payload
  | _ => none

theorem Action.eq_recv_of_drift? {a : Action} {msg : DriftMsg} (h : msg ∈ a.drift?) :
    ∃ payload src amb, a = .recv payload src amb ∧ IsDrift payload ∧ msg = readDrift payload := by
  cases a with
  | recv payload src amb =>
      simp only [drift?, driftMsg?, Option.mem_def, Option.ite_none_right_eq_some,
        Option.some.injEq] at h
      exact ⟨payload, src, amb, rfl, h.1, h.2.symm⟩
  | _ => cases h

/-- The step sends the drift request `count`. -/
def NodeStep.requests (t : NodeStep) (count : ℤ) : Bool :=
  t.events.any fun
    | .sent q => (driftMsg? q.payload).any fun msg => msg.count == count
    | _ => false

/-- The step handles an answer to the drift request `count`. -/
def NodeStep.answers (t : NodeStep) (count : ℤ) : Bool :=
  t.act.drift?.any fun msg => msg.count == count

/-- The request `count` has been sent and not been answered since. -/
def outstanding (count : ℤ) (past : List NodeStep) : Bool :=
  past.foldl (fun waits t =>
    if t.requests count then true else if t.answers count then false else waits) false

/-! ## What an offset changes -/

/-- `s'` has the clock of `s`, its states and the members that discipline it. -/
@[mk_iff]
structure Unmoved (s s' : ENode) : Prop where
  tsRef : s'.tsRef = s.tsRef
  nodeState : s'.nodeState = s.nodeState
  clockState : s'.clockState = s.clockState
  tscFreq : s'.tscFreq = s.tscFreq
  pollExponent : s'.pollExponent = s.pollExponent
  calibCount : s'.calibCount = s.calibCount

instance (s s' : ENode) : Decidable (Unmoved s s') := decidable_of_iff' _ (unmoved_iff s s')

/-- The offset that `s` has stored changes nothing: in `FREQ_STATE` it neither begins the
    training with a step nor ends it; in `SPIK_STATE` it neither is small nor has lasted; in
    `SYNC_STATE` it does not ask for a step, and is zero or comes with the last update.
    Outside `FREQ_STATE` it also agrees with the verdict on the clock. -/
def Inert (s : ENode) : Prop :=
  match s.nodeState with
  | .freq =>
    if s.statics.enterFreq then s.clockOffset.ns = 0
    else s.statics.passCount + s.timeConstant < stepOutThresholdS
  | .spik =>
    clockFloorNs < s.clockOffset.ns ∧ s.statics.passCount + s.timeConstant < stepOutThresholdS ∧
      s.clockState = s.verdict
  | .sync =>
    s.clockOffset.ns ≤ 0 ∧ (s.clockOffset.ns = 0 ∨ s.sinceUpdate.ns = 0) ∧
      s.clockState = s.verdict

/-- The exponent that the end of the training sets, and nothing changes after it. -/
def Trained (s : ENode) : Prop := s.nodeState ≠ .freq → s.pollExponent = minPollExponent

namespace ENode

theorem stepClock_tsRef_eq_iff {s : ENode} (hnormal : s.tsRef.Normal) :
    s.stepClock.tsRef = s.tsRef ↔ s.clockOffset.ns = 0 := by
  have hstep := s.ns_stepClock
  constructor
  · intro heq
    rw [heq] at hstep
    omega
  · intro hzero
    apply (Timespec.normal_add _ _).ext hnormal
    change s.stepClock.tsRef.ns = s.tsRef.ns
    omega

/-- At the exponent of a trained node, only the PLL term counts. -/
theorem freqCorrection_eq_zero_iff {s : ENode} (h : s.pollExponent = minPollExponent) :
    s.freqCorrection = 0 ↔ s.clockOffset.ns = 0 ∨ s.sinceUpdate.ns = 0 := by
  have hfll : ¬ minPollExponent ≥ allanIntercept := by decide
  unfold freqCorrection
  rw [h]
  dsimp only
  have hdtemp : (4 * clockPll * 2 ^ minPollExponent : ℚ) ≠ 0 := by
    norm_num [clockPll, minPollExponent]
  have hns (ts : Timespec) : ts.toDouble = 0 ↔ ts.ns = 0 := by
    simp [Timespec.toDouble_eq_ns]
  have hetemp : min (2 ^ allanIntercept) s.sinceUpdate.toDouble = 0 ↔
      s.sinceUpdate.toDouble = 0 := by
    have hpos : (0 : ℚ) < 2 ^ allanIntercept := by positivity
    rcases le_total (2 ^ allanIntercept : ℚ) s.sinceUpdate.toDouble with hle | hle
    · rw [min_eq_left hle]
      exact iff_of_false hpos.ne' (hpos.trans_le hle).ne'
    · rw [min_eq_right hle]
  rw [if_neg hfll, zero_add, div_eq_zero_iff, or_iff_left (mul_ne_zero hdtemp hdtemp),
    mul_eq_zero, hetemp, hns, hns]

theorem unmoved_applyOffset_freq {s : ENode} (hfreq : s.nodeState = .freq)
    (hnormal : s.tsRef.Normal) : Unmoved s s.applyOffset ↔ Inert s := by
  have hinert : Inert s ↔ if s.statics.enterFreq then s.clockOffset.ns = 0
      else s.statics.passCount + s.timeConstant < stepOutThresholdS := by
    simp only [Inert, hfreq]
  rw [hinert, applyOffset_of_freq hfreq]
  unfold selectClockFreq
  dsimp only
  split_ifs with henter hpass
  · have hstep := s.stepClock_tsRef_eq_iff hnormal
    exact ⟨fun h => hstep.mp h.tsRef, fun h => ⟨hstep.mpr h, rfl, rfl, rfl, rfl, rfl⟩⟩
  · refine ⟨fun h => ?_, fun h => absurd hpass (not_le.mpr h)⟩
    have hsync : NodeState.sync = s.nodeState := h.nodeState
    rw [hfreq] at hsync
    cases hsync
  · exact ⟨fun _ => not_le.mp hpass, fun _ => ⟨rfl, rfl, rfl, rfl, rfl, rfl⟩⟩

theorem unmoved_applyOffset_spik {s : ENode} (hspik : s.nodeState = .spik) :
    Unmoved s s.applyOffset ↔ Inert s := by
  have hinert : Inert s ↔ clockFloorNs < s.clockOffset.ns ∧
      s.statics.passCount + s.timeConstant < stepOutThresholdS ∧ s.clockState = s.verdict := by
    simp only [Inert, hspik]
  have hselect : s.applyOffset = { s with clockState := s.verdict }.selectClockSpik := by
    rw [applyOffset, judged_of_spik hspik]
    simp only [selectClock, hspik]
  rw [hinert, hselect]
  unfold selectClockSpik
  dsimp only
  have hleave {m : ENode} (hsync : m.nodeState = .sync) : ¬ Unmoved s m := by
    intro h
    have hstate := h.nodeState
    rw [hsync, hspik] at hstate
    cases hstate
  have hfloor : s.clockOffset ≤ ⟨0, clockFloorNs⟩ ↔ ¬ clockFloorNs < s.clockOffset.ns := by
    rw [Timespec.le_iff_ns, not_lt]
    simp [Timespec.ns]
  split_ifs with hsmall hpass
  · exact iff_of_false (hleave rfl) fun h => hfloor.mp hsmall h.1
  · exact iff_of_false (hleave rfl) fun h => absurd hpass (not_le.mpr h.2.1)
  · constructor
    · intro h
      exact ⟨not_not.mp fun hsmall' => hsmall (hfloor.mpr hsmall'), not_le.mp hpass,
        h.clockState.symm⟩
    · intro h
      exact ⟨rfl, rfl, h.2.2.symm, rfl, rfl, rfl⟩

theorem selectClockSync_clockState (s : ENode) : s.selectClockSync.clockState = s.clockState := by
  unfold selectClockSync disciplineClock
  dsimp only
  split <;> rfl

theorem selectClockSync_tscFreq (s : ENode) :
    s.selectClockSync.tscFreq = s.tscFreq - s.freqCorrection := by
  unfold selectClockSync disciplineClock
  dsimp only
  split <;> rfl

theorem selectClockSync_tsRef (s : ENode) :
    s.selectClockSync.tsRef = if s.clockOffset > ⟨0, 0⟩ then s.stepClock.tsRef else s.tsRef := by
  unfold selectClockSync disciplineClock
  dsimp only
  split <;> rfl

theorem selectClockSync_keeps (s : ENode) :
    s.selectClockSync.nodeState = s.nodeState ∧ s.selectClockSync.pollExponent = s.pollExponent ∧
      s.selectClockSync.calibCount = s.calibCount := by
  unfold selectClockSync disciplineClock
  dsimp only
  split <;> exact ⟨rfl, rfl, rfl⟩

/-- Disciplining the clock changes nothing if it neither steps it nor corrects its frequency. -/
theorem unmoved_selectClockSync (s : ENode) :
    Unmoved s s.selectClockSync ↔ s.clockOffset.ns ≤ 0 ∧ s.freqCorrection = 0 := by
  have hpos : s.clockOffset > ⟨0, 0⟩ ↔ 0 < s.clockOffset.ns :=
    Timespec.lt_iff_ns ⟨0, 0⟩ s.clockOffset
  have htsRef := s.selectClockSync_tsRef
  have htscFreq := s.selectClockSync_tscFreq
  constructor
  · intro h
    refine ⟨?_, ?_⟩
    · by_contra hoffset
      rw [h.tsRef, if_pos (hpos.mpr (not_le.mp hoffset))] at htsRef
      have hstep := s.ns_stepClock
      rw [← htsRef] at hstep
      omega
    · rw [h.tscFreq] at htscFreq
      linarith
  · rintro ⟨hoffset, hcorrection⟩
    obtain ⟨hnodeState, hpollExponent, hcalibCount⟩ := s.selectClockSync_keeps
    rw [if_neg fun h => absurd (hpos.mp h) (not_lt.mpr hoffset)] at htsRef
    rw [hcorrection, sub_zero] at htscFreq
    exact ⟨htsRef, hnodeState, s.selectClockSync_clockState, htscFreq, hpollExponent,
      hcalibCount⟩

theorem unmoved_applyOffset_sync {s : ENode} (hsync : s.nodeState = .sync)
    (hpoll : s.pollExponent = minPollExponent) : Unmoved s s.applyOffset ↔ Inert s := by
  have hinert : Inert s ↔ s.clockOffset.ns ≤ 0 ∧
      (s.clockOffset.ns = 0 ∨ s.sinceUpdate.ns = 0) ∧ s.clockState = s.verdict := by
    simp only [Inert, hsync]
  rw [hinert, ← freqCorrection_eq_zero_iff hpoll]
  by_cases hspike : s.clockOffset ≥ ⟨0, stepThresholdNs⟩
  case pos =>
    -- a spike changes the state or, if it has lasted, the clock
    have hlarge : stepThresholdNs ≤ s.clockOffset.ns := by
      simpa [Timespec.ns] using (Timespec.le_iff_ns ⟨0, stepThresholdNs⟩ s.clockOffset).mp hspike
    have hfloor : ¬ s.clockOffset ≤ ⟨0, clockFloorNs⟩ := by
      rw [Timespec.le_iff_ns, not_le]
      simp only [Timespec.ns, clockFloorNs, stepThresholdNs] at hlarge ⊢
      omega
    have hselect : s.applyOffset =
        { s with nodeState := .spik, clockState := s.verdict }.selectClockSpik := by
      rw [applyOffset, judged_of_spike hsync hspike]
      rfl
    refine iff_of_false (fun h => ?_) fun h => ?_
    · have hstate := h.nodeState
      have hclock := h.tsRef
      rw [hselect] at hstate hclock
      unfold selectClockSpik at hstate hclock
      rw [if_neg hfloor] at hstate hclock
      split_ifs at hstate hclock
      · have hstep := s.ns_stepClock
        have hns : s.stepClock.tsRef.ns = s.tsRef.ns := congrArg Timespec.ns hclock
        rw [stepThresholdNs] at hlarge
        omega
      · rw [hsync] at hstate
        cases hstate
    · rw [stepThresholdNs] at hlarge
      omega
  case neg =>
    have hselect : s.applyOffset = { s with clockState := s.verdict }.selectClockSync := by
      rw [applyOffset, judged_of_sync hsync hspike]
      simp only [selectClock, hsync]
    have hclock := unmoved_selectClockSync { s with clockState := s.verdict }
    have hstate := selectClockSync_clockState { s with clockState := s.verdict }
    rw [hselect]
    generalize { s with clockState := s.verdict }.selectClockSync = m at hclock hstate ⊢
    constructor
    · intro h
      have hverdict : s.verdict = s.clockState := hstate.symm.trans h.clockState
      obtain ⟨hoffset, hcorrection⟩ := hclock.mp
        ⟨h.tsRef, h.nodeState, hstate, h.tscFreq, h.pollExponent, h.calibCount⟩
      exact ⟨hoffset, hcorrection, hverdict.symm⟩
    · rintro ⟨hoffset, hcorrection, hverdict⟩
      have h := hclock.mpr ⟨hoffset, hcorrection⟩
      exact ⟨h.tsRef, h.nodeState, hstate.trans hverdict.symm, h.tscFreq, h.pollExponent,
        h.calibCount⟩

theorem unmoved_applyOffset_iff {s : ENode} (hnormal : s.tsRef.Normal) (htrained : Trained s) :
    Unmoved s s.applyOffset ↔ Inert s := by
  cases hstate : s.nodeState with
  | sync => exact unmoved_applyOffset_sync hstate (htrained (by simp [hstate]))
  | spik => exact unmoved_applyOffset_spik hstate
  | freq => exact unmoved_applyOffset_freq hstate hnormal

/-- The training ends at the exponent of `SYNC_STATE`, and outside it the exponent stays. -/
theorem trained_applyOffset {s : ENode} (h : Trained s) : Trained s.applyOffset := by
  by_cases hfreq : s.nodeState = .freq
  · rw [applyOffset_of_freq hfreq]
    unfold selectClockFreq
    dsimp only
    split_ifs
    · exact fun hstate => absurd hfreq hstate
    · exact fun _ => rfl
    · exact fun hstate => absurd hfreq hstate
  · have hjudged := judged_nodeState_ne_freq hfreq
    intro _
    rw [applyOffset, selectClock_pollExponent hjudged, judged_pollExponent]
    exact h hfreq

theorem trained_applyDrift {s : ENode} (h : Trained s) (msg : DriftMsg) :
    Trained (s.applyDrift msg) :=
  trained_applyOffset (s := s.readOffset msg) h

theorem unmoved_applyDrift_iff {s : ENode} (htrained : Trained s) (msg : DriftMsg) :
    Unmoved s.readClock.1 (s.applyDrift msg) ↔ Inert (s.readOffset msg) := by
  rw [← unmoved_applyOffset_iff (s := s.readOffset msg) s.normal_readClock htrained,
    unmoved_iff, unmoved_iff]
  exact Iff.rfl

/-- Storing the count of the answer does not matter. -/
theorem unmoved_storeRecvd_iff (s m : ENode) (count : ℤ) :
    Unmoved s (m.storeRecvd count) ↔ Unmoved s m := by
  rw [unmoved_iff, unmoved_iff]
  exact Iff.rfl

end ENode

theorem Trained.shadow {s : ENode} (h : Trained s) (osTime : Timespec) :
    Trained (s.shadowTscUpdate osTime).1 := by
  rw [Trained, ENode.shadowTscUpdate_nodeState, ENode.shadowTscUpdate_pollExponent]
  exact h

theorem Trained.step {b : Build} {t : NodeStep} (hs : t.IsStep (System.step b))
    (h : Trained t.pre.node) : Trained t.post.node := by
  cases NodeStep.clockMove hs with
  | keep hkeep _ =>
      rw [Trained, hkeep.nodeState, hkeep.pollExponent]
      exact h
  | start _ amb _ hpost =>
      rw [hpost]
      exact h
  | discalibrate _ m _ hpost =>
      rw [hpost]
      exact fun hstate => absurd rfl hstate
  | drift payload src amb _ hdrift hpost =>
      generalize hmsg : readDrift payload = msg
      have hstore := ENode.storeRecvd_sameClock
        ((t.pre.node.shadowTscUpdate amb.osTime).1.applyDrift msg) msg.count
      have happly := ENode.trained_applyDrift (h.shadow amb.osTime) msg
      rw [hpost, ENode.handleDrift_of_length hdrift.2, hmsg, Trained, hstore.nodeState,
        hstore.pollExponent]
      exact happly

theorem trained_of_initial {s : System} (h : s.Initial) : Trained s.node := by
  obtain ⟨_, _, _, _, _, _, _, rfl⟩ := h
  exact fun hstate => absurd rfl hstate

/-! ## Runs -/

/-- An answer that no outstanding request asked for has no effect on the clock but the read. -/
def UnsolicitedUnmoved (past : List NodeStep) (t : NodeStep) : Prop :=
  ∀ msg ∈ t.act.drift?, outstanding msg.count past = false →
    Unmoved t.pre.node.readClock.1 t.post.node

/-- Such an answer comes when its offset changes nothing. -/
def UnsolicitedInert (past : List NodeStep) (t : NodeStep) : Prop :=
  ∀ msg ∈ t.act.drift?, outstanding msg.count past = false →
    Inert (t.pre.node.readOffset msg)

theorem NodeStep.unmoved_iff_inert {b : Build} {t : NodeStep} {msg : DriftMsg}
    (hs : t.IsStep (System.step b)) (honest : Unshifted t.pre.node) (htrained : Trained t.pre.node)
    (hmsg : msg ∈ t.act.drift?) :
    Unmoved t.pre.node.readClock.1 t.post.node ↔ Inert (t.pre.node.readOffset msg) := by
  obtain ⟨payload, src, amb, hact, hdrift, rfl⟩ := Action.eq_recv_of_drift? hmsg
  rw [NodeStep.post_of_drift hs hact hdrift, ENode.handleDrift_of_honest honest.1 hdrift.2,
    ENode.unmoved_storeRecvd_iff, ENode.unmoved_applyDrift_iff htrained]

/-- In every run of an honest node, no unsolicited answer changes the clock exactly when each
    of them comes when its offset changes nothing. -/
theorem unsolicited_unmoved_iff {b : Build} {s₀ s : System} {tr : List NodeStep}
    (hinit : s₀.Initial) (honest : s₀.node.attacker = false) (hrun : NodeRun b s₀ tr s) :
    EachStep UnsolicitedUnmoved tr ↔ EachStep UnsolicitedInert tr := by
  refine hrun.eachStep_iff (I := fun _ s => Unshifted s.node ∧ Trained s.node)
    ⟨unshifted_of_initial hinit honest, trained_of_initial hinit⟩ (fun past t hs h => ?_)
    fun past t hs h _ => ⟨h.1.step hs, h.2.step hs⟩
  refine forall₂_congr fun msg hmsg => imp_congr_right fun _ => ?_
  exact NodeStep.unmoved_iff_inert hs h.1 h.2 hmsg

instance (past : List NodeStep) (t : NodeStep) : Decidable (UnsolicitedUnmoved past t) :=
  inferInstanceAs (Decidable (∀ msg ∈ t.act.drift?, outstanding msg.count past = false → _))

instance : DecidablePred (Function.uncurry UnsolicitedUnmoved) := fun (past, t) =>
  inferInstanceAs (Decidable (UnsolicitedUnmoved past t))

/-- The calibrated node asks the Time Authority once, and the answer to it is delivered
    `copies` times. -/
def Scenario.replayed (copies : ℕ) : List Action :=
  calibrated ++
    List.replicate copies (.recv (driftAnswer ⟨1005, 0⟩) ⟨"127.0.0.1", 12340⟩ (reading 0))

set_option maxRecDepth 10000 in
open Scenario in
/-- The theorem at 23 replays, which the training ignores. -/
theorem unsolicited_unmoved_iff_replayed :
    ∃ tr s, NodeRun .aexNotify Scenario.boot tr s ∧ s.node.statics.passCount = 96 ∧
      EachStep UnsolicitedInert tr := by
  obtain ⟨tr, s, hrun, hs⟩ := exists_run_of_exec (System.step .aexNotify) Scenario.boot
    (replayed 24)
    (fun tr s => s.node.statics.passCount = 96 ∧ EachStep UnsolicitedUnmoved tr)
    (by decide +kernel)
  obtain ⟨hpass, hunmoved⟩ := hs
  exact ⟨tr, s, hrun, hpass, (unsolicited_unmoved_iff initial_boot rfl hrun).mp hunmoved⟩

set_option maxRecDepth 10000 in
open Scenario in
/-- One more replay, half a second later, ends the training with twice the frequency. -/
theorem replay_trains :
    ¬ ∀ (b : Build) (s₀ s : System) (tr : List NodeStep), s₀.Initial → s₀.node.attacker = false →
        NodeRun b s₀ tr s → EachStep UnsolicitedUnmoved tr := by
  intro h
  obtain ⟨tr, t, hrun, hstep, -, ht⟩ := exists_step_of_exec (System.step .aexNotify)
    Scenario.boot
    (replayed 24 ++ [.monitor (reading 10000000000), .monitor (reading 11000000000)])
    (.recv (driftAnswer ⟨1005, 0⟩) ⟨"127.0.0.1", 12340⟩ (reading 0))
    (fun tr t => ¬ UnsolicitedUnmoved tr t ∧ t.post.node.nodeState = .sync ∧
      t.post.node.tscFreq = 2 * t.pre.node.tscFreq) (by decide +kernel)
  obtain ⟨hmoved, _⟩ := ht
  exact hmoved (h .aexNotify _ _ _ initial_boot rfl (.snoc hrun hstep)).last

end TriHaRd
