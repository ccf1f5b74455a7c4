-- SUMMARY: When spikes of the clock offset are handled alike for both signs, and by how much one answer moves the frequency.
import TriHaRd.Clock.Frequency
import TriHaRd.Clock.Offset
import TriHaRd.Clock.Passes

/-!
# Spikes

An offset of `STEP_THRESHOLD_NS` or more in `SYNC_STATE` is a spike: it sends the
node to `SPIK_STATE` and does not reach the frequency. Small offsets lead back.
Both comparisons are made on the signed offset, so that an offset far below zero
is no spike, and counts as small.

Nothing is said about answers whose timestamps lie so far apart that the sums over
them leave the 64 bits of `time_t`.
-/

namespace TriHaRd

open Lts Truncate

/-- What the PLL adds for an offset of `STEP_THRESHOLD_NS` after the Allan intercept. -/
def pllBound (pollExponent : ℕ) : ℚ :=
  stepThresholdNs / 1000000000 * 2 ^ allanIntercept / (4 * clockPll * 2 ^ pollExponent) ^ 2

/-- `s` has handled a Drift message and is now `s'`, and `r` is the node in between, when it has
    stored the offset. Spikes count in both directions. -/
@[mk_iff]
structure SymmetricIn (s r s' : ENode) : Prop where
  spike : s.nodeState = .sync → stepThresholdNs ≤ |r.clockOffset.ns| →
    s'.nodeState = .spik ∧ s'.tscFreq = s.tscFreq
  freq : s.nodeState = .sync → |s'.tscFreq - s.tscFreq| < pllBound s.pollExponent
  floor : s.nodeState = .spik → s'.nodeState = .sync → s'.tsRef = r.tsRef →
    |r.clockOffset.ns| ≤ clockFloorNs

/-- Every transition to `SYNC_STATE` resets the pass counter, and nothing counts there. -/
def PassReset (s : ENode) : Prop := s.nodeState = .sync → s.statics.passCount = 0

namespace ENode

-- ---------------------------------------------------------------------------
-- The correction of the frequency
-- ---------------------------------------------------------------------------

/-- By how many nanoseconds `last_update_tsc` lies ahead of the TSC. -/
def updateAheadNs (s : ENode) : ℤ := -truncate ((s.tsc - s.lastUpdateTsc : ℤ) / s.tscFreq)

theorem sinceUpdate_toDouble (s : ENode) :
    s.sinceUpdate.toDouble = -s.updateAheadNs / 1000000000 := by
  rw [Timespec.toDouble_eq_ns, sinceUpdate, Timespec.ns_addNsec, Timespec.ns_zero, zero_add,
    updateAheadNs]
  push_cast
  ring

theorem pllBound_pos (pollExponent : ℕ) : 0 < pllBound pollExponent := by
  have hpll : (0 : ℚ) < clockPll := by norm_num [clockPll]
  have hthreshold : (0 : ℚ) < stepThresholdNs := by norm_num [stepThresholdNs]
  unfold pllBound
  positivity

/-- What the PLL weighs the offset with is no more than the Allan intercept, in the direction of
    time. -/
theorem abs_mul_min_lt_iff {o u : ℤ} (ho : |o| < stepThresholdNs) :
    |(o : ℚ) / 1000000000 * min (2 ^ allanIntercept) (-(u : ℚ) / 1000000000)| <
        stepThresholdNs / 1000000000 * 2 ^ allanIntercept ↔
      |o| * u < stepThresholdNs * (2 ^ allanIntercept * 1000000000) := by
  have hthreshold : stepThresholdNs = 128000000 := rfl
  have hallan : allanIntercept = 11 := rfl
  have ho' : |(o : ℚ)| < 128000000 := by
    rw [hthreshold] at ho
    exact_mod_cast ho
  rw [hthreshold, hallan, abs_mul, abs_div]
  rcases le_or_gt u 0 with hu | hu
  · have hu' : (0 : ℚ) ≤ -u := by exact_mod_cast neg_nonneg.mpr hu
    have hmin : |min (2 ^ 11 : ℚ) (-(u : ℚ) / 1000000000)| ≤ 2 ^ 11 := by
      rw [abs_of_nonneg (le_min (by norm_num) (by positivity))]
      exact min_le_left _ _
    refine iff_of_true ?_ ?_
    · calc |(o : ℚ)| / |1000000000| * |min (2 ^ 11 : ℚ) (-(u : ℚ) / 1000000000)|
          ≤ |(o : ℚ)| / |1000000000| * 2 ^ 11 := by gcongr
        _ < ((128000000 : ℤ) : ℚ) / 1000000000 * 2 ^ 11 := by
          rw [abs_of_pos (by norm_num : (0 : ℚ) < 1000000000)]
          norm_num at ho' ⊢
          linarith
    · exact (mul_nonpos_of_nonneg_of_nonpos (abs_nonneg o) hu).trans_lt (by norm_num)
  · have hu' : (0 : ℚ) < u := by exact_mod_cast hu
    have hmin : min (2 ^ 11 : ℚ) (-(u : ℚ) / 1000000000) = -u / 1000000000 := by
      refine min_eq_right (le_trans (b := 0) ?_ (by norm_num))
      exact div_nonpos_of_nonpos_of_nonneg (neg_nonpos.mpr hu'.le) (by norm_num)
    rw [hmin, abs_div, abs_neg, abs_of_pos hu', abs_of_pos (by norm_num : (0 : ℚ) < 1000000000),
      div_mul_div_comm, div_lt_iff₀ (by norm_num), ← Int.cast_abs]
    norm_num
    norm_cast

/-- An offset that is no spike keeps to the bound, unless the TSC has been set back too far. -/
theorem abs_freqCorrection_lt_iff {s : ENode} (hpoll : s.pollExponent = minPollExponent)
    (hoffset : |s.clockOffset.ns| < stepThresholdNs) :
    |s.freqCorrection| < pllBound s.pollExponent ↔
      |s.clockOffset.ns| * s.updateAheadNs <
        stepThresholdNs * (2 ^ allanIntercept * 1000000000) := by
  have hfll : ¬ s.pollExponent ≥ allanIntercept := by
    rw [hpoll]
    decide
  have hdtemp : (0 : ℚ) < (4 * clockPll * 2 ^ s.pollExponent) ^ 2 := by
    have hpos : (0 : ℚ) < clockPll := by norm_num [clockPll]
    positivity
  rw [← abs_mul_min_lt_iff hoffset]
  unfold freqCorrection pllBound
  dsimp only
  rw [if_neg hfll, zero_add, ← sq, abs_div, abs_of_pos hdtemp, div_lt_div_iff_of_pos_right hdtemp,
    sinceUpdate_toDouble, Timespec.toDouble_eq_ns]

-- ---------------------------------------------------------------------------
-- What an offset leads to
-- ---------------------------------------------------------------------------

theorem spike_iff_ns (s : ENode) :
    s.clockOffset ≥ ⟨0, stepThresholdNs⟩ ↔ stepThresholdNs ≤ s.clockOffset.ns := by
  rw [ge_iff_le, Timespec.le_iff_ns]
  simp [Timespec.ns]

theorem small_iff_ns (s : ENode) :
    s.clockOffset ≤ ⟨0, clockFloorNs⟩ ↔ s.clockOffset.ns ≤ clockFloorNs := by
  rw [Timespec.le_iff_ns]
  simp [Timespec.ns]

theorem applyOffset_of_spike {s : ENode} (hsync : s.nodeState = .sync) (htrained : Trained s)
    (hpass : PassReset s) (hspike : stepThresholdNs ≤ s.clockOffset.ns) :
    s.applyOffset.nodeState = .spik ∧ s.applyOffset.tscFreq = s.tscFreq := by
  have hpoll : s.pollExponent = 6 := htrained (by simp [hsync])
  have hcount : s.statics.passCount = 0 := hpass hsync
  have hsmall : ¬ s.clockOffset ≤ ⟨0, clockFloorNs⟩ := by
    rw [small_iff_ns]
    exact fun hle => absurd (hspike.trans hle) (by decide)
  rw [applyOffset, judged_of_spike hsync (s.spike_iff_ns.mpr hspike)]
  simp only [selectClock, selectClockSpik, timeConstant, hpoll, hcount, if_neg hsmall]
  rw [if_neg (by decide)]
  exact ⟨rfl, rfl⟩

theorem applyOffset_of_no_spike {s : ENode} (hsync : s.nodeState = .sync)
    (hspike : ¬ stepThresholdNs ≤ s.clockOffset.ns) :
    s.applyOffset.nodeState = .sync ∧ s.applyOffset.tscFreq = s.tscFreq - s.freqCorrection := by
  rw [applyOffset, judged_of_sync hsync (s.spike_iff_ns.not.mpr hspike)]
  have hselect : ({ s with clockState := s.verdict } : ENode).selectClock =
      ({ s with clockState := s.verdict } : ENode).selectClockSync := by
    simp only [selectClock, hsync]
  rw [hselect]
  exact ⟨(selectClockSync_keeps _).1.trans hsync, selectClockSync_tscFreq _⟩

/-- `SPIK_STATE` is left without a step exactly if the offset is small in the signed order. -/
theorem applyOffset_of_spik {s : ENode} (hspik : s.nodeState = .spik) :
    s.applyOffset.nodeState = .sync ∧ s.applyOffset.tsRef = s.tsRef ↔
      s.clockOffset.ns ≤ clockFloorNs := by
  have hselect : ({ s with clockState := s.verdict } : ENode).selectClock =
      ({ s with clockState := s.verdict } : ENode).selectClockSpik := by
    simp only [selectClock, hspik]
  rw [applyOffset, judged_of_spik hspik, hselect, ← small_iff_ns]
  unfold selectClockSpik
  dsimp only
  split_ifs with hsmall hlasted
  · exact iff_of_true ⟨rfl, rfl⟩ hsmall
  · refine iff_of_false (fun h => ?_) hsmall
    have hstep := s.ns_stepClock
    have hkept : s.stepClock.tsRef = s.tsRef := h.2
    rw [small_iff_ns, not_le] at hsmall
    have hfloor : (0 : ℤ) ≤ clockFloorNs := by decide
    rw [hkept] at hstep
    omega
  · exact iff_of_false (fun h => by rw [hspik] at h; cases h.1) hsmall

/-- In `SYNC_STATE` an offset is a spike of the right sign, or it is none on either side and the PLL
    keeps to the bound. -/
theorem symmetric_sync_iff {s : ENode} (hsync : s.nodeState = .sync) (htrained : Trained s)
    (hpass : PassReset s) :
    (stepThresholdNs ≤ |s.clockOffset.ns| →
        s.applyOffset.nodeState = .spik ∧ s.applyOffset.tscFreq = s.tscFreq) ∧
      |s.applyOffset.tscFreq - s.tscFreq| < pllBound s.pollExponent ↔
    stepThresholdNs ≤ s.clockOffset.ns ∨
      (-stepThresholdNs < s.clockOffset.ns ∧ |s.clockOffset.ns| * s.updateAheadNs <
        stepThresholdNs * (2 ^ allanIntercept * 1000000000)) := by
  by_cases hspike : stepThresholdNs ≤ s.clockOffset.ns
  case pos =>
    obtain ⟨hstate, hfreq⟩ := applyOffset_of_spike hsync htrained hpass hspike
    refine iff_of_true ⟨fun _ => ⟨hstate, hfreq⟩, ?_⟩ (.inl hspike)
    rw [hfreq, sub_self, abs_zero]
    exact pllBound_pos s.pollExponent
  case neg =>
    obtain ⟨hstate, hfreq⟩ := applyOffset_of_no_spike hsync hspike
    have hnone : ¬ (s.applyOffset.nodeState = .spik ∧ s.applyOffset.tscFreq = s.tscFreq) :=
      fun h => by rw [hstate] at h; cases h.1
    have hchange : |s.applyOffset.tscFreq - s.tscFreq| = |s.freqCorrection| := by
      rw [hfreq, sub_sub_cancel_left, abs_neg]
    have hrange : |s.clockOffset.ns| < stepThresholdNs ↔ -stepThresholdNs < s.clockOffset.ns := by
      rw [abs_lt]
      omega
    rw [imp_iff_not hnone, not_le, hchange, or_iff_right hspike, ← hrange]
    exact and_congr_right fun hoffset =>
      abs_freqCorrection_lt_iff (htrained (by simp [hsync])) hoffset

/-- In `SPIK_STATE` an offset is not below the floor of the other sign. -/
theorem symmetric_spik_iff {s : ENode} (hspik : s.nodeState = .spik) :
    (s.applyOffset.nodeState = .sync → s.applyOffset.tsRef = s.tsRef →
      |s.clockOffset.ns| ≤ clockFloorNs) ↔ -clockFloorNs ≤ s.clockOffset.ns := by
  have hfloor : (0 : ℤ) ≤ clockFloorNs := by decide
  rw [← and_imp, applyOffset_of_spik hspik, abs_le]
  omega

end ENode

-- ---------------------------------------------------------------------------
-- The pass counter
-- ---------------------------------------------------------------------------

/-- Each way into `SYNC_STATE` resets the pass counter. -/
theorem Passes.select_passCount {p : Passes} (h : p.nodeState = .sync → p.passCount = 0)
    {small : Bool} (hsync : (p.select small).nodeState = .sync) :
    (p.select small).passCount = 0 := by
  unfold Passes.select at hsync ⊢
  cases hstate : p.nodeState with
  | sync => exact h hstate
  | spik =>
      simp only [hstate] at hsync ⊢
      split_ifs at hsync ⊢
      rfl
  | freq =>
      simp only [hstate] at hsync ⊢
      split_ifs at hsync ⊢
      rfl

theorem Passes.nodeState_of_detect {p : Passes} {spike : Bool}
    (h : (p.detect spike).nodeState = .sync) : p.nodeState = .sync := by
  by_contra hstate
  rw [Passes.detect_of_ne_sync hstate] at h
  exact hstate h

theorem PassReset.shadow {s : ENode} (h : PassReset s) (osTime : Timespec) :
    PassReset (s.shadowTscUpdate osTime).1 := by
  rw [PassReset, ENode.shadowTscUpdate_nodeState, (ENode.shadows_keepsPass (.inr ⟨osTime, rfl⟩)).passCount]
  exact h

theorem PassReset.step {b : Build} {t : NodeStep} (hs : t.IsStep (System.step b))
    (h : PassReset t.pre.node) : PassReset t.post.node := by
  change t.post.node.passes.nodeState = .sync → t.post.node.passes.passCount = 0
  intro hsync
  cases NodeStep.passMove hs with
  | answer spike small _ hpost =>
      rw [hpost] at hsync ⊢
      apply Passes.select_passCount _ hsync
      intro hdetect
      rw [Passes.detect_passCount]
      exact h (Passes.nodeState_of_detect hdetect)
  | discalibrate _ _ hpost =>
      rw [hpost] at hsync
      cases hsync
  | keep _ hpost =>
      rw [hpost] at hsync ⊢
      exact h hsync

theorem passReset_of_initial {s : System} (h : s.Initial) : PassReset s.node := by
  obtain ⟨_, _, _, _, _, _, _, rfl⟩ := h
  exact fun hstate => by cases hstate

-- ---------------------------------------------------------------------------
-- Answers
-- ---------------------------------------------------------------------------

namespace ENode

/-- By how many nanoseconds the four timestamps put the node behind the Time Authority, on the way
    there and on the way back together. -/
def authorityAheadNs (s : ENode) (msg : DriftMsg) : ℤ :=
  msg.recTs.ns - msg.orgTs.ns + (msg.xmtTs.ns - s.readClock.2.ns)

theorem ns_readOffset (s : ENode) (msg : DriftMsg) :
    (s.readOffset msg).clockOffset.ns = s.authorityAheadNs msg / 2 := by
  have hoffset : (s.readOffset msg).clockOffset = driftOffset msg s.readClock.2 := rfl
  rw [hoffset, ns_driftOffset, authorityAheadNs]
  congr 1
  ring

/-- The node is not ahead of the Time Authority by a spike: in `SYNC_STATE` not by
    `STEP_THRESHOLD_NS`, and in `SPIK_STATE` not by more than `CLOCK_FLOOR_NS`. In `SYNC_STATE`, an
    offset that is no spike also does not find the TSC set back so far that the PLL exceeds its
    bound. -/
def NotAhead (s : ENode) (msg : DriftMsg) : Prop :=
  match s.nodeState with
  | .sync => 2 * stepThresholdNs ≤ s.authorityAheadNs msg ∨
    (-(2 * stepThresholdNs - 1) < s.authorityAheadNs msg ∧
      |s.authorityAheadNs msg / 2| * s.updateAheadNs <
        stepThresholdNs * (2 ^ allanIntercept * 1000000000))
  | .spik => -(2 * clockFloorNs) ≤ s.authorityAheadNs msg
  | .freq => True

theorem symmetricIn_applyDrift_iff {s : ENode} (htrained : Trained s) (hpass : PassReset s)
    (msg : DriftMsg) (count : ℤ) :
    SymmetricIn s (s.readOffset msg) ((s.applyDrift msg).storeRecvd count) ↔ s.NotAhead msg := by
  have hns := s.ns_readOffset msg
  have hoffset : SymmetricIn s (s.readOffset msg) ((s.applyDrift msg).storeRecvd count) ↔
      SymmetricIn (s.readOffset msg) (s.readOffset msg) (s.readOffset msg).applyOffset := by
    rw [symmetricIn_iff, symmetricIn_iff]
    exact Iff.rfl
  have hupdate : (s.readOffset msg).updateAheadNs = s.updateAheadNs := rfl
  rw [hoffset, symmetricIn_iff]
  cases hstate : s.nodeState with
  | freq =>
      have hread : (s.readOffset msg).nodeState = .freq := hstate
      simp [NotAhead, hstate, hread]
  | spik =>
      have hread : (s.readOffset msg).nodeState = .spik := hstate
      simp only [NotAhead, hstate, hread, reduceCtorEq, false_imp_iff, true_imp_iff, true_and]
      rw [symmetric_spik_iff hread, hns]
      omega
  | sync =>
      have hread : (s.readOffset msg).nodeState = .sync := hstate
      simp only [NotAhead, hstate, hread, reduceCtorEq, false_imp_iff, true_imp_iff, and_true]
      rw [symmetric_sync_iff hread htrained hpass, hns, hupdate]
      refine or_congr (by omega) (and_congr_left fun _ => ?_)
      omega

/-- The update of an attacker's clock writes nothing that this depends on. -/
theorem symmetricIn_shadowTscUpdate_iff (osTime : Timespec) (s r s' : ENode) :
    SymmetricIn (s.shadowTscUpdate osTime).1 r s' ↔ SymmetricIn s r s' := by
  rw [symmetricIn_iff, symmetricIn_iff, shadowTscUpdate_nodeState, shadowTscUpdate_pollExponent,
    (shadows_keepsTraining (.inr ⟨osTime, rfl⟩)).tscFreq]

end ENode

/-- If the step handles a Drift message, its offset is computed without overflow, and spikes count in
    both directions. -/
def SpikesSymmetric (t : NodeStep) : Prop :=
  match t.act with
  | .recv payload _ amb => IsDrift payload →
    (t.pre.node.shadowTscUpdate amb.osTime).1.DriftFits (readDrift payload) ∧
    SymmetricIn t.pre.node
      ((t.pre.node.shadowTscUpdate amb.osTime).1.readOffset (readDrift payload)) t.post.node
  | _ => True

/-- If the step handles a Drift message, no sum over its timestamps overflows, and they do not put the
    node ahead by a spike. -/
def NoSpikeAhead (t : NodeStep) : Prop :=
  match t.act with
  | .recv payload _ amb => IsDrift payload →
    (t.pre.node.shadowTscUpdate amb.osTime).1.DriftFits (readDrift payload) ∧
    (t.pre.node.shadowTscUpdate amb.osTime).1.NotAhead (readDrift payload)
  | _ => True

/-- In every run, each Drift message is handled alike for both signs of the offset exactly when no sum
    over its timestamps overflows and they do not put the node ahead by a spike. -/
theorem spikes_symmetric_iff {b : Build} {s₀ s : System} {tr : List NodeStep}
    (hinit : s₀.Initial) (hrun : NodeRun b s₀ tr s) :
    ∀ t ∈ tr, SpikesSymmetric t ↔ NoSpikeAhead t := by
  intro t ht
  have hinvariant := hrun.invariant_at (I := fun s => Trained s.node ∧ PassReset s.node)
    (P := fun _ => True) (fun t hs _ h => ⟨h.1.step hs, h.2.step hs⟩) (by simp)
    ⟨trained_of_initial hinit, passReset_of_initial hinit⟩ t ht
  obtain ⟨htrained, hpass⟩ := hinvariant.1
  unfold SpikesSymmetric NoSpikeAhead
  split
  case h_2 => exact Iff.rfl
  case h_1 payload src amb hact =>
    apply imp_congr_right
    intro hdrift
    refine and_congr_right fun _ => ?_
    rw [← ENode.symmetricIn_shadowTscUpdate_iff amb.osTime,
      NodeStep.post_of_drift (hrun.isStep ht) hact hdrift, ENode.handleDrift_of_length hdrift.2]
    exact ENode.symmetricIn_applyDrift_iff (htrained.shadow amb.osTime)
      (hpass.shadow amb.osTime) _ _

instance (s r s' : ENode) : Decidable (SymmetricIn s r s') :=
  decidable_of_iff' _ (symmetricIn_iff s r s')

instance : DecidablePred SpikesSymmetric
  | ⟨s, .recv payload _ amb, _, s'⟩ =>
    inferInstanceAs (Decidable (IsDrift payload →
      (s.node.shadowTscUpdate amb.osTime).1.DriftFits (readDrift payload) ∧ SymmetricIn s.node
        ((s.node.shadowTscUpdate amb.osTime).1.readOffset (readDrift payload)) s'.node))
  | ⟨_, .monitor _, _, _⟩ | ⟨_, .aex _, _, _⟩ | ⟨_, .refresh _, _, _⟩ | ⟨_, .recvStop, _, _⟩
  | ⟨_, .recvInexistent, _, _⟩ | ⟨_, .recvError _, _, _⟩ | ⟨_, .triggerStop, _, _⟩
  | ⟨_, .addSibling _ _, _, _⟩ | ⟨_, .clientCall, _, _⟩ | ⟨_, .clientReturn _, _, _⟩
  | ⟨_, .stop, _, _⟩ => isTrue trivial

instance (s : ENode) (msg : DriftMsg) : Decidable (s.NotAhead msg) :=
  decidable_of_iff
    ((s.nodeState = .sync → 2 * stepThresholdNs ≤ s.authorityAheadNs msg ∨
        (-(2 * stepThresholdNs - 1) < s.authorityAheadNs msg ∧
          |s.authorityAheadNs msg / 2| * s.updateAheadNs <
            stepThresholdNs * (2 ^ allanIntercept * 1000000000))) ∧
      (s.nodeState = .spik → -(2 * clockFloorNs) ≤ s.authorityAheadNs msg))
    (by cases h : s.nodeState <;> simp [ENode.NotAhead, h])

instance : DecidablePred NoSpikeAhead
  | ⟨s, .recv payload _ amb, _, _⟩ =>
    inferInstanceAs (Decidable (IsDrift payload →
      (s.node.shadowTscUpdate amb.osTime).1.DriftFits (readDrift payload) ∧
        (s.node.shadowTscUpdate amb.osTime).1.NotAhead (readDrift payload)))
  | ⟨_, .monitor _, _, _⟩ | ⟨_, .aex _, _, _⟩ | ⟨_, .refresh _, _, _⟩ | ⟨_, .recvStop, _, _⟩
  | ⟨_, .recvInexistent, _, _⟩ | ⟨_, .recvError _, _, _⟩ | ⟨_, .triggerStop, _, _⟩
  | ⟨_, .addSibling _ _, _, _⟩ | ⟨_, .clientCall, _, _⟩ | ⟨_, .clientReturn _, _, _⟩
  | ⟨_, .stop, _, _⟩ => isTrue trivial

set_option maxRecDepth 10000 in
open Scenario in
/-- The theorem at a trained node whose time is 1006 s, and an answer from a fifth of a second
    ahead. -/
theorem spikes_symmetric_iff_ahead :
    ∃ tr s, NodeRun .aexNotify Scenario.boot tr s ∧ s.node.nodeState = .spik ∧
      ∀ t ∈ tr, SpikesSymmetric t := by
  obtain ⟨tr, s, hrun, hs⟩ := exists_run_of_exec (System.step .aexNotify) Scenario.boot
    (miscounted ++ [.recv (driftAnswer ⟨1006, 400000000⟩) ⟨"127.0.0.1", 12340⟩ (reading 0)])
    (fun tr s => s.node.nodeState = .spik ∧ ∀ t ∈ tr, NoSpikeAhead t) (by decide +kernel)
  obtain ⟨hspik, hbelow⟩ := hs
  exact ⟨tr, s, hrun, hspik,
    fun t ht => (spikes_symmetric_iff initial_boot hrun t ht).mpr (hbelow t ht)⟩

set_option maxRecDepth 10000 in
open Scenario in
/-- The same node is interrupted half a second later. An answer that puts it a fifth of a second
    ahead leaves it in `SYNC_STATE`, and disciplines its frequency. -/
theorem spikes_asymmetric :
    ¬ ∀ (b : Build) (s₀ s : System) (tr : List NodeStep), s₀.Initial → NodeRun b s₀ tr s →
        ∀ t ∈ tr, SpikesSymmetric t := by
  intro h
  obtain ⟨tr, t, hrun, hstep, hact, ht⟩ := exists_step_of_exec (System.step .aexNotify)
    Scenario.boot (miscounted ++ [.aex (reading 13000000000)])
    (.recv (driftAnswer ⟨1006, 100000000⟩) ⟨"127.0.0.1", 12340⟩ (reading 0))
    (fun _ t => t.pre.node.attacker = false ∧ t.pre.node.nodeState = .sync ∧
      (t.pre.node.readOffset (readDrift (driftAnswer ⟨1006, 100000000⟩))).clockOffset.ns =
        -200000000 ∧
      t.post.node.nodeState = .sync ∧ t.post.node.tscFreq = t.pre.node.tscFreq + 1 / 163840)
    (by decide +kernel)
  obtain ⟨honest, hsync, hoffset, hstays, hfreq⟩ := ht
  have hsymmetric := h .aexNotify _ _ _ initial_boot (.snoc hrun hstep) t (by simp)
  rw [SpikesSymmetric, hact] at hsymmetric
  obtain ⟨_, hspike, _, _⟩ := hsymmetric (by decide +kernel)
  rw [ENode.shadowTscUpdate_of_honest _ honest, hoffset, hstays, hfreq] at hspike
  obtain ⟨_, hsame⟩ := hspike hsync (by decide)
  simp at hsame

end TriHaRd
