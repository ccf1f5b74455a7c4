-- SUMMARY: When the frequency of a node stays positive, and no division by zero happens in its clock.
import TriHaRd.Clock.Solicited
import TriHaRd.Monitor.Moves

/-!
# The frequency

A read of the clock divides by `tsc_freq`, and so does `discipline_clock`. Answers
of the Time Authority rewrite it: `discipline_clock` subtracts a multiple of the
offset, and the end of the training multiplies it by a ratio of two durations.
`std::max` keeps the divisor of the FLL term away from zero. The ratio and the
subtraction have no such guard.
-/

namespace TriHaRd

open Lts

/-- A positive number scaled by a ratio stays positive, and the ratio is defined, exactly when both
    parts of the ratio have one sign. -/
theorem ratio_pos_iff {f a b : ℚ} (hf : 0 < f) : 0 < f * (a / b) ∧ b ≠ 0 ↔ 0 < a * b := by
  rw [mul_pos_iff_of_pos_left hf, div_pos_iff, ← mul_pos_iff, and_iff_left_iff_imp]
  intro hpos
  exact (mul_ne_zero_iff.mp hpos.ne').2

namespace ENode

-- ---------------------------------------------------------------------------
-- Divisors
-- ---------------------------------------------------------------------------

/-- What `discipline_clock` divides by: `tsc_freq` for `mu`, then the divisors of the FLL and of
    the PLL term. -/
def disciplineDivisors (s : ENode) : List ℚ :=
  let mu := s.sinceUpdate.toDouble
  let fll := if s.pollExponent ≥ allanIntercept then [max (2 ^ s.pollExponent) mu * clockFll]
    else []
  let dtemp := 4 * clockPll * 2 ^ s.pollExponent
  [s.tscFreq] ++ fll ++ [dtemp * dtemp]

/-- `train_duration`, if the training ends now. -/
def trainDuration (s : ENode) : ℚ := (s.tsRef - s.statics.trainStartTs).toDouble

def selectClockDivisors (s : ENode) : List ℚ :=
  match s.nodeState with
  | .sync => s.disciplineDivisors
  | .spik => []
  | .freq => if s.endsTraining then [s.trainDuration + s.clockOffset.toDouble] else []

/-- What case 'D' divides by: `tsc_freq` to read the clock, then the divisors of `select_clock`. -/
def driftDivisors (s : ENode) (msg : DriftMsg) : List ℚ :=
  s.tscFreq :: (s.readOffset msg).detectSpike.judgeClock.selectClockDivisors

-- ---------------------------------------------------------------------------
-- Offsets that keep the frequency positive
-- ---------------------------------------------------------------------------

/-- The offset that `s` has stored does not ruin the frequency. At the end of the training the
    measured duration and the same duration corrected by the offset have one sign and are not
    zero. In `SYNC_STATE`, an offset that is no spike is smaller than what the PLL takes to bring
    the frequency to zero. -/
def Bearable (s : ENode) : Prop :=
  match s.nodeState with
  | .freq => s.endsTraining = true →
    0 < s.trainDuration * (s.trainDuration + s.clockOffset.toDouble)
  | .spik => True
  | .sync => s.clockOffset < ⟨0, stepThresholdNs⟩ →
    s.clockOffset.toDouble * min (2 ^ allanIntercept) s.sinceUpdate.toDouble <
      s.tscFreq * (4 * clockPll * 2 ^ s.pollExponent) ^ 2

instance : DecidablePred Bearable := fun s => by
  unfold Bearable
  split <;> infer_instance

/-- The frequency is positive after `select_clock`, which has divided by nothing that is zero. -/
def SelectsUsable (s : ENode) : Prop :=
  0 < s.selectClock.tscFreq ∧ ∀ d ∈ s.selectClockDivisors, d ≠ 0

theorem selectClockFreq_tscFreq {s : ENode} (h : s.nodeState = .freq) :
    s.selectClockFreq.tscFreq = if s.endsTraining then
      s.tscFreq * (s.trainDuration / (s.trainDuration + s.clockOffset.toDouble))
      else s.tscFreq := by
  cases henter : s.statics.enterFreq with
  | true =>
      rw [if_neg (by simp [endsTraining, henter]), selectClockFreq, if_pos henter]
      rfl
  | false =>
      rw [selectClockFreq, if_neg (by simp [henter])]
      dsimp only
      by_cases hpass : s.statics.passCount + s.timeConstant ≥ stepOutThresholdS
      · rw [if_pos hpass, if_pos (by simp [endsTraining, h, henter, hpass])]
        rfl
      · rw [if_neg hpass, if_neg (by simp [endsTraining, h, henter, hpass])]

theorem selectsUsable_freq {s : ENode} (hstate : s.nodeState = .freq) (hfreq : 0 < s.tscFreq) :
    SelectsUsable s ↔ Bearable s := by
  have hbearable : Bearable s ↔ (s.endsTraining = true →
      0 < s.trainDuration * (s.trainDuration + s.clockOffset.toDouble)) := by
    simp only [Bearable, hstate]
  have hdivisors : s.selectClockDivisors =
      if s.endsTraining then [s.trainDuration + s.clockOffset.toDouble] else [] := by
    simp only [selectClockDivisors, hstate]
  have hselect : s.selectClock.tscFreq = if s.endsTraining then
      s.tscFreq * (s.trainDuration / (s.trainDuration + s.clockOffset.toDouble))
      else s.tscFreq := by
    rw [← selectClockFreq_tscFreq hstate]
    simp only [selectClock, hstate]
  rw [SelectsUsable, hselect, hdivisors, hbearable]
  cases s.endsTraining with
  | true => simpa using ratio_pos_iff hfreq
  | false => simpa using hfreq

theorem selectsUsable_spik {s : ENode} (hstate : s.nodeState = .spik) (hfreq : 0 < s.tscFreq) :
    SelectsUsable s := by
  have hselect : s.selectClock.tscFreq = s.tscFreq := by
    unfold selectClock
    rw [hstate]
    dsimp only
    unfold selectClockSpik
    dsimp only
    split_ifs <;> rfl
  have hdivisors : s.selectClockDivisors = [] := by simp only [selectClockDivisors, hstate]
  rw [SelectsUsable, hselect, hdivisors]
  exact ⟨hfreq, by simp⟩

/-- `discipline_clock` never divides by zero, if the frequency is not. -/
theorem disciplineDivisors_ne_zero {s : ENode} (hfreq : s.tscFreq ≠ 0) :
    ∀ d ∈ s.disciplineDivisors, d ≠ 0 := by
  have hmax : (0 : ℚ) < max (2 ^ s.pollExponent) s.sinceUpdate.toDouble * clockFll := by
    have hpos : (0 : ℚ) < clockFll := by norm_num [clockFll]
    positivity
  have hdtemp : (0 : ℚ) < 4 * clockPll * 2 ^ s.pollExponent := by
    have hpos : (0 : ℚ) < clockPll := by norm_num [clockPll]
    positivity
  intro d hd
  simp only [disciplineDivisors, List.mem_append, List.mem_singleton] at hd
  rcases hd with (rfl | hfll) | rfl
  · exact hfreq
  · split_ifs at hfll
    · rw [List.mem_singleton.mp hfll]
      exact hmax.ne'
    · cases hfll
  · exact (mul_pos hdtemp hdtemp).ne'

/-- Before the Allan intercept, the frequency stays positive as long as the PLL term is smaller. -/
theorem freqCorrection_lt_iff {s : ENode} (h : s.pollExponent = minPollExponent) :
    s.freqCorrection < s.tscFreq ↔
      s.clockOffset.toDouble * min (2 ^ allanIntercept) s.sinceUpdate.toDouble <
        s.tscFreq * (4 * clockPll * 2 ^ s.pollExponent) ^ 2 := by
  have hfll : ¬ s.pollExponent ≥ allanIntercept := by
    rw [h]
    decide
  have hdtemp : (0 : ℚ) < 4 * clockPll * 2 ^ s.pollExponent := by
    have hpos : (0 : ℚ) < clockPll := by norm_num [clockPll]
    positivity
  unfold freqCorrection
  dsimp only
  rw [if_neg hfll, zero_add, div_lt_iff₀ (mul_pos hdtemp hdtemp), sq]

theorem selectsUsable_sync {s : ENode} (hstate : s.nodeState = .sync) (hfreq : 0 < s.tscFreq)
    (hpoll : s.pollExponent = minPollExponent) : SelectsUsable s ↔
      s.clockOffset.toDouble * min (2 ^ allanIntercept) s.sinceUpdate.toDouble <
        s.tscFreq * (4 * clockPll * 2 ^ s.pollExponent) ^ 2 := by
  have hselect : s.selectClock.tscFreq = s.tscFreq - s.freqCorrection := by
    rw [← selectClockSync_tscFreq]
    simp only [selectClock, hstate]
  have hdivisors : s.selectClockDivisors = s.disciplineDivisors := by
    simp only [selectClockDivisors, hstate]
  rw [SelectsUsable, hselect, hdivisors, sub_pos, ← freqCorrection_lt_iff hpoll,
    and_iff_left (disciplineDivisors_ne_zero hfreq.ne')]

/-- What an offset does to the frequency of a trained node. -/
theorem selectsUsable_judged {s : ENode} (hfreq : 0 < s.tscFreq) (htrained : Trained s) :
    SelectsUsable s.detectSpike.judgeClock ↔ Bearable s := by
  cases hstate : s.nodeState with
  | freq =>
      rw [detectSpike_of_freq hstate, judgeClock_of_freq hstate]
      exact selectsUsable_freq hstate hfreq
  | spik =>
      have hbearable : Bearable s := by simp only [Bearable, hstate]
      rw [judged_of_spik hstate]
      exact iff_of_true (selectsUsable_spik hstate hfreq) hbearable
  | sync =>
      have hbearable : Bearable s ↔ (s.clockOffset < ⟨0, stepThresholdNs⟩ →
          s.clockOffset.toDouble * min (2 ^ allanIntercept) s.sinceUpdate.toDouble <
            s.tscFreq * (4 * clockPll * 2 ^ s.pollExponent) ^ 2) := by
        simp only [Bearable, hstate]
      have hlt : s.clockOffset < ⟨0, stepThresholdNs⟩ ↔
          ¬ s.clockOffset ≥ ⟨0, stepThresholdNs⟩ := by
        rw [Timespec.lt_iff_ns, ge_iff_le, Timespec.le_iff_ns, not_le]
      rw [hbearable, hlt]
      by_cases hspike : s.clockOffset ≥ ⟨0, stepThresholdNs⟩
      · rw [judged_of_spike hstate hspike]
        exact iff_of_true (selectsUsable_spik rfl hfreq) fun hsmall => absurd hspike hsmall
      · rw [judged_of_sync hstate hspike, imp_iff_right hspike]
        exact selectsUsable_sync (s := { s with clockState := s.verdict }) hstate hfreq
          (htrained (by simp [hstate]))

theorem driftUsable_iff {s : ENode} (hfreq : 0 < s.tscFreq) (htrained : Trained s)
    (msg : DriftMsg) : (0 < ((s.applyDrift msg).storeRecvd msg.count).tscFreq ∧
      ∀ d ∈ s.driftDivisors msg, d ≠ 0) ↔ (s.readOffset msg).Bearable := by
  rw [← selectsUsable_judged (s := s.readOffset msg) hfreq htrained, SelectsUsable, driftDivisors,
    List.forall_mem_cons, and_iff_right hfreq.ne']
  exact Iff.rfl

end ENode

/-! ## Runs -/

/-- What the step divides by: `tsc_freq` wherever it reads the clock, and in case 'D' also the
    divisors of `select_clock`. -/
def NodeStep.divisors (t : NodeStep) : List ℚ :=
  match t.act with
  | .recv payload _ amb =>
    if IsDrift payload then
      (t.pre.node.shadowTscUpdate amb.osTime).1.driftDivisors (readDrift payload)
    else [t.pre.node.tscFreq]
  | _ => [t.pre.node.tscFreq]

/-- After the step the frequency is positive, and the step divides by nothing that is zero. -/
def FreqUsable (t : NodeStep) : Prop := 0 < t.post.node.tscFreq ∧ ∀ d ∈ t.divisors, d ≠ 0

/-- If the step handles an answer of the Time Authority, its offset does not ruin the frequency. -/
def BearsAnswer (t : NodeStep) : Prop :=
  match t.act with
  | .recv payload _ amb => IsDrift payload →
    ((t.pre.node.shadowTscUpdate amb.osTime).1.readOffset (readDrift payload)).Bearable
  | _ => True

instance : DecidablePred FreqUsable := fun t =>
  inferInstanceAs (Decidable (_ ∧ ∀ d ∈ t.divisors, d ≠ 0))

/-- Only an answer of the Time Authority writes the frequency. -/
theorem NodeStep.tscFreq_post {b : Build} {t : NodeStep} (hs : t.IsStep (System.step b))
    (hdrift : ∀ payload src amb, t.act = .recv payload src amb → ¬ IsDrift payload) :
    t.post.node.tscFreq = t.pre.node.tscFreq := by
  by_cases hact : ∃ amb, t.act = .monitor amb
  · obtain ⟨amb, hact⟩ := hact
    rw [(NodeStep.of_monitor hs hact).2.1, monitorStep_tscFreq]
  · exact ((NodeStep.effect hs).keepsTraining (not_exists.mp hact) hdrift).tscFreq

theorem freqUsable_drift_iff {b : Build} {t : NodeStep} {payload : List UInt8} {src : Addr}
    {amb : Ambient} (hs : t.IsStep (System.step b)) (hact : t.act = .recv payload src amb)
    (hdrift : IsDrift payload) (hfreq : 0 < t.pre.node.tscFreq) (htrained : Trained t.pre.node) :
    FreqUsable t ↔
      ((t.pre.node.shadowTscUpdate amb.osTime).1.readOffset (readDrift payload)).Bearable := by
  have hdivisors : t.divisors =
      (t.pre.node.shadowTscUpdate amb.osTime).1.driftDivisors (readDrift payload) := by
    rw [NodeStep.divisors, hact]
    exact if_pos hdrift
  have hshadow : (t.pre.node.shadowTscUpdate amb.osTime).1.tscFreq = t.pre.node.tscFreq :=
    (ENode.shadows_keepsTraining (.inr ⟨amb.osTime, rfl⟩)).tscFreq
  rw [FreqUsable, hdivisors, NodeStep.post_of_drift hs hact hdrift,
    ENode.handleDrift_of_length hdrift.2]
  dsimp only
  exact ENode.driftUsable_iff (hshadow.symm ▸ hfreq) (htrained.shadow amb.osTime)
    (readDrift payload)

theorem freqUsable_iff {b : Build} {t : NodeStep} (hs : t.IsStep (System.step b))
    (hfreq : 0 < t.pre.node.tscFreq) (htrained : Trained t.pre.node) :
    FreqUsable t ↔ BearsAnswer t := by
  by_cases hanswer : ∃ payload src amb, t.act = .recv payload src amb ∧ IsDrift payload
  case pos =>
    obtain ⟨payload, src, amb, hact, hdrift⟩ := hanswer
    rw [freqUsable_drift_iff hs hact hdrift hfreq htrained, BearsAnswer, hact]
    exact (imp_iff_right hdrift).symm
  case neg =>
    have hother : ∀ payload src amb, t.act = .recv payload src amb → ¬ IsDrift payload :=
      fun payload src amb hact hdrift => hanswer ⟨payload, src, amb, hact, hdrift⟩
    have hdivisors : t.divisors = [t.pre.node.tscFreq] := by
      unfold NodeStep.divisors
      split
      case h_1 payload src amb hact => exact if_neg (hother payload src amb hact)
      case h_2 => rfl
    refine iff_of_true ⟨?_, ?_⟩ ?_
    · rw [NodeStep.tscFreq_post hs hother]
      exact hfreq
    · rw [hdivisors, List.forall_mem_singleton]
      exact hfreq.ne'
    · unfold BearsAnswer
      split
      case h_1 payload src amb hact => exact fun hdrift => absurd hdrift (hother payload src amb hact)
      case h_2 => trivial

/-- In every run of a node with a positive frequency, it stays positive and nothing is divided by
    zero exactly when no answer of the Time Authority ruins it. -/
theorem freq_usable_iff {b : Build} {s₀ s : System} {tr : List NodeStep} (hinit : s₀.Initial)
    (hfreq : 0 < s₀.node.tscFreq) (hrun : NodeRun b s₀ tr s) :
    (∀ t ∈ tr, FreqUsable t) ↔ ∀ t ∈ tr, BearsAnswer t := by
  rw [← EachStep.iff_forall_mem, ← EachStep.iff_forall_mem]
  refine hrun.eachStep_iff (I := fun _ s => 0 < s.node.tscFreq ∧ Trained s.node)
    ⟨hfreq, trained_of_initial hinit⟩ (fun _ _ hs h => freqUsable_iff hs h.1 h.2) ?_
  exact fun _ _ hs h husable => ⟨husable.1, h.2.step hs⟩

set_option maxRecDepth 10000 in
open Scenario in
/-- The theorem at a training that ends after half a second. -/
theorem freq_usable_iff_trained :
    ∃ tr s, NodeRun .aexNotify Scenario.boot tr s ∧ s.node.nodeState = .sync ∧
      ∀ t ∈ tr, BearsAnswer t := by
  obtain ⟨tr, s, hrun, hs⟩ := exists_run_of_exec (System.step .aexNotify) Scenario.boot miscounted
    (fun tr s => s.node.nodeState = .sync ∧ ∀ t ∈ tr, FreqUsable t) (by decide +kernel)
  obtain ⟨hsync, husable⟩ := hs
  exact ⟨tr, s, hrun, hsync, (freq_usable_iff initial_boot (by decide) hrun).mp husable⟩

set_option maxRecDepth 10000 in
open Scenario in
/-- A genuine answer is replayed until the training ends, before the monitor reads the TSC again.
    The training has then lasted no time, and the answer is right. -/
theorem ratio_undefined :
    ¬ ∀ (b : Build) (s₀ s : System) (tr : List NodeStep), s₀.Initial → s₀.node.attacker = false →
        0 < s₀.node.tscFreq → NodeRun b s₀ tr s → (∀ t ∈ tr, t.pre.node.tsc ≤ t.post.node.tsc) →
        ∀ t ∈ tr, FreqUsable t := by
  intro h
  obtain ⟨tr, s, hrun, hs⟩ := exists_run_of_exec (System.step .aexNotify) Scenario.boot
    (replayed 25)
    (fun tr _ => (∀ t ∈ tr, t.pre.node.tsc ≤ t.post.node.tsc) ∧
      ∃ t ∈ tr, 0 ∈ NodeStep.divisors t) (by decide +kernel)
  obtain ⟨hforward, t, ht, hzero⟩ := hs
  have husable := h _ _ _ _ initial_boot rfl (by decide) hrun hforward t ht
  exact husable.2 0 hzero rfl

end TriHaRd
