-- SUMMARY: How many calls of ntp lie between two drift requests.
import TriHaRd.Base.Ticker
import TriHaRd.Clock.Passes
import TriHaRd.Network.Speaking

/-!
# Polls

`ntp` counts its calls, and sends a drift request when their number equals
`2^poll_exponent`. The receive task may set the exponent between two calls. It only
ever raises it, so that the count never gets past the number it is compared with.
-/

namespace TriHaRd

open Lts

variable {b : Build} {s₀ s : System} {tr : List NodeStep} {t : NodeStep}

/-- The monitor calls `ntp` in the step. -/
def NodeStep.callsNtp (t : NodeStep) : Bool :=
  match t.act with
  | .monitor _ => decide (t.pre.monitor = .returned .monitor) && t.pre.node.ntpDue
  | _ => false

/-- That call gets to its `send_recv_drift_message`. -/
def NodeStep.requestsDrift (t : NodeStep) : Bool :=
  t.callsNtp && decide (t.pre.node.statics.pollCount + 1 = t.pre.node.timeConstant)

-- ---------------------------------------------------------------------------
-- The counter belongs to ntp
-- ---------------------------------------------------------------------------

namespace ENode

theorem sendRecvDriftMessage_pollCount (s : ENode) (sleepTimeMs sleepMs : ℤ) (amb : Ambient) :
    (s.sendRecvDriftMessage sleepTimeMs sleepMs amb).1.statics.pollCount =
      s.statics.pollCount := by
  unfold sendRecvDriftMessage shadowTscUpdate
  dsimp only
  split <;> rfl

theorem ntp_pollCount (s : ENode) (amb : Ambient) : (s.ntp amb).1.statics.pollCount =
    if s.statics.pollCount + 1 = s.timeConstant then 0 else s.statics.pollCount + 1 := by
  unfold ntp
  dsimp only
  split
  case isTrue hpoll =>
    have hpoll : s.statics.pollCount + 1 = s.timeConstant := hpoll
    rw [if_pos hpoll, sendRecvDriftMessage_pollCount]
  case isFalse hpoll =>
    have hpoll : ¬ s.statics.pollCount + 1 = s.timeConstant := hpoll
    rw [if_neg hpoll]

theorem monitorNtp_pollCount (s : ENode) (amb : Ambient) :
    (s.monitorNtp amb).1.statics.pollCount =
      if s.ntpDue = true then (s.ntp amb).1.statics.pollCount else s.statics.pollCount := by
  unfold monitorNtp ntpDue
  simp only [decide_eq_true_eq]
  split_ifs <;> rfl

end ENode

/-- The rest of the monitor does not write the counter. -/
theorem monitorStep_pollCount (b : Build) {s : ENode} (amb : Ambient) {pc : MonitorPc}
    (hcalls : pc = .returned .monitor → s.ntpDue = false) :
    (monitorStep b s amb pc).2.1.statics.pollCount = s.statics.pollCount := by
  cases pc with
  | calibrateDrift => exact s.sendRecvDriftMessage_pollCount 0 0 amb
  | counted caller memTotalAexCount =>
      change (s.endCounting memTotalAexCount).1.statics.pollCount = s.statics.pollCount
      rw [ENode.endCounting_eq_setRound]
      rfl
  | polling caller stopTsc a =>
      have hend : (ENode.endPolling b { s with tsc := amb.tsc } (amb.tsc - a)).1.statics.pollCount =
          s.statics.pollCount := by
        rw [ENode.endPolling_eq_setRound]
        rfl
      simp only [monitorStep]
      split_ifs
      · rfl
      · exact hend
      · exact hend
  | returned caller =>
      cases caller with
      | monitor =>
          change (s.monitorNtp amb).1.statics.pollCount = s.statics.pollCount
          rw [ENode.monitorNtp_pollCount, hcalls rfl, if_neg (by simp)]
      | calibrate i addCountSum =>
          simp only [monitorStep]
          split_ifs <;> rfl
  | start | sampling | done => rfl
  | _ =>
      simp only [monitorStep]
      split_ifs <;> rfl

theorem ENode.shadows_pollCount {s m : ENode} (h : s.shadows m) :
    m.statics.pollCount = s.statics.pollCount := by
  rcases h with rfl | ⟨osTime, rfl⟩
  · rfl
  · unfold shadowTscUpdate
    split <;> rfl

theorem ENode.handleMessage_pollCount (s : ENode) (payload : List UInt8) (src : Addr)
    (amb : Ambient) :
    (s.handleMessage payload src amb).node.statics.pollCount = s.statics.pollCount := by
  obtain ⟨m, hshadows, hwrites⟩ := s.handleMessage_writes_shadowed payload src amb
  rw [← shadows_pollCount hshadows]
  generalize (s.handleMessage payload src amb).node = n at hwrites
  cases hwrites <;> rfl

/-- Only a call of `ntp` writes the counter. -/
theorem NodeStep.pollCount_of_not_callsNtp (hs : t.IsStep (System.step b))
    (hcalls : t.callsNtp = false) :
    t.post.node.statics.pollCount = t.pre.node.statics.pollCount := by
  have heffect := NodeStep.effect hs
  unfold NodeStep.callsNtp at hcalls
  generalize t.act = a, t.events = es, t.post.node = n at heffect hcalls
  cases heffect with
  | monitor amb =>
      refine monitorStep_pollCount b amb fun hpc => ?_
      simpa [hpc] using hcalls
  | refresh amb => rw [refreshStep_eq_setRefresh]; rfl
  | recv payload src amb => exact ENode.handleMessage_pollCount _ payload src amb
  | recvFailed payload src amb => exact ENode.handleMessage_pollCount _ payload src amb
  | addSibling addr sendOk =>
      unfold ENode.addSibling
      split_ifs <;> rfl
  | clientReturn i memTsc node ts hread =>
      obtain rfl : n = t.pre.node.readClock.1 :=
        congrArg Prod.fst (ENode.getTimestamp_eq_some hread)
      rfl
  | _ => rfl

/-- Such a step is one of the monitor. -/
theorem NodeStep.of_callsNtp (h : t.callsNtp = true) :
    ∃ amb, t.act = .monitor amb ∧ t.pre.monitor = .returned .monitor ∧
      t.pre.node.ntpDue = true := by
  unfold NodeStep.callsNtp at h
  split at h
  case h_1 amb hact =>
    obtain ⟨hpc, hdue⟩ := Bool.and_eq_true_iff.mp h
    exact ⟨amb, hact, of_decide_eq_true hpc, hdue⟩
  case h_2 => cases h

theorem NodeStep.pollCount_of_callsNtp (hs : t.IsStep (System.step b))
    (hcalls : t.callsNtp = true) : t.post.node.statics.pollCount =
      if t.pre.node.statics.pollCount + 1 = t.pre.node.timeConstant then 0
      else t.pre.node.statics.pollCount + 1 := by
  obtain ⟨amb, hact, hpc, hdue⟩ := NodeStep.of_callsNtp hcalls
  have hnode := (NodeStep.of_monitor hs hact).2.1
  rw [hpc] at hnode
  have hnode : t.post.node = (t.pre.node.monitorNtp amb).1 := hnode
  rw [hnode, ENode.monitorNtp_pollCount, if_pos hdue, ENode.ntp_pollCount]

/-- The request is sent if the node has a socket, and a call of `ntp` sends nothing else. -/
theorem NodeStep.requestsDrift_iff (hs : t.IsStep (System.step b)) (hcalls : t.callsNtp = true)
    (hsock : 0 ≤ t.pre.node.sock) : t.requestsDrift = true ↔ HasMessage t.events := by
  obtain ⟨amb, hact, hpc, hdue⟩ := NodeStep.of_callsNtp hcalls
  have hevents := (NodeStep.of_monitor hs hact).2.2
  rw [hpc] at hevents
  have hevents : t.events = (t.pre.node.monitorNtp amb).2 := hevents
  rw [hevents, ENode.hasMessage_monitorNtp, and_iff_left hsock, NodeStep.requestsDrift, hcalls,
    ENode.polls, hdue]

-- ---------------------------------------------------------------------------
-- The exponent only grows
-- ---------------------------------------------------------------------------

namespace Passes

variable {p : Passes}

theorem Sound.pollExponent_le (h : Sound p) : p.pollExponent ≤ minPollExponent := by
  rcases h.pollExponent with hmin | ⟨hfirst, -⟩
  · exact hmin.le
  · rw [hfirst]
    decide

theorem Sound.pollExponent_le_select (h : Sound p) (small : Bool) :
    p.pollExponent ≤ (p.select small).pollExponent := by
  unfold Passes.select
  split
  case h_1 => exact le_refl _
  case h_2 => split_ifs <;> exact le_refl _
  case h_3 =>
    split_ifs
    · exact le_refl _
    · exact h.pollExponent_le
    · exact le_refl _

end Passes

theorem NodeStep.pollExponent_le (hs : t.IsStep (System.step b))
    (hsound : t.pre.node.passes.Sound) : t.pre.node.pollExponent ≤ t.post.node.pollExponent := by
  change t.pre.node.passes.pollExponent ≤ t.post.node.passes.pollExponent
  cases NodeStep.passMove hs with
  | answer spike small _ hpost =>
      rw [hpost, ← Passes.detect_pollExponent spike]
      exact (hsound.detect spike).pollExponent_le_select small
  | discalibrate _ _ hpost => exact hpost ▸ le_refl _
  | keep _ hpost => exact hpost ▸ le_refl _

-- ---------------------------------------------------------------------------
-- Runs
-- ---------------------------------------------------------------------------

theorem ntp_ticker (b : Build) : Ticker (System.step b) (fun s => s.node.passes.Sound)
    (fun s => s.node.statics.pollCount) (fun s => s.node.timeConstant) NodeStep.callsNtp where
  invariant := fun t hs hsound => hsound.step hs
  grow := fun t hs hsound =>
    pow_le_pow_right₀ (by decide) (NodeStep.pollExponent_le hs hsound)
  call := fun t hs hcalls => NodeStep.pollCount_of_callsNtp hs hcalls
  keep := fun t hs hcalls => NodeStep.pollCount_of_not_callsNtp hs hcalls

/-- In every run, the counter is below `2^poll_exponent` after every call of `ntp`, and from one
    drift request of `ntp` to the next there are as many calls as the exponent then says. -/
theorem polls_never_skipped {s : System} (hinit : s₀.Initial) (hrun : NodeRun b s₀ tr s) :
    (∀ t ∈ tr, t.callsNtp = true →
        t.post.node.statics.pollCount < 2 ^ t.post.node.pollExponent) ∧
      ∀ before t₁ mid t₂ after, tr = before ++ t₁ :: (mid ++ t₂ :: after) →
        NodeStep.requestsDrift t₁ = true → NodeStep.requestsDrift t₂ = true →
        (∀ t ∈ mid, NodeStep.requestsDrift t = false) →
        (mid ++ [t₂]).countP NodeStep.callsNtp = 2 ^ t₂.pre.node.pollExponent := by
  have hsound : s₀.node.passes.Sound := .of_initial hinit
  constructor
  · intro t ht _
    have hbelow := (ntp_ticker b).below hrun hsound ?_ t ht
    · exact hbelow.2
    · obtain ⟨_, _, _, _, _, _, _, rfl⟩ := hinit
      exact ⟨le_refl _, (by decide : (0 : ℤ) < 2 ^ 2)⟩
  · intro before t₁ mid t₂ after htr h₁ h₂ hmid
    rw [htr] at hrun
    have hcalls : ((mid ++ [t₂]).countP NodeStep.callsNtp : ℤ) = 2 ^ t₂.pre.node.pollExponent :=
      (ntp_ticker b).calls_between hrun h₁ h₂ hmid
    exact_mod_cast hcalls

/-- Rounds of the monitor from the end of the round `i` on, of which every second one ends in a call
    of `ntp`. The step that ends the last round is left out. -/
def Scenario.monitored (i n : ℕ) : List Action :=
  ((List.range n).flatMap fun k =>
    countingRound ((i + k) * 1000000000) ((i + k + 1) * 1000000000)).dropLast

set_option maxRecDepth 10000 in
open Scenario in
/-- The theorem at two requests of a node that no answer has reached. -/
theorem polls_never_skipped_twice :
    ∃ before t₁ mid t₂, NodeRun .aexNotify Scenario.boot (before ++ t₁ :: (mid ++ [t₂])) t₂.post ∧
      NodeStep.requestsDrift t₁ = true ∧ NodeStep.requestsDrift t₂ = true ∧
      (mid ++ [t₂]).countP NodeStep.callsNtp = 2 ^ 2 := by
  obtain ⟨before, t₁, mid, t₂, hrun, _, _, hs⟩ := exists_steps_of_exec (System.step .aexNotify)
    Scenario.boot (calibrated ++ monitored 10 7) (.monitor (reading 17000000000)) (monitored 17 8)
    (.monitor (reading 25000000000))
    (fun _ t₁ mid t₂ => NodeStep.requestsDrift t₁ = true ∧ NodeStep.requestsDrift t₂ = true ∧
      (∀ t ∈ mid, NodeStep.requestsDrift t = false) ∧ t₂.pre.node.pollExponent = 2)
    (by decide +kernel)
  obtain ⟨h₁, h₂, hmid, hexponent⟩ := hs
  have hcalls := (polls_never_skipped initial_boot hrun).2 before t₁ mid t₂ [] rfl h₁ h₂ hmid
  rw [hexponent] at hcalls
  exact ⟨before, t₁, mid, t₂, hrun, h₁, h₂, hcalls⟩

end TriHaRd
