-- SUMMARY: The state machine of select_clock by itself: the node state, the pass counter and the poll exponent, and the steps that move it.
import TriHaRd.Monitor.Moves

/-!
# Passes

`select_clock` moves between its three states by counting passes, each worth the
poll interval of the message that it handles. Of an offset it only asks whether it
is a spike and whether it is small. `Passes` is this state machine without the
clock, and the second half shows that the steps of a node follow it: a Drift
message makes one move, a discalibration sends it to `FREQ_STATE`, and nothing else
touches it.
-/

namespace TriHaRd

open Lts

-- ---------------------------------------------------------------------------
-- The machine
-- ---------------------------------------------------------------------------

structure Passes where
  nodeState : NodeState
  passCount : ℤ
  enterFreq : Bool
  pollExponent : ℕ
deriving DecidableEq, Repr

namespace Passes

/-- The poll interval in seconds. -/
def interval (p : Passes) : ℤ := 2 ^ p.pollExponent

/-- A spike of the offset turns `SYNC_STATE` into `SPIK_STATE`. -/
def detect (spike : Bool) (p : Passes) : Passes :=
  if p.nodeState = .sync ∧ spike then { p with nodeState := .spik } else p

/-- `small` is whether the offset is at most `CLOCK_FLOOR_NS`. -/
def select (small : Bool) (p : Passes) : Passes :=
  match p.nodeState with
  | .sync => p
  | .spik =>
    if small ∨ p.passCount + p.interval ≥ stepOutThresholdS then
      { p with nodeState := .sync, passCount := 0 }
    else { p with passCount := p.passCount + p.interval }
  | .freq =>
    if p.enterFreq then { p with passCount := p.passCount + p.interval, enterFreq := false }
    else if p.passCount + p.interval ≥ stepOutThresholdS then
      ⟨.sync, 0, true, minPollExponent⟩
    else { p with passCount := p.passCount + p.interval }

/-- The monitor has found the loop count off the reference. -/
def discalibrate (p : Passes) : Passes := { p with nodeState := .freq }

theorem interval_pos (p : Passes) : 0 < p.interval := by
  unfold interval
  positivity

@[simp] theorem detect_passCount (spike : Bool) (p : Passes) :
    (p.detect spike).passCount = p.passCount := by
  unfold detect
  split <;> rfl

@[simp] theorem detect_enterFreq (spike : Bool) (p : Passes) :
    (p.detect spike).enterFreq = p.enterFreq := by
  unfold detect
  split <;> rfl

@[simp] theorem detect_pollExponent (spike : Bool) (p : Passes) :
    (p.detect spike).pollExponent = p.pollExponent := by
  unfold detect
  split <;> rfl

@[simp] theorem detect_interval (spike : Bool) (p : Passes) :
    (p.detect spike).interval = p.interval := by
  rw [interval, detect_pollExponent, interval]

/-- Outside `SYNC_STATE` no spike is detected. -/
theorem detect_of_ne_sync {p : Passes} (h : p.nodeState ≠ .sync) (spike : Bool) :
    p.detect spike = p := by
  simp [detect, h]

end Passes

-- ---------------------------------------------------------------------------
-- An answer makes one move
-- ---------------------------------------------------------------------------

namespace ENode

def passes (s : ENode) : Passes where
  nodeState := s.nodeState
  passCount := s.statics.passCount
  enterFreq := s.statics.enterFreq
  pollExponent := s.pollExponent

/-- Is the stored offset a spike? -/
def isSpike (s : ENode) : Bool := decide (s.clockOffset ≥ ⟨0, stepThresholdNs⟩)

/-- Is it small? -/
def isSmall (s : ENode) : Bool := decide (s.clockOffset ≤ ⟨0, clockFloorNs⟩)

theorem passes_detectSpike (s : ENode) : s.detectSpike.passes = s.passes.detect s.isSpike := by
  unfold detectSpike Passes.detect isSpike
  simp only [passes, decide_eq_true_eq]
  split <;> rfl

theorem passes_judgeClock (s : ENode) : s.judgeClock.passes = s.passes := by
  unfold judgeClock
  split_ifs <;> rfl

theorem passes_selectClockSync (s : ENode) : s.selectClockSync.passes = s.passes := by
  unfold selectClockSync disciplineClock
  dsimp only
  split <;> rfl

theorem passes_selectClockSpik {s : ENode} (h : s.nodeState = .spik) :
    s.selectClockSpik.passes = s.passes.select s.isSmall := by
  have hinterval : s.passes.interval = s.timeConstant := rfl
  unfold selectClockSpik Passes.select isSmall
  rw [hinterval]
  by_cases hsmall : s.clockOffset ≤ ⟨0, clockFloorNs⟩
  · simp [passes, h, hsmall]
  · by_cases hlong : s.statics.passCount + s.timeConstant ≥ stepOutThresholdS
    · simp [passes, h, hsmall, hlong, stepClock]
    · simp [passes, h, hsmall, hlong]

theorem passes_selectClockFreq {s : ENode} (h : s.nodeState = .freq) :
    s.selectClockFreq.passes = s.passes.select s.isSmall := by
  have hinterval : s.passes.interval = s.timeConstant := rfl
  unfold selectClockFreq Passes.select
  rw [hinterval]
  cases henter : s.statics.enterFreq with
  | true => simp [passes, h, henter, stepClock]
  | false =>
      by_cases hlong : s.statics.passCount + s.timeConstant ≥ stepOutThresholdS
      · simp [passes, h, henter, hlong, finishTraining]
      · simp [passes, h, henter, hlong]

theorem passes_selectClock (s : ENode) : s.selectClock.passes = s.passes.select s.isSmall := by
  cases h : s.nodeState with
  | sync =>
      have hselect : s.passes.select s.isSmall = s.passes := by
        simp only [Passes.select, passes, h]
      simp only [selectClock, h]
      rw [hselect, passes_selectClockSync]
  | spik =>
      rw [← passes_selectClockSpik h]
      simp only [selectClock, h]
  | freq =>
      rw [← passes_selectClockFreq h]
      simp only [selectClock, h]

theorem passes_applyOffset (s : ENode) :
    s.applyOffset.passes = (s.passes.detect s.isSpike).select s.detectSpike.judgeClock.isSmall := by
  rw [applyOffset, passes_selectClock, passes_judgeClock, passes_detectSpike]

theorem passes_shadowTscUpdate (osTime : Timespec) (s : ENode) :
    (s.shadowTscUpdate osTime).1.passes = s.passes := by
  unfold shadowTscUpdate
  split <;> rfl

/-- The move of the answer `msg`. -/
theorem passes_applyDrift (osTime : Timespec) (s : ENode) (msg : DriftMsg) (count : ℤ) :
    ∃ small, (((s.shadowTscUpdate osTime).1.applyDrift msg).storeRecvd count).passes =
      (s.passes.detect ((s.shadowTscUpdate osTime).1.readOffset msg).isSpike).select small := by
  have hread : ((s.shadowTscUpdate osTime).1.readOffset msg).passes = s.passes :=
    passes_shadowTscUpdate osTime s
  refine ⟨((s.shadowTscUpdate osTime).1.readOffset msg).detectSpike.judgeClock.isSmall, ?_⟩
  rw [← hread]
  exact passes_applyOffset _

theorem passes_handleDrift {buff : List UInt8} (h : buff.length = dMsgExpectedLen) (s : ENode)
    (amb : Ambient) : ∃ small, (s.handleDrift buff amb).node.passes =
      (s.passes.detect ((s.shadowTscUpdate amb.osTime).1.readOffset (readDrift buff)).isSpike).select
        small := by
  rw [handleDrift_of_length h]
  exact passes_applyDrift amb.osTime s _ _

end ENode

-- ---------------------------------------------------------------------------
-- Everything else keeps the machine, apart from discalibrations
-- ---------------------------------------------------------------------------

/-- `s'` has what the frequency training keeps between two answers as it is in `s`. -/
structure KeepsPass (s s' : ENode) : Prop where
  passCount : s'.statics.passCount = s.statics.passCount
  enterFreq : s'.statics.enterFreq = s.statics.enterFreq
  trainStartTs : s'.statics.trainStartTs = s.statics.trainStartTs

namespace KeepsPass

variable {s m s' : ENode}

theorem of_statics (h : s'.statics = s.statics) : KeepsPass s s' :=
  ⟨by rw [h], by rw [h], by rw [h]⟩

theorem trans (h₁ : KeepsPass s m) (h₂ : KeepsPass m s') : KeepsPass s s' :=
  ⟨h₂.passCount.trans h₁.passCount, h₂.enterFreq.trans h₁.enterFreq,
    h₂.trainStartTs.trans h₁.trainStartTs⟩

end KeepsPass

namespace ENode

theorem shadows_keepsPass {s m : ENode} (h : s.shadows m) : KeepsPass s m := by
  rcases h with rfl | ⟨osTime, rfl⟩
  · exact .of_statics rfl
  · unfold shadowTscUpdate
    split <;> exact .of_statics rfl

theorem handleMessage_keepsPass {payload : List UInt8} (hdrift : ¬ IsDrift payload) (s : ENode)
    (src : Addr) (amb : Ambient) : KeepsPass s (s.handleMessage payload src amb).node := by
  obtain ⟨m, hshadows, hwrites⟩ := s.handleMessage_writes_shadowed payload src amb
  apply (shadows_keepsPass hshadows).trans
  generalize (s.handleMessage payload src amb).node = n at hwrites
  cases hwrites with
  | drift hdrift' => exact absurd hdrift' hdrift
  | _ => exact .of_statics rfl

end ENode

theorem monitorStep_keepsPass (b : Build) (s : ENode) (amb : Ambient) (pc : MonitorPc) :
    KeepsPass s (monitorStep b s amb pc).2.1 := by
  rw [monitorStep_eq_setMonitor]
  exact ⟨rfl, rfl, rfl⟩

theorem refreshStep_keepsPass (s : ENode) (amb : Ambient) (pc : RefreshPc) :
    KeepsPass s (refreshStep s amb pc).2.1 := by
  rw [refreshStep_eq_setRefresh]
  exact ⟨rfl, rfl, rfl⟩

/-- Only a Drift message writes the counter and the start of the training. -/
theorem System.Effect.keepsPass {b : Build} {s : System} {a : Action} {es : List Event} {n : ENode}
    (h : System.Effect b s a es n)
    (hdrift : ∀ payload src amb, a = .recv payload src amb → ¬ IsDrift payload) :
    KeepsPass s.node n := by
  cases h with
  | monitor amb => exact monitorStep_keepsPass b s.node amb s.monitor
  | refresh amb => exact refreshStep_keepsPass s.node amb s.refresh
  | recv payload src amb => exact ENode.handleMessage_keepsPass (hdrift payload src amb rfl) _ _ _
  | recvFailed payload src amb =>
      exact (ENode.handleMessage_keepsPass (hdrift payload src amb rfl) s.node src amb).trans
        (.of_statics rfl)
  | addSibling addr sendOk =>
      unfold ENode.addSibling
      split_ifs <;> exact .of_statics rfl
  | clientReturn i memTsc node ts hread =>
      obtain rfl : n = s.node.readClock.1 :=
        congrArg Prod.fst (ENode.getTimestamp_eq_some hread)
      exact .of_statics rfl
  | _ => exact .of_statics rfl

/-- The state in which `select_clock` handles the Drift message that the step delivers. -/
def NodeStep.selects (t : NodeStep) : Option NodeState :=
  match t.act with
  | .recv payload _ amb =>
    if IsDrift payload then
      some (t.pre.node.passes.detect ((t.pre.node.shadowTscUpdate amb.osTime).1.readOffset
        (readDrift payload)).isSpike).nodeState
    else none
  | _ => none

/-- What a step does to the machine. -/
inductive PassMove (t : NodeStep) : Prop where
  | answer (spike small : Bool)
      (hselects : t.selects = some (t.pre.node.passes.detect spike).nodeState)
      (hpost : t.post.node.passes = (t.pre.node.passes.detect spike).select small)
  | discalibrate (hdis : Discalibrates t.pre t.act) (hselects : t.selects = none)
      (hpost : t.post.node.passes = t.pre.node.passes.discalibrate)
  | keep (hselects : t.selects = none) (hpost : t.post.node.passes = t.pre.node.passes)

theorem NodeStep.selects_of_drift {t : NodeStep} {payload : List UInt8} {src : Addr}
    {amb : Ambient} (hact : t.act = .recv payload src amb) (hdrift : IsDrift payload) :
    t.selects = some (t.pre.node.passes.detect ((t.pre.node.shadowTscUpdate amb.osTime).1.readOffset
      (readDrift payload)).isSpike).nodeState := by
  simp only [NodeStep.selects, hact, if_pos hdrift]

theorem NodeStep.passMove {b : Build} {t : NodeStep} (hs : t.IsStep (System.step b)) :
    PassMove t := by
  by_cases hanswer : ∃ payload src amb, t.act = .recv payload src amb ∧ IsDrift payload
  case pos =>
    obtain ⟨payload, src, amb, hact, hdrift⟩ := hanswer
    obtain ⟨small, hpost⟩ := t.pre.node.passes_handleDrift hdrift.2 amb
    refine .answer _ small (NodeStep.selects_of_drift hact hdrift) ?_
    rw [NodeStep.post_of_drift hs hact hdrift, hpost]
  case neg =>
    have hother : ∀ payload src amb, t.act = .recv payload src amb → ¬ IsDrift payload :=
      fun payload src amb hact hdrift => hanswer ⟨payload, src, amb, hact, hdrift⟩
    have hselects : t.selects = none := by
      unfold NodeStep.selects
      split
      case h_1 payload src amb hact => exact if_neg (hother payload src amb hact)
      case h_2 => rfl
    have hkeeps := (NodeStep.effect hs).keepsPass hother
    cases NodeStep.clockMove hs with
    | keep hkeep _ =>
        refine .keep hselects ?_
        simp only [ENode.passes, hkeeps.passCount, hkeeps.enterFreq, hkeep.nodeState,
          hkeep.pollExponent]
    | start _ amb _ hpost =>
        refine .keep hselects ?_
        rw [hpost]
        rfl
    | discalibrate hdis m hkeep hpost =>
        refine .discalibrate hdis hselects ?_
        have hpoll : t.post.node.pollExponent = t.pre.node.pollExponent := by
          rw [hpost]
          exact hkeep.pollExponent
        have hstate : t.post.node.nodeState = .freq := by rw [hpost]
        simp only [ENode.passes, Passes.discalibrate, hkeeps.passCount, hkeeps.enterFreq, hpoll,
          hstate]
    | drift payload src amb hact hdrift _ => exact absurd hdrift (hother payload src amb hact)

-- ---------------------------------------------------------------------------
-- What holds in every reachable state
-- ---------------------------------------------------------------------------

/-- The poll exponent is the one of the constructor until the first training ends, and
    `MIN_POLL_EXPONENT` from then on. A training that has started goes on until it ends. -/
structure Passes.Sound (p : Passes) : Prop where
  passCount_nonneg : 0 ≤ p.passCount
  pollExponent : p.pollExponent = minPollExponent ∨
    p.pollExponent = 2 ∧ p.nodeState = .freq ∧ (p.enterFreq = true → p.passCount = 0)
  training : p.enterFreq = false → p.nodeState = .freq

namespace Passes.Sound

variable {p : Passes}

theorem detect (h : Sound p) (spike : Bool) : Sound (p.detect spike) := by
  unfold Passes.detect
  split
  case isTrue hspike =>
    refine ⟨h.passCount_nonneg, ?_, ?_⟩
    · exact .inl (h.pollExponent.resolve_right fun h => by simp [h.2.1] at hspike)
    · intro henter
      rw [h.training henter] at hspike
      cases hspike.1
  case isFalse => exact h

theorem select (h : Sound p) (small : Bool) : Sound (p.select small) := by
  have hcount := h.passCount_nonneg
  have hinterval := p.interval_pos
  have htrained (hstate : p.nodeState ≠ .freq) : p.pollExponent = minPollExponent :=
    h.pollExponent.resolve_right fun h => hstate h.2.1
  have hexponent : p.pollExponent = minPollExponent ∨ p.pollExponent = 2 :=
    h.pollExponent.imp_right And.left
  unfold Passes.select
  cases hstate : p.nodeState with
  | sync => exact h
  | spik =>
      have henter (hfalse : p.enterFreq = false) : False := by
        cases hstate.symm.trans (h.training hfalse)
      dsimp only
      split_ifs
      · exact ⟨le_refl _, .inl (htrained (by simp [hstate])), fun hfalse => (henter hfalse).elim⟩
      · refine ⟨?_, .inl (htrained (by simp [hstate])), fun hfalse => (henter hfalse).elim⟩
        dsimp only
        omega
  | freq =>
      dsimp only
      split_ifs with henter
      · refine ⟨?_, hexponent.imp_right fun h => ⟨h, rfl, nofun⟩, fun _ => rfl⟩
        dsimp only
        omega
      · exact ⟨le_refl _, .inl rfl, nofun⟩
      · refine ⟨?_, hexponent.imp_right fun h => ⟨h, rfl, fun htrue => absurd htrue henter⟩,
          fun _ => rfl⟩
        dsimp only
        omega

theorem discalibrate (h : Sound p) : Sound p.discalibrate where
  passCount_nonneg := h.passCount_nonneg
  pollExponent := h.pollExponent.imp_right fun h => ⟨h.1, rfl, h.2.2⟩
  training := fun _ => rfl

theorem step {b : Build} {t : NodeStep} (hs : t.IsStep (System.step b))
    (h : Sound t.pre.node.passes) : Sound t.post.node.passes := by
  cases NodeStep.passMove hs with
  | answer spike small _ hpost => exact hpost ▸ (h.detect spike).select small
  | discalibrate _ _ hpost => exact hpost ▸ h.discalibrate
  | keep _ hpost => exact hpost ▸ h

theorem of_initial {s : System} (h : s.Initial) : Sound s.node.passes := by
  obtain ⟨_, _, _, _, _, _, _, rfl⟩ := h
  exact ⟨le_refl _, .inr ⟨rfl, rfl, fun _ => rfl⟩, nofun⟩

theorem of_reachable {b : Build} {s : System} (h : s.Reachable b) : Sound s.node.passes := by
  obtain ⟨s₀, tr, hinit, hrun⟩ := h
  exact hrun.invariant (I := fun s => Sound s.node.passes) (fun _ hs h => h.step hs)
    (of_initial hinit)

end Passes.Sound

end TriHaRd
