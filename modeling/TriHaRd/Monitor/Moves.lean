-- SUMMARY: What each step of a node does to the counters of its monitor, and which steps read the TSC.
import TriHaRd.Node.Frame

/-!
# Moves of the monitor

The counter of uninterrupted rounds belongs to the monitor alone. The frequency
and the flag `calib_count` belong to the monitor and to the Drift answers. All
other steps leave them alone, an attacker's as well as an honest node's.

The second half is about the readings of the monitor's thread: `readings` are the
TSC values that it has read in a history.
-/

namespace TriHaRd

open Lts

/-- `s'` has the counter of uninterrupted rounds of `s`, and its bound, and no fewer
    interruptions. -/
structure KeepsRounds (s s' : ENode) : Prop where
  nbUninterrRounds : s'.nbUninterrRounds = s.nbUninterrRounds
  selftaintingRounds : s'.selftaintingRounds = s.selftaintingRounds
  totalAexCount_le : s.totalAexCount ≤ s'.totalAexCount

/-- `s'` has the frequency of `s` and its flag for the calibration. -/
structure KeepsTraining (s s' : ENode) : Prop where
  tscFreq : s'.tscFreq = s.tscFreq
  calibCount : s'.calibCount = s.calibCount

namespace KeepsRounds

variable {s m s' : ENode}

theorem refl (s : ENode) : KeepsRounds s s := ⟨rfl, rfl, le_refl _⟩

theorem trans (h₁ : KeepsRounds s m) (h₂ : KeepsRounds m s') : KeepsRounds s s' :=
  ⟨h₂.nbUninterrRounds.trans h₁.nbUninterrRounds,
    h₂.selftaintingRounds.trans h₁.selftaintingRounds,
    h₁.totalAexCount_le.trans h₂.totalAexCount_le⟩

end KeepsRounds

namespace KeepsTraining

variable {s m s' : ENode}

theorem refl (s : ENode) : KeepsTraining s s := ⟨rfl, rfl⟩

theorem trans (h₁ : KeepsTraining s m) (h₂ : KeepsTraining m s') : KeepsTraining s s' :=
  ⟨h₂.tscFreq.trans h₁.tscFreq, h₂.calibCount.trans h₁.calibCount⟩

end KeepsTraining

/-! ## The functions that keep them -/

namespace ENode

variable {s m : ENode}

theorem shadows_keepsRounds (h : s.shadows m) : KeepsRounds s m := by
  rcases h with rfl | ⟨osTime, rfl⟩
  · exact .refl m
  · unfold shadowTscUpdate
    split
    · exact ⟨rfl, rfl, by simp⟩
    · exact .refl s

theorem shadows_keepsTraining (h : s.shadows m) : KeepsTraining s m := by
  rcases h with rfl | ⟨osTime, rfl⟩
  · exact .refl m
  · unfold shadowTscUpdate
    split <;> exact ⟨rfl, rfl⟩

/-- A drift request writes the clock and the members of the request. -/
theorem sendRecvDriftMessage_keeps (s : ENode) (sleepTimeMs sleepMs : ℤ) (amb : Ambient) :
    KeepsRounds s (s.sendRecvDriftMessage sleepTimeMs sleepMs amb).1 ∧
      KeepsTraining s (s.sendRecvDriftMessage sleepTimeMs sleepMs amb).1 := by
  have hshadows : s.shadows (s.shadowTscUpdate amb.osTime).1 := .inr ⟨amb.osTime, rfl⟩
  have hrounds : KeepsRounds (s.shadowTscUpdate amb.osTime).1
      (s.sendRecvDriftMessage sleepTimeMs sleepMs amb).1 := ⟨rfl, rfl, le_refl _⟩
  have htraining : KeepsTraining (s.shadowTscUpdate amb.osTime).1
      (s.sendRecvDriftMessage sleepTimeMs sleepMs amb).1 := ⟨rfl, rfl⟩
  exact ⟨(shadows_keepsRounds hshadows).trans hrounds,
    (shadows_keepsTraining hshadows).trans htraining⟩

theorem monitorNtp_keeps (s : ENode) (amb : Ambient) :
    KeepsRounds s (s.monitorNtp amb).1 ∧ KeepsTraining s (s.monitorNtp amb).1 := by
  have hsent (n : ℤ) := sendRecvDriftMessage_keeps
    { s with statics.pollCount := n } 0 s.sleepAttackMs amb
  unfold monitorNtp ntp
  dsimp only
  split_ifs
  · exact ⟨⟨(hsent 0).1.1, (hsent 0).1.2, (hsent 0).1.3⟩, ⟨(hsent 0).2.1, (hsent 0).2.2⟩⟩
  · exact ⟨⟨rfl, rfl, le_refl _⟩, ⟨rfl, rfl⟩⟩
  · exact ⟨⟨rfl, rfl, le_refl _⟩, ⟨rfl, rfl⟩⟩

end ENode

theorem refreshStep_keeps (s : ENode) (amb : Ambient) (pc : RefreshPc) :
    KeepsRounds s (refreshStep s amb pc).2.1 ∧ KeepsTraining s (refreshStep s amb pc).2.1 := by
  cases pc with
  | roundStart =>
      have hshadows : s.shadows (s.shadowTscUpdate amb.osTime).1 := .inr ⟨amb.osTime, rfl⟩
      exact ⟨ENode.shadows_keepsRounds hshadows, ENode.shadows_keepsTraining hshadows⟩
  | send memTotalAexCount => exact ⟨⟨rfl, rfl, le_refl _⟩, ⟨rfl, rfl⟩⟩
  | done => exact ⟨.refl s, .refl s⟩
  | _ =>
      simp only [refreshStep]
      split_ifs <;> exact ⟨⟨rfl, rfl, le_refl _⟩, ⟨rfl, rfl⟩⟩

/-- No message writes the counter. -/
theorem Writes.keepsRounds {s s' : ENode} {payload : List UInt8} {src : Addr}
    (h : Writes s payload src s') : KeepsRounds s s' := by
  cases h <;> exact ⟨rfl, rfl, le_refl _⟩

/-- Only a Drift message writes the frequency or the flag. -/
theorem Writes.keepsTraining {s s' : ENode} {payload : List UInt8} {src : Addr}
    (h : Writes s payload src s') (hdrift : ¬ IsDrift payload) : KeepsTraining s s' := by
  cases h with
  | drift hdrift' => exact absurd hdrift' hdrift
  | _ => exact ⟨rfl, rfl⟩

/-! ## All steps but the monitor's -/

namespace System.Effect

variable {b : Build} {s : System} {a : Action} {es : List Event} {n : ENode}

theorem keepsRounds (h : System.Effect b s a es n) (hact : ∀ amb, a ≠ .monitor amb) :
    KeepsRounds s.node n := by
  have hmessage (payload : List UInt8) (src : Addr) (amb : Ambient) :
      KeepsRounds s.node (s.node.handleMessage payload src amb).node := by
    obtain ⟨m, hshadows, hwrites⟩ := s.node.handleMessage_writes_shadowed payload src amb
    exact (ENode.shadows_keepsRounds hshadows).trans hwrites.keepsRounds
  cases h with
  | monitor amb => exact absurd rfl (hact amb)
  | refresh amb => exact (refreshStep_keeps s.node amb s.refresh).1
  | recv payload src amb => exact hmessage payload src amb
  | recvFailed payload src amb =>
      exact (hmessage payload src amb).trans ⟨rfl, rfl, le_refl _⟩
  | addSibling addr sendOk =>
      unfold ENode.addSibling
      split_ifs <;> exact ⟨rfl, rfl, le_refl _⟩
  | clientReturn i memTsc node ts hread =>
      obtain rfl : n = s.node.readClock.1 :=
        congrArg Prod.fst (ENode.getTimestamp_eq_some hread)
      exact ⟨rfl, rfl, le_refl _⟩
  | aex amb => exact ⟨rfl, rfl, by simp [ENode.aexHandler]⟩
  | _ => exact ⟨rfl, rfl, le_refl _⟩

theorem keepsTraining (h : System.Effect b s a es n) (hact : ∀ amb, a ≠ .monitor amb)
    (hdrift : ∀ payload src amb, a = .recv payload src amb → ¬ IsDrift payload) :
    KeepsTraining s.node n := by
  have hmessage (payload : List UInt8) (src : Addr) (amb : Ambient) (hother : ¬ IsDrift payload) :
      KeepsTraining s.node (s.node.handleMessage payload src amb).node := by
    obtain ⟨m, hshadows, hwrites⟩ := s.node.handleMessage_writes_shadowed payload src amb
    exact (ENode.shadows_keepsTraining hshadows).trans (hwrites.keepsTraining hother)
  cases h with
  | monitor amb => exact absurd rfl (hact amb)
  | refresh amb => exact (refreshStep_keeps s.node amb s.refresh).2
  | recv payload src amb => exact hmessage payload src amb (hdrift payload src amb rfl)
  | recvFailed payload src amb =>
      exact (hmessage payload src amb (hdrift payload src amb rfl)).trans ⟨rfl, rfl⟩
  | addSibling addr sendOk =>
      unfold ENode.addSibling
      split_ifs <;> exact ⟨rfl, rfl⟩
  | clientReturn i memTsc node ts hread =>
      obtain rfl : n = s.node.readClock.1 :=
        congrArg Prod.fst (ENode.getTimestamp_eq_some hread)
      exact ⟨rfl, rfl⟩
  | _ => exact ⟨rfl, rfl⟩

end System.Effect

/-! ## The steps of the monitor -/

/-- A step of the monitor is what `monitorStep` says. -/
theorem NodeStep.of_monitor {b : Build} {t : NodeStep} {amb : Ambient}
    (hs : t.IsStep (System.step b)) (hact : t.act = .monitor amb) :
    t.post.monitor = (monitorStep b t.pre.node amb t.pre.monitor).1 ∧
      t.post.node = (monitorStep b t.pre.node amb t.pre.monitor).2.1 ∧
      t.events = (monitorStep b t.pre.node amb t.pre.monitor).2.2 := by
  have hstep : System.step b t.pre (.monitor amb) = some (t.post, t.events) := hact ▸ hs
  obtain ⟨hpost, hevents⟩ := Prod.mk.inj (Option.some.inj hstep)
  rw [← hpost, ← hevents]
  exact ⟨rfl, rfl, rfl⟩

/-- The monitor does not write the frequency. -/
theorem monitorStep_tscFreq (b : Build) (s : ENode) (amb : Ambient) (pc : MonitorPc) :
    (monitorStep b s amb pc).2.1.tscFreq = s.tscFreq := by
  rw [monitorStep_eq_setMonitor]
  rfl

/-! ## Readings -/

/-- Does the next step of the monitor execute `rdtscp`? -/
def MonitorPc.readsTsc (s : ENode) : MonitorPc → Bool
  | .start => true
  | .loop => !s.stop && s.calibCount
  | .calibrateCount i _ => decide (i ≤ 10) && !s.stop
  | .counting .. => true
  | .sampling .. => true
  | .polling .. => true
  | .calibrateDrift => false
  | .counted .. => false
  | .returned .. => false
  | .done => false

/-- The TSC value that the monitor reads in the step. -/
def NodeStep.reading (t : NodeStep) : Option ℤ :=
  match t.act with
  | .monitor amb => if t.pre.monitor.readsTsc t.pre.node then some amb.tsc else none
  | _ => none

/-- The readings of a history, oldest first. -/
def readings (past : List NodeStep) : List ℤ := past.filterMap NodeStep.reading

theorem getLast?_readings_snoc (past : List NodeStep) (t : NodeStep) :
    (readings (past ++ [t])).getLast? = t.reading.or (readings past).getLast? := by
  cases hreading : t.reading with
  | none => simp [readings, List.filterMap_append, hreading]
  | some tsc => simp [readings, List.filterMap_append, hreading]

/-- In its inner loop, the polling build compares with the last reading. -/
def ComparesLast (past : List NodeStep) (s : System) : Prop :=
  ∀ caller stopTsc a, s.monitor = .polling caller stopTsc a → (readings past).getLast? = some a

theorem ComparesLast.step {useSgx2 : Bool} {past : List NodeStep} {t : NodeStep}
    (hs : t.IsStep (System.step (.polling useSgx2))) (h : ComparesLast past t.pre) :
    ComparesLast (past ++ [t]) t.post := by
  intro caller stopTsc a hpost
  rw [getLast?_readings_snoc]
  by_cases hact : ∃ amb, t.act = .monitor amb
  case neg =>
    have hother : ∀ amb, t.act ≠ .monitor amb := not_exists.mp hact
    have hreading : t.reading = none := by
      unfold NodeStep.reading
      split
      case h_1 amb hmonitor => exact absurd hmonitor (hother amb)
      case h_2 => rfl
    rw [System.monitor_of_step hs hother] at hpost
    rw [hreading, Option.none_or]
    exact h caller stopTsc a hpost
  case pos =>
    obtain ⟨amb, hact⟩ := hact
    have hmonitor := (NodeStep.of_monitor hs hact).1
    rw [hpost] at hmonitor
    have hreads : t.pre.monitor.readsTsc t.pre.node = true → a = amb.tsc →
        t.reading.or (readings past).getLast? = some a := by
      intro hreads ha
      simp [NodeStep.reading, hact, hreads, ha]
    cases hpc : t.pre.monitor with
    | sampling caller' stopTsc' =>
        rw [hpc] at hmonitor hreads
        cases hmonitor
        exact hreads rfl rfl
    | polling caller' stopTsc' a' =>
        rw [hpc] at hmonitor hreads
        simp only [monitorStep] at hmonitor
        split_ifs at hmonitor
        cases hmonitor
        exact hreads rfl rfl
    | returned caller' =>
        rw [hpc] at hmonitor
        cases caller' with
        | monitor => cases hmonitor
        | calibrate i addCountSum =>
            simp only [monitorStep] at hmonitor
            split_ifs at hmonitor
    | start | calibrateDrift | counted | done =>
        rw [hpc] at hmonitor
        cases hmonitor
    | loop | calibrateCount | counting =>
        rw [hpc] at hmonitor
        simp only [monitorStep, MonitorPc.enter] at hmonitor
        split_ifs at hmonitor

/-- In every run of the polling build from its start, a gap is measured from the last reading. -/
theorem comparesLast_of_start {s : System} (h : s.monitor = .start) : ComparesLast [] s := by
  intro caller stopTsc a hpolling
  rw [h] at hpolling
  cases hpolling

end TriHaRd
