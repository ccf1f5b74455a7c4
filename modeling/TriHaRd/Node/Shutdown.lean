-- SUMMARY: Stopping a node: the waits of stop_tasks, and which tasks have ended when it closes the socket.
import TriHaRd.Messages.Writes

/-!
# stop_tasks

`stop_tasks` requests the stop, waits for the flags of the four tasks in two
pairs, and closes the socket. Each wait ends as soon as one flag of its pair is
set, and the constructor leaves one of the four flags to what the memory held.
-/

namespace TriHaRd

open Lts

/-- The tasks with a flag that `stop_tasks` waits for. -/
inductive Task where
  | monitor
  | readfrom
  | refresh
  | trigger
deriving DecidableEq, Repr

/-- `monitor_stopped`, `readfrom_stopped`, `refresh_stopped` and `trigger_stopped`. -/
def ENode.stopped (s : ENode) : Task → Bool
  | .monitor => s.monitorStopped
  | .readfrom => s.readfromStopped
  | .refresh => s.refreshStopped
  | .trigger => s.triggerStopped

/-- The action sets the flag of the task, which ends with it. -/
def System.ends (s : System) (a : Action) : Task → Bool
  | .monitor => match a with
    | .monitor _ => decide (s.monitor = .loop) && s.node.stop
    | _ => false
  | .readfrom => match a with
    | .recvStop => true
    | .recv payload src amb => decide ((s.node.handleMessage payload src amb).retval ≠ success)
    | _ => false
  | .refresh => match a with
    | .refresh _ => decide (s.refresh = .head ∨ s.refresh = .waiting) && s.node.stop
    | _ => false
  | .trigger => decide (a = .triggerStop)

-- ---------------------------------------------------------------------------
-- Who writes the flags
-- ---------------------------------------------------------------------------

/-- `s'` has the flags of `s`. -/
def KeepsStopped (s s' : ENode) : Prop := ∀ task, s'.stopped task = s.stopped task

theorem KeepsStopped.of_eq {s s' : ENode} (hmonitor : s'.monitorStopped = s.monitorStopped)
    (hreadfrom : s'.readfromStopped = s.readfromStopped)
    (hrefresh : s'.refreshStopped = s.refreshStopped)
    (htrigger : s'.triggerStopped = s.triggerStopped) : KeepsStopped s s' := by
  intro task
  cases task with
  | monitor => exact hmonitor
  | readfrom => exact hreadfrom
  | refresh => exact hrefresh
  | trigger => exact htrigger

theorem KeepsStopped.refl (s : ENode) : KeepsStopped s s := fun _ => rfl

theorem KeepsStopped.trans {s m s' : ENode} (h₁ : KeepsStopped s m) (h₂ : KeepsStopped m s') :
    KeepsStopped s s' := fun task => (h₂ task).trans (h₁ task)

/-- No message writes a flag. -/
theorem Writes.keepsStopped {s s' : ENode} {payload : List UInt8} {src : Addr}
    (h : Writes s payload src s') : KeepsStopped s s' := by
  cases h <;> exact .of_eq rfl rfl rfl rfl

namespace ENode

variable {s m : ENode}

theorem shadows_keepsStopped (h : s.shadows m) : KeepsStopped s m := by
  rcases h with rfl | ⟨osTime, rfl⟩
  · exact .refl m
  · unfold shadowTscUpdate
    split <;> exact .of_eq rfl rfl rfl rfl

theorem handleMessage_keepsStopped (s : ENode) (payload : List UInt8) (src : Addr)
    (amb : Ambient) : KeepsStopped s (s.handleMessage payload src amb).node := by
  obtain ⟨m, hshadows, hwrites⟩ := s.handleMessage_writes_shadowed payload src amb
  exact (shadows_keepsStopped hshadows).trans hwrites.keepsStopped

end ENode

/-- The monitor writes its own flag only, when it ends. -/
theorem monitorStep_stopped (b : Build) (s : ENode) (amb : Ambient) (pc : MonitorPc) (task : Task) :
    (monitorStep b s amb pc).2.1.stopped task =
      (s.stopped task || (decide (task = .monitor) && (decide (pc = .loop) && s.stop))) := by
  have hkept {s' : ENode} (hpc : pc ≠ .loop) (h : KeepsStopped s s') : s'.stopped task =
      (s.stopped task || (decide (task = .monitor) && (decide (pc = .loop) && s.stop))) := by
    simp [h task, hpc]
  cases pc with
  | loop =>
      simp only [monitorStep]
      split_ifs with hstop
      · cases task <;> simp [ENode.stopped, hstop]
      · simp [hstop]
      · simp [hstop]
  | calibrateDrift =>
      have hsent : KeepsStopped s (s.sendRecvDriftMessage 0 0 amb).1 := by
        rw [ENode.sendRecvDriftMessage_eq_setRequest]
        exact .of_eq rfl rfl rfl rfl
      exact hkept (by simp) hsent
  | counted caller memTotalAexCount =>
      have hend : KeepsStopped s (s.endCounting memTotalAexCount).1 := by
        rw [ENode.endCounting_eq_setRound]
        exact .of_eq rfl rfl rfl rfl
      exact hkept (by simp) hend
  | polling caller stopTsc a =>
      have hleft : KeepsStopped s (ENode.endPolling b { s with tsc := amb.tsc } (amb.tsc - a)).1 := by
        rw [ENode.endPolling_eq_setRound]
        exact .of_eq rfl rfl rfl rfl
      refine hkept (by simp) ?_
      simp only [monitorStep]
      split_ifs
      · exact .of_eq rfl rfl rfl rfl
      · exact hleft
      · exact hleft
  | returned caller =>
      refine hkept (by simp) ?_
      cases caller with
      | monitor =>
          change KeepsStopped s (s.monitorNtp amb).1
          rw [ENode.monitorNtp_eq_setRequest]
          exact .of_eq rfl rfl rfl rfl
      | calibrate i addCountSum =>
          simp only [monitorStep]
          split_ifs <;> exact .of_eq rfl rfl rfl rfl
  | start | sampling | done => exact hkept (by simp) (.of_eq rfl rfl rfl rfl)
  | calibrateCount | counting =>
      refine hkept (by simp) ?_
      simp only [monitorStep]
      split_ifs <;> exact .of_eq rfl rfl rfl rfl

theorem refreshStep_stopped (s : ENode) (amb : Ambient) (pc : RefreshPc) (task : Task) :
    (refreshStep s amb pc).2.1.stopped task =
      (s.stopped task ||
        (decide (task = .refresh) && (decide (pc = .head ∨ pc = .waiting) && s.stop))) := by
  have hends : s.stop = true →
      ({ s with refreshStopped := true } : ENode).stopped task =
        (s.stopped task || (decide (task = .refresh) && (true && s.stop))) := by
    intro hstop
    cases task <;> simp [ENode.stopped, hstop]
  cases pc with
  | head =>
      simp only [refreshStep]
      split_ifs with hstop
      · exact hends hstop
      · simp [hstop]
  | waiting =>
      simp only [refreshStep]
      split_ifs with hstop
      · exact hends hstop
      · simp [hstop]
      · simp [hstop]
  | roundStart =>
      have hshadows := ENode.shadows_keepsStopped
        (.inr ⟨amb.osTime, rfl⟩ : s.shadows (s.shadowTscUpdate amb.osTime).1)
      simp [refreshStep, hshadows task]
  | send memTotalAexCount =>
      have hkeeps : KeepsStopped s (s.sendTaintedMessages amb).1 := .of_eq rfl rfl rfl rfl
      simp [refreshStep, hkeeps task]
  | spin memTotalAexCount referenceTsc =>
      simp only [refreshStep]
      split_ifs <;> simp
  | done => simp [refreshStep]

/-- A message sets the flag of the receive loop if its handler fails. -/
theorem System.stopped_of_recv {b : Build} {s s' : System} {payload : List UInt8} {src : Addr}
    {amb : Ambient} {es : List Event}
    (hs : System.step b s (.recv payload src amb) = some (s', es)) (task : Task) :
    s'.node.stopped task = (s.node.stopped task || s.ends (.recv payload src amb) task) := by
  have hkeeps := s.node.handleMessage_keepsStopped payload src amb
  simp only [step] at hs
  split at hs
  · split at hs
    case isTrue hretval =>
      obtain ⟨rfl, _⟩ := Prod.mk.inj (Option.some.inj hs)
      cases task <;> simp [hkeeps _, ends, hretval]
    case isFalse hretval =>
      obtain ⟨rfl, _⟩ := Prod.mk.inj (Option.some.inj hs)
      cases task with
      | readfrom => simp [ENode.stopped, ends, hretval]
      | monitor => exact (hkeeps .monitor).trans (Bool.or_false _).symm
      | refresh => exact (hkeeps .refresh).trans (Bool.or_false _).symm
      | trigger => exact (hkeeps .trigger).trans (Bool.or_false _).symm
  · cases hs

/-- The flag of a task is set by the step that ends the task, and by no other step. -/
theorem System.stopped_of_step {b : Build} {s s' : System} {a : Action} {es : List Event}
    (hs : System.step b s a = some (s', es)) (task : Task) :
    s'.node.stopped task = (s.node.stopped task || s.ends a task) := by
  have heffect := System.effect_of_step hs
  generalize hnode : s'.node = n at heffect ⊢
  cases heffect with
  | monitor amb =>
      rw [monitorStep_stopped]
      cases task <;> rfl
  | refresh amb =>
      rw [refreshStep_stopped]
      cases task <;> rfl
  | recv => exact hnode ▸ stopped_of_recv hs task
  | recvFailed => exact hnode ▸ stopped_of_recv hs task
  | addSibling addr sendOk =>
      have hkeeps : KeepsStopped s.node (s.node.addSibling addr sendOk).1 := by
        unfold ENode.addSibling
        split_ifs <;> exact .of_eq rfl rfl rfl rfl
      cases task <;> simp [hkeeps _, ends]
  | clientReturn i memTsc node ts hread =>
      obtain rfl : n = s.node.readClock.1 :=
        congrArg Prod.fst (ENode.getTimestamp_eq_some hread)
      cases task <;> simp [ENode.stopped, ENode.readClock, ends]
  | _ => cases task <;> simp [ENode.stopped, ENode.aexHandler, ends]

-- ---------------------------------------------------------------------------
-- stop_tasks
-- ---------------------------------------------------------------------------

inductive StopPc where
  /-- Before `stop_tasks` is called. -/
  | idle
  /-- In `while(!monitor_stopped&&!readfrom_stopped);` -/
  | waitFirst
  /-- In `while(!refresh_stopped && !trigger_stopped);` -/
  | waitSecond
  | closing
  | done
deriving DecidableEq, Repr

/-- A node with the thread that stops it. -/
structure Shutdown where
  system : System
  pc : StopPc
deriving DecidableEq, Repr

inductive ShutdownAction where
  | task (a : Action)
  /-- The next step of `stop_tasks`. -/
  | stopTasks
deriving DecidableEq, Repr

namespace Shutdown

def initial (s : System) : Shutdown := ⟨s, .idle⟩

/-- The next step of `stop_tasks`. -/
def stopTasks (s : Shutdown) : Option Shutdown :=
  match s.pc with
  | .idle => some { s with system.node.stop := true, pc := .waitFirst }
  | .waitFirst =>
    if !s.system.node.monitorStopped && !s.system.node.readfromStopped then some s
    else some { s with pc := .waitSecond }
  | .waitSecond =>
    if !s.system.node.refreshStopped && !s.system.node.triggerStopped then some s
    else some { s with pc := .closing }
  | .closing => some { s with system.node.sock := -1, pc := .done }
  | .done => none

/-- `none` means that the action cannot be taken now. `stop_tasks` is what requests the stop. -/
def step (b : Build) (s : Shutdown) : ShutdownAction → Option (Shutdown × List Event)
  | .task .stop => none
  | .task a => (System.step b s.system a).map fun (system, es) => ({ s with system := system }, es)
  | .stopTasks => s.stopTasks.map fun s => (s, [])

end Shutdown

abbrev ShutdownStep := Lts.Transition Shutdown ShutdownAction Event

abbrev ShutdownRun (b : Build) : Shutdown → List ShutdownStep → Shutdown → Prop :=
  Lts.Run (Shutdown.step b)

/-- The step ends the task. -/
def ShutdownStep.ends (t : ShutdownStep) (task : Task) : Bool :=
  match t.act with
  | .task a => t.pre.system.ends a task
  | .stopTasks => false

/-- The task has ended, and has set its flag. -/
def ended (past : List ShutdownStep) (task : Task) : Bool :=
  past.any fun t => ShutdownStep.ends t task

theorem ended_snoc (past : List ShutdownStep) (t : ShutdownStep) (task : Task) :
    ended (past ++ [t]) task = (ended past task || ShutdownStep.ends t task) := by
  simp [ended]

/-- If the step closes the socket, all tasks have ended. -/
def ClosesLast (past : List ShutdownStep) (t : ShutdownStep) : Prop :=
  t.act = .stopTasks → t.pre.pc = .closing → ∀ task, ended past task = true

/-- If the step closes the socket, the flags of each pair agree, and that of the receive loop has
    been set by the loop. -/
def ClosesOnAgreement (past : List ShutdownStep) (t : ShutdownStep) : Prop :=
  t.act = .stopTasks → t.pre.pc = .closing →
    t.pre.system.node.monitorStopped = t.pre.system.node.readfromStopped ∧
      t.pre.system.node.refreshStopped = t.pre.system.node.triggerStopped ∧
      (t.pre.system.node.readfromStopped = true → ended past .readfrom = true)

instance : DecidablePred (Function.uncurry ClosesLast) := fun (past, t) =>
  decidable_of_iff (t.act = .stopTasks → t.pre.pc = .closing →
      ∀ task ∈ [Task.monitor, .readfrom, .refresh, .trigger], ended past task = true) <| by
    refine imp_congr_right fun _ => imp_congr_right fun _ => ?_
    exact ⟨fun h task => h task (by cases task <;> simp), fun h task _ => h task⟩

instance : DecidablePred (Function.uncurry ClosesOnAgreement) := fun (past, t) =>
  inferInstanceAs (Decidable (t.act = .stopTasks → t.pre.pc = .closing →
    t.pre.system.node.monitorStopped = t.pre.system.node.readfromStopped ∧
      t.pre.system.node.refreshStopped = t.pre.system.node.triggerStopped ∧
      (t.pre.system.node.readfromStopped = true → ended past .readfrom = true)))

-- ---------------------------------------------------------------------------
-- The flags and the waits
-- ---------------------------------------------------------------------------

/-- A flag that the constructor sets tells whether its task has ended. That of the receive loop may
    have been set before. After a wait, one flag of its pair is set. -/
structure Waited (past : List ShutdownStep) (s : Shutdown) : Prop where
  constructed (task : Task) (h : task ≠ .readfrom) : s.system.node.stopped task = ended past task
  readfrom : ended past .readfrom = true → s.system.node.readfromStopped = true
  first (h : s.pc = .waitSecond ∨ s.pc = .closing ∨ s.pc = .done) :
    s.system.node.monitorStopped = true ∨ s.system.node.readfromStopped = true
  second (h : s.pc = .closing ∨ s.pc = .done) :
    s.system.node.refreshStopped = true ∨ s.system.node.triggerStopped = true

theorem Waited.initial {s : System} (h : s.Initial) : Waited [] (.initial s) := by
  obtain ⟨mem, port, tscFreq, shadowTscFreq, sleepAttackMs, timeAuthority, fd, rfl⟩ := h
  refine ⟨fun task htask => ?_, fun h => ?_, fun h => ?_, fun h => ?_⟩
  · cases task with
    | readfrom => exact absurd rfl htask
    | monitor => rfl
    | refresh => rfl
    | trigger => rfl
  · cases h
  · simp [Shutdown.initial] at h
  · simp [Shutdown.initial] at h

/-- A step of a task leaves `stop_tasks` where it is. -/
theorem Shutdown.task_of_step {b : Build} {s s' : Shutdown} {a : Action} {es : List Event}
    (hs : Shutdown.step b s (.task a) = some (s', es)) :
    System.step b s.system a = some (s'.system, es) ∧ s'.pc = s.pc := by
  have htask : (System.step b s.system a).map
      (fun (system, es) => (({ s with system := system } : Shutdown), es)) = some (s', es) := by
    cases a with
    | stop => cases hs
    | _ => exact hs
  obtain ⟨⟨system, es'⟩, hstep, heq⟩ := Option.map_eq_some_iff.mp htask
  cases heq
  exact ⟨hstep, rfl⟩

theorem Waited.task {b : Build} {past : List ShutdownStep} {t : ShutdownStep} {a : Action}
    (hs : t.IsStep (Shutdown.step b)) (hact : t.act = .task a) (h : Waited past t.pre) :
    Waited (past ++ [t]) t.post := by
  rw [Lts.Transition.IsStep, hact] at hs
  obtain ⟨hstep, hpc⟩ := Shutdown.task_of_step hs
  have hstopped := System.stopped_of_step hstep
  have hends (task : Task) : t.ends task = t.pre.system.ends a task := by
    simp [ShutdownStep.ends, hact]
  have hmono (task : Task) (hset : t.pre.system.node.stopped task = true) :
      t.post.system.node.stopped task = true := by simp [hstopped, hset]
  refine ⟨fun task htask => ?_, fun hended => ?_, fun hpast => ?_, fun hpast => ?_⟩
  · rw [ended_snoc, hstopped, h.constructed task htask, hends]
  · rw [ended_snoc, Bool.or_eq_true] at hended
    rcases hended with hbefore | hnow
    · exact hmono .readfrom (h.readfrom hbefore)
    · exact (hstopped .readfrom).trans (by rw [← hends, hnow, Bool.or_true])
  · exact (h.first (hpc ▸ hpast)).imp (hmono .monitor) (hmono .readfrom)
  · exact (h.second (hpc ▸ hpast)).imp (hmono .refresh) (hmono .trigger)

/-- A step of `stop_tasks` writes no flag, and passes a wait only if one flag of the pair is set. -/
theorem Shutdown.of_stopTasks {s s' : Shutdown} (h : s.stopTasks = some s') :
    KeepsStopped s.system.node s'.system.node ∧
      (s'.pc = .waitSecond → s.pc = .waitSecond ∨
        (s.system.node.monitorStopped = true ∨ s.system.node.readfromStopped = true)) ∧
      (s'.pc = .closing → s.pc = .waitSecond ∧
        (s.system.node.refreshStopped = true ∨ s.system.node.triggerStopped = true)) ∧
      (s'.pc = .done → s.pc = .closing) := by
  unfold stopTasks at h
  cases hpc : s.pc with
  | idle =>
      rw [hpc] at h
      cases h
      exact ⟨.of_eq rfl rfl rfl rfl, by simp, by simp, by simp⟩
  | waitFirst =>
      rw [hpc] at h
      dsimp only at h
      split at h
      · cases h
        exact ⟨.refl _, by simp [hpc], by simp [hpc], by simp [hpc]⟩
      · rename_i hflags
        cases h
        exact ⟨.refl _, fun _ => .inr (by simpa [or_iff_not_imp_left] using hflags), by simp, by simp⟩
  | waitSecond =>
      rw [hpc] at h
      dsimp only at h
      split at h
      · cases h
        exact ⟨.refl _, fun _ => .inl rfl, by simp [hpc], by simp [hpc]⟩
      · rename_i hflags
        cases h
        exact ⟨.refl _, by simp, fun _ => ⟨rfl, by simpa [or_iff_not_imp_left] using hflags⟩, by simp⟩
  | closing =>
      rw [hpc] at h
      cases h
      exact ⟨.of_eq rfl rfl rfl rfl, by simp, by simp, fun _ => rfl⟩
  | done =>
      rw [hpc] at h
      cases h

theorem Waited.stopTasks {b : Build} {past : List ShutdownStep} {t : ShutdownStep}
    (hs : t.IsStep (Shutdown.step b)) (hact : t.act = .stopTasks) (h : Waited past t.pre) :
    Waited (past ++ [t]) t.post := by
  have hended (task : Task) : ended (past ++ [t]) task = ended past task := by
    rw [ended_snoc, ShutdownStep.ends, hact]
    exact Bool.or_false _
  rw [Lts.Transition.IsStep, hact] at hs
  obtain ⟨s', hstep, heq⟩ := Option.map_eq_some_iff.mp hs
  obtain ⟨rfl, _⟩ := Prod.mk.inj heq
  obtain ⟨hkeeps, hfirst, hsecond, hdone⟩ := Shutdown.of_stopTasks hstep
  refine ⟨fun task htask => ?_, fun hreadfrom => ?_, fun hpast => ?_, fun hpast => ?_⟩
  · rw [hended, hkeeps task, h.constructed task htask]
  · rw [hended] at hreadfrom
    exact (hkeeps .readfrom).trans (h.readfrom hreadfrom)
  · have hflags : t.pre.system.node.monitorStopped = true ∨
        t.pre.system.node.readfromStopped = true := by
      rcases hpast with hpc | hpc | hpc
      · exact (hfirst hpc).elim (fun hbefore => h.first (.inl hbefore)) id
      · exact h.first (.inl (hsecond hpc).1)
      · exact h.first (.inr (.inl (hdone hpc)))
    exact hflags.imp (hkeeps .monitor).trans (hkeeps .readfrom).trans
  · have hflags : t.pre.system.node.refreshStopped = true ∨
        t.pre.system.node.triggerStopped = true := by
      rcases hpast with hpc | hpc
      · exact (hsecond hpc).2
      · exact h.second (.inl (hdone hpc))
    exact hflags.imp (hkeeps .refresh).trans (hkeeps .trigger).trans

theorem Waited.step {b : Build} {past : List ShutdownStep} {t : ShutdownStep}
    (hs : t.IsStep (Shutdown.step b)) (h : Waited past t.pre) : Waited (past ++ [t]) t.post := by
  cases hact : t.act with
  | task a => exact h.task hs hact
  | stopTasks => exact h.stopTasks hs hact

/-- Past both waits, all tasks have ended exactly when the flags agree and none is left over. -/
theorem closesLast_iff {past : List ShutdownStep} {t : ShutdownStep} (h : Waited past t.pre) :
    ClosesLast past t ↔ ClosesOnAgreement past t := by
  refine imp_congr_right fun _ => forall_congr' fun hclosing => ?_
  have hmonitor := h.constructed .monitor (by simp)
  have hrefresh := h.constructed .refresh (by simp)
  have htrigger := h.constructed .trigger (by simp)
  constructor
  · intro hall
    refine ⟨hmonitor.trans ?_, hrefresh.trans ?_, fun _ => hall .readfrom⟩
    · rw [hall .monitor, h.readfrom (hall .readfrom)]
    · exact (hall .refresh).trans ((hall .trigger).symm.trans htrigger.symm)
  · rintro ⟨hfirst, hsecond, hloop⟩ task
    have hflags := h.first (.inr (.inl hclosing))
    rw [hfirst, or_self] at hflags
    have hflags' := h.second (.inl hclosing)
    rw [hsecond, or_self] at hflags'
    cases task with
    | monitor => exact hmonitor.symm.trans (hfirst.trans hflags)
    | readfrom => exact hloop hflags
    | refresh => exact hrefresh.symm.trans (hsecond.trans hflags')
    | trigger => exact htrigger.symm.trans hflags'

/-- In every run of a node and the thread that stops it, whatever the memory held, `stop_tasks`
    closes the socket after all tasks have ended exactly when the flags of each pair agree at that
    point and that of the receive loop is the loop's own. -/
theorem closes_last_iff {b : Build} {s₀ : System} {s : Shutdown} {tr : List ShutdownStep}
    (hinit : s₀.Initial) (hrun : ShutdownRun b (.initial s₀) tr s) :
    EachStep ClosesLast tr ↔ EachStep ClosesOnAgreement tr :=
  hrun.eachStep_iff (I := Waited) (.initial hinit) (fun _ _ _ h => closesLast_iff h)
    fun _ _ hs h _ => h.step hs

/-- The stop is requested, and the tasks end one after the other before `stop_tasks` looks at
    their flags. -/
def Scenario.endingInTurn : List ShutdownAction :=
  [.task (.monitor (reading 0)), .stopTasks, .task .recvStop, .task (.monitor (reading 0)),
    .task (.refresh (reading 0)), .task .triggerStop, .stopTasks, .stopTasks, .stopTasks]

open Scenario in
/-- The theorem at a node all of whose tasks end. -/
theorem closes_last_iff_inTurn :
    ∃ tr s, ShutdownRun .aexNotify (.initial Scenario.boot) tr s ∧ s.pc = .done ∧
      EachStep ClosesLast tr := by
  obtain ⟨tr, s, hrun, hs⟩ := exists_run_of_exec (Shutdown.step .aexNotify)
    (.initial Scenario.boot) endingInTurn
    (fun tr s => s.pc = .done ∧ EachStep ClosesOnAgreement tr) (by decide +kernel)
  obtain ⟨hdone, hagree⟩ := hs
  exact ⟨tr, s, hrun, hdone, (closes_last_iff initial_boot hrun).mpr hagree⟩

open Scenario in
/-- The monitor and the trigger end first, and the socket is closed under the other two tasks. -/
theorem closes_early :
    ¬ ∀ (b : Build) (s₀ : System) (s : Shutdown) (tr : List ShutdownStep), s₀.Initial →
        ShutdownRun b (.initial s₀) tr s → EachStep ClosesLast tr := by
  intro h
  obtain ⟨tr, s, hrun, hs⟩ := exists_run_of_exec (Shutdown.step .aexNotify)
    (.initial Scenario.boot)
    [.task (.monitor (reading 0)), .stopTasks, .task (.monitor (reading 0)), .stopTasks,
      .task .triggerStop, .stopTasks, .stopTasks]
    (fun tr _ => ¬ EachStep ClosesLast tr) (by decide +kernel)
  exact hs (h _ _ _ _ initial_boot hrun)

end TriHaRd
