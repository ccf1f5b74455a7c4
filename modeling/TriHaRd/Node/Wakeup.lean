-- SUMMARY: The tasks of a node by single accesses to locks, flags and the condition variable, and the wake-up of refresh at shutdown.
import TriHaRd.Base.Run
import TriHaRd.Base.Mutex
import TriHaRd.Node.State

/-!
# Waking refresh

`refresh` waits on `tainted_cond`, and `stop_tasks` signals it once. Here every
access to a lock, to a flag or to the condition variable is a step of its own, and
the steps of the threads interleave in any order. A signal removes the first
waiter from the queue of the condition variable and is not remembered, and nothing
but a signal wakes a waiter.
-/

namespace TriHaRd

open Lts

-- ---------------------------------------------------------------------------
-- What the threads share
-- ---------------------------------------------------------------------------

/-- The threads that use `tainted_mutex`. The AEX handler runs on the thread of the monitor. -/
inductive Thread where
  | refresh
  | trigger
  | stopper
  | monitor
  | handler
  | readfrom
deriving DecidableEq, Repr

/-- `mutex` is the owner of `tainted_mutex` and `queue` who waits on `tainted_cond`. `readers` and
    `writer` are the state of `stop_rwlock`. -/
structure Shared where
  stop : Bool
  tainted : Bool
  calibCount : Bool
  mutex : Option Thread
  queue : List Thread
  readers : ℕ
  writer : Bool
  monitorStopped : Bool
  readfromStopped : Bool
  refreshStopped : Bool
  triggerStopped : Bool
deriving DecidableEq, Repr

/-- The accesses of `should_stop`. -/
inductive Check where
  | lock
  | read
  | unlock (retval : Bool)
deriving DecidableEq, Repr

namespace Shared

variable {π : Type*}

/-- `sgx_thread_mutex_lock` of a thread that goes on at `pos`. `none` means that it blocks. -/
def lock (s : Shared) (th : Thread) (pos : π) : Option (Shared × π) :=
  if s.mutex = none then some ({ s with mutex := some th }, pos) else none

def unlock (s : Shared) : Shared := { s with mutex := none }

def signal (s : Shared) : Shared := { s with queue := s.queue.tail }

/-- The next access of a `should_stop` whose accesses are at the positions `next`, and that goes on
    at `done`. -/
def check (s : Shared) (next : Check → π) (done : Bool → π) : Check → Option (Shared × π)
  | .lock => if s.writer then none else some ({ s with readers := s.readers + 1 }, next .read)
  | .read => some (s, next (.unlock s.stop))
  | .unlock retval => some ({ s with readers := s.readers - 1 }, done retval)

end Shared

-- ---------------------------------------------------------------------------
-- The threads
-- ---------------------------------------------------------------------------

inductive RefreshPos where
  | head (c : Check)
  | acquire
  /-- Before `sgx_thread_cond_wait`. -/
  | wait
  | waiting
  /-- Signalled, without the mutex yet. -/
  | woken
  | check (c : Check)
  | leave
  | testTainted
  | testCalib
  /-- Before the mutex is released for a round, or for the next wait. -/
  | enter
  | back
  /-- In the first part of a round, which may be in the retry loop of `sendMessage`. -/
  | send
  | sendCheck (c : Check)
  | spin
  | spinCheck (c : Check)
  /-- At the condition of the outer loop of the round. -/
  | again
  | againCheck (c : Check)
  | ending
  | ended
deriving DecidableEq, Repr

/-- `refresh`. What it compares besides the flags, and whether a send is tried again, is `more`. -/
def refreshThread (s : Shared) (more : Bool) : RefreshPos → Option (Shared × RefreshPos)
  | .head c => s.check .head (fun retval => if retval then .ending else .acquire) c
  | .acquire => s.lock .refresh .wait
  | .wait => some ({ s with mutex := none, queue := s.queue ++ [.refresh] }, .waiting)
  | .waiting => if .refresh ∈ s.queue then none else some (s, .woken)
  | .woken => s.lock .refresh (.check .lock)
  | .check c => s.check .check (fun retval => if retval then .leave else .testTainted) c
  | .leave => some (s.unlock, .ending)
  | .testTainted => some (s, if s.tainted then .testCalib else .back)
  | .testCalib => some (s, if s.calibCount then .enter else .back)
  | .enter => some (s.unlock, .send)
  | .back => some (s.unlock, .head .lock)
  | .send => some (s, if more then .sendCheck .lock else .spin)
  | .sendCheck c => s.check .sendCheck (fun _ => .send) c
  | .spin => some (s, if s.tainted && more then .spinCheck .lock else .again)
  | .spinCheck c => s.check .spinCheck (fun retval => if retval then .again else .spin) c
  | .again => some (s, if more then .againCheck .lock else .head .lock)
  | .againCheck c => s.check .againCheck (fun retval => if retval then .head .lock else .send) c
  | .ending => some ({ s with refreshStopped := true }, .ended)
  | .ended => none

inductive TriggerPos where
  | head (c : Check)
  | acquire
  | test
  | signal
  | release
  | sleep
  | ending
  | ended
deriving DecidableEq, Repr

/-- `untaint_trigger` -/
def triggerThread (s : Shared) : TriggerPos → Option (Shared × TriggerPos)
  | .head c => s.check .head (fun retval => if retval then .ending else .acquire) c
  | .acquire => s.lock .trigger .test
  | .test => some (s, if s.tainted then .signal else .release)
  | .signal => some (s.signal, .release)
  | .release => some (s.unlock, .sleep)
  | .sleep => some (s, .head .lock)
  | .ending => some ({ s with triggerStopped := true }, .ended)
  | .ended => none

inductive StopperPos where
  /-- Before `stop_tasks` takes `stop_rwlock`. -/
  | idle
  | store
  | unlock
  | readMonitor
  | readReadfrom
  | acquire
  | signal
  | release
  | readRefresh
  | readTrigger
  /-- Past both waits, only the socket is left. -/
  | passed
deriving DecidableEq, Repr

/-- `stop_tasks` -/
def stopperThread (s : Shared) : StopperPos → Option (Shared × StopperPos)
  | .idle => if s.writer || s.readers != 0 then none else some ({ s with writer := true }, .store)
  | .store => some ({ s with stop := true }, .unlock)
  | .unlock => some ({ s with writer := false }, .readMonitor)
  | .readMonitor => some (s, if s.monitorStopped then .acquire else .readReadfrom)
  | .readReadfrom => some (s, if s.readfromStopped then .acquire else .readMonitor)
  | .acquire => s.lock .stopper .signal
  | .signal => some (s.signal, .release)
  | .release => some (s.unlock, .readRefresh)
  | .readRefresh => some (s, if s.refreshStopped then .passed else .readTrigger)
  | .readTrigger => some (s, if s.triggerStopped then .passed else .readRefresh)
  | .passed => none

/-- `seen` is whether a `should_stop` of the thread has returned true. -/
inductive MonitorPos where
  | running (seen : Bool)
  | check (seen : Bool) (c : Check)
  /-- In the self-tainting. -/
  | acquire (seen : Bool)
  | store (seen : Bool)
  | signal (seen : Bool)
  | release (seen : Bool)
  | ended
deriving DecidableEq, Repr

/-- What the monitor does next, where that depends on more than the flags. -/
inductive MonitorMove where
  | next
  | check
  | selfTaint
  /-- A gap of the polling build. -/
  | taint
  | calib (calibCount : Bool)
  | finish
deriving DecidableEq, Repr

/-- `monitor` -/
def monitorThread (s : Shared) : MonitorPos → MonitorMove → Option (Shared × MonitorPos)
  | .running seen, .check => some (s, .check seen .lock)
  | .running seen, .selfTaint => some (s, .acquire seen)
  | .running seen, .taint => some ({ s with tainted := true }, .running seen)
  | .running seen, .calib calibCount => some ({ s with calibCount := calibCount }, .running seen)
  | .running true, .finish => some ({ s with monitorStopped := true }, .ended)
  | .check seen c, .next => s.check (.check seen) (fun retval => .running (seen || retval)) c
  | .acquire seen, .next => s.lock .monitor (.store seen)
  | .store seen, .next => some ({ s with tainted := true }, .signal seen)
  | .signal seen, .next => some (s.signal, .release seen)
  | .release seen, .next => some (s.unlock, .running seen)
  | _, _ => none

inductive HandlerPos where
  | idle
  | acquire
  | signal
  | release
deriving DecidableEq, Repr

/-- `aex_handler` -/
def handlerThread (s : Shared) : HandlerPos → Option (Shared × HandlerPos)
  | .idle => some ({ s with tainted := true }, .acquire)
  | .acquire => s.lock .handler .signal
  | .signal => some (s.signal, .release)
  | .release => some (s.unlock, .idle)

inductive ReadfromPos where
  | running
  | check (c : Check)
  /-- In case 'U'. -/
  | acquire
  | store
  | release
  | ended
deriving DecidableEq, Repr

inductive ReadfromMove where
  | next
  | check
  | untaint
  | calib (calibCount : Bool)
  /-- The loop ends, and sets its flag if it is not for want of a socket. -/
  | finish (flag : Bool)
deriving DecidableEq, Repr

/-- `loop_recvfrom`. Whether a quorum clears the taint is `quorum`. -/
def readfromThread (s : Shared) (quorum : Bool) :
    ReadfromPos → ReadfromMove → Option (Shared × ReadfromPos)
  | .running, .check => some (s, .check .lock)
  | .running, .untaint => some (s, .acquire)
  | .running, .calib calibCount => some ({ s with calibCount := calibCount }, .running)
  | .running, .finish flag => some ({ s with readfromStopped := s.readfromStopped || flag }, .ended)
  | .check c, .next => s.check .check (fun _ => .running) c
  | .acquire, .next => s.lock .readfrom .store
  | .store, .next => some ({ s with tainted := s.tainted && !quorum }, .release)
  | .release, .next => some (s.unlock, .running)
  | _, _ => none

-- ---------------------------------------------------------------------------
-- The system of the threads
-- ---------------------------------------------------------------------------

/-- `clients` counts the clients that hold `stop_rwlock` in their `should_stop`. -/
structure Threads where
  shared : Shared
  refresh : RefreshPos
  trigger : TriggerPos
  stopper : StopperPos
  monitor : MonitorPos
  handler : HandlerPos
  readfrom : ReadfromPos
  clients : ℕ
deriving DecidableEq, Repr

inductive ThreadAction where
  | refresh (more : Bool)
  | trigger
  | stopTasks
  | monitor (move : MonitorMove)
  | handler
  | readfrom (quorum : Bool) (move : ReadfromMove)
  /-- A `shadow_tsc_update` of an attacker's node taints it, in whichever task. -/
  | shadow
  | clientLock
  | clientUnlock
deriving DecidableEq, Repr

namespace Threads

/-- The tasks of a node that has just been constructed. `readfrom_stopped` is left over. -/
def initial (readfromStopped : Bool) : Threads where
  shared :=
    { stop := false
      tainted := false
      calibCount := false
      mutex := none
      queue := []
      readers := 0
      writer := false
      monitorStopped := false
      readfromStopped := readfromStopped
      refreshStopped := false
      triggerStopped := false }
  refresh := .head .lock
  trigger := .head .lock
  stopper := .idle
  monitor := .running false
  handler := .idle
  readfrom := .running
  clients := 0

/-- `none` means that the thread cannot make its step now. -/
def move (s : Threads) : ThreadAction → Option Threads
  | .refresh more =>
    (refreshThread s.shared more s.refresh).map fun (shared, pos) =>
      { s with shared := shared, refresh := pos }
  | .trigger =>
    (triggerThread s.shared s.trigger).map fun (shared, pos) =>
      { s with shared := shared, trigger := pos }
  | .stopTasks =>
    (stopperThread s.shared s.stopper).map fun (shared, pos) =>
      { s with shared := shared, stopper := pos }
  | .monitor move =>
    -- the handler interrupts the thread of the monitor
    if s.handler = .idle then
      (monitorThread s.shared s.monitor move).map fun (shared, pos) =>
        { s with shared := shared, monitor := pos }
    else none
  | .handler =>
    -- it is registered while the monitor runs
    if s.monitor = .ended then none
    else (handlerThread s.shared s.handler).map fun (shared, pos) =>
      { s with shared := shared, handler := pos }
  | .readfrom quorum move =>
    (readfromThread s.shared quorum s.readfrom move).map fun (shared, pos) =>
      { s with shared := shared, readfrom := pos }
  | .shadow => some { s with shared.tainted := true }
  | .clientLock =>
    if s.shared.writer then none
    else some { s with shared.readers := s.shared.readers + 1, clients := s.clients + 1 }
  | .clientUnlock =>
    if s.clients = 0 then none
    else some { s with shared.readers := s.shared.readers - 1, clients := s.clients - 1 }

def step (s : Threads) (a : ThreadAction) : Option (Threads × List Event) :=
  (s.move a).map fun s' => (s', [])

end Threads

abbrev ThreadStep := Lts.Transition Threads ThreadAction Event

abbrev ThreadRun : Threads → List ThreadStep → Threads → Prop := Lts.Run Threads.step

/-- `stop_tasks` is past its signal. -/
def StopperPos.hasSignalled : StopperPos → Bool
  | .release | .readRefresh | .readTrigger | .passed => true
  | _ => false

/-- `stop_tasks` has set the stop. -/
def StopperPos.hasStored : StopperPos → Bool
  | .idle | .store => false
  | _ => true

/-- The stop is set, `stop_tasks` has sent its signal and the trigger has ended, but `refresh` waits
    on the condition variable. -/
def Threads.Stranded (s : Threads) : Prop :=
  s.shared.stop = true ∧ s.stopper.hasSignalled = true ∧ s.trigger = .ended ∧
    s.refresh = .waiting ∧ .refresh ∈ s.shared.queue

instance (s : Threads) : Decidable s.Stranded := inferInstanceAs (Decidable (_ ∧ _))

/-- If the step is the signal of `stop_tasks`, `refresh` is not on its way to the wait with a stop
    check that has returned false. -/
def ThreadStep.SignalsInTime (t : ThreadStep) : Prop :=
  t.act = .stopTasks → t.pre.stopper = .signal →
    t.pre.refresh ≠ .head (.unlock false) ∧ t.pre.refresh ≠ .acquire

instance (t : ThreadStep) : Decidable t.SignalsInTime :=
  inferInstanceAs (Decidable (_ → _ → _))

-- ---------------------------------------------------------------------------
-- The mutex
-- ---------------------------------------------------------------------------

/-- Is a thread at the position inside a section of `tainted_mutex`? -/
def RefreshPos.inside : RefreshPos → Bool
  | .wait | .check _ | .leave | .testTainted | .testCalib | .enter | .back => true
  | _ => false

def TriggerPos.inside : TriggerPos → Bool
  | .test | .signal | .release => true
  | _ => false

def StopperPos.inside : StopperPos → Bool
  | .signal | .release => true
  | _ => false

def MonitorPos.inside : MonitorPos → Bool
  | .store _ | .signal _ | .release _ => true
  | _ => false

def HandlerPos.inside : HandlerPos → Bool
  | .signal | .release => true
  | _ => false

def ReadfromPos.inside : ReadfromPos → Bool
  | .store | .release => true
  | _ => false

def Threads.inside (s : Threads) : Thread → Bool
  | .refresh => s.refresh.inside
  | .trigger => s.trigger.inside
  | .stopper => s.stopper.inside
  | .monitor => s.monitor.inside
  | .handler => s.handler.inside
  | .readfrom => s.readfrom.inside

/-- The threads as `tainted_mutex` sees them. -/
def Threads.view (s : Threads) : Mutex.View Thread := ⟨s.shared.mutex, fun th => s.inside th = true⟩

/-- What a step of `th` does with the mutex, if the thread was inside, and then is. -/
inductive MutexStep (th : Thread) (s s' : Shared) (was is : Bool) : Prop where
  | keep (hmutex : s'.mutex = s.mutex) (hinside : is = was)
  | acquire (hfree : s.mutex = none) (hmutex : s'.mutex = some th)
  | release (hwas : was = true) (his : is = false)

theorem MutexStep.move {th : Thread} {s s' : Threads}
    (h : MutexStep th s.shared s'.shared (s.inside th) (s'.inside th))
    (hothers : ∀ u, u ≠ th → s'.inside u = s.inside u) : Mutex.Move th s.view s'.view := by
  cases h with
  | keep hmutex hinside =>
      refine .keep hmutex ?_
      intro u
      by_cases hu : u = th
      · simp [Threads.view, hu, hinside]
      · simp [Threads.view, hothers u hu]
  | acquire hfree hmutex =>
      refine .acquire hfree hmutex ?_
      intro u hu
      simp [Threads.view, hothers u hu]
  | release hwas his =>
      refine .release hwas (by simp [Threads.view, his]) ?_
      intro u hu
      simp [Threads.view, hothers u hu]

-- ---------------------------------------------------------------------------
-- One step of a thread
-- ---------------------------------------------------------------------------

section Steps

variable {s s' : Shared} {π : Type*} {pos pos' : π}

theorem Shared.of_lock {th : Thread} (h : s.lock th pos = some (s', pos')) :
    s.mutex = none ∧ s' = { s with mutex := some th } ∧ pos' = pos := by
  unfold Shared.lock at h
  split at h
  case isTrue hfree =>
    cases h
    exact ⟨hfree, rfl, rfl⟩
  case isFalse => cases h

/-- A stop check writes the state of its lock only, and reads the stop. -/
theorem Shared.of_check {next : Check → π} {done : Bool → π} {c : Check}
    (h : s.check next done c = some (s', pos')) :
    (∃ readers, s' = { s with readers := readers }) ∧
      (pos' = next .read ∨ pos' = next (.unlock s.stop) ∨
        ∃ retval, c = .unlock retval ∧ pos' = done retval) := by
  cases c with
  | lock =>
      simp only [Shared.check] at h
      split at h
      · cases h
      · cases h
        exact ⟨⟨_, rfl⟩, .inl rfl⟩
  | read =>
      cases h
      exact ⟨⟨_, rfl⟩, .inr (.inl rfl)⟩
  | unlock retval =>
      cases h
      exact ⟨⟨_, rfl⟩, .inr (.inr ⟨retval, rfl, rfl⟩)⟩

end Steps

/-- What every thread but `stop_tasks` and `refresh` does: it keeps the stop, and at most takes a
    waiter from the queue. -/
structure Bystander (th : Thread) (s s' : Shared) (was is : Bool) : Prop where
  mutex : MutexStep th s s' was is
  stop : s'.stop = s.stop
  queue : s'.queue = s.queue ∨ s'.queue = s.queue.tail

namespace Bystander

variable {s s' : Shared} {th : Thread} {was is : Bool}

theorem lock {π : Type*} {pos pos' : π} (h : s.lock th pos = some (s', pos')) :
    Bystander th s s' was is := by
  obtain ⟨hfree, rfl, _⟩ := Shared.of_lock h
  exact ⟨.acquire hfree rfl, rfl, .inl rfl⟩

theorem check {π : Type*} {pos' : π} {next : Check → π} {done : Bool → π} {c : Check}
    (h : s.check next done c = some (s', pos')) (hinside : is = was) :
    Bystander th s s' was is := by
  obtain ⟨⟨readers, rfl⟩, _⟩ := Shared.of_check h
  exact ⟨.keep rfl hinside, rfl, .inl rfl⟩

/-- A step that stores a flag, or none. -/
theorem store (hmutex : s'.mutex = s.mutex) (hstop : s'.stop = s.stop) (hqueue : s'.queue = s.queue)
    (hinside : is = was) : Bystander th s s' was is :=
  ⟨.keep hmutex hinside, hstop, .inl hqueue⟩

theorem signal (hinside : is = was) : Bystander th s s.signal was is :=
  ⟨.keep rfl hinside, rfl, .inr rfl⟩

theorem unlock (hwas : was = true) (his : is = false) : Bystander th s s.unlock was is :=
  ⟨.release hwas his, rfl, .inl rfl⟩

end Bystander

theorem triggerThread_step {s s' : Shared} {pos pos' : TriggerPos}
    (h : triggerThread s pos = some (s', pos')) :
    Bystander .trigger s s' pos.inside pos'.inside := by
  cases pos with
  | head c =>
      refine .check h ?_
      obtain ⟨_, rfl | rfl | ⟨retval, _, rfl⟩⟩ := Shared.of_check h
      · rfl
      · rfl
      · cases retval <;> rfl
  | acquire => exact .lock h
  | test =>
      cases h
      refine .store rfl rfl rfl ?_
      split <;> rfl
  | signal => cases h; exact .signal rfl
  | release => cases h; exact .unlock rfl rfl
  | sleep => cases h; exact .store rfl rfl rfl rfl
  | ending => cases h; exact .store rfl rfl rfl rfl
  | ended => cases h

theorem handlerThread_step {s s' : Shared} {pos pos' : HandlerPos}
    (h : handlerThread s pos = some (s', pos')) :
    Bystander .handler s s' pos.inside pos'.inside := by
  cases pos with
  | idle => cases h; exact .store rfl rfl rfl rfl
  | acquire => exact .lock h
  | signal => cases h; exact .signal rfl
  | release => cases h; exact .unlock rfl rfl

theorem monitorThread_step {s s' : Shared} {pos pos' : MonitorPos} {move : MonitorMove}
    (h : monitorThread s pos move = some (s', pos')) :
    Bystander .monitor s s' pos.inside pos'.inside := by
  cases pos with
  | running seen =>
      cases move with
      | next => cases h
      | finish =>
          cases seen with
          | false => cases h
          | true => cases h; exact .store rfl rfl rfl rfl
      | _ => cases h; exact .store rfl rfl rfl rfl
  | check seen c =>
      cases move with
      | next =>
          refine .check h ?_
          obtain ⟨_, rfl | rfl | ⟨retval, _, rfl⟩⟩ := Shared.of_check h <;> rfl
      | _ => cases h
  | acquire seen =>
      cases move with
      | next => exact .lock h
      | _ => cases h
  | store seen =>
      cases move with
      | next => cases h; exact .store rfl rfl rfl rfl
      | _ => cases h
  | signal seen =>
      cases move with
      | next => cases h; exact .signal rfl
      | _ => cases h
  | release seen =>
      cases move with
      | next => cases h; exact .unlock rfl rfl
      | _ => cases h
  | ended => cases move <;> cases h

theorem readfromThread_step {s s' : Shared} {pos pos' : ReadfromPos} {quorum : Bool}
    {move : ReadfromMove} (h : readfromThread s quorum pos move = some (s', pos')) :
    Bystander .readfrom s s' pos.inside pos'.inside := by
  cases pos with
  | running =>
      cases move with
      | next => cases h
      | _ => cases h; exact .store rfl rfl rfl rfl
  | check c =>
      cases move with
      | next =>
          refine .check h ?_
          obtain ⟨_, rfl | rfl | ⟨retval, _, rfl⟩⟩ := Shared.of_check h <;> rfl
      | _ => cases h
  | acquire =>
      cases move with
      | next => exact .lock h
      | _ => cases h
  | store =>
      cases move with
      | next => cases h; exact .store rfl rfl rfl rfl
      | _ => cases h
  | release =>
      cases move with
      | next => cases h; exact .unlock rfl rfl
      | _ => cases h
  | ended => cases move <;> cases h

/-- `refresh` is not on its way to the wait with a stop check that has returned false. -/
def RefreshPos.isClear : RefreshPos → Bool
  | .head (.unlock false) | .acquire | .wait => false
  | _ => true

/-- What `refresh` does: it keeps the stop, waits from one position only, and once the stop is set
    it does not set out for the wait any more. -/
structure Refreshing (s s' : Shared) (pos pos' : RefreshPos) : Prop where
  mutex : MutexStep .refresh s s' pos.inside pos'.inside
  stop : s'.stop = s.stop
  queue : s'.queue = s.queue ∨ pos = .wait ∧ pos' = .waiting ∧ s'.queue = s.queue ++ [.refresh]
  waits : pos = .waiting → .refresh ∉ s.queue
  clear : s.stop = true → pos.isClear = true → pos'.isClear = true

namespace Refreshing

variable {s s' : Shared} {pos pos' : RefreshPos}

/-- A step from a position that is not the wait, which the queue does not see. -/
theorem of_mutex (hmutex : MutexStep .refresh s s' pos.inside pos'.inside)
    (hstop : s'.stop = s.stop) (hqueue : s'.queue = s.queue) (hwaits : pos ≠ .waiting)
    (hclear : s.stop = true → pos.isClear = true → pos'.isClear = true) :
    Refreshing s s' pos pos' :=
  ⟨hmutex, hstop, .inl hqueue, fun h => absurd h hwaits, hclear⟩

theorem check {next : Check → RefreshPos} {done : Bool → RefreshPos} {c : Check}
    (h : s.check next done c = some (s', pos')) (hpos : pos ≠ .waiting)
    (hnext : ∀ c, (next c).inside = pos.inside)
    (hdone : ∀ retval, (done retval).inside = pos.inside)
    (hread : (next .read).isClear = true) (hstop : (next (.unlock true)).isClear = true)
    (hclear : ∀ retval, c = .unlock retval → pos.isClear = true → (done retval).isClear = true) :
    Refreshing s s' pos pos' := by
  obtain ⟨⟨readers, rfl⟩, rfl | rfl | ⟨retval, hc, rfl⟩⟩ := Shared.of_check h
  · exact .of_mutex (.keep rfl (hnext _)) rfl rfl hpos fun _ _ => hread
  · exact .of_mutex (.keep rfl (hnext _)) rfl rfl hpos fun hset _ => by rwa [hset]
  · exact .of_mutex (.keep rfl (hdone _)) rfl rfl hpos fun _ => hclear retval hc

/-- A step that reads flags. -/
theorem read (hpos : pos ≠ .waiting) (hinside : pos'.inside = pos.inside)
    (hclear : pos'.isClear = true) : Refreshing s s pos pos' :=
  .of_mutex (.keep rfl hinside) rfl rfl hpos fun _ _ => hclear

theorem unlock (hpos : pos ≠ .waiting) (hwas : pos.inside = true) (his : pos'.inside = false)
    (hclear : pos'.isClear = true) : Refreshing s s.unlock pos pos' :=
  .of_mutex (.release hwas his) rfl rfl hpos fun _ _ => hclear

end Refreshing

theorem refreshThread_step {s s' : Shared} {pos pos' : RefreshPos} {more : Bool}
    (h : refreshThread s more pos = some (s', pos')) : Refreshing s s' pos pos' := by
  cases pos with
  | head c =>
      refine .check h (by simp) (fun _ => rfl) ?_ rfl rfl ?_
      · rintro (_ | _) <;> rfl
      · rintro (_ | _) rfl hclear
        · cases hclear
        · rfl
  | acquire =>
      obtain ⟨hfree, rfl, _⟩ := Shared.of_lock h
      exact .of_mutex (.acquire hfree rfl) rfl rfl (by simp) fun _ hclear => by cases hclear
  | wait =>
      cases h
      exact ⟨.release rfl rfl, rfl, .inr ⟨rfl, rfl, rfl⟩, nofun, fun _ _ => rfl⟩
  | waiting =>
      simp only [refreshThread] at h
      split at h
      case isTrue => cases h
      case isFalse hwoken =>
        cases h
        exact ⟨.keep rfl rfl, rfl, .inl rfl, fun _ => hwoken, fun _ _ => rfl⟩
  | woken =>
      obtain ⟨hfree, rfl, rfl⟩ := Shared.of_lock h
      exact .of_mutex (.acquire hfree rfl) rfl rfl (by simp) fun _ _ => rfl
  | check c =>
      refine .check h (by simp) (fun _ => rfl) ?_ rfl rfl ?_
      · rintro (_ | _) <;> rfl
      · rintro (_ | _) _ _ <;> rfl
  | leave => cases h; exact .unlock (by simp) rfl rfl rfl
  | testTainted => cases h; split <;> exact .read (by simp) rfl rfl
  | testCalib => cases h; split <;> exact .read (by simp) rfl rfl
  | enter => cases h; exact .unlock (by simp) rfl rfl rfl
  | back => cases h; exact .unlock (by simp) rfl rfl rfl
  | send => cases h; split <;> exact .read (by simp) rfl rfl
  | sendCheck c => exact .check h (by simp) (fun _ => rfl) (fun _ => rfl) rfl rfl fun _ _ _ => rfl
  | spin => cases h; split <;> exact .read (by simp) rfl rfl
  | spinCheck c =>
      refine .check h (by simp) (fun _ => rfl) ?_ rfl rfl ?_
      · rintro (_ | _) <;> rfl
      · rintro (_ | _) _ _ <;> rfl
  | again => cases h; split <;> exact .read (by simp) rfl rfl
  | againCheck c =>
      refine .check h (by simp) (fun _ => rfl) ?_ rfl rfl ?_
      · rintro (_ | _) <;> rfl
      · rintro (_ | _) _ _ <;> rfl
  | ending => cases h; exact .of_mutex (.keep rfl rfl) rfl rfl (by simp) fun _ _ => rfl
  | ended => cases h

/-- What `stop_tasks` does: it sets the stop and keeps it, and gets past its signal by taking a
    waiter from the queue. -/
structure Stopping (s s' : Shared) (pos pos' : StopperPos) : Prop where
  mutex : MutexStep .stopper s s' pos.inside pos'.inside
  stored : (pos.hasStored = true → s.stop = true) → pos'.hasStored = true → s'.stop = true
  queue : s'.queue = s.queue ∨ s'.queue = s.queue.tail
  signalled : pos'.hasSignalled = true →
    pos.hasSignalled = true ∨ pos = .signal ∧ s'.queue = s.queue.tail

/-- A step that keeps the stop and the queue. -/
theorem Stopping.of_mutex {s s' : Shared} {pos pos' : StopperPos}
    (hmutex : MutexStep .stopper s s' pos.inside pos'.inside) (hstop : s'.stop = s.stop)
    (hqueue : s'.queue = s.queue) (hstored : pos'.hasStored = true → pos.hasStored = true)
    (hsignalled : pos'.hasSignalled = pos.hasSignalled) : Stopping s s' pos pos' :=
  ⟨hmutex, fun hset h => hstop.trans (hset (hstored h)), .inl hqueue,
    fun h => .inl (hsignalled ▸ h)⟩

theorem stopperThread_step {s s' : Shared} {pos pos' : StopperPos}
    (h : stopperThread s pos = some (s', pos')) : Stopping s s' pos pos' := by
  cases pos with
  | idle =>
      simp only [stopperThread] at h
      split at h
      · cases h
      · cases h
        exact .of_mutex (.keep rfl rfl) rfl rfl nofun rfl
  | store =>
      cases h
      exact ⟨.keep rfl rfl, fun _ _ => rfl, .inl rfl, nofun⟩
  | unlock => cases h; exact .of_mutex (.keep rfl rfl) rfl rfl (fun _ => rfl) rfl
  | readMonitor => cases h; split <;> exact .of_mutex (.keep rfl rfl) rfl rfl (fun _ => rfl) rfl
  | readReadfrom => cases h; split <;> exact .of_mutex (.keep rfl rfl) rfl rfl (fun _ => rfl) rfl
  | acquire =>
      obtain ⟨hfree, rfl, rfl⟩ := Shared.of_lock h
      exact .of_mutex (.acquire hfree rfl) rfl rfl (fun _ => rfl) rfl
  | signal =>
      cases h
      exact ⟨.keep rfl rfl, fun hset _ => hset rfl, .inr rfl, fun _ => .inr ⟨rfl, rfl⟩⟩
  | release => cases h; exact .of_mutex (.release rfl rfl) rfl rfl (fun _ => rfl) rfl
  | readRefresh => cases h; split <;> exact .of_mutex (.keep rfl rfl) rfl rfl (fun _ => rfl) rfl
  | readTrigger => cases h; split <;> exact .of_mutex (.keep rfl rfl) rfl rfl (fun _ => rfl) rfl
  | passed => cases h

-- ---------------------------------------------------------------------------
-- The wake-up
-- ---------------------------------------------------------------------------

/-- Only `refresh` ever waits. Past its signal `stop_tasks` has set the stop, nobody is in the queue
    and `refresh` is clear of it. -/
structure Threads.Inv (s : Threads) : Prop where
  exclusive : Mutex.Exclusive s.view
  queue : s.shared.queue = [] ∨ s.shared.queue = [.refresh] ∧ s.refresh = .waiting
  stored : s.stopper.hasStored = true → s.shared.stop = true
  awake : s.stopper.hasSignalled = true → s.shared.queue = [] ∧ s.refresh.isClear = true

theorem RefreshPos.isClear_of_ne {pos : RefreshPos} (hchecked : pos ≠ .head (.unlock false))
    (hacquire : pos ≠ .acquire) (hwait : pos ≠ .wait) : pos.isClear = true := by
  unfold isClear
  split <;> first | rfl | contradiction

theorem hasStored_of_hasSignalled {pos : StopperPos} (h : pos.hasSignalled = true) :
    pos.hasStored = true := by
  cases pos <;> first | rfl | cases h

namespace Threads.Inv

variable {s s' : Threads}

theorem initial (readfromStopped : Bool) : (Threads.initial readfromStopped).Inv where
  exclusive := by rintro (_ | _ | _ | _ | _ | _) h <;> cases h
  queue := .inl rfl
  stored := nofun
  awake := nofun

theorem not_stranded (h : s.Inv) : ¬ s.Stranded := by
  rintro ⟨_, hsignalled, _, _, hqueue⟩
  rw [(h.awake hsignalled).1] at hqueue
  cases hqueue

theorem tail_eq_nil (h : s.Inv) : s.shared.queue.tail = [] := by
  rcases h.queue with hnil | ⟨hone, _⟩
  · rw [hnil, List.tail_nil]
  · rw [hone, List.tail_cons]

/-- The step of a bystander. -/
theorem bystander {th : Thread} (h : s.Inv)
    (hstep : Bystander th s.shared s'.shared (s.inside th) (s'.inside th))
    (hothers : ∀ u, u ≠ th → s'.inside u = s.inside u) (hrefresh : s'.refresh = s.refresh)
    (hstopper : s'.stopper = s.stopper) : s'.Inv := by
  refine ⟨h.exclusive.move (hstep.mutex.move hothers), ?_, ?_, ?_⟩
  · rcases hstep.queue with hqueue | hqueue
    · rw [hqueue, hrefresh]
      exact h.queue
    · exact .inl (hqueue.trans h.tail_eq_nil)
  · rw [hstopper, hstep.stop]
    exact h.stored
  · rw [hstopper, hrefresh]
    intro hsignalled
    obtain ⟨hnil, hclear⟩ := h.awake hsignalled
    rcases hstep.queue with hqueue | hqueue
    · exact ⟨hqueue.trans hnil, hclear⟩
    · exact ⟨hqueue.trans h.tail_eq_nil, hclear⟩

/-- A step of `refresh`. From a wait it only goes on when nobody is in the queue. -/
theorem refresh (h : s.Inv) {shared : Shared} {pos : RefreshPos}
    (hstep : Refreshing s.shared shared s.refresh pos) :
    Threads.Inv { s with shared := shared, refresh := pos } := by
  have hmove : Mutex.Move .refresh s.view
      ({ s with shared := shared, refresh := pos } : Threads).view :=
    MutexStep.move hstep.mutex fun u hu => by cases u <;> first | rfl | exact absurd rfl hu
  have hnil : s.shared.queue = [] := by
    rcases h.queue with hnil | ⟨hone, hwaiting⟩
    · exact hnil
    · exact absurd (by rw [hone]; exact List.mem_cons_self) (hstep.waits hwaiting)
  refine ⟨h.exclusive.move hmove, ?_, ?_, ?_⟩
  · rcases hstep.queue with hqueue | ⟨_, hwaiting, hqueue⟩
    · exact .inl (hqueue.trans hnil)
    · exact .inr ⟨by rw [hqueue, hnil, List.nil_append], hwaiting⟩
  · exact fun hstored => hstep.stop.trans (h.stored hstored)
  · intro hsignalled
    obtain ⟨_, hclear⟩ := h.awake hsignalled
    have hstop : s.shared.stop = true := h.stored (hasStored_of_hasSignalled hsignalled)
    refine ⟨?_, hstep.clear hstop hclear⟩
    rcases hstep.queue with hqueue | ⟨hwait, _, _⟩
    · exact hqueue.trans hnil
    · rw [hwait] at hclear
      cases hclear

/-- A step of `stop_tasks`, whose signal comes in time. The mutex keeps `refresh` from the last
    position before the wait. -/
theorem stopTasks (h : s.Inv) {shared : Shared} {pos : StopperPos}
    (hstep : Stopping s.shared shared s.stopper pos)
    (hintime : s.stopper = .signal → s.refresh ≠ .head (.unlock false) ∧ s.refresh ≠ .acquire) :
    Threads.Inv { s with shared := shared, stopper := pos } := by
  have hmove : Mutex.Move .stopper s.view
      ({ s with shared := shared, stopper := pos } : Threads).view :=
    MutexStep.move hstep.mutex fun u hu => by cases u <;> first | rfl | exact absurd rfl hu
  refine ⟨h.exclusive.move hmove, ?_, hstep.stored h.stored, ?_⟩
  · rcases hstep.queue with hqueue | hqueue
    · exact h.queue.imp hqueue.trans (And.imp_left hqueue.trans)
    · exact .inl (hqueue.trans h.tail_eq_nil)
  · intro hsignalled
    rcases hstep.signalled hsignalled with hbefore | ⟨hsignal, hqueue⟩
    · obtain ⟨hnil, hclear⟩ := h.awake hbefore
      refine ⟨?_, hclear⟩
      rcases hstep.queue with hqueue | hqueue
      · exact hqueue.trans hnil
      · exact hqueue.trans h.tail_eq_nil
    · refine ⟨hqueue.trans h.tail_eq_nil, ?_⟩
      obtain ⟨hchecked, hacquire⟩ := hintime hsignal
      have hwait : s.refresh ≠ .wait := by
        intro hwait
        have hrefresh : s.view.inside .refresh := by
          simp [Threads.view, Threads.inside, hwait, RefreshPos.inside]
        have hstopper : s.view.inside .stopper := by
          simp [Threads.view, Threads.inside, hsignal, StopperPos.inside]
        cases h.exclusive.unique hrefresh hstopper
      exact RefreshPos.isClear_of_ne hchecked hacquire hwait

theorem move {a : ThreadAction} (hs : s.move a = some s') (h : s.Inv)
    (hintime : a = .stopTasks → s.stopper = .signal →
      s.refresh ≠ .head (.unlock false) ∧ s.refresh ≠ .acquire) : s'.Inv := by
  cases a with
  | refresh more =>
      obtain ⟨⟨shared, pos⟩, hstep, rfl⟩ := Option.map_eq_some_iff.mp hs
      exact h.refresh (refreshThread_step hstep)
  | trigger =>
      obtain ⟨⟨shared, pos⟩, hstep, rfl⟩ := Option.map_eq_some_iff.mp hs
      exact h.bystander (triggerThread_step hstep)
        (fun u hu => by cases u <;> first | rfl | exact absurd rfl hu) rfl rfl
  | stopTasks =>
      obtain ⟨⟨shared, pos⟩, hstep, rfl⟩ := Option.map_eq_some_iff.mp hs
      exact h.stopTasks (stopperThread_step hstep) (hintime rfl)
  | monitor move =>
      obtain ⟨_, hs⟩ := Option.ite_none_right_eq_some.mp hs
      obtain ⟨⟨shared, pos⟩, hstep, rfl⟩ := Option.map_eq_some_iff.mp hs
      exact h.bystander (monitorThread_step hstep)
        (fun u hu => by cases u <;> first | rfl | exact absurd rfl hu) rfl rfl
  | handler =>
      obtain ⟨_, hs⟩ := Option.ite_none_left_eq_some.mp hs
      obtain ⟨⟨shared, pos⟩, hstep, rfl⟩ := Option.map_eq_some_iff.mp hs
      exact h.bystander (handlerThread_step hstep)
        (fun u hu => by cases u <;> first | rfl | exact absurd rfl hu) rfl rfl
  | readfrom quorum move =>
      obtain ⟨⟨shared, pos⟩, hstep, rfl⟩ := Option.map_eq_some_iff.mp hs
      exact h.bystander (readfromThread_step hstep)
        (fun u hu => by cases u <;> first | rfl | exact absurd rfl hu) rfl rfl
  | shadow =>
      cases hs
      exact ⟨h.exclusive, h.queue, h.stored, h.awake⟩
  | clientLock =>
      obtain ⟨_, hs⟩ := Option.ite_none_left_eq_some.mp hs
      cases hs
      exact ⟨h.exclusive, h.queue, h.stored, h.awake⟩
  | clientUnlock =>
      obtain ⟨_, hs⟩ := Option.ite_none_left_eq_some.mp hs
      cases hs
      exact ⟨h.exclusive, h.queue, h.stored, h.awake⟩

end Threads.Inv

/-- In every interleaving in which the signal of `stop_tasks` comes in time, no state strands
    `refresh`. -/
theorem refresh_not_stranded {readfromStopped : Bool} {s : Threads} {tr : List ThreadStep}
    (hrun : ThreadRun (.initial readfromStopped) tr s) (hintime : ∀ t ∈ tr, t.SignalsInTime) :
    ¬ s.Stranded ∧ ∀ t ∈ tr, ¬ t.pre.Stranded ∧ ¬ t.post.Stranded := by
  have hstep (t : ThreadStep) (hs : t.IsStep Threads.step) (ht : t.SignalsInTime)
      (h : t.pre.Inv) : t.post.Inv := by
    obtain ⟨s', hmove, heq⟩ := Option.map_eq_some_iff.mp hs
    obtain ⟨rfl, _⟩ := Prod.mk.inj heq
    exact h.move hmove ht
  have h₀ := Threads.Inv.initial readfromStopped
  refine ⟨(hrun.invariant_of hstep hintime h₀).not_stranded, ?_⟩
  intro t ht
  obtain ⟨hpre, hpost⟩ := hrun.invariant_at hstep hintime h₀ t ht
  exact ⟨hpre.not_stranded, hpost.not_stranded⟩

namespace Scenario

/-- The monitor ends after the stop, and `stop_tasks` goes on to its signal. -/
def stopping : List ThreadAction :=
  [.stopTasks, .stopTasks, .stopTasks, .monitor .check, .monitor .next, .monitor .next,
    .monitor .next, .monitor .finish, .stopTasks, .stopTasks, .stopTasks, .stopTasks]

/-- The trigger ends. -/
def triggerEnds : List ThreadAction := [.trigger, .trigger, .trigger, .trigger]

/-- `refresh` checks the stop at the head of its loop. -/
def headCheck : List ThreadAction := [.refresh false, .refresh false, .refresh false]

end Scenario

open Scenario in
/-- The theorem at a run in which `refresh` waits before the stop is set, and ends. -/
theorem refresh_not_stranded_waiting :
    ∃ tr s, ThreadRun (.initial false) tr s ∧ s.refresh = .ended ∧ s.trigger = .ended ∧
      ∀ t ∈ tr, ¬ t.pre.Stranded ∧ ¬ t.post.Stranded := by
  obtain ⟨tr, s, hrun, hs⟩ := exists_run_of_exec Threads.step (.initial false)
    (headCheck ++ [.refresh false, .refresh false] ++ stopping ++ triggerEnds ++
      (List.replicate 7 (.refresh false)))
    (fun tr s => (s.refresh = .ended ∧ s.trigger = .ended) ∧
      ∀ t ∈ tr, ThreadStep.SignalsInTime t) (by decide +kernel)
  obtain ⟨⟨hrefresh, htrigger⟩, hintime⟩ := hs
  exact ⟨tr, s, hrun, hrefresh, htrigger, (refresh_not_stranded hrun hintime).2⟩

open Scenario in
/-- The stop is set after the check of `refresh`, and the signal is sent before its wait. -/
theorem refresh_stranded :
    ¬ ∀ (readfromStopped : Bool) (s : Threads) (tr : List ThreadStep),
        ThreadRun (.initial readfromStopped) tr s → ¬ s.Stranded := by
  intro h
  obtain ⟨tr, s, hrun, hs⟩ := exists_run_of_exec Threads.step (.initial false)
    (headCheck ++ stopping ++ triggerEnds ++ [.refresh false, .refresh false])
    (fun _ s => s.Stranded) (by decide +kernel)
  exact h false s tr hrun hs

end TriHaRd
