-- SUMMARY: An AEX while the monitor holds the taint mutex blocks the monitor in its own handler, and with it every thread that takes the mutex.
import TriHaRd.Base.Reach
import TriHaRd.Node.Wakeup

/-!
# The handler on the monitor's thread

`aex_handler` runs on the thread that was interrupted, and takes `tainted_mutex`.
The monitor takes that mutex as well, to taint itself. If the AEX comes while it is
inside, the handler waits for a mutex that only the code below it could give back.
The mutex is not recursive.
-/

namespace TriHaRd

open Lts

variable {s s' : Threads} {tr : List ThreadStep} {t : ThreadStep}

/-- The handler has interrupted the monitor inside its section, and waits for the mutex. -/
def Threads.Jammed (s : Threads) : Prop := s.monitor.inside = true ∧ s.handler = .acquire

instance : DecidablePred Threads.Jammed := fun s =>
  inferInstanceAs (Decidable (s.monitor.inside = true ∧ _))

/-- An AEX occurs while the monitor is inside its section. -/
def ThreadStep.InterruptsSection (t : ThreadStep) : Prop :=
  t.act = .handler ∧ t.pre.handler = .idle ∧ t.pre.monitor.inside = true

instance : DecidablePred ThreadStep.InterruptsSection := fun t =>
  inferInstanceAs (Decidable (t.act = .handler ∧ _ ∧ _))

-- ---------------------------------------------------------------------------
-- Who owns the mutex
-- ---------------------------------------------------------------------------

/-- What a step of `th` does with the mutex and with its own position. `stop_rwlock` is left to
    `stop_tasks`. -/
inductive Turn (th : Thread) (s s' : Shared) (was is : Bool) : Prop where
  | keep (hwriter : s'.writer = s.writer) (hmutex : s'.mutex = s.mutex) (hinside : is = was)
  | enter (hwriter : s'.writer = s.writer) (hmutex : s'.mutex = some th) (hinside : is = true)
  | leave (hwriter : s'.writer = s.writer) (hmutex : s'.mutex = none)

namespace Turn

variable {s s' : Shared} {th : Thread} {was is : Bool} {π : Type*} {pos pos' : π}

theorem lock {inside : π → Bool} (h : s.lock th pos = some (s', pos'))
    (hinside : inside pos = true) :
    Turn th s s' was (inside pos') := by
  obtain ⟨_, rfl, rfl⟩ := Shared.of_lock h
  exact .enter rfl rfl hinside

theorem check {inside : π → Bool} {next : Check → π} {done : Bool → π} {c : Check}
    (h : s.check next done c = some (s', pos')) (hnext : ∀ c, inside (next c) = was)
    (hdone : ∀ retval, inside (done retval) = was) : Turn th s s' was (inside pos') := by
  obtain ⟨⟨_, rfl⟩, rfl | rfl | ⟨retval, _, rfl⟩⟩ := Shared.of_check h
  · exact .keep rfl rfl (hnext _)
  · exact .keep rfl rfl (hnext _)
  · exact .keep rfl rfl (hdone retval)

end Turn

section Turns

variable {s s' : Shared}

theorem refreshThread_turn {pos pos' : RefreshPos} {more : Bool}
    (h : refreshThread s more pos = some (s', pos')) :
    Turn .refresh s s' pos.inside pos'.inside := by
  cases pos with
  | acquire | woken => exact .lock h rfl
  | head c | check c | spinCheck c | againCheck c =>
      exact .check h (fun _ => rfl) fun retval => by cases retval <;> rfl
  | sendCheck c => exact .check h (fun _ => rfl) fun _ => rfl
  | wait | leave | enter | back =>
      cases h
      exact .leave rfl rfl
  | waiting =>
      simp only [refreshThread] at h
      split at h
      case isTrue => cases h
      case isFalse =>
        cases h
        exact .keep rfl rfl rfl
  | testTainted | testCalib | send | spin | again =>
      cases h
      refine .keep rfl rfl ?_
      split <;> rfl
  | ending =>
      cases h
      exact .keep rfl rfl rfl
  | ended => cases h

theorem triggerThread_turn {pos pos' : TriggerPos} (h : triggerThread s pos = some (s', pos')) :
    Turn .trigger s s' pos.inside pos'.inside := by
  cases pos with
  | acquire => exact .lock h rfl
  | head c => exact .check h (fun _ => rfl) fun retval => by cases retval <;> rfl
  | release =>
      cases h
      exact .leave rfl rfl
  | test =>
      cases h
      refine .keep rfl rfl ?_
      split <;> rfl
  | signal | sleep | ending =>
      cases h
      exact .keep rfl rfl rfl
  | ended => cases h

/-- Is `stop_rwlock` held at the position? -/
def StopperPos.writes : StopperPos → Bool
  | .store | .unlock => true
  | _ => false

/-- But for `stop_rwlock`. -/
theorem stopperThread_turn {pos pos' : StopperPos} (h : stopperThread s pos = some (s', pos')) :
    Turn .stopper { s with writer := s'.writer } s' pos.inside pos'.inside := by
  cases pos with
  | acquire =>
      obtain ⟨_, rfl, rfl⟩ := Shared.of_lock h
      exact .enter rfl rfl rfl
  | idle =>
      simp only [stopperThread] at h
      split at h
      · cases h
      · cases h
        exact .keep rfl rfl rfl
  | release =>
      cases h
      exact .leave rfl rfl
  | readMonitor | readReadfrom | readRefresh | readTrigger =>
      cases h
      refine .keep rfl rfl ?_
      split <;> rfl
  | store | unlock | signal =>
      cases h
      exact .keep rfl rfl rfl
  | passed => cases h

theorem stopperThread_writes {pos pos' : StopperPos} (h : stopperThread s pos = some (s', pos'))
    (hwriter : s.writer = pos.writes) : s'.writer = pos'.writes := by
  cases pos with
  | acquire =>
      obtain ⟨_, rfl, rfl⟩ := Shared.of_lock h
      exact hwriter
  | idle =>
      simp only [stopperThread] at h
      split at h
      · cases h
      · cases h
        rfl
  | readMonitor | readReadfrom | readRefresh | readTrigger =>
      cases h
      refine hwriter.trans ?_
      split <;> rfl
  | store | signal | release =>
      cases h
      exact hwriter
  | unlock =>
      cases h
      rfl
  | passed => cases h

theorem monitorThread_turn {pos pos' : MonitorPos} {move : MonitorMove}
    (h : monitorThread s pos move = some (s', pos')) :
    Turn .monitor s s' pos.inside pos'.inside := by
  cases pos with
  | running seen =>
      cases move with
      | next => cases h
      | finish =>
          cases seen with
          | false => cases h
          | true =>
              cases h
              exact .keep rfl rfl rfl
      | _ =>
          cases h
          exact .keep rfl rfl rfl
  | ended => cases move <;> cases h
  | check seen c =>
      cases move with
      | next => exact .check h (fun _ => rfl) fun _ => rfl
      | _ => cases h
  | acquire seen =>
      cases move with
      | next => exact .lock h rfl
      | _ => cases h
  | store seen | signal seen =>
      cases move with
      | next =>
          cases h
          exact .keep rfl rfl rfl
      | _ => cases h
  | release seen =>
      cases move with
      | next =>
          cases h
          exact .leave rfl rfl
      | _ => cases h

theorem handlerThread_turn {pos pos' : HandlerPos} (h : handlerThread s pos = some (s', pos')) :
    Turn .handler s s' pos.inside pos'.inside := by
  cases pos with
  | acquire => exact .lock h rfl
  | idle | signal =>
      cases h
      exact .keep rfl rfl rfl
  | release =>
      cases h
      exact .leave rfl rfl

theorem readfromThread_turn {pos pos' : ReadfromPos} {quorum : Bool} {move : ReadfromMove}
    (h : readfromThread s quorum pos move = some (s', pos')) :
    Turn .readfrom s s' pos.inside pos'.inside := by
  cases pos with
  | running =>
      cases move with
      | next => cases h
      | _ =>
          cases h
          exact .keep rfl rfl rfl
  | ended => cases move <;> cases h
  | check c =>
      cases move with
      | next => exact .check h (fun _ => rfl) fun _ => rfl
      | _ => cases h
  | acquire =>
      cases move with
      | next => exact .lock h rfl
      | _ => cases h
  | store =>
      cases move with
      | next =>
          cases h
          exact .keep rfl rfl rfl
      | _ => cases h
  | release =>
      cases move with
      | next =>
          cases h
          exact .leave rfl rfl
      | _ => cases h

/-! ## The taint -/

theorem refreshThread_tainted {pos pos' : RefreshPos} {more : Bool}
    (h : refreshThread s more pos = some (s', pos')) : s'.tainted = s.tainted := by
  cases pos with
  | acquire | woken =>
      obtain ⟨_, rfl, _⟩ := Shared.of_lock h
      rfl
  | head c | check c | sendCheck c | spinCheck c | againCheck c =>
      obtain ⟨⟨_, rfl⟩, _⟩ := Shared.of_check h
      rfl
  | waiting =>
      simp only [refreshThread] at h
      split at h
      case isTrue => cases h
      case isFalse =>
        cases h
        rfl
  | ended => cases h
  | _ =>
      cases h
      rfl

theorem triggerThread_tainted {pos pos' : TriggerPos} (h : triggerThread s pos = some (s', pos')) :
    s'.tainted = s.tainted := by
  cases pos with
  | acquire =>
      obtain ⟨_, rfl, _⟩ := Shared.of_lock h
      rfl
  | head c =>
      obtain ⟨⟨_, rfl⟩, _⟩ := Shared.of_check h
      rfl
  | ended => cases h
  | _ =>
      cases h
      rfl

theorem stopperThread_tainted {pos pos' : StopperPos} (h : stopperThread s pos = some (s', pos')) :
    s'.tainted = s.tainted := by
  cases pos with
  | acquire =>
      obtain ⟨_, rfl, _⟩ := Shared.of_lock h
      rfl
  | idle =>
      simp only [stopperThread] at h
      split at h
      · cases h
      · cases h
        rfl
  | passed => cases h
  | _ =>
      cases h
      rfl

/-- The taint is only cleared inside the section of case 'U'. -/
theorem readfromThread_tainted {pos pos' : ReadfromPos} {quorum : Bool} {move : ReadfromMove}
    (h : readfromThread s quorum pos move = some (s', pos')) (houtside : pos.inside = false) :
    s'.tainted = s.tainted := by
  cases pos with
  | running =>
      cases move with
      | next => cases h
      | _ =>
          cases h
          rfl
  | ended => cases move <;> cases h
  | store | release => cases houtside
  | check c =>
      cases move with
      | next =>
          obtain ⟨⟨_, rfl⟩, _⟩ := Shared.of_check h
          rfl
      | _ => cases h
  | acquire =>
      cases move with
      | next =>
          obtain ⟨_, rfl, _⟩ := Shared.of_lock h
          rfl
      | _ => cases h

end Turns

-- ---------------------------------------------------------------------------
-- The invariant
-- ---------------------------------------------------------------------------

/-- The owner of the mutex is the one thread inside a section of it, `stop_tasks` alone writes
    `stop_rwlock`, and the monitor does not end while its handler runs. -/
structure Threads.Ruled (s : Threads) : Prop where
  exclusive : Mutex.Exclusive s.view
  owner : ∀ th, s.shared.mutex = some th → s.inside th = true
  writer : s.shared.writer = s.stopper.writes
  handler : s.monitor = .ended → s.handler = .idle

namespace Threads.Ruled

theorem initial (readfromStopped : Bool) : (Threads.initial readfromStopped).Ruled where
  exclusive := by rintro (_ | _ | _ | _ | _ | _) h <;> cases h
  owner := nofun
  writer := rfl
  handler := nofun

theorem of_turn (th : Thread) (h : s.Ruled)
    (hmutex : MutexStep th s.shared s'.shared (s.inside th) (s'.inside th))
    (hturn : Turn th { s.shared with writer := s'.shared.writer } s'.shared (s.inside th)
      (s'.inside th))
    (hothers : ∀ u, u ≠ th → s'.inside u = s.inside u)
    (hwriter : s'.shared.writer = s'.stopper.writes)
    (hhandler : s'.monitor = .ended → s'.handler = .idle) : s'.Ruled := by
  refine ⟨h.exclusive.move (hmutex.move hothers), fun u hu => ?_, hwriter, hhandler⟩
  cases hturn with
  | keep _ howner hinside =>
      have hbefore := h.owner u (howner.symm.trans hu)
      by_cases hself : u = th
      · rw [hself] at hbefore ⊢
        exact hinside.trans hbefore
      · exact (hothers u hself).trans hbefore
  | enter _ howner hinside =>
      obtain rfl : th = u := Option.some.inj (howner.symm.trans hu)
      exact hinside
  | leave _ howner => cases howner.symm.trans hu

theorem of_bystander (th : Thread) (h : s.Ruled)
    (hmutex : MutexStep th s.shared s'.shared (s.inside th) (s'.inside th))
    (hturn : Turn th s.shared s'.shared (s.inside th) (s'.inside th))
    (hothers : ∀ u, u ≠ th → s'.inside u = s.inside u) (hstopper : s'.stopper = s.stopper)
    (hhandler : s'.monitor = .ended → s'.handler = .idle) : s'.Ruled := by
  have hwriter : s'.shared.writer = s.shared.writer := by cases hturn <;> assumption
  refine h.of_turn th hmutex ?_ hothers (by rw [hwriter, hstopper, h.writer]) hhandler
  rw [hwriter]
  exact hturn

theorem move {a : ThreadAction} (hs : s.move a = some s') (h : s.Ruled) : s'.Ruled := by
  cases a with
  | refresh more =>
      obtain ⟨⟨shared, pos⟩, hstep, rfl⟩ := Option.map_eq_some_iff.mp hs
      exact h.of_bystander .refresh (refreshThread_step hstep).mutex
        (refreshThread_turn hstep) (fun u hu => by cases u <;> first | rfl | exact absurd rfl hu)
        rfl h.handler
  | trigger =>
      obtain ⟨⟨shared, pos⟩, hstep, rfl⟩ := Option.map_eq_some_iff.mp hs
      exact h.of_bystander .trigger (triggerThread_step hstep).mutex
        (triggerThread_turn hstep) (fun u hu => by cases u <;> first | rfl | exact absurd rfl hu)
        rfl h.handler
  | stopTasks =>
      obtain ⟨⟨shared, pos⟩, hstep, rfl⟩ := Option.map_eq_some_iff.mp hs
      exact h.of_turn .stopper (stopperThread_step hstep).mutex (stopperThread_turn hstep)
        (fun u hu => by cases u <;> first | rfl | exact absurd rfl hu)
        (stopperThread_writes hstep h.writer) h.handler
  | monitor move =>
      obtain ⟨hidle, hs⟩ := Option.ite_none_right_eq_some.mp hs
      obtain ⟨⟨shared, pos⟩, hstep, rfl⟩ := Option.map_eq_some_iff.mp hs
      exact h.of_bystander .monitor (monitorThread_step hstep).mutex
        (monitorThread_turn hstep) (fun u hu => by cases u <;> first | rfl | exact absurd rfl hu)
        rfl fun _ => hidle
  | handler =>
      obtain ⟨hrunning, hs⟩ := Option.ite_none_left_eq_some.mp hs
      obtain ⟨⟨shared, pos⟩, hstep, rfl⟩ := Option.map_eq_some_iff.mp hs
      exact h.of_bystander .handler (handlerThread_step hstep).mutex
        (handlerThread_turn hstep) (fun u hu => by cases u <;> first | rfl | exact absurd rfl hu)
        rfl fun hended => absurd hended hrunning
  | readfrom quorum move =>
      obtain ⟨⟨shared, pos⟩, hstep, rfl⟩ := Option.map_eq_some_iff.mp hs
      exact h.of_bystander .readfrom (readfromThread_step hstep).mutex
        (readfromThread_turn hstep) (fun u hu => by cases u <;> first | rfl | exact absurd rfl hu)
        rfl h.handler
  | shadow =>
      cases hs
      exact ⟨h.exclusive, h.owner, h.writer, h.handler⟩
  | clientLock | clientUnlock =>
      obtain ⟨_, hs⟩ := Option.ite_none_left_eq_some.mp hs
      cases hs
      exact ⟨h.exclusive, h.owner, h.writer, h.handler⟩

end Threads.Ruled

-- ---------------------------------------------------------------------------
-- The jam
-- ---------------------------------------------------------------------------

namespace Threads

theorem Ruled.mutex_of_jammed (h : s.Ruled) (hjammed : s.Jammed) :
    s.shared.mutex = some .monitor :=
  h.exclusive .monitor hjammed.1

/-- What leads to a jam is an AEX inside the section. -/
theorem jammed_of_move {a : ThreadAction} (hs : s.move a = some s') (hbefore : ¬ s.Jammed)
    (hafter : s'.Jammed) : a = .handler ∧ s.handler = .idle ∧ s.monitor.inside = true := by
  obtain ⟨hinside, hhandler⟩ := hafter
  cases a with
  | handler =>
      obtain ⟨_, hs⟩ := Option.ite_none_left_eq_some.mp hs
      obtain ⟨⟨shared, pos⟩, hstep, rfl⟩ := Option.map_eq_some_iff.mp hs
      obtain rfl : pos = .acquire := hhandler
      refine ⟨rfl, ?_, hinside⟩
      cases hpos : s.handler with
      | idle => rfl
      | acquire => exact absurd ⟨hinside, hpos⟩ hbefore
      | signal | release =>
          rw [hpos] at hstep
          cases hstep
  | monitor move =>
      obtain ⟨hidle, hs⟩ := Option.ite_none_right_eq_some.mp hs
      obtain ⟨⟨shared, pos⟩, hstep, rfl⟩ := Option.map_eq_some_iff.mp hs
      exact absurd (hidle.symm.trans hhandler) nofun
  | refresh more | trigger | stopTasks | readfrom quorum move =>
      obtain ⟨⟨shared, pos⟩, hstep, rfl⟩ := Option.map_eq_some_iff.mp hs
      exact absurd ⟨hinside, hhandler⟩ hbefore
  | shadow =>
      cases hs
      exact absurd ⟨hinside, hhandler⟩ hbefore
  | clientLock | clientUnlock =>
      obtain ⟨_, hs⟩ := Option.ite_none_left_eq_some.mp hs
      cases hs
      exact absurd ⟨hinside, hhandler⟩ hbefore

/-- An AEX inside the section leads to a jam, of a tainted node. -/
theorem jammed_of_interrupt (hs : s.move .handler = some s') (hidle : s.handler = .idle)
    (hinside : s.monitor.inside = true) : s'.Jammed ∧ s'.shared.tainted = true := by
  obtain ⟨_, hs⟩ := Option.ite_none_left_eq_some.mp hs
  obtain ⟨⟨shared, pos⟩, hstep, rfl⟩ := Option.map_eq_some_iff.mp hs
  rw [hidle] at hstep
  cases hstep
  exact ⟨⟨hinside, rfl⟩, rfl⟩

/-- Nothing leads out of a jam, and the taint stays. -/
theorem Jammed.move {a : ThreadAction} (hs : s.move a = some s') (hruled : s.Ruled)
    (h : s.Jammed) : s'.Jammed ∧ (s.shared.tainted = true → s'.shared.tainted = true) := by
  have hmutex := hruled.mutex_of_jammed h
  obtain ⟨hinside, hhandler⟩ := h
  cases a with
  | handler =>
      obtain ⟨_, hs⟩ := Option.ite_none_left_eq_some.mp hs
      rw [hhandler, handlerThread, Shared.lock, hmutex] at hs
      simp at hs
  | monitor move => simp [Threads.move, hhandler] at hs
  | refresh more =>
      obtain ⟨⟨shared, pos⟩, hstep, rfl⟩ := Option.map_eq_some_iff.mp hs
      exact ⟨⟨hinside, hhandler⟩, (refreshThread_tainted hstep).trans⟩
  | trigger =>
      obtain ⟨⟨shared, pos⟩, hstep, rfl⟩ := Option.map_eq_some_iff.mp hs
      exact ⟨⟨hinside, hhandler⟩, (triggerThread_tainted hstep).trans⟩
  | stopTasks =>
      obtain ⟨⟨shared, pos⟩, hstep, rfl⟩ := Option.map_eq_some_iff.mp hs
      exact ⟨⟨hinside, hhandler⟩, (stopperThread_tainted hstep).trans⟩
  | readfrom quorum move =>
      obtain ⟨⟨shared, pos⟩, hstep, rfl⟩ := Option.map_eq_some_iff.mp hs
      have houtside : s.readfrom.inside = false := by
        by_contra hin
        have howner := hruled.exclusive .readfrom (Bool.not_eq_false _ ▸ hin : _ = true)
        cases hmutex.symm.trans howner
      exact ⟨⟨hinside, hhandler⟩, (readfromThread_tainted hstep houtside).trans⟩
  | shadow =>
      cases hs
      exact ⟨⟨hinside, hhandler⟩, fun _ => rfl⟩
  | clientLock | clientUnlock =>
      obtain ⟨_, hs⟩ := Option.ite_none_left_eq_some.mp hs
      cases hs
      exact ⟨⟨hinside, hhandler⟩, id⟩

end Threads

-- ---------------------------------------------------------------------------
-- Giving the mutex back
-- ---------------------------------------------------------------------------

/-! ## How many steps a thread is from giving the mutex back -/

def RefreshPos.rest : RefreshPos → ℕ
  | .check .lock => 6
  | .check .read => 5
  | .check (.unlock _) => 4
  | .testTainted => 3
  | .testCalib => 2
  | _ => 1

def TriggerPos.rest : TriggerPos → ℕ
  | .test => 3
  | .signal => 2
  | _ => 1

def StopperPos.rest : StopperPos → ℕ
  | .signal => 2
  | _ => 1

def MonitorPos.rest : MonitorPos → ℕ
  | .store _ => 3
  | .signal _ => 2
  | _ => 1

def HandlerPos.rest : HandlerPos → ℕ
  | .signal => 2
  | _ => 1

def ReadfromPos.rest : ReadfromPos → ℕ
  | .store => 2
  | _ => 1

/-- And `stop_tasks` from giving `stop_rwlock` back. -/
def StopperPos.delay : StopperPos → ℕ
  | .store => 2
  | .unlock => 1
  | _ => 0

/-- The mutex is free after the step, or the thread is nearer to giving it back. -/
def Nearer (s s' : Shared) (rest rest' : ℕ) : Prop :=
  s'.mutex = none ∧ 0 < rest ∨ s'.mutex = s.mutex ∧ rest' < rest

section Nearer

variable {s : Shared}

theorem triggerThread_nearer {pos : TriggerPos} (hinside : pos.inside = true) :
    ∃ s' pos', triggerThread s pos = some (s', pos') ∧ Nearer s s' pos.rest pos'.rest := by
  cases pos with
  | test =>
      refine ⟨_, _, rfl, .inr ⟨rfl, ?_⟩⟩
      split <;> simp [TriggerPos.rest]
  | signal => exact ⟨_, _, rfl, .inr ⟨rfl, by simp [TriggerPos.rest]⟩⟩
  | release => exact ⟨_, _, rfl, .inl ⟨rfl, by simp [TriggerPos.rest]⟩⟩
  | _ => cases hinside

theorem stopperThread_nearer {pos : StopperPos} (hinside : pos.inside = true) :
    ∃ s' pos', stopperThread s pos = some (s', pos') ∧ Nearer s s' pos.rest pos'.rest := by
  cases pos with
  | signal => exact ⟨_, _, rfl, .inr ⟨rfl, by simp [StopperPos.rest]⟩⟩
  | release => exact ⟨_, _, rfl, .inl ⟨rfl, by simp [StopperPos.rest]⟩⟩
  | _ => cases hinside

theorem monitorThread_nearer {pos : MonitorPos} (hinside : pos.inside = true) :
    ∃ s' pos', monitorThread s pos .next = some (s', pos') ∧ Nearer s s' pos.rest pos'.rest := by
  cases pos with
  | store seen => exact ⟨_, _, rfl, .inr ⟨rfl, by simp [MonitorPos.rest]⟩⟩
  | signal seen => exact ⟨_, _, rfl, .inr ⟨rfl, by simp [MonitorPos.rest]⟩⟩
  | release seen => exact ⟨_, _, rfl, .inl ⟨rfl, by simp [MonitorPos.rest]⟩⟩
  | _ => cases hinside

theorem handlerThread_nearer {pos : HandlerPos} (hinside : pos.inside = true) :
    ∃ s' pos', handlerThread s pos = some (s', pos') ∧ Nearer s s' pos.rest pos'.rest := by
  cases pos with
  | signal => exact ⟨_, _, rfl, .inr ⟨rfl, by simp [HandlerPos.rest]⟩⟩
  | release => exact ⟨_, _, rfl, .inl ⟨rfl, by simp [HandlerPos.rest]⟩⟩
  | _ => cases hinside

theorem readfromThread_nearer {pos : ReadfromPos} (hinside : pos.inside = true) :
    ∃ s' pos', readfromThread s false pos .next = some (s', pos') ∧
      Nearer s s' pos.rest pos'.rest := by
  cases pos with
  | store => exact ⟨_, _, rfl, .inr ⟨rfl, by simp [ReadfromPos.rest]⟩⟩
  | release => exact ⟨_, _, rfl, .inl ⟨rfl, by simp [ReadfromPos.rest]⟩⟩
  | _ => cases hinside

/-- Unless it waits for `stop_rwlock`. -/
theorem refreshThread_nearer {pos : RefreshPos} (hinside : pos.inside = true)
    (hlock : pos = .check .lock → s.writer = false) :
    ∃ s' pos', refreshThread s false pos = some (s', pos') ∧ Nearer s s' pos.rest pos'.rest := by
  cases pos with
  | check c =>
      cases c with
      | lock =>
          have hfree : s.writer = false := hlock rfl
          refine ⟨{ s with readers := s.readers + 1 }, .check .read, ?_, .inr ⟨rfl, ?_⟩⟩
          · simp [refreshThread, Shared.check, hfree]
          · simp [RefreshPos.rest]
      | read => exact ⟨_, _, rfl, .inr ⟨rfl, by simp [RefreshPos.rest]⟩⟩
      | unlock retval =>
          refine ⟨_, _, rfl, .inr ⟨rfl, ?_⟩⟩
          cases retval <;> simp [RefreshPos.rest]
  | testTainted | testCalib =>
      refine ⟨_, _, rfl, .inr ⟨rfl, ?_⟩⟩
      split <;> simp [RefreshPos.rest]
  | wait | leave | enter | back => exact ⟨_, _, rfl, .inl ⟨rfl, by simp [RefreshPos.rest]⟩⟩
  | _ => cases hinside

/-- `stop_tasks` gives `stop_rwlock` back. -/
theorem stopperThread_yields {pos : StopperPos} (hwrites : pos.writes = true) :
    ∃ s' pos', stopperThread s pos = some (s', pos') ∧ s'.mutex = s.mutex ∧
      pos'.delay < pos.delay := by
  cases pos with
  | store => exact ⟨_, _, rfl, rfl, by simp [StopperPos.delay]⟩
  | unlock => exact ⟨_, _, rfl, rfl, by simp [StopperPos.delay]⟩
  | _ => cases hwrites

end Nearer

namespace Threads

def rest (s : Threads) : Thread → ℕ
  | .refresh => s.refresh.rest + s.stopper.delay
  | .trigger => s.trigger.rest
  | .stopper => s.stopper.rest
  | .monitor => s.monitor.rest
  | .handler => s.handler.rest
  | .readfrom => s.readfrom.rest

/-- What is left until the mutex is free. -/
def toFree (s : Threads) : ℕ := s.shared.mutex.elim 0 s.rest

theorem toFree_lt {th : Thread} (hmutex : s.shared.mutex = some th)
    (h : Nearer s.shared s'.shared (s.rest th) (s'.rest th)) : s'.toFree < s.toFree := by
  rw [toFree, toFree, hmutex, Option.elim_some]
  rcases h with ⟨hfree, hpos⟩ | ⟨howner, hlt⟩
  · rwa [hfree, Option.elim_none]
  · rwa [howner, hmutex, Option.elim_some]

/-- Neither is the mutex free nor are the threads in a jam: the owner, or `stop_tasks` if it holds
    what the owner waits for, gets nearer to giving it back. -/
theorem exists_nearer (hruled : s.Ruled) (hjammed : ¬ s.Jammed) (howned : s.shared.mutex ≠ none) :
    ∃ a s', s.move a = some s' ∧ (a = .handler → s.handler ≠ .idle) ∧ s'.toFree < s.toFree := by
  obtain ⟨th, hth⟩ := Option.ne_none_iff_exists'.mp howned
  have hinside := hruled.owner th hth
  cases th with
  | trigger =>
      obtain ⟨shared, pos, hstep, hnearer⟩ := triggerThread_nearer (s := s.shared) hinside
      exact ⟨.trigger, _, by simp only [move, hstep]; rfl,
        fun hact => (by cases hact), toFree_lt hth hnearer⟩
  | stopper =>
      obtain ⟨shared, pos, hstep, hnearer⟩ := stopperThread_nearer (s := s.shared) hinside
      exact ⟨.stopTasks, _, by simp only [move, hstep]; rfl,
        fun hact => (by cases hact), toFree_lt hth hnearer⟩
  | readfrom =>
      obtain ⟨shared, pos, hstep, hnearer⟩ := readfromThread_nearer (s := s.shared) hinside
      exact ⟨.readfrom false .next, _, by simp only [move, hstep]; rfl,
        fun hact => (by cases hact), toFree_lt hth hnearer⟩
  | handler =>
      obtain ⟨shared, pos, hstep, hnearer⟩ := handlerThread_nearer (s := s.shared) hinside
      have hbusy : s.handler ≠ .idle := by
        intro hidle
        simp [inside, hidle, HandlerPos.inside] at hinside
      have hrunning : s.monitor ≠ .ended := fun hended => hbusy (hruled.handler hended)
      exact ⟨.handler, _, by simp only [move, if_neg hrunning, hstep]; rfl, fun _ => hbusy,
        toFree_lt hth hnearer⟩
  | monitor =>
      obtain ⟨shared, pos, hstep, hnearer⟩ := monitorThread_nearer (s := s.shared) hinside
      have hidle : s.handler = .idle := by
        cases hpos : s.handler with
        | idle => rfl
        | acquire => exact absurd ⟨hinside, hpos⟩ hjammed
        | signal | release =>
            have hhandler : s.view.inside .handler := by
              simp [view, inside, hpos, HandlerPos.inside]
            cases hruled.exclusive.unique hhandler hinside
      exact ⟨.monitor .next, _, by simp only [move, if_pos hidle, hstep]; rfl,
        fun hact => (by cases hact), toFree_lt hth hnearer⟩
  | refresh =>
      by_cases hblocked : s.refresh = .check .lock ∧ s.shared.writer = true
      · obtain ⟨shared, pos, hstep, hmutex, hdelay⟩ :=
          stopperThread_yields (s := s.shared) (hruled.writer.symm.trans hblocked.2)
        refine ⟨.stopTasks, _, by simp only [move, hstep]; rfl,
          fun hact => (by cases hact), toFree_lt hth ?_⟩
        exact .inr ⟨hmutex, Nat.add_lt_add_left hdelay _⟩
      · obtain ⟨shared, pos, hstep, hnearer⟩ := refreshThread_nearer (s := s.shared) hinside
          fun hlock => by simpa [hlock] using hblocked
        refine ⟨.refresh false, _, by simp only [move, hstep]; rfl,
          fun hact => (by cases hact), toFree_lt hth ?_⟩
        exact hnearer.imp (And.imp_right fun hpos => Nat.add_pos_left hpos _)
          (And.imp_right fun hlt => Nat.add_lt_add_right hlt _)

end Threads

-- ---------------------------------------------------------------------------
-- Whole runs
-- ---------------------------------------------------------------------------

namespace ThreadStep

theorem move_eq (hs : t.IsStep Threads.step) : t.pre.move t.act = some t.post := by
  obtain ⟨s', hmove, heq⟩ := Option.map_eq_some_iff.mp hs
  rwa [(Prod.mk.inj heq).1] at hmove

end ThreadStep

namespace Threads

theorem ruled_of_run {readfromStopped : Bool} (hrun : ThreadRun (.initial readfromStopped) tr s) :
    s.Ruled :=
  hrun.invariant (fun _ hs h => h.move (ThreadStep.move_eq hs)) (.initial readfromStopped)

/-- Unless the threads are in a jam, they can give the mutex back. -/
theorem canReach_free (hruled : s.Ruled) (hjammed : ¬ s.Jammed) :
    CanReach Threads.step (fun u => u.shared.mutex = none) s := by
  refine canReach_of_measure (I := fun u => u.Ruled ∧ ¬ u.Jammed) toFree (fun u hu howned => ?_)
    ⟨hruled, hjammed⟩
  obtain ⟨a, u', hmove, hbusy, hlt⟩ := exists_nearer hu.1 hu.2 howned
  refine ⟨a, u', [], by rw [Threads.step, hmove]; rfl, ⟨hu.1.move hmove, fun hafter => ?_⟩, hlt⟩
  obtain ⟨hact, hidle, _⟩ := jammed_of_move hmove hu.2 hafter
  exact hbusy hact hidle

/-- In a jam, they cannot. -/
theorem not_canReach_free (hruled : s.Ruled) (hjammed : s.Jammed) :
    ¬ CanReach Threads.step (fun u => u.shared.mutex = none) s := by
  refine not_canReach_of_trap (J := fun u => u.Ruled ∧ u.Jammed) (fun t hs h => ?_)
    (fun u hu hfree => ?_) ⟨hruled, hjammed⟩
  · have hmove := ThreadStep.move_eq hs
    exact ⟨h.1.move hmove, (h.2.move hmove h.1).1⟩
  · cases hfree.symm.trans (hu.1.mutex_of_jammed hu.2)

/-- A run ends in a jam if it takes an AEX inside the section. -/
theorem jammed_iff_of_run {readfromStopped : Bool}
    (hrun : ThreadRun (.initial readfromStopped) tr s) :
    s.Jammed ↔ ∃ t ∈ tr, t.InterruptsSection := by
  refine (hrun.history (I := fun past u => u.Ruled ∧
    (u.Jammed ↔ ∃ t ∈ past, ThreadStep.InterruptsSection t)) (fun past t hs h => ?_)
    ⟨.initial readfromStopped, by simp [Jammed, initial, MonitorPos.inside]⟩).2
  have hmove := ThreadStep.move_eq hs
  refine ⟨h.1.move hmove, fun hafter => ?_, fun ⟨u, hu, hinterrupts⟩ => ?_⟩
  · by_cases hbefore : t.pre.Jammed
    · obtain ⟨u, hu, hinterrupts⟩ := h.2.mp hbefore
      exact ⟨u, List.mem_append_left _ hu, hinterrupts⟩
    · exact ⟨t, by simp, jammed_of_move hmove hbefore hafter⟩
  · rcases List.mem_append.mp hu with hpast | hlast
    · exact ((h.2.mpr ⟨u, hpast, hinterrupts⟩).move hmove h.1).1
    · rw [List.mem_singleton.mp hlast] at hinterrupts
      obtain ⟨hact, hidle, hinside⟩ := hinterrupts
      rw [hact] at hmove
      exact (jammed_of_interrupt hmove hidle hinside).1

/-- The monitor waits for its handler. -/
theorem Jammed.monitor {a : ThreadAction} (hs : s.move a = some s') (h : s.Jammed) :
    s'.monitor = s.monitor := by
  cases a with
  | monitor move => simp [Threads.move, h.2] at hs
  | refresh more | trigger | stopTasks | readfrom quorum move =>
      obtain ⟨⟨shared, pos⟩, hstep, rfl⟩ := Option.map_eq_some_iff.mp hs
      rfl
  | handler =>
      obtain ⟨_, hs⟩ := Option.ite_none_left_eq_some.mp hs
      obtain ⟨⟨shared, pos⟩, hstep, rfl⟩ := Option.map_eq_some_iff.mp hs
      rfl
  | shadow =>
      cases hs
      rfl
  | clientLock | clientUnlock =>
      obtain ⟨_, hs⟩ := Option.ite_none_left_eq_some.mp hs
      cases hs
      rfl

/-- The handler sets the taint before it waits, and nobody clears it in a jam. -/
theorem tainted_of_jammed {readfromStopped : Bool}
    (hrun : ThreadRun (.initial readfromStopped) tr s) (hjammed : s.Jammed) :
    s.shared.tainted = true := by
  refine (hrun.invariant (I := fun u => u.Ruled ∧ (u.Jammed → u.shared.tainted = true))
    (fun t hs h => ?_) ⟨.initial readfromStopped, fun h => by cases h.1⟩).2 hjammed
  have hmove := ThreadStep.move_eq hs
  refine ⟨h.1.move hmove, fun hafter => ?_⟩
  by_cases hbefore : t.pre.Jammed
  · exact (hbefore.move hmove h.1).2 (h.2 hbefore)
  · obtain ⟨hact, hidle, hinside⟩ := jammed_of_move hmove hbefore hafter
    rw [hact] at hmove
    exact (jammed_of_interrupt hmove hidle hinside).2

/-- In a jam, `stop_tasks` does not get past its signal. -/
theorem Jammed.hasSignalled {a : ThreadAction} (hs : s.move a = some s') (hruled : s.Ruled)
    (h : s.Jammed) (hsignalled : s'.stopper.hasSignalled = true) :
    s.stopper.hasSignalled = true := by
  cases a with
  | stopTasks =>
      obtain ⟨⟨shared, pos⟩, hstep, rfl⟩ := Option.map_eq_some_iff.mp hs
      rcases (stopperThread_step hstep).signalled hsignalled with hbefore | ⟨hsignal, _⟩
      · exact hbefore
      · have hstopper : s.view.inside .stopper := by
          simp [view, inside, hsignal, StopperPos.inside]
        cases (hruled.mutex_of_jammed h).symm.trans (hruled.exclusive .stopper hstopper)
  | refresh more | trigger | readfrom quorum move =>
      obtain ⟨⟨shared, pos⟩, hstep, rfl⟩ := Option.map_eq_some_iff.mp hs
      exact hsignalled
  | monitor move =>
      obtain ⟨_, hs⟩ := Option.ite_none_right_eq_some.mp hs
      obtain ⟨⟨shared, pos⟩, hstep, rfl⟩ := Option.map_eq_some_iff.mp hs
      exact hsignalled
  | handler =>
      obtain ⟨_, hs⟩ := Option.ite_none_left_eq_some.mp hs
      obtain ⟨⟨shared, pos⟩, hstep, rfl⟩ := Option.map_eq_some_iff.mp hs
      exact hsignalled
  | shadow =>
      cases hs
      exact hsignalled
  | clientLock | clientUnlock =>
      obtain ⟨_, hs⟩ := Option.ite_none_left_eq_some.mp hs
      cases hs
      exact hsignalled

end Threads

/-- In every interleaving, the threads can still give the mutex back exactly when no AEX has
    occurred while the monitor was inside its section. -/
theorem mutex_returns_iff {readfromStopped : Bool}
    (hrun : ThreadRun (.initial readfromStopped) tr s) :
    CanReach Threads.step (fun u => u.shared.mutex = none) s ↔
      ∀ t ∈ tr, ¬ ThreadStep.InterruptsSection t := by
  have hruled := Threads.ruled_of_run hrun
  have hjammed := Threads.jammed_iff_of_run hrun
  constructor
  · intro hfree t ht hinterrupts
    exact Threads.not_canReach_free hruled (hjammed.mpr ⟨t, ht, hinterrupts⟩) hfree
  · intro hnone
    refine Threads.canReach_free hruled fun h => ?_
    obtain ⟨t, ht, hinterrupts⟩ := hjammed.mp h
    exact hnone t ht hinterrupts

/-- After such an AEX the node stays tainted for good, its monitor neither goes on nor ends, no
    other thread enters a section of the mutex, and `stop_tasks` hangs if it has not yet signalled. -/
theorem interrupted_for_good {readfromStopped : Bool} {tr' : List ThreadStep}
    (hrun : ThreadRun (.initial readfromStopped) tr s)
    (hinterrupted : ∃ t ∈ tr, ThreadStep.InterruptsSection t) (hrest : ThreadRun s tr' s') :
    s'.shared.tainted = true ∧ s'.monitor = s.monitor ∧ s.monitor ≠ .ended ∧
      (∀ th, th ≠ .monitor → s'.inside th = false) ∧
      (s'.stopper.hasSignalled = true → s.stopper.hasSignalled = true) := by
  have hjammed := (Threads.jammed_iff_of_run hrun).mpr hinterrupted
  have hinv : (s'.Ruled ∧ s'.Jammed) ∧ s'.shared.tainted = true ∧ s'.monitor = s.monitor ∧
      (s'.stopper.hasSignalled = true → s.stopper.hasSignalled = true) := by
    refine hrest.invariant (I := fun u => (u.Ruled ∧ u.Jammed) ∧ u.shared.tainted = true ∧
      u.monitor = s.monitor ∧ (u.stopper.hasSignalled = true → s.stopper.hasSignalled = true))
      (fun t hs h => ?_)
      ⟨⟨Threads.ruled_of_run hrun, hjammed⟩, Threads.tainted_of_jammed hrun hjammed, rfl, id⟩
    obtain ⟨⟨hruled, hpre⟩, htainted, hmonitor, hsignalled⟩ := h
    have hmove := ThreadStep.move_eq hs
    obtain ⟨hpost, hkeeps⟩ := hpre.move hmove hruled
    exact ⟨⟨hruled.move hmove, hpost⟩, hkeeps htainted, (hpre.monitor hmove).trans hmonitor,
      fun h => hsignalled (hpre.hasSignalled hmove hruled h)⟩
  obtain ⟨⟨hruled, hpost⟩, htainted, hmonitor, hsignalled⟩ := hinv
  refine ⟨htainted, hmonitor, fun hended => ?_, fun th hth => ?_, hsignalled⟩
  · rw [Threads.Jammed, hended] at hjammed
    cases hjammed.1
  · by_contra hin
    have hinside : s'.inside th = true := by simpa using hin
    exact hth (hruled.exclusive.unique hinside hpost.1)

namespace Scenario

/-- The monitor takes the mutex to taint itself, and is interrupted. -/
def interrupted : List ThreadAction := [.monitor .selfTaint, .monitor .next, .handler]

end Scenario

open Scenario in
/-- The theorem at a run that is interrupted, and one that is not. -/
theorem mutex_returns_iff_interrupted :
    (∃ tr s, ThreadRun (.initial false) tr s ∧
      ¬ CanReach Threads.step (fun u => u.shared.mutex = none) s) ∧
    ∃ tr s, ThreadRun (.initial false) tr s ∧ s.shared.mutex = some .monitor ∧
      CanReach Threads.step (fun u => u.shared.mutex = none) s := by
  constructor
  · obtain ⟨tr, s, hrun, t, ht, hinterrupts⟩ := exists_run_of_exec Threads.step (.initial false)
      interrupted (fun tr _ => ∃ t ∈ tr, ThreadStep.InterruptsSection t) (by decide +kernel)
    exact ⟨tr, s, hrun, fun hfree => (mutex_returns_iff hrun).mp hfree t ht hinterrupts⟩
  · obtain ⟨tr, s, hrun, hmutex, hnone⟩ := exists_run_of_exec Threads.step (.initial false)
      (interrupted.take 2) (fun tr s => s.shared.mutex = some .monitor ∧
        ∀ t ∈ tr, ¬ ThreadStep.InterruptsSection t) (by decide +kernel)
    exact ⟨tr, s, hrun, hmutex, (mutex_returns_iff hrun).mpr hnone⟩

open Scenario in
/-- The theorem at the first of them, when the node is then stopped. -/
theorem interrupted_for_good_stopping :
    ∃ s tr s', ThreadRun s tr s' ∧ s'.shared.stop = true ∧ s'.shared.tainted = true ∧
      (s'.stopper.hasSignalled = true → s.stopper.hasSignalled = true) := by
  obtain ⟨tr, s, hrun, t, ht, hinterrupts, hs⟩ := exists_run_of_exec Threads.step (.initial false)
    interrupted (fun tr s => ∃ t ∈ tr, ThreadStep.InterruptsSection t ∧
      ((exec Threads.step s [.stopTasks, .stopTasks, .stopTasks]).any fun r =>
        decide (r.2.shared.stop = true)) = true) (by decide +kernel)
  obtain ⟨tr', s', hrest, hstop⟩ := exists_run_of_exec Threads.step s _
    (fun _ u => u.shared.stop = true) hs
  obtain ⟨htainted, _, _, _, hsignalled⟩ :=
    interrupted_for_good hrun ⟨t, ht, hinterrupts⟩ hrest
  exact ⟨s, tr', s', hrest, hstop, htainted, hsignalled⟩

end TriHaRd
