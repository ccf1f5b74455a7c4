-- SUMMARY: The tasks and clients of one node as threads that interleave access by access, and the runs that they can make.
import TriHaRd.Node.Accesses
import TriHaRd.Node.System

/-!
# Interleaving

The machine of one node. Its threads are the tasks of the node, the threads of the
application, and any number of clients. An AEX interrupts the monitor's thread, or
the handler of an earlier one, and holds it up until its own handler returns.

`System` runs each of these functions in one step. Here any other thread may come
between two accesses.
-/

namespace TriHaRd

open Truncate SharedMemory

/-- The threads of a node. `handler depth` runs the AEX handler, on the monitor's thread if `depth`
    is zero, and else inside the handler one level below. -/
inductive NodeThread where
  | monitor
  | handler (depth : ℕ)
  | refresh
  | receiver
  | trigger
  | application (n : ℕ)
  | client (n : ℕ)
deriving DecidableEq, Repr

/-- Where a thread rests between two passes through its loops. -/
inductive Rest where
  | monitor (pc : MonitorPc)
  | handler
  | refresh (pc : RefreshPc)
  /-- At the head of the loop of `loop_recvfrom`. -/
  | listening
  | deaf
  | trigger
  | triggerDone
  | application
  | idle
  /-- In the wait loop of an unforced `get_timestamp`. -/
  | waiting (memTsc : ℤ)
deriving DecidableEq, Repr

namespace Code

-- ---------------------------------------------------------------------------
-- The monitor
-- ---------------------------------------------------------------------------

/-- The custom AEX handler. -/
def aexHandler : Code Unit := do
  put (.tainted true)
  let addCount ← get (·.addCount)
  put (.memAddCount addCount)
  let totalAexCount ← get (·.totalAexCount)
  put (.totalAexCount (totalAexCount + 1))
  let tsc ← rdtscp
  put (.tsc tsc)

def countAex : Code Unit := do
  let totalAexCount ← get (·.totalAexCount)
  put (.totalAexCount (totalAexCount + 1))

def selfTaint : Code Unit := do
  let exceeded ← get fun s => decide (s.nbUninterrRounds > s.selftaintingRounds)
  .when exceeded do
    put (.nbUninterrRounds 0)
    countAex
    put (.tainted true)

/-- The comparison with `ACCURACY`, from left to right. -/
def discalibrated (memTotalAexCount : ℤ) : Code Bool := do
  let accuracy : ℚ := 5 / 100
  let totalAexCount ← get (·.totalAexCount)
  if totalAexCount = memTotalAexCount then
    let addCount ← get (·.addCount)
    let addCountRef ← get (·.addCountRef)
    if (addCount : ℚ) > addCountRef * (1 + accuracy) then return true
    else
      let addCount ← get (·.addCount)
      let addCountRef ← get (·.addCountRef)
      return decide ((addCount : ℚ) < addCountRef * (1 - accuracy))
  else return false

/-- The end of a round in the AEX-Notify build. -/
def endCounting (memTotalAexCount : ℤ) : Code Unit := do
  let totalAexCount ← get (·.totalAexCount)
  if totalAexCount = memTotalAexCount then
    let nbUninterrRounds ← get (·.nbUninterrRounds)
    put (.nbUninterrRounds (nbUninterrRounds + 1))
  else put (.nbUninterrRounds 0)
  selfTaint
  let off ← discalibrated memTotalAexCount
  .when off do
    put (.calibCount false)
    put (.nodeState .freq)

/-- What follows the inner loop of the polling build when it ends with the gap `delta`. -/
def endPolling (b : Build) (delta : ℤ) : Code Unit :=
  if delta ≥ b.threshold then do
    countAex
    put (.nbUninterrRounds 0)
    put (.tainted true)
  else if delta < 0 then do
    put (.nbUninterrRounds 0)
    put (.calibCount false)
  else do
    let nbUninterrRounds ← get (·.nbUninterrRounds)
    put (.nbUninterrRounds (nbUninterrRounds + 1))
    selfTaint

/-- The end of an iteration of the loop of `monitor`. -/
def monitorNtp : Code Unit := do
  let poll ← get fun s => decide (s.statics.ntpStep.tmod (Int.tdiv 1000 s.monitorTime) = 0)
  .when poll do
    ntp
    put (.ntpStep 0)
  let ntpStep ← get (·.statics.ntpStep)
  put (.ntpStep (ntpStep + 1))

/-- The entry of `monitor_rdtsc`, up to its first loop. -/
def enterRound (b : Build) (caller : Caller) : Code MonitorPc := do
  let startTsc ← rdtscp
  let stopTsc ← get fun s => s.stopTsc startTsc
  match b with
  | .aexNotify =>
    let memTotalAexCount ← get (·.totalAexCount)
    return .counting caller stopTsc memTotalAexCount 0
  | .polling _ => return .sampling caller stopTsc

/-- The initialisation of the clock. -/
def initClock : Code Unit := do
  let osTime ← .load .plain fun w _ => w.osTime
  .store (.enter .task) (.tsRef osTime)
  let tsc ← .load (.inside .task) fun w _ => w.tsc
  .store (.inside .task) (.tscRef tsc)
  let tscRef ← .load (.inside .task) fun _ s => s.tscRef
  .store (.inside .task) (.initTsc tscRef)
  let tscRef ← get (·.tscRef)
  put (.lastUpdateTsc tscRef)

/-- `calib_count=calibrate_count()`, when its loop is over. -/
def calibrated : Code MonitorPc := do
  put (.calibCount true)
  return .calibrateDrift

def monitor (b : Build) : MonitorPc → Code MonitorPc
  | .start => do
    initClock
    return .loop
  | .loop => do
    let stop ← shouldStop
    if stop then
      put .monitorStopped
      return .done
    else
      let calibCount ← get (·.calibCount)
      if calibCount then enterRound b .monitor else return .calibrateCount 1 0
  | .calibrateCount i addCountSum =>
    if i ≤ 10 then do
      let stop ← shouldStop
      if stop then calibrated else enterRound b (.calibrate i addCountSum)
    else calibrated
  | .calibrateDrift => do
    sendRecvDriftMessage 0 0
    return .loop
  | .counting caller stopTsc memTotalAexCount count => do
    let tsc ← rdtscp
    put (.tsc tsc)
    put (.addCount (count + 1))
    if tsc < stopTsc then return .counting caller stopTsc memTotalAexCount (count + 1)
    else return .counted caller memTotalAexCount
  | .counted caller memTotalAexCount => do
    endCounting memTotalAexCount
    return .returned caller
  | .sampling caller stopTsc => do
    let a ← rdtscp
    return .polling caller stopTsc a
  | .polling caller stopTsc a => do
    let tsc ← rdtscp
    put (.tsc tsc)
    let tsc ← get (·.tsc)
    let delta := tsc - a
    let a ← get (·.tsc)
    let tsc ← get (·.tsc)
    if tsc < stopTsc ∧ delta < b.threshold ∧ delta > 0 then return .polling caller stopTsc a
    else
      endPolling b delta
      -- a negative gap leaves the outer loop by `break`
      let tsc ← get (·.tsc)
      if tsc < stopTsc ∧ ¬ delta < 0 then return .sampling caller stopTsc
      else return .returned caller
  | .returned .monitor => do
    monitorNtp
    return .loop
  | .returned (.calibrate i addCountSum) => do
    let addCount ← get (·.addCount)
    let addCountMem := addCountSum
    let addCountSum := addCountSum + addCount
    if addCountSum < addCountMem then
      put (.calibCount false)
      return .calibrateDrift
    else
      put (.addCountRef (addCountSum.tdiv i))
      return .calibrateCount (i + 1) addCountSum
  | .done => return .done

-- ---------------------------------------------------------------------------
-- The other threads
-- ---------------------------------------------------------------------------

/-- `while (mem_total_aex_count!=total_aex_count && !should_stop())` -/
def roundEnd (memTotalAexCount : ℤ) : Code RefreshPc := do
  let totalAexCount ← get (·.totalAexCount)
  if memTotalAexCount = totalAexCount then return .head
  else
    let stop ← shouldStop
    if stop then return .head else return .roundStart

def refresh : RefreshPc → Code RefreshPc
  | .head => do
    let stop ← shouldStop
    if stop then
      put .refreshStopped
      return .done
    else return .waiting
  | .waiting => do
    let stop ← shouldStop
    if stop then
      put .refreshStopped
      return .done
    else
      let tainted ← get (·.tainted)
      if tainted then
        let calibCount ← get (·.calibCount)
        if calibCount then return .roundStart else return .head
      else return .head
  | .roundStart => do
    shadowTscUpdate
    let memTotalAexCount ← get (·.totalAexCount)
    return .send memTotalAexCount
  | .send memTotalAexCount => do
    sendTaintedMessages
    let referenceTsc ← get (·.tsc)
    return .spin memTotalAexCount referenceTsc
  | .spin memTotalAexCount referenceTsc => do
    let tainted ← get (·.tainted)
    if tainted then
      let tsc ← get (·.tsc)
      let tscFreq ← get (·.tscFreq)
      if tsc - referenceTsc < truncate (tscFreq * 1000000) * 10 then
        let stop ← shouldStop
        if stop then roundEnd memTotalAexCount else return .spin memTotalAexCount referenceTsc
      else roundEnd memTotalAexCount
    else roundEnd memTotalAexCount
  | .done => return .done

/-- One pass through the loop of `loop_recvfrom`. The exit without a socket does not set
    `readfrom_stopped`. -/
def loopRecvfrom : Code Rest := do
  let stop ← shouldStop
  if stop then leave
  else
    let sock ← get (·.sock)
    if sock < 0 then return .deaf
    else
      let input ← .load .plain fun w _ => w.input
      match input with
      | .message payload src =>
        let retval ← handleMessage payload src
        if retval = success then return .listening else leave
      | .recvError fd =>
        put (.sock (-1))
        put (.sock fd)
        return .listening
      | _ => return .listening
where
  leave : Code Rest := do
    put .readfromStopped
    return .deaf

/-- One pass through the loop of `untaint_trigger`. The signal that it gives is among the wake-ups
    that refresh may have at any time. -/
def untaintTrigger : Code Rest := do
  let stop ← shouldStop
  if stop then
    put .triggerStopped
    return .triggerDone
  else
    let _ ← get (·.tainted)
    return .trigger

/-- What a thread does that rests, with what it finds to do. -/
def body (b : Build) (rest : Rest) (w : Outside) : Code Rest :=
  match rest with
  | .monitor pc => do
    let pc ← monitor b pc
    return .monitor pc
  | .handler => do
    aexHandler
    return .handler
  | .refresh pc => do
    let pc ← refresh pc
    return .refresh pc
  | .listening => loopRecvfrom
  | .trigger => untaintTrigger
  | .application =>
    match w.input with
    | .stopTasks => do
      put .stop
      return .application
    | .addSibling addr sendOk => do
      addSibling addr sendOk
      return .application
    | _ => return .application
  | .idle =>
    if w.input = .getTimestamp then do
      let memTsc ← get (·.tsc)
      return .waiting memTsc
    else return .idle
  | .waiting memTsc => do
    let timestamp ← awaitClock memTsc
    return if timestamp.isSome then .idle else .waiting memTsc
  | .deaf => return .deaf
  | .triggerDone => return .triggerDone

end Code

-- ---------------------------------------------------------------------------
-- The machine
-- ---------------------------------------------------------------------------

/-- A thread that waits until the handler on top of it has returned does not move. A handler can
    begin while what it interrupts goes on. -/
def ready (b : Build) (threads : NodeThread → Code Rest) : NodeThread → Bool
  | .monitor => (threads (.handler 0)).place?.isNone
  | .handler 0 =>
    (threads (.handler 1)).place?.isNone && b == .aexNotify &&
      !(threads .monitor).restsAt (.monitor .done)
  | .handler (depth + 1) =>
    (threads (.handler (depth + 2))).place?.isNone && (threads (.handler depth)).place?.isSome
  | _ => true

def node (b : Build) : Machine NodeThread Rest Outside Memory Store Place Event where
  exec := Store.exec
  body := Code.body b
  ready := ready b

abbrev NodePool := Pool NodeThread Rest Outside Memory Store Place

/-- One access of one thread. -/
abbrev Access := Step NodeThread Rest Outside Memory Store Place Event

/-- The runs of a node whose threads interleave. -/
abbrev Interleaving (b : Build) : NodePool → List Access → NodePool → Prop := Lts.Run (node b).step

/-- Where the threads rest that no task has moved yet. -/
def NodeThread.rest : NodeThread → Rest
  | .monitor => .monitor .start
  | .handler _ => .handler
  | .refresh => .refresh .head
  | .receiver => .listening
  | .trigger => .trigger
  | .application _ => .application
  | .client _ => .idle

/-- The threads of a node that has just been constructed. -/
def NodePool.boot (node : ENode) : NodePool where
  mem := { node with started := false }
  threads task := .ret task.rest

/-- A freshly constructed node in a fresh enclave, whatever its memory held before. -/
def NodePool.Initial (c : NodePool) : Prop :=
  ∃ mem port tscFreq shadowTscFreq sleepAttackMs timeAuthority fd,
    c = .boot (ENode.construct mem .init port tscFreq shadowTscFreq sleepAttackMs timeAuthority fd)

/-- Whether a thread may move is up to the others. -/
theorem ready_update (b : Build) (threads : NodeThread → Code Rest) (i : NodeThread)
    (p : Code Rest) : ready b (Function.update threads i p) i = ready b threads i := by
  cases i with
  | handler depth => cases depth <;> simp [ready]
  | _ => simp [ready]

/-- Nothing happens outside. -/
def Scenario.idle : Outside := ⟨reading 0, .nothing⟩

/-- A step of `System` as the turn of a thread. The clients do not take part. -/
def Action.turn? : Action → Option (Slice NodeThread Outside)
  | .monitor amb => some ⟨.monitor, ⟨amb, .nothing⟩⟩
  | .aex amb => some ⟨.handler 0, ⟨amb, .nothing⟩⟩
  | .refresh amb => some ⟨.refresh, ⟨amb, .nothing⟩⟩
  | .recv payload src amb => some ⟨.receiver, ⟨amb, .message payload src⟩⟩
  | .recvStop | .recvInexistent => some ⟨.receiver, Scenario.idle⟩
  | .recvError fd => some ⟨.receiver, { Scenario.idle with input := .recvError fd }⟩
  | .triggerStop => some ⟨.trigger, Scenario.idle⟩
  | .addSibling addr sendOk =>
    some ⟨.application 0, { Scenario.idle with input := .addSibling addr sendOk }⟩
  | .stop => some ⟨.application 0, { Scenario.idle with input := .stopTasks }⟩
  | .clientCall | .clientReturn _ => none

-- ---------------------------------------------------------------------------
-- A node to run
-- ---------------------------------------------------------------------------

namespace Scenario

def pool : NodePool := .boot boot.node

theorem initial_pool : pool.Initial := ⟨zeroed, 12345, 2, 2, 0, ⟨"127.0.0.1", 12340⟩, 3, rfl⟩

/-- What a schedule of turns shows, and where it leads, if all its accesses are `P`. -/
def afterTurns (b : Build) (P : NodeThread → Memory → Place → Option Store → Bool)
    (turns : List (Slice NodeThread Outside)) :
    Option (List Event × (NodeThread → Rest) × Memory) :=
  (Lts.exec ((node b).turn P) (NodeThread.rest, pool.mem) turns).map fun r =>
    (r.1.flatMap Lts.Transition.events, r.2)

theorem exists_run_of_afterTurns {b : Build}
    {P : NodeThread → Memory → Place → Option Store → Bool}
    {turns : List (Slice NodeThread Outside)} {r : List Event × (NodeThread → Rest) × Memory}
    (h : afterTurns b P turns = some r) :
    ∃ tr, Interleaving b pool tr (.resting r.2.1 r.2.2) ∧
      tr.flatMap Lts.Transition.events = r.1 ∧ ∀ t ∈ tr, Step.Alone (node b) P t := by
  obtain ⟨⟨tr, c⟩, hexec, rfl⟩ := Option.map_eq_some_iff.mp h
  exact exists_run_of_turns (ready_update b) hexec

/-- A client calls `get_timestamp`. -/
def call (n : ℕ) : Slice NodeThread Outside := ⟨.client n, ⟨reading 0, .getTimestamp⟩⟩

/-- A client makes a pass through its wait loop, or an access of one. -/
def pass (n : ℕ) : Slice NodeThread Outside := ⟨.client n, idle⟩

end Scenario

-- ---------------------------------------------------------------------------
-- Served timestamps
-- ---------------------------------------------------------------------------

/-- The timestamps among the events, oldest first. -/
def servedIn (es : List Event) : List Timespec :=
  es.filterMap fun
    | .served ts => some ts
    | _ => none

theorem mem_servedIn {es : List Event} {ts : Timespec} : ts ∈ servedIn es ↔ .served ts ∈ es := by
  rw [servedIn, List.mem_filterMap]
  constructor
  · rintro ⟨e, he, hts⟩
    cases e with
    | served ts' =>
        obtain rfl := Option.some.inj hts
        exact he
    | _ => cases hts
  · exact fun h => ⟨_, h, rfl⟩

end TriHaRd
