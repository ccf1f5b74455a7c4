-- SUMMARY: The members of a node as shared memory: the accesses that its functions make, one at a time.
import TriHaRd.Base.Threads
import TriHaRd.Node.Tasks

/-!
# Accesses

The tasks of a node run on threads of their own and share its members. Except for
`tainted`, `stop` and the socket no lock stands between them, so a function of
`ENode.cpp` may be interrupted between any two of its accesses. Here each function
is a program, under its own name, that loads and stores one member at a time, in the
order of the source.

A member that nothing writes after the constructor is loaded together with another,
a `timespec` is one access, and so is a pass over the sibling table. Loads that only
reach a log line are left out. The locks that there are do not appear: all orders
that they allow are among those below.
-/

namespace TriHaRd

open Truncate SharedMemory

-- ---------------------------------------------------------------------------
-- The memory
-- ---------------------------------------------------------------------------

/-- The members of the node. `started` is a mark of the model: `monitor()` has initialised the
    clock. -/
structure Memory extends ENode where
  started : Bool
deriving DecidableEq, Repr

/-- What an access stores, or what it shows. -/
inductive Store where
  | stop
  | addCount (n : ℤ)
  | totalAexCount (n : ℤ)
  | nbUninterrRounds (n : ℤ)
  | nodeState (x : NodeState)
  | clockState (x : ClockState)
  | clockOffset (ts : Timespec)
  | pollExponent (n : ℕ)
  | calibCount (b : Bool)
  | tainted (b : Bool)
  | memAddCount (n : ℤ)
  | sock (fd : ℤ)
  | tsc (v : ℤ)
  /-- The store `tsc=tsc_ref` of `monitor()`. -/
  | initTsc (v : ℤ)
  | tscFreq (q : ℚ)
  | tscOffset (n : ℤ)
  | tscRef (v : ℤ)
  | lastUpdateTsc (v : ℤ)
  | tsRef (ts : Timespec)
  | calibMsgCount (n : ℤ)
  | calibSent (msg : CalibMsg)
  | calibRecvd (msg : CalibMsg)
  | addCountRef (n : ℤ)
  | newSibling (addr : Addr)
  | lastTsIsConsistent (addr : Addr) (last : ℤ × Bool)
  | viewsAsConsistent (addr : Addr) (views : Bool)
  | monitorStopped
  | refreshStopped
  | triggerStopped
  | readfromStopped
  | taintedMsgCount (n : ℤ)
  | passCount (n : ℤ)
  | startupCount (n : ℤ)
  | trainStartTs (ts : Timespec)
  | trainStopTs (ts : Timespec)
  | enterFreq (b : Bool)
  | pollCount (n : ℤ)
  | ntpStep (n : ℤ)
  | event (e : Event)
deriving DecidableEq, Repr

def Store.exec (op : Store) (s : Memory) : Memory × List Event :=
  match op with
  | .stop => ({ s with stop := true }, [])
  | .addCount n => ({ s with addCount := n }, [])
  | .totalAexCount n => ({ s with totalAexCount := n }, [])
  | .nbUninterrRounds n => ({ s with nbUninterrRounds := n }, [])
  | .nodeState x => ({ s with nodeState := x }, [])
  | .clockState x => ({ s with clockState := x }, [])
  | .clockOffset ts => ({ s with clockOffset := ts }, [])
  | .pollExponent n => ({ s with pollExponent := n }, [])
  | .calibCount b => ({ s with calibCount := b }, [])
  | .tainted b => ({ s with tainted := b }, if b then [.taint] else [])
  | .memAddCount n => ({ s with memAddCount := n }, [])
  | .sock fd => ({ s with sock := fd }, [])
  | .tsc v => ({ s with tsc := v }, [])
  | .initTsc v => ({ s with tsc := v, started := true }, [])
  | .tscFreq q => ({ s with tscFreq := q }, [])
  | .tscOffset n => ({ s with tscOffset := n }, [])
  | .tscRef v => ({ s with tscRef := v }, [])
  | .lastUpdateTsc v => ({ s with lastUpdateTsc := v }, [])
  | .tsRef ts => ({ s with tsRef := ts }, [])
  | .calibMsgCount n => ({ s with calibMsgCount := n }, [])
  | .calibSent msg => ({ s with calibSent := msg }, [])
  | .calibRecvd msg => ({ s with calibRecvd := msg }, [])
  | .addCountRef n => ({ s with addCountRef := n }, [])
  | .newSibling addr => ({ s with siblings := s.siblings ++ [Peer.new addr] }, [])
  | .lastTsIsConsistent addr last =>
    let record (peer : Peer) : Peer := { peer with lastTsIsConsistent := last }
    ({ s with siblings := Table.update Peer.toAddr addr record s.siblings }, [])
  | .viewsAsConsistent addr views =>
    let record (peer : Peer) : Peer := { peer with viewsAsConsistent := views }
    ({ s with siblings := Table.update Peer.toAddr addr record s.siblings }, [])
  | .monitorStopped => ({ s with monitorStopped := true }, [])
  | .refreshStopped => ({ s with refreshStopped := true }, [])
  | .triggerStopped => ({ s with triggerStopped := true }, [])
  | .readfromStopped => ({ s with readfromStopped := true }, [])
  | .taintedMsgCount n => ({ s with statics.taintedMsgCount := n }, [])
  | .passCount n => ({ s with statics.passCount := n }, [])
  | .startupCount n => ({ s with statics.startupCount := n }, [])
  | .trainStartTs ts => ({ s with statics.trainStartTs := ts }, [])
  | .trainStopTs ts => ({ s with statics.trainStopTs := ts }, [])
  | .enterFreq b => ({ s with statics.enterFreq := b }, [])
  | .pollCount n => ({ s with statics.pollCount := n }, [])
  | .ntpStep n => ({ s with statics.ntpStep := n }, [])
  | .event e => (s, [e])

-- ---------------------------------------------------------------------------
-- Places
-- ---------------------------------------------------------------------------

/-- What the wait loop of `get_timestamp` tests of the node. -/
inductive Flag where
  | calibCount
  | clockState
  | tainted
deriving DecidableEq, Repr

/-- Does the flag let a client pass? -/
def Flag.good (s : ENode) : Flag → Bool
  | .calibCount => s.calibCount
  | .clockState => s.clockState != .taInconsistent
  | .tainted => !s.tainted

/-- Who reads the clock or steps it: one of the node's own tasks, a client whose wait is over, or a
    client that `should_stop()` lets out. `held` is whether the last flag it tested held it back. -/
inductive Reader where
  | task
  | satisfied
  | released (held : Bool)
deriving DecidableEq, Repr

/-- A client that has found all flags good. -/
def Reader.fit : Reader → Bool
  | .satisfied => true
  | .released held => !held
  | .task => false

/-- Where an access stands, as far as anybody else cares. -/
inductive Place where
  | plain
  /-- At the test of a flag in the wait loop. -/
  | test (flag : Flag)
  /-- At the tests of the TSC there, after the flags. -/
  | moved
  /-- At `should_stop()` there. -/
  | stopTest (held : Bool)
  /-- At the first access of a section that reads or sets the clock. -/
  | enter (r : Reader)
  | inside (r : Reader)
  /-- At the return of a timestamp. -/
  | returning (r : Reader)
  /-- In case 'D', between the test of `node_state` and the store of `clock_state`. -/
  | judging
deriving DecidableEq, Repr

namespace Place

/-- Within a section, and no longer before it. -/
def within : Place → Bool
  | .inside _ | .returning _ => true
  | _ => false

/-- An access of a section. -/
def ofClock : Place → Bool
  | .enter _ | .inside _ | .returning _ => true
  | _ => false

/-- Has the client that stands here found the flag good, in the pass that it makes? -/
def found : Place → Flag → Bool
  | .test .clockState, .calibCount => true
  | .test .tainted, .calibCount | .test .tainted, .clockState => true
  | .moved, _ => true
  | .stopTest held, _ => !held
  | .enter r, _ | .inside r, _ | .returning r, _ => r.fit
  | _, _ => false

end Place

-- ---------------------------------------------------------------------------
-- The outside
-- ---------------------------------------------------------------------------

/-- What a task finds when it looks for something to do. -/
inductive Input where
  | nothing
  /-- `recvfrom` delivers a message that authenticates. -/
  | message (payload : List UInt8) (src : Addr)
  /-- `recvfrom` fails, and `setup_socket` leaves `fd` in `sock`. -/
  | recvError (fd : ℤ)
  /-- The application calls `get_timestamp`, `stop_tasks` or `add_sibling`. -/
  | getTimestamp
  | stopTasks
  | addSibling (addr : Addr) (sendOk : Bool)
deriving DecidableEq, Repr

structure Outside extends Ambient where
  input : Input
deriving DecidableEq, Repr

/-- A function of the node, as the accesses that it makes. -/
abbrev Code (α : Type) := Prog Store Outside Memory Place α

/-- A load that no section and no test depends on. -/
def get {α : Type} (f : Memory → α) : Code α := .load .plain fun _ s => f s

/-- A store of the same kind. -/
def put (op : Store) : Code Unit := .store .plain op

/-- `rdtscp()` -/
def rdtscp : Code ℤ := .load .plain fun w _ => w.tsc

def shouldStop : Code Bool := get (·.stop)

-- ---------------------------------------------------------------------------
-- The clock
-- ---------------------------------------------------------------------------

namespace Code

/-- `get_timestamp` after its wait loop. -/
def readClock (r : Reader) : Code Timespec := do
  let timestamp ← .load (.enter r) fun _ s => s.tsRef
  let tsc ← .load (.inside r) fun _ s => s.tsc
  let tscOffset ← .load (.inside r) fun _ s => s.tscOffset
  let tscRef ← .load (.inside r) fun _ s => s.tscRef
  let tscFreq ← .load (.inside r) fun _ s => s.tscFreq
  let totalNsec := truncate ((tsc + tscOffset - tscRef : ℤ) / tscFreq)
  let tsc ← .load (.inside r) fun _ s => s.tsc
  let tscOffset ← .load (.inside r) fun _ s => s.tscOffset
  .store (.inside r) (.tscRef (tsc + tscOffset))
  let timestamp := timestamp + totalNsec
  .store (.inside r) (.tsRef timestamp)
  return timestamp

/-- One pass through the loop of an unforced `get_timestamp`: `none` while the loop goes on. A test
    that holds the client back leaves the others out. -/
def awaitClock (memTsc : ℤ) : Code (Option Timespec) := do
  let calibCount ← .load (.test .calibCount) fun _ s => s.calibCount
  if !calibCount then orStop true
  else
    let clockState ← .load (.test .clockState) fun _ s => s.clockState
    if clockState = .taInconsistent then orStop true
    else
      let tainted ← .load (.test .tainted) fun _ s => s.tainted
      if tainted then orStop true
      else
        let tsc ← .load .moved fun _ s => s.tsc
        if memTsc = tsc then orStop false
        else
          let tsc ← .load .moved fun _ s => s.tsc
          let tscRef ← .load .moved fun _ s => s.tscRef
          if tsc < tscRef then orStop false else serve .satisfied
where
  /-- `!should_stop()` -/
  orStop (held : Bool) : Code (Option Timespec) := do
    let stop ← .load (.stopTest held) fun _ s => s.stop
    if stop then serve (.released held) else return none
  serve (r : Reader) : Code (Option Timespec) := do
    let timestamp ← readClock r
    .store (.returning r) (.event (.served timestamp))
    return some timestamp

/-- Only an attacker's node does anything here. -/
def shadowTscUpdate : Code Unit := do
  let attacker ← get (·.attacker)
  if attacker then
    let tsc ← get (·.tsc)
    let tscRef ← .load (.enter .task) fun _ s => s.tscRef
    let realDiff := tsc - tscRef
    let ratio ← .load (.inside .task) fun _ s => s.tscFreq / s.shadowTscFreq
    let shadowTsc := truncate (realDiff * ratio)
    .store (.inside .task) (.tscOffset (shadowTsc - realDiff))
    let osTime ← .load (.inside .task) fun w _ => w.osTime
    .store (.inside .task) (.tsRef osTime)
    let tsc ← .load (.inside .task) fun _ s => s.tsc
    .store (.inside .task) (.tscRef tsc)
    let totalAexCount ← get (·.totalAexCount)
    put (.totalAexCount (totalAexCount + 1))
    put (.tainted true)
  else return

def stepClock : Code Unit := do
  let tsRef ← .load (.enter .task) fun _ s => s.tsRef
  let clockOffset ← .load (.inside .task) fun _ s => s.clockOffset
  .store (.inside .task) (.tsRef (tsRef + clockOffset))
  put (.clockOffset ⟨0, 0⟩)
  let tsc ← get (·.tsc)
  put (.lastUpdateTsc tsc)

def disciplineClock : Code Unit := do
  let tsc ← get (·.tsc)
  let lastUpdateTsc ← get (·.lastUpdateTsc)
  let tscFreq ← get (·.tscFreq)
  let mu := ((⟨0, 0⟩ : Timespec) + truncate ((tsc - lastUpdateTsc : ℤ) / tscFreq)).toDouble
  let pollExponent ← get (·.pollExponent)
  .when (pollExponent ≥ allanIntercept) do
    let clockOffset ← get (·.clockOffset)
    let pollExponent ← get (·.pollExponent)
    let tscFreq ← get (·.tscFreq)
    put (.tscFreq (tscFreq - clockOffset.toDouble / (max (2 ^ pollExponent) mu * clockFll)))
  let pollExponent ← get (·.pollExponent)
  let dtemp := 4 * clockPll * 2 ^ pollExponent
  let etemp := min (2 ^ allanIntercept) mu
  let clockOffset ← get (·.clockOffset)
  let tscFreq ← get (·.tscFreq)
  put (.tscFreq (tscFreq - clockOffset.toDouble * etemp / (dtemp * dtemp)))
  let clockOffset ← get (·.clockOffset)
  .when (clockOffset > ⟨0, 0⟩) stepClock
  let tsc ← get (·.tsc)
  put (.lastUpdateTsc tsc)

/-- `case node_state::SYNC_STATE` -/
def selectClockSync : Code Unit := do
  disciplineClock
  let startupCount ← get (·.statics.startupCount)
  put (.startupCount (startupCount - 1))
  let clockOffset ← get (·.clockOffset)
  .when (clockOffset ≤ ⟨0, clockFloorNs⟩) (put (.startupCount 0))

/-- `case node_state::SPIK_STATE` -/
def selectClockSpik (timeConstant : ℤ) : Code Unit := do
  let passCount ← get (·.statics.passCount)
  put (.passCount (passCount + timeConstant))
  let clockOffset ← get (·.clockOffset)
  if clockOffset ≤ ⟨0, clockFloorNs⟩ then
    put (.passCount 0)
    put (.nodeState .sync)
  else
    let passCount ← get (·.statics.passCount)
    .when (passCount ≥ stepOutThresholdS) do
      stepClock
      put (.passCount 0)
      put (.nodeState .sync)

/-- The end of frequency training. -/
def finishTraining : Code Unit := do
  let memClockOffset ← get (·.clockOffset)
  let tsRef ← get (·.tsRef)
  put (.trainStopTs tsRef)
  let trainStopTs ← get (·.statics.trainStopTs)
  let trainStartTs ← get (·.statics.trainStartTs)
  let trainDuration := (trainStopTs - trainStartTs).toDouble
  let ratio := trainDuration / (trainDuration + memClockOffset.toDouble)
  let tscFreq ← get (·.tscFreq)
  put (.tscFreq (tscFreq * ratio))
  stepClock
  put (.calibCount false)
  put (.passCount 0)
  put (.nodeState .sync)
  put (.pollExponent minPollExponent)
  put (.enterFreq true)

/-- `case node_state::FREQ_STATE` -/
def selectClockFreq (timeConstant : ℤ) : Code Unit := do
  let passCount ← get (·.statics.passCount)
  put (.passCount (passCount + timeConstant))
  let enterFreq ← get (·.statics.enterFreq)
  if enterFreq then
    stepClock
    let tsRef ← get (·.tsRef)
    put (.trainStartTs tsRef)
    put (.enterFreq false)
  else
    let passCount ← get (·.statics.passCount)
    .when (passCount ≥ stepOutThresholdS) finishTraining

def selectClock : Code Unit := do
  let timeConstant : ℤ ← get fun s => 2 ^ s.pollExponent
  let nodeState ← get (·.nodeState)
  match nodeState with
  | .sync => selectClockSync
  | .spik => selectClockSpik timeConstant
  | .freq => selectClockFreq timeConstant

-- ---------------------------------------------------------------------------
-- Messages
-- ---------------------------------------------------------------------------

def sendMessage (buff : List UInt8) (dst : Addr) : Code ℤ := do
  let sock ← get (·.sock)
  if sock < 0 then return socketInexistent
  else
    put (.event (.sent ⟨dst, buff⟩))
    return success

def sendRecvDriftMessage (sleepTimeMs sleepMs : ℤ) : Code Unit := do
  let totalSleepTimeMs := sleepTimeMs + sleepMs
  let calibMsgCount ← get (·.calibMsgCount)
  shadowTscUpdate
  let orgTs ← readClock .task
  let dummyTs ← .load .plain fun w _ => w.dummyTs
  let sendBuff := buildDrift calibMsgCount totalSleepTimeMs orgTs dummyTs
  let calibMsgCount ← get (·.calibMsgCount)
  let totalAexCount ← get (·.totalAexCount)
  let tsc ← get (·.tsc)
  put (.calibSent ⟨calibMsgCount, totalAexCount, tsc⟩)
  let timeAuthority ← get (·.timeAuthority)
  let _ ← sendMessage sendBuff timeAuthority
  let calibMsgCount ← get (·.calibMsgCount)
  put (.calibMsgCount (calibMsgCount + 1))

def ntp : Code Unit := do
  let pollCount ← get (·.statics.pollCount)
  put (.pollCount (pollCount + 1))
  let pollCount ← get (·.statics.pollCount)
  let pollExponent ← get (·.pollExponent)
  .when (pollCount = 2 ^ pollExponent) do
    put (.pollCount 0)
    let sleepAttackMs ← get (·.sleepAttackMs)
    sendRecvDriftMessage 0 sleepAttackMs

/-- The loop of `sendTaintedMessages`. -/
def sendEach (buff : List UInt8) : List Peer → Code Unit
  | [] => return
  | peer :: siblings => do
    let _ ← sendMessage buff peer.toAddr
    sendEach buff siblings

def sendTaintedMessages : Code Unit := do
  let taintedMsgCount ← get (·.statics.taintedMsgCount)
  let orgTs ← readClock .task
  let dummyTs ← .load .plain fun w _ => w.dummyTs
  let siblings ← get (·.siblings)
  sendEach (buildTainted taintedMsgCount orgTs dummyTs) siblings
  let taintedMsgCount ← get (·.statics.taintedMsgCount)
  put (.taintedMsgCount (taintedMsgCount + 1))

def addSibling (addr : Addr) (sendOk : Bool) : Code Unit := do
  let port ← get (·.port)
  .when (¬ (addr.hostname = "127.0.0.1" ∧ addr.port = port)) do
    let siblings ← get (·.siblings)
    .when (¬ (Table.lookup Peer.toAddr addr siblings).isSome) do
      put (.newSibling addr)
      .when sendOk (put (.event (.sent ⟨addr, siblingStr⟩)))

/-- Case 'S' of `handle_message`. -/
def handleSibling (src : Addr) : Code Unit := do
  let siblings ← get (·.siblings)
  .when (¬ (Table.lookup Peer.toAddr src siblings).isSome) (put (.newSibling src))

/-- Case 'T' of `handle_message`. -/
def handleTainted (buff : List UInt8) (src : Addr) : Code ℤ := do
  let siblings ← get (·.siblings)
  match Table.lookup Peer.toAddr src siblings with
  | none => return success
  | some sibling =>
    if buff.length ≠ tMsgExpectedLen then return success
    else
      let clockState ← get (·.clockState)
      if clockState = .taConsistent then
        .when (sibling.port = 12346) shadowTscUpdate
        let recTs ← readClock .task
        let msg := readTainted buff
        let sibling ← get fun s => (Table.lookup Peer.toAddr src s.siblings).getD sibling
        let xmtTs ← readClock .task
        sendMessage (buildUntaint msg.count sibling.lastTsIsConsistent.2 msg.orgTs recTs xmtTs) src
      else return success

/-- The part of case 'U' that records the reply. -/
def recordUntaint (src : Addr) (msg : UntaintMsg) (consistent : Bool) : Code Unit := do
  let last ← get fun s => (Table.lookup Peer.toAddr src s.siblings).map (·.lastTsIsConsistent.1)
  .when (last.any (msg.count > ·)) do
    put (.lastTsIsConsistent src (msg.count, consistent))
    put (.viewsAsConsistent src msg.viewsAsConsistent)

/-- The part of case 'U' that counts the quorum. -/
def countQuorum (recvdTaintedMsgCount : ℤ) : Code Unit := do
  let maxCount ← get fun s => Peer.maxTaintedMsgCount recvdTaintedMsgCount s.siblings
  let consistentCount ← get fun s => Peer.consistentCount maxCount s.siblings
  let peerConsistentCount ← get fun s => Peer.peerConsistentCount s.siblings
  let size : ℤ ← get fun s => s.siblings.length
  .when (consistentCount ≥ size - 1 ∧ peerConsistentCount ≥ size - 1) (put (.tainted false))

/-- Case 'U' of `handle_message`. -/
def handleUntaint (buff : List UInt8) (src : Addr) : Code Unit :=
  .when (buff.length = uMsgExpectedLen) do
    let siblings ← get (·.siblings)
    .when (Table.lookup Peer.toAddr src siblings).isSome do
      let tsRef ← get (·.tsRef)
      let tsc ← get (·.tsc)
      let tscRef ← get (·.tscRef)
      let tscFreq ← get (·.tscFreq)
      let recvTs := tsRef + truncate ((tsc - tscRef : ℤ) / tscFreq)
      let msg := readUntaint buff
      let peerClockOffset := (msg.recTs - msg.orgTs + msg.xmtTs - recvTs) / (2 : ℚ)
      recordUntaint src msg (decide (peerClockOffset < peerConsistencyDriftThreshold))
      countQuorum msg.count

/-- A large positive offset turns `SYNC_STATE` into `SPIK_STATE`. -/
def detectSpike : Code Unit := do
  let nodeState ← get (·.nodeState)
  .when (nodeState = .sync) do
    let clockOffset ← get (·.clockOffset)
    .when (clockOffset ≥ ⟨0, stepThresholdNs⟩) (put (.nodeState .spik))

/-- Outside `FREQ_STATE` the offset decides whether the node trusts its own clock. The state is
    tested before the verdict is stored. -/
def judgeClock : Code Unit := do
  let nodeState ← get (·.nodeState)
  .when (nodeState ≠ .freq) do
    let clockOffset ← .load .judging fun _ s => s.clockOffset
    let pollExponent ← .load .judging fun _ s => s.pollExponent
    if |clockOffset.toDouble| ≤ maxDriftRate * 2 ^ pollExponent then
      .store .judging (.clockState .taConsistent)
    else .store .judging (.clockState .taInconsistent)

/-- Case 'D' of `handle_message`. -/
def handleDrift (buff : List UInt8) : Code Unit :=
  .when (buff.length = dMsgExpectedLen) do
    let msg := readDrift buff
    shadowTscUpdate
    let recvTs ← readClock .task
    put (.clockOffset (ENode.driftOffset msg recvTs))
    detectSpike
    judgeClock
    selectClock
    let totalAexCount ← get (·.totalAexCount)
    let tsc ← get (·.tsc)
    put (.calibRecvd ⟨msg.count, totalAexCount, tsc⟩)

def handleMessage (buff : List UInt8) (src : Addr) : Code ℤ :=
  match buff with
  | [] => return success
  | tag :: _ =>
    if tag = letterS then do
      handleSibling src
      return success
    else if tag = letterT then handleTainted buff src
    else if tag = letterU then do
      handleUntaint buff src
      return success
    else if tag = letterD then do
      handleDrift buff
      return success
    else sendMessage buff src

end Code

end TriHaRd
