-- SUMMARY: The data model of a node: constants, peers, the ENode record, its constructor, and the effects a step can show.
import TriHaRd.Timespec

/-!
# The state of a node

`ENode` holds the members of the class that decide what a node does. The locks,
the AEX logs and the members that only reach a log line are left out.

The function-local statics of `ENode.cpp` belong to the enclave, not to a node.
The application runs one node in each enclave, so they are a member here, and a
fresh enclave starts from `Statics.init`.
-/

namespace TriHaRd

/-- `node_state_t` -/
inductive NodeState where
  | sync
  | spik
  | freq
deriving DecidableEq, Repr

/-- `clock_state_t` -/
inductive ClockState where
  | taConsistent
  | taInconsistent
deriving DecidableEq, Repr

/-- The builds that the Makefile accepts. AEX-Notify needs SGX2. -/
inductive Build where
  | aexNotify
  | polling (useSgx2 : Bool)
deriving DecidableEq, Repr

-- ---------------------------------------------------------------------------
-- Return codes and constants
-- ---------------------------------------------------------------------------

def success : ℤ := 0
def socketInexistent : ℤ := -7

def peerConsistencyDriftThreshold : Timespec := ⟨0, 500000⟩

def stepOutThresholdS : ℤ := 100
def stepThresholdNs : ℤ := 128000000
def clockFloorNs : ℤ := 500000
def maxDriftRate : ℚ := 15 / 1000000
def minPollExponent : ℕ := 6
def allanIntercept : ℕ := 11
def clockPll : ℚ := 1 / 2
def clockFll : ℚ := 1 / 4

/-- `THRESHOLD` of the polling loop, in ticks. -/
def Build.threshold : Build → ℤ
  | .polling false => 60000
  | _ => 30000

-- ---------------------------------------------------------------------------
-- Peers
-- ---------------------------------------------------------------------------

/-- What `operator==` on peers compares. -/
structure Addr where
  hostname : String
  port : UInt16
deriving DecidableEq, Repr

/-- `last_ts_is_consistent` is the pair of the count of the newest recorded reply
    and the verdict on its timestamps. -/
structure Peer extends Addr where
  lastTsIsConsistent : ℤ × Bool
  viewsAsConsistent : Bool
deriving DecidableEq, Repr

def Peer.new (addr : Addr) : Peer :=
  { toAddr := addr, lastTsIsConsistent := (0, false), viewsAsConsistent := false }

-- ---------------------------------------------------------------------------
-- The node
-- ---------------------------------------------------------------------------

/-- `calib_msg_t` -/
structure CalibMsg where
  msgId : ℤ
  totalAexCount : ℤ
  tsc : ℤ
deriving DecidableEq, Repr

/-- The function-local statics of `sendTaintedMessages`, `select_clock`, `ntp` and `monitor`. -/
structure Statics where
  taintedMsgCount : ℤ
  passCount : ℤ
  startupCount : ℤ
  trainStartTs : Timespec
  trainStopTs : Timespec
  enterFreq : Bool
  pollCount : ℤ
  ntpStep : ℤ
deriving DecidableEq, Repr

def Statics.init : Statics where
  taintedMsgCount := 0
  passCount := 0
  startupCount := stepOutThresholdS
  trainStartTs := ⟨0, 0⟩
  trainStopTs := ⟨0, 0⟩
  enterFreq := true
  pollCount := 0
  ntpStep := 0

/-- `NB_CALIB_MSG` is 1, so `calib_sent` and `calib_recvd` have the one slot that
    every count indexes. -/
structure ENode where
  port : UInt16
  stop : Bool
  addCount : ℤ
  totalAexCount : ℤ
  nbUninterrRounds : ℤ
  selftaintingRounds : ℤ
  nodeState : NodeState
  clockState : ClockState
  clockOffset : Timespec
  pollExponent : ℕ
  calibCount : Bool
  tainted : Bool
  memAddCount : ℤ
  sock : ℤ
  timeAuthority : Addr
  monitorTime : ℤ
  sleepAttackMs : ℤ
  tsc : ℤ
  tscFreq : ℚ
  shadowTscFreq : ℚ
  attacker : Bool
  tscOffset : ℤ
  tscRef : ℤ
  lastUpdateTsc : ℤ
  tsRef : Timespec
  calibMsgCount : ℤ
  calibSent : CalibMsg
  calibRecvd : CalibMsg
  addCountRef : ℤ
  siblings : List Peer
  monitorStopped : Bool
  refreshStopped : Bool
  triggerStopped : Bool
  readfromStopped : Bool
  statics : Statics
deriving DecidableEq, Repr

/-- The constructor, run on the memory `mem`. What it does not set keeps the
    contents of that memory: the counters `nb_uninterr_rounds`, `mem_add_count`,
    `calib_msg_count` and `add_count_ref`, the readings `tsc`, `tsc_ref`,
    `last_update_tsc` and `ts_ref`, the calibration slots, and `readfrom_stopped`.
    `fd` is what `setup_socket` leaves in `sock`. -/
def ENode.construct (mem : ENode) (statics : Statics) (port : UInt16)
    (tscFreq shadowTscFreq : ℚ) (sleepAttackMs : ℤ) (timeAuthority : Addr) (fd : ℤ) : ENode :=
  { mem with
    port := port
    stop := false
    addCount := 0
    totalAexCount := 0
    selftaintingRounds := 100
    nodeState := .freq
    clockState := .taInconsistent
    clockOffset := ⟨0, 0⟩
    pollExponent := 2
    calibCount := false
    tainted := false
    sock := fd
    timeAuthority := timeAuthority
    monitorTime := 500
    sleepAttackMs := sleepAttackMs
    tscFreq := tscFreq
    shadowTscFreq := shadowTscFreq
    attacker := decide (shadowTscFreq < tscFreq)
    tscOffset := 0
    siblings := []
    monitorStopped := false
    refreshStopped := false
    triggerStopped := false
    statics := statics }

-- ---------------------------------------------------------------------------
-- Inputs and effects
-- ---------------------------------------------------------------------------

/-- What one step reads from outside the enclave's memory: `rdtscp`,
    `ocall_timespec_get`, and the uninitialised `dummy_ts` of a message. -/
structure Ambient where
  tsc : ℤ
  osTime : Timespec
  dummyTs : Timespec
deriving DecidableEq, Repr

/-- A plaintext handed to `sendto`, before encryption. -/
structure Packet where
  dst : Addr
  payload : List UInt8
deriving DecidableEq, Repr

/-- What a step shows: a message sent, a timestamp returned to a client by an
    unforced `get_timestamp`, or a store of `true` in `tainted`. -/
inductive Event where
  | sent (p : Packet)
  | served (ts : Timespec)
  | taint
deriving DecidableEq, Repr

end TriHaRd
