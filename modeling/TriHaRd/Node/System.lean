-- SUMMARY: One node as a transition system: its tasks, its clients and the network around it, and the runs it can make.
import TriHaRd.Base.Run
import TriHaRd.Node.Tasks

/-!
# The system of one node

A step is one step of a task, one message handled, one call or return of a client
read, or one call of the application. The steps of different tasks interleave in
any order. What a message contains and where it claims to come from is up to the
network; the only messages that get here are those that authenticate.

A message, a client read, and a reading of the TSC with the store that follows it
are one step each. The source takes no lock there. `Node.Interleaving` splits these
steps into single accesses to the members, and its runs include those here in which
no message follows the request to stop.
-/

namespace TriHaRd

/-- `clients` holds, for each client that waits in an unforced `get_timestamp`, the
    value of `tsc` at its call. `listening` is whether `loop_recvfrom` still runs. -/
structure System where
  node : ENode
  monitor : MonitorPc
  refresh : RefreshPc
  clients : List ℤ
  listening : Bool
deriving DecidableEq, Repr

inductive Action where
  | monitor (amb : Ambient)
  | aex (amb : Ambient)
  | refresh (amb : Ambient)
  | recv (payload : List UInt8) (src : Addr) (amb : Ambient)
  /-- The receive loop ends because `stop` has been requested. -/
  | recvStop
  /-- The receive loop ends because there is no socket. -/
  | recvInexistent
  /-- A reading error, after which `setup_socket` leaves `fd` in `sock`. -/
  | recvError (fd : ℤ)
  | triggerStop
  | addSibling (addr : Addr) (sendOk : Bool)
  | clientCall
  | clientReturn (i : ℕ)
  | stop
deriving DecidableEq, Repr

namespace System

/-- The tasks of a node that has just been constructed. -/
def boot (node : ENode) : System where
  node := node
  monitor := .start
  refresh := .head
  clients := []
  listening := true

/-- A freshly constructed node in a fresh enclave, whatever its memory held before. -/
def Initial (s : System) : Prop :=
  ∃ mem port tscFreq shadowTscFreq sleepAttackMs timeAuthority fd,
    s = boot (ENode.construct mem .init port tscFreq shadowTscFreq sleepAttackMs timeAuthority fd)

/-- `none` means that the action cannot be taken now. -/
def step (b : Build) (s : System) : Action → Option (System × List Event)
  | .monitor amb =>
    let (pc, node, shown) := monitorStep b s.node amb s.monitor
    some ({ s with node := node, monitor := pc }, shown)
  | .aex amb =>
    if b = .aexNotify ∧ s.monitor ≠ .done then
      let (node, shown) := s.node.aexHandler amb
      some ({ s with node := node }, shown)
    else none
  | .refresh amb =>
    let (pc, node, shown) := refreshStep s.node amb s.refresh
    some ({ s with node := node, refresh := pc }, shown)
  | .recv payload src amb =>
    if s.listening ∧ 0 ≤ s.node.sock then
      let out := s.node.handleMessage payload src amb
      if out.retval = success then some ({ s with node := out.node }, out.events)
      else some ({ s with
        node := { out.node with readfromStopped := true }
        listening := false }, out.events)
    else none
  | .recvStop =>
    if s.listening ∧ s.node.stop then
      some ({ s with node := { s.node with readfromStopped := true }, listening := false }, [])
    else none
  -- this exit returns `SOCKET_INEXISTENT` and does not set `readfrom_stopped`
  | .recvInexistent =>
    if s.listening ∧ s.node.sock < 0 then some ({ s with listening := false }, []) else none
  | .recvError fd =>
    if s.listening ∧ 0 ≤ s.node.sock then some ({ s with node := { s.node with sock := fd } }, [])
    else none
  | .triggerStop =>
    if s.node.stop then some ({ s with node := { s.node with triggerStopped := true } }, [])
    else none
  | .addSibling addr sendOk =>
    let (node, shown) := s.node.addSibling addr sendOk
    some ({ s with node := node }, shown)
  | .clientCall => some ({ s with clients := s.clients ++ [s.node.tsc] }, [])
  | .clientReturn i =>
    match s.clients[i]? with
    | none => none
    | some memTsc =>
      match s.node.getTimestamp false memTsc with
      | none => none
      | some (node, ts) =>
        some ({ s with node := node, clients := s.clients.eraseIdx i }, [.served ts])
  | .stop => some ({ s with node := { s.node with stop := true } }, [])

/-- What an action may do to the node, and what it shows. -/
inductive Effect (b : Build) (s : System) : Action → List Event → ENode → Prop where
  | monitor (amb : Ambient) :
      Effect b s (.monitor amb) (monitorStep b s.node amb s.monitor).2.2
        (monitorStep b s.node amb s.monitor).2.1
  | aex (amb : Ambient) (hbuild : b = .aexNotify) :
      Effect b s (.aex amb) (s.node.aexHandler amb).2 (s.node.aexHandler amb).1
  | refresh (amb : Ambient) :
      Effect b s (.refresh amb) (refreshStep s.node amb s.refresh).2.2
        (refreshStep s.node amb s.refresh).2.1
  | recv (payload : List UInt8) (src : Addr) (amb : Ambient) :
      Effect b s (.recv payload src amb) (s.node.handleMessage payload src amb).events
        (s.node.handleMessage payload src amb).node
  /-- The handler fails, and the receive loop ends. -/
  | recvFailed (payload : List UInt8) (src : Addr) (amb : Ambient)
      (hretval : (s.node.handleMessage payload src amb).retval ≠ success) :
      Effect b s (.recv payload src amb) (s.node.handleMessage payload src amb).events
        { (s.node.handleMessage payload src amb).node with readfromStopped := true }
  | recvStop : Effect b s .recvStop [] { s.node with readfromStopped := true }
  | recvInexistent : Effect b s .recvInexistent [] s.node
  | recvError (fd : ℤ) : Effect b s (.recvError fd) [] { s.node with sock := fd }
  | triggerStop : Effect b s .triggerStop [] { s.node with triggerStopped := true }
  | addSibling (addr : Addr) (sendOk : Bool) :
      Effect b s (.addSibling addr sendOk) (s.node.addSibling addr sendOk).2
        (s.node.addSibling addr sendOk).1
  | clientCall : Effect b s .clientCall [] s.node
  | clientReturn (i : ℕ) (memTsc : ℤ) (node : ENode) (ts : Timespec)
      (hread : s.node.getTimestamp false memTsc = some (node, ts)) :
      Effect b s (.clientReturn i) [.served ts] node
  | stop : Effect b s .stop [] { s.node with stop := true }

/-- Every step has one of these effects. -/
theorem effect_of_step {b : Build} {s s' : System} {a : Action} {es : List Event}
    (h : step b s a = some (s', es)) : Effect b s a es s'.node := by
  cases a with
  | monitor amb =>
      obtain ⟨rfl, rfl⟩ := Prod.mk.inj (Option.some.inj h)
      exact .monitor amb
  | aex amb =>
      simp only [step] at h
      split at h
      case isTrue hrun =>
        obtain ⟨rfl, rfl⟩ := Prod.mk.inj (Option.some.inj h)
        exact .aex amb hrun.1
      case isFalse => cases h
  | refresh amb =>
      obtain ⟨rfl, rfl⟩ := Prod.mk.inj (Option.some.inj h)
      exact .refresh amb
  | recv payload src amb =>
      simp only [step] at h
      split at h
      · split at h
        case isTrue hretval =>
          obtain ⟨rfl, rfl⟩ := Prod.mk.inj (Option.some.inj h)
          exact .recv payload src amb
        case isFalse hretval =>
          obtain ⟨rfl, rfl⟩ := Prod.mk.inj (Option.some.inj h)
          exact .recvFailed payload src amb hretval
      · cases h
  | recvStop =>
      simp only [step] at h
      split at h
      · obtain ⟨rfl, rfl⟩ := Prod.mk.inj (Option.some.inj h)
        exact .recvStop
      · cases h
  | recvInexistent =>
      simp only [step] at h
      split at h
      · obtain ⟨rfl, rfl⟩ := Prod.mk.inj (Option.some.inj h)
        exact .recvInexistent
      · cases h
  | recvError fd =>
      simp only [step] at h
      split at h
      · obtain ⟨rfl, rfl⟩ := Prod.mk.inj (Option.some.inj h)
        exact .recvError fd
      · cases h
  | triggerStop =>
      simp only [step] at h
      split at h
      · obtain ⟨rfl, rfl⟩ := Prod.mk.inj (Option.some.inj h)
        exact .triggerStop
      · cases h
  | addSibling addr sendOk =>
      obtain ⟨rfl, rfl⟩ := Prod.mk.inj (Option.some.inj h)
      exact .addSibling addr sendOk
  | clientCall =>
      obtain ⟨rfl, rfl⟩ := Prod.mk.inj (Option.some.inj h)
      exact .clientCall
  | clientReturn i =>
      simp only [step] at h
      cases hclient : s.clients[i]? with
      | none => simp [hclient] at h
      | some memTsc =>
          cases hread : s.node.getTimestamp false memTsc with
          | none => simp [hclient, hread] at h
          | some r =>
              simp only [hclient, hread] at h
              obtain ⟨rfl, rfl⟩ := Prod.mk.inj (Option.some.inj h)
              exact .clientReturn i memTsc r.1 r.2 hread
  | stop =>
      obtain ⟨rfl, rfl⟩ := Prod.mk.inj (Option.some.inj h)
      exact .stop

/-- Only the monitor moves its program counter. -/
theorem monitor_of_step {b : Build} {s s' : System} {a : Action} {es : List Event}
    (h : step b s a = some (s', es)) (ha : ∀ amb, a ≠ .monitor amb) : s'.monitor = s.monitor := by
  cases a with
  | monitor amb => exact absurd rfl (ha amb)
  | clientReturn i =>
      simp only [step] at h
      split at h
      · cases h
      · split at h <;> cases h
        rfl
  | _ =>
      simp only [step] at h
      (try split_ifs at h) <;> cases h <;> rfl

end System

/-- The steps of a node. -/
abbrev NodeStep := Lts.Transition System Action Event

/-- The runs of a node, from any of its states. -/
abbrev NodeRun (b : Build) : System → List NodeStep → System → Prop := Lts.Run (System.step b)

theorem NodeStep.effect {b : Build} {t : NodeStep} (h : t.IsStep (System.step b)) :
    System.Effect b t.pre t.act t.events t.post.node :=
  System.effect_of_step h

def System.Reachable (b : Build) (s : System) : Prop :=
  ∃ s₀ tr, s₀.Initial ∧ NodeRun b s₀ tr s

-- ---------------------------------------------------------------------------
-- A node to run
-- ---------------------------------------------------------------------------

/-! Schedules of one honest node with two peers on the same host, and the Time
Authority's usual address. The TSC makes two ticks for each nanosecond. -/

namespace Scenario

/-- Memory that held nothing. -/
def zeroed : ENode where
  port := 0
  stop := false
  addCount := 0
  totalAexCount := 0
  nbUninterrRounds := 0
  selftaintingRounds := 0
  nodeState := .sync
  clockState := .taConsistent
  clockOffset := ⟨0, 0⟩
  pollExponent := 0
  calibCount := false
  tainted := false
  memAddCount := 0
  sock := 0
  timeAuthority := ⟨"", 0⟩
  monitorTime := 0
  sleepAttackMs := 0
  tsc := 0
  tscFreq := 0
  shadowTscFreq := 0
  attacker := false
  tscOffset := 0
  tscRef := 0
  lastUpdateTsc := 0
  tsRef := ⟨0, 0⟩
  calibMsgCount := 0
  calibSent := ⟨0, 0, 0⟩
  calibRecvd := ⟨0, 0, 0⟩
  addCountRef := 0
  siblings := []
  monitorStopped := false
  refreshStopped := false
  triggerStopped := false
  readfromStopped := false
  statics := .init

def peerB : Addr := ⟨"127.0.0.1", 12346⟩
def peerC : Addr := ⟨"127.0.0.1", 12347⟩

def boot : System := .boot (ENode.construct zeroed .init 12345 2 2 0 ⟨"127.0.0.1", 12340⟩ 3)

theorem initial_boot : boot.Initial := ⟨zeroed, 12345, 2, 2, 0, ⟨"127.0.0.1", 12340⟩, 3, rfl⟩

/-- The TSC shows `tsc`, and the operating system a fixed time. -/
def reading (tsc : ℤ) : Ambient := ⟨tsc, ⟨1000, 0⟩, ⟨0, 0⟩⟩

/-- A round of `monitor_rdtsc` in the AEX-Notify build that reads the TSC at its start
    and once in its loop, and the step that leaves it. -/
def countingRound (startTsc tsc : ℤ) : List Action :=
  [.monitor (reading startTsc), .monitor (reading tsc), .monitor (reading tsc),
    .monitor (reading tsc)]

/-- `add_sibling` for both peers, the initialisation of the clock, and a calibration
    without interruptions, ten rounds of 10⁹ ticks. -/
def calibrated : List Action :=
  [.addSibling peerB true, .addSibling peerC true, .monitor (reading 0), .monitor (reading 0)] ++
    ((List.range 10).flatMap fun i => countingRound (i * 1000000000) ((i + 1) * 1000000000)) ++
    [.monitor (reading 0), .monitor (reading 0)]

end Scenario

end TriHaRd
