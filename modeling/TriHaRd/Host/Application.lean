-- SUMMARY: The application around the enclaves: how it makes nodes, uses them from several threads and destroys them.
import Mathlib.Data.Int.Notation
import Mathlib.Logic.Function.Basic
import TriHaRd.Base.Run

/-!
# The application

A `Node` of the application has an enclave of its own, whose map `nodes` takes ports to the nodes
on the enclave's heap. Its constructor makes one node there and starts the four tasks. The main
thread may start further threads that poll the clock. The destructor stops the node, joins all
threads and then has the node deleted.

An entry point of the enclave first looks for the port in the map, then fetches the pointer with
`operator[]`, and then runs a method of the node. These are separate steps here, and the threads
take them in any order. How long a method runs is left open, also that of `stop_tasks`, which may
return before the tasks have ended.
-/

namespace TriHaRd

-- ---------------------------------------------------------------------------
-- The map of an enclave
-- ---------------------------------------------------------------------------

/-- `nodes`, with pointers as numbers, and the nodes that have been constructed and not deleted.
    A null pointer is `none`. -/
structure NodeTable where
  entries : List (UInt16 × Option ℕ)
  live : List ℕ
  made : ℕ
deriving DecidableEq, Repr

namespace NodeTable

def fresh : NodeTable := ⟨[], [], 0⟩

/-- `nodes.find(_port) != nodes.end()` -/
def find (t : NodeTable) (port : UInt16) : Bool := (t.entries.lookup port).isSome

/-- `nodes[_port]`. It makes an entry with a null pointer if there is none. -/
def subscript (t : NodeTable) (port : UInt16) : NodeTable × Option ℕ :=
  match t.entries.lookup port with
  | some node => (t, node)
  | none => ({ t with entries := (port, none) :: t.entries }, none)

/-- `nodes.emplace(_port, new ENode(..))`. It keeps an entry that exists. -/
def emplace (t : NodeTable) (port : UInt16) : NodeTable where
  entries := if t.find port then t.entries else (port, some t.made) :: t.entries
  live := t.made :: t.live
  made := t.made + 1

def delete (t : NodeTable) (node : Option ℕ) : NodeTable :=
  { t with live := t.live.filter fun id => some id ≠ node }

def erase (t : NodeTable) (port : UInt16) : NodeTable :=
  { t with entries := t.entries.filter fun entry => entry.1 ≠ port }

end NodeTable

-- ---------------------------------------------------------------------------
-- Threads
-- ---------------------------------------------------------------------------

/-- The entry points that run a method of a node. -/
inductive Ecall where
  | stop
  | monitor
  | loopRecvfrom
  | refresh
  | untaintTrigger
  | addSibling
  | getTimestamp
  | pollTimestamp
deriving DecidableEq, Repr

inductive EcallPc where
  | find
  | subscript
  /-- In the method, with the pointer that was fetched. -/
  | method (node : Option ℕ)
deriving DecidableEq, Repr

inductive HostEvent where
  /-- An entry point uses the node behind the pointer. -/
  | access (port : UInt16) (ecall : Ecall) (node : Option ℕ)
  | delete (port : UInt16) (node : Option ℕ)
deriving DecidableEq, Repr

/-- A step of an entry point. Without a next position it has returned, `SUCCESS` after the method
    and `SOCKET_ALREADY_EXISTS` if there is no entry for the port. `stays` is whether the method
    goes on. -/
def Ecall.step (e : Ecall) (port : UInt16) (t : NodeTable) (stays : Bool) :
    EcallPc → NodeTable × Option EcallPc × List HostEvent
  | .find => (t, if t.find port then some .subscript else none, [])
  | .subscript =>
    let (t, node) := t.subscript port
    (t, some (.method node), [])
  | .method node => (t, if stays then some (.method node) else none, [.access port e node])

inductive ThreadPc where
  /-- Before the next call. -/
  | head
  | inside (pc : EcallPc)
  | ended
deriving DecidableEq, Repr

/-- A thread of a `Node`. `rounds` counts the calls that are left, if they are bounded. A thread
    that polls from outside the enclave ends when the `Node` has been asked to stop. -/
structure HostThread where
  ecall : Ecall
  rounds : Option ℕ
  heedsStop : Bool
  pc : ThreadPc
deriving DecidableEq, Repr

/-- A thread that makes one call. -/
def HostThread.task (e : Ecall) : HostThread := ⟨e, some 1, false, .head⟩

/-- The threads that the constructor starts. -/
def tasks : List HostThread :=
  [.task .loopRecvfrom, .task .untaintTrigger, .task .refresh, .task .monitor]

/-- What starts another thread. -/
inductive Launch where
  | enclPollTimestamp
  | pollTimestamp (count : ℤ)
  /-- `bench_timestamp` and `bench_lat_timestamp` -/
  | benchTimestamp
deriving DecidableEq, Repr

def Launch.thread : Launch → HostThread
  | .enclPollTimestamp => .task .pollTimestamp
  | .pollTimestamp count =>
    ⟨.getTimestamp, if count < 0 then none else some count.toNat, true, .head⟩
  | .benchTimestamp => ⟨.getTimestamp, none, true, .head⟩

/-- A `Node`. `created` is whether the enclave could be created; if not, every call fails. -/
structure HostNode where
  created : Bool
  table : NodeTable
  stop : Bool
  threads : List HostThread
deriving DecidableEq, Repr

/-- A step of a thread. -/
def HostThread.step (th : HostThread) (port : UInt16) (n : HostNode) (stays : Bool) :
    Option (NodeTable × HostThread × List HostEvent) :=
  match th.pc with
  | .head =>
    if th.rounds = some 0 ∨ (th.heedsStop ∧ n.stop) then
      some (n.table, { th with pc := .ended }, [])
    else
      let rounds := th.rounds.map (· - 1)
      some (n.table, { th with rounds := rounds, pc := if n.created then .inside .find else .head },
        [])
  | .inside pc =>
    let (table, next, events) := th.ecall.step port n.table stays pc
    some (table, { th with pc := next.elim .head .inside }, events)
  | .ended => none

-- ---------------------------------------------------------------------------
-- The main thread
-- ---------------------------------------------------------------------------

/-- Where the main thread is. -/
inductive MainPc where
  | idle
  /-- In `ecall_init`. -/
  | initFind (port : UInt16)
  | initEmplace (port : UInt16)
  /-- In the constructor, with the threads that it has yet to start. -/
  | spawn (port : UInt16) (rest : List HostThread)
  /-- In a method of the `Node` that calls the enclave. -/
  | call (port : UInt16) (e : Ecall) (pc : EcallPc)
  /-- In the destructor: in `ecall_stop`, before the `k`-th `join`, and in `ecall_destroy`. -/
  | stop (port : UInt16) (pc : EcallPc)
  | join (port : UInt16) (k : ℕ)
  | destroyFind (port : UInt16)
  | destroyDelete (port : UInt16)
  | destroyErase (port : UInt16)
  /-- Before the enclave is destroyed and the `Node` is freed. -/
  | free (port : UInt16)
deriving DecidableEq, Repr

/-- `Node::nodes` and the main thread. -/
structure Host where
  nodes : UInt16 → Option HostNode
  main : MainPc

inductive HostAction where
  /-- `created` is whether the enclave can be created. -/
  | getInstance (port : UInt16) (created : Bool)
  | addSibling (port : UInt16)
  | getTimestamp (port : UInt16)
  | launch (port : UInt16) (l : Launch)
  | destroyInstance (port : UInt16)
  /-- The main thread goes on with what it has begun. -/
  | main (stays : Bool)
  | thread (port : UInt16) (k : ℕ) (stays : Bool)
deriving DecidableEq, Repr

namespace Host

def initial : Host := ⟨fun _ => none, .idle⟩

def setNode (s : Host) (port : UInt16) (n : HostNode) : Host :=
  { s with nodes := Function.update s.nodes port (some n) }

/-- The main thread calls a method of the `Node` at the port. -/
def call (s : Host) (port : UInt16) (e : Ecall) : Option (Host × List HostEvent) :=
  match s.main, s.nodes port with
  | .idle, some n => some ({ s with main := if n.created then .call port e .find else .idle }, [])
  | _, _ => none

/-- What the main thread does next with the `Node` that it is busy with. -/
def mainStep (s : Host) (stays : Bool) : Option (Host × List HostEvent) :=
  match s.main with
  | .idle => none
  | .initFind port => (s.nodes port).map fun n =>
    ({ s with main := if n.table.find port then .spawn port tasks else .initEmplace port }, [])
  | .initEmplace port => (s.nodes port).map fun n =>
    ({ s.setNode port { n with table := n.table.emplace port } with main := .spawn port tasks }, [])
  | .spawn _ [] => some ({ s with main := .idle }, [])
  | .spawn port (th :: rest) => (s.nodes port).map fun n =>
    ({ s.setNode port { n with threads := n.threads ++ [th] } with main := .spawn port rest }, [])
  | .call port e pc => (s.nodes port).map fun n =>
    let (table, next, events) := e.step port n.table stays pc
    ({ s.setNode port { n with table := table } with main := next.elim .idle (.call port e) },
      events)
  | .stop port pc => (s.nodes port).map fun n =>
    let (table, next, events) := Ecall.stop.step port n.table stays pc
    ({ s.setNode port { n with table := table } with
      main := next.elim (.join port 0) (.stop port) }, events)
  | .join port k =>
    match s.nodes port with
    | none => none
    | some n =>
      match n.threads[k]? with
      | some th => if th.pc = .ended then some ({ s with main := .join port (k + 1) }, []) else none
      | none => some ({ s with main := if n.created then .destroyFind port else .free port }, [])
  | .destroyFind port => (s.nodes port).map fun n =>
    ({ s with main := if n.table.find port then .destroyDelete port else .free port }, [])
  | .destroyDelete port => (s.nodes port).map fun n =>
    let (table, node) := n.table.subscript port
    ({ s.setNode port { n with table := table.delete node } with main := .destroyErase port },
      [.delete port node])
  | .destroyErase port => (s.nodes port).map fun n =>
    ({ s.setNode port { n with table := n.table.erase port } with main := .free port }, [])
  | .free port => some (⟨Function.update s.nodes port none, .idle⟩, [])

/-- `none` means that the action cannot be taken now. Methods are called of nodes that
    `get_instance` has returned and that have not been destroyed. -/
def step (s : Host) : HostAction → Option (Host × List HostEvent)
  | .getInstance port created =>
    match s.main, s.nodes port with
    | .idle, none => some ({ s.setNode port ⟨created, .fresh, false, []⟩ with
        main := if created then .initFind port else .spawn port tasks }, [])
    | .idle, some _ => some (s, [])
    | _, _ => none
  | .addSibling port => s.call port .addSibling
  | .getTimestamp port => s.call port .getTimestamp
  | .launch port l =>
    match s.main, s.nodes port with
    | .idle, some n => some (s.setNode port { n with threads := n.threads ++ [l.thread] }, [])
    | _, _ => none
  | .destroyInstance port =>
    match s.main, s.nodes port with
    | .idle, some n => some ({ s.setNode port { n with stop := true } with
        main := if n.created then .stop port .find else .join port 0 }, [])
    | .idle, none => some (s, [])
    | _, _ => none
  | .main stays => s.mainStep stays
  | .thread port k stays =>
    match s.nodes port with
    | none => none
    | some n =>
      match n.threads[k]? with
      | none => none
      | some th => (th.step port n stays).map fun (table, th, events) =>
        (s.setNode port { n with table := table, threads := n.threads.set k th }, events)

end Host

abbrev HostStep := Lts.Transition Host HostAction HostEvent

abbrev HostRun : Host → List HostStep → Host → Prop := Lts.Run Host.step

end TriHaRd
