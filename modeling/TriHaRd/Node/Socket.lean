-- SUMMARY: The socket of a node, one operation at a time: what each call does with it and with its lock, for any answers of the system.
import TriHaRd.Base.Lock
import TriHaRd.Network.Sends
import TriHaRd.Node.Frame

/-!
# The socket and its lock

`socket_rwlock` guards the member `sock`. Here the calls that use them are given as
the operations they make, one after the other, on the lock, on the member and on
the descriptor it holds. Nothing is assumed of the answers of the system, and an
ocall may leave anything in `errno`.
-/

namespace TriHaRd

open Lock

-- ---------------------------------------------------------------------------
-- Operations and answers
-- ---------------------------------------------------------------------------

inductive SocketOp where
  | rdlock
  | wrlock
  | unlock
  /-- `sock` is compared or printed. -/
  | load
  /-- `sock = socket(…)`, which returned `fd`. -/
  | socket (fd : ℤ)
  | bind (status : ℤ)
  | setsockopt
  | sendto
  | recvfrom
  /-- `close(sock)` -/
  | close
  /-- `sock = -1` -/
  | clear
deriving DecidableEq, Repr

/-- What the operation is to `socket_rwlock`. -/
def SocketOp.use : SocketOp → Use
  | .rdlock | .wrlock => .acquire
  | .unlock => .release
  | _ => .touch

/-- What a call has done so far, and the code it has returned, if it has. -/
structure Call where
  ops : List SocketOp
  retval : Option ℤ
deriving DecidableEq, Repr

namespace Call

/-- The call after some operations. -/
def after (ops : List SocketOp) (c : Call) : Call := { c with ops := ops ++ c.ops }

def session (c : Call) : Session := ⟨c.ops.map SocketOp.use, c.retval.isSome⟩

/-- The uses of the lock alone. -/
def lockSession (c : Call) : Session :=
  { c.session with uses := c.session.uses.filter (· ≠ .touch) }

end Call

def socketCreationError : ℤ := -2
def socketBindingError : ℤ := -3
def sendingError : ℤ := -6

/-- `EAGAIN`, which is `EWOULDBLOCK`. -/
def eagain : ℤ := 11

/-- The status that `sendto` or `recvfrom` returns, and `errno`. -/
structure Answer where
  status : ℤ
  errno : ℤ
deriving DecidableEq, Repr

namespace Answer

def isError (r : Answer) : Bool := r.status < 0 && r.errno != 0

/-- An error for which the socket is closed and set up again. -/
def isFatal (r : Answer) : Bool := r.isError && r.errno != eagain

end Answer

/-- What `socket` and `bind` return, and `errno` when `setup_socket` does. -/
structure SetupAnswers where
  socket : ℤ
  bind : ℤ
  errno : ℤ
deriving DecidableEq, Repr

/-- A round of the loop of `sendMessage`: the answer of `sendto`, those of `setup_socket` should it
    be called, and what `should_stop` returns at the end. -/
structure SendRound where
  sendto : Answer
  setup : SetupAnswers
  stop : Bool
deriving DecidableEq, Repr

/-- The condition of the loop. `setup_socket` may have changed `errno`. -/
def SendRound.isRetried (r : SendRound) : Bool :=
  r.sendto.status < 0 && (if r.sendto.isFatal then r.setup.errno else r.sendto.errno) == eagain &&
    !r.stop

-- ---------------------------------------------------------------------------
-- The calls
-- ---------------------------------------------------------------------------

def setupSocket (a : SetupAnswers) : Call :=
  if a.socket < 0 then ⟨[.wrlock, .socket a.socket], some socketCreationError⟩
  else if a.bind < 0 then
    ⟨[.wrlock, .socket a.socket, .bind a.bind, .close], some socketBindingError⟩
  -- the last line prints `sock`
  else ⟨[.wrlock, .socket a.socket, .bind a.bind, .setsockopt, .unlock, .load], some success⟩

/-- What follows `sendto` in a round. The lock is taken before the loop, and released in it. -/
def SendRound.ops (r : SendRound) : List SocketOp :=
  .unlock :: if r.sendto.isFatal then
    [.load, .wrlock, .close, .clear, .unlock] ++ (setupSocket r.setup).ops
  else []

/-- The loop of `sendMessage`. Past the last of the rounds it waits for the next answer. -/
def sendLoop : List SendRound → Call
  | [] => ⟨[.sendto], none⟩
  | r :: rounds =>
    .after (.sendto :: r.ops) (if r.isRetried then sendLoop rounds else ⟨[], some success⟩)

/-- `sendMessage` on a node that has `sock` in its member at the test. -/
def sendMessageCall (sock : ℤ) (rounds : List SendRound) : Call :=
  if sock < 0 then ⟨[.rdlock, .load, .unlock], some socketInexistent⟩
  else .after [.rdlock, .load] (sendLoop rounds)

namespace ENode

def addSiblingCall (s : ENode) (addr : Addr) (sendto : Answer) : Call :=
  if addr.hostname = "127.0.0.1" ∧ addr.port = s.port then ⟨[], some success⟩
  else if (s.findSibling addr).isSome then ⟨[], some success⟩
  else if sendto.isError then ⟨[.sendto, .wrlock, .close, .unlock], some sendingError⟩
  else ⟨[.sendto], some success⟩

/-- `handle_message` calls `sendMessage`. -/
def replies (s : ENode) (buff : List UInt8) (src : Addr) : Bool :=
  match buff with
  | [] => false
  | tag :: _ =>
    if tag = letterS then false
    else if tag = letterT then
      (s.findSibling src).isSome && buff.length == tMsgExpectedLen &&
        s.clockState == .taConsistent
    else if tag = letterU then false
    else if tag = letterD then false
    else true

/-- `handle_message`, where `sendMessage` finds `sock` in the member, should it be called. -/
def handleMessageCall (s : ENode) (buff : List UInt8) (src : Addr) (sock : ℤ)
    (rounds : List SendRound) : Call :=
  if s.replies buff src then sendMessageCall sock rounds else ⟨[], some success⟩

end ENode

/-- What an iteration of `loop_recvfrom` meets: the answer of `recvfrom`, those of `setup_socket`
    should it be called, the message that is handed over and the node that handles it, and what
    `sendMessage` finds should it be called. -/
structure RecvAnswers where
  recvfrom : Answer
  setup : SetupAnswers
  node : ENode
  payload : List UInt8
  src : Addr
  sock : ℤ
  rounds : List SendRound
deriving DecidableEq, Repr

/-- An iteration of `loop_recvfrom`. -/
def recvIteration (sock : ℤ) (a : RecvAnswers) : Call :=
  if sock < 0 then ⟨[.rdlock, .load, .unlock], some socketInexistent⟩
  else .after [.rdlock, .load, .recvfrom, .unlock] <|
    if a.recvfrom.isError then
      if a.recvfrom.isFatal then ⟨[.close, .clear] ++ (setupSocket a.setup).ops, some success⟩
      else ⟨[], some success⟩
    else if a.recvfrom.status > 0 then a.node.handleMessageCall a.payload a.src a.sock a.rounds
    else ⟨[], some success⟩

/-- The calls that use the socket and its lock. -/
inductive SocketCall where
  | setupSocket (a : SetupAnswers)
  | sendMessage (sock : ℤ) (rounds : List SendRound)
  | addSibling (node : ENode) (addr : Addr) (sendto : Answer)
  | recvIteration (sock : ℤ) (a : RecvAnswers)
deriving DecidableEq, Repr

def SocketCall.call : SocketCall → Call
  | .setupSocket a => TriHaRd.setupSocket a
  | .sendMessage sock rounds => sendMessageCall sock rounds
  | .addSibling node addr sendto => node.addSiblingCall addr sendto
  | .recvIteration sock a => TriHaRd.recvIteration sock a

-- ---------------------------------------------------------------------------
-- The calls and the steps of the node
-- ---------------------------------------------------------------------------

/-! The system of the node takes a call as one step. These lemmas tie the codes it
returns and the messages it shows to the operations here. -/

theorem sendLoop_retval {rounds : List SendRound} {retval : ℤ}
    (h : (sendLoop rounds).retval = some retval) : retval = success := by
  induction rounds with
  | nil => cases h
  | cons r rounds ih =>
      simp only [sendLoop, Call.after] at h
      split at h
      · exact ih h
      · exact (Option.some.inj h).symm

/-- `sendMessage` returns what the system of the node says. -/
theorem sendMessageCall_retval {s : ENode} {rounds : List SendRound} {retval : ℤ}
    (h : (sendMessageCall s.sock rounds).retval = some retval) (buff : List UInt8) (dst : Addr) :
    retval = (s.sendMessage buff dst).2 := by
  unfold sendMessageCall at h
  unfold ENode.sendMessage
  split at h
  case isTrue hsock =>
    rw [if_pos hsock]
    exact (Option.some.inj h).symm
  case isFalse hsock =>
    rw [if_neg hsock]
    exact sendLoop_retval h

namespace ENode

/-- `add_sibling` shows a message when its `sendto` succeeds. -/
theorem addSiblingCall_sends (s : ENode) (addr : Addr) (sendto : Answer) :
    (s.addSibling addr !sendto.isError).2 =
      if .sendto ∈ (s.addSiblingCall addr sendto).ops ∧ !sendto.isError then
        [.sent ⟨addr, siblingStr⟩]
      else [] := by
  unfold addSibling addSiblingCall
  split_ifs <;> simp_all

theorem tainted_replies_iff {s : ENode} {src : Addr}
    (hsends : ∀ n : ENode, n.sock = s.sock → ∀ buff,
      (n.sendMessage buff src).1 = [.sent ⟨src, buff⟩]) (payload : List UInt8) (amb : Ambient) :
    ((s.findSibling src).isSome && payload.length == tMsgExpectedLen &&
        s.clockState == .taConsistent) = true ↔
      ∃ q, .sent q ∈ (s.handleTainted payload src amb).events := by
  unfold handleTainted
  cases hfind : s.findSibling src with
  | none => simp [Outcome.quiet]
  | some sibling =>
      by_cases hlength : payload.length = tMsgExpectedLen
      case neg => simp [hlength, Outcome.quiet]
      by_cases hconsistent : s.clockState = .taConsistent
      case neg => simp [hlength, hconsistent, Outcome.quiet]
      have hsock : (if sibling.port = 12346 then s.shadowTscUpdate amb.osTime else (s, [])).1.sock =
          s.sock := by
        split
        · exact shadowTscUpdate_sock amb.osTime s
        · rfl
      refine iff_of_true (by simp [hlength, hconsistent]) ?_
      simp only [hlength, hconsistent, ne_eq, not_true, if_false, if_true]
      generalize (if sibling.port = 12346 then s.shadowTscUpdate amb.osTime else (s, [])) = r
        at hsock ⊢
      rw [hsends r.1.readClock.1.readClock.1 hsock]
      exact ⟨_, List.mem_append_right r.2 List.mem_cons_self⟩

/-- A node with a socket shows an answer to a message when it calls `sendMessage`. -/
theorem replies_iff {s : ENode} (hsock : 0 ≤ s.sock) (payload : List UInt8) (src : Addr)
    (amb : Ambient) :
    s.replies payload src = true ↔ ∃ q, .sent q ∈ (s.handleMessage payload src amb).events := by
  have hsends (n : ENode) (hn : n.sock = s.sock) (buff : List UInt8) :
      (n.sendMessage buff src).1 = [.sent ⟨src, buff⟩] := by
    rw [sendMessage, if_neg (by omega)]
  cases payload with
  | nil => simp [replies, handleMessage, Outcome.quiet]
  | cons tag tail =>
      simp only [replies, handleMessage]
      split_ifs with hS hT hU hD
      · simp [Outcome.quiet]
      · exact tainted_replies_iff hsends (tag :: tail) amb
      · simp [Outcome.quiet]
      · simpa using fun q => handleDrift_sends_nothing s (tag :: tail) amb q
      · simp [hsends s rfl]

end ENode

end TriHaRd
