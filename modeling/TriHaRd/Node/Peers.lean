-- SUMMARY: The peers of a node: adding siblings, tainted rounds, answering them, and the untainting quorum.
import TriHaRd.Node.Clock
import TriHaRd.Base.Table
import TriHaRd.Wire
import Mathlib.Order.Bounds.Basic

/-!
# Peers

The sibling table, and the functions of `ENode.cpp` that read or write it. A
tainted node sends a round of 'Tainted' messages, one to each sibling, all with
the round's count. A sibling that trusts its own clock answers with an 'Untaint'
message. The node records in its table, for each sibling, the newest round that
the sibling answered, and untaints on a quorum over the whole table.
-/

namespace TriHaRd

open Truncate

/-- What a message handler leaves: the node, what it showed, and the return code. -/
structure Outcome where
  node : ENode
  events : List Event
  retval : ℤ
deriving DecidableEq, Repr

/-- A handler that shows nothing and succeeds. -/
def Outcome.quiet (s : ENode) : Outcome := ⟨s, [], success⟩

namespace Peer

/-- The loop that raises `max_tainted_msg_count`, from the received count on. -/
def maxTaintedMsgCount (recvdTaintedMsgCount : ℤ) (siblings : List Peer) : ℤ :=
  siblings.foldl (fun maxCount peer =>
    if peer.lastTsIsConsistent.1 > maxCount then peer.lastTsIsConsistent.1 else maxCount)
    recvdTaintedMsgCount

/-- The peers that `consistent_count` counts. -/
def consistentIn (maxCount : ℤ) (peer : Peer) : Bool :=
  peer.lastTsIsConsistent.1 == maxCount && peer.lastTsIsConsistent.2

def consistentCount (maxCount : ℤ) (siblings : List Peer) : ℤ :=
  siblings.countP (consistentIn maxCount)

def peerConsistentCount (siblings : List Peer) : ℤ :=
  siblings.countP viewsAsConsistent

/-- The test before `tainted = false`. -/
def quorum (recvdTaintedMsgCount : ℤ) (siblings : List Peer) : Bool :=
  let maxCount := maxTaintedMsgCount recvdTaintedMsgCount siblings
  decide (consistentCount maxCount siblings ≥ siblings.length - 1) &&
    decide (peerConsistentCount siblings ≥ siblings.length - 1)

end Peer

namespace ENode

/-- `std::find` in the sibling table. -/
def findSibling (s : ENode) (addr : Addr) : Option Peer :=
  Table.lookup Peer.toAddr addr s.siblings

/-- The datagrams of `sendMessage` with a socket that accepts them. A datagram may
    still be lost: an event is a send, not a delivery. -/
def sendMessage (s : ENode) (buff : List UInt8) (dst : Addr) : List Event × ℤ :=
  if s.sock < 0 then ([], socketInexistent) else ([.sent ⟨dst, buff⟩], success)

theorem eq_of_mem_sendMessage {s : ENode} {buff : List UInt8} {dst : Addr} {e : Event}
    (h : e ∈ (s.sendMessage buff dst).1) : e = .sent ⟨dst, buff⟩ := by
  unfold sendMessage at h
  split at h
  · cases h
  · exact List.mem_singleton.mp h

-- ---------------------------------------------------------------------------
-- add_sibling and case 'S'
-- ---------------------------------------------------------------------------

/-- `sendOk` is whether `sendto` succeeds. When it fails the socket is closed, but
    no member changes. -/
def addSibling (s : ENode) (addr : Addr) (sendOk : Bool) : ENode × List Event :=
  if addr.hostname = "127.0.0.1" ∧ addr.port = s.port then (s, [])
  else if (s.findSibling addr).isSome then (s, [])
  else ({ s with siblings := s.siblings ++ [Peer.new addr] },
    if sendOk then [.sent ⟨addr, siblingStr⟩] else [])

/-- Case 'S' of `handle_message`. Unlike `add_sibling` it does not look whether the
    sender is the node itself. -/
def handleSibling (s : ENode) (src : Addr) : ENode :=
  if (s.findSibling src).isSome then s
  else { s with siblings := s.siblings ++ [Peer.new src] }

-- ---------------------------------------------------------------------------
-- sendTaintedMessages and case 'T'
-- ---------------------------------------------------------------------------

def sendTaintedMessages (s : ENode) (amb : Ambient) : ENode × List Event :=
  let taintedMsgCount := s.statics.taintedMsgCount
  let (s, orgTs) := s.readClock
  let sendBuff := buildTainted taintedMsgCount orgTs amb.dummyTs
  ({ s with statics.taintedMsgCount := taintedMsgCount + 1 },
    s.siblings.flatMap fun peer => (s.sendMessage sendBuff peer.toAddr).1)

/-- Case 'T' of `handle_message`. -/
def handleTainted (s : ENode) (buff : List UInt8) (src : Addr) (amb : Ambient) : Outcome :=
  match s.findSibling src with
  | none => .quiet s
  | some sibling =>
    if buff.length ≠ tMsgExpectedLen then .quiet s
    else if s.clockState = .taConsistent then
      let (s, shown) := if sibling.port = 12346 then s.shadowTscUpdate amb.osTime else (s, [])
      let (s, recTs) := s.readClock
      let msg := readTainted buff
      let (s, xmtTs) := s.readClock
      let sendBuff :=
        buildUntaint msg.count sibling.lastTsIsConsistent.2 msg.orgTs recTs xmtTs
      let (sent, retval) := s.sendMessage sendBuff src
      ⟨s, shown ++ sent, retval⟩
    else .quiet s

-- ---------------------------------------------------------------------------
-- Case 'U'
-- ---------------------------------------------------------------------------

/-- `recv_ts` of case 'U': the clock is read without moving its references. -/
def untaintRecvTs (s : ENode) : Timespec :=
  s.tsRef + truncate ((s.tsc - s.tscRef : ℤ) / s.tscFreq)

def peerClockOffset (s : ENode) (msg : UntaintMsg) : Timespec :=
  (msg.recTs - msg.orgTs + msg.xmtTs - s.untaintRecvTs) / (2 : ℚ)

/-- The verdict that is recorded with a reply. -/
def peerIsConsistent (s : ENode) (msg : UntaintMsg) : Bool :=
  decide (s.peerClockOffset msg < peerConsistencyDriftThreshold)

/-- The sibling's entry after the reply: overwritten if the reply's count is newer
    than the recorded one, and kept if the message counts as replayed. -/
def recordReply (s : ENode) (msg : UntaintMsg) (sibling : Peer) : Peer :=
  if msg.count > sibling.lastTsIsConsistent.1 then
    { sibling with
      lastTsIsConsistent := (msg.count, s.peerIsConsistent msg)
      viewsAsConsistent := msg.viewsAsConsistent }
  else sibling

/-- The table after the reply: the entry that `std::find` stops at is updated. -/
def recordUntaint (s : ENode) (src : Addr) (msg : UntaintMsg) : List Peer :=
  Table.update Peer.toAddr src (s.recordReply msg) s.siblings

/-- Case 'U' of `handle_message`. The quorum is counted again after every message
    from a sibling, replayed or not. -/
def handleUntaint (s : ENode) (buff : List UInt8) (src : Addr) : ENode :=
  if buff.length ≠ uMsgExpectedLen then s
  else if (s.findSibling src).isSome then
    let msg := readUntaint buff
    let siblings := s.recordUntaint src msg
    if Peer.quorum msg.count siblings then { s with siblings := siblings, tainted := false }
    else { s with siblings := siblings }
  else s

end ENode

-- ---------------------------------------------------------------------------
-- The newest round
-- ---------------------------------------------------------------------------

namespace Peer

/-- The loop finds the greatest of the received count and the recorded ones. -/
theorem maxTaintedMsgCount_isGreatest (recvdTaintedMsgCount : ℤ) (siblings : List Peer) :
    IsGreatest {c | c = recvdTaintedMsgCount ∨ ∃ peer ∈ siblings, peer.lastTsIsConsistent.1 = c}
      (maxTaintedMsgCount recvdTaintedMsgCount siblings) := by
  induction siblings generalizing recvdTaintedMsgCount with
  | nil => exact ⟨.inl rfl, by rintro c (rfl | ⟨_, hmem, _⟩) <;> simp_all [maxTaintedMsgCount]⟩
  | cons peer siblings ih =>
      have hstep : maxTaintedMsgCount recvdTaintedMsgCount (peer :: siblings) =
          maxTaintedMsgCount (max recvdTaintedMsgCount peer.lastTsIsConsistent.1) siblings := by
        rw [maxTaintedMsgCount, List.foldl_cons, ← maxTaintedMsgCount]
        congr 1
        omega
      obtain ⟨hmem, hup⟩ := ih (max recvdTaintedMsgCount peer.lastTsIsConsistent.1)
      have hfirst := hup (.inl rfl)
      rw [hstep]
      constructor
      · rcases hmem with heq | ⟨p, hp, heq⟩
        · rcases max_choice recvdTaintedMsgCount peer.lastTsIsConsistent.1 with hm | hm
          · exact .inl (heq.trans hm)
          · exact .inr ⟨peer, List.mem_cons_self, (heq.trans hm).symm⟩
        · exact .inr ⟨p, List.mem_cons_of_mem peer hp, heq⟩
      · rintro c (rfl | ⟨p, hp, rfl⟩)
        · exact (le_max_left _ _).trans hfirst
        · rcases List.mem_cons.mp hp with rfl | htail
          · exact (le_max_right _ _).trans hfirst
          · exact hup (.inr ⟨p, htail, rfl⟩)

/-- `c` is the newest of the rounds that the table has a reply to. -/
def Newest (siblings : List Peer) (c : ℤ) : Prop :=
  IsGreatest {n | ∃ peer ∈ siblings, peer.lastTsIsConsistent.1 = n} c

/-- Once the sender's entry is up to date, the loop finds the newest round of the table. -/
theorem newest_maxTaintedMsgCount {recvdTaintedMsgCount : ℤ} {siblings : List Peer}
    (h : ∃ peer ∈ siblings, recvdTaintedMsgCount ≤ peer.lastTsIsConsistent.1) :
    Newest siblings (maxTaintedMsgCount recvdTaintedMsgCount siblings) := by
  obtain ⟨hmem, hup⟩ := maxTaintedMsgCount_isGreatest recvdTaintedMsgCount siblings
  refine ⟨?_, fun c hc => hup (.inr hc)⟩
  rcases hmem with heq | hpeer
  · obtain ⟨peer, hp, hle⟩ := h
    exact ⟨peer, hp, le_antisymm (hup (.inr ⟨peer, hp, rfl⟩)) (heq.trans_le hle)⟩
  · exact hpeer

end Peer

-- ---------------------------------------------------------------------------
-- What a reply does to the table
-- ---------------------------------------------------------------------------

namespace ENode

theorem recordReply_toAddr (s : ENode) (msg : UntaintMsg) (sibling : Peer) :
    (s.recordReply msg sibling).toAddr = sibling.toAddr := by
  unfold recordReply
  split <;> rfl

theorem recordReply_count (s : ENode) (msg : UntaintMsg) (sibling : Peer) :
    (s.recordReply msg sibling).lastTsIsConsistent.1 =
      max sibling.lastTsIsConsistent.1 msg.count := by
  unfold recordReply
  split
  · dsimp only
    omega
  · omega

theorem recordReply_of_newer {s : ENode} {msg : UntaintMsg} {sibling : Peer}
    (h : sibling.lastTsIsConsistent.1 < msg.count) :
    s.recordReply msg sibling =
      ⟨sibling.toAddr, (msg.count, s.peerIsConsistent msg), msg.viewsAsConsistent⟩ :=
  if_pos h

theorem recordReply_of_replayed {s : ENode} {msg : UntaintMsg} {sibling : Peer}
    (h : msg.count ≤ sibling.lastTsIsConsistent.1) : s.recordReply msg sibling = sibling :=
  if_neg (not_lt.mpr h)

theorem map_toAddr_recordUntaint (s : ENode) (src : Addr) (msg : UntaintMsg) :
    (s.recordUntaint src msg).map Peer.toAddr = s.siblings.map Peer.toAddr :=
  Table.map_key_update (s.recordReply_toAddr msg)

theorem length_recordUntaint (s : ENode) (src : Addr) (msg : UntaintMsg) :
    (s.recordUntaint src msg).length = s.siblings.length :=
  Table.length_update _ _ _ _

/-- The table after a reply, entry by entry. -/
theorem lookup_recordUntaint (s : ENode) (src : Addr) (msg : UntaintMsg) (addr : Addr) :
    Table.lookup Peer.toAddr addr (s.recordUntaint src msg) = if addr = src then
      (s.findSibling src).map (s.recordReply msg) else s.findSibling addr :=
  Table.lookup_update (s.recordReply_toAddr msg) addr

/-- The same where the sender has the entry `sibling`. -/
theorem lookup_recordUntaint_of_find {s : ENode} {src : Addr} {sibling : Peer}
    (hfind : s.findSibling src = some sibling) (msg : UntaintMsg) (addr : Addr) :
    Table.lookup Peer.toAddr addr (s.recordUntaint src msg) = if addr = src then
      some (s.recordReply msg sibling) else s.findSibling addr := by
  rw [lookup_recordUntaint, hfind, Option.map_some]

/-- A replayed message leaves the table as it is. -/
theorem recordUntaint_of_replayed {s : ENode} {src : Addr} {msg : UntaintMsg} {sibling : Peer}
    (hfind : s.findSibling src = some sibling) (h : msg.count ≤ sibling.lastTsIsConsistent.1) :
    s.recordUntaint src msg = s.siblings := by
  refine Table.update_eq_self fun x hx => ?_
  obtain rfl : x = sibling := Option.some.inj (hx.symm.trans hfind)
  exact recordReply_of_replayed h

/-- After a reply its sender has an entry at least as new as the reply. -/
theorem exists_recordUntaint_ge {s : ENode} {src : Addr} (msg : UntaintMsg)
    (hfind : (s.findSibling src).isSome) :
    ∃ peer ∈ s.recordUntaint src msg, msg.count ≤ peer.lastTsIsConsistent.1 := by
  obtain ⟨sibling, hsibling⟩ := Option.isSome_iff_exists.mp hfind
  have hlookup : Table.lookup Peer.toAddr src (s.recordUntaint src msg) =
      some (s.recordReply msg sibling) := by
    rw [lookup_recordUntaint_of_find hsibling, if_pos rfl]
  refine ⟨_, Table.mem_of_lookup hlookup, ?_⟩
  rw [recordReply_count]
  exact le_max_right _ _

/-- What case 'U' does with a message that it accepts. -/
theorem handleUntaint_of_sibling {s : ENode} {buff : List UInt8} {src : Addr}
    (hlen : buff.length = uMsgExpectedLen) (hfind : (s.findSibling src).isSome) :
    s.handleUntaint buff src =
      { s with
        siblings := s.recordUntaint src (readUntaint buff)
        tainted := s.tainted &&
          !Peer.quorum (readUntaint buff).count (s.recordUntaint src (readUntaint buff)) } := by
  simp only [handleUntaint, hlen, ne_eq, not_true_eq_false, if_false, hfind, if_true]
  split
  case isTrue hquorum => simp [hquorum]
  case isFalse hquorum => simp [hquorum]

/-- The table that case 'U' leaves, entry by entry. -/
theorem findSibling_handleUntaint {s : ENode} {buff : List UInt8} {src : Addr}
    (hlen : buff.length = uMsgExpectedLen) (hfind : (s.findSibling src).isSome) (addr : Addr) :
    (s.handleUntaint buff src).findSibling addr = if addr = src then
      (s.findSibling src).map (s.recordReply (readUntaint buff)) else s.findSibling addr := by
  rw [handleUntaint_of_sibling hlen hfind]
  exact lookup_recordUntaint s src (readUntaint buff) addr

/-- Case 'U' drops every other message. -/
theorem handleUntaint_of_dropped {s : ENode} {buff : List UInt8} {src : Addr}
    (h : ¬ (buff.length = uMsgExpectedLen ∧ (s.findSibling src).isSome)) :
    s.handleUntaint buff src = s := by
  unfold handleUntaint
  split
  · rfl
  · rename_i hlen
    rw [if_neg fun hfind => h ⟨not_not.mp hlen, hfind⟩]

end ENode

end TriHaRd
