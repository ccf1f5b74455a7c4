-- SUMMARY: The three message kinds through all their senders and readers, for every value that their members can hold.
import TriHaRd.Network.Sends
import TriHaRd.TimeAuthority.Server

/-!
# Round trips

A count and a timestamp that fit their C types survive the way from the buffer of
the sender to the reader of the receiver. For each function that sends there is
one lemma that gives the buffer it sends, and for each kind of message one that
gives what a reader finds in the buffer.
-/

namespace TriHaRd

open LittleEndian

/-- A value of `long long`. -/
def IsLongLong (x : ℤ) : Prop := -2 ^ 63 ≤ x ∧ x < 2 ^ 63

/-- A value of `int`. -/
def IsInt (x : ℤ) : Prop := -2 ^ 31 ≤ x ∧ x < 2 ^ 31

/-- A value of `timespec`. -/
structure Timespec.IsStored (ts : Timespec) : Prop where
  tvSec : IsLongLong ts.tvSec
  tvNsec : IsLongLong ts.tvNsec

theorem IsLongLong.wire {x : ℤ} (h : IsLongLong x) : wireLongLong x = x :=
  wireLongLong_of_range h.1 h.2

theorem IsInt.wire {x : ℤ} (h : IsInt x) : wireInt x = x := by
  obtain ⟨hlow, hhigh⟩ := h
  refine Int.bmod_eq_of_le ?_ ?_
  · norm_num
    omega
  · norm_num
    omega

theorem Timespec.IsStored.wire {ts : Timespec} (h : ts.IsStored) : wireTimespec ts = ts := by
  rw [wireTimespec, h.tvSec.wire, h.tvNsec.wire]

-- ---------------------------------------------------------------------------
-- What is sent
-- ---------------------------------------------------------------------------

namespace ENode

theorem payload_of_sendTaintedMessages {s : ENode} {amb : Ambient} {q : Packet}
    (h : Event.sent q ∈ (s.sendTaintedMessages amb).2) :
    q.payload = buildTainted s.statics.taintedMsgCount s.readClock.2 amb.dummyTs := by
  obtain ⟨peer, _, hq⟩ := List.mem_flatMap.mp h
  obtain rfl := Event.sent.inj (eq_of_mem_sendMessage hq)
  rfl

/-- The timestamp of a drift request, read after the shadow clock has been updated. -/
def driftOrgTs (s : ENode) (amb : Ambient) : Timespec :=
  (s.shadowTscUpdate amb.osTime).1.readClock.2

theorem payload_of_sendRecvDriftMessage {s : ENode} {sleepTimeMs sleepMs : ℤ} {amb : Ambient}
    {q : Packet} (h : Event.sent q ∈ (s.sendRecvDriftMessage sleepTimeMs sleepMs amb).2) :
    q.payload = buildDrift s.calibMsgCount (sleepTimeMs + sleepMs) (s.driftOrgTs amb)
      amb.dummyTs := by
  have hcount : (s.shadowTscUpdate amb.osTime).1.calibMsgCount = s.calibMsgCount := by
    unfold shadowTscUpdate
    split <;> rfl
  rcases List.mem_append.mp h with h | h
  · exact absurd h (s.shadowTscUpdate_sends_nothing amb.osTime q)
  · have hpayload : q.payload = buildDrift (s.shadowTscUpdate amb.osTime).1.calibMsgCount
        (sleepTimeMs + sleepMs) (s.driftOrgTs amb) amb.dummyTs :=
      congrArg Packet.payload (Event.sent.inj (eq_of_mem_sendMessage h))
    rw [hpayload, hcount]

end ENode

-- ---------------------------------------------------------------------------
-- What is read
-- ---------------------------------------------------------------------------

theorem readTainted_of_stored {count : ℤ} {orgTs : Timespec} (dummyTs : Timespec)
    (hcount : IsLongLong count) (horg : orgTs.IsStored) :
    readTainted (buildTainted count orgTs dummyTs) = ⟨count, orgTs⟩ := by
  rw [readTainted_buildTainted, hcount.wire, horg.wire]

theorem readUntaint_of_stored {count : ℤ} {orgTs recTs xmtTs : Timespec} (views : Bool)
    (hcount : IsLongLong count) (horg : orgTs.IsStored) (hrec : recTs.IsStored)
    (hxmt : xmtTs.IsStored) :
    readUntaint (buildUntaint count views orgTs recTs xmtTs) =
      ⟨count, views, orgTs, recTs, xmtTs⟩ := by
  rw [readUntaint_buildUntaint, hcount.wire, horg.wire, hrec.wire, hxmt.wire]

/-- What the Time Authority repeats from a request, with its own times. -/
theorem readDrift_of_stored {count sleepTime : ℤ} {orgTs recTs xmtTs : Timespec}
    (recvTs : List UInt8) (hcount : IsLongLong count) (hsleep : IsInt sleepTime)
    (horg : orgTs.IsStored) (hrec : recTs.IsStored) (hxmt : xmtTs.IsStored) :
    readDrift (buildDriftReply count sleepTime orgTs recTs xmtTs recvTs) =
      ⟨count, sleepTime, orgTs, recTs, xmtTs⟩ := by
  rw [readDrift_buildDriftReply, hcount.wire, hsleep.wire, horg.wire, hrec.wire, hxmt.wire]

/-- What the Time Authority finds in a request, whatever `buff_dec` holds behind it. -/
theorem echo_of_stored {count sleepTime : ℤ} {orgTs : Timespec} (dummyTs : Timespec)
    (rest : List UInt8) (hcount : IsLongLong count) (hsleep : IsInt sleepTime)
    (horg : orgTs.IsStored) :
    (readDrift (buildDrift count sleepTime orgTs dummyTs ++ rest)).echo =
      ⟨count, sleepTime, orgTs⟩ := by
  rw [echo_append (by rw [length_buildDrift]; decide), buildDrift_eq_buildDriftReply, echo_buildDriftReply,
    hcount.wire, hsleep.wire, horg.wire]

/-- The reply to a request is the message with the members of the request. -/
theorem replyTo_of_echo {buffDec : List UInt8} {count sleepTime : ℤ} {orgTs : Timespec}
    (h : (readDrift buffDec).echo = ⟨count, sleepTime, orgTs⟩) (recTs xmtTs : Timespec) :
    Server.replyTo buffDec recTs xmtTs = buildDriftReply count sleepTime orgTs recTs xmtTs
      (fieldAt buffDec (dMsgExpectedLen - 16) 16) := by
  generalize hread : readDrift buffDec = msg at h
  obtain ⟨rfl, rfl, rfl⟩ := Echo.mk.inj h
  rw [Server.replyTo, hread]

-- ---------------------------------------------------------------------------
-- All parties
-- ---------------------------------------------------------------------------

/-- The three formats round-trip: each message that is sent has the length that its receiver
    expects, and the receiver finds in it the values that were sent. -/
theorem wire_formats_roundTrip :
    (∀ (s : ENode) (amb : Ambient) (q : Packet), Event.sent q ∈ (s.sendTaintedMessages amb).2 →
      IsLongLong s.statics.taintedMsgCount → s.readClock.2.IsStored →
      q.payload.length = tMsgExpectedLen ∧
        readTainted q.payload = ⟨s.statics.taintedMsgCount, s.readClock.2⟩) ∧
    (∀ (s : ENode) (payload : List UInt8) (src : Addr) (amb : Ambient) (q : Packet),
      payload.head? = some letterT → Event.sent q ∈ (s.handleMessage payload src amb).events →
      ∃ sibling recTs xmtTs, s.findSibling src = some sibling ∧
        q.payload = buildUntaint (readTainted payload).count sibling.lastTsIsConsistent.2
          (readTainted payload).orgTs recTs xmtTs) ∧
    (∀ (count : ℤ) (views : Bool) (orgTs recTs xmtTs : Timespec), IsLongLong count →
      orgTs.IsStored → recTs.IsStored → xmtTs.IsStored →
      (buildUntaint count views orgTs recTs xmtTs).length = uMsgExpectedLen ∧
        readUntaint (buildUntaint count views orgTs recTs xmtTs) =
          ⟨count, views, orgTs, recTs, xmtTs⟩) ∧
    (∀ (s : ENode) (sleepTimeMs sleepMs : ℤ) (amb : Ambient) (q : Packet),
      Event.sent q ∈ (s.sendRecvDriftMessage sleepTimeMs sleepMs amb).2 →
      IsLongLong s.calibMsgCount → IsInt (sleepTimeMs + sleepMs) → (s.driftOrgTs amb).IsStored →
      q.payload.length = dMsgExpectedLen ∧
      ∀ (rest : List UInt8) (recTs xmtTs : Timespec), recTs.IsStored → xmtTs.IsStored →
        (readDrift (q.payload ++ rest)).echo =
            ⟨s.calibMsgCount, sleepTimeMs + sleepMs, s.driftOrgTs amb⟩ ∧
          (Server.replyTo (q.payload ++ rest) recTs xmtTs).length = dMsgExpectedLen ∧
          readDrift (Server.replyTo (q.payload ++ rest) recTs xmtTs) =
            ⟨s.calibMsgCount, sleepTimeMs + sleepMs, s.driftOrgTs amb, recTs, xmtTs⟩) := by
  refine ⟨?_, ?_, ?_, ?_⟩
  · intro s amb q hsent hcount horg
    rw [ENode.payload_of_sendTaintedMessages hsent]
    exact ⟨length_buildTainted _ _ _, readTainted_of_stored amb.dummyTs hcount horg⟩
  · intro s payload src amb q hhead hsent
    rw [ENode.handleMessage_tainted hhead] at hsent
    obtain ⟨sibling, recTs, xmtTs, hfind, rfl⟩ := ENode.eq_of_sent_handleTainted hsent
    exact ⟨sibling, recTs, xmtTs, hfind, rfl⟩
  · intro count views orgTs recTs xmtTs hcount horg hrec hxmt
    exact ⟨length_buildUntaint _ _ _ _ _, readUntaint_of_stored views hcount horg hrec hxmt⟩
  · intro s sleepTimeMs sleepMs amb q hsent hcount hsleep horg
    rw [ENode.payload_of_sendRecvDriftMessage hsent]
    refine ⟨length_buildDrift _ _ _ _, fun rest recTs xmtTs hrec hxmt => ?_⟩
    have hlen : (fieldAt (buildDrift s.calibMsgCount (sleepTimeMs + sleepMs) (s.driftOrgTs amb)
        amb.dummyTs ++ rest) (dMsgExpectedLen - 16) 16).length = 16 := by
      rw [fieldAt_append_left (by rw [length_buildDrift]; decide)]
      simp [fieldAt, dMsgExpectedLen]
    have hecho := echo_of_stored amb.dummyTs rest hcount hsleep horg
    rw [replyTo_of_echo hecho]
    exact ⟨hecho, length_buildDriftReply _ _ _ _ _ hlen,
      readDrift_of_stored _ hcount hsleep horg hrec hxmt⟩

/-- A node whose clock shows 1000 s. -/
def Scenario.requesting : ENode := { boot.node with tsRef := ⟨1000, 0⟩ }

open Scenario in
/-- The theorem at the first request of this node, and its answer. -/
theorem wire_formats_roundTrip_request :
    ∃ q, Event.sent q ∈ (requesting.sendRecvDriftMessage 0 7 (reading 0)).2 ∧
      readDrift (Server.replyTo q.payload ⟨1000, 5⟩ ⟨1000, 6⟩) =
        ⟨0, 7, ⟨1000, 0⟩, ⟨1000, 5⟩, ⟨1000, 6⟩⟩ := by
  have hstored (nsec : ℤ) (h : 0 ≤ nsec ∧ nsec < 10) : (⟨1000, nsec⟩ : Timespec).IsStored := by
    constructor <;> constructor <;> norm_num <;> omega
  have horg : requesting.driftOrgTs (reading 0) = ⟨1000, 0⟩ := by decide +kernel
  have hsent : Event.sent ⟨⟨"127.0.0.1", 12340⟩, buildDrift 0 7 ⟨1000, 0⟩ ⟨0, 0⟩⟩ ∈
      (requesting.sendRecvDriftMessage 0 7 (reading 0)).2 := by decide +kernel
  have hround := wire_formats_roundTrip.2.2.2 requesting 0 7 (reading 0) _ hsent
    (by constructor <;> decide) (by constructor <;> decide)
    (horg.symm ▸ hstored 0 (by decide))
  have hread := (hround.2 [] ⟨1000, 5⟩ ⟨1000, 6⟩ (hstored 5 (by decide))
    (hstored 6 (by decide))).2.2
  rw [List.append_nil, horg] at hread
  exact ⟨_, hsent, hread⟩

end TriHaRd
