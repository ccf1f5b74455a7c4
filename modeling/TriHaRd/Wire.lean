-- SUMMARY: The byte layout of the Tainted, Untaint and Drift messages, and what their readers recover.
import TriHaRd.Base.LittleEndian
import TriHaRd.Timespec

/-!
# Wire formats

A message is a tag followed by the members that the sender copies one after the
other into its buffer (little-endian, as on x86-64). The receiver walks a cursor
over the same members. The builders and readers are kept apart, as in the
source: nothing but the round-trip lemmas says that their cursors agree.
-/

namespace TriHaRd

open LittleEndian

/-- The bytes of a string literal, without the terminating zero. -/
def chars (s : String) : List UInt8 := s.toList.map fun c => UInt8.ofNat c.toNat

def taintedStr : List UInt8 := chars "Tainted"
def untaintingStr : List UInt8 := chars "Untaint"
def driftStr : List UInt8 := chars "Drift"
def siblingStr : List UInt8 := chars "Sibling"

def tMsgExpectedLen : ℕ := 79
def uMsgExpectedLen : ℕ := 80
def dMsgExpectedLen : ℕ := 81

/-! ## Members -/

/-- The value of a `long long` after it has been stored in eight bytes. -/
def wireLongLong (x : ℤ) : ℤ := Int.bmod x (256 ^ 8)

/-- The value of a `timespec` after it has been stored in sixteen bytes. -/
def wireTimespec (ts : Timespec) : Timespec := ⟨wireLongLong ts.tvSec, wireLongLong ts.tvNsec⟩

/-- The same for an `int`. -/
def wireInt (x : ℤ) : ℤ := Int.bmod x (256 ^ 4)

def longLongBytes (x : ℤ) : List UInt8 := encodeInt 8 x

def intBytes (x : ℤ) : List UInt8 := encodeInt 4 x

def boolBytes (b : Bool) : List UInt8 := [if b then 1 else 0]

def timespecBytes (ts : Timespec) : List UInt8 := longLongBytes ts.tvSec ++ longLongBytes ts.tvNsec

def readLongLong (buff : List UInt8) (cursor : ℕ) : ℤ := decodeInt 8 (fieldAt buff cursor 8)

def readInt (buff : List UInt8) (cursor : ℕ) : ℤ := decodeInt 4 (fieldAt buff cursor 4)

def readBool (buff : List UInt8) (cursor : ℕ) : Bool := ofBytes (fieldAt buff cursor 1) != 0

def readTimespec (buff : List UInt8) (cursor : ℕ) : Timespec :=
  ⟨readLongLong buff cursor, readLongLong buff (cursor + 8)⟩

@[simp] theorem length_longLongBytes (x : ℤ) : (longLongBytes x).length = 8 := length_encodeInt 8 x

@[simp] theorem length_intBytes (x : ℤ) : (intBytes x).length = 4 := length_encodeInt 4 x

@[simp] theorem length_boolBytes (b : Bool) : (boolBytes b).length = 1 := rfl

@[simp] theorem length_timespecBytes (ts : Timespec) : (timespecBytes ts).length = 16 := by
  simp [timespecBytes]

theorem readLongLong_append {init : List UInt8} {cursor : ℕ} (x : ℤ) (rest : List UInt8)
    (h : init.length = cursor) :
    readLongLong (init ++ (longLongBytes x ++ rest)) cursor = wireLongLong x := by
  rw [readLongLong, fieldAt_append h (length_longLongBytes x), longLongBytes, decodeInt_encodeInt,
    wireLongLong]

theorem readInt_append {init : List UInt8} {cursor : ℕ} (x : ℤ) (rest : List UInt8)
    (h : init.length = cursor) :
    readInt (init ++ (intBytes x ++ rest)) cursor = wireInt x := by
  rw [readInt, fieldAt_append h (length_intBytes x), intBytes, decodeInt_encodeInt, wireInt]

theorem readBool_append {init rest : List UInt8} {cursor : ℕ} (b : Bool)
    (h : init.length = cursor) :
    readBool (init ++ (boolBytes b ++ rest)) cursor = b := by
  rw [readBool, fieldAt_append h (length_boolBytes b)]
  cases b <;> rfl

theorem readTimespec_append {init rest : List UInt8} {cursor : ℕ} (ts : Timespec)
    (h : init.length = cursor) :
    readTimespec (init ++ (timespecBytes ts ++ rest)) cursor = wireTimespec ts := by
  have hsec := readLongLong_append ts.tvSec (longLongBytes ts.tvNsec ++ rest) h
  have hlen : (init ++ longLongBytes ts.tvSec).length = cursor + 8 := by simp [h]
  have hnsec := readLongLong_append ts.tvNsec rest hlen
  rw [List.append_assoc] at hnsec
  rw [readTimespec, timespecBytes, List.append_assoc, hsec, hnsec, wireTimespec]

/-- A member that has been read from a message is stored again without change. -/
@[simp] theorem wireLongLong_readLongLong (buff : List UInt8) (cursor : ℕ) :
    wireLongLong (readLongLong buff cursor) = readLongLong buff cursor := by
  rw [wireLongLong, readLongLong, decodeInt, Int.bmod_bmod]

@[simp] theorem wireInt_readInt (buff : List UInt8) (cursor : ℕ) :
    wireInt (readInt buff cursor) = readInt buff cursor := by
  rw [wireInt, readInt, decodeInt, Int.bmod_bmod]

@[simp] theorem wireTimespec_readTimespec (buff : List UInt8) (cursor : ℕ) :
    wireTimespec (readTimespec buff cursor) = readTimespec buff cursor := by
  simp [wireTimespec, readTimespec]

/-- A count that has not overflowed is stored without change. -/
theorem wireLongLong_of_range {x : ℤ} (hlow : -2 ^ 63 ≤ x) (hhigh : x < 2 ^ 63) :
    wireLongLong x = x := by
  refine Int.bmod_eq_of_le ?_ ?_
  · norm_num
    omega
  · norm_num
    omega

/-! ## Tainted -/

structure TaintedMsg where
  count : ℤ
  orgTs : Timespec
deriving DecidableEq, Repr

/-- The buffer of `sendTaintedMessages`. The three last members are copies of the
    uninitialised `dummy_ts`. -/
def buildTainted (count : ℤ) (orgTs dummyTs : Timespec) : List UInt8 :=
  taintedStr ++ (longLongBytes count ++ (timespecBytes orgTs ++
    (timespecBytes dummyTs ++ (timespecBytes dummyTs ++ timespecBytes dummyTs))))

def readTainted (buff : List UInt8) : TaintedMsg :=
  let offsetRecv := taintedStr.length
  let recvdTaintedMsgCount := readLongLong buff offsetRecv
  let offsetRecv := offsetRecv + 8
  let orgTs := readTimespec buff offsetRecv
  ⟨recvdTaintedMsgCount, orgTs⟩

@[simp] theorem length_buildTainted (count : ℤ) (orgTs dummyTs : Timespec) :
    (buildTainted count orgTs dummyTs).length = tMsgExpectedLen := by
  simp [buildTainted, tMsgExpectedLen, show taintedStr.length = 7 from rfl]

theorem readTainted_buildTainted (count : ℤ) (orgTs dummyTs : Timespec) :
    readTainted (buildTainted count orgTs dummyTs) = ⟨wireLongLong count, wireTimespec orgTs⟩ := by
  have hcount : readLongLong (buildTainted count orgTs dummyTs) taintedStr.length =
      wireLongLong count := readLongLong_append count _ rfl
  have horg : readTimespec (buildTainted count orgTs dummyTs) (taintedStr.length + 8) =
      wireTimespec orgTs := by
    rw [buildTainted, ← List.append_assoc]
    exact readTimespec_append orgTs (by simp)
  simp only [readTainted, hcount, horg]

/-- An answer that copies the count sends it back without change. -/
theorem wireLongLong_readTainted (buff : List UInt8) :
    wireLongLong (readTainted buff).count = (readTainted buff).count := by
  simp only [readTainted, wireLongLong_readLongLong]

theorem wireTimespec_readTainted (buff : List UInt8) :
    wireTimespec (readTainted buff).orgTs = (readTainted buff).orgTs := by
  simp only [readTainted, wireTimespec_readTimespec]

/-! ## Untaint -/

structure UntaintMsg where
  count : ℤ
  viewsAsConsistent : Bool
  orgTs : Timespec
  recTs : Timespec
  xmtTs : Timespec
deriving DecidableEq, Repr

/-- The buffer of the reply in case 'T' of `handle_message`. The last member, for
    the reception time, is left at the zeros of the cleared buffer. -/
def buildUntaint (count : ℤ) (viewsAsConsistent : Bool) (orgTs recTs xmtTs : Timespec) :
    List UInt8 :=
  untaintingStr ++ (longLongBytes count ++ (boolBytes viewsAsConsistent ++
    (timespecBytes orgTs ++ (timespecBytes recTs ++
      (timespecBytes xmtTs ++ List.replicate 16 0)))))

def readUntaint (buff : List UInt8) : UntaintMsg :=
  let offsetRecv := untaintingStr.length
  let recvdTaintedMsgCount := readLongLong buff offsetRecv
  let offsetRecv := offsetRecv + 8
  let viewsAsConsistent := readBool buff offsetRecv
  let offsetRecv := offsetRecv + 1
  let orgTs := readTimespec buff offsetRecv
  let offsetRecv := offsetRecv + 16
  let recTs := readTimespec buff offsetRecv
  let offsetRecv := offsetRecv + 16
  let xmtTs := readTimespec buff offsetRecv
  ⟨recvdTaintedMsgCount, viewsAsConsistent, orgTs, recTs, xmtTs⟩

@[simp] theorem length_buildUntaint (count : ℤ) (views : Bool) (orgTs recTs xmtTs : Timespec) :
    (buildUntaint count views orgTs recTs xmtTs).length = uMsgExpectedLen := by
  simp [buildUntaint, uMsgExpectedLen, show untaintingStr.length = 7 from rfl]

theorem readUntaint_buildUntaint (count : ℤ) (views : Bool) (orgTs recTs xmtTs : Timespec) :
    readUntaint (buildUntaint count views orgTs recTs xmtTs) =
      ⟨wireLongLong count, views, wireTimespec orgTs, wireTimespec recTs, wireTimespec xmtTs⟩ := by
  have hcount : readLongLong (buildUntaint count views orgTs recTs xmtTs) untaintingStr.length =
      wireLongLong count := readLongLong_append count _ rfl
  have hviews : readBool (buildUntaint count views orgTs recTs xmtTs)
      (untaintingStr.length + 8) = views := by
    rw [buildUntaint, ← List.append_assoc]
    exact readBool_append views (by simp)
  have horg : readTimespec (buildUntaint count views orgTs recTs xmtTs)
      (untaintingStr.length + 8 + 1) = wireTimespec orgTs := by
    rw [buildUntaint, ← List.append_assoc, ← List.append_assoc]
    exact readTimespec_append orgTs (by simp)
  have hrec : readTimespec (buildUntaint count views orgTs recTs xmtTs)
      (untaintingStr.length + 8 + 1 + 16) = wireTimespec recTs := by
    rw [buildUntaint, ← List.append_assoc, ← List.append_assoc, ← List.append_assoc]
    exact readTimespec_append recTs (by simp)
  have hxmt : readTimespec (buildUntaint count views orgTs recTs xmtTs)
      (untaintingStr.length + 8 + 1 + 16 + 16) = wireTimespec xmtTs := by
    rw [buildUntaint, ← List.append_assoc, ← List.append_assoc, ← List.append_assoc,
      ← List.append_assoc]
    exact readTimespec_append xmtTs (by simp)
  simp only [readUntaint, hcount, hviews, horg, hrec, hxmt]

/-! ## Drift -/

structure DriftMsg where
  count : ℤ
  sleepTime : ℤ
  orgTs : Timespec
  recTs : Timespec
  xmtTs : Timespec
deriving DecidableEq, Repr

/-- The buffer of `send_recv_drift_message`. The three last members are copies of
    the uninitialised `dummy_ts`. -/
def buildDrift (count totalSleepTimeMs : ℤ) (orgTs dummyTs : Timespec) : List UInt8 :=
  driftStr ++ (longLongBytes count ++ (intBytes totalSleepTimeMs ++ (timespecBytes orgTs ++
    (timespecBytes dummyTs ++ (timespecBytes dummyTs ++ timespecBytes dummyTs)))))

def readDrift (buff : List UInt8) : DriftMsg :=
  let msgCursor := driftStr.length
  let recvdCalibMsgCount := readLongLong buff msgCursor
  let msgCursor := msgCursor + 8
  let msgSleepTime := readInt buff msgCursor
  let msgCursor := msgCursor + 4
  let orgTs := readTimespec buff msgCursor
  let msgCursor := msgCursor + 16
  let recTs := readTimespec buff msgCursor
  let msgCursor := msgCursor + 16
  let xmtTs := readTimespec buff msgCursor
  ⟨recvdCalibMsgCount, msgSleepTime, orgTs, recTs, xmtTs⟩

@[simp] theorem length_buildDrift (count totalSleepTimeMs : ℤ) (orgTs dummyTs : Timespec) :
    (buildDrift count totalSleepTimeMs orgTs dummyTs).length = dMsgExpectedLen := by
  simp [buildDrift, dMsgExpectedLen, show driftStr.length = 5 from rfl]

/-- The buffer that `handleMsg` of the Time Authority sends back. The last member, for
    the reception time, keeps the 16 bytes `recvTs` that stood there before. -/
def buildDriftReply (count sleepTime : ℤ) (orgTs recTs xmtTs : Timespec)
    (recvTs : List UInt8) : List UInt8 :=
  driftStr ++ (longLongBytes count ++ (intBytes sleepTime ++ (timespecBytes orgTs ++
    (timespecBytes recTs ++ (timespecBytes xmtTs ++ recvTs)))))

/-- The members of a request that the reply to it repeats. -/
structure Echo where
  count : ℤ
  sleepTime : ℤ
  orgTs : Timespec
deriving DecidableEq, Repr

def DriftMsg.echo (msg : DriftMsg) : Echo := ⟨msg.count, msg.sleepTime, msg.orgTs⟩

/-- Where these members end. -/
def echoLen : ℕ := driftStr.length + 8 + 4 + 16

theorem readDrift_buildDriftReply (count sleepTime : ℤ) (orgTs recTs xmtTs : Timespec)
    (recvTs : List UInt8) :
    readDrift (buildDriftReply count sleepTime orgTs recTs xmtTs recvTs) =
      ⟨wireLongLong count, wireInt sleepTime, wireTimespec orgTs, wireTimespec recTs,
        wireTimespec xmtTs⟩ := by
  have hcount : readLongLong (buildDriftReply count sleepTime orgTs recTs xmtTs recvTs)
      driftStr.length = wireLongLong count := readLongLong_append count _ rfl
  have hsleep : readInt (buildDriftReply count sleepTime orgTs recTs xmtTs recvTs)
      (driftStr.length + 8) = wireInt sleepTime := by
    rw [buildDriftReply, ← List.append_assoc]
    exact readInt_append sleepTime _ (by simp)
  have horg : readTimespec (buildDriftReply count sleepTime orgTs recTs xmtTs recvTs)
      (driftStr.length + 8 + 4) = wireTimespec orgTs := by
    rw [buildDriftReply, ← List.append_assoc, ← List.append_assoc]
    exact readTimespec_append orgTs (by simp)
  have hrec : readTimespec (buildDriftReply count sleepTime orgTs recTs xmtTs recvTs)
      (driftStr.length + 8 + 4 + 16) = wireTimespec recTs := by
    rw [buildDriftReply, ← List.append_assoc, ← List.append_assoc, ← List.append_assoc]
    exact readTimespec_append recTs (by simp)
  have hxmt : readTimespec (buildDriftReply count sleepTime orgTs recTs xmtTs recvTs)
      (driftStr.length + 8 + 4 + 16 + 16) = wireTimespec xmtTs := by
    rw [buildDriftReply, ← List.append_assoc, ← List.append_assoc, ← List.append_assoc,
      ← List.append_assoc]
    exact readTimespec_append xmtTs (by simp)
  simp only [readDrift, hcount, hsleep, horg, hrec, hxmt]

/-- A request has the layout of a reply, with `dummy_ts` where the times of the server go. -/
theorem buildDrift_eq_buildDriftReply (count totalSleepTimeMs : ℤ) (orgTs dummyTs : Timespec) :
    buildDrift count totalSleepTimeMs orgTs dummyTs =
      buildDriftReply count totalSleepTimeMs orgTs dummyTs dummyTs (timespecBytes dummyTs) := rfl

theorem length_buildDriftReply (count sleepTime : ℤ) (orgTs recTs xmtTs : Timespec)
    {recvTs : List UInt8} (h : recvTs.length = 16) :
    (buildDriftReply count sleepTime orgTs recTs xmtTs recvTs).length = dMsgExpectedLen := by
  simp [buildDriftReply, dMsgExpectedLen, show driftStr.length = 5 from rfl, h]

theorem echo_buildDriftReply (count sleepTime : ℤ) (orgTs recTs xmtTs : Timespec)
    (recvTs : List UInt8) :
    (readDrift (buildDriftReply count sleepTime orgTs recTs xmtTs recvTs)).echo =
      ⟨wireLongLong count, wireInt sleepTime, wireTimespec orgTs⟩ := by
  rw [readDrift_buildDriftReply]
  rfl

/-- A reply that copies these members from a buffer repeats them without change. -/
theorem echo_buildDriftReply_readDrift (buff : List UInt8) (recTs xmtTs : Timespec)
    (recvTs : List UInt8) :
    (readDrift (buildDriftReply (readDrift buff).count (readDrift buff).sleepTime
      (readDrift buff).orgTs recTs xmtTs recvTs)).echo = (readDrift buff).echo := by
  rw [echo_buildDriftReply]
  simp only [readDrift, DriftMsg.echo, wireLongLong_readLongLong, wireInt_readInt,
    wireTimespec_readTimespec]

/-- They are read from the bytes of the request, whatever stands behind it. -/
theorem echo_append {m : List UInt8} (h : echoLen ≤ m.length) (rest : List UInt8) :
    (readDrift (m ++ rest)).echo = (readDrift m).echo := by
  have hlonglong (cursor : ℕ) (hle : cursor + 8 ≤ m.length) :
      readLongLong (m ++ rest) cursor = readLongLong m cursor := by
    rw [readLongLong, readLongLong, fieldAt_append_left hle]
  have hint (cursor : ℕ) (hle : cursor + 4 ≤ m.length) :
      readInt (m ++ rest) cursor = readInt m cursor := by
    rw [readInt, readInt, fieldAt_append_left hle]
  have hlen : 33 ≤ m.length := h
  simp only [readDrift, DriftMsg.echo, readTimespec, show driftStr.length = 5 from rfl]
  rw [hlonglong 5 (by omega), hint (5 + 8) (by omega), hlonglong (5 + 8 + 4) (by omega),
    hlonglong (5 + 8 + 4 + 8) (by omega)]

/-! What a reader finds in a message is never computed by unification. -/

attribute [irreducible] readTainted readUntaint readDrift

end TriHaRd
