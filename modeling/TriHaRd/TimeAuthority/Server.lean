-- SUMMARY: The Time Authority as a transition system: the receive loop with its one buffer, and the handler threads.
import TriHaRd.Base.Aead
import TriHaRd.Base.Run
import TriHaRd.Node.State
import TriHaRd.Wire

/-!
# The server of the Time Authority

`main` receives every datagram into one array on its stack, and starts a thread
of `handleMsg` with a pointer to that array. The thread sleeps for half of the
network delay, and only then decrypts. Its sleeps are not modelled: they are the
other steps that happen in between.

Before it answers, the thread prints the time of the request and its own. `gmtime`
returns `NULL` for a time whose year no `int` can hold, and `strftime` reads
through that pointer, which ends the process.

The key and the nonce are fixed, so the cipher is a parameter.
-/

namespace TriHaRd

/-- `sizeof(buff)` of `main`, and of `buff_dec`. -/
def serverBuffLen : ℕ := 1024

/-- How far a thread of `handleMsg` has got. -/
inductive HandlerPc where
  | delayed
  /-- After the decryption, with the contents of `buff_dec`. -/
  | decrypted (buffDec : List UInt8)
  | returned
deriving DecidableEq, Repr

/-- A thread of `handleMsg` with the arguments that it got by value. -/
structure Handler where
  cliAddr : Addr
  readStatus : ℕ
  pc : HandlerPc
deriving DecidableEq, Repr

/-- `buff` and `threads` of the server. `running` ends with the process. -/
structure Server where
  buff : List UInt8
  threads : List Handler
  running : Bool
deriving DecidableEq, Repr

-- ---------------------------------------------------------------------------
-- gmtime
-- ---------------------------------------------------------------------------

/-- The days from the first of January 1970 to the first of January of `year`. -/
def daysToYear (year : ℤ) : ℤ :=
  365 * (year - 1970) + (leapYearsBefore year - leapYearsBefore 1970)
where
  /-- The leap years up to `year - 1`, counted from the year 1. -/
  leapYearsBefore (year : ℤ) : ℤ := (year - 1) / 4 - (year - 1) / 100 + (year - 1) / 400

/-- `gmtime` does not return `NULL`: `tm_year`, which counts from 1900, fits in an `int`. -/
def GmtimeHolds (tvSec : ℤ) : Prop :=
  daysToYear (1900 - 2 ^ 31) * 86400 ≤ tvSec ∧ tvSec < daysToYear (1900 + 2 ^ 31) * 86400

instance (tvSec : ℤ) : Decidable (GmtimeHolds tvSec) := inferInstanceAs (Decidable (_ ∧ _))

example (tvSec : ℤ) :
    GmtimeHolds tvSec ↔ -67768040609740800 ≤ tvSec ∧ tvSec < 67768036191676800 := Iff.rfl

-- ---------------------------------------------------------------------------
-- The server
-- ---------------------------------------------------------------------------

inductive ServerAction where
  | recvfrom (datagram : List UInt8) (cliAddr : Addr)
  | recvError
  /-- Thread `i` decrypts. `stack` is what `buff_dec` held before. -/
  | decrypt (i : ℕ) (stack : List UInt8)
  /-- Thread `i` answers, with the readings of the clock and the success of `sendto`. -/
  | reply (i : ℕ) (recTs xmtTs : Timespec) (sendOk : Bool)
  /-- Thread `i` prints a time that `gmtime` returns `NULL` for. -/
  | crash (i : ℕ) (recTs : Timespec)
deriving DecidableEq, Repr

/-- A datagram handed to `sendto`. -/
structure Datagram where
  dst : Addr
  bytes : List UInt8
deriving DecidableEq, Repr

namespace Server

def initial (buff : List UInt8) : Server := ⟨buff, [], true⟩

/-- The array after `recvfrom` has written to its beginning. -/
def receive (buff datagram : List UInt8) : List UInt8 :=
  datagram.take serverBuffLen ++ buff.drop datagram.length

/-- The plaintext of the reply, written over the decrypted request. -/
def replyTo (buffDec : List UInt8) (recTs xmtTs : Timespec) : List UInt8 :=
  let msg := readDrift buffDec
  buildDriftReply msg.count msg.sleepTime msg.orgTs recTs xmtTs
    (LittleEndian.fieldAt buffDec (dMsgExpectedLen - 16) 16)

/-- Both times that a thread prints before it answers have a calendar date. -/
def Printable (buffDec : List UInt8) (recTs : Timespec) : Prop :=
  GmtimeHolds (readDrift buffDec).orgTs.tvSec ∧ GmtimeHolds recTs.tvSec

instance (buffDec : List UInt8) (recTs : Timespec) : Decidable (Printable buffDec recTs) :=
  inferInstanceAs (Decidable (_ ∧ _))

def setThread (s : Server) (i : ℕ) (h : Handler) : Server :=
  { s with threads := s.threads.set i h }

variable (aead : Aead)

/-- `none` means that the action cannot be taken now. -/
def step (s : Server) (a : ServerAction) : Option (Server × List Datagram) :=
  if s.running then
    match a with
    | .recvfrom datagram cliAddr =>
      let readStatus := min datagram.length serverBuffLen
      some ({ s with
        buff := receive s.buff datagram
        threads := s.threads ++ [⟨cliAddr, readStatus, .delayed⟩] }, [])
    | .recvError => some ({ s with running := false }, [])
    | .decrypt i stack =>
      match s.threads[i]? with
      | some ⟨cliAddr, readStatus, .delayed⟩ =>
        match aead.decrypt (s.buff.take readStatus) with
        | some m =>
          some (s.setThread i ⟨cliAddr, readStatus, .decrypted (m ++ stack.drop m.length)⟩, [])
        | none => some (s.setThread i ⟨cliAddr, readStatus, .returned⟩, [])
      | _ => none
    | .reply i recTs xmtTs sendOk =>
      match s.threads[i]? with
      | some ⟨cliAddr, readStatus, .decrypted buffDec⟩ =>
        if Printable buffDec recTs then
          let sent : List Datagram :=
            if sendOk then [⟨cliAddr, aead.encrypt (replyTo buffDec recTs xmtTs)⟩] else []
          some (s.setThread i ⟨cliAddr, readStatus, .returned⟩, sent)
        else none
      | _ => none
    | .crash i recTs =>
      match s.threads[i]? with
      | some ⟨_, _, .decrypted buffDec⟩ =>
        if Printable buffDec recTs then none else some ({ s with running := false }, [])
      | _ => none
  else none

end Server

/-- The steps of the server. -/
abbrev ServerStep := Lts.Transition Server ServerAction Datagram

abbrev ServerRun (aead : Aead) : Server → List ServerStep → Server → Prop :=
  Lts.Run (Server.step aead)

end TriHaRd
