-- SUMMARY: When a call keeps the discipline of socket_rwlock, and when it at least releases the lock as often as it acquires it.
import TriHaRd.Node.Socket

/-!
# The discipline of socket_rwlock

A call that meets no trouble tests `sock` and uses it under the reader lock. The
retry of `sendMessage` goes back into the loop without the lock, the error paths
use `sock` before they take it or without taking it at all, and `setup_socket`
prints `sock` after releasing the lock and keeps the lock when it fails.
-/

namespace TriHaRd

open Lock

-- ---------------------------------------------------------------------------
-- The conditions
-- ---------------------------------------------------------------------------

/-- `sendMessage` finds no socket, or its first `sendto` is neither tried again nor fails with an
    error that has the socket set up again. -/
def SendsAtOnce (sock : ℤ) (rounds : List SendRound) : Prop :=
  sock < 0 ∨ ∀ r ∈ rounds.head?, r.sendto.isFatal = false ∧ r.isRetried = false

instance (sock : ℤ) (rounds : List SendRound) : Decidable (SendsAtOnce sock rounds) :=
  inferInstanceAs (Decidable (_ ∨ _))

/-- The call takes the paths on which the discipline is kept. -/
def SocketCall.Untroubled : SocketCall → Prop
  | .setupSocket _ => False
  | .sendMessage sock rounds => SendsAtOnce sock rounds
  | .addSibling node addr _ =>
    addr.hostname = "127.0.0.1" ∧ addr.port = node.port ∨ (node.findSibling addr).isSome
  | .recvIteration sock a =>
    sock < 0 ∨ a.recvfrom.isFatal = false ∧
      (a.recvfrom.isError = false → a.recvfrom.status > 0 →
        a.node.replies a.payload a.src = true → SendsAtOnce a.sock a.rounds)

/-- The call fails to set up the socket, and returns with the lock. -/
def SetupAnswers.keepsLock (a : SetupAnswers) : Bool := a.socket < 0 || a.bind < 0

/-- A round after another one finds the lock that a failed `setup_socket` has kept, and the last
    round leaves none. -/
def SendReleases : List SendRound → Prop
  | [] => True
  | r :: rounds =>
    if r.isRetried then
      rounds = [] ∨ (r.sendto.isFatal && r.setup.keepsLock) = true ∧ SendReleases rounds
    else (r.sendto.isFatal && r.setup.keepsLock) = false

/-- The call takes the paths on which the lock is released as often as it is acquired. -/
def SocketCall.Releases : SocketCall → Prop
  | .setupSocket a => a.keepsLock = false
  | .sendMessage sock rounds => sock < 0 ∨ SendReleases rounds
  | .addSibling _ _ _ => True
  | .recvIteration sock a =>
    sock < 0 ∨ (a.recvfrom.isFatal && a.setup.keepsLock) = false ∧
      (a.recvfrom.isError = false → a.recvfrom.status > 0 →
        a.node.replies a.payload a.src = true → a.sock < 0 ∨ SendReleases a.rounds)

-- ---------------------------------------------------------------------------
-- Counting
-- ---------------------------------------------------------------------------

namespace Call

@[simp] theorem session_mk (ops : List SocketOp) (retval : Option ℤ) :
    session ⟨ops, retval⟩ = ⟨ops.map SocketOp.use, retval.isSome⟩ := rfl

@[simp] theorem session_after (ops : List SocketOp) (c : Call) :
    (c.after ops).session = ⟨ops.map SocketOp.use ++ c.session.uses, c.session.returned⟩ := by
  simp [session, after]

@[simp] theorem lockSession_mk (ops : List SocketOp) (retval : Option ℤ) :
    lockSession ⟨ops, retval⟩ =
      ⟨(ops.map SocketOp.use).filter (· ≠ .touch), retval.isSome⟩ := rfl

@[simp] theorem lockSession_after (ops : List SocketOp) (c : Call) :
    (c.after ops).lockSession =
      ⟨(ops.map SocketOp.use).filter (· ≠ .touch) ++ c.lockSession.uses,
        c.lockSession.returned⟩ := by
  simp [lockSession]

end Call

/-- Wherever the loop begins, it goes on to `sendto`. -/
theorem sendLoop_session (rounds : List SendRound) :
    ∃ uses returned, (sendLoop rounds).session = ⟨.touch :: uses, returned⟩ := by
  cases rounds with
  | nil => exact ⟨[], false, rfl⟩
  | cons r rounds => exact ⟨_, _, rfl⟩

/-- The loop begins with the lock, and gives it back after the first answer. -/
theorem sendLoop_kept_iff (rounds : List SendRound) :
    (sendLoop rounds).session.KeptFrom 1 ↔
      ∀ r ∈ rounds.head?, r.sendto.isFatal = false ∧ r.isRetried = false := by
  cases rounds with
  | nil => simp [sendLoop, SocketOp.use]
  | cons r rounds =>
      cases hfatal : r.sendto.isFatal with
      | true => simp [sendLoop, SendRound.ops, hfatal, SocketOp.use]
      | false =>
          cases hretried : r.isRetried with
          | true =>
              obtain ⟨uses, returned, hrest⟩ := sendLoop_session rounds
              simp [sendLoop, SendRound.ops, hfatal, hretried, SocketOp.use, hrest]
          | false => simp [sendLoop, SendRound.ops, hfatal, hretried, SocketOp.use]

theorem sendMessage_kept_iff (sock : ℤ) (rounds : List SendRound) :
    (sendMessageCall sock rounds).session.KeptFrom 0 ↔ SendsAtOnce sock rounds := by
  unfold sendMessageCall SendsAtOnce
  split_ifs with hsock
  · simp [hsock, SocketOp.use]
  · simp [hsock, SocketOp.use, sendLoop_kept_iff]

/-- A call keeps the discipline of the lock on the untroubled paths, and on no others. -/
theorem disciplined_iff_untroubled (c : SocketCall) :
    c.call.session.Disciplined ↔ c.Untroubled := by
  rw [Session.disciplined_iff]
  cases c with
  | setupSocket a =>
      simp only [SocketCall.call, SocketCall.Untroubled, TriHaRd.setupSocket]
      split_ifs <;> simp [SocketOp.use]
  | sendMessage sock rounds => exact sendMessage_kept_iff sock rounds
  | addSibling node addr sendto =>
      simp only [SocketCall.call, SocketCall.Untroubled, ENode.addSiblingCall]
      split_ifs <;> simp_all [SocketOp.use]
  | recvIteration sock a =>
      simp only [SocketCall.call, SocketCall.Untroubled, TriHaRd.recvIteration]
      split_ifs with hsock herror hfatal hstatus
      · simp [hsock, SocketOp.use]
      · simp [hsock, hfatal, SocketOp.use]
      · simp [hsock, hfatal, herror, SocketOp.use]
      · unfold ENode.handleMessageCall
        split_ifs with hreplies
        · simp [hsock, herror, hstatus, hreplies, SocketOp.use, Answer.isFatal,
            sendMessage_kept_iff]
        · simp [hsock, herror, hreplies, SocketOp.use, Answer.isFatal]
      · simp [hsock, herror, hstatus, SocketOp.use, Answer.isFatal]

/-- An `EAGAIN`, and then a success. -/
theorem undisciplined_retry : ¬ ∀ c : SocketCall, c.call.session.Disciplined := by
  intro h
  exact absurd (h (.sendMessage 3 [⟨⟨-1, eagain⟩, ⟨3, 0, 0⟩, false⟩, ⟨⟨53, 0⟩, ⟨3, 0, 0⟩, false⟩]))
    (by decide)

-- ---------------------------------------------------------------------------
-- The balance of the lock
-- ---------------------------------------------------------------------------

theorem setupSocket_locks (a : SetupAnswers) :
    ((setupSocket a).ops.map SocketOp.use).filter (· ≠ .touch) =
      if a.keepsLock then [.acquire] else [.acquire, .release] := by
  unfold setupSocket SetupAnswers.keepsLock
  by_cases hsocket : a.socket < 0
  · simp [hsocket, SocketOp.use]
  · by_cases hbind : a.bind < 0 <;> simp [hsocket, hbind, SocketOp.use]

/-- A round that does not find the lock releases it all the same. -/
theorem sendLoop_releases_zero (rounds : List SendRound) :
    (sendLoop rounds).lockSession.KeptFrom 0 ↔ rounds = [] := by
  cases rounds with
  | nil => simp [sendLoop, SocketOp.use]
  | cons r rounds => simp [sendLoop, SendRound.ops, SocketOp.use]

theorem sendLoop_releases_iff (rounds : List SendRound) :
    (sendLoop rounds).lockSession.KeptFrom 1 ↔ SendReleases rounds := by
  induction rounds with
  | nil => simp [sendLoop, SendReleases, SocketOp.use]
  | cons r rounds ih =>
      have hsetup := setupSocket_locks r.setup
      have hzero := sendLoop_releases_zero rounds
      have hnil : rounds = [] → SendReleases rounds := by rintro rfl; trivial
      cases hfatal : r.sendto.isFatal with
      | true =>
          cases hkeeps : r.setup.keepsLock <;> cases hretried : r.isRetried <;>
            simp_all [sendLoop, SendRound.ops, SendReleases, SocketOp.use]
      | false =>
          cases hretried : r.isRetried <;>
            simp_all [sendLoop, SendRound.ops, SendReleases, SocketOp.use]

theorem sendMessage_releases_iff (sock : ℤ) (rounds : List SendRound) :
    (sendMessageCall sock rounds).lockSession.KeptFrom 0 ↔ sock < 0 ∨ SendReleases rounds := by
  unfold sendMessageCall
  split_ifs with hsock
  · simp [hsock, SocketOp.use]
  · simp [hsock, SocketOp.use, sendLoop_releases_iff]

/-- Whatever it does with `sock`, a call never releases the lock without holding it and returns
    without it exactly on these paths. -/
theorem balanced_iff_releases (c : SocketCall) :
    c.call.lockSession.Disciplined ↔ c.Releases := by
  rw [Session.disciplined_iff]
  cases c with
  | setupSocket a =>
      simp only [SocketCall.call, SocketCall.Releases, Call.lockSession, Call.session,
        setupSocket_locks]
      have hreturned : (TriHaRd.setupSocket a).retval.isSome = true := by
        unfold TriHaRd.setupSocket
        split_ifs <;> rfl
      cases hkeeps : a.keepsLock <;> simp [hreturned]
  | sendMessage sock rounds => exact sendMessage_releases_iff sock rounds
  | addSibling node addr sendto =>
      simp only [SocketCall.call, SocketCall.Releases, ENode.addSiblingCall]
      split_ifs <;> simp [SocketOp.use]
  | recvIteration sock a =>
      have hsetup := setupSocket_locks a.setup
      simp only [SocketCall.call, SocketCall.Releases, TriHaRd.recvIteration]
      split_ifs with hsock herror hfatal hstatus
      · simp [hsock, SocketOp.use]
      · cases hkeeps : a.setup.keepsLock <;> simp_all [SocketOp.use]
      · simp [hsock, hfatal, herror, SocketOp.use]
      · unfold ENode.handleMessageCall
        split_ifs with hreplies
        · simp [hsock, herror, hstatus, hreplies, SocketOp.use, Answer.isFatal,
            sendMessage_releases_iff]
        · simp [hsock, herror, hreplies, SocketOp.use, Answer.isFatal]
      · simp [hsock, herror, hstatus, SocketOp.use, Answer.isFatal]

end TriHaRd
