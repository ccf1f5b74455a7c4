-- SUMMARY: Which authentic payloads the Time Authority answers, and which of them it should.
import TriHaRd.TimeAuthority.Replies

/-!
# Payloads

`handleMsg` looks neither at the tag nor at the length of what it decrypts. It
reads its members at fixed offsets of `buff_dec` and answers with a Drift message,
also when the payload is another message, or ends before these offsets. Only a
time without a date keeps it from answering, a request as well as anything else.
-/

namespace TriHaRd

open Lts

/-- A Drift request has one length and begins with the tag. -/
def IsRequest (m : List UInt8) : Prop := m.length = dMsgExpectedLen ∧ driftStr <+: m

instance (m : List UInt8) : Decidable (IsRequest m) := inferInstanceAs (Decidable (_ ∧ _))

/-- An authentic datagram with a payload of this form. -/
def IsDriftReply (aead : Aead) (bytes : List UInt8) : Prop :=
  ∃ m ∈ aead.decrypt bytes, IsRequest m

instance (aead : Aead) (bytes : List UInt8) : Decidable (IsDriftReply aead bytes) :=
  inferInstanceAs (Decidable (∃ m ∈ aead.decrypt bytes, IsRequest m))

/-- The offset and the length of what `handleMsg` reads in `buff_dec` first: the count, the sleep
    time and the time of the request. -/
def Server.requestReads : List (ℕ × ℕ) :=
  [(driftStr.length, 8), (driftStr.length + 8, 4), (driftStr.length + 8 + 4, 16)]

/-- With what it reads for a reply: the reception time, which it encrypts as it stands there. -/
def Server.replyReads : List (ℕ × ℕ) := requestReads ++ [(dMsgExpectedLen - 16, 16)]

/-- All that a thread reads. A crash comes before the reply is built. -/
def Server.reads (buffDec : List UInt8) (recTs : Timespec) : List (ℕ × ℕ) :=
  if Printable buffDec recTs then replyReads else requestReads

/-- These reads lie within the payload. -/
def ReadsWithin (reads : List (ℕ × ℕ)) (m : List UInt8) : Prop :=
  ∀ read ∈ reads, read.1 + read.2 ≤ m.length

/-- The thread can answer now, and what it sends is a Drift reply. -/
def SendsReply (aead : Aead) (s : Server) (i : ℕ) (recTs xmtTs : Timespec) : Prop :=
  ∃ s' sent, Server.step aead s (.reply i recTs xmtTs true) = some (s', sent) ∧
    ∃ q ∈ sent, IsDriftReply aead q.bytes

/-- Thread `i`, which has decrypted the payload `m` into `buffDec`, sends a Drift reply exactly if
    `m` is a request, and reads nothing else. -/
def AnswersExactly (aead : Aead) (s : Server) (i : ℕ) (m buffDec : List UInt8)
    (recTs xmtTs : Timespec) : Prop :=
  (SendsReply aead s i recTs xmtTs ↔ IsRequest m) ∧ ReadsWithin (Server.reads buffDec recTs) m

/-- The payload has all members up to the time of the request, and this time and that of the server
    have dates exactly if the payload is a request. -/
def Answerable (m : List UInt8) (recTs : Timespec) : Prop :=
  echoLen ≤ m.length ∧ (IsRequest m ↔ Server.Printable m recTs)

/-- In the step, thread `i` decrypts the payload `m`. Its array `buff_dec` is whole. -/
def Decrypts (aead : Aead) (t : ServerStep) (i : ℕ) (m : List UInt8) : Prop :=
  ∃ stack cliAddr readStatus, t.act = .decrypt i stack ∧ stack.length = serverBuffLen ∧
    t.pre.threads[i]? = some ⟨cliAddr, readStatus, .delayed⟩ ∧
    aead.decrypt (t.pre.buff.take readStatus) = some m

/-! ## What the reply is built from -/

theorem isRequest_buildDrift (count totalSleepTimeMs : ℤ) (orgTs dummyTs : Timespec) :
    IsRequest (buildDrift count totalSleepTimeMs orgTs dummyTs) :=
  ⟨length_buildDrift _ _ _ _, List.prefix_append _ _⟩

theorem IsRequest.readsWithin {m : List UInt8} (h : IsRequest m) :
    ReadsWithin Server.replyReads m := by
  rw [ReadsWithin, h.1]
  decide

theorem readsWithin_requestReads {m : List UInt8} :
    ReadsWithin Server.requestReads m ↔ echoLen ≤ m.length := by
  rw [show echoLen = 33 from rfl]
  simp only [ReadsWithin, Server.requestReads, List.forall_mem_cons,
    show driftStr.length = 5 from rfl]
  constructor
  · exact fun h => h.2.2.1
  · exact fun h => ⟨by omega, by omega, h, by simp⟩

/-- Whether or not a reply follows, the request is read. -/
theorem ReadsWithin.echoLen_le {buffDec m : List UInt8} {recTs : Timespec}
    (h : ReadsWithin (Server.reads buffDec recTs) m) : echoLen ≤ m.length := by
  rw [← readsWithin_requestReads]
  intro read hread
  apply h
  unfold Server.reads
  split
  · exact List.mem_append_left _ hread
  · exact hread

/-- The reply is a function of the bytes that are read. -/
theorem Server.replyTo_congr {buffDec buffDec' : List UInt8} (recTs xmtTs : Timespec)
    (h : ∀ read ∈ replyReads, LittleEndian.fieldAt buffDec read.1 read.2 =
      LittleEndian.fieldAt buffDec' read.1 read.2) :
    replyTo buffDec recTs xmtTs = replyTo buffDec' recTs xmtTs := by
  simp only [replyReads, requestReads, List.cons_append, List.nil_append,
    List.forall_mem_cons] at h
  obtain ⟨hcount, hsleep, horg, hrecv, _⟩ := h
  have htimespec (buff : List UInt8) : readTimespec buff (driftStr.length + 8 + 4) =
      readTimespec (LittleEndian.fieldAt buff (driftStr.length + 8 + 4) 16) 0 := by
    simp only [readTimespec, readLongLong, LittleEndian.fieldAt, List.drop_take, List.take_take,
      List.drop_drop]
    rfl
  have hmsg : (readDrift buffDec).echo = (readDrift buffDec').echo := by
    simp only [readDrift, DriftMsg.echo, htimespec, horg]
    rw [readLongLong, readLongLong, hcount, readInt, readInt, hsleep]
  obtain ⟨hcount', hsleep', horg'⟩ := Echo.mk.inj hmsg
  rw [replyTo, replyTo, hcount', hsleep', horg', hrecv]

/-- If all that is read lies within the payload, what stands behind it does not show. -/
theorem Server.replyTo_append {m : List UInt8} (h : ReadsWithin replyReads m) (rest rest' : List UInt8)
    (recTs xmtTs : Timespec) :
    replyTo (m ++ rest) recTs xmtTs = replyTo (m ++ rest') recTs xmtTs := by
  apply replyTo_congr
  intro read hread
  rw [LittleEndian.fieldAt_append_left (h read hread),
    LittleEndian.fieldAt_append_left (h read hread)]

/-- Whatever has been decrypted, the reply has the form of a Drift message. -/
theorem Server.isRequest_replyTo {buffDec : List UInt8} (h : dMsgExpectedLen ≤ buffDec.length)
    (recTs xmtTs : Timespec) : IsRequest (replyTo buffDec recTs xmtTs) := by
  have hrecvTs : (LittleEndian.fieldAt buffDec (dMsgExpectedLen - 16) 16).length = 16 := by
    rw [LittleEndian.fieldAt, List.length_take, List.length_drop]
    rw [dMsgExpectedLen] at h ⊢
    omega
  exact ⟨length_buildDriftReply _ _ _ _ _ hrecvTs, List.prefix_append _ _⟩

/-! ## From the decryption to the reply -/

/-- Thread `i` has decrypted into `buffDec`, and may have answered. -/
def HasDecrypted (i : ℕ) (buffDec : List UInt8) (s : Server) : Prop :=
  ∃ cliAddr readStatus, s.threads[i]? = some ⟨cliAddr, readStatus, .decrypted buffDec⟩ ∨
    s.threads[i]? = some ⟨cliAddr, readStatus, .returned⟩

variable {aead : Aead} {t : ServerStep} {i : ℕ} {m buffDec : List UInt8}

theorem HasDecrypted.of_decrypts (hs : t.IsStep (Server.step aead)) (h : Decrypts aead t i m) :
    ∃ rest, serverBuffLen ≤ (m ++ rest).length ∧ HasDecrypted i (m ++ rest) t.post := by
  obtain ⟨stack, cliAddr, readStatus, hact, hstack, hthread, hdecrypt⟩ := h
  refine ⟨stack.drop m.length, ?_, cliAddr, readStatus, .inl ?_⟩
  · rw [List.length_append, List.length_drop]
    omega
  · have hi : i < t.pre.threads.length := (List.getElem?_eq_some_iff.mp hthread).1
    simp only [Transition.IsStep, Server.step, hact, hthread, hdecrypt] at hs
    split at hs
    case isFalse => cases hs
    rw [← (Prod.mk.inj (Option.some.inj hs)).1]
    exact List.getElem?_set_self hi

theorem HasDecrypted.step (hs : t.IsStep (Server.step aead)) (h : HasDecrypted i buffDec t.pre) :
    HasDecrypted i buffDec t.post := by
  obtain ⟨cliAddr, readStatus, hthread⟩ := h
  obtain ⟨pre, act, events, post⟩ := t
  simp only [Transition.IsStep, Server.step] at hs hthread ⊢
  have hi : i < pre.threads.length := by
    rcases hthread with h | h <;> exact (List.getElem?_eq_some_iff.mp h).1
  have hother {j : ℕ} {k : Handler} (hne : j ≠ i) :
      HasDecrypted i buffDec (pre.setThread j k) := by
    refine ⟨cliAddr, readStatus, ?_⟩
    rwa [Server.setThread, List.getElem?_set_ne hne]
  split at hs
  case isFalse => cases hs
  cases act with
  | recvfrom datagram src =>
      obtain ⟨rfl, rfl⟩ := Prod.mk.inj (Option.some.inj hs)
      refine ⟨cliAddr, readStatus, ?_⟩
      rwa [List.getElem?_append_left hi]
  | recvError =>
      obtain ⟨rfl, rfl⟩ := Prod.mk.inj (Option.some.inj hs)
      exact ⟨cliAddr, readStatus, hthread⟩
  | decrypt j stack =>
      simp only at hs
      split at hs
      case h_2 => cases hs
      case h_1 src status hdelayed =>
        have hne : j ≠ i := by
          rintro rfl
          rcases hthread with h | h <;> simp [h] at hdelayed
        split at hs
        · obtain ⟨rfl, rfl⟩ := Prod.mk.inj (Option.some.inj hs)
          exact hother hne
        · obtain ⟨rfl, rfl⟩ := Prod.mk.inj (Option.some.inj hs)
          exact hother hne
  | reply j recTs xmtTs sendOk =>
      simp only at hs
      split at hs
      case h_2 => cases hs
      case h_1 src status found hdecrypted =>
        split at hs
        case isFalse => cases hs
        obtain ⟨rfl, rfl⟩ := Prod.mk.inj (Option.some.inj hs)
        by_cases hne : j = i
        · subst hne
          exact ⟨src, status, .inr (List.getElem?_set_self hi)⟩
        · exact hother hne
  | crash j recTs =>
      simp only at hs
      split at hs
      case h_2 => cases hs
      split at hs
      · cases hs
      · obtain ⟨rfl, rfl⟩ := Prod.mk.inj (Option.some.inj hs)
        exact ⟨cliAddr, readStatus, hthread⟩

/-- A thread that has decrypted holds the payload and what stands behind it. -/
theorem exists_buffDec {s₀ s : Server} {tr : List ServerStep} {d : ServerStep}
    (hrun : ServerRun aead s₀ tr s) (hd : d ∈ tr) (hdecrypts : Decrypts aead d i m)
    {cliAddr : Addr} {readStatus : ℕ}
    (hthread : s.threads[i]? = some ⟨cliAddr, readStatus, .decrypted buffDec⟩) :
    serverBuffLen ≤ buffDec.length ∧ ∃ rest, buffDec = m ++ rest := by
  obtain ⟨before, after, rfl⟩ := List.append_of_mem hd
  obtain ⟨_, hstep, hafter⟩ := hrun.split_at
  obtain ⟨rest, hlength, hhas⟩ := HasDecrypted.of_decrypts hstep hdecrypts
  obtain ⟨_, _, hend⟩ := hafter.invariant (fun _ hs h => HasDecrypted.step hs h) hhas
  rw [hthread] at hend
  rcases hend with hsame | hreturned
  · obtain rfl : buffDec = m ++ rest := by simpa using congrArg (Option.map Handler.pc) hsame
    exact ⟨hlength, rest, rfl⟩
  · exact absurd (congrArg (Option.map Handler.pc) hreturned) (by simp)

variable {s : Server} {cliAddr : Addr} {readStatus : ℕ} {recTs : Timespec}

/-- A thread that has decrypted answers, if it can print the two times, and else it ends the
    process. Whatever it has decrypted, the answer is a Drift reply. -/
theorem sendsReply_iff (hrunning : s.running = true)
    (hthread : s.threads[i]? = some ⟨cliAddr, readStatus, .decrypted buffDec⟩)
    (hwhole : serverBuffLen ≤ buffDec.length) (recTs xmtTs : Timespec) :
    SendsReply aead s i recTs xmtTs ↔ Server.Printable buffDec recTs := by
  have hlen : dMsgExpectedLen ≤ buffDec.length := le_trans (by decide) hwhole
  unfold SendsReply
  simp only [Server.step, hrunning, hthread, if_true]
  constructor
  · rintro ⟨s', sent, hstep, _⟩
    by_contra hprint
    rw [if_neg hprint] at hstep
    cases hstep
  · intro hprint
    rw [if_pos hprint]
    exact ⟨_, _, rfl, _, List.mem_singleton_self _, _, aead.decrypt_encrypt _,
      Server.isRequest_replyTo hlen recTs xmtTs⟩

theorem crash_iff (hrunning : s.running = true)
    (hthread : s.threads[i]? = some ⟨cliAddr, readStatus, .decrypted buffDec⟩) (recTs : Timespec) :
    Server.step aead s (.crash i recTs) = some ({ s with running := false }, []) ↔
      ¬ Server.Printable buffDec recTs := by
  simp only [Server.step, hrunning, hthread, if_true]
  split
  case isTrue hprint =>
    refine iff_of_false (fun h => ?_) (not_not.mpr hprint)
    cases h
  case isFalse hprint => exact iff_of_true rfl hprint

/-- In every run, a thread answers its payload as it should exactly when the dates tell requests
    from other payloads. -/
theorem answersExactly_iff {s₀ : Server} {tr : List ServerStep} {d : ServerStep}
    (hrun : ServerRun aead s₀ tr s) (hd : d ∈ tr) (hdecrypts : Decrypts aead d i m)
    (hrunning : s.running = true)
    (hthread : s.threads[i]? = some ⟨cliAddr, readStatus, .decrypted buffDec⟩)
    (recTs xmtTs : Timespec) :
    AnswersExactly aead s i m buffDec recTs xmtTs ↔ Answerable m recTs := by
  obtain ⟨hwhole, rest, hbuffDec⟩ := exists_buffDec hrun hd hdecrypts hthread
  have hprintable (hlen : echoLen ≤ m.length) :
      Server.Printable buffDec recTs ↔ Server.Printable m recTs := by
    have horg : (readDrift buffDec).orgTs = (readDrift m).orgTs := by
      rw [hbuffDec]
      exact congrArg Echo.orgTs (echo_append hlen rest)
    rw [Server.Printable, Server.Printable, horg]
  rw [AnswersExactly, sendsReply_iff hrunning hthread hwhole, Answerable]
  constructor
  · rintro ⟨hanswers, hreads⟩
    have hlen := hreads.echoLen_le
    exact ⟨hlen, hanswers.symm.trans (hprintable hlen)⟩
  · rintro ⟨hlen, hdated⟩
    have hanswers := (hprintable hlen).trans hdated.symm
    refine ⟨hanswers, ?_⟩
    unfold Server.reads
    split
    case isTrue hprint => exact (hanswers.mp hprint).readsWithin
    case isFalse => exact readsWithin_requestReads.mpr hlen

namespace Scenario

/-- A node's 'Sibling' message that reaches the Time Authority. -/
def strayed : List UInt8 := Aead.zeroTag.encrypt siblingStr

end Scenario

open Scenario in
/-- The theorem at a request. -/
theorem answersExactly_iff_request :
    ∃ tr s buffDec, ServerRun .zeroTag (.initial blank) tr s ∧
      AnswersExactly .zeroTag s 0 (buildDrift 0 0 ⟨1000, 0⟩ ⟨0, 0⟩) buffDec ⟨1003, 0⟩ ⟨1003, 0⟩ := by
  obtain ⟨tr, s, hrun, hs⟩ := exists_run_of_exec (Server.step .zeroTag) (.initial blank)
    [receiveB, .decrypt 0 blank]
    (fun tr s => s.running = true ∧
      s.threads[0]? = some ⟨⟨"127.0.0.1", 12346⟩, 97,
        .decrypted (buildDrift 0 0 ⟨1000, 0⟩ ⟨0, 0⟩ ++ blank.drop 81)⟩ ∧
      ∃ d ∈ tr, d.act = .decrypt 0 blank ∧
        d.pre.threads[0]? = some ⟨⟨"127.0.0.1", 12346⟩, 97, .delayed⟩ ∧
        Aead.zeroTag.decrypt (d.pre.buff.take 97) = some (buildDrift 0 0 ⟨1000, 0⟩ ⟨0, 0⟩))
    (by decide +kernel)
  obtain ⟨hrunning, hthread, d, hd, hact, hdelayed, hpayload⟩ := hs
  have hiff := answersExactly_iff hrun hd
    ⟨blank, _, _, hact, by simp [blank], hdelayed, hpayload⟩ hrunning hthread ⟨1003, 0⟩ ⟨1003, 0⟩
  refine ⟨tr, s, _, hrun, hiff.mpr ⟨by decide +kernel, ?_⟩⟩
  exact iff_of_true (isRequest_buildDrift _ _ _ _) (by decide +kernel)

open Scenario in
/-- A 'Sibling' message of seven bytes gets a Drift reply, whose members are what the array held
    behind these bytes. -/
theorem sibling_answered :
    ¬ ∀ (aead : Aead) (buff : List UInt8) (s : Server) (tr : List ServerStep) (d : ServerStep)
        (i : ℕ) (m buffDec : List UInt8) (cliAddr : Addr) (readStatus : ℕ) (recTs xmtTs : Timespec),
        ServerRun aead (.initial buff) tr s → d ∈ tr → Decrypts aead d i m → s.running = true →
          s.threads[i]? = some ⟨cliAddr, readStatus, .decrypted buffDec⟩ →
            AnswersExactly aead s i m buffDec recTs xmtTs := by
  intro h
  obtain ⟨tr, s, hrun, hs⟩ := exists_run_of_exec (Server.step .zeroTag) (.initial blank)
    [.recvfrom strayed ⟨"127.0.0.1", 12346⟩, .decrypt 0 blank]
    (fun tr s => s.running = true ∧
      s.threads[0]? = some ⟨⟨"127.0.0.1", 12346⟩, 23,
        .decrypted (siblingStr ++ blank.drop 7)⟩ ∧
      ∃ d ∈ tr, d.act = .decrypt 0 blank ∧
        d.pre.threads[0]? = some ⟨⟨"127.0.0.1", 12346⟩, 23, .delayed⟩ ∧
        Aead.zeroTag.decrypt (d.pre.buff.take 23) = some siblingStr)
    (by decide +kernel)
  obtain ⟨hrunning, hthread, d, hd, hact, hdelayed, hpayload⟩ := hs
  have hexact := h .zeroTag blank s tr d 0 siblingStr _ _ _ ⟨1003, 0⟩ ⟨1003, 0⟩ hrun hd
    ⟨blank, _, _, hact, by simp [blank], hdelayed, hpayload⟩ hrunning hthread
  have hsends : SendsReply .zeroTag s 0 ⟨1003, 0⟩ ⟨1003, 0⟩ :=
    (sendsReply_iff hrunning hthread (by decide +kernel) _ _).mpr (by decide +kernel)
  exact absurd (hexact.1.mp hsends) (by decide)

end TriHaRd
