-- SUMMARY: When the replies of the Time Authority repeat the requests that they answer.
import TriHaRd.TimeAuthority.Server
import Mathlib.Logic.Function.Basic

/-!
# Requests and replies

A handler decrypts what stands in the buffer when its delay is over. If all that
arrives are authentic Drift requests, which have one length, this is the request
that arrived last. The reply goes to the client whose request started the
handler, and repeats the members of the request that it found.
-/

namespace TriHaRd

open Lts

/-- The length of an encrypted Drift message. -/
def requestLen : ℕ := dMsgExpectedLen + 16

/-- The members to repeat, if the datagram is authentic. -/
def echoOf (aead : Aead) (datagram : List UInt8) : Option Echo :=
  (aead.decrypt datagram).map fun m => (readDrift m).echo

/-- What the action receives, and from whom. -/
def ServerAction.received : ServerAction → Option (List UInt8 × Addr)
  | .recvfrom datagram cliAddr => some (datagram, cliAddr)
  | _ => none

/-- The thread whose reply the action sends. -/
def ServerAction.answering : ServerAction → Option ℕ
  | .reply i _ _ true => some i
  | _ => none

theorem ServerAction.eq_reply_of_answering {a : ServerAction} {i : ℕ} (h : i ∈ a.answering) :
    ∃ recTs xmtTs, a = .reply i recTs xmtTs true := by
  cases a with
  | reply j recTs xmtTs sendOk =>
      cases sendOk with
      | false => cases h
      | true =>
          obtain rfl : j = i := Option.some.inj h
          exact ⟨recTs, xmtTs, rfl⟩
  | _ => cases h

/-- If the step receives something, it is an authentic message of the length of a request. -/
def ReceivesRequest (aead : Aead) (t : ServerStep) : Prop :=
  ∀ r ∈ t.act.received, ∃ m ∈ aead.decrypt r.1, m.length = dMsgExpectedLen

instance (aead : Aead) (t : ServerStep) : Decidable (ReceivesRequest aead t) :=
  inferInstanceAs (Decidable (∀ r ∈ t.act.received, _))

theorem length_of_request {aead : Aead} {datagram : List UInt8}
    (h : ∃ m ∈ aead.decrypt datagram, m.length = dMsgExpectedLen) :
    datagram.length = requestLen := by
  obtain ⟨m, hdecrypt, hlength⟩ := h
  rw [aead.length_of_decrypt hdecrypt, hlength, requestLen]

/-! ## What has arrived -/

/-- `arrived` holds what the server has received and from whom, the oldest first. Arrival `i`
    starts thread `i`. `found` tells what had arrived last when a thread decrypted. -/
structure Ledger where
  arrived : List (List UInt8 × Addr)
  found : ℕ → Option (List UInt8 × Addr)

def Ledger.record (l : Ledger) (t : ServerStep) : Ledger :=
  match t.act with
  | .recvfrom datagram cliAddr => { l with arrived := l.arrived ++ [(datagram, cliAddr)] }
  | .decrypt i _ => { l with found := Function.update l.found i l.arrived.getLast? }
  | _ => l

def ledger (past : List ServerStep) : Ledger := past.foldl .record ⟨[], fun _ => none⟩

theorem ledger_snoc (past : List ServerStep) (t : ServerStep) :
    ledger (past ++ [t]) = (ledger past).record t := by
  simp [ledger]

/-- Every reply goes to the client whose request started the thread, and repeats the members
    of that request. -/
def EchoesOwn (aead : Aead) (past : List ServerStep) (t : ServerStep) : Prop :=
  ∀ i ∈ t.act.answering, ∀ q ∈ t.events, ∃ own ∈ (ledger past).arrived[i]?,
    q.dst = own.2 ∧ echoOf aead q.bytes = echoOf aead own.1

/-- When a thread that now sends its reply decrypted, the last arrival had the same members to
    repeat as the one that started the thread. -/
def FoundOwn (aead : Aead) (past : List ServerStep) (t : ServerStep) : Prop :=
  ∀ i ∈ t.act.answering, ∀ own ∈ (ledger past).arrived[i]?, ∀ last ∈ (ledger past).found i,
    echoOf aead last.1 = echoOf aead own.1

instance (aead : Aead) (past : List ServerStep) (t : ServerStep) :
    Decidable (EchoesOwn aead past t) :=
  inferInstanceAs (Decidable (∀ i ∈ t.act.answering, ∀ q ∈ t.events, _))

instance (aead : Aead) : DecidablePred (Function.uncurry (EchoesOwn aead)) := fun (past, t) =>
  inferInstanceAs (Decidable (EchoesOwn aead past t))

/-! ## The invariant -/

/-- The threads and the buffer agree with the ledger. -/
structure Agrees (aead : Aead) (l : Ledger) (s : Server) : Prop where
  requests : ∀ r ∈ l.arrived, r.1.length = requestLen
  length : s.threads.length = l.arrived.length
  own : ∀ (i : ℕ) (h : Handler), s.threads[i]? = some h → h.readStatus = requestLen ∧
    ∀ r ∈ l.arrived[i]?, h.cliAddr = r.2
  buff : ∀ last ∈ l.arrived.getLast?, s.buff.take requestLen = last.1
  found : ∀ (i : ℕ) (h : Handler) (buffDec : List UInt8), s.threads[i]? = some h →
    h.pc = .decrypted buffDec →
      ∃ last, l.found i = some last ∧ echoOf aead last.1 = some (readDrift buffDec).echo

theorem agrees_initial (aead : Aead) (buff : List UInt8) :
    Agrees aead (ledger []) (.initial buff) where
  requests := by simp [ledger]
  length := rfl
  own := by simp [Server.initial]
  buff := by simp [ledger]
  found := by simp [Server.initial]

namespace Agrees

variable {aead : Aead} {l l' : Ledger} {s : Server}

/-- Thread `i` moves on, and the ledger may have noted what it found. -/
theorem setThread (h : Agrees aead l s) {i : ℕ} {old new : Handler}
    (hold : s.threads[i]? = some old) (hcliAddr : new.cliAddr = old.cliAddr)
    (hreadStatus : new.readStatus = old.readStatus) (harrived : l'.arrived = l.arrived)
    (hothers : ∀ j ≠ i, l'.found j = l.found j)
    (hfound : ∀ buffDec, new.pc = .decrypted buffDec →
      ∃ last, l'.found i = some last ∧ echoOf aead last.1 = some (readDrift buffDec).echo) :
    Agrees aead l' (s.setThread i new) := by
  have hi : i < s.threads.length := (List.getElem?_eq_some_iff.mp hold).1
  have hset (j : ℕ) (k : Handler) (hk : (s.setThread i new).threads[j]? = some k) :
      (j = i ∧ k = new) ∨ (j ≠ i ∧ s.threads[j]? = some k) := by
    rw [Server.setThread, List.getElem?_set] at hk
    split_ifs at hk with hji
    · exact .inl ⟨hji.symm, (Option.some.inj hk).symm⟩
    · exact .inr ⟨fun hij => hji hij.symm, hk⟩
  refine ⟨harrived ▸ h.requests, ?_, fun j k hk => ?_, ?_, fun j k buffDec hk hpc => ?_⟩
  · rw [Server.setThread, List.length_set, harrived]
    exact h.length
  · rw [harrived]
    rcases hset j k hk with ⟨rfl, rfl⟩ | ⟨_, hk⟩
    · rw [hreadStatus, hcliAddr]
      exact h.own j old hold
    · exact h.own j k hk
  · rw [harrived]
    exact h.buff
  · rcases hset j k hk with ⟨rfl, rfl⟩ | ⟨hne, hk⟩
    · exact hfound buffDec hpc
    · rw [hothers j hne]
      exact h.found j k buffDec hk hpc

/-- A request arrives and starts a thread. -/
theorem recvfrom (h : Agrees aead l s) {datagram : List UInt8} (cliAddr : Addr)
    (hlength : datagram.length = requestLen) :
    Agrees aead { l with arrived := l.arrived ++ [(datagram, cliAddr)] }
      { s with
        buff := Server.receive s.buff datagram
        threads := s.threads ++ [⟨cliAddr, min datagram.length serverBuffLen, .delayed⟩] } := by
  have hfit : requestLen ≤ serverBuffLen := by decide
  have hnew (j : ℕ) (k : Handler)
      (hk : (s.threads ++ [⟨cliAddr, min datagram.length serverBuffLen, .delayed⟩])[j]? = some k) :
      (j < s.threads.length ∧ s.threads[j]? = some k) ∨
        (j = s.threads.length ∧ k = ⟨cliAddr, requestLen, .delayed⟩) := by
    rw [hlength, min_eq_left hfit, List.getElem?_append] at hk
    split_ifs at hk with hj
    · exact .inl ⟨hj, hk⟩
    · rw [List.getElem?_singleton] at hk
      split_ifs at hk with hlast
      exact .inr ⟨by omega, (Option.some.inj hk).symm⟩
  refine ⟨fun r hr => ?_, ?_, fun j k hk => ?_, ?_, fun j k buffDec hk hpc => ?_⟩
  · rcases List.mem_append.mp hr with hr | hr
    · exact h.requests r hr
    · rw [List.mem_singleton.mp hr]
      exact hlength
  · simp [h.length]
  · rcases hnew j k hk with ⟨hj, hk⟩ | ⟨rfl, rfl⟩
    · obtain ⟨hreadStatus, hcliAddr⟩ := h.own j k hk
      refine ⟨hreadStatus, fun r hr => hcliAddr r ?_⟩
      rwa [List.getElem?_append_left (h.length ▸ hj)] at hr
    · refine ⟨rfl, fun r hr => ?_⟩
      dsimp only at hr
      rw [h.length, List.getElem?_concat_length] at hr
      rw [← Option.some.inj hr]
  · intro last hlast
    dsimp only at hlast ⊢
    rw [List.getLast?_concat] at hlast
    have hwhole : datagram.take serverBuffLen = datagram :=
      List.take_of_length_le (hlength.le.trans hfit)
    rw [← Option.some.inj hlast, Server.receive, hwhole, List.take_left' hlength]
  · rcases hnew j k hk with ⟨_, hk⟩ | ⟨rfl, rfl⟩
    · exact h.found j k buffDec hk hpc
    · cases hpc

/-- A thread decrypts the request that arrived last. -/
theorem decrypt (h : Agrees aead l s) {i : ℕ} {cliAddr : Addr} {readStatus : ℕ}
    {m : List UInt8} (hthread : s.threads[i]? = some ⟨cliAddr, readStatus, .delayed⟩)
    (hdecrypt : aead.decrypt (s.buff.take readStatus) = some m) (rest : List UInt8) :
    Agrees aead { l with found := Function.update l.found i l.arrived.getLast? }
      (s.setThread i ⟨cliAddr, readStatus, .decrypted (m ++ rest)⟩) := by
  have hreadStatus : readStatus = requestLen := (h.own i _ hthread).1
  have hi : i < l.arrived.length := by
    rw [← h.length]
    exact (List.getElem?_eq_some_iff.mp hthread).1
  have hne : l.arrived ≠ [] := List.ne_nil_of_length_pos (Nat.zero_lt_of_lt hi)
  have hlast : l.arrived.getLast? = some (l.arrived.getLast hne) := List.getLast?_eq_some_getLast hne
  generalize l.arrived.getLast hne = last at hlast
  rw [hreadStatus, h.buff last hlast] at hdecrypt
  have hlength : m.length = dMsgExpectedLen := by
    have htag := aead.length_of_decrypt hdecrypt
    rw [h.requests last (List.mem_of_getLast? hlast), requestLen] at htag
    omega
  refine h.setThread hthread rfl rfl rfl (fun j hj => Function.update_of_ne hj _ _) ?_
  rintro buffDec hbuffDec
  obtain rfl := HandlerPc.decrypted.inj hbuffDec
  refine ⟨last, ?_, ?_⟩
  · dsimp only
    rw [Function.update_self, hlast]
  · rw [echoOf, hdecrypt, Option.map_some, echo_append (by rw [hlength]; decide)]

/-- The server keeps in step with the ledger. -/
theorem step {t : ServerStep} (hs : t.IsStep (Server.step aead)) (hreceives : ReceivesRequest aead t)
    (h : Agrees aead l t.pre) : Agrees aead (l.record t) t.post := by
  obtain ⟨pre, act, events, post⟩ := t
  simp only [Transition.IsStep, Server.step] at hs h ⊢
  split at hs
  case isFalse => cases hs
  cases act with
  | recvfrom datagram cliAddr =>
      obtain ⟨rfl, rfl⟩ := Prod.mk.inj (Option.some.inj hs)
      exact h.recvfrom cliAddr (length_of_request (hreceives _ rfl))
  | recvError =>
      obtain ⟨rfl, rfl⟩ := Prod.mk.inj (Option.some.inj hs)
      exact ⟨h.requests, h.length, h.own, h.buff, h.found⟩
  | decrypt i stack =>
      simp only at hs
      split at hs
      case h_2 => cases hs
      case h_1 cliAddr readStatus hthread =>
        split at hs
        case h_1 m hdecrypt =>
          obtain ⟨rfl, rfl⟩ := Prod.mk.inj (Option.some.inj hs)
          exact h.decrypt hthread hdecrypt _
        case h_2 =>
          obtain ⟨rfl, rfl⟩ := Prod.mk.inj (Option.some.inj hs)
          exact h.setThread hthread rfl rfl rfl (fun j hj => Function.update_of_ne hj _ _)
            (by simp)
  | reply i recTs xmtTs sendOk =>
      simp only at hs
      split at hs
      case h_2 => cases hs
      case h_1 cliAddr readStatus buffDec hthread =>
        split at hs
        case isFalse => cases hs
        obtain ⟨rfl, rfl⟩ := Prod.mk.inj (Option.some.inj hs)
        exact h.setThread hthread rfl rfl rfl (fun _ _ => rfl) (by simp)
  | crash i recTs =>
      simp only at hs
      split at hs
      case h_2 => cases hs
      split at hs
      · cases hs
      · obtain ⟨rfl, rfl⟩ := Prod.mk.inj (Option.some.inj hs)
        exact ⟨h.requests, h.length, h.own, h.buff, h.found⟩

end Agrees

/-- A thread answers its own client, and repeats what it found. -/
theorem reply_cases {aead : Aead} {l : Ledger} {t : ServerStep} {i : ℕ}
    (hs : t.IsStep (Server.step aead)) (h : Agrees aead l t.pre) (hi : i ∈ t.act.answering) :
    ∃ own last bytes, l.arrived[i]? = some own ∧ l.found i = some last ∧
      t.events = [⟨own.2, bytes⟩] ∧ echoOf aead bytes = echoOf aead last.1 := by
  obtain ⟨recTs, xmtTs, hact⟩ := ServerAction.eq_reply_of_answering hi
  obtain ⟨pre, act, events, post⟩ := t
  subst hact
  simp only [Transition.IsStep, Server.step] at hs h ⊢
  split at hs
  case isFalse => cases hs
  split at hs
  case h_2 => cases hs
  case h_1 cliAddr readStatus buffDec hthread =>
    split at hs
    case isFalse => cases hs
    obtain ⟨rfl, rfl⟩ := Prod.mk.inj (Option.some.inj hs)
    obtain ⟨last, hfound, hlast⟩ := h.found i _ buffDec hthread rfl
    have harrived : i < l.arrived.length := by
      rw [← h.length]
      exact (List.getElem?_eq_some_iff.mp hthread).1
    have hown : l.arrived[i]? = some l.arrived[i] := List.getElem?_eq_getElem harrived
    have hcliAddr : cliAddr = l.arrived[i].2 := (h.own i _ hthread).2 _ hown
    refine ⟨_, last, aead.encrypt (Server.replyTo buffDec recTs xmtTs), hown, hfound,
      by rw [hcliAddr, if_pos trivial], ?_⟩
    rw [hlast, echoOf, aead.decrypt_encrypt, Option.map_some, Server.replyTo,
      echo_buildDriftReply_readDrift]

/-- One reply repeats its own request exactly when its thread found that request, or one with
    the same members. -/
theorem echoesOwn_iff {aead : Aead} {past : List ServerStep} {t : ServerStep}
    (hs : t.IsStep (Server.step aead)) (h : Agrees aead (ledger past) t.pre) :
    EchoesOwn aead past t ↔ FoundOwn aead past t := by
  constructor
  · intro hecho i hi own hown last hlast
    obtain ⟨own', last', bytes, hown', hlast', hevents, hbytes⟩ := reply_cases hs h hi
    obtain rfl : own = own' := Option.some.inj (hown.symm.trans hown')
    obtain rfl : last = last' := Option.some.inj (hlast.symm.trans hlast')
    obtain ⟨own'', hown'', _, hsame⟩ := hecho i hi ⟨own.2, bytes⟩ (by simp [hevents])
    obtain rfl : own = own'' := Option.some.inj (hown.symm.trans hown'')
    exact hbytes.symm.trans hsame
  · intro hfound i hi q hq
    obtain ⟨own, last, bytes, hown, hlast, hevents, hbytes⟩ := reply_cases hs h hi
    rw [hevents] at hq
    obtain rfl := List.mem_singleton.mp hq
    exact ⟨own, hown, rfl, hbytes.trans (hfound i hi own hown last hlast)⟩

/-- In every run on authentic requests, the replies repeat the requests of their clients
    exactly when the threads that send them found these requests, or equal ones. -/
theorem replies_echo_iff {aead : Aead} {buff : List UInt8} {tr : List ServerStep} {s : Server}
    (hrun : ServerRun aead (.initial buff) tr s) (hreceives : ∀ t ∈ tr, ReceivesRequest aead t) :
    EachStep (EchoesOwn aead) tr ↔ EachStep (FoundOwn aead) tr := by
  refine hrun.eachStep_iff_of (I := fun past s => Agrees aead (ledger past) s)
    (EachStep.iff_forall_mem.mpr hreceives) (agrees_initial aead buff)
    (fun _ _ hs h => echoesOwn_iff hs h) fun past t hs hreceive h _ => ?_
  rw [ledger_snoc]
  exact h.step hs hreceive

namespace Scenario

/-- The contents of an array that nothing has been written to. -/
def blank : List UInt8 := List.replicate serverBuffLen 0

/-- The requests of two clients. -/
def requestB : List UInt8 := Aead.zeroTag.encrypt (buildDrift 0 0 ⟨1000, 0⟩ ⟨0, 0⟩)
def requestC : List UInt8 := Aead.zeroTag.encrypt (buildDrift 7 0 ⟨1001, 0⟩ ⟨0, 0⟩)

def receiveB : ServerAction := .recvfrom requestB ⟨"127.0.0.1", 12346⟩
def receiveC : ServerAction := .recvfrom requestC ⟨"127.0.0.1", 12347⟩

/-- Each thread decrypts before the next request arrives. -/
def inTurn : List ServerAction :=
  [receiveB, .decrypt 0 blank, receiveC, .decrypt 1 blank, .reply 1 ⟨1002, 0⟩ ⟨1002, 0⟩ true]

end Scenario

open Scenario in
/-- The theorem at two threads that decrypt in turn, the second of which answers first. -/
theorem replies_echo_iff_inTurn :
    ∃ tr t, ServerRun .zeroTag (.initial blank) (tr ++ [t]) t.post ∧ t.events ≠ [] ∧
      EachStep (FoundOwn .zeroTag) (tr ++ [t]) := by
  obtain ⟨tr, t, hrun, hstep, -, ht⟩ := exists_step_of_exec (Server.step .zeroTag)
    (.initial blank) inTurn (.reply 0 ⟨1003, 0⟩ ⟨1003, 0⟩ true)
    (fun tr t => t.events ≠ [] ∧ (∀ u ∈ tr ++ [t], ReceivesRequest .zeroTag u) ∧
      EachStep (EchoesOwn .zeroTag) (tr ++ [t])) (by decide +kernel)
  obtain ⟨hevents, hreceives, hecho⟩ := ht
  exact ⟨tr, t, .snoc hrun hstep, hevents,
    (replies_echo_iff (.snoc hrun hstep) hreceives).mp hecho⟩

open Scenario in
/-- The second request arrives before the first thread decrypts. The first client gets a reply
    to the request of the second. -/
theorem reply_crossed :
    ¬ ∀ (aead : Aead) (buff : List UInt8) (tr : List ServerStep) (s : Server),
        ServerRun aead (.initial buff) tr s → (∀ t ∈ tr, ReceivesRequest aead t) →
        EachStep (EchoesOwn aead) tr := by
  intro h
  obtain ⟨tr, t, hrun, hstep, -, ht⟩ := exists_step_of_exec (Server.step .zeroTag)
    (.initial blank) [receiveB, receiveC, .decrypt 0 blank]
    (.reply 0 ⟨1003, 0⟩ ⟨1003, 0⟩ true)
    (fun tr t => (∀ u ∈ tr ++ [t], ReceivesRequest .zeroTag u) ∧
      ¬ EchoesOwn .zeroTag tr t) (by decide +kernel)
  obtain ⟨hreceives, hcrossed⟩ := ht
  exact hcrossed (h .zeroTag blank _ _ (.snoc hrun hstep) hreceives).last

end TriHaRd
