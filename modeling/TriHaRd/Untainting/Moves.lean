-- SUMMARY: What each step of a node does to the sibling table, the tainted flag and the round count.
import TriHaRd.Node.System

/-!
# Moves

Untainting is about the sibling table, the `tainted` flag and the count of the
rounds. Most steps keep the table and the count and can only raise the flag, and
then they show it. The others send a round, append a peer, or record a reply.
`PeerMove` lists the four cases, and the results about untainting do not look at
the steps in any other way.
-/

namespace TriHaRd

open Lts

/-- `s'` has the table and the round count of `s`, it is tainted if `s` was or if `es`
    shows it, and no 'Tainted' message is sent. -/
structure KeepsPeers (s : ENode) (es : List Event) (s' : ENode) : Prop where
  siblings : s'.siblings = s.siblings
  tainted : s'.tainted = (s.tainted || decide (Event.taint ∈ es))
  rounds : s'.statics.taintedMsgCount = s.statics.taintedMsgCount
  sends : ∀ q, Event.sent q ∈ es → q.payload.head? ≠ some letterT

namespace KeepsPeers

variable {s m s' : ENode} {es es₁ es₂ : List Event}

theorem quiet (hsiblings : s'.siblings = s.siblings) (htainted : s'.tainted = s.tainted)
    (hrounds : s'.statics.taintedMsgCount = s.statics.taintedMsgCount) : KeepsPeers s [] s' :=
  ⟨hsiblings, by simp [htainted], hrounds, by simp⟩

theorem taint (hsiblings : s'.siblings = s.siblings) (htainted : s'.tainted = true)
    (hrounds : s'.statics.taintedMsgCount = s.statics.taintedMsgCount) :
    KeepsPeers s [.taint] s' :=
  ⟨hsiblings, by simp [htainted], hrounds, by simp⟩

theorem trans (h₁ : KeepsPeers s es₁ m) (h₂ : KeepsPeers m es₂ s') :
    KeepsPeers s (es₁ ++ es₂) s' where
  siblings := h₂.siblings.trans h₁.siblings
  tainted := by simp [h₁.tainted, h₂.tainted, Bool.or_assoc]
  rounds := h₂.rounds.trans h₁.rounds
  sends := fun q hq => (List.mem_append.mp hq).elim (h₁.sends q) (h₂.sends q)

/-- Writing other members afterwards changes nothing. -/
theorem congr {s'' : ENode} (h : KeepsPeers s es s') (hsiblings : s''.siblings = s'.siblings)
    (htainted : s''.tainted = s'.tainted)
    (hrounds : s''.statics.taintedMsgCount = s'.statics.taintedMsgCount) :
    KeepsPeers s es s'' :=
  ⟨hsiblings.trans h.siblings, htainted.trans h.tainted, hrounds.trans h.rounds, h.sends⟩

/-- The same, for members written before. -/
theorem congr_left {r : ENode} (h : KeepsPeers r es s') (hsiblings : r.siblings = s.siblings)
    (htainted : r.tainted = s.tainted)
    (hrounds : r.statics.taintedMsgCount = s.statics.taintedMsgCount) :
    KeepsPeers s es s' :=
  ⟨h.siblings.trans hsiblings, by rw [h.tainted, htainted], h.rounds.trans hrounds, h.sends⟩

end KeepsPeers

/-! ## The functions that keep the table -/

namespace ENode

theorem sendMessage_keepsPeers {buff : List UInt8} (hbuff : buff.head? ≠ some letterT) (s m : ENode)
    (dst : Addr) : KeepsPeers s (m.sendMessage buff dst).1 s where
  siblings := rfl
  tainted := by
    have htaint : Event.taint ∉ (m.sendMessage buff dst).1 := fun h => by
      cases eq_of_mem_sendMessage h
    simp [htaint]
  rounds := rfl
  sends := fun q hq => by
    cases eq_of_mem_sendMessage hq
    exact hbuff

theorem shadowTscUpdate_keepsPeers (osTime : Timespec) (s : ENode) :
    KeepsPeers s (s.shadowTscUpdate osTime).2 (s.shadowTscUpdate osTime).1 := by
  unfold shadowTscUpdate
  split
  · exact .taint rfl rfl rfl
  · exact .quiet rfl rfl rfl

/-- A round is one 'Tainted' message, with the same count, to each sibling. -/
theorem mem_sendTaintedMessages {s : ENode} {amb : Ambient} {e : Event}
    (h : e ∈ (s.sendTaintedMessages amb).2) :
    ∃ peer ∈ s.siblings, e = .sent ⟨peer.toAddr,
      buildTainted s.statics.taintedMsgCount s.readClock.2 amb.dummyTs⟩ := by
  obtain ⟨peer, hpeer, he⟩ := List.mem_flatMap.mp h
  exact ⟨peer, hpeer, eq_of_mem_sendMessage he⟩

theorem sendRecvDriftMessage_keepsPeers (s : ENode) (sleepTimeMs sleepMs : ℤ) (amb : Ambient) :
    KeepsPeers s (s.sendRecvDriftMessage sleepTimeMs sleepMs amb).2
      (s.sendRecvDriftMessage sleepTimeMs sleepMs amb).1 := by
  have hshadow := s.shadowTscUpdate_keepsPeers amb.osTime
  unfold sendRecvDriftMessage
  generalize s.shadowTscUpdate amb.osTime = r at hshadow
  obtain ⟨m, shown⟩ := r
  exact (hshadow.trans (sendMessage_keepsPeers (by simp [head_buildDrift]; decide) m _ _)).congr
    rfl rfl rfl

theorem ntp_keepsPeers (s : ENode) (amb : Ambient) :
    KeepsPeers s (s.ntp amb).2 (s.ntp amb).1 := by
  unfold ntp
  dsimp only
  split
  · have h := sendRecvDriftMessage_keepsPeers
      { s with statics.pollCount := 0 } 0 s.sleepAttackMs amb
    exact h.congr_left rfl rfl rfl
  · exact .quiet rfl rfl rfl

theorem handleTainted_keepsPeers (s : ENode) (buff : List UInt8) (src : Addr) (amb : Ambient) :
    KeepsPeers s (s.handleTainted buff src amb).events (s.handleTainted buff src amb).node := by
  unfold handleTainted
  split
  · exact .quiet rfl rfl rfl
  case h_2 sibling _ =>
    split
    · exact .quiet rfl rfl rfl
    · split
      case isTrue =>
        have hshadow : KeepsPeers s
            (if sibling.port = 12346 then s.shadowTscUpdate amb.osTime else (s, [])).2
            (if sibling.port = 12346 then s.shadowTscUpdate amb.osTime else (s, [])).1 := by
          split
          · exact s.shadowTscUpdate_keepsPeers amb.osTime
          · exact .quiet rfl rfl rfl
        generalize (if sibling.port = 12346 then s.shadowTscUpdate amb.osTime else (s, [])) = r
          at hshadow
        obtain ⟨m, shown⟩ := r
        exact (hshadow.trans (sendMessage_keepsPeers (by simp [head_buildUntaint]; decide)
          m _ _)).congr rfl rfl rfl
      case isFalse => exact .quiet rfl rfl rfl

theorem selectClock_keepsPeers (s : ENode) : KeepsPeers s [] s.selectClock := by
  rw [s.selectClock_eq_setClock]
  exact .quiet rfl rfl rfl

theorem detectSpike_keepsPeers (s : ENode) : KeepsPeers s [] s.detectSpike := by
  unfold detectSpike
  split <;> exact .quiet rfl rfl rfl

theorem judgeClock_keepsPeers (s : ENode) : KeepsPeers s [] s.judgeClock := by
  unfold judgeClock
  split_ifs <;> exact .quiet rfl rfl rfl

theorem applyDrift_keepsPeers (s : ENode) (msg : DriftMsg) : KeepsPeers s [] (s.applyDrift msg) := by
  have hread : KeepsPeers s [] (s.readOffset msg) := .quiet rfl rfl rfl
  unfold applyDrift applyOffset
  generalize s.readOffset msg = r at hread ⊢
  have hspike := hread.trans r.detectSpike_keepsPeers
  have hjudge := hspike.trans r.detectSpike.judgeClock_keepsPeers
  exact hjudge.trans r.detectSpike.judgeClock.selectClock_keepsPeers

theorem storeRecvd_keepsPeers (s : ENode) (count : ℤ) : KeepsPeers s [] (s.storeRecvd count) :=
  .quiet rfl rfl rfl

theorem handleDrift_keepsPeers (s : ENode) (buff : List UInt8) (amb : Ambient) :
    KeepsPeers s (s.handleDrift buff amb).events (s.handleDrift buff amb).node := by
  by_cases hlen : buff.length = dMsgExpectedLen
  · rw [handleDrift_of_length hlen]
    have happly := (s.shadowTscUpdate_keepsPeers amb.osTime).trans
      ((s.shadowTscUpdate amb.osTime).1.applyDrift_keepsPeers (readDrift buff))
    have hstore := happly.trans (storeRecvd_keepsPeers _ (readDrift buff).count)
    rwa [List.append_nil, List.append_nil] at hstore
  · rw [handleDrift, if_pos hlen]
    exact .quiet rfl rfl rfl

theorem selfTaint_keepsPeers (s : ENode) : KeepsPeers s s.selfTaint.2 s.selfTaint.1 := by
  unfold selfTaint
  split
  · exact .taint rfl rfl rfl
  · exact .quiet rfl rfl rfl

theorem endCounting_keepsPeers (s : ENode) (memTotalAexCount : ℤ) :
    KeepsPeers s (s.endCounting memTotalAexCount).2 (s.endCounting memTotalAexCount).1 := by
  have hround (r : ℤ) : KeepsPeers s { s with nbUninterrRounds := r }.selfTaint.2
      { s with nbUninterrRounds := r }.selfTaint.1 :=
    (selfTaint_keepsPeers { s with nbUninterrRounds := r }).congr_left rfl rfl rfl
  unfold endCounting
  dsimp only
  split_ifs
  · exact (hround _).congr rfl rfl rfl
  · exact hround _
  · exact (hround _).congr rfl rfl rfl
  · exact hround _

theorem endPolling_keepsPeers (b : Build) (s : ENode) (delta : ℤ) :
    KeepsPeers s (s.endPolling b delta).2 (s.endPolling b delta).1 := by
  unfold endPolling
  split_ifs
  · exact .taint rfl rfl rfl
  · exact .quiet rfl rfl rfl
  · exact (selfTaint_keepsPeers { s with nbUninterrRounds := s.nbUninterrRounds + 1 }).congr_left
      rfl rfl rfl

theorem monitorNtp_keepsPeers (s : ENode) (amb : Ambient) :
    KeepsPeers s (s.monitorNtp amb).2 (s.monitorNtp amb).1 := by
  unfold monitorNtp
  dsimp only
  split
  · exact (s.ntp_keepsPeers amb).congr rfl rfl rfl
  · exact .quiet rfl rfl rfl

/-- A message with another letter keeps the table. -/
theorem handleMessage_keepsPeers {payload : List UInt8} (hS : payload.head? ≠ some letterS)
    (hU : payload.head? ≠ some letterU) (s : ENode) (src : Addr) (amb : Ambient) :
    KeepsPeers s (s.handleMessage payload src amb).events (s.handleMessage payload src amb).node := by
  cases payload with
  | nil => exact .quiet rfl rfl rfl
  | cons tag tail =>
      simp only [List.head?_cons, ne_eq, Option.some.injEq] at hS hU
      simp only [handleMessage, hS, hU, if_false]
      split_ifs
      · exact s.handleTainted_keepsPeers _ src amb
      · exact s.handleDrift_keepsPeers _ amb
      case neg hT _ =>
        exact sendMessage_keepsPeers (by simpa using hT) s s src

end ENode

theorem monitorStep_keepsPeers (b : Build) (s : ENode) (amb : Ambient) (pc : MonitorPc) :
    KeepsPeers s (monitorStep b s amb pc).2.2 (monitorStep b s amb pc).2.1 := by
  cases pc with
  | start => exact .quiet rfl rfl rfl
  | loop =>
      simp only [monitorStep]
      split_ifs <;> exact .quiet rfl rfl rfl
  | calibrateCount i addCountSum =>
      simp only [monitorStep]
      split_ifs <;> exact .quiet rfl rfl rfl
  | calibrateDrift => exact s.sendRecvDriftMessage_keepsPeers 0 0 amb
  | counting caller stopTsc memTotalAexCount count =>
      simp only [monitorStep]
      split_ifs <;> exact .quiet rfl rfl rfl
  | counted caller memTotalAexCount => exact s.endCounting_keepsPeers memTotalAexCount
  | sampling caller stopTsc => exact .quiet rfl rfl rfl
  | polling caller stopTsc a =>
      have h := ENode.endPolling_keepsPeers b { s with tsc := amb.tsc } (amb.tsc - a)
      simp only [monitorStep]
      split_ifs
      · exact .quiet rfl rfl rfl
      · exact h.congr_left rfl rfl rfl
      · exact h.congr_left rfl rfl rfl
  | returned caller =>
      cases caller with
      | monitor => exact s.monitorNtp_keepsPeers amb
      | calibrate i addCountSum =>
          simp only [monitorStep]
          split_ifs <;> exact .quiet rfl rfl rfl
  | done => exact .quiet rfl rfl rfl

/-- The refresh task keeps the table, apart from the step that sends a round. -/
theorem refreshStep_keepsPeers (s : ENode) (amb : Ambient) {pc : RefreshPc}
    (hpc : ∀ memTotalAexCount, pc ≠ .send memTotalAexCount) :
    KeepsPeers s (refreshStep s amb pc).2.2 (refreshStep s amb pc).2.1 := by
  cases pc with
  | head =>
      simp only [refreshStep]
      split_ifs <;> exact .quiet rfl rfl rfl
  | waiting =>
      simp only [refreshStep]
      split_ifs <;> exact .quiet rfl rfl rfl
  | roundStart => exact s.shadowTscUpdate_keepsPeers amb.osTime
  | send memTotalAexCount => exact absurd rfl (hpc memTotalAexCount)
  | spin memTotalAexCount referenceTsc =>
      simp only [refreshStep]
      split_ifs <;> exact .quiet rfl rfl rfl
  | done => exact .quiet rfl rfl rfl

/-! ## The moves -/

/-- A well-formed 'U' message. -/
def IsUntaint (payload : List UInt8) : Prop :=
  payload.head? = some letterU ∧ payload.length = uMsgExpectedLen

instance (payload : List UInt8) : Decidable (IsUntaint payload) :=
  inferInstanceAs (Decidable (_ ∧ _))

/-- The action hands the node a well-formed 'U' message from a known sibling. -/
def Action.IsReply (a : Action) (s : ENode) (payload : List UInt8) (src : Addr) : Prop :=
  (∃ amb, a = .recv payload src amb) ∧ IsUntaint payload ∧ (s.findSibling src).isSome

/-- The action makes the node acquainted with `addr`. -/
def Action.Introduces (a : Action) (addr : Addr) : Prop :=
  (∃ sendOk, a = .addSibling addr sendOk) ∨
    ∃ payload amb, a = .recv payload addr amb ∧ payload.head? = some letterS

/-- What an action does to the table, the flag and the round count of `s`. -/
inductive PeerMove (s : ENode) (a : Action) (es : List Event) (s' : ENode) : Prop where
  | keep (h : KeepsPeers s es s') (hact : ¬ ∃ payload src, a.IsReply s payload src)
  | round (amb : Ambient) (h : (s', es) = s.sendTaintedMessages amb)
      (hact : ¬ ∃ payload src, a.IsReply s payload src)
  | join (addr : Addr) (hcause : a.Introduces addr) (hnew : s.findSibling addr = none)
      (hpost : s' = { s with siblings := s.siblings ++ [Peer.new addr] })
      (hes : es = [] ∨ es = [.sent ⟨addr, siblingStr⟩])
      (hact : ¬ ∃ payload src, a.IsReply s payload src)
  | reply (payload : List UInt8) (src : Addr) (h : a.IsReply s payload src)
      (hpost : s' = s.handleUntaint payload src) (hes : es = [])

/-- A 'U' message has no effect but that of its handler. -/
theorem System.Effect.of_untaint {b : Build} {s : System} {es : List Event} {n : ENode}
    {payload : List UInt8} {src : Addr} {amb : Ambient}
    (h : System.Effect b s (.recv payload src amb) es n) (hU : payload.head? = some letterU) :
    n = s.node.handleUntaint payload src ∧ es = [] := by
  have hhandle := ENode.handleMessage_untaint hU s.node src amb
  cases h with
  | recv => rw [hhandle]; exact ⟨rfl, rfl⟩
  | recvFailed _ _ _ hretval => exact absurd (congrArg Outcome.retval hhandle) hretval

theorem System.Effect.of_isReply {b : Build} {s : System} {a : Action} {es : List Event}
    {n : ENode} {payload : List UInt8} {src : Addr} (h : System.Effect b s a es n)
    (hreply : a.IsReply s.node payload src) :
    n = s.node.handleUntaint payload src ∧ es = [] := by
  obtain ⟨⟨amb, rfl⟩, ⟨hU, _⟩, _⟩ := hreply
  exact h.of_untaint hU

/-- Every effect of an action is one of the moves. -/
theorem System.Effect.peerMove {b : Build} {s : System} {a : Action} {es : List Event} {n : ENode}
    (h : System.Effect b s a es n) : PeerMove s.node a es n := by
  by_cases hact : ∃ payload src, a.IsReply s.node payload src
  · obtain ⟨payload, src, hreply⟩ := hact
    obtain ⟨hpost, hes⟩ := h.of_isReply hreply
    exact .reply payload src hreply hpost hes
  cases h with
  | monitor amb => exact .keep (monitorStep_keepsPeers b s.node amb s.monitor) hact
  | aex amb => exact .keep (.taint rfl rfl rfl) hact
  | refresh amb =>
      by_cases hpc : ∃ memTotalAexCount, s.refresh = .send memTotalAexCount
      · obtain ⟨memTotalAexCount, hpc⟩ := hpc
        rw [hpc]
        exact .round amb rfl hact
      · exact .keep (refreshStep_keepsPeers s.node amb (not_exists.mp hpc)) hact
  | recv payload src amb =>
      by_cases hS : payload.head? = some letterS
      · rw [ENode.handleMessage_sibling hS]
        dsimp only [Outcome.quiet, ENode.handleSibling]
        split
        · exact .keep (.quiet rfl rfl rfl) hact
        case isFalse hnew =>
          exact .join src (.inr ⟨payload, amb, rfl, hS⟩)
            (Option.not_isSome_iff_eq_none.mp hnew) rfl (.inl rfl) hact
      by_cases hU : payload.head? = some letterU
      · have hdrop : ¬ (payload.length = uMsgExpectedLen ∧ (s.node.findSibling src).isSome) :=
          fun haccept => hact ⟨payload, src, ⟨amb, rfl⟩, ⟨hU, haccept.1⟩, haccept.2⟩
        rw [ENode.handleMessage_untaint hU, ENode.handleUntaint_of_dropped hdrop]
        exact .keep (.quiet rfl rfl rfl) hact
      exact .keep (ENode.handleMessage_keepsPeers hS hU s.node src amb) hact
  | recvFailed payload src amb hretval =>
      have hS : payload.head? ≠ some letterS := fun hS =>
        hretval (congrArg Outcome.retval (ENode.handleMessage_sibling hS s.node src amb))
      have hU : payload.head? ≠ some letterU := fun hU =>
        hretval (congrArg Outcome.retval (ENode.handleMessage_untaint hU s.node src amb))
      exact .keep ((ENode.handleMessage_keepsPeers hS hU s.node src amb).congr rfl rfl rfl) hact
  | recvStop => exact .keep (.quiet rfl rfl rfl) hact
  | recvInexistent => exact .keep (.quiet rfl rfl rfl) hact
  | recvError fd => exact .keep (.quiet rfl rfl rfl) hact
  | triggerStop => exact .keep (.quiet rfl rfl rfl) hact
  | addSibling addr sendOk =>
      unfold ENode.addSibling
      split_ifs
      · exact .keep (.quiet rfl rfl rfl) hact
      · exact .keep (.quiet rfl rfl rfl) hact
      · exact .join addr (.inl ⟨sendOk, rfl⟩) (Option.not_isSome_iff_eq_none.mp ‹_›) rfl
          (.inr rfl) hact
      · exact .join addr (.inl ⟨sendOk, rfl⟩) (Option.not_isSome_iff_eq_none.mp ‹_›) rfl
          (.inl rfl) hact
  | clientCall => exact .keep (.quiet rfl rfl rfl) hact
  | clientReturn i memTsc node ts hread =>
      unfold ENode.getTimestamp at hread
      split at hread
      · cases hread
      · obtain ⟨rfl, rfl⟩ := Prod.mk.inj (Option.some.inj hread)
        exact .keep ⟨rfl, by simp, rfl, by simp⟩ hact
  | stop => exact .keep (.quiet rfl rfl rfl) hact

theorem NodeStep.peerMove {b : Build} {t : NodeStep} (h : t.IsStep (System.step b)) :
    PeerMove t.pre.node t.act t.events t.post.node :=
  (NodeStep.effect h).peerMove

end TriHaRd
