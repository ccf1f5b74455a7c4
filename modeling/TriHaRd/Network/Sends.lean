-- SUMMARY: Every message that a step of a node can send, with what it was sent for.
import TriHaRd.Node.System

/-!
# What a node sends

A 'Sibling' message leaves the node through `add_sibling` only, a 'Tainted' one
through a round of refresh, an 'Untaint' one as the reply to a 'Tainted' one, and
a 'Drift' one through the monitor. What else arrives is sent back as it is.
-/

namespace TriHaRd

/-- What the node may send when it takes the action `a`. -/
inductive Sends : Action → Packet → Prop where
  | drift {a : Action} {q : Packet} (hhead : q.payload.head? = some letterD) : Sends a q
  | sibling (addr : Addr) (sendOk : Bool) : Sends (.addSibling addr sendOk) ⟨addr, siblingStr⟩
  | round (amb : Ambient) (dst : Addr) (count : ℤ) (orgTs : Timespec) :
      Sends (.refresh amb) ⟨dst, buildTainted count orgTs amb.dummyTs⟩
  | answer (payload : List UInt8) (src : Addr) (amb : Ambient) (views : Bool)
      (recTs xmtTs : Timespec) (hhead : payload.head? = some letterT) :
      Sends (.recv payload src amb) ⟨src, buildUntaint (readTainted payload).count views
        (readTainted payload).orgTs recTs xmtTs⟩
  | sendBack (payload : List UInt8) (src : Addr) (amb : Ambient)
      (hhead : ∀ letter ∈ [letterS, letterT, letterU, letterD], payload.head? ≠ some letter) :
      Sends (.recv payload src amb) ⟨src, payload⟩

/-! ## The monitor -/

/-- Nothing but Drift messages is sent. -/
def OnlyDrift (es : List Event) : Prop := ∀ q, Event.sent q ∈ es → q.payload.head? = some letterD

theorem onlyDrift_nil : OnlyDrift [] := by simp [OnlyDrift]

theorem onlyDrift_taint : OnlyDrift [.taint] := by simp [OnlyDrift]

theorem OnlyDrift.append {es₁ es₂ : List Event} (h₁ : OnlyDrift es₁) (h₂ : OnlyDrift es₂) :
    OnlyDrift (es₁ ++ es₂) := fun q hq =>
  (List.mem_append.mp hq).elim (h₁ q) (h₂ q)

namespace ENode

theorem shadowTscUpdate_sends_nothing (osTime : Timespec) (s : ENode) (q : Packet) :
    Event.sent q ∉ (s.shadowTscUpdate osTime).2 := by
  unfold shadowTscUpdate
  split <;> simp

theorem selfTaint_onlyDrift (s : ENode) : OnlyDrift s.selfTaint.2 := by
  unfold selfTaint
  split
  · exact onlyDrift_taint
  · exact onlyDrift_nil

theorem sendRecvDriftMessage_onlyDrift (s : ENode) (sleepTimeMs sleepMs : ℤ) (amb : Ambient) :
    OnlyDrift (s.sendRecvDriftMessage sleepTimeMs sleepMs amb).2 := by
  refine OnlyDrift.append (fun q hq => ?_) fun q hq => ?_
  · exact absurd hq (s.shadowTscUpdate_sends_nothing amb.osTime q)
  · obtain rfl := Event.sent.inj (eq_of_mem_sendMessage hq)
    exact head_buildDrift _ _ _ _

theorem monitorNtp_onlyDrift (s : ENode) (amb : Ambient) : OnlyDrift (s.monitorNtp amb).2 := by
  unfold monitorNtp ntp
  dsimp only
  split_ifs
  · exact sendRecvDriftMessage_onlyDrift _ _ _ _
  · exact onlyDrift_nil
  · exact onlyDrift_nil

theorem endPolling_onlyDrift (b : Build) (s : ENode) (delta : ℤ) :
    OnlyDrift (s.endPolling b delta).2 := by
  unfold endPolling
  split_ifs
  · exact onlyDrift_taint
  · exact onlyDrift_nil
  · exact selfTaint_onlyDrift _

end ENode

theorem monitorStep_onlyDrift (b : Build) (s : ENode) (amb : Ambient) (pc : MonitorPc) :
    OnlyDrift (monitorStep b s amb pc).2.2 := by
  cases pc with
  | calibrateDrift => exact s.sendRecvDriftMessage_onlyDrift 0 0 amb
  | counted caller memTotalAexCount => exact ENode.selfTaint_onlyDrift _
  | polling caller stopTsc a =>
      have hend := ENode.endPolling_onlyDrift b { s with tsc := amb.tsc } (amb.tsc - a)
      simp only [monitorStep]
      split_ifs
      · exact onlyDrift_nil
      · exact hend
      · exact hend
  | returned caller =>
      cases caller with
      | monitor => exact s.monitorNtp_onlyDrift amb
      | calibrate i addCountSum =>
          simp only [monitorStep]
          split_ifs <;> exact onlyDrift_nil
  | loop =>
      simp only [monitorStep]
      split_ifs <;> exact onlyDrift_nil
  | calibrateCount i addCountSum =>
      simp only [monitorStep]
      split_ifs <;> exact onlyDrift_nil
  | counting caller stopTsc memTotalAexCount count =>
      simp only [monitorStep]
      split_ifs <;> exact onlyDrift_nil
  | start | sampling | done => exact onlyDrift_nil

/-! ## The other actions -/

theorem refreshStep_sends {s : ENode} {amb : Ambient} {pc : RefreshPc} {q : Packet}
    (h : Event.sent q ∈ (refreshStep s amb pc).2.2) : Sends (.refresh amb) q := by
  cases pc with
  | send memTotalAexCount =>
      obtain ⟨peer, _, hq⟩ := List.mem_flatMap.mp h
      obtain rfl := Event.sent.inj (ENode.eq_of_mem_sendMessage hq)
      exact .round amb _ _ _
  | roundStart => exact absurd h (s.shadowTscUpdate_sends_nothing amb.osTime q)
  | head =>
      simp only [refreshStep] at h
      split_ifs at h <;> cases h
  | waiting =>
      simp only [refreshStep] at h
      split_ifs at h <;> cases h
  | spin memTotalAexCount referenceTsc =>
      simp only [refreshStep] at h
      split_ifs at h <;> cases h
  | done => cases h

theorem ENode.addSibling_sends {s : ENode} {addr : Addr} {sendOk : Bool} {q : Packet}
    (h : Event.sent q ∈ (s.addSibling addr sendOk).2) : Sends (.addSibling addr sendOk) q := by
  unfold addSibling at h
  split_ifs at h with hself hknown hok
  · cases h
  · cases h
  · obtain rfl := Event.sent.inj (List.mem_singleton.mp h)
    exact .sibling addr sendOk
  · cases h

/-- The reply of case 'T' repeats the count and `org_ts` of the message, with the verdict on the
    sender and two readings of the clock. -/
theorem ENode.eq_of_sent_handleTainted {s : ENode} {payload : List UInt8} {src : Addr}
    {amb : Ambient} {q : Packet} (h : Event.sent q ∈ (s.handleTainted payload src amb).events) :
    ∃ sibling recTs xmtTs, s.findSibling src = some sibling ∧
      q = ⟨src, buildUntaint (readTainted payload).count sibling.lastTsIsConsistent.2
        (readTainted payload).orgTs recTs xmtTs⟩ := by
  unfold handleTainted at h
  split at h
  case h_1 => cases h
  case h_2 sibling hfind =>
    split at h
    · cases h
    · split at h
      case isFalse => cases h
      case isTrue =>
        have hshadow : Event.sent q ∉
            (if sibling.port = 12346 then s.shadowTscUpdate amb.osTime else (s, [])).2 := by
          split
          · exact s.shadowTscUpdate_sends_nothing amb.osTime q
          · simp
        generalize (if sibling.port = 12346 then s.shadowTscUpdate amb.osTime else (s, [])) = r
          at h hshadow
        rcases List.mem_append.mp h with h | h
        · exact absurd h hshadow
        · exact ⟨sibling, _, _, hfind, Event.sent.inj (eq_of_mem_sendMessage h)⟩

theorem ENode.handleTainted_sends {s : ENode} {payload : List UInt8} {src : Addr} {amb : Ambient}
    {q : Packet} (hhead : payload.head? = some letterT)
    (h : Event.sent q ∈ (s.handleTainted payload src amb).events) :
    Sends (.recv payload src amb) q := by
  obtain ⟨sibling, recTs, xmtTs, _, rfl⟩ := eq_of_sent_handleTainted h
  exact .answer payload src amb _ recTs xmtTs hhead

theorem ENode.handleDrift_sends_nothing (s : ENode) (payload : List UInt8) (amb : Ambient)
    (q : Packet) : Event.sent q ∉ (s.handleDrift payload amb).events := by
  unfold handleDrift
  split
  · simp [Outcome.quiet]
  · exact s.shadowTscUpdate_sends_nothing amb.osTime q

/-- A handler sends nothing, or the answer of case 'T', or the message itself. -/
theorem ENode.handleMessage_sends {s : ENode} {payload : List UInt8} {src : Addr} {amb : Ambient}
    {q : Packet} (h : Event.sent q ∈ (s.handleMessage payload src amb).events) :
    Sends (.recv payload src amb) q := by
  by_cases hS : payload.head? = some letterS
  · rw [handleMessage_sibling hS] at h
    cases h
  by_cases hT : payload.head? = some letterT
  · rw [handleMessage_tainted hT] at h
    exact handleTainted_sends hT h
  by_cases hU : payload.head? = some letterU
  · rw [handleMessage_untaint hU] at h
    cases h
  by_cases hD : payload.head? = some letterD
  · rw [handleMessage_drift hD] at h
    exact absurd h (handleDrift_sends_nothing s payload amb q)
  cases payload with
  | nil => cases h
  | cons tag tail =>
      have hletters : ∀ letter ∈ [letterS, letterT, letterU, letterD],
          (tag :: tail).head? ≠ some letter := by simp_all
      simp only [List.head?_cons, Option.some.injEq] at hS hT hU hD
      simp only [handleMessage, hS, hT, hU, hD, if_false] at h
      obtain rfl := Event.sent.inj (eq_of_mem_sendMessage h)
      exact .sendBack _ src amb hletters

theorem System.Effect.sends {b : Build} {s : System} {a : Action} {es : List Event} {n : ENode}
    {q : Packet} (h : System.Effect b s a es n) (hq : Event.sent q ∈ es) : Sends a q := by
  cases h with
  | monitor amb => exact .drift (monitorStep_onlyDrift b s.node amb s.monitor q hq)
  | aex amb => simp [ENode.aexHandler] at hq
  | refresh amb => exact refreshStep_sends hq
  | recv => exact ENode.handleMessage_sends hq
  | recvFailed => exact ENode.handleMessage_sends hq
  | addSibling => exact ENode.addSibling_sends hq
  | clientReturn => simp at hq
  | _ => cases hq

end TriHaRd
