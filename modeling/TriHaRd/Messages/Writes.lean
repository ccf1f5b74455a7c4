-- SUMMARY: Which members of the node each kind of message may write.
import TriHaRd.Clock.Moves

/-!
# What a message writes

Each case of `handle_message` serves one protocol and writes the members of that
protocol only. `Writes` has one constructor for each case, guarded as the case
is, and one for all other payloads, which write nothing.

Two cases let an attacker's node shadow its TSC first. For an honest node that
step is none.
-/

namespace TriHaRd

/-- A well-formed 'T' message. -/
def IsTainted (payload : List UInt8) : Prop :=
  payload.head? = some letterT ∧ payload.length = tMsgExpectedLen

instance (payload : List UInt8) : Decidable (IsTainted payload) :=
  inferInstanceAs (Decidable (_ ∧ _))

/-- A 'U' message that case 'U' counts. -/
def CountsUntaint (s : ENode) (payload : List UInt8) (src : Addr) : Prop :=
  payload.head? = some letterU ∧ payload.length = uMsgExpectedLen ∧ (s.findSibling src).isSome

/-- A 'T' message that case 'T' answers. -/
def AnswersTainted (s : ENode) (payload : List UInt8) (src : Addr) : Prop :=
  IsTainted payload ∧ (s.findSibling src).isSome ∧ s.clockState = .taConsistent

/-- `Writes s payload src s'`: from `s` to `s'`, only the members change that the payload, coming
    from `src`, is for. -/
inductive Writes (s : ENode) (payload : List UInt8) (src : Addr) : ENode → Prop where
  | sibling (hhead : payload.head? = some letterS) (siblings : List Peer)
      (hsiblings : siblings = s.siblings ∨ siblings = s.siblings ++ [Peer.new src]) :
      Writes s payload src { s with siblings := siblings }
  | tainted (hanswers : AnswersTainted s payload src) (tsRef : Timespec) (tscRef : ℤ) :
      Writes s payload src { s with tsRef := tsRef, tscRef := tscRef }
  | untaint (hcounts : CountsUntaint s payload src) (tainted : Bool)
      (htainted : tainted = true → s.tainted = true) (record : Peer → Peer)
      (hrecord : ∀ peer, (record peer).toAddr = peer.toAddr) :
      Writes s payload src { s with
        tainted := tainted
        siblings := Table.update Peer.toAddr src record s.siblings }
  | drift (hdrift : IsDrift payload) (clockOffset : Timespec) (nodeState : NodeState)
      (clockState : ClockState) (tscFreq : ℚ) (pollExponent : ℕ) (calibCount : Bool)
      (tsRef : Timespec) (tscRef lastUpdateTsc : ℤ) (calibRecvd : CalibMsg)
      (passCount startupCount : ℤ) (trainStartTs trainStopTs : Timespec) (enterFreq : Bool) :
      Writes s payload src { s with
        clockOffset := clockOffset
        nodeState := nodeState
        clockState := clockState
        tscFreq := tscFreq
        pollExponent := pollExponent
        calibCount := calibCount
        tsRef := tsRef
        tscRef := tscRef
        lastUpdateTsc := lastUpdateTsc
        calibRecvd := calibRecvd
        statics := { s.statics with
          passCount := passCount
          startupCount := startupCount
          trainStartTs := trainStartTs
          trainStopTs := trainStopTs
          enterFreq := enterFreq } }
  | nothing (hsibling : payload.head? ≠ some letterS) (htainted : ¬ AnswersTainted s payload src)
      (huntaint : ¬ CountsUntaint s payload src) (hdrift : ¬ IsDrift payload) :
      Writes s payload src s

namespace ENode

variable {s : ENode} {payload : List UInt8} {src : Addr}

/-! ## The cases -/

/-- The state that the case begins from: an attacker's node may have shadowed its TSC. -/
def shadows (s m : ENode) : Prop := m = s ∨ ∃ osTime, m = (s.shadowTscUpdate osTime).1

theorem shadows_of_honest {m : ENode} (honest : s.attacker = false) (h : s.shadows m) : m = s := by
  rcases h with rfl | ⟨osTime, rfl⟩
  · rfl
  · rw [shadowTscUpdate_of_honest osTime honest]

/-- Shadowing writes no member that a case looks at. -/
theorem shadows_keeps {m : ENode} (h : s.shadows m) :
    m.siblings = s.siblings ∧ m.clockState = s.clockState := by
  rcases h with rfl | ⟨osTime, rfl⟩
  · exact ⟨rfl, rfl⟩
  · unfold shadowTscUpdate
    split <;> exact ⟨rfl, rfl⟩

theorem handleSibling_writes (hhead : payload.head? = some letterS) :
    Writes s payload src (s.handleSibling src) := by
  unfold handleSibling
  split
  · exact .sibling hhead s.siblings (.inl rfl)
  · exact .sibling hhead _ (.inr rfl)

theorem handleUntaint_writes (hcounts : CountsUntaint s payload src) :
    Writes s payload src (s.handleUntaint payload src) := by
  obtain ⟨_, hlength, hknown⟩ := id hcounts
  rw [handleUntaint_of_sibling hlength hknown]
  refine .untaint hcounts _ (fun htainted => ?_) _ (s.recordReply_toAddr (readUntaint payload))
  exact (Bool.and_eq_true_iff.mp htainted).1

theorem handleTainted_writes (hanswers : AnswersTainted s payload src) (amb : Ambient) :
    ∃ m, s.shadows m ∧ Writes m payload src (s.handleTainted payload src amb).node := by
  obtain ⟨⟨_, hlength⟩, hknown, hconsistent⟩ := id hanswers
  obtain ⟨sibling, hsibling⟩ := Option.isSome_iff_exists.mp hknown
  unfold handleTainted
  simp only [hsibling, hlength, hconsistent, ne_eq, not_true_eq_false, if_false, if_true]
  have hshadows : s.shadows
      (if sibling.port = 12346 then s.shadowTscUpdate amb.osTime else (s, [])).1 := by
    split
    · exact .inr ⟨amb.osTime, rfl⟩
    · exact .inl rfl
  generalize (if sibling.port = 12346 then s.shadowTscUpdate amb.osTime else (s, [])) = r
    at hshadows
  obtain ⟨hsiblings, hclockState⟩ := shadows_keeps hshadows
  refine ⟨r.1, hshadows, .tainted ?_ _ _⟩
  rw [AnswersTainted, findSibling, hsiblings, hclockState]
  exact hanswers

/-- What comes before `select_clock` writes the verdict and the state. -/
theorem judged_eq (s : ENode) : s.detectSpike.judgeClock =
    { s with
      nodeState := s.detectSpike.judgeClock.nodeState
      clockState := s.detectSpike.judgeClock.clockState } := by
  unfold judgeClock detectSpike
  split_ifs <;> rfl

theorem applyDrift_writes (hdrift : IsDrift payload) (s : ENode) (msg : DriftMsg) (count : ℤ) :
    Writes s payload src ((s.applyDrift msg).storeRecvd count) := by
  rw [applyDrift, applyOffset, judged_eq, selectClock_eq_setClock]
  exact .drift hdrift _ _ _ _ _ _ _ _ _ _ _ _ _ _ _

theorem handleDrift_writes (hdrift : IsDrift payload) (s : ENode) (amb : Ambient) :
    ∃ m, s.shadows m ∧ Writes m payload src (s.handleDrift payload amb).node := by
  rw [handleDrift_of_length hdrift.2]
  exact ⟨_, .inr ⟨amb.osTime, rfl⟩, applyDrift_writes hdrift _ _ _⟩

/-- A payload that no case is for changes nothing. -/
theorem handleMessage_of_other (hsibling : payload.head? ≠ some letterS)
    (htainted : ¬ AnswersTainted s payload src) (huntaint : ¬ CountsUntaint s payload src)
    (hdrift : ¬ IsDrift payload) (amb : Ambient) : (s.handleMessage payload src amb).node = s := by
  by_cases hT : payload.head? = some letterT
  · rw [handleMessage_tainted hT]
    unfold handleTainted
    split
    · rfl
    case h_2 sibling hfind =>
      split
      · rfl
      case isFalse hlength =>
        split
        case isTrue hconsistent =>
          exact absurd ⟨⟨hT, not_not.mp hlength⟩, by simp [hfind], hconsistent⟩ htainted
        case isFalse => rfl
  by_cases hU : payload.head? = some letterU
  · rw [handleMessage_untaint hU]
    exact handleUntaint_of_dropped fun haccept => huntaint ⟨hU, haccept⟩
  by_cases hD : payload.head? = some letterD
  · rw [handleMessage_drift hD, handleDrift, if_pos fun hlen => hdrift ⟨hD, hlen⟩]
    rfl
  cases payload with
  | nil => rfl
  | cons tag tail =>
      simp only [List.head?_cons, ne_eq, Option.some.injEq] at hsibling hT hU hD
      simp only [handleMessage, hsibling, hT, hU, hD, if_false]

/-! ## All messages -/

theorem handleMessage_writes_shadowed (s : ENode) (payload : List UInt8) (src : Addr)
    (amb : Ambient) :
    ∃ m, s.shadows m ∧ Writes m payload src (s.handleMessage payload src amb).node := by
  by_cases hS : payload.head? = some letterS
  · rw [handleMessage_sibling hS]
    exact ⟨s, .inl rfl, handleSibling_writes hS⟩
  by_cases hT : AnswersTainted s payload src
  · rw [handleMessage_tainted hT.1.1]
    exact handleTainted_writes hT amb
  by_cases hU : CountsUntaint s payload src
  · rw [handleMessage_untaint hU.1]
    exact ⟨s, .inl rfl, handleUntaint_writes hU⟩
  by_cases hD : IsDrift payload
  · rw [handleMessage_drift hD.1]
    exact handleDrift_writes hD s amb
  rw [handleMessage_of_other hS hT hU hD]
  exact ⟨s, .inl rfl, .nothing hS hT hU hD⟩

end ENode

/-- An honest node that handles a message writes only the members that the message is for. -/
theorem message_writes {s : ENode} (honest : s.attacker = false) (payload : List UInt8)
    (src : Addr) (amb : Ambient) : Writes s payload src (s.handleMessage payload src amb).node := by
  obtain ⟨m, hshadows, hwrites⟩ := s.handleMessage_writes_shadowed payload src amb
  rwa [ENode.shadows_of_honest honest hshadows] at hwrites

open Scenario in
/-- The theorem at a 'Sibling' message from a node that is not in the table. -/
theorem message_writes_sibling :
    Writes boot.node siblingStr peerB { boot.node with siblings := [Peer.new peerB] } := by
  have hnode : (boot.node.handleMessage siblingStr peerB (reading 0)).node =
      { boot.node with siblings := [Peer.new peerB] } := by decide
  have hwrites := message_writes (s := boot.node) (by decide) siblingStr peerB (reading 0)
  rwa [hnode] at hwrites

end TriHaRd
