-- SUMMARY: When the siblings that untaint a node have answered a round sent after it was tainted.
import TriHaRd.Untainting.Quorum
import Mathlib.Data.List.DropRight

/-!
# Freshness

The AEX counter is compared in the refresh loop, but the flag is cleared in case
'U', which does not know when the round was sent that a reply answers. A reply
to a round from before the last taint event can still clear the flag. It cannot
when, at each reply that completes the quorum, some recorded reply or this one
answers a round sent since then.
-/

namespace TriHaRd

open Lts Table

/-! ## Rounds, answers, and the time since the last taint event -/

/-- The steps after the most recent taint event. -/
def sinceTaint (tr : List NodeStep) : List NodeStep :=
  tr.rtakeWhile fun t => decide (Event.taint ∉ t.events)

/-- The count of the 'Tainted' message that the event sends. -/
def Event.roundCount : Event → Option ℤ
  | .sent q => if q.payload.head? = some letterT then some (readTainted q.payload).count else none
  | _ => none

/-- `payload` is what case 'T' builds in answer to `question`, with some verdict and some
    timestamps of the sibling's clock. -/
def IsAnswerTo (question payload : List UInt8) : Prop :=
  payload = buildUntaint (readTainted question).count (readUntaint payload).viewsAsConsistent
    (readTainted question).orgTs (readUntaint payload).recTs (readUntaint payload).xmtTs

instance (question payload : List UInt8) : Decidable (IsAnswerTo question payload) :=
  inferInstanceAs (Decidable (_ = _))

/-- The event sends `src` the 'Tainted' message that `payload` is an answer to. -/
def Event.IsAnsweredBy (src : Addr) (payload : List UInt8) : Event → Prop
  | .sent q => q.dst = src ∧ q.payload.head? = some letterT ∧ IsAnswerTo q.payload payload
  | _ => False

instance (src : Addr) (payload : List UInt8) : DecidablePred (Event.IsAnsweredBy src payload)
  | .sent _ => inferInstanceAs (Decidable (_ ∧ _))
  | .served _ => isFalse id
  | .taint => isFalse id

/-- A reply that the step delivers from a sibling is an answer to a message that the node
    sent to this sibling before. -/
def HonestAnswer (before : List NodeStep) (t : NodeStep) : Prop :=
  match t.act with
  | .recv payload src _ => IsUntaint payload → (t.pre.node.findSibling src).isSome →
      ∃ u ∈ before, ∃ e ∈ u.events, e.IsAnsweredBy src payload
  | _ => True

instance : DecidablePred (Function.uncurry HonestAnswer) := fun ⟨before, t⟩ => by
  unfold Function.uncurry HonestAnswer
  dsimp only
  split <;> infer_instance

/-- A reply of `peer`, to a message sent after the most recent taint event, is recorded as
    the entry `peer`. -/
def AnsweredSinceTaint (tr : List NodeStep) (peer : Peer) : Prop :=
  ∃ older u mid r newer, sinceTaint tr = older ++ u :: (mid ++ r :: newer) ∧ Records r peer ∧
    ∃ payload, r.act.IsReply r.pre.node payload peer.toAddr ∧
      ∃ e ∈ u.events, e.IsAnsweredBy peer.toAddr payload

/-- If the step clears the flag, all the siblings it counts have answered since the most
    recent taint event. -/
def UntaintsFresh (before : List NodeStep) (t : NodeStep) : Prop :=
  t.pre.node.tainted = true → t.post.node.tainted = false →
    ∀ c, Peer.Newest t.post.node.siblings c → ∀ peer ∈ t.post.node.siblings,
      peer.ConsistentIn c → AnsweredSinceTaint (before ++ [t]) peer

/-- If the step delivers a reply that completes the quorum of a tainted node, this reply or
    one already recorded has the count of a round sent after the most recent taint event. -/
def Timely (before : List NodeStep) (t : NodeStep) : Prop :=
  match t.act with
  | .recv payload src _ => IsUntaint payload → (t.pre.node.findSibling src).isSome →
      t.pre.node.tainted = true →
      MeetsQuorum (t.pre.node.siblings.map (t.pre.node.standing src (readUntaint payload))) →
      ∃ u ∈ sinceTaint before, ∃ e ∈ u.events,
        e.roundCount = some (readUntaint payload).count ∨
          ∃ peer ∈ t.pre.node.siblings, e.roundCount = some peer.lastTsIsConsistent.1
  | _ => True

instance : DecidablePred (Function.uncurry Timely) := fun ⟨before, t⟩ => by
  unfold Function.uncurry Timely
  dsimp only
  split <;> infer_instance

theorem sinceTaint_snoc (tr : List NodeStep) {t : NodeStep} (h : Event.taint ∉ t.events) :
    sinceTaint (tr ++ [t]) = sinceTaint tr ++ [t] :=
  List.rtakeWhile_concat_pos _ _ _ (decide_eq_true h)

theorem exists_append_sinceTaint (tr : List NodeStep) : ∃ older, older ++ sinceTaint tr = tr :=
  List.rtakeWhile_suffix _ _

theorem HonestAnswer.answers {before : List NodeStep} {t : NodeStep} {payload : List UInt8}
    {src : Addr} (h : HonestAnswer before t) (hreply : t.act.IsReply t.pre.node payload src) :
    ∃ u ∈ before, ∃ e ∈ u.events, e.IsAnsweredBy src payload := by
  obtain ⟨⟨amb, hact⟩, hU, hfind⟩ := hreply
  rw [HonestAnswer, hact] at h
  exact h hU hfind

theorem Timely.round {before : List NodeStep} {t : NodeStep} {payload : List UInt8} {src : Addr}
    (h : Timely before t) (hreply : t.act.IsReply t.pre.node payload src)
    (htainted : t.pre.node.tainted = true)
    (hquorum : MeetsQuorum
      (t.pre.node.siblings.map (t.pre.node.standing src (readUntaint payload)))) :
    ∃ u ∈ sinceTaint before, ∃ e ∈ u.events,
      e.roundCount = some (readUntaint payload).count ∨
        ∃ peer ∈ t.pre.node.siblings, e.roundCount = some peer.lastTsIsConsistent.1 := by
  obtain ⟨⟨amb, hact⟩, hU, hfind⟩ := hreply
  rw [Timely, hact] at h
  exact h hU hfind htainted hquorum

theorem IsAnswerTo.count_eq {question payload : List UInt8} (h : IsAnswerTo question payload) :
    (readUntaint payload).count = (readTainted question).count := by
  have hread := congrArg readUntaint h
  rw [readUntaint_buildUntaint] at hread
  rw [hread]
  dsimp only
  rw [wireLongLong_readTainted]

theorem Event.IsAnsweredBy.roundCount_eq {e : Event} {src : Addr} {payload : List UInt8}
    (h : e.IsAnsweredBy src payload) : e.roundCount = some (readUntaint payload).count := by
  cases e with
  | sent q =>
      obtain ⟨_, hT, hanswer⟩ := h
      rw [roundCount, if_pos hT, hanswer.count_eq]
  | served ts => exact h.elim
  | taint => exact h.elim

/-! ## Rounds are numbered in the order they are sent -/

variable {b : Build} {s₀ s s' : System} {tr : List NodeStep}

theorem PeerMove.rounds_le {s s' : ENode} {a : Action} {es : List Event} (h : PeerMove s a es s') :
    s.statics.taintedMsgCount ≤ s'.statics.taintedMsgCount := by
  cases h with
  | keep h _ => exact h.rounds.ge
  | round amb h _ =>
      rw [(Prod.mk.inj h).1]
      exact (lt_add_one s.statics.taintedMsgCount).le
  | join addr _ _ hpost _ _ => rw [hpost]
  | reply payload src hreply hpost _ =>
      rw [hpost, ENode.handleUntaint_of_sibling hreply.2.1.2 hreply.2.2]

/-- A step that sends a round sends it with the current count, and counts it. -/
theorem PeerMove.roundCount {s s' : ENode} {a : Action} {es : List Event} {e : Event} {c : ℤ}
    (h : PeerMove s a es s') (he : e ∈ es) (hc : e.roundCount = some c) :
    c = wireLongLong s.statics.taintedMsgCount ∧
      s'.statics.taintedMsgCount = s.statics.taintedMsgCount + 1 := by
  obtain ⟨q, rfl, hT, rfl⟩ : ∃ q, e = .sent q ∧ q.payload.head? = some letterT ∧
      (readTainted q.payload).count = c := by
    cases e with
    | sent q =>
        rw [Event.roundCount] at hc
        split at hc
        case isTrue hT => exact ⟨q, rfl, hT, Option.some.inj hc⟩
        case isFalse => cases hc
    | served ts => cases hc
    | taint => cases hc
  cases h with
  | keep h _ => exact absurd hT (h.sends q he)
  | round amb h _ =>
      obtain ⟨hpost, hes⟩ := Prod.mk.inj h
      rw [hes] at he
      obtain ⟨peer, _, hq⟩ := ENode.mem_sendTaintedMessages he
      rw [Event.sent.inj hq, hpost]
      exact ⟨congrArg TaintedMsg.count (readTainted_buildTainted _ _ _), rfl⟩
  | join addr _ _ _ hes _ =>
      rcases hes with rfl | rfl
      · cases he
      · rw [Event.sent.inj (List.mem_singleton.mp he), head_siblingStr] at hT
        exact absurd hT (by decide)
  | reply payload src _ _ hes =>
      rw [hes] at he
      cases he

/-- The rounds of a run are numbered from the count at its start to the one at its end. -/
theorem roundCount_of_run (hrun : NodeRun b s tr s')
    (hnonneg : 0 ≤ s.node.statics.taintedMsgCount)
    (hrange : ∀ t ∈ tr, t.post.node.statics.taintedMsgCount < 2 ^ 63) :
    s.node.statics.taintedMsgCount ≤ s'.node.statics.taintedMsgCount ∧
      ∀ u ∈ tr, ∀ e ∈ u.events, ∀ c, e.roundCount = some c →
        s.node.statics.taintedMsgCount ≤ c ∧ c < s'.node.statics.taintedMsgCount := by
  refine hrun.history_of (I := fun past s' =>
    s.node.statics.taintedMsgCount ≤ s'.node.statics.taintedMsgCount ∧
      ∀ u ∈ past, ∀ e ∈ u.events, ∀ c, e.roundCount = some c →
        s.node.statics.taintedMsgCount ≤ c ∧ c < s'.node.statics.taintedMsgCount)
    (fun past t hs hmax h => ?_) (EachStep.iff_forall_mem.mpr hrange) ⟨le_refl _, by simp⟩
  have hmove := NodeStep.peerMove hs
  obtain ⟨hle, hbetween⟩ := h
  refine ⟨hle.trans hmove.rounds_le, fun u hu e he c hc => ?_⟩
  rcases List.mem_append.mp hu with hmem | hlast
  · obtain ⟨hlow, hhigh⟩ := hbetween u hmem e he c hc
    exact ⟨hlow, hhigh.trans_le hmove.rounds_le⟩
  · rw [List.mem_singleton.mp hlast] at he
    obtain ⟨hcount, hnext⟩ := hmove.roundCount he hc
    rw [wireLongLong_of_range (by omega) (by omega)] at hcount
    omega

/-- Only a reply can clear the flag. -/
theorem PeerMove.reply_of_untaints {s s' : ENode} {a : Action} {es : List Event}
    (h : PeerMove s a es s') (hpre : s.tainted = true) (hpost : s'.tainted = false) :
    ∃ payload src, a.IsReply s payload src ∧ s' = s.handleUntaint payload src ∧ es = [] := by
  cases h with
  | keep h _ =>
      rw [h.tainted, hpre] at hpost
      cases hpost
  | round amb h _ =>
      rw [(Prod.mk.inj h).1] at hpost
      exact absurd (hpre.symm.trans hpost) (by decide)
  | join addr _ _ h _ _ =>
      rw [h] at hpost
      exact absurd (hpre.symm.trans hpost) (by decide)
  | reply payload src hreply h hes => exact ⟨payload, src, hreply, h, hes⟩

/-! ## Fresh untainting -/

/-- The reply's count, and any count in the table before it, are at most the newest after it. -/
theorem le_newest_of_reply {t : NodeStep} {payload : List UInt8} {src : Addr} {c : ℤ}
    (hdistinct : (t.pre.node.siblings.map Peer.toAddr).Nodup)
    (hfind : (t.pre.node.findSibling src).isSome)
    (hc : Peer.Newest (t.pre.node.recordUntaint src (readUntaint payload)) c) :
    (readUntaint payload).count ≤ c ∧
      ∀ peer ∈ t.pre.node.siblings, peer.lastTsIsConsistent.1 ≤ c := by
  constructor
  · obtain ⟨peer, hpeer, hle⟩ := ENode.exists_recordUntaint_ge (readUntaint payload) hfind
    exact hle.trans (hc.2 ⟨peer, hpeer, rfl⟩)
  · intro peer hpeer
    have hmem : t.pre.node.standing src (readUntaint payload) peer ∈
        t.pre.node.recordUntaint src (readUntaint payload) := by
      rw [recordUntaint_eq_map_standing hdistinct]
      exact List.mem_map_of_mem hpeer
    have hge : peer.lastTsIsConsistent.1 ≤
        (t.pre.node.standing src (readUntaint payload) peer).lastTsIsConsistent.1 := by
      unfold ENode.standing
      split
      case isTrue hnewer => exact hnewer.2.le
      case isFalse => exact le_refl _
    exact hge.trans (hc.2 ⟨_, hmem, rfl⟩)

/-- A round that was sent with the count `c` of a round since the last taint event, or a
    newer one, was itself sent since then. So the answer to it is fresh. -/
theorem answeredSinceTaint_of_records {older : List NodeStep} {t : NodeStep} {m : System}
    {peer : Peer} (hafter : Event.taint ∉ t.events) (holder : older ++ sinceTaint tr = tr)
    (hhonest : EachStep HonestAnswer (tr ++ [t]))
    (hcounts : ∀ u ∈ older, ∀ e ∈ u.events, ∀ c, e.roundCount = some c →
      c < m.node.statics.taintedMsgCount)
    (hpeer : m.node.statics.taintedMsgCount ≤ peer.lastTsIsConsistent.1)
    (hrecorded : ∃ r ∈ tr ++ [t], Records r peer) : AnsweredSinceTaint (tr ++ [t]) peer := by
  obtain ⟨r, hr, hrecords⟩ := hrecorded
  obtain ⟨before, after, hsplit⟩ := List.append_of_mem hr
  obtain ⟨payload, old, hreply, _, _, hentry, _⟩ := id hrecords
  obtain ⟨u, hu, e, he, hanswer⟩ := (hhonest before r after hsplit).answers hreply
  have hround := hanswer.roundCount_eq
  have hnotOlder : u ∉ older := by
    intro hmem
    have hlt := hcounts u hmem e he _ hround
    rw [hentry] at hpeer
    exact absurd hpeer (not_le.mpr hlt)
  have hsince : sinceTaint (tr ++ [t]) = sinceTaint tr ++ [t] := sinceTaint_snoc tr hafter
  rw [← holder, List.append_assoc] at hsplit
  rcases List.append_eq_append_iff.mp hsplit with ⟨mid, rfl, hnewer⟩ | ⟨mid, holder, _⟩
  · have hmid : u ∈ mid := (List.mem_append.mp hu).resolve_left hnotOlder
    obtain ⟨first, between, rfl⟩ := List.append_of_mem hmid
    refine ⟨first, u, between, r, after, ?_, hrecords, payload, hreply, e, he, hanswer⟩
    rw [hsince, hnewer]
    simp
  · exact absurd (holder ▸ List.mem_append_left mid hu) hnotOlder

/-- In every run with honest answers in which all replies are timely, the flag is only
    cleared when every sibling that is counted has answered since the last taint event. -/
theorem untaint_fresh (hinit : s₀.Initial) (hrun : NodeRun b s₀ tr s)
    (hrange : ∀ t ∈ tr, t.post.node.statics.taintedMsgCount < 2 ^ 63)
    (hhonest : EachStep HonestAnswer tr) (htimely : EachStep Timely tr) :
    EachStep UntaintsFresh tr := by
  intro before t after htr hpre hpost c hc peer hpeer hconsistent
  have hempty : s₀.node.siblings = [] := by
    obtain ⟨_, _, _, _, _, _, _, rfl⟩ := hinit
    rfl
  have hzero : s₀.node.statics.taintedMsgCount = 0 := by
    obtain ⟨_, _, _, _, _, _, _, rfl⟩ := hinit
    rfl
  rw [htr] at hrun
  obtain ⟨hbefore, hstep, _⟩ := hrun.split_at
  obtain ⟨payload, src, hreply, hhandled, hes⟩ :=
    (NodeStep.peerMove hstep).reply_of_untaints hpre hpost
  have hdistinct := (tableHistory_of_run hbefore hempty).distinct
  have hsiblings : t.post.node.siblings =
      t.pre.node.recordUntaint src (readUntaint payload) := by
    rw [hhandled, ENode.handleUntaint_of_sibling hreply.2.1.2 hreply.2.2]
  -- the rounds before the last taint event have smaller counts than those after it
  obtain ⟨older, holder⟩ := exists_append_sinceTaint before
  obtain ⟨m, holderRun, hsinceRun⟩ := (holder.symm ▸ hbefore : NodeRun b s₀ _ t.pre).split
  have hmem : ∀ u ∈ before, u ∈ tr := fun u hu => htr ▸ List.mem_append_left _ hu
  obtain ⟨hm, holderCounts⟩ := roundCount_of_run holderRun hzero.ge fun u hu =>
    hrange u (hmem u (holder ▸ List.mem_append_left _ hu))
  obtain ⟨_, hsinceCounts⟩ := roundCount_of_run hsinceRun (hzero ▸ hm) fun u hu =>
    hrange u (hmem u (holder ▸ List.mem_append_right _ hu))
  -- the newest count is that of a round since then, or a larger one
  have hnewest : m.node.statics.taintedMsgCount ≤ c := by
    have hquorum : MeetsQuorum (t.pre.node.recordUntaint src (readUntaint payload)) := by
      rw [hhandled] at hpost
      apply ((tainted_handleUntaint hreply.2.1.2 hreply.2.2).mp hpost).resolve_left
      simp [hpre]
    rw [recordUntaint_eq_map_standing hdistinct] at hquorum
    obtain ⟨u, hu, e, he, hround⟩ := (htimely before t after htr).round hreply hpre hquorum
    obtain ⟨hmsg, htable⟩ := le_newest_of_reply hdistinct hreply.2.2 (hsiblings ▸ hc)
    rcases hround with hround | ⟨sibling, hsibling, hround⟩
    · exact (hsinceCounts u hu e he _ hround).1.trans hmsg
    · exact (hsinceCounts u hu e he _ hround).1.trans (htable sibling hsibling)
  -- the peer's entry was recorded from an answer to a round with this count
  obtain ⟨hcount, hverdict⟩ : peer.lastTsIsConsistent.1 = c ∧ peer.lastTsIsConsistent.2 = true := by
    simpa [Peer.ConsistentIn, Peer.consistentIn] using hconsistent
  have hrecorded : ∃ r ∈ before ++ [t], Records r peer := by
    apply ((tableHistory_of_run (hbefore.snoc hstep) hempty).recorded peer hpeer).resolve_left
    intro hnew
    rw [hnew] at hverdict
    exact absurd hverdict (by simp [Peer.new])
  have hhonest' : EachStep HonestAnswer (before ++ [t]) := by
    intro first r rest hfirst
    exact hhonest first r (rest ++ after) (by rw [htr, List.append_cons, hfirst]; simp)
  exact answeredSinceTaint_of_records (by simp [hes]) holder hhonest'
    (fun u hu e he c hc => (holderCounts u hu e he c hc).2) (hcount ▸ hnewest) hrecorded

set_option maxRecDepth 10000 in
open Scenario in
/-- The theorem at a run in which peer B's answer to the second round untaints the node. -/
theorem untaint_fresh_answer :
    ∃ tr s, NodeRun .aexNotify boot tr s ∧ s.node.tainted = false ∧
      EachStep UntaintsFresh tr := by
  obtain ⟨tr, s, hrun, hs⟩ := exists_run_of_exec (System.step .aexNotify) boot
    (secondRound ++ [.recv (answer true 0) peerB (reading 0)])
    (fun tr s => s.node.tainted = false ∧
      (∀ t ∈ tr, t.post.node.statics.taintedMsgCount < 2 ^ 63) ∧
      EachStep HonestAnswer tr ∧ EachStep Timely tr) (by decide +kernel)
  obtain ⟨huntainted, hrange, hhonest, htimely⟩ := hs
  exact ⟨tr, s, hrun, huntainted, untaint_fresh initial_boot hrun hrange hhonest htimely⟩

set_option maxRecDepth 10000 in
open Scenario in
/-- The node is interrupted while peer B's answer to the second round is under way. The
    answer untaints it, although no round was sent since the interruption. -/
theorem untaint_stale :
    ¬ ∀ (b : Build) (s₀ s : System) (tr : List NodeStep), s₀.Initial → NodeRun b s₀ tr s →
        (∀ t ∈ tr, t.post.node.statics.taintedMsgCount < 2 ^ 63) →
        EachStep HonestAnswer tr → EachStep UntaintsFresh tr := by
  intro h
  obtain ⟨tr, t, hrun, hstep, hact, ht⟩ := exists_step_of_exec (System.step .aexNotify) boot
    (secondRound ++ [.aex (reading 10040000200)]) (.recv (answer true 0) peerB (reading 0))
    (fun tr t => (∀ u ∈ tr ++ [t], u.post.node.statics.taintedMsgCount < 2 ^ 63) ∧
      EachStep HonestAnswer (tr ++ [t]) ∧ t.pre.node.tainted = true ∧
      t.post.node.tainted = false ∧
      t.post.node.siblings = [⟨peerB, (1, true), true⟩, Peer.new peerC] ∧
      ∀ u ∈ sinceTaint (tr ++ [t]), ∀ e ∈ u.events, e.roundCount = none) (by decide +kernel)
  obtain ⟨hrange, hhonest, hpre, hpost, hsiblings, hnone⟩ := ht
  have hfresh := (h .aexNotify boot t.post (tr ++ [t]) initial_boot (.snoc hrun hstep) hrange
    hhonest).last hpre hpost 1
  have hnewest : Peer.Newest t.post.node.siblings 1 := by
    rw [hsiblings]
    exact ⟨⟨_, List.mem_cons_self, rfl⟩, by rintro c ⟨peer, hpeer, rfl⟩; revert peer; decide⟩
  obtain ⟨older, u, mid, r, newer, hsplit, _, payload, _, e, he, hanswer⟩ :=
    hfresh hnewest ⟨peerB, (1, true), true⟩ (by rw [hsiblings]; simp) rfl
  have hu : u ∈ sinceTaint (tr ++ [t]) := by rw [hsplit]; simp
  have hround := hanswer.roundCount_eq
  rw [hnone u hu e he] at hround
  cases hround

end TriHaRd
