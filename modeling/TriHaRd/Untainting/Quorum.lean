-- SUMMARY: The quorum that clears the tainted flag: replayed messages, and what the quorum says about the siblings.
import TriHaRd.Untainting.Records

/-!
# The quorum

Case 'U' counts two things over the whole table. The first count is of the
siblings whose newest reply is to the newest round and was found consistent. The
second count, of the siblings that view this node as consistent, does not ask
for the newest round. Both only have to reach one less than the number of
siblings.
-/

namespace TriHaRd

open Lts Table

/-! ## The quorum as a property of the table -/

/-- The peer's newest reply is to round `c` and its timestamps were found consistent. -/
abbrev Peer.ConsistentIn (c : ℤ) (peer : Peer) : Prop := Peer.consistentIn c peer = true

/-- For the newest round of the table, at most one sibling is missing from each count. -/
def MeetsQuorum (siblings : List Peer) : Prop :=
  ∃ c, Peer.Newest siblings c ∧
    siblings.length ≤ siblings.countP (Peer.consistentIn c) + 1 ∧
    siblings.length ≤ siblings.countP Peer.viewsAsConsistent + 1

/-- Once the sender's entry is up to date, the test of case 'U' is `MeetsQuorum`. -/
theorem quorum_iff_meetsQuorum {recvdTaintedMsgCount : ℤ} {siblings : List Peer}
    (h : ∃ peer ∈ siblings, recvdTaintedMsgCount ≤ peer.lastTsIsConsistent.1) :
    Peer.quorum recvdTaintedMsgCount siblings = true ↔ MeetsQuorum siblings := by
  have hnewest := Peer.newest_maxTaintedMsgCount h
  simp only [Peer.quorum, Bool.and_eq_true, decide_eq_true_eq]
  simp only [Peer.consistentCount, Peer.peerConsistentCount]
  constructor
  · rintro ⟨hconsistent, hviews⟩
    exact ⟨_, hnewest, by omega, by omega⟩
  · rintro ⟨c, hc, hconsistent, hviews⟩
    rw [← hc.unique hnewest]
    constructor <;> omega

theorem not_meetsQuorum_nil : ¬ MeetsQuorum [] := by
  rintro ⟨c, ⟨⟨peer, hpeer, _⟩, _⟩, _⟩
  cases hpeer

instance : DecidablePred MeetsQuorum
  | [] => isFalse not_meetsQuorum_nil
  | peer :: siblings =>
    decidable_of_iff (Peer.quorum peer.lastTsIsConsistent.1 (peer :: siblings) = true)
      (quorum_iff_meetsQuorum ⟨peer, List.mem_cons_self, le_refl _⟩)

/-- The flag after a reply. -/
theorem tainted_handleUntaint {s : ENode} {payload : List UInt8} {src : Addr}
    (hlen : payload.length = uMsgExpectedLen) (hfind : (s.findSibling src).isSome) :
    (s.handleUntaint payload src).tainted = false ↔
      s.tainted = false ∨ MeetsQuorum (s.recordUntaint src (readUntaint payload)) := by
  have hquorum := quorum_iff_meetsQuorum
    (ENode.exists_recordUntaint_ge (readUntaint payload) hfind)
  rw [ENode.handleUntaint_of_sibling hlen hfind, ← hquorum]
  dsimp only
  rw [Bool.and_eq_false_iff, Bool.not_eq_false']

/-! ## Replayed messages -/

/-- A replayed message leaves the flag and the table alone exactly when the node is
    not tainted, or the table it already has falls short of the quorum: the quorum
    is counted again after the message was found to be a replay. -/
theorem replay_inert_iff {s : ENode} {payload : List UInt8} {src : Addr} {amb : Ambient}
    {sibling : Peer} (hU : IsUntaint payload) (hfind : s.findSibling src = some sibling)
    (hold : (readUntaint payload).count ≤ sibling.lastTsIsConsistent.1) :
    ((s.handleMessage payload src amb).node.tainted = s.tainted ∧
        (s.handleMessage payload src amb).node.siblings = s.siblings) ↔
      s.tainted = false ∨ ¬ MeetsQuorum s.siblings := by
  have hsome : (s.findSibling src).isSome := by rw [hfind]; rfl
  have htable := ENode.recordUntaint_of_replayed hfind hold
  have hflag := tainted_handleUntaint (s := s) hU.2 hsome
  have hsiblings : (s.handleUntaint payload src).siblings = s.siblings := by
    rw [ENode.handleUntaint_of_sibling hU.2 hsome]
    exact htable
  rw [htable] at hflag
  rw [ENode.handleMessage_untaint hU.1]
  dsimp only [Outcome.quiet]
  cases htainted : s.tainted with
  | false => simp [hflag, hsiblings, htainted]
  | true =>
      rw [htainted] at hflag
      simp only [Bool.true_eq_false, false_or] at hflag ⊢
      rw [← hflag]
      simp [hsiblings]

/-- An interruption, a first round that both peers answer, and a second round. -/
def Scenario.secondRound : List Action :=
  calibrated ++
    [.aex (reading 10000000100), .refresh (reading 0), .refresh (reading 0), .refresh (reading 0),
      .refresh (reading 0),
      .recv (buildUntaint 0 true ⟨1005, 50⟩ ⟨1005, 50⟩ ⟨1005, 50⟩) peerB (reading 0),
      .recv (buildUntaint 0 true ⟨1005, 50⟩ ⟨1005, 50⟩ ⟨1005, 50⟩) peerC (reading 0),
      .monitor (reading 10000000200), .monitor (reading 10030000200), .refresh (reading 0),
      .refresh (reading 0), .refresh (reading 0), .refresh (reading 0), .refresh (reading 0)]

/-- An answer to the second round from a peer whose clock is `aheadNsec` ahead. -/
def Scenario.answer (views : Bool) (aheadNsec : ℤ) : List UInt8 :=
  buildUntaint 1 views ⟨1005, 15000100⟩ ⟨1005, 15000100 + aheadNsec⟩ ⟨1005, 15000100 + aheadNsec⟩

set_option maxRecDepth 10000 in
/-- The theorem at a table with the reply of one of two peers in it. -/
theorem replay_inert_iff_answer :
    let s := { Scenario.zeroed with
      tainted := true
      siblings := [⟨Scenario.peerB, (1, true), true⟩, ⟨Scenario.peerC, (0, false), false⟩] }
    ((s.handleMessage (Scenario.answer true 0) Scenario.peerB (Scenario.reading 0)).node.tainted =
          s.tainted ∧
        (s.handleMessage (Scenario.answer true 0) Scenario.peerB (Scenario.reading 0)).node.siblings =
          s.siblings) ↔
      s.tainted = false ∨ ¬ MeetsQuorum s.siblings :=
  replay_inert_iff (by decide +kernel) rfl (by decide +kernel)

set_option maxRecDepth 10000 in
open Scenario in
/-- Peer B's answer to the second round untaints the node. The node is interrupted again,
    and the same answer arrives once more. -/
theorem replay_untaints :
    ¬ ∀ (b : Build) (s : System) (payload : List UInt8) (src : Addr) (amb : Ambient)
        (sibling : Peer), s.Reachable b → IsUntaint payload →
        s.node.findSibling src = some sibling →
        (readUntaint payload).count ≤ sibling.lastTsIsConsistent.1 →
        (s.node.handleMessage payload src amb).node.tainted = s.node.tainted ∧
          (s.node.handleMessage payload src amb).node.siblings = s.node.siblings := by
  intro h
  obtain ⟨tr, s, hrun, hs⟩ := exists_run_of_exec (System.step .aexNotify) boot
    (secondRound ++ [.recv (answer true 0) peerB (reading 0), .aex (reading 10040000200)])
    (fun _ s => s.node.findSibling peerB = some ⟨peerB, (1, true), true⟩ ∧
      s.node.tainted = true ∧
      (s.node.handleMessage (answer true 0) peerB (reading 0)).node.tainted = false)
    (by decide +kernel)
  obtain ⟨hfind, htainted, hhandled⟩ := hs
  have hclaim := h .aexNotify s (answer true 0) peerB (reading 0) _ ⟨boot, tr, initial_boot, hrun⟩
    (by decide +kernel) hfind (by decide +kernel)
  rw [htainted, hhandled] at hclaim
  exact Bool.false_ne_true hclaim.1

/-! ## What the quorum says about the siblings -/

/-- All siblings but one, and at least one, have answered the newest round of the table
    consistently, and said in that answer that they view this node as consistent. -/
def QuorumSound (tr : List NodeStep) (siblings : List Peer) : Prop :=
  ∃ c, Peer.Newest siblings c ∧ ∃ good : List Addr, good.Nodup ∧
    max 1 (siblings.length - 1) ≤ good.length ∧
    ∀ addr ∈ good, ∃ u ∈ tr, Records u ⟨addr, (c, true), true⟩

/-- What the table says about the peer once the message from `src` is counted in. -/
def ENode.standing (s : ENode) (src : Addr) (msg : UntaintMsg) (peer : Peer) : Peer :=
  if peer.toAddr = src ∧ peer.lastTsIsConsistent.1 < msg.count then
    ⟨peer.toAddr, (msg.count, s.peerIsConsistent msg), msg.viewsAsConsistent⟩
  else peer

/-- The only sibling misses one of the two verdicts; or two different siblings are each
    the only one that misses one of them. -/
def SplitQuorum (siblings : List Peer) : Prop :=
  ∃ c, Peer.Newest siblings c ∧
    ((siblings.length = 1 ∧
        ∃ peer ∈ siblings, (peer.consistentIn c && peer.viewsAsConsistent) = false) ∨
      SplitBy (Peer.consistentIn c) Peer.viewsAsConsistent siblings)

/-- `QuorumSound` can be read off the table. -/
theorem TableHistory.quorumSound_iff {tr : List NodeStep} {siblings : List Peer}
    (h : TableHistory tr siblings) {c : ℤ} (hc : Peer.Newest siblings c) :
    QuorumSound tr siblings ↔ max 1 (siblings.length - 1) ≤
      siblings.countP fun peer => peer.consistentIn c && peer.viewsAsConsistent := by
  constructor
  · rintro ⟨c', hc', good, hnodup, hlength, hgood⟩
    obtain rfl : c' = c := hc'.unique hc
    refine hlength.trans (length_le_countP Peer.toAddr hnodup fun addr haddr => ?_)
    obtain ⟨u, hu, hrec⟩ := hgood addr haddr
    obtain ⟨entry, hentry, heq, hkept⟩ := h.kept u hu _ hrec
    rcases hkept with rfl | hlt
    · exact ⟨_, hentry, heq, by simp [Peer.consistentIn]⟩
    · exact absurd (hc.2 ⟨entry, hentry, rfl⟩) (not_le.mpr hlt)
  · intro hcount
    let isGood : Peer → Bool := fun peer => peer.consistentIn c && peer.viewsAsConsistent
    refine ⟨c, hc, (siblings.filter isGood).map Peer.toAddr, ?_, ?_, ?_⟩
    · exact (List.filter_sublist.map Peer.toAddr).nodup h.distinct
    · rw [List.length_map, ← List.countP_eq_length_filter]
      exact hcount
    · intro addr haddr
      obtain ⟨peer, hpeer, rfl⟩ := List.mem_map.mp haddr
      obtain ⟨hmem, hgood⟩ := List.mem_filter.mp hpeer
      simp only [isGood, Peer.consistentIn, Bool.and_eq_true, beq_iff_eq] at hgood
      obtain ⟨⟨hcountc, hverdict⟩, hviews⟩ := hgood
      have hlast : peer.lastTsIsConsistent = (c, true) := Prod.ext hcountc hverdict
      have hpeereq : peer = ⟨peer.toAddr, (c, true), true⟩ := by rw [← hlast, ← hviews]
      rcases h.recorded peer hmem with hnew | ⟨u, hu, hrec⟩
      · rw [hnew] at hviews
        exact absurd hviews (by simp [Peer.new])
      · rw [hpeereq] at hrec
        exact ⟨u, hu, hrec⟩

/-- The quorum is met without being sound exactly in the split tables. -/
theorem TableHistory.splitQuorum_iff {tr : List NodeStep} {siblings : List Peer}
    (h : TableHistory tr siblings) (hne : siblings ≠ []) :
    SplitQuorum siblings ↔ MeetsQuorum siblings ∧ ¬ QuorumSound tr siblings := by
  have hnodup : siblings.Nodup := List.Nodup.of_map Peer.toAddr h.distinct
  constructor
  · rintro ⟨c, hc, hsplit⟩
    obtain ⟨hconsistent, hviews, hcommon⟩ := (counts_without_common_iff hnodup hne).mpr hsplit
    exact ⟨⟨c, hc, hconsistent, hviews⟩, fun hsound => hcommon ((h.quorumSound_iff hc).mp hsound)⟩
  · rintro ⟨⟨c, hc, hconsistent, hviews⟩, hnot⟩
    refine ⟨c, hc, (counts_without_common_iff hnodup hne).mp ⟨hconsistent, hviews, ?_⟩⟩
    exact fun hcommon => hnot ((h.quorumSound_iff hc).mpr hcommon)

theorem recordUntaint_eq_map_standing {s : ENode} (hdistinct : (s.siblings.map Peer.toAddr).Nodup)
    (src : Addr) (msg : UntaintMsg) :
    s.recordUntaint src msg = s.siblings.map (s.standing src msg) := by
  rw [ENode.recordUntaint, update_eq_map hdistinct]
  refine List.map_congr_left fun peer _ => ?_
  unfold ENode.standing ENode.recordReply
  by_cases haddr : peer.toAddr = src <;> simp [haddr]

/-- In every run, a reply that clears the flag does so on a sound quorum, exactly when
    the table, with the reply counted in, is not split. -/
theorem quorum_sound_iff {b : Build} {s₀ : System} {tr : List NodeStep} {t : NodeStep}
    {payload : List UInt8} {src : Addr} {amb : Ambient} (hinit : s₀.Initial)
    (hrun : NodeRun b s₀ tr t.pre) (hstep : t.IsStep (System.step b))
    (hact : t.act = .recv payload src amb) (hU : payload.head? = some letterU) :
    (t.pre.node.tainted = true → t.post.node.tainted = false →
        QuorumSound (tr ++ [t]) t.post.node.siblings) ↔
      (t.pre.node.tainted = true → t.act.IsReply t.pre.node payload src →
        ¬ SplitQuorum (t.pre.node.siblings.map (t.pre.node.standing src (readUntaint payload)))) := by
  have hempty : s₀.node.siblings = [] := by
    obtain ⟨_, _, _, _, _, _, _, rfl⟩ := hinit
    rfl
  have hhistory := tableHistory_of_run hrun hempty
  by_cases hreply : t.act.IsReply t.pre.node payload src
  · obtain ⟨hpost, _⟩ := (NodeStep.effect hstep).of_isReply hreply
    have hflag := tainted_handleUntaint hreply.2.1.2 hreply.2.2
    have hpostHistory := hhistory.reply hreply
    have hsiblings : t.post.node.siblings =
        t.pre.node.recordUntaint src (readUntaint payload) := by
      rw [hpost, ENode.handleUntaint_of_sibling hreply.2.1.2 hreply.2.2]
    have hne : t.pre.node.recordUntaint src (readUntaint payload) ≠ [] := by
      obtain ⟨peer, hpeer, _⟩ := ENode.exists_recordUntaint_ge (readUntaint payload) hreply.2.2
      exact List.ne_nil_of_mem hpeer
    rw [hsiblings, hpost, hflag, ← recordUntaint_eq_map_standing hhistory.distinct,
      hpostHistory.splitQuorum_iff hne]
    cases htainted : t.pre.node.tainted <;> simp [hreply]
  · have heffect := NodeStep.effect hstep
    rw [hact] at heffect hreply
    have hdropped : ¬ (payload.length = uMsgExpectedLen ∧ (t.pre.node.findSibling src).isSome) :=
      fun haccept => hreply ⟨⟨amb, rfl⟩, ⟨hU, haccept.1⟩, haccept.2⟩
    rw [(heffect.of_untaint hU).1, ENode.handleUntaint_of_dropped hdropped, hact]
    cases t.pre.node.tainted <;> simp [hreply]

set_option maxRecDepth 10000 in
open Scenario in
/-- The theorem at an answer that untaints the node on a sound quorum. -/
theorem quorum_sound_iff_answer :
    ∃ tr t, NodeRun .aexNotify boot tr t.pre ∧ t.post.node.tainted = false ∧
      ((t.pre.node.tainted = true → t.post.node.tainted = false →
          QuorumSound (tr ++ [t]) t.post.node.siblings) ↔
        (t.pre.node.tainted = true → t.act.IsReply t.pre.node (answer true 0) peerB →
          ¬ SplitQuorum (t.pre.node.siblings.map
            (t.pre.node.standing peerB (readUntaint (answer true 0)))))) := by
  obtain ⟨tr, t, hrun, hstep, hact, ht⟩ := exists_step_of_exec (System.step .aexNotify) boot
    secondRound (.recv (answer true 0) peerB (reading 0))
    (fun _ t => t.post.node.tainted = false) (by decide +kernel)
  exact ⟨tr, t, hrun, ht, quorum_sound_iff initial_boot hrun hstep hact rfl⟩

set_option maxRecDepth 10000 in
open Scenario in
/-- Peer C is too far ahead, but views the node as consistent. Peer B is close, but does
    not view the node as consistent. Their answers together untaint the node. -/
theorem quorum_unsound :
    ¬ ∀ (b : Build) (s₀ : System) (tr : List NodeStep) (t : NodeStep) (payload : List UInt8)
        (src : Addr) (amb : Ambient), s₀.Initial → NodeRun b s₀ tr t.pre →
        t.IsStep (System.step b) → t.act = .recv payload src amb →
        payload.head? = some letterU → t.pre.node.tainted = true → t.post.node.tainted = false →
        QuorumSound (tr ++ [t]) t.post.node.siblings := by
  intro h
  obtain ⟨tr, t, hrun, hstep, hact, ht⟩ := exists_step_of_exec (System.step .aexNotify) boot
    (secondRound ++ [.recv (answer true 2000000) peerC (reading 0)])
    (.recv (answer false 0) peerB (reading 0))
    (fun _ t => t.pre.node.tainted = true ∧ t.post.node.tainted = false ∧
      t.post.node.siblings = [⟨peerB, (1, true), false⟩, ⟨peerC, (1, false), true⟩])
    (by decide +kernel)
  obtain ⟨htainted, hcleared, hsiblings⟩ := ht
  have hsound := h .aexNotify boot tr t _ _ _ initial_boot hrun hstep hact rfl htainted hcleared
  have hhistory := tableHistory_of_run (.snoc hrun hstep) rfl
  have hnewest : Peer.Newest t.post.node.siblings 1 := by
    rw [hsiblings]
    exact ⟨⟨_, List.mem_cons_self, rfl⟩, by rintro c ⟨peer, hpeer, rfl⟩; revert peer; decide⟩
  have hcount := (hhistory.quorumSound_iff hnewest).mp hsound
  rw [hsiblings] at hcount
  revert hcount
  decide +kernel

end TriHaRd
