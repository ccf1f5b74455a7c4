-- SUMMARY: Which clock offsets of a sibling the node records as consistent.
import TriHaRd.Clock.Offset
import TriHaRd.Untainting.Quorum

/-!
# The verdict on a sibling

Case 'U' compares the sibling's offset with the threshold, and does not take its
absolute value first, as case 'D' does for the node's own verdict. Every sibling
whose clock is behind counts as consistent.

The timestamps are whatever the message carries. If the sums over them leave the 64
bits of `time_t`, C++ defines no result, and nothing is said about the verdict.
-/

namespace TriHaRd

open Lts

/-- The offset is computed without overflow. The sibling's entry has the count of the message, and
    its verdict says whether the offset is within the threshold on both sides. -/
def TwoSided (s : ENode) (payload : List UInt8) (src : Addr) (amb : Ambient) : Prop :=
  s.UntaintFits (readUntaint payload) ∧ ∃ peer, (s.handleMessage payload src amb).node.findSibling src = some peer ∧
    peer.lastTsIsConsistent.1 = (readUntaint payload).count ∧
    (peer.lastTsIsConsistent.2 = true ↔
      |(s.peerClockOffset (readUntaint payload)).ns| < peerConsistencyDriftThreshold.ns)

namespace ENode

/-- By how many nanoseconds the four timestamps put the sibling's clock behind, on the way there
    and on the way back together. -/
def behindNs (s : ENode) (msg : UntaintMsg) : ℤ :=
  msg.orgTs.ns - msg.recTs.ns + (s.untaintRecvTs.ns - msg.xmtTs.ns)

theorem peerIsConsistent_iff_ns (s : ENode) (msg : UntaintMsg) : s.peerIsConsistent msg = true ↔
    (s.peerClockOffset msg).ns < peerConsistencyDriftThreshold.ns := by
  rw [peerIsConsistent, decide_eq_true_iff, Timespec.lt_iff_ns]

/-- The verdict is that of both sides, unless the sibling is behind by the threshold or more. -/
theorem peerIsConsistent_twoSided_iff (s : ENode) (msg : UntaintMsg) :
    (s.peerIsConsistent msg = true ↔
      |(s.peerClockOffset msg).ns| < peerConsistencyDriftThreshold.ns) ↔
      s.behindNs msg < 2 * peerConsistencyDriftThreshold.ns - 1 := by
  have hthreshold : peerConsistencyDriftThreshold.ns = 500000 := rfl
  rw [peerIsConsistent_iff_ns, abs_lt, hthreshold, ns_peerClockOffset, behindNs]
  omega

/-- The entry of the sender after an accepted message. -/
theorem findSibling_of_newer {s : ENode} {payload : List UInt8} {src : Addr} {sibling : Peer}
    (hlen : payload.length = uMsgExpectedLen) (hfind : s.findSibling src = some sibling)
    (hnewer : sibling.lastTsIsConsistent.1 < (readUntaint payload).count) :
    (s.handleUntaint payload src).findSibling src =
      some ⟨sibling.toAddr, ((readUntaint payload).count, s.peerIsConsistent (readUntaint payload)),
        (readUntaint payload).viewsAsConsistent⟩ := by
  have hsome : (s.findSibling src).isSome := by rw [hfind]; rfl
  rw [findSibling_handleUntaint hlen hsome, if_pos rfl, hfind, ← recordReply_of_newer hnewer,
    Option.map_some]

end ENode

/-- For every node and every accepted 'U' message, the recorded verdict is two-sided exactly when
    no sum over the timestamps overflows and they put the sibling behind by less than the threshold
    on average. -/
theorem twoSided_iff {s : ENode} {payload : List UInt8} {src : Addr} {sibling : Peer}
    (hU : payload.head? = some letterU) (hlen : payload.length = uMsgExpectedLen)
    (hfind : s.findSibling src = some sibling)
    (hnewer : sibling.lastTsIsConsistent.1 < (readUntaint payload).count) (amb : Ambient) :
    TwoSided s payload src amb ↔ s.UntaintFits (readUntaint payload) ∧
      s.behindNs (readUntaint payload) < 2 * peerConsistencyDriftThreshold.ns - 1 := by
  have hentry := ENode.findSibling_of_newer hlen hfind hnewer
  rw [← s.peerIsConsistent_twoSided_iff, TwoSided, ENode.handleMessage_untaint hU]
  refine and_congr_right fun _ => ?_
  constructor
  · rintro ⟨peer, hpeer, _, hverdict⟩
    obtain rfl := Option.some.inj (hpeer.symm.trans hentry)
    exact hverdict
  · intro hverdict
    exact ⟨_, hentry, rfl, hverdict⟩

set_option maxRecDepth 10000 in
open Scenario in
/-- The theorem at an answer of a sibling with the node's own clock. -/
theorem twoSided_iff_answer :
    ∃ s : System, s.Reachable .aexNotify ∧ TwoSided s.node (answer true 0) peerB (reading 0) := by
  obtain ⟨tr, s, hrun, hs⟩ := exists_run_of_exec (System.step .aexNotify) boot secondRound
    (fun _ s => s.node.findSibling peerB = some (Peer.new peerB) ∧
      s.node.UntaintFits (readUntaint (answer true 0)) ∧
      s.node.behindNs (readUntaint (answer true 0)) = 0) (by decide +kernel)
  obtain ⟨hfind, hfits, hbehind⟩ := hs
  refine ⟨s, ⟨boot, tr, initial_boot, hrun⟩, ?_⟩
  rw [twoSided_iff rfl (by decide +kernel) hfind (by decide +kernel), hbehind]
  exact ⟨hfits, by decide⟩

set_option maxRecDepth 10000 in
open Scenario in
/-- A sibling that is 2 ms behind is recorded as consistent. -/
theorem verdict_one_sided :
    ¬ ∀ (b : Build) (s : System) (payload : List UInt8) (src : Addr) (amb : Ambient)
        (sibling : Peer), s.Reachable b → payload.head? = some letterU →
        payload.length = uMsgExpectedLen → s.node.findSibling src = some sibling →
        sibling.lastTsIsConsistent.1 < (readUntaint payload).count →
        TwoSided s.node payload src amb := by
  intro h
  obtain ⟨tr, s, hrun, hs⟩ := exists_run_of_exec (System.step .aexNotify) boot secondRound
    (fun _ s => s.node.findSibling peerB = some (Peer.new peerB) ∧
      (s.node.peerClockOffset (readUntaint (answer true (-2000000)))).ns = -2000000 ∧
      ((s.node.handleMessage (answer true (-2000000)) peerB (reading 0)).node.findSibling peerB).map
        Peer.lastTsIsConsistent = some (1, true)) (by decide +kernel)
  obtain ⟨hfind, hoffset, hentry⟩ := hs
  obtain ⟨_, peer, hpeer, _, hverdict⟩ := h .aexNotify s (answer true (-2000000)) peerB (reading 0)
    (Peer.new peerB) ⟨boot, tr, initial_boot, hrun⟩ rfl (by decide +kernel) hfind
    (by decide +kernel)
  rw [hpeer, Option.map_some] at hentry
  rw [Option.some.inj hentry, hoffset] at hverdict
  exact absurd (hverdict.mp rfl) (by decide)

end TriHaRd
