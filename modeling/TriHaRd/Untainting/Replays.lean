-- SUMMARY: Which of a sibling's replies its entry in the table keeps, and which replies are dropped as replays.
import TriHaRd.Base.Register
import TriHaRd.Untainting.Completeness
import TriHaRd.Untainting.Freshness

/-!
# Replays

The entry of a sibling is a register that keeps its newest reply, by the count of
the round. The replies of the other siblings and the other steps of the node do
not write it. A new entry has the count 0, which is also the count of the first
round that an enclave sends, so that the replies to this round count as replays.
-/

namespace TriHaRd

open Lts

/-- What the table stores of a reply. -/
structure Reply where
  count : ℤ
  verdict : Bool
  views : Bool
deriving DecidableEq, Repr

def Peer.reply (peer : Peer) : Reply where
  count := peer.lastTsIsConsistent.1
  verdict := peer.lastTsIsConsistent.2
  views := peer.viewsAsConsistent

/-- The reply with the verdict of the node on it. -/
def ENode.judge (s : ENode) (msg : UntaintMsg) : Reply where
  count := msg.count
  verdict := s.peerIsConsistent msg
  views := msg.viewsAsConsistent

/-- The reply that the step delivers from the known sibling `addr`, as it is judged there. -/
def NodeStep.replyFrom (addr : Addr) (t : NodeStep) : Option Reply :=
  match t.act with
  | .recv payload src _ =>
    if src = addr ∧ IsUntaint payload ∧ (t.pre.node.findSibling src).isSome then
      some (t.pre.node.judge (readUntaint payload))
    else none
  | _ => none

/-- The replies delivered from `addr`, in their order. -/
def repliesFrom (addr : Addr) (tr : List NodeStep) : List Reply :=
  tr.filterMap (NodeStep.replyFrom addr)

variable {b : Build} {s₀ s : System} {tr : List NodeStep} {t : NodeStep} {addr src : Addr}
  {payload : List UInt8}

theorem NodeStep.replyFrom_of_isReply (h : t.act.IsReply t.pre.node payload src) (addr : Addr) :
    NodeStep.replyFrom addr t =
      if src = addr then some (t.pre.node.judge (readUntaint payload)) else none := by
  obtain ⟨⟨amb, hact⟩, hU, hfind⟩ := h
  simp only [NodeStep.replyFrom, hact, hU, hfind, and_true]

theorem NodeStep.replyFrom_eq_none (h : ¬ ∃ payload src, t.act.IsReply t.pre.node payload src)
    (addr : Addr) : NodeStep.replyFrom addr t = none := by
  unfold NodeStep.replyFrom
  split
  case h_1 payload src amb hact =>
    rw [if_neg]
    rintro ⟨_, hU, hfind⟩
    exact h ⟨payload, src, ⟨amb, hact⟩, hU, hfind⟩
  case h_2 => rfl

theorem Peer.ext_reply {p q : Peer} (haddr : p.toAddr = q.toAddr) (h : p.reply = q.reply) :
    p = q := by
  obtain ⟨pAddr, ⟨pCount, pVerdict⟩, pViews⟩ := p
  obtain ⟨qAddr, ⟨qCount, qVerdict⟩, qViews⟩ := q
  obtain ⟨rfl, rfl, rfl⟩ := Reply.mk.inj h
  exact congrArg (Peer.mk · _ _) haddr

/-! ## The entry is a register -/

theorem ENode.reply_recordReply (s : ENode) (msg : UntaintMsg) (sibling : Peer) :
    (s.recordReply msg sibling).reply =
      Register.write Reply.count sibling.reply (s.judge msg) := by
  rcases lt_or_ge sibling.lastTsIsConsistent.1 msg.count with hnewer | hreplayed
  · rw [recordReply_of_newer hnewer, Register.write_of_newer hnewer]
    rfl
  · rw [recordReply_of_replayed hreplayed, Register.write_of_replayed hreplayed]

/-- A step writes the entry of `addr` with the reply that it delivers from there, if any. -/
theorem NodeStep.entry_of_step (h : t.IsStep (System.step b)) {p : Peer}
    (hfind : t.pre.node.findSibling addr = some p) :
    ∃ q, t.post.node.findSibling addr = some q ∧
      q.reply = Register.writes Reply.count p.reply (NodeStep.replyFrom addr t).toList := by
  have hsame (hact : ¬ ∃ payload src, t.act.IsReply t.pre.node payload src) :
      p.reply = Register.writes Reply.count p.reply (NodeStep.replyFrom addr t).toList := by
    rw [NodeStep.replyFrom_eq_none hact]
    rfl
  cases NodeStep.peerMove h with
  | keep hkeep hact =>
      refine ⟨p, ?_, hsame hact⟩
      rw [ENode.findSibling, hkeep.siblings]
      exact hfind
  | round amb hround hact =>
      refine ⟨p, ?_, hsame hact⟩
      rw [(Prod.mk.inj hround).1]
      exact hfind
  | join added _ _ hpost _ hact =>
      refine ⟨p, ?_, hsame hact⟩
      rw [hpost, ENode.findSibling, Table.lookup, List.find?_append]
      exact congrArg (Option.or · _) hfind
  | reply payload src hreply hpost _ =>
      have hlookup : t.post.node.findSibling addr = if addr = src then
          (t.pre.node.findSibling src).map (t.pre.node.recordReply (readUntaint payload))
          else t.pre.node.findSibling addr := by
        rw [hpost, ENode.findSibling_handleUntaint hreply.2.1.2 hreply.2.2]
      rw [NodeStep.replyFrom_of_isReply hreply, hlookup]
      by_cases hsrc : addr = src
      · rw [if_pos hsrc, if_pos hsrc.symm, ← hsrc, hfind, Option.map_some, Option.toList_some]
        refine ⟨_, rfl, ?_⟩
        rw [ENode.reply_recordReply]
        exact Register.writes_singleton.symm
      · rw [if_neg hsrc, if_neg (Ne.symm hsrc), hfind]
        exact ⟨p, rfl, rfl⟩

/-- Over a run, the entry of `addr` is the register after all replies from there. -/
theorem entry_of_run (h : NodeRun b s₀ tr s) {p₀ : Peer}
    (hfind : s₀.node.findSibling addr = some p₀) :
    ∃ p, s.node.findSibling addr = some p ∧
      p.reply = Register.writes Reply.count p₀.reply (repliesFrom addr tr) := by
  refine h.history (I := fun past s => ∃ p, s.node.findSibling addr = some p ∧
    p.reply = Register.writes Reply.count p₀.reply (repliesFrom addr past))
    (fun past t hs hpast => ?_) ⟨p₀, hfind, rfl⟩
  obtain ⟨p, hp, hreply⟩ := hpast
  obtain ⟨q, hq, hwritten⟩ := NodeStep.entry_of_step hs hp
  refine ⟨q, hq, ?_⟩
  rw [hwritten, hreply]
  simp only [repliesFrom, List.filterMap_append, Register.writes, List.foldl_append]
  cases hlast : NodeStep.replyFrom addr t with
  | none => simp [hlast]
  | some r => simp [hlast]

/-- The verdict on a message depends on the clock, which a reply leaves alone. -/
theorem ENode.peerIsConsistent_handleUntaint (s : ENode) (buff : List UInt8) (src : Addr)
    (msg : UntaintMsg) :
    (s.handleUntaint buff src).peerIsConsistent msg = s.peerIsConsistent msg := by
  by_cases haccept : buff.length = uMsgExpectedLen ∧ (s.findSibling src).isSome
  · rw [handleUntaint_of_sibling haccept.1 haccept.2]
    rfl
  · rw [handleUntaint_of_dropped haccept]

/-- From any state, an entry ends with the greatest of its count and those of the replies from its
    sibling, and with the first reply that has this count. It depends on nothing else that
    happens, and no reply changes the verdict on another. -/
theorem newest_reply_kept (hrun : NodeRun b s₀ tr s) {p₀ : Peer}
    (hfind : s₀.node.findSibling addr = some p₀) :
    ∃ p, s.node.findSibling addr = some p ∧
      IsGreatest {c | c = p₀.lastTsIsConsistent.1 ∨ ∃ r ∈ repliesFrom addr tr, r.count = c}
        p.lastTsIsConsistent.1 ∧
      (p.lastTsIsConsistent.1 = p₀.lastTsIsConsistent.1 → p = p₀) ∧
      (p.lastTsIsConsistent.1 ≠ p₀.lastTsIsConsistent.1 → ∃ before after,
        repliesFrom addr tr = before ++ p.reply :: after ∧
          ∀ r ∈ before, r.count ≠ p.lastTsIsConsistent.1) ∧
      (∀ (b' : Build) (s₀' s' : System) (tr' : List NodeStep), NodeRun b' s₀' tr' s' →
        s₀'.node.findSibling addr = some p₀ → repliesFrom addr tr' = repliesFrom addr tr →
          s'.node.findSibling addr = some p) ∧
      ∀ u ∈ tr, ∀ payload src, u.act.IsReply u.pre.node payload src →
        ∀ msg, u.post.node.peerIsConsistent msg = u.pre.node.peerIsConsistent msg := by
  obtain ⟨p, hp, hreply⟩ := entry_of_run hrun hfind
  have haddr : p.toAddr = p₀.toAddr := (Table.key_of_lookup hp).trans (Table.key_of_lookup hfind).symm
  have hcount : p.lastTsIsConsistent.1 =
      (Register.writes Reply.count p₀.reply (repliesFrom addr tr)).count := congrArg Reply.count hreply
  refine ⟨p, hp, ?_, ?_, ?_, ?_, ?_⟩
  · rw [hcount]
    exact Register.stamp_writes_isGreatest Reply.count p₀.reply (repliesFrom addr tr)
  · intro hsame
    apply Peer.ext_reply haddr
    rw [hreply]
    exact Register.writes_eq_of_stamp_eq (hcount.symm.trans hsame)
  · intro hnewer
    rw [hreply, hcount]
    rcases Register.writes_eq_or_first Reply.count p₀.reply (repliesFrom addr tr) with hold | hfirst
    · rw [hold] at hcount
      exact absurd hcount hnewer
    · obtain ⟨_, before, after, hsplit, hbefore⟩ := hfirst
      exact ⟨before, after, hsplit, fun r hr => (hbefore r hr).ne⟩
  · intro b' s₀' s' tr' hrun' hfind' hreplies
    obtain ⟨p', hp', hreply'⟩ := entry_of_run hrun' hfind'
    rw [hreplies] at hreply'
    rw [hp', Peer.ext_reply ?_ (hreply'.trans hreply.symm)]
    exact (Table.key_of_lookup hp').trans (Table.key_of_lookup hp).symm
  · intro u hu payload src hisReply msg
    obtain ⟨hpost, _⟩ := (NodeStep.effect (hrun.isStep hu)).of_isReply hisReply
    rw [hpost]
    exact ENode.peerIsConsistent_handleUntaint _ payload src msg

/-- A node that has just met both peers, and whose clock stands where `answer` expects it. -/
def Scenario.acquainted : System :=
  { boot with node := { boot.node with
      siblings := [Peer.new peerB, Peer.new peerC]
      tsRef := ⟨1005, 15000100⟩ } }

set_option maxRecDepth 10000 in
open Scenario in
/-- Of two replies of peer B to one round, the second with a worse verdict, the first is kept. -/
theorem newest_reply_kept_twice : ∃ tr s, NodeRun .aexNotify acquainted tr s ∧
    repliesFrom peerB tr = [⟨1, true, true⟩, ⟨1, false, true⟩] ∧
    ∃ p, s.node.findSibling peerB = some p ∧ (p.lastTsIsConsistent.1 = 0 → p = Peer.new peerB) ∧
      (p.lastTsIsConsistent.1 ≠ 0 → ∃ before after, repliesFrom peerB tr =
        before ++ p.reply :: after ∧ ∀ r ∈ before, r.count ≠ p.lastTsIsConsistent.1) := by
  obtain ⟨tr, s, hrun, hreplies⟩ := exists_run_of_exec (System.step .aexNotify) acquainted
    [.recv (answer true 0) peerB (reading 0), .recv (answer false 2000000) peerC (reading 0),
      .recv (answer true 2000000) peerB (reading 0)]
    (fun tr _ => repliesFrom peerB tr = [⟨1, true, true⟩, ⟨1, false, true⟩]) (by decide +kernel)
  have hmet : acquainted.node.findSibling peerB = some (Peer.new peerB) := rfl
  obtain ⟨p, hp, _, hkept, hfirst, _⟩ := newest_reply_kept hrun hmet
  exact ⟨tr, s, hrun, hreplies, p, hp, hkept, hfirst⟩

-- ---------------------------------------------------------------------------
-- Replies that count as replays
-- ---------------------------------------------------------------------------

/-- No entry has a negative count. -/
theorem count_nonneg_of_run (h : NodeRun b s₀ tr s) (hempty : s₀.node.siblings = []) :
    ∀ peer ∈ s.node.siblings, 0 ≤ peer.lastTsIsConsistent.1 := by
  refine h.invariant (I := fun s => ∀ peer ∈ s.node.siblings, 0 ≤ peer.lastTsIsConsistent.1)
    (fun t hs hpre => ?_) (by simp [hempty])
  cases NodeStep.peerMove hs with
  | keep hkeep _ => rwa [hkeep.siblings]
  | round amb hround _ => rwa [(Prod.mk.inj hround).1]
  | join added _ _ hpost _ _ =>
      rw [hpost]
      intro peer hpeer
      rcases List.mem_append.mp hpeer with hold | hnew
      · exact hpre peer hold
      · rw [List.mem_singleton.mp hnew]
        exact le_refl _
  | reply payload src hreply hpost _ =>
      rw [hpost, ENode.handleUntaint_of_sibling hreply.2.1.2 hreply.2.2]
      intro peer hpeer
      rcases Table.mem_update hpeer with hold | ⟨old, hold, rfl⟩
      · exact hpre peer hold
      · rw [ENode.recordReply_count]
        exact (hpre old (Table.mem_of_lookup hold)).trans (le_max_left _ _)

/-- The step delivers a reply from `src`, and stores its count, verdict and view in the entry of
    `src`, which had another count. -/
def StoresReply (t : NodeStep) (src : Addr) : Prop :=
  ∃ reply old new, NodeStep.replyFrom src t = some reply ∧
    t.pre.node.findSibling src = some old ∧ t.post.node.findSibling src = some new ∧
    new.reply = reply ∧ old.lastTsIsConsistent.1 ≠ reply.count

/-- The step delivers the reply `payload` of the sibling `src` to a message that the node sent it
    in the step `u`, and every reply from there before this one has a smaller count. -/
def FirstReply (before : List NodeStep) (t u : NodeStep) (payload : List UInt8) (src : Addr) :
    Prop :=
  t.act.IsReply t.pre.node payload src ∧
    (u ∈ before ∧ ∃ e ∈ u.events, e.IsAnsweredBy src payload) ∧
    ∀ v ∈ before, ∀ c, Answers v c src → c < (readUntaint payload).count

theorem storesReply_iff_newer (h : t.IsStep (System.step b))
    (hreply : t.act.IsReply t.pre.node payload src) {old : Peer}
    (hold : t.pre.node.findSibling src = some old) :
    StoresReply t src ↔ old.lastTsIsConsistent.1 < (readUntaint payload).count := by
  obtain ⟨new, hnew, hwritten⟩ := NodeStep.entry_of_step h hold
  rw [NodeStep.replyFrom_of_isReply hreply, if_pos rfl, Option.toList_some,
    Register.writes_singleton] at hwritten
  constructor
  · rintro ⟨reply, old', new', hfrom, hold', hnew', hstored, hne⟩
    obtain rfl : old' = old := Option.some.inj (hold'.symm.trans hold)
    obtain rfl : new' = new := Option.some.inj (hnew'.symm.trans hnew)
    rw [NodeStep.replyFrom_of_isReply hreply, if_pos rfl] at hfrom
    obtain rfl := Option.some.inj hfrom
    rcases lt_or_ge old'.lastTsIsConsistent.1 (readUntaint payload).count with hlt | hge
    · exact hlt
    · rw [Register.write_of_replayed hge] at hwritten
      exact absurd (congrArg Reply.count (hwritten.symm.trans hstored)) hne
  · intro hlt
    rw [Register.write_of_newer hlt] at hwritten
    refine ⟨_, old, new, ?_, hold, hnew, hwritten, hlt.ne⟩
    rw [NodeStep.replyFrom_of_isReply hreply, if_pos rfl]

/-- In every run, the first reply to a round is stored exactly when the count of the round is
    positive. It is not for the first round that the enclave sends. -/
theorem storesReply_iff (hinit : s₀.Initial) (hrun : NodeRun b s₀ tr s) :
    EachStep (fun before t => ∀ u payload src, FirstReply before t u payload src →
      (StoresReply t src ↔ 0 < wireLongLong u.pre.node.statics.taintedMsgCount)) tr := by
  intro before t after htr u payload src hfirst
  obtain ⟨hreply, ⟨hu, e, he, hanswer⟩, hearlier⟩ := hfirst
  have hempty : s₀.node.siblings = [] := by
    obtain ⟨_, _, _, _, _, _, _, rfl⟩ := hinit
    rfl
  rw [htr] at hrun
  obtain ⟨hbefore, hstep, _⟩ := hrun.split_at
  obtain ⟨old, hold⟩ := Option.isSome_iff_exists.mp hreply.2.2
  have hcount : (readUntaint payload).count = wireLongLong u.pre.node.statics.taintedMsgCount :=
    ((NodeStep.peerMove (hbefore.isStep hu)).roundCount he hanswer.roundCount_eq).1
  rw [storesReply_iff_newer hstep hreply hold, ← hcount]
  have hnonneg := count_nonneg_of_run hbefore hempty old (Table.mem_of_lookup hold)
  -- the entry is new, or holds an earlier reply, which has a smaller count
  rcases (tableHistory_of_run hbefore hempty).recorded old (Table.mem_of_lookup hold) with
    hnew | ⟨v, hv, payload', _, hreply', _, _, hentry, _⟩
  · rw [hnew]
    exact Iff.rfl
  · have hlt : old.lastTsIsConsistent.1 < (readUntaint payload).count := by
      apply hearlier v hv
      refine ⟨payload', ?_, ?_⟩
      · exact (Table.key_of_lookup hold : old.toAddr = src) ▸ hreply'
      · rw [hentry]
    exact iff_of_true hlt (hnonneg.trans_lt hlt)

theorem Answers.replyFrom {c : ℤ} (h : Answers t c src) :
    ∃ reply ∈ NodeStep.replyFrom src t, reply.count = c := by
  obtain ⟨payload, hreply, hcount⟩ := h
  exact ⟨_, (NodeStep.replyFrom_of_isReply hreply src).trans (if_pos rfl), hcount⟩

/-- An interruption, and the first round. -/
def Scenario.firstRound : List Action :=
  calibrated ++ [.aex (reading 10000000100), .refresh (reading 0), .refresh (reading 0),
    .refresh (reading 0), .refresh (reading 0)]

/-- An answer to the first round. -/
def Scenario.answerFirst : List UInt8 := buildUntaint 0 true ⟨1005, 50⟩ ⟨1005, 50⟩ ⟨1005, 50⟩

set_option maxRecDepth 10000 in
open Scenario in
/-- The theorem at peer B's answer to the second round, after one to the first. -/
theorem storesReply_iff_second : ∃ tr t u, NodeRun .aexNotify boot (tr ++ [t]) t.post ∧
    FirstReply tr t u (answer true 0) peerB ∧
    (StoresReply t peerB ↔ 0 < wireLongLong u.pre.node.statics.taintedMsgCount) := by
  obtain ⟨tr, t, hrun, hstep, hact, ht⟩ := exists_step_of_exec (System.step .aexNotify) boot
    secondRound (.recv (answer true 0) peerB (reading 0))
    (fun tr t => (IsUntaint (answer true 0) ∧ (t.pre.node.findSibling peerB).isSome) ∧
      (∃ u ∈ tr, ∃ e ∈ u.events, e.IsAnsweredBy peerB (answer true 0)) ∧
      ∀ v ∈ tr, ∀ reply ∈ NodeStep.replyFrom peerB v,
        reply.count < (readUntaint (answer true 0)).count) (by decide +kernel)
  obtain ⟨hreply, ⟨u, hu, hanswer⟩, hearlier⟩ := ht
  have hfirst : FirstReply tr t u (answer true 0) peerB := by
    refine ⟨⟨⟨_, hact⟩, hreply⟩, ⟨hu, hanswer⟩, ?_⟩
    intro v hv c hc
    obtain ⟨reply, hfrom, rfl⟩ := hc.replyFrom
    exact hearlier v hv reply hfrom
  exact ⟨tr, t, u, .snoc hrun hstep, hfirst,
    (storesReply_iff initial_boot (.snoc hrun hstep)).last u (answer true 0) peerB hfirst⟩

set_option maxRecDepth 10000 in
open Scenario in
/-- Peer B answers the first round of a node, and its answer is taken for a replay. -/
theorem first_round_replayed :
    ¬ ∀ (b : Build) (s₀ s : System) (tr : List NodeStep), s₀.Initial → NodeRun b s₀ tr s →
        EachStep HonestAnswer tr →
          EachStep (fun before t => ∀ u payload src, FirstReply before t u payload src →
            StoresReply t src) tr := by
  intro h
  obtain ⟨tr, t, hrun, hstep, hact, ht⟩ := exists_step_of_exec (System.step .aexNotify) boot
    firstRound (.recv answerFirst peerB (reading 0))
    (fun tr t => EachStep HonestAnswer (tr ++ [t]) ∧
      (IsUntaint answerFirst ∧ (t.pre.node.findSibling peerB).isSome) ∧
      (∃ u ∈ tr, ∃ e ∈ u.events, e.IsAnsweredBy peerB answerFirst) ∧
      (∀ v ∈ tr, NodeStep.replyFrom peerB v = none) ∧
      t.pre.node.findSibling peerB = some (Peer.new peerB) ∧
      ∀ reply ∈ NodeStep.replyFrom peerB t, reply.count = 0) (by decide +kernel)
  obtain ⟨hhonest, hreply, ⟨u, hu, hanswer⟩, hearlier, hold, hcount⟩ := ht
  have hfirst : FirstReply tr t u answerFirst peerB := by
    refine ⟨⟨⟨_, hact⟩, hreply⟩, ⟨hu, hanswer⟩, ?_⟩
    intro v hv c hc
    obtain ⟨reply, hfrom, _⟩ := hc.replyFrom
    rw [hearlier v hv] at hfrom
    cases hfrom
  obtain ⟨reply, old, new, hfrom, hold', _, _, hne⟩ :=
    (h .aexNotify boot t.post (tr ++ [t]) initial_boot (.snoc hrun hstep) hhonest).last u
      answerFirst peerB hfirst
  obtain rfl := Option.some.inj (hold'.symm.trans hold)
  exact hne (hcount reply hfrom).symm

end TriHaRd
