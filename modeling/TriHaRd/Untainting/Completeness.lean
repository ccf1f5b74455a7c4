-- SUMMARY: Enough consistent answers to the newest round always clear the tainted flag.
import TriHaRd.Untainting.Quorum

/-!
# Quorum completeness

If all siblings but one, and at least one, answer round `c` well, the flag is
cleared, whatever else is delivered in between: answers to older rounds,
duplicates, and answers of the other siblings. `Progress` is the invariant that
carries this through the deliveries.
-/

namespace TriHaRd

open Lts Table

/-- The step delivers an answer to round `c` from the sibling `addr`. -/
def Answers (t : NodeStep) (c : ℤ) (addr : Addr) : Prop :=
  ∃ payload, t.act.IsReply t.pre.node payload addr ∧ (readUntaint payload).count = c

/-- The answer finds this node close enough, and says that it views this node as consistent. -/
def AnswersWell (t : NodeStep) (c : ℤ) (addr : Addr) : Prop :=
  ∃ payload, t.act.IsReply t.pre.node payload addr ∧ (readUntaint payload).count = c ∧
    t.pre.node.peerClockOffset (readUntaint payload) < peerConsistencyDriftThreshold ∧
    (readUntaint payload).viewsAsConsistent = true

/-- The first answer of `addr` to round `c` is a good one. -/
def FirstAnswerWell (tr : List NodeStep) (c : ℤ) (addr : Addr) : Prop :=
  ∃ before t after, tr = before ++ t :: after ∧ (∀ u ∈ before, ¬ Answers u c addr) ∧
    AnswersWell t c addr

/-- The step only delivers answers, to rounds up to `c`, and neither taints the node nor
    adds a sibling. -/
structure IsDelivery (c : ℤ) (t : NodeStep) : Prop where
  untainting : Event.taint ∉ t.events
  answers : ∀ payload src amb, t.act = .recv payload src amb →
    t.act.IsReply t.pre.node payload src ∧ (readUntaint payload).count ≤ c
  joins : ∀ addr sendOk, t.act ≠ .addSibling addr sendOk

/-- A reply can be read in one way only. -/
theorem Action.IsReply.unique {a : Action} {s : ENode} {payload payload' : List UInt8}
    {src src' : Addr} (h : a.IsReply s payload src) (h' : a.IsReply s payload' src') :
    payload = payload' ∧ src = src' := by
  obtain ⟨⟨amb, hact⟩, _⟩ := h
  obtain ⟨⟨amb', hact'⟩, _⟩ := h'
  obtain ⟨hpayload, hsrc, _⟩ := Action.recv.inj (hact.symm.trans hact')
  exact ⟨hpayload, hsrc⟩

/-- Wherever the first answer of `addr` stands in the history, it is the good one. -/
theorem FirstAnswerWell.eachStep {tr : List NodeStep} {c : ℤ} {addr : Addr}
    (h : FirstAnswerWell tr c addr) :
    EachStep (fun before t => Answers t c addr → (∀ u ∈ before, ¬ Answers u c addr) →
      AnswersWell t c addr) tr := by
  intro before t after htr hanswers hfirst
  obtain ⟨before', t', after', htr', hfirst', hwell⟩ := h
  have hanswers' : Answers t' c addr := by
    obtain ⟨payload, hreply, hcount, _⟩ := hwell
    exact ⟨payload, hreply, hcount⟩
  -- neither of the two first answers can stand before the other
  rcases List.append_eq_append_iff.mp (htr.symm.trans htr') with ⟨mid, hmid, hrest⟩ | ⟨mid, hmid, hrest⟩
  · cases mid with
    | nil =>
        obtain ⟨rfl, _⟩ := List.cons.inj hrest
        exact hwell
    | cons u mid =>
        obtain ⟨rfl, _⟩ := List.cons.inj hrest
        exact absurd hanswers (hfirst' t (by simp [hmid]))
  · cases mid with
    | nil =>
        obtain ⟨rfl, _⟩ := List.cons.inj hrest
        exact hwell
    | cons u mid =>
        obtain ⟨rfl, _⟩ := List.cons.inj hrest
        exact absurd hanswers' (hfirst t' (by simp [hmid]))

/-! ## The invariant -/

/-- What holds of the node `s` after the deliveries `done`: the siblings in `good` that have
    answered round `c` have a good entry for it, the others wait with an older one, and
    once all have answered the flag is down. -/
structure Progress (c : ℤ) (good : List Addr) (n : ℕ) (done : List NodeStep) (s : ENode) :
    Prop where
  length : s.siblings.length = n
  bound : ∀ peer ∈ s.siblings, peer.lastTsIsConsistent.1 ≤ c
  answered : ∀ addr ∈ good, (∃ u ∈ done, Answers u c addr) →
    s.findSibling addr = some ⟨addr, (c, true), true⟩
  waiting : ∀ addr ∈ good, (∀ u ∈ done, ¬ Answers u c addr) →
    ∀ peer, s.findSibling addr = some peer → peer.lastTsIsConsistent.1 < c
  untainted : (∀ addr ∈ good, ∃ u ∈ done, Answers u c addr) → s.tainted = false

variable {c : ℤ} {good : List Addr} {n : ℕ} {done : List NodeStep} {t : NodeStep}

/-- Good entries for the newest round under enough addresses make the quorum. -/
theorem meetsQuorum_of_good {siblings : List Peer} (hnodup : good.Nodup)
    (hlength : max 1 (siblings.length - 1) ≤ good.length)
    (hbound : ∀ peer ∈ siblings, peer.lastTsIsConsistent.1 ≤ c)
    (hgood : ∀ addr ∈ good, lookup Peer.toAddr addr siblings = some ⟨addr, (c, true), true⟩) :
    MeetsQuorum siblings := by
  have hentry : ∀ p : Peer → Bool, (∀ addr, p ⟨addr, (c, true), true⟩ = true) →
      siblings.length ≤ siblings.countP p + 1 := by
    intro p hp
    have hle : good.length ≤ siblings.countP p :=
      length_le_countP Peer.toAddr hnodup fun addr haddr =>
        ⟨_, mem_of_lookup (hgood addr haddr), rfl, hp addr⟩
    omega
  have hne : good ≠ [] := by
    rintro rfl
    simp at hlength
  obtain ⟨addr, haddr⟩ := List.exists_mem_of_ne_nil good hne
  have hnewest : Peer.Newest siblings c := by
    refine ⟨⟨_, mem_of_lookup (hgood addr haddr), rfl⟩, ?_⟩
    rintro _ ⟨peer, hpeer, rfl⟩
    exact hbound peer hpeer
  exact ⟨c, hnewest, hentry _ fun _ => by simp [Peer.consistentIn], hentry _ fun _ => rfl⟩

/-- A step that keeps the table and the flag keeps the progress. -/
theorem Progress.keep {s' : ENode} (h : Progress c good n done t.pre.node)
    (hsiblings : s'.siblings = t.pre.node.siblings) (htainted : s'.tainted = t.pre.node.tainted)
    (hact : ¬ ∃ payload src, t.act.IsReply t.pre.node payload src) :
    Progress c good n (done ++ [t]) s' := by
  have hanswers : ∀ addr, ¬ Answers t c addr := fun addr ⟨payload, hreply, _⟩ =>
    hact ⟨payload, addr, hreply⟩
  have hdone : ∀ addr, (∃ u ∈ done ++ [t], Answers u c addr) → ∃ u ∈ done, Answers u c addr := by
    rintro addr ⟨u, hu, hanswer⟩
    rcases List.mem_append.mp hu with hmem | hlast
    · exact ⟨u, hmem, hanswer⟩
    · exact absurd (List.mem_singleton.mp hlast ▸ hanswer) (hanswers addr)
  have hfind : ∀ addr, s'.findSibling addr = t.pre.node.findSibling addr := fun addr => by
    rw [ENode.findSibling, hsiblings]
    rfl
  constructor
  case length => rw [hsiblings]; exact h.length
  case bound => rw [hsiblings]; exact h.bound
  case answered =>
    intro addr haddr hex
    rw [hfind]
    exact h.answered addr haddr (hdone addr hex)
  case waiting =>
    intro addr haddr hnot peer hpeer
    rw [hfind] at hpeer
    exact h.waiting addr haddr (fun u hu => hnot u (List.mem_append_left _ hu)) peer hpeer
  case untainted =>
    intro hall
    rw [htainted]
    exact h.untainted fun addr haddr => hdone addr (hall addr haddr)

/-- A delivered answer makes progress. -/
theorem Progress.reply {payload : List UInt8} {src : Addr}
    (h : Progress c good n done t.pre.node) (hnodup : good.Nodup)
    (hlength : max 1 (n - 1) ≤ good.length) (hreply : t.act.IsReply t.pre.node payload src)
    (hcount : (readUntaint payload).count ≤ c)
    (hfirst : ∀ addr ∈ good, Answers t c addr → (∀ u ∈ done, ¬ Answers u c addr) →
      AnswersWell t c addr) :
    Progress c good n (done ++ [t]) (t.pre.node.handleUntaint payload src) := by
  obtain ⟨old, hold⟩ := Option.isSome_iff_exists.mp hreply.2.2
  have haddr : old.toAddr = src := key_of_lookup hold
  have hsrc : ∀ addr, Answers t c addr → addr = src := fun addr ⟨_, hreply', _⟩ =>
    (hreply'.unique hreply).2
  have hfind := ENode.lookup_recordUntaint_of_find hold (readUntaint payload)
  have hbound : ∀ peer ∈ t.pre.node.recordUntaint src (readUntaint payload),
      peer.lastTsIsConsistent.1 ≤ c := by
    intro peer hpeer
    rcases mem_update hpeer with hmem | ⟨x, hx, heq⟩
    · exact h.bound peer hmem
    · rw [heq, ENode.recordReply_count]
      exact max_le (h.bound x (mem_of_lookup hx)) hcount
  have hanswered : ∀ addr ∈ good, (∃ u ∈ done ++ [t], Answers u c addr) →
      lookup Peer.toAddr addr (t.pre.node.recordUntaint src (readUntaint payload)) =
        some ⟨addr, (c, true), true⟩ := by
    intro addr hgood hex
    rw [hfind]
    by_cases hdone : ∃ u ∈ done, Answers u c addr
    · -- a good entry is as new as any answer, so this one counts as replayed
      have hentry := h.answered addr hgood hdone
      split
      case isTrue heq =>
        rw [heq] at hentry ⊢
        rw [Option.some.inj (hold.symm.trans hentry), ENode.recordReply_of_replayed hcount]
      case isFalse => exact hentry
    · have hnone : ∀ u ∈ done, ¬ Answers u c addr := fun u hu ha => hdone ⟨u, hu, ha⟩
      have hnow : Answers t c addr := by
        obtain ⟨u, hu, ha⟩ := hex
        rcases List.mem_append.mp hu with hmem | hlast
        · exact absurd ha (hnone u hmem)
        · exact List.mem_singleton.mp hlast ▸ ha
      obtain rfl := hsrc addr hnow
      obtain ⟨payload', hreply', hcountc, hoffset, hviews⟩ := hfirst addr hgood hnow hnone
      obtain ⟨rfl, _⟩ := hreply'.unique hreply
      have hnewer := h.waiting addr hgood hnone old hold
      rw [← hcountc] at hnewer
      have hverdict : t.pre.node.peerIsConsistent (readUntaint payload') = true :=
        decide_eq_true hoffset
      rw [if_pos rfl, ENode.recordReply_of_newer hnewer, hverdict, hviews, hcountc, haddr]
  rw [ENode.handleUntaint_of_sibling hreply.2.1.2 hreply.2.2]
  constructor
  case length => exact (ENode.length_recordUntaint _ _ _).trans h.length
  case bound => exact hbound
  case answered => exact hanswered
  case waiting =>
    intro addr hgood hnot peer hpeer
    have hwait := h.waiting addr hgood fun u hu => hnot u (List.mem_append_left _ hu)
    have hpeer' := (hfind addr).symm.trans hpeer
    split at hpeer'
    case isTrue heq =>
      have hne : (readUntaint payload).count ≠ c := fun hc =>
        hnot t (by simp) ⟨payload, heq ▸ hreply, hc⟩
      have hlt := hwait old (heq ▸ hold)
      rw [← Option.some.inj hpeer', ENode.recordReply_count]
      omega
    case isFalse => exact hwait peer hpeer'
  case untainted =>
    intro hall
    have hquorum : MeetsQuorum (t.pre.node.recordUntaint src (readUntaint payload)) := by
      refine meetsQuorum_of_good hnodup ?_ hbound fun addr hgood =>
        hanswered addr hgood (hall addr hgood)
      rw [ENode.length_recordUntaint, h.length]
      exact hlength
    have hflag := (tainted_handleUntaint hreply.2.1.2 hreply.2.2).mpr (.inr hquorum)
    rw [ENode.handleUntaint_of_sibling hreply.2.1.2 hreply.2.2] at hflag
    exact hflag

/-- From any state whose records are older than round `c`: once all siblings but one, and
    at least one, have answered the round well, the node is not tainted. -/
theorem quorum_complete {b : Build} {s s' : System} {tr : List NodeStep}
    (hold : ∀ peer ∈ s.node.siblings, peer.lastTsIsConsistent.1 < c)
    (hrun : NodeRun b s tr s') (hdelivery : ∀ t ∈ tr, IsDelivery c t) (hnodup : good.Nodup)
    (hlength : max 1 (s.node.siblings.length - 1) ≤ good.length)
    (hgood : ∀ addr ∈ good, FirstAnswerWell tr c addr) : s'.node.tainted = false := by
  have hfirst : EachStep (fun before t => IsDelivery c t ∧ ∀ addr ∈ good, Answers t c addr →
      (∀ u ∈ before, ¬ Answers u c addr) → AnswersWell t c addr) tr := by
    intro before t after htr
    exact ⟨hdelivery t (by simp [htr]),
      fun addr haddr => (hgood addr haddr).eachStep before t after htr⟩
  have hanswer : ∀ addr ∈ good, ∃ u ∈ tr, Answers u c addr := by
    intro addr haddr
    obtain ⟨before, t, after, rfl, _, payload, hreply, hcount, _⟩ := hgood addr haddr
    exact ⟨t, by simp, payload, hreply, hcount⟩
  have hstart : Progress c good s.node.siblings.length [] s.node := by
    refine ⟨rfl, fun peer hpeer => (hold peer hpeer).le, ?_, ?_, ?_⟩
    · rintro addr _ ⟨u, hu, _⟩
      cases hu
    · intro addr _ _ peer hpeer
      exact hold peer (mem_of_lookup hpeer)
    · intro hall
      have hne : good ≠ [] := by
        rintro rfl
        simp at hlength
      obtain ⟨addr, haddr⟩ := List.exists_mem_of_ne_nil good hne
      obtain ⟨u, hu, _⟩ := hall addr haddr
      cases hu
  refine (hrun.history_of (I := fun past s' => Progress c good s.node.siblings.length past s'.node)
    (fun past t hs hlast hprogress => ?_) hfirst hstart).untainted hanswer
  obtain ⟨hdelivered, hwell⟩ := hlast
  cases NodeStep.peerMove hs with
  | keep hkeep hact =>
      refine hprogress.keep hkeep.siblings ?_ hact
      simp [hkeep.tainted, hdelivered.untainting]
  | round amb h hact =>
      rw [(Prod.mk.inj h).1]
      exact hprogress.keep rfl rfl hact
  | join addr hcause _ _ _ hact =>
      rcases hcause with ⟨sendOk, hadd⟩ | ⟨payload, amb, hrecv, _⟩
      · exact absurd hadd (hdelivered.joins addr sendOk)
      · exact absurd ⟨payload, addr, (hdelivered.answers payload addr amb hrecv).1⟩ hact
  | reply payload src hreply hpost hes =>
      rw [hpost]
      obtain ⟨⟨amb, hact⟩, _⟩ := id hreply
      exact hprogress.reply hnodup hlength hreply (hdelivered.answers payload src amb hact).2 hwell

/-- A tainted node that waits for its two siblings to answer round 1. -/
def Scenario.waiting : System :=
  { boot with node := { boot.node with
      tainted := true
      tsRef := ⟨1005, 15000100⟩
      tsc := 0
      siblings := [Peer.new peerB, Peer.new peerC] } }

set_option maxRecDepth 10000 in
open Scenario in
/-- The theorem at one good answer, which is enough for two siblings. -/
theorem quorum_complete_answer :
    ∃ tr s', NodeRun .aexNotify waiting tr s' ∧ waiting.node.tainted = true ∧
      s'.node.tainted = false := by
  obtain ⟨tr, t, hrun, hstep, hact, ht⟩ := exists_step_of_exec (System.step .aexNotify) waiting
    [] (.recv (answer true 0) peerB (reading 0))
    (fun tr t => tr.isEmpty ∧ t.pre = waiting ∧ t.events = []) (by decide +kernel)
  obtain ⟨htr, hpre, hevents⟩ := ht
  obtain rfl := List.isEmpty_iff.mp htr
  have hreply : t.act.IsReply t.pre.node (answer true 0) peerB := by
    rw [hact, hpre]
    exact ⟨⟨_, rfl⟩, by decide +kernel, by decide +kernel⟩
  have hcount : (readUntaint (answer true 0)).count = 1 := by decide +kernel
  have hdelivery : IsDelivery 1 t := by
    refine ⟨by simp [hevents], ?_, by simp [hact]⟩
    intro payload src amb hact'
    obtain ⟨rfl, rfl, -⟩ := Action.recv.inj (hact.symm.trans hact')
    exact ⟨hreply, hcount.le⟩
  have hwell : FirstAnswerWell [t] 1 peerB := by
    refine ⟨[], t, [], rfl, by simp, answer true 0, hreply, hcount, ?_, by decide +kernel⟩
    rw [hpre]
    decide +kernel
  have hgood : ∀ addr ∈ [peerB], FirstAnswerWell [t] 1 addr := by simpa using hwell
  exact ⟨[t], t.post, .snoc hrun hstep, rfl, quorum_complete (c := 1)
    (by decide +kernel) (.snoc hrun hstep) (by simpa using hdelivery) (by simp) (by decide +kernel)
    hgood⟩

end TriHaRd
