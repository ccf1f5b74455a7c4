-- SUMMARY: Many nodes and the Time Authority on a network that forges addresses, and what a node knows about who sent a message.
import TriHaRd.Network.Sends
import TriHaRd.TimeAuthority.Server
import Mathlib.Logic.Function.Basic

/-!
# The origin of messages

All parties encrypt with one key and one nonce, so a ciphertext is worth as much
as its plaintext, and the network can deliver exactly what somebody has sent. It
may deliver it to any node, under any source address, as often as it likes.

Identity is taken from that address. A node therefore learns that some party sent
a message of this kind, and not that the party at the address did.
-/

namespace TriHaRd

open Lts

variable {ι : Type*}

/-- A datagram on the network. The Time Authority is the sender `none`. `cause` is the position
    in the pool of the datagram that it answers. -/
structure Sent (ι : Type*) extends Packet where
  sender : Option ι
  cause : Option ℕ
deriving DecidableEq

/-- The nodes, and all that has ever been sent. -/
structure Network (ι : Type*) where
  nodes : ι → System
  pool : List (Sent ι)

inductive NetAction (ι : Type*) where
  /-- Node `i` takes a step that handles no message. -/
  | node (i : ι) (a : Action)
  /-- The network gives datagram `k` of the pool to node `i`, as coming from `src`. -/
  | deliver (i : ι) (k : ℕ) (src : Addr) (amb : Ambient)
  /-- A thread of the Time Authority that was started from `src` answers datagram `k`. -/
  | authority (k : ℕ) (src : Addr) (stack : List UInt8) (recTs xmtTs : Timespec)
deriving DecidableEq

namespace Network

/-- The datagrams among the events of a step of node `i`. -/
def sentBy (i : ι) (cause : Option ℕ) (es : List Event) : List (Sent ι) :=
  es.filterMap fun
    | .sent q => some { q with sender := some i, cause := cause }
    | _ => none

/-- The reply of the Time Authority to the plaintext `m`. -/
def authorityReply (m : List UInt8) (k : ℕ) (src : Addr) (stack : List UInt8)
    (recTs xmtTs : Timespec) : Sent ι where
  dst := src
  payload := Server.replyTo (m ++ stack.drop m.length) recTs xmtTs
  sender := none
  cause := some k

variable [DecidableEq ι]

/-- Node `i` takes the action `a` in answer to `cause`. -/
def act (b : Build) (n : Network ι) (i : ι) (a : Action) (cause : Option ℕ) :
    Option (Network ι × List (Sent ι)) :=
  match System.step b (n.nodes i) a with
  | none => none
  | some (s, es) =>
    let sent := sentBy i cause es
    some (⟨Function.update n.nodes i s, n.pool ++ sent⟩, sent)

def step (b : Build) (n : Network ι) : NetAction ι → Option (Network ι × List (Sent ι))
  | .node _ (.recv _ _ _) => none
  | .node i a => n.act b i a none
  | .deliver i k src amb =>
    match n.pool[k]? with
    | none => none
    | some d => n.act b i (.recv d.payload src amb) (some k)
  | .authority k src stack recTs xmtTs =>
    match n.pool[k]? with
    | none => none
    | some d =>
      let reply := authorityReply d.payload k src stack recTs xmtTs
      some ({ n with pool := n.pool ++ [reply] }, [reply])

end Network

abbrev NetStep (ι : Type*) := Lts.Transition (Network ι) (NetAction ι) (Sent ι)

abbrev NetRun [DecidableEq ι] (b : Build) :
    Network ι → List (NetStep ι) → Network ι → Prop :=
  Lts.Run (Network.step b)

/-! ## Where a datagram comes from -/

/-- How the datagram came into the pool. -/
inductive Provenance (pool : List (Sent ι)) : Sent ι → Prop where
  | sibling (i : ι) (dst : Addr) : Provenance pool ⟨⟨dst, siblingStr⟩, some i, none⟩
  | tainted (i : ι) (dst : Addr) (count : ℤ) (orgTs dummyTs : Timespec) :
      Provenance pool ⟨⟨dst, buildTainted count orgTs dummyTs⟩, some i, none⟩
  | untaint (i : ι) (dst : Addr) (views : Bool) (recTs xmtTs : Timespec) (k : ℕ) (r : Sent ι)
      (hcause : pool[k]? = some r) (hsender : r.sender.isSome)
      (hhead : r.payload.head? = some letterT) :
      Provenance pool ⟨⟨dst, buildUntaint (readTainted r.payload).count views
        (readTainted r.payload).orgTs recTs xmtTs⟩, some i, some k⟩
  | drift (d : Sent ι) (hhead : d.payload.head? = some letterD) : Provenance pool d

namespace Provenance

variable {pool : List (Sent ι)} {d : Sent ι}

/-- A pool only grows. -/
theorem append (h : Provenance pool d) (more : List (Sent ι)) : Provenance (pool ++ more) d := by
  cases h with
  | sibling i dst => exact .sibling i dst
  | tainted i dst count orgTs dummyTs => exact .tainted i dst count orgTs dummyTs
  | untaint i dst views recTs xmtTs k r hcause hsender hhead =>
      have hk : k < pool.length := (List.getElem?_eq_some_iff.mp hcause).1
      refine .untaint i dst views recTs xmtTs k r ?_ hsender hhead
      rw [List.getElem?_append_left hk, hcause]
  | drift _ hhead => exact .drift d hhead

/-- Every message begins with one of the four letters. -/
theorem head_mem (h : Provenance pool d) :
    ∃ letter ∈ [letterS, letterT, letterU, letterD], d.payload.head? = some letter := by
  cases h with
  | sibling => exact ⟨letterS, by simp, head_siblingStr⟩
  | tainted => exact ⟨letterT, by simp, head_buildTainted _ _ _⟩
  | untaint => exact ⟨letterU, by simp, head_buildUntaint _ _ _ _ _⟩
  | drift _ hhead => exact ⟨letterD, by simp, hhead⟩

/-- A 'Tainted' message was sent by a node. -/
theorem isSome_of_tainted (h : Provenance pool d) (hhead : d.payload.head? = some letterT) :
    d.sender.isSome := by
  cases h with
  | sibling => rfl
  | tainted => rfl
  | untaint => rfl
  | drift _ hdrift =>
      rw [hdrift] at hhead
      cases hhead

end Provenance

namespace Network

variable {b : Build} {n n' : Network ι} {i : ι} {cause : Option ℕ} {sent : List (Sent ι)}

theorem mem_sentBy {es : List Event} {d : Sent ι} (h : d ∈ sentBy i cause es) :
    ∃ q, Event.sent q ∈ es ∧ d = { q with sender := some i, cause := cause } := by
  obtain ⟨e, he, hd⟩ := List.mem_filterMap.mp h
  cases e with
  | sent q => exact ⟨q, he, (Option.some.inj hd).symm⟩
  | _ => cases hd

/-- What a node sends in a step that handles no message. -/
theorem provenance_of_node {a : Action} {s : System} {es : List Event} {pool : List (Sent ι)}
    (hs : System.step b (n.nodes i) a = some (s, es)) (ha : ∀ payload src amb, a ≠ .recv payload src amb)
    {d : Sent ι} (hd : d ∈ sentBy i none es) : Provenance pool d := by
  obtain ⟨q, hq, rfl⟩ := mem_sentBy hd
  cases (System.effect_of_step hs).sends hq with
  | drift hhead => exact .drift _ hhead
  | sibling addr sendOk => exact .sibling i addr
  | round amb dst count orgTs => exact .tainted i dst count orgTs amb.dummyTs
  | answer payload src amb => exact absurd rfl (ha payload src amb)
  | sendBack payload src amb => exact absurd rfl (ha payload src amb)

/-- What a node sends when it handles a datagram of the pool. -/
theorem provenance_of_deliver {k : ℕ} {r : Sent ι} {src : Addr} {amb : Ambient} {s : System}
    {es : List Event} (hpool : ∀ d ∈ n.pool, Provenance n.pool d) (hr : n.pool[k]? = some r)
    (hs : System.step b (n.nodes i) (.recv r.payload src amb) = some (s, es)) {d : Sent ι}
    (hd : d ∈ sentBy i (some k) es) : Provenance n.pool d := by
  have hprovenance := hpool r (List.mem_of_getElem? hr)
  obtain ⟨q, hq, rfl⟩ := mem_sentBy hd
  cases (System.effect_of_step hs).sends hq with
  | drift hhead => exact .drift _ hhead
  | answer _ _ _ views recTs xmtTs hhead =>
      exact .untaint i src views recTs xmtTs k r hr (hprovenance.isSome_of_tainted hhead) hhead
  | sendBack _ _ _ hhead =>
      obtain ⟨letter, hletter, hletters⟩ := hprovenance.head_mem
      exact absurd hletters (hhead letter hletter)

theorem provenance_of_authority {pool : List (Sent ι)} (m : List UInt8) (k : ℕ) (src : Addr)
    (stack : List UInt8) (recTs xmtTs : Timespec) :
    Provenance pool (authorityReply m k src stack recTs xmtTs) :=
  .drift _ rfl

variable [DecidableEq ι]

/-- A step is one of a node that handles no message, a delivery, or a reply of the Time
    Authority. -/
theorem step_cases {a : NetAction ι} (h : n.step b a = some (n', sent)) :
    (∃ i x s es, a = .node i x ∧ (∀ payload src amb, x ≠ .recv payload src amb) ∧
      System.step b (n.nodes i) x = some (s, es) ∧
      n' = ⟨Function.update n.nodes i s, n.pool ++ sentBy i none es⟩) ∨
    (∃ i k src amb r s es, a = .deliver i k src amb ∧ n.pool[k]? = some r ∧
      System.step b (n.nodes i) (.recv r.payload src amb) = some (s, es) ∧
      n' = ⟨Function.update n.nodes i s, n.pool ++ sentBy i (some k) es⟩) ∨
    (∃ k src stack recTs xmtTs r, a = .authority k src stack recTs xmtTs ∧
      n.pool[k]? = some r ∧
      n' = { n with pool := n.pool ++ [authorityReply r.payload k src stack recTs xmtTs] }) := by
  have hact {i : ι} {x : Action} {cause : Option ℕ} (hx : n.act b i x cause = some (n', sent)) :
      ∃ s es, System.step b (n.nodes i) x = some (s, es) ∧
        n' = ⟨Function.update n.nodes i s, n.pool ++ sentBy i cause es⟩ := by
    unfold act at hx
    split at hx
    · cases hx
    case h_2 s es hs =>
      obtain ⟨rfl, rfl⟩ := Prod.mk.inj (Option.some.inj hx)
      exact ⟨s, es, hs, rfl⟩
  unfold step at h
  split at h
  · cases h
  case h_2 i x hrecv =>
    obtain ⟨s, es, hs, hn⟩ := hact h
    exact .inl ⟨i, x, s, es, rfl, fun payload src amb => hrecv payload src amb, hs, hn⟩
  case h_3 i k src amb =>
    split at h
    · cases h
    case h_2 r hr =>
      obtain ⟨s, es, hs, hn⟩ := hact h
      exact .inr (.inl ⟨i, k, src, amb, r, s, es, rfl, hr, hs, hn⟩)
  case h_4 k src stack recTs xmtTs =>
    split at h
    · cases h
    case h_2 r hr =>
      obtain ⟨rfl, rfl⟩ := Prod.mk.inj (Option.some.inj h)
      exact .inr (.inr ⟨k, src, stack, recTs, xmtTs, r, rfl, hr, rfl⟩)

/-- Every datagram of the pool has its provenance there. -/
def Traced (n : Network ι) : Prop := ∀ d ∈ n.pool, Provenance n.pool d

theorem Traced.step {t : NetStep ι} (hs : t.IsStep (Network.step b)) (h : t.pre.Traced) :
    t.post.Traced := by
  have hgrow {more : List (Sent ι)} (hmore : ∀ d ∈ more, Provenance t.pre.pool d) :
      ∀ d ∈ t.pre.pool ++ more, Provenance (t.pre.pool ++ more) d := by
    intro d hd
    rcases List.mem_append.mp hd with hd | hd
    · exact (h d hd).append more
    · exact (hmore d hd).append more
  rcases step_cases hs with ⟨i, x, s, es, _, hx, hstep, hpost⟩ |
    ⟨i, k, src, amb, r, s, es, _, hr, hstep, hpost⟩ |
    ⟨k, src, stack, recTs, xmtTs, r, _, hr, hpost⟩
  · rw [Traced, hpost]
    exact hgrow fun d hd => provenance_of_node hstep hx hd
  · rw [Traced, hpost]
    exact hgrow fun d hd => provenance_of_deliver h hr hstep hd
  · rw [Traced, hpost]
    refine hgrow fun d hd => ?_
    rw [List.mem_singleton.mp hd]
    exact provenance_of_authority r.payload k src stack recTs xmtTs

end Network

/-! ## What a delivery tells -/

/-- If the step delivers a 'Sibling' message that makes a node append the claimed source, then
    some node has sent that message through `add_sibling`. -/
def SiblingSent (t : NetStep ι) : Prop :=
  ∀ i k src amb d, t.act = .deliver i k src amb → t.pre.pool[k]? = some d →
    d.payload.head? = some letterS →
    (t.post.nodes i).node.siblings ≠ (t.pre.nodes i).node.siblings →
      (t.post.nodes i).node.siblings = (t.pre.nodes i).node.siblings ++ [Peer.new src] ∧
        d.payload = siblingStr ∧ d.sender.isSome

/-- If the step delivers an 'Untaint' message that makes a node update its record of the
    claimed source, then that is a sibling, and some node has sent the message as its reply
    to a 'Tainted' message of some node with the same count and sending time. -/
def UntaintSent (t : NetStep ι) : Prop :=
  ∀ i k src amb d, t.act = .deliver i k src amb → t.pre.pool[k]? = some d →
    d.payload.head? = some letterU →
    (t.post.nodes i).node.siblings ≠ (t.pre.nodes i).node.siblings →
      ((t.pre.nodes i).node.findSibling src).isSome ∧ d.sender.isSome ∧
        ∃ k' r, d.cause = some k' ∧ t.pre.pool[k']? = some r ∧ r.sender.isSome ∧
          r.payload.head? = some letterT ∧
          (readUntaint d.payload).count = (readTainted r.payload).count ∧
          (readUntaint d.payload).orgTs = (readTainted r.payload).orgTs

variable [DecidableEq ι] {b : Build}

/-- A delivery does to the table what `handle_message` does. -/
theorem siblings_of_deliver {t : NetStep ι} {i : ι} {k : ℕ} {src : Addr} {amb : Ambient}
    {d : Sent ι} (hs : t.IsStep (Network.step b)) (hact : t.act = .deliver i k src amb)
    (hd : t.pre.pool[k]? = some d) : (t.post.nodes i).node.siblings =
      ((t.pre.nodes i).node.handleMessage d.payload src amb).node.siblings := by
  rcases Network.step_cases hs with ⟨_, _, _, _, hother, _⟩ |
    ⟨i', k', src', amb', r, s, es, hdeliver, hr, hstep, hpost⟩ | ⟨_, _, _, _, _, _, hother, _⟩
  · rw [hact] at hother
    cases hother
  · rw [hact] at hdeliver
    cases hdeliver
    obtain rfl : d = r := Option.some.inj (hd.symm.trans hr)
    rw [hpost]
    dsimp only
    rw [Function.update_self]
    have heffect := System.effect_of_step hstep
    generalize s.node = m at heffect ⊢
    cases heffect with
    | recv => rfl
    | recvFailed => rfl
  · rw [hact] at hother
    cases hother

theorem siblingSent_of_traced {t : NetStep ι} (hs : t.IsStep (Network.step b))
    (h : t.pre.Traced) : SiblingSent t := by
  intro i k src amb d hact hd hhead hchanged
  rw [siblings_of_deliver hs hact hd, ENode.handleMessage_sibling hhead] at hchanged ⊢
  dsimp only [Outcome.quiet, ENode.handleSibling] at hchanged ⊢
  split at hchanged
  case isTrue => exact absurd rfl hchanged
  case isFalse hunknown =>
    refine ⟨by rw [if_neg hunknown], ?_⟩
    cases h d (List.mem_of_getElem? hd) with
    | sibling => exact ⟨rfl, rfl⟩
    | tainted => cases hhead.symm.trans (head_buildTainted _ _ _)
    | untaint => cases hhead.symm.trans (head_buildUntaint _ _ _ _ _)
    | drift _ hdrift => cases hhead.symm.trans hdrift

theorem untaintSent_of_traced {t : NetStep ι} (hs : t.IsStep (Network.step b))
    (h : t.pre.Traced) : UntaintSent t := by
  intro i k src amb d hact hd hhead hchanged
  rw [siblings_of_deliver hs hact hd, ENode.handleMessage_untaint hhead] at hchanged
  dsimp only [Outcome.quiet, ENode.handleUntaint] at hchanged
  have hknown : ((t.pre.nodes i).node.findSibling src).isSome := by
    by_contra hunknown
    rw [if_neg hunknown, ite_self] at hchanged
    exact hchanged rfl
  refine ⟨hknown, ?_⟩
  cases h d (List.mem_of_getElem? hd) with
  | sibling => cases hhead.symm.trans head_siblingStr
  | tainted => cases hhead.symm.trans (head_buildTainted _ _ _)
  | drift _ hdrift => cases hhead.symm.trans hdrift
  | untaint j dst views recTs xmtTs k' r hcause hsender hrhead =>
      refine ⟨rfl, k', r, rfl, hcause, hsender, hrhead, ?_⟩
      rw [readUntaint_buildUntaint]
      exact ⟨wireLongLong_readTainted r.payload, wireTimespec_readTainted r.payload⟩

/-- In every run from an empty pool, whatever the network delivers where, a node adds a sibling
    or updates a record only for a message of that kind that some node has sent. -/
theorem origin_of_run {n₀ n : Network ι} {tr : List (NetStep ι)} (hpool : n₀.pool = [])
    (hrun : NetRun b n₀ tr n) : ∀ t ∈ tr, SiblingSent t ∧ UntaintSent t := by
  intro t ht
  have htraced : t.pre.Traced := by
    refine (hrun.invariant_at (P := fun _ => True) (fun t hs _ h => h.step hs) (by simp) ?_ t ht).1
    simp [Network.Traced, hpool]
  have hs := hrun.isStep ht
  exact ⟨siblingSent_of_traced hs htraced, untaintSent_of_traced hs htraced⟩

/-! ## What it does not tell -/

namespace Scenario

def addrOf (i : Fin 3) : Addr := ⟨"127.0.0.1", 12345 + UInt16.ofNat i⟩

def authorityAddr : Addr := ⟨"127.0.0.1", 12340⟩

/-- Three nodes that have just been constructed. -/
def three : Network (Fin 3) where
  nodes i := .boot (ENode.construct zeroed .init (addrOf i).port 2 2 0 authorityAddr 3)
  pool := []

theorem initial_three (i : Fin 3) : (three.nodes i).Initial :=
  ⟨zeroed, (addrOf i).port, 2, 2, 0, authorityAddr, 3, rfl⟩

/-- Node 0 adds the others. Node 1 learns of node 0, is trained, and trusts its clock. -/
def trusting : List (NetAction (Fin 3)) :=
  calibrated.map (.node 0) ++ (calibrated.drop 2).map (.node 1) ++
    [.deliver 1 0 (addrOf 0) (reading 0),
      .authority 3 (addrOf 1) [] ⟨1005, 0⟩ ⟨1005, 0⟩] ++
    List.replicate 24 (.deliver 1 4 authorityAddr (reading 0)) ++
    [.node 1 (.monitor (reading 10000000000)), .node 1 (.monitor (reading 11000000000)),
      .authority 3 (addrOf 1) [] ⟨1005, 250000000⟩ ⟨1005, 250000000⟩] ++
    List.replicate 2 (.deliver 1 5 authorityAddr (reading 0))

/-- Node 0 is interrupted and sends two rounds. Node 1 answers the second one with datagram 10,
    and node 2 never sends anything. -/
def answered : List (NetAction (Fin 3)) :=
  trusting ++
    [.node 0 (.aex (reading 10000000100))] ++ List.replicate 4 (.node 0 (.refresh (reading 0))) ++
    [.node 0 (.monitor (reading 10000000200)), .node 0 (.monitor (reading 10030000200))] ++
    List.replicate 5 (.node 0 (.refresh (reading 0))) ++ [.deliver 1 8 (addrOf 0) (reading 0)]

end Scenario

set_option maxRecDepth 10000 in
open Scenario in
/-- The theorem at this run, and the delivery of the answer under its own address. -/
theorem origin_of_run_answered :
    ∃ tr n, NetRun .aexNotify three tr n ∧
      ((n.nodes 0).node.findSibling (addrOf 1)).map Peer.lastTsIsConsistent = some (1, false) ∧
      ∀ t ∈ tr, SiblingSent t ∧ UntaintSent t := by
  obtain ⟨tr, n, hrun, hn⟩ := exists_run_of_exec (Network.step .aexNotify) three
    (answered ++ [.deliver 0 10 (addrOf 1) (reading 0)])
    (fun _ n => ((n.nodes 0).node.findSibling (addrOf 1)).map Peer.lastTsIsConsistent =
      some (1, false)) (by decide +kernel)
  exact ⟨tr, n, hrun, hn, origin_of_run rfl hrun⟩

/-- Only the node at the claimed source makes a node append that address, with a message that
    it sent to it. -/
def SiblingAuthentic (addr : ι → Addr) (t : NetStep ι) : Prop :=
  ∀ i k src amb d, t.act = .deliver i k src amb → t.pre.pool[k]? = some d →
    d.payload.head? = some letterS →
    (t.post.nodes i).node.siblings ≠ (t.pre.nodes i).node.siblings →
      ∃ e ∈ t.pre.pool, e.payload = d.payload ∧ e.dst = addr i ∧
        ∃ j, e.sender = some j ∧ addr j = src

/-- Only the node at the claimed source makes a node update its record of that address, with a
    message that it sent to it in reply to a 'Tainted' message of that node. -/
def UntaintAuthentic (addr : ι → Addr) (t : NetStep ι) : Prop :=
  ∀ i k src amb d, t.act = .deliver i k src amb → t.pre.pool[k]? = some d →
    d.payload.head? = some letterU →
    (t.post.nodes i).node.siblings ≠ (t.pre.nodes i).node.siblings →
      ∃ e ∈ t.pre.pool, e.payload = d.payload ∧ e.dst = addr i ∧
        (∃ j, e.sender = some j ∧ addr j = src) ∧
        ∃ k' r, e.cause = some k' ∧ t.pre.pool[k']? = some r ∧ r.sender = some i ∧
          r.payload.head? = some letterT

set_option maxRecDepth 10000 in
open Scenario in
/-- Node 2 is given node 0's 'Sibling' message as coming from node 1, which has sent nothing.
    Node 0 is given node 1's answer as coming from node 2, which has sent nothing. -/
theorem origin_forged :
    (¬ ∀ (b : Build) (n₀ n : Network (Fin 3)) (tr : List (NetStep (Fin 3))),
      (∀ i, (n₀.nodes i).Initial) → n₀.pool = [] → NetRun b n₀ tr n →
        ∀ t ∈ tr, SiblingAuthentic addrOf t) ∧
    ¬ ∀ (b : Build) (n₀ n : Network (Fin 3)) (tr : List (NetStep (Fin 3))),
      (∀ i, (n₀.nodes i).Initial) → n₀.pool = [] → NetRun b n₀ tr n →
        ∀ t ∈ tr, UntaintAuthentic addrOf t := by
  have haddr : ∀ i j : Fin 3, addrOf i = addrOf j → i = j := by decide
  constructor
  · intro h
    obtain ⟨tr, t, hrun, hs, hact, ht⟩ := exists_step_of_exec (Network.step .aexNotify) three
      (calibrated.map (.node 0)) (.deliver 2 0 (addrOf 1) (reading 0))
      (fun _ t => (t.post.nodes 2).node.siblings ≠ (t.pre.nodes 2).node.siblings ∧
        (∀ e ∈ t.pre.pool, e.sender ≠ some 1) ∧
        ((t.pre.pool[0]?).bind fun d => d.payload.head?) = some letterS) (by decide +kernel)
    obtain ⟨hchanged, hsilent, hhead⟩ := ht
    obtain ⟨d, hd, hhead⟩ := Option.bind_eq_some_iff.mp hhead
    obtain ⟨e, he, _, _, j, hsender, hj⟩ := h .aexNotify three _ _ initial_three rfl
      (.snoc hrun hs) t (by simp) 2 0 (addrOf 1) (reading 0) d hact hd hhead hchanged
    exact hsilent e he (haddr j 1 hj ▸ hsender)
  · intro h
    obtain ⟨tr, t, hrun, hs, hact, ht⟩ := exists_step_of_exec (Network.step .aexNotify) three
      answered (.deliver 0 10 (addrOf 2) (reading 0))
      (fun _ t => (t.post.nodes 0).node.siblings ≠ (t.pre.nodes 0).node.siblings ∧
        (∀ e ∈ t.pre.pool, e.sender ≠ some 2) ∧
        ((t.pre.pool[10]?).bind fun d => d.payload.head?) = some letterU) (by decide +kernel)
    obtain ⟨hchanged, hsilent, hhead⟩ := ht
    obtain ⟨d, hd, hhead⟩ := Option.bind_eq_some_iff.mp hhead
    obtain ⟨e, he, _, _, ⟨j, hsender, hj⟩, _⟩ := h .aexNotify three _ _ initial_three rfl
      (.snoc hrun hs) t (by simp) 0 10 (addrOf 2) (reading 0) d hact hd hhead hchanged
    exact hsilent e he (haddr j 2 hj ▸ hsender)

end TriHaRd
