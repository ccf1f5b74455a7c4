-- SUMMARY: Sibling discovery on one host: what the tables of the nodes hold while 'Sibling' messages are on their way, and after.
import TriHaRd.Network.Origin

/-!
# Discovery

The nodes of one host know each other by their ports. `add_sibling` appends the
other node and sends it a 'Sibling' message, and case 'S' appends the sender.
Both look the address up first, so both insert it like into a set.

The invariant ties the tables to the calls that have been made and to the pool: a
node in a table has been called by the owner or has called it, and the one that
does not know the owner yet has a message from it on the way.
-/

namespace TriHaRd

open Lts

variable {ι : Type*}

/-- Where a node of the one host is reached. -/
def localAddr (port : ι → UInt16) (i : ι) : Addr := ⟨"127.0.0.1", port i⟩

theorem localAddr_inj {port : ι → UInt16} (hport : Function.Injective port) {i j : ι} :
    localAddr port i = localAddr port j ↔ i = j :=
  ⟨fun h => hport (Addr.mk.inj h).2, congrArg _⟩

/-- The 'Sibling' message of node `i` to node `j`. -/
def siblingMsg (port : ι → UInt16) (i j : ι) : Sent ι :=
  ⟨⟨localAddr port j, siblingStr⟩, some i, none⟩

theorem siblingMsg_inj {port : ι → UInt16} (hport : Function.Injective port) {i j k l : ι}
    (h : siblingMsg port i j = siblingMsg port k l) : i = k ∧ j = l := by
  have hsender : some i = some k := congrArg Sent.sender h
  have hdst : localAddr port j = localAddr port l := congrArg (fun d => d.dst) h
  exact ⟨Option.some.inj hsender, (localAddr_inj hport).mp hdst⟩

/-- The addresses in the sibling table of node `i`. -/
def Network.addresses (n : Network ι) (i : ι) : List Addr :=
  (n.nodes i).node.siblings.map Peer.toAddr

/-- Node `i` has node `j` as sibling. -/
def Network.HasSibling (n : Network ι) (port : ι → UInt16) (i j : ι) : Prop :=
  localAddr port j ∈ n.addresses i

/-- Node `i` has called `add_sibling` with the address of node `j`. -/
def Called (port : ι → UInt16) (tr : List (NetStep ι)) (i j : ι) : Prop :=
  ∃ t ∈ tr, t.act = .node i (.addSibling (localAddr port j) true)

/-- Datagram `k` of the pool has been delivered. -/
def Delivered (tr : List (NetStep ι)) (k : ℕ) : Prop :=
  ∃ t ∈ tr, ∃ i src amb, t.act = .deliver i k src amb

/-- A step of discovery: a call of `add_sibling` with a node of the host, or the delivery of a
    datagram to where it was sent, under the address of its sender. -/
def Discovers (port : ι → UInt16) (t : NetStep ι) : Prop :=
  match t.act with
  | .node _ (.addSibling addr sendOk) => sendOk = true ∧ ∃ j, addr = localAddr port j
  | .deliver j k src _ => ∃ d ∈ t.pre.pool[k]?, d.dst = localAddr port j ∧
      ∃ i, d.sender = some i ∧ src = localAddr port i
  | _ => False

instance [Fintype ι] [DecidableEq ι] (port : ι → UInt16) : DecidablePred (Discovers port) :=
  fun t => by
    unfold Discovers
    split <;> infer_instance

theorem Discovers.cases {port : ι → UInt16} {t : NetStep ι} (h : Discovers port t) :
    (∃ i j, t.act = .node i (.addSibling (localAddr port j) true)) ∨
      ∃ i j k amb d, t.act = .deliver j k (localAddr port i) amb ∧ t.pre.pool[k]? = some d ∧
        d.sender = some i ∧ d.dst = localAddr port j := by
  unfold Discovers at h
  split at h
  case h_1 i addr sendOk hact =>
    obtain ⟨rfl, j, rfl⟩ := h
    exact .inl ⟨i, j, hact⟩
  case h_2 j k src amb hact =>
    obtain ⟨d, hd, hdst, i, hsender, rfl⟩ := h
    exact .inr ⟨i, j, k, amb, d, hact, hd, hsender, hdst⟩
  case h_3 => cases h

/-- Nodes that know nobody yet. -/
structure Network.Undiscovered (port : ι → UInt16) (n : Network ι) : Prop where
  ports : ∀ i, (n.nodes i).node.port = port i
  siblings : ∀ i, (n.nodes i).node.siblings = []
  pool : n.pool = []

/-! ## The two ways into a table -/

namespace ENode

theorem isSome_findSibling_iff (s : ENode) (addr : Addr) :
    (s.findSibling addr).isSome ↔ addr ∈ s.siblings.map Peer.toAddr := by
  rw [findSibling, ← Option.ne_none_iff_isSome, ne_eq, Table.lookup_eq_none_iff]
  simp

/-- Case 'S' inserts the address. -/
theorem mem_handleSibling (s : ENode) (src addr : Addr) :
    addr ∈ (s.handleSibling src).siblings.map Peer.toAddr ↔
      addr ∈ s.siblings.map Peer.toAddr ∨ addr = src := by
  unfold handleSibling
  split
  case isTrue hknown =>
    rw [isSome_findSibling_iff] at hknown
    constructor
    · exact .inl
    · rintro (h | rfl)
      · exact h
      · exact hknown
  case isFalse => simp [Peer.new]

theorem nodup_handleSibling {s : ENode} (h : (s.siblings.map Peer.toAddr).Nodup) (src : Addr) :
    ((s.handleSibling src).siblings.map Peer.toAddr).Nodup := by
  unfold handleSibling
  split
  · exact h
  case isFalse hunknown =>
    exact Table.nodup_keys_append h (Option.not_isSome_iff_eq_none.mp hunknown)

theorem prefix_handleSibling (s : ENode) (src : Addr) :
    s.siblings <+: (s.handleSibling src).siblings := by
  unfold handleSibling
  split
  · exact List.prefix_refl _
  · exact List.prefix_append _ _

theorem handleSibling_port (s : ENode) (src : Addr) : (s.handleSibling src).port = s.port := by
  unfold handleSibling
  split <;> rfl

/-- For another node, `add_sibling` does to the table what case 'S' does. -/
theorem addSibling_eq {s : ENode} {addr : Addr}
    (hother : ¬ (addr.hostname = "127.0.0.1" ∧ addr.port = s.port)) :
    s.addSibling addr true = (s.handleSibling addr,
      if (s.findSibling addr).isSome then [] else [.sent ⟨addr, siblingStr⟩]) := by
  unfold addSibling handleSibling
  rw [if_neg hother]
  split <;> rfl

theorem addSibling_self {s : ENode} {addr : Addr}
    (hself : addr.hostname = "127.0.0.1" ∧ addr.port = s.port) :
    s.addSibling addr true = (s, []) :=
  if_pos hself

end ENode

/-! ## What a step of discovery does -/

/-- From `n` to `n'`, node `i` inserts node `j` and the pool grows by `sent`. -/
structure Inserts (port : ι → UInt16) (n n' : Network ι) (i j : ι) (sent : List (Sent ι)) :
    Prop where
  ports : ∀ k, (n'.nodes k).node.port = (n.nodes k).node.port
  hasSibling : ∀ k l, n'.HasSibling port k l ↔ n.HasSibling port k l ∨ (k = i ∧ l = j)
  mem : ∀ k, ∀ addr ∈ n'.addresses k, addr ∈ n.addresses k ∨ (k = i ∧ addr = localAddr port j)
  nodup : ∀ k, (n.addresses k).Nodup → (n'.addresses k).Nodup
  grows : ∀ k, (n.nodes k).node.siblings <+: (n'.nodes k).node.siblings
  pool : n'.pool = n.pool ++ sent

section Steps

variable [DecidableEq ι] {port : ι → UInt16} {b : Build} {t : NetStep ι}

theorem inserts_of_handleSibling (hport : Function.Injective port) (n : Network ι) {i j : ι}
    {s : System} (hs : s.node = (n.nodes i).node.handleSibling (localAddr port j))
    (sent : List (Sent ι)) :
    Inserts port n ⟨Function.update n.nodes i s, n.pool ++ sent⟩ i j sent := by
  have hupdate (k : ι) : (Function.update n.nodes i s k).node =
      if k = i then (n.nodes i).node.handleSibling (localAddr port j) else (n.nodes k).node := by
    by_cases hk : k = i
    · rw [if_pos hk, hk, Function.update_self, hs]
    · rw [if_neg hk, Function.update_of_ne hk]
  have hmem (k : ι) (addr : Addr) :
      addr ∈ (⟨Function.update n.nodes i s, n.pool ++ sent⟩ : Network ι).addresses k ↔
        addr ∈ n.addresses k ∨ (k = i ∧ addr = localAddr port j) := by
    rw [Network.addresses, hupdate]
    by_cases hk : k = i
    · subst hk
      rw [if_pos rfl, ENode.mem_handleSibling]
      simp [Network.addresses]
    · simp [hk, Network.addresses]
  refine ⟨fun k => ?_, fun k l => ?_, fun k addr haddr => (hmem k addr).mp haddr, fun k h => ?_,
    fun k => ?_, rfl⟩
  · rw [hupdate]
    split_ifs with hk
    · rw [hk, ENode.handleSibling_port]
    · rfl
  · rw [Network.HasSibling, hmem, localAddr_inj hport]
    rfl
  · rw [Network.addresses, hupdate]
    split_ifs with hk
    · subst hk
      exact ENode.nodup_handleSibling h _
    · exact h
  · rw [hupdate]
    split_ifs with hk
    · subst hk
      exact ENode.prefix_handleSibling _ _
    · exact List.prefix_refl _

/-- A call with the node itself changes nothing. -/
theorem step_of_self_call {i : ι} (hs : t.IsStep (Network.step b))
    (hact : t.act = .node i (.addSibling (localAddr port i) true))
    (hport : (t.pre.nodes i).node.port = port i) : t.post = t.pre := by
  have hself : (localAddr port i).hostname = "127.0.0.1" ∧
      (localAddr port i).port = (t.pre.nodes i).node.port := ⟨rfl, hport.symm⟩
  rw [Transition.IsStep, hact] at hs
  simp only [Network.step, Network.act, System.step, ENode.addSibling_self hself] at hs
  obtain ⟨hpost, _⟩ := Prod.mk.inj (Option.some.inj hs)
  rw [← hpost]
  simp [Network.sentBy]

/-- A call with another node inserts it, and sends it a message unless it is known. -/
theorem inserts_of_call (hport : Function.Injective port) {i j : ι}
    (hs : t.IsStep (Network.step b))
    (hact : t.act = .node i (.addSibling (localAddr port j) true))
    (hi : (t.pre.nodes i).node.port = port i) (hne : i ≠ j) :
    ∃ sent, Inserts port t.pre t.post i j sent ∧
      ((t.pre.HasSibling port i j ∧ sent = []) ∨ sent = [siblingMsg port i j]) := by
  have hother : ¬ ((localAddr port j).hostname = "127.0.0.1" ∧
      (localAddr port j).port = (t.pre.nodes i).node.port) := by
    rintro ⟨_, heq⟩
    exact hne (hport (hi.symm.trans heq.symm))
  rw [Transition.IsStep, hact] at hs
  simp only [Network.step, Network.act, System.step, ENode.addSibling_eq hother] at hs
  obtain ⟨hpost, _⟩ := Prod.mk.inj (Option.some.inj hs)
  refine ⟨_, hpost ▸ inserts_of_handleSibling hport t.pre rfl _, ?_⟩
  split_ifs with hknown
  · exact .inl ⟨(ENode.isSome_findSibling_iff _ _).mp hknown, rfl⟩
  · exact .inr rfl

/-- The delivery of a 'Sibling' message inserts its sender. -/
theorem inserts_of_delivery (hport : Function.Injective port) {i j : ι} {k : ℕ} {amb : Ambient}
    (hs : t.IsStep (Network.step b)) (hact : t.act = .deliver j k (localAddr port i) amb)
    (hk : t.pre.pool[k]? = some (siblingMsg port i j)) : Inserts port t.pre t.post j i [] := by
  have hmessage : (t.pre.nodes j).node.handleMessage (siblingMsg port i j).payload
      (localAddr port i) amb = .quiet ((t.pre.nodes j).node.handleSibling (localAddr port i)) :=
    ENode.handleMessage_sibling head_siblingStr _ _ _
  rw [Transition.IsStep, hact] at hs
  simp only [Network.step, hk, Network.act, System.step, hmessage, Outcome.quiet, if_true] at hs
  split_ifs at hs
  obtain ⟨hpost, _⟩ := Prod.mk.inj (Option.some.inj hs)
  exact hpost ▸ inserts_of_handleSibling hport t.pre rfl []

end Steps

/-! ## The invariant -/

/-- What the tables and the pool say about the calls and deliveries that have been made. -/
structure Discovered (port : ι → UInt16) (tr : List (NetStep ι)) (n : Network ι) : Prop where
  ports : ∀ i, (n.nodes i).node.port = port i
  nodup : ∀ i, (n.addresses i).Nodup
  known : ∀ i, ∀ addr ∈ n.addresses i, ∃ j, i ≠ j ∧ addr = localAddr port j ∧
    (Called port tr i j ∨ Called port tr j i)
  called : ∀ i j, i ≠ j → Called port tr i j → n.HasSibling port i j
  pool : ∀ d ∈ n.pool, ∃ i j, i ≠ j ∧ d = siblingMsg port i j ∧ Called port tr i j
  pending : ∀ i j, n.HasSibling port i j →
    n.HasSibling port j i ∨ siblingMsg port i j ∈ n.pool
  delivered : ∀ k, Delivered tr k → k < n.pool.length
  arrived : ∀ k i j, Delivered tr k → n.pool[k]? = some (siblingMsg port i j) →
    n.HasSibling port j i

theorem discovered_of_undiscovered {port : ι → UInt16} {n : Network ι} (h : n.Undiscovered port) :
    Discovered port [] n where
  ports := h.ports
  nodup i := by simp [Network.addresses, h.siblings]
  known i addr haddr := by simp [Network.addresses, h.siblings] at haddr
  called i j _ hcalled := by simp [Called] at hcalled
  pool d hd := by simp [h.pool] at hd
  pending i j hknown := by simp [Network.HasSibling, Network.addresses, h.siblings] at hknown
  delivered k hk := by simp [Delivered] at hk
  arrived k i j hk := by simp [Delivered] at hk

theorem called_snoc {port : ι → UInt16} {tr : List (NetStep ι)} {t : NetStep ι} {i j : ι} :
    Called port (tr ++ [t]) i j ↔ Called port tr i j ∨
      t.act = .node i (.addSibling (localAddr port j) true) := by
  simp [Called, or_and_right, exists_or]

theorem delivered_snoc {tr : List (NetStep ι)} {t : NetStep ι} {k : ℕ} :
    Delivered (tr ++ [t]) k ↔ Delivered tr k ∨ ∃ i src amb, t.act = .deliver i k src amb := by
  simp [Delivered, or_and_right, exists_or]

namespace Discovered

variable {port : ι → UInt16} {tr : List (NetStep ι)} {t : NetStep ι}

/-- After a call. -/
theorem step_call {i j : ι} {sent : List (Sent ι)} (hport : Function.Injective port)
    (hact : t.act = .node i (.addSibling (localAddr port j) true)) (hne : i ≠ j)
    (hinserts : Inserts port t.pre t.post i j sent)
    (hsent : (t.pre.HasSibling port i j ∧ sent = []) ∨ sent = [siblingMsg port i j])
    (h : Discovered port tr t.pre) : Discovered port (tr ++ [t]) t.post := by
  have hcalled (k l : ι) : Called port (tr ++ [t]) k l ↔ Called port tr k l ∨ (k = i ∧ l = j) := by
    rw [called_snoc, hact]
    constructor
    · rintro (hold | heq)
      · exact .inl hold
      · injection heq with hi ha
        injection ha with haddr
        exact .inr ⟨hi.symm, ((localAddr_inj hport).mp haddr).symm⟩
    · rintro (hold | ⟨rfl, rfl⟩)
      · exact .inl hold
      · exact .inr rfl
  have hdelivered (k : ℕ) : Delivered (tr ++ [t]) k ↔ Delivered tr k := by
    rw [delivered_snoc, hact]
    simp
  refine ⟨fun k => (hinserts.ports k).trans (h.ports k), fun k => hinserts.nodup k (h.nodup k),
    fun k addr haddr => ?_, fun k l hkl hcall => ?_, fun d hd => ?_, fun k l hknows => ?_,
    fun k hk => ?_, fun k l m hk hpool => ?_⟩
  · rcases hinserts.mem k addr haddr with hold | ⟨rfl, rfl⟩
    · obtain ⟨l, hkl, hl, hcall⟩ := h.known k addr hold
      exact ⟨l, hkl, hl, hcall.imp (fun hc => (hcalled k l).mpr (.inl hc))
        fun hc => (hcalled l k).mpr (.inl hc)⟩
    · exact ⟨j, hne, rfl, .inl ((hcalled k j).mpr (.inr ⟨rfl, rfl⟩))⟩
  · rw [hinserts.hasSibling]
    exact ((hcalled k l).mp hcall).imp_left (h.called k l hkl)
  · rw [hinserts.pool, List.mem_append] at hd
    rcases hd with hold | hnew
    · obtain ⟨k, l, hkl, hd, hcall⟩ := h.pool d hold
      exact ⟨k, l, hkl, hd, (hcalled k l).mpr (.inl hcall)⟩
    · rcases hsent with ⟨_, rfl⟩ | rfl
      · cases hnew
      · exact ⟨i, j, hne, List.mem_singleton.mp hnew, (hcalled i j).mpr (.inr ⟨rfl, rfl⟩)⟩
  · rw [hinserts.hasSibling, hinserts.pool, List.mem_append]
    have hold (hknown : t.pre.HasSibling port k l) := (h.pending k l hknown).imp
      (Or.inl (b := l = i ∧ k = j)) (Or.inl (b := siblingMsg port k l ∈ sent))
    rcases (hinserts.hasSibling k l).mp hknows with hknown | ⟨rfl, rfl⟩
    · exact hold hknown
    · rcases hsent with ⟨hknown, _⟩ | rfl
      · exact hold hknown
      · exact .inr (.inr (List.mem_singleton.mpr rfl))
  · rw [hdelivered] at hk
    rw [hinserts.pool, List.length_append]
    exact Nat.lt_add_right _ (h.delivered k hk)
  · rw [hdelivered] at hk
    rw [hinserts.pool, List.getElem?_append_left (h.delivered k hk)] at hpool
    rw [hinserts.hasSibling]
    exact .inl (h.arrived k l m hk hpool)

/-- After a call of a node with itself. -/
theorem step_self_call {i : ι} (hport : Function.Injective port)
    (hact : t.act = .node i (.addSibling (localAddr port i) true)) (hpost : t.post = t.pre)
    (h : Discovered port tr t.pre) : Discovered port (tr ++ [t]) t.post := by
  have hcalled (k l : ι) (hkl : k ≠ l) :
      Called port (tr ++ [t]) k l ↔ Called port tr k l := by
    rw [called_snoc, hact]
    refine ⟨fun hcall => hcall.elim id fun heq => ?_, .inl⟩
    injection heq with hi ha
    injection ha with haddr
    exact absurd (hi.symm.trans ((localAddr_inj hport).mp haddr)) hkl
  have hdelivered (k : ℕ) : Delivered (tr ++ [t]) k ↔ Delivered tr k := by
    rw [delivered_snoc, hact]
    simp
  rw [hpost]
  refine ⟨h.ports, h.nodup, fun k addr haddr => ?_, fun k l hkl hcall => ?_, fun d hd => ?_,
    h.pending, fun k hk => ?_, fun k l m hk hpool => ?_⟩
  · obtain ⟨l, hkl, hl, hcall⟩ := h.known k addr haddr
    exact ⟨l, hkl, hl, hcall.imp (hcalled k l hkl).mpr (hcalled l k hkl.symm).mpr⟩
  · exact h.called k l hkl ((hcalled k l hkl).mp hcall)
  · obtain ⟨k, l, hkl, hd, hcall⟩ := h.pool d hd
    exact ⟨k, l, hkl, hd, (hcalled k l hkl).mpr hcall⟩
  · exact h.delivered k ((hdelivered k).mp hk)
  · exact h.arrived k l m ((hdelivered k).mp hk) hpool

/-- After the delivery of a datagram. -/
theorem step_delivery {i j : ι} {k : ℕ} {amb : Ambient} (hport : Function.Injective port)
    (hact : t.act = .deliver j k (localAddr port i) amb) (hne : i ≠ j)
    (hk : t.pre.pool[k]? = some (siblingMsg port i j)) (hcall : Called port tr i j)
    (hinserts : Inserts port t.pre t.post j i []) (h : Discovered port tr t.pre) :
    Discovered port (tr ++ [t]) t.post := by
  have hcalled (l m : ι) : Called port (tr ++ [t]) l m ↔ Called port tr l m := by
    rw [called_snoc, hact]
    simp
  have hdelivered (l : ℕ) : Delivered (tr ++ [t]) l ↔ Delivered tr l ∨ l = k := by
    rw [delivered_snoc, hact]
    refine or_congr_right ⟨?_, fun heq => ⟨j, localAddr port i, amb, by rw [heq]⟩⟩
    rintro ⟨_, _, _, heq⟩
    injection heq with _ hkl
    exact hkl.symm
  have hpool : t.post.pool = t.pre.pool := hinserts.pool.trans (List.append_nil _)
  refine ⟨fun l => (hinserts.ports l).trans (h.ports l), fun l => hinserts.nodup l (h.nodup l),
    fun l addr haddr => ?_, fun l m hlm hlcall => ?_, fun d hd => ?_, fun l m hknows => ?_,
    fun l hl => ?_, fun l m m' hl hmsg => ?_⟩
  · simp only [hcalled]
    rcases hinserts.mem l addr haddr with hold | ⟨rfl, rfl⟩
    · exact h.known l addr hold
    · exact ⟨i, hne.symm, rfl, .inr hcall⟩
  · rw [hinserts.hasSibling]
    exact .inl (h.called l m hlm ((hcalled l m).mp hlcall))
  · simp only [hcalled]
    exact h.pool d (hpool ▸ hd)
  · rw [hinserts.hasSibling, hpool]
    rcases (hinserts.hasSibling l m).mp hknows with hold | ⟨rfl, rfl⟩
    · exact (h.pending l m hold).imp_left .inl
    · exact .inl (.inl (h.called m l hne hcall))
  · rw [hpool]
    rcases (hdelivered l).mp hl with hl | rfl
    · exact h.delivered l hl
    · exact (List.getElem?_eq_some_iff.mp hk).1
  · rw [hpool] at hmsg
    rw [hinserts.hasSibling]
    rcases (hdelivered l).mp hl with hl | rfl
    · exact .inl (h.arrived l m m' hl hmsg)
    · have hsame := siblingMsg_inj hport (Option.some.inj (hk.symm.trans hmsg))
      exact .inr ⟨hsame.2.symm, hsame.1.symm⟩

variable [DecidableEq ι] {b : Build}

/-- Every step of discovery keeps the invariant, and only appends to the tables. -/
theorem step (hport : Function.Injective port) (hs : t.IsStep (Network.step b))
    (hdiscovers : Discovers port t) (h : Discovered port tr t.pre) :
    Discovered port (tr ++ [t]) t.post ∧
      ∀ i, (t.pre.nodes i).node.siblings <+: (t.post.nodes i).node.siblings := by
  rcases hdiscovers.cases with ⟨i, j, hact⟩ | ⟨i, j, k, amb, d, hact, hd, hsender, hdst⟩
  · by_cases hne : i = j
    · subst hne
      have hpost := step_of_self_call hs hact (h.ports i)
      exact ⟨h.step_self_call hport hact hpost, fun k => by rw [hpost]⟩
    · obtain ⟨sent, hinserts, hsent⟩ := inserts_of_call hport hs hact (h.ports i) hne
      exact ⟨h.step_call hport hact hne hinserts hsent, hinserts.grows⟩
  · obtain ⟨i', j', hne, rfl, hcall⟩ := h.pool d (List.mem_of_getElem? hd)
    obtain rfl : i' = i := Option.some.inj hsender
    obtain rfl : j' = j := (localAddr_inj hport).mp hdst
    have hinserts := inserts_of_delivery hport hs hact hd
    exact ⟨h.step_delivery hport hact hne hd hcall hinserts, hinserts.grows⟩

theorem run (hport : Function.Injective port) {n₀ n : Network ι} (hstart : n₀.Undiscovered port)
    (hrun : NetRun b n₀ tr n) (hdiscovers : ∀ t ∈ tr, Discovers port t) :
    Discovered port tr n ∧
      ∀ t ∈ tr, ∀ i, (t.pre.nodes i).node.siblings <+: (t.post.nodes i).node.siblings := by
  refine hrun.history_of (I := fun past n => Discovered port past n ∧
    ∀ t ∈ past, ∀ i, (t.pre.nodes i).node.siblings <+: (t.post.nodes i).node.siblings)
    (fun past t hs hdiscovers h => ?_) (EachStep.iff_forall_mem.mpr hdiscovers)
    ⟨discovered_of_undiscovered hstart, by simp⟩
  obtain ⟨hdiscovered, hgrows⟩ := h
  obtain ⟨hnext, hgrow⟩ := hdiscovered.step hport hs hdiscovers
  refine ⟨hnext, fun u hu => ?_⟩
  rcases List.mem_append.mp hu with hu | hu
  · exact hgrows u hu
  · rw [List.mem_singleton.mp hu]
    exact hgrow

end Discovered

/-! ## Convergence -/

/-- In every run of discovery from empty tables, each table has distinct entries and never its
    owner, tables only grow at their end, and once all messages have been delivered two nodes
    have each other as siblings exactly when one has called the other. -/
theorem discovery_converges [DecidableEq ι] {b : Build} {port : ι → UInt16}
    (hport : Function.Injective port) {n₀ n : Network ι} {tr : List (NetStep ι)}
    (hstart : n₀.Undiscovered port) (hrun : NetRun b n₀ tr n)
    (hdiscovers : ∀ t ∈ tr, Discovers port t) :
    (∀ i, (n.addresses i).Nodup ∧ ¬ n.HasSibling port i i) ∧
    (∀ t ∈ tr, ∀ i, (t.pre.nodes i).node.siblings <+: (t.post.nodes i).node.siblings) ∧
    ((∀ k < n.pool.length, Delivered tr k) →
      (∀ i j, n.HasSibling port i j → n.HasSibling port j i) ∧
      ∀ i j, n.HasSibling port i j ↔ i ≠ j ∧ (Called port tr i j ∨ Called port tr j i)) := by
  obtain ⟨h, hgrows⟩ := Discovered.run hport hstart hrun hdiscovers
  have hknown (i j : ι) (hij : n.HasSibling port i j) :
      i ≠ j ∧ (Called port tr i j ∨ Called port tr j i) := by
    obtain ⟨k, hne, hk, hcall⟩ := h.known i _ hij
    obtain rfl : j = k := (localAddr_inj hport).mp hk
    exact ⟨hne, hcall⟩
  refine ⟨fun i => ⟨h.nodup i, fun hself => (hknown i i hself).1 rfl⟩, hgrows, fun hall => ?_⟩
  have hsymm (i j : ι) (hij : n.HasSibling port i j) : n.HasSibling port j i := by
    rcases h.pending i j hij with hji | hmem
    · exact hji
    · obtain ⟨k, hk⟩ := List.mem_iff_getElem?.mp hmem
      exact h.arrived k i j (hall k (List.getElem?_eq_some_iff.mp hk).1) hk
  refine ⟨hsymm, fun i j => ⟨hknown i j, ?_⟩⟩
  rintro ⟨hne, hcall | hcall⟩
  · exact h.called i j hne hcall
  · exact hsymm j i (h.called j i hne.symm hcall)

/-- Node `i` calls the others and node `j` calls node `k`. The messages arrive in another order,
    one of them twice. -/
def Scenario.mesh (i j k : Fin 3) : List (NetAction (Fin 3)) :=
  [.node i (.addSibling (addrOf j) true), .node i (.addSibling (addrOf k) true),
    .node j (.addSibling (addrOf k) true), .deliver k 2 (addrOf j) (reading 0),
    .deliver j 0 (addrOf i) (reading 0), .deliver k 1 (addrOf i) (reading 0),
    .deliver k 1 (addrOf i) (reading 0)]

set_option maxRecDepth 10000 in
open Scenario in
/-- The theorem at this run: everyone knows everyone. -/
theorem discovery_converges_mesh :
    ∃ tr n, NetRun .aexNotify three tr n ∧
      ∀ i j, n.HasSibling (fun k => (addrOf k).port) i j ↔ i ≠ j := by
  obtain ⟨tr, n, hrun, hn⟩ := exists_run_of_exec (Network.step .aexNotify) three (mesh 0 1 2)
    (fun tr n => (∀ t ∈ tr, Discovers (fun k => (addrOf k).port) t) ∧
      n.pool.length = 3 ∧ tr.map Transition.act = mesh 0 1 2) (by decide +kernel)
  obtain ⟨hdiscovers, hpool, hacts⟩ := hn
  have htaken (a : NetAction (Fin 3)) (ha : a ∈ mesh 0 1 2) : ∃ t ∈ tr, t.act = a :=
    List.mem_map.mp (hacts ▸ ha)
  have hcall : ∀ i j : Fin 3, i ≠ j →
      .node i (.addSibling (localAddr (fun k => (addrOf k).port) j) true) ∈ mesh 0 1 2 ∨
        .node j (.addSibling (localAddr (fun k => (addrOf k).port) i) true) ∈ mesh 0 1 2 := by
    decide
  have hdeliver : ∀ k < 3, ∃ i : Fin 3, ∃ j : Fin 3,
      NetAction.deliver i k (addrOf j) (reading 0) ∈ mesh 0 1 2 := by decide
  have hstart : three.Undiscovered fun k => (addrOf k).port := ⟨fun _ => rfl, fun _ => rfl, rfl⟩
  have hconverges := discovery_converges (by decide) hstart hrun hdiscovers
  refine ⟨tr, n, hrun, fun i j => ?_⟩
  rw [(hconverges.2.2 fun k hk => ?_).2 i j]
  · exact ⟨And.left, fun hne => ⟨hne, (hcall i j hne).imp (htaken _) (htaken _)⟩⟩
  · obtain ⟨i, j, hmem⟩ := hdeliver k (hpool ▸ hk)
    obtain ⟨t, ht, hact⟩ := htaken _ hmem
    exact ⟨t, ht, i, addrOf j, reading 0, hact⟩

end TriHaRd
