-- SUMMARY: No thread of the application uses a node of an enclave before it is made or after it is deleted, and none is left behind.
import TriHaRd.Host.Application

/-!
# The life of a node

What the main thread does with a `Node` tells how far it has come, and with that what the map of its
enclave holds and which of its threads may still run. This is the invariant. A thread that has not
ended keeps the destructor before its `join`, so the node is still there when the thread uses it.
-/

namespace TriHaRd

-- ---------------------------------------------------------------------------
-- The life of one node
-- ---------------------------------------------------------------------------

/-- How far a `Node` has come, by what the main thread does with it. -/
inductive Phase where
  /-- Its node has not been constructed. -/
  | born
  | running
  /-- It has been asked to stop. -/
  | stopping
  /-- So many of its threads have been joined. -/
  | joining (k : ℕ)
  | ended
  /-- Its node has been deleted, and the entry is still there. -/
  | deleted
  | erased

def MainPc.phase (port : UInt16) : MainPc → Phase
  | .initFind p | .initEmplace p => if p = port then .born else .running
  | .stop p _ => if p = port then .stopping else .running
  | .join p k => if p = port then .joining k else .running
  | .destroyFind p | .destroyDelete p => if p = port then .ended else .running
  | .destroyErase p => if p = port then .deleted else .running
  | .free p => if p = port then .erased else .running
  | .idle | .spawn _ _ | .call _ _ _ => .running

/-- The map of its enclave, which hosts no other node. -/
def Phase.table (port : UInt16) : Phase → NodeTable
  | .born => .fresh
  | .running | .stopping | .joining _ | .ended => ⟨[(port, some 0)], [0], 1⟩
  | .deleted => ⟨[(port, some 0)], [], 1⟩
  | .erased => ⟨[], [], 1⟩

/-- None of the threads is in the enclave any more. -/
def HostNode.Quiet (n : HostNode) : Prop := ∀ th ∈ n.threads, th.pc = .ended

/-- Which threads there can be, and which have ended. -/
def Phase.Holds (n : HostNode) : Phase → Prop
  | .born => n.threads = []
  | .running => True
  | .stopping => n.stop = true
  | .joining k => n.stop = true ∧ ∀ th ∈ n.threads.take k, th.pc = .ended
  | .ended | .deleted | .erased => n.Quiet

/-- A pointer that has been fetched is that of the node. -/
def EcallPc.Sound : EcallPc → Prop
  | .method node => node = some 0
  | .find | .subscript => True

/-- The thread is in the enclave only if there is one. -/
def ThreadPc.Sound (created : Bool) : ThreadPc → Prop
  | .inside pc => created = true ∧ pc.Sound
  | .head | .ended => True

/-- The calls of the thread are bounded, or it ends when the `Node` has been asked to stop. -/
structure HostThread.Sound (created : Bool) (th : HostThread) : Prop where
  pc : th.pc.Sound created
  ends : th.rounds ≠ none ∨ th.heedsStop = true

structure HostNode.Sane (port : UInt16) (phase : Phase) (n : HostNode) : Prop where
  table : n.table = if n.created then phase.table port else .fresh
  holds : phase.Holds n
  threads : ∀ th ∈ n.threads, th.Sound n.created

/-- The node that the main thread is busy with exists, and so does its enclave where the main thread
    is inside. -/
def MainPc.Sound (created : UInt16 → Option Bool) : MainPc → Prop
  | .idle => True
  | .spawn port rest => created port ≠ none ∧ ∀ th ∈ rest, th.pc = .head ∧ th.rounds ≠ none
  | .join port _ | .free port => created port ≠ none
  | .initFind port | .initEmplace port | .destroyFind port | .destroyDelete port
  | .destroyErase port => created port = some true
  | .call port _ pc | .stop port pc => created port = some true ∧ pc.Sound

namespace Host

def created (s : Host) (port : UInt16) : Option Bool := (s.nodes port).map HostNode.created

structure Sane (s : Host) : Prop where
  nodes : ∀ port n, s.nodes port = some n → n.Sane port (s.main.phase port)
  main : s.main.Sound s.created

end Host

theorem Launch.thread_sound (l : Launch) (created : Bool) : l.thread.Sound created := by
  cases l with
  | enclPollTimestamp => exact ⟨trivial, .inl nofun⟩
  | pollTimestamp count => exact ⟨trivial, .inr rfl⟩
  | benchTimestamp => exact ⟨trivial, .inr rfl⟩

/-- An entry point leaves the map alone, fetches the pointer of the node and uses that. -/
theorem Ecall.step_sound (e : Ecall) (port : UInt16) (stays : Bool) {pc : EcallPc} (h : pc.Sound) :
    let t : NodeTable := ⟨[(port, some 0)], [0], 1⟩
    (e.step port t stays pc).1 = t ∧ (∀ pc' ∈ (e.step port t stays pc).2.1, pc'.Sound) ∧
      ∀ ev ∈ (e.step port t stays pc).2.2, ev = .access port e (some 0) := by
  have hlookup : ([(port, some 0)] : List (UInt16 × Option ℕ)).lookup port = some (some 0) := by
    rw [List.lookup_cons_self]
  cases pc with
  | find =>
      simp only [step, NodeTable.find, hlookup, Option.isSome_some, if_true]
      exact ⟨trivial, fun pc' hpc' => Option.some.inj hpc' ▸ trivial, nofun⟩
  | subscript =>
      simp only [step, NodeTable.subscript, hlookup]
      exact ⟨trivial, fun pc' hpc' => Option.some.inj hpc' ▸ rfl, nofun⟩
  | method node =>
      obtain rfl : node = some 0 := h
      refine ⟨rfl, fun pc' hpc' => ?_, fun ev hev => List.mem_singleton.mp hev⟩
      simp only [step] at hpc'
      split at hpc' <;> cases hpc'
      rfl

theorem HostThread.step_inside {th : HostThread} {pc : EcallPc} (hpc : th.pc = .inside pc)
    (port : UInt16) (n : HostNode) (stays : Bool) :
    th.step port n stays =
      let r := th.ecall.step port n.table stays pc
      some (r.1, { th with pc := r.2.1.elim .head .inside }, r.2.2) := by
  unfold HostThread.step
  rw [hpc]

theorem HostThread.ends_of_step {th th' : HostThread} {port : UInt16} {n : HostNode} {stays : Bool}
    {table : NodeTable} {events : List HostEvent}
    (hs : th.step port n stays = some (table, th', events))
    (h : th.rounds ≠ none ∨ th.heedsStop = true) : th'.rounds ≠ none ∨ th'.heedsStop = true := by
  unfold HostThread.step at hs
  split at hs
  · split_ifs at hs
    · cases hs
      exact h
    all_goals
      cases hs
      exact h.imp_left fun hne => by simpa using hne
  · obtain ⟨rfl, rfl, rfl⟩ := hs
    exact h
  · cases hs

namespace HostNode

variable {port : UInt16} {phase : Phase} {n : HostNode} {th th' : HostThread} {k : ℕ}

/-- The main thread goes on, and the node stays as it is. -/
theorem Sane.advance {phase' : Phase} (h : n.Sane port phase)
    (htable : n.created = true → phase.table port = phase'.table port)
    (hholds : phase'.Holds n) : n.Sane port phase' := by
  refine ⟨?_, hholds, h.threads⟩
  rw [h.table]
  split
  · next hcreated => exact htable hcreated
  · rfl

/-- While a thread has not ended, no thread behind it has been joined. -/
theorem Sane.holds_set (h : n.Sane port phase) (hk : n.threads[k]? = some th)
    (hpc : th.pc ≠ .ended) (th' : HostThread) :
    phase.Holds { n with threads := n.threads.set k th' } := by
  have hmem : th ∈ n.threads := List.mem_of_getElem? hk
  have hholds := h.holds
  cases phase with
  | born =>
      rw [show n.threads = [] from hholds] at hk
      cases hk
  | running => trivial
  | stopping => exact hholds
  | joining j =>
      obtain ⟨hstop, hjoined⟩ := hholds
      -- the thread runs, so it is behind those that have been joined
      have hle : j ≤ k := by
        by_contra hlt
        refine hpc (hjoined th (List.mem_of_getElem? (i := k) ?_))
        rw [List.getElem?_take_of_lt (by omega), hk]
      refine ⟨hstop, fun u hu => ?_⟩
      rw [List.take_set, List.set_eq_of_length_le] at hu
      · exact hjoined u hu
      · rw [List.length_take]
        omega
  | ended | deleted | erased => exact absurd (hholds th hmem) hpc

/-- A thread is in the enclave only while its node is there. -/
theorem Sane.table_of_inside {pc : EcallPc} (h : n.Sane port phase) (hmem : th ∈ n.threads)
    (hpc : th.pc = .inside pc) : n.table = ⟨[(port, some 0)], [0], 1⟩ := by
  have hcreated : n.created = true := by
    have hsound := (h.threads th hmem).pc
    rw [hpc] at hsound
    exact hsound.1
  have hholds := h.holds
  rw [h.table, if_pos hcreated]
  cases phase with
  | born =>
      rw [show n.threads = [] from hholds] at hmem
      cases hmem
  | running | stopping | joining => rfl
  | ended | deleted | erased => cases hpc.symm.trans (hholds th hmem)

/-- A step of a thread leaves the map alone, and uses the node only while it is there. -/
theorem Sane.thread {stays : Bool} {table : NodeTable} {events : List HostEvent}
    (h : n.Sane port phase) (hk : n.threads[k]? = some th)
    (hs : th.step port n stays = some (table, th', events)) :
    table = n.table ∧ Sane port phase { n with threads := n.threads.set k th' } ∧
      ∀ ev ∈ events, ev = .access port th.ecall (some 0) ∧ 0 ∈ n.table.live := by
  have hmem : th ∈ n.threads := List.mem_of_getElem? hk
  have hends := HostThread.ends_of_step hs (h.threads th hmem).ends
  have hset (hsound : th'.pc.Sound n.created) (hpc : th.pc ≠ .ended) :
      Sane port phase { n with threads := n.threads.set k th' } := by
    refine ⟨h.table, h.holds_set hk hpc th', fun u hu => ?_⟩
    rcases List.mem_or_eq_of_mem_set hu with hu | rfl
    · exact h.threads u hu
    · exact ⟨hsound, hends⟩
  cases hpc : th.pc with
  | head =>
      unfold HostThread.step at hs
      rw [hpc] at hs
      dsimp only at hs
      split_ifs at hs with hlast hcreated
      · cases hs
        exact ⟨rfl, hset trivial (by rw [hpc]; nofun), nofun⟩
      · cases hs
        exact ⟨rfl, hset ⟨hcreated, trivial⟩ (by rw [hpc]; nofun), nofun⟩
      · cases hs
        exact ⟨rfl, hset trivial (by rw [hpc]; nofun), nofun⟩
  | inside pc =>
      have hsound := (h.threads th hmem).pc
      rw [hpc] at hsound
      have htable := h.table_of_inside hmem hpc
      obtain ⟨hkept, hnext, hevents⟩ := th.ecall.step_sound port stays hsound.2
      rw [HostThread.step_inside hpc, htable] at hs
      obtain ⟨rfl, rfl, rfl⟩ := hs
      refine ⟨hkept.trans htable.symm, hset ?_ (by rw [hpc]; nofun), fun ev hev => ?_⟩
      · cases hpc' : (th.ecall.step port ⟨[(port, some 0)], [0], 1⟩ stays pc).2.1 with
        | none => trivial
        | some pc' => exact ⟨hsound.1, hnext pc' hpc'⟩
      · rw [htable]
        exact ⟨hevents ev hev, List.mem_singleton_self 0⟩
  | ended =>
      unfold HostThread.step at hs
      rw [hpc] at hs
      cases hs

/-- The event uses the node that the enclave hosts. -/
inductive Uses (port : UInt16) (n : HostNode) : HostEvent → Prop where
  | access (e : Ecall) (hlive : 0 ∈ n.table.live) : Uses port n (.access port e (some 0))
  | delete (hlive : 0 ∈ n.table.live) (hquiet : n.Quiet) : Uses port n (.delete port (some 0))

end HostNode

-- ---------------------------------------------------------------------------
-- Steps
-- ---------------------------------------------------------------------------

/-- Pointers that are used or deleted point to a node that has not been deleted, and a node is
    deleted only when no thread can use it. The map is written only while no thread reads it. When
    the `Node` is freed, no thread is left, and nothing in the enclave. -/
structure HostStep.Safe (t : HostStep) : Prop where
  access : ∀ port e node, .access port e node ∈ t.events →
    ∃ n id, t.pre.nodes port = some n ∧ node = some id ∧ id ∈ n.table.live
  delete : ∀ port node, .delete port node ∈ t.events →
    ∃ n id, t.pre.nodes port = some n ∧ node = some id ∧ id ∈ n.table.live ∧ n.Quiet
  writes : ∀ port n n', t.pre.nodes port = some n → t.post.nodes port = some n' →
    n'.table ≠ n.table → n.Quiet
  frees : ∀ port n, t.pre.nodes port = some n → t.post.nodes port = none →
    n.Quiet ∧ n.table.live = [] ∧ n.table.entries = []

namespace Host

variable {s s' : Host} {port : UInt16} {n n' : HostNode} {events : List HostEvent} {m : MainPc}

/-- A step of the main thread that leaves all nodes as they are. -/
theorem safe_of_main (a : HostAction) (m : MainPc) :
    HostStep.Safe ⟨s, a, [], { s with main := m }⟩ where
  access := nofun
  delete := nofun
  writes port n n' hn hn' hne := absurd (by cases hn.symm.trans hn'; rfl) hne
  frees port n hn hfree := by cases hn.symm.trans hfree

/-- A step that changes one node. -/
theorem safe_of_node (a : HostAction) (hn : s.nodes port = some n)
    (hpost : s'.nodes = Function.update s.nodes port (some n'))
    (hevents : ∀ ev ∈ events, n.Uses port ev) (htable : n'.table = n.table ∨ n.Quiet) :
    HostStep.Safe ⟨s, a, events, s'⟩ where
  access q e node hev := by
    cases hevents _ hev with
    | access _ hlive => exact ⟨n, 0, hn, rfl, hlive⟩
  delete q node hev := by
    cases hevents _ hev with
    | delete hlive hquiet => exact ⟨n, 0, hn, rfl, hlive, hquiet⟩
  writes q k k' hk hk' hne := by
    rw [hpost] at hk'
    by_cases hq : q = port
    · rw [hq, Function.update_self] at hk'
      rw [hq, hn] at hk
      cases hk
      cases hk'
      exact htable.resolve_left hne
    · rw [Function.update_of_ne hq, hk] at hk'
      cases hk'
      exact absurd rfl hne
  frees q k hk hfree := by
    rw [hpost] at hfree
    by_cases hq : q = port
    · rw [hq, Function.update_self] at hfree
      cases hfree
    · rw [Function.update_of_ne hq, hk] at hfree
      cases hfree

/-- A node that is not there before can do nothing wrong. -/
theorem safe_of_new (a : HostAction) (hn : s.nodes port = none)
    (hpost : s'.nodes = Function.update s.nodes port (some n')) :
    HostStep.Safe ⟨s, a, [], s'⟩ where
  access := nofun
  delete := nofun
  writes q k k' hk hk' hne := by
    rw [hpost] at hk'
    obtain rfl | hq := eq_or_ne q port
    · cases hn.symm.trans hk
    · rw [Function.update_of_ne hq, hk] at hk'
      cases hk'
      exact absurd rfl hne
  frees q k hk hfree := by
    rw [hpost] at hfree
    obtain rfl | hq := eq_or_ne q port
    · cases hn.symm.trans hk
    · rw [Function.update_of_ne hq, hk] at hfree
      cases hfree

theorem created_of (hn : s.nodes port = some n) (h : s.created port = some true) :
    n.created = true := by
  rw [created, hn] at h
  exact Option.some.inj h

theorem created_setNode (hn : s.nodes port = some n) (hcreated : n'.created = n.created) :
    (s.setNode port n').created = s.created := by
  funext q
  obtain rfl | hq := eq_or_ne q port
  · simp [created, setNode, hn, hcreated]
  · simp [created, setNode, Function.update_of_ne hq]

theorem Sane.goOn (h : s.Sane) (port : UInt16)
    (hphase : ∀ q, q ≠ port → m.phase q = s.main.phase q)
    (hport : ∀ n, s.nodes port = some n → n.Sane port (m.phase port))
    (hmain : m.Sound s.created) : Sane { s with main := m } where
  nodes q k hk := by
    obtain rfl | hq := eq_or_ne q port
    · exact hport k hk
    · rw [hphase q hq]
      exact h.nodes q k hk
  main := hmain

theorem Sane.put (h : s.Sane) (hphase : ∀ q, q ≠ port → m.phase q = s.main.phase q)
    (hport : n'.Sane port (m.phase port)) (hmain : m.Sound (s.setNode port n').created) :
    Sane { s.setNode port n' with main := m } where
  nodes q k hk := by
    obtain rfl | hq := eq_or_ne q port
    · rw [show ({ s.setNode q n' with main := m } : Host).nodes q = some n' from
        Function.update_self ..] at hk
      exact Option.some.inj hk ▸ hport
    · rw [show ({ s.setNode port n' with main := m } : Host).nodes q = s.nodes q from
        Function.update_of_ne hq ..] at hk
      rw [hphase q hq]
      exact h.nodes q k hk
  main := hmain

/-- The enclave that an entry point runs in, with the node that the main thread is busy with. -/
theorem Sane.enters (h : s.Sane) (hn : s.nodes port = some n)
    (hcreated : s.created port = some true)
    (htable : (s.main.phase port).table port = ⟨[(port, some 0)], [0], 1⟩) {pc : EcallPc}
    (hpc : pc.Sound) (e : Ecall) (stays : Bool) :
    let r := e.step port n.table stays pc
    r.1 = n.table ∧ (∀ pc' ∈ r.2.1, pc'.Sound) ∧ ∀ ev ∈ r.2.2, n.Uses port ev := by
  have htable : n.table = ⟨[(port, some 0)], [0], 1⟩ := by
    rw [(h.nodes port n hn).table, if_pos (created_of hn hcreated), htable]
  obtain ⟨hkept, hnext, hevents⟩ := e.step_sound port stays hpc
  rw [← htable] at hkept hnext hevents
  refine ⟨hkept, hnext, fun ev hev => ?_⟩
  rw [hevents ev hev]
  exact .access e (htable ▸ List.mem_singleton_self 0)

/-- Whether there is an enclave or not, nothing is left in its map when the `Node` is freed. -/
theorem Sane.free {a : HostAction} (h : s.Sane) (hmain : s.main = .free port) :
    HostStep.Safe ⟨s, a, [], ⟨Function.update s.nodes port none, .idle⟩⟩ ∧
      Sane ⟨Function.update s.nodes port none, .idle⟩ := by
  refine ⟨⟨nofun, nofun, fun q k k' hk hk' hne => ?_, fun q k hk hfree => ?_⟩,
    ⟨fun q k hk => ?_, trivial⟩⟩
  · obtain rfl | hq := eq_or_ne q port
    · cases (Function.update_self ..).symm.trans hk'
    · cases ((Function.update_of_ne hq ..).symm.trans hk').symm.trans hk
      exact absurd rfl hne
  · obtain rfl | hq := eq_or_ne q port
    · have hsane := h.nodes q k hk
      rw [hmain, MainPc.phase, if_pos rfl] at hsane
      refine ⟨hsane.holds, ?_⟩
      rw [hsane.table]
      split <;> exact ⟨rfl, rfl⟩
    · cases ((Function.update_of_ne hq ..).symm.trans hfree).symm.trans hk
  · obtain rfl | hq := eq_or_ne q port
    · cases (Function.update_self ..).symm.trans hk
    · have hsane := h.nodes q k ((Function.update_of_ne hq ..).symm.trans hk)
      rw [hmain, MainPc.phase, if_neg hq.symm] at hsane
      exact hsane

/-! ## What the main thread goes on with -/

variable {stays : Bool}

theorem Sane.initFind (h : s.Sane) (hmain : s.main = .initFind port)
    (hs : s.mainStep stays = some (s', events)) :
    HostStep.Safe ⟨s, .main stays, events, s'⟩ ∧ s'.Sane := by
  have hsound := h.main
  unfold Host.mainStep at hs
  rw [hmain] at hs hsound
  obtain ⟨n, hn, hs⟩ := Option.map_eq_some_iff.mp hs
  have hsane := h.nodes port n hn
  rw [hmain, MainPc.phase, if_pos rfl] at hsane
  have hfind : n.table.find port = false := by
    rw [hsane.table]
    split <;> rfl
  rw [hfind, if_neg Bool.false_ne_true] at hs
  cases hs
  refine ⟨safe_of_main _ _, h.goOn port (fun q hq => ?_) (fun k hk => ?_) hsound⟩
  · simp [hmain, MainPc.phase]
  · cases hn.symm.trans hk
    rw [MainPc.phase, if_pos rfl]
    exact hsane

theorem Sane.initEmplace (h : s.Sane) (hmain : s.main = .initEmplace port)
    (hs : s.mainStep stays = some (s', events)) :
    HostStep.Safe ⟨s, .main stays, events, s'⟩ ∧ s'.Sane := by
  have hsound := h.main
  unfold Host.mainStep at hs
  rw [hmain] at hs hsound
  obtain ⟨n, hn, hs⟩ := Option.map_eq_some_iff.mp hs
  have hsane := h.nodes port n hn
  rw [hmain, MainPc.phase, if_pos rfl] at hsane
  have hcreated := created_of hn hsound
  -- no thread has been started yet, so nobody reads the map
  have hthreads : n.threads = [] := hsane.holds
  have htable : n.table = .fresh := by
    rw [hsane.table]
    split <;> rfl
  cases hs
  refine ⟨safe_of_node _ hn rfl nofun (.inr fun th hth => ?_),
    h.put (fun q hq => ?_) ⟨?_, trivial, hsane.threads⟩ ⟨?_, ?_⟩⟩
  · rw [hthreads] at hth
    cases hth
  · simp [hmain, MainPc.phase, hq.symm]
  · dsimp only
    rw [htable, if_pos hcreated]
    rfl
  · simp [created, setNode]
  · decide

theorem Sane.spawn {rest : List HostThread} (h : s.Sane) (hmain : s.main = .spawn port rest)
    (hs : s.mainStep stays = some (s', events)) :
    HostStep.Safe ⟨s, .main stays, events, s'⟩ ∧ s'.Sane := by
  have hsound := h.main
  unfold Host.mainStep at hs
  rw [hmain] at hs hsound
  obtain ⟨hcreated, hrest⟩ := hsound
  cases rest with
  | nil =>
      cases hs
      refine ⟨safe_of_main _ _, h.goOn port (fun q hq => ?_) (fun k hk => ?_) trivial⟩
      · rw [hmain]
        rfl
      · have hsane := h.nodes port k hk
        rwa [hmain] at hsane
  | cons th rest =>
      obtain ⟨n, hn, hs⟩ := Option.map_eq_some_iff.mp hs
      have hsane := h.nodes port n hn
      rw [hmain] at hsane
      cases hs
      refine ⟨safe_of_node _ hn rfl nofun (.inl rfl),
        h.put (fun q hq => ?_) ⟨hsane.table, trivial, fun u hu => ?_⟩ ⟨?_, ?_⟩⟩
      · rw [hmain]
        rfl
      · rcases List.mem_append.mp hu with hu | hu
        · exact hsane.threads u hu
        · obtain ⟨hhead, hrounds⟩ := hrest th List.mem_cons_self
          rw [List.mem_singleton.mp hu]
          exact ⟨hhead ▸ trivial, .inl hrounds⟩
      · simp [created, setNode]
      · exact fun u hu => hrest u (List.mem_cons_of_mem _ hu)

/-- A step inside an entry point, after which the main thread is at `m`. -/
theorem Sane.inside {a : HostAction} {e : Ecall} {pc : EcallPc} {r : Option EcallPc}
    {table : NodeTable} (h : s.Sane) (hn : s.nodes port = some n)
    (hcreated : s.created port = some true) (hpc : pc.Sound)
    (htable : (s.main.phase port).table port = ⟨[(port, some 0)], [0], 1⟩)
    (hr : e.step port n.table stays pc = (table, r, events))
    (hother : ∀ q, q ≠ port → m.phase q = s.main.phase q)
    (hport : n.Sane port (s.main.phase port) → n.Sane port (m.phase port))
    (hm : (∀ pc' ∈ r, pc'.Sound) → m.Sound s.created) :
    let s' := { s.setNode port { n with table := table } with main := m }
    HostStep.Safe ⟨s, a, events, s'⟩ ∧ s'.Sane := by
  obtain ⟨hkept, hsound, hevents⟩ := h.enters hn hcreated htable hpc e stays
  rw [hr] at hkept hsound hevents
  obtain rfl : table = n.table := hkept
  have hsame : (s.setNode port n).created = s.created := created_setNode hn rfl
  exact ⟨safe_of_node a hn rfl hevents (.inl rfl),
    h.put hother (hport (h.nodes port n hn)) (hsame ▸ hm hsound)⟩

theorem Sane.callStep {e : Ecall} {pc : EcallPc} (h : s.Sane) (hmain : s.main = .call port e pc)
    (hs : s.mainStep stays = some (s', events)) :
    HostStep.Safe ⟨s, .main stays, events, s'⟩ ∧ s'.Sane := by
  have hsound := h.main
  unfold Host.mainStep at hs
  rw [hmain] at hs hsound
  obtain ⟨n, hn, hs⟩ := Option.map_eq_some_iff.mp hs
  generalize hr : e.step port n.table stays pc = res at hs
  obtain ⟨table, r, evs⟩ := res
  cases hs
  refine h.inside hn hsound.1 hsound.2 (by rw [hmain]; rfl) hr (fun q _ => ?_) (fun hsane => ?_)
    (fun hsound' => ?_)
  · rw [hmain]
    cases r <;> rfl
  · rw [hmain] at hsane
    cases r <;> exact hsane
  · cases r with
    | none => trivial
    | some pc' => exact ⟨hsound.1, hsound' pc' rfl⟩

theorem Sane.stop {pc : EcallPc} (h : s.Sane) (hmain : s.main = .stop port pc)
    (hs : s.mainStep stays = some (s', events)) :
    HostStep.Safe ⟨s, .main stays, events, s'⟩ ∧ s'.Sane := by
  have hsound := h.main
  unfold Host.mainStep at hs
  rw [hmain] at hs hsound
  obtain ⟨n, hn, hs⟩ := Option.map_eq_some_iff.mp hs
  generalize hr : Ecall.stop.step port n.table stays pc = res at hs
  obtain ⟨table, r, evs⟩ := res
  cases hs
  refine h.inside hn hsound.1 hsound.2 (by rw [hmain, MainPc.phase, if_pos rfl]; rfl) hr
    (fun q hq => ?_) (fun hsane => ?_) (fun hsound' => ?_)
  · rw [hmain]
    cases r <;> simp [MainPc.phase, hq.symm]
  · rw [hmain, MainPc.phase, if_pos rfl] at hsane
    cases r with
    | none =>
        have hstop : n.stop = true := hsane.holds
        rw [Option.elim_none, MainPc.phase, if_pos rfl]
        exact hsane.advance (fun _ => rfl) ⟨hstop, nofun⟩
    | some pc' =>
        rw [Option.elim_some, MainPc.phase, if_pos rfl]
        exact hsane
  · cases r with
    | none => simp [MainPc.Sound, hsound.1]
    | some pc' => exact ⟨hsound.1, hsound' pc' rfl⟩

theorem Sane.join {k : ℕ} (h : s.Sane) (hmain : s.main = .join port k)
    (hs : s.mainStep stays = some (s', events)) :
    HostStep.Safe ⟨s, .main stays, events, s'⟩ ∧ s'.Sane := by
  have hsound := h.main
  unfold Host.mainStep at hs
  rw [hmain] at hs hsound
  dsimp only at hs
  cases hn : s.nodes port with
  | none =>
      rw [hn] at hs
      cases hs
  | some n =>
      rw [hn] at hs
      have hsane := h.nodes port n hn
      rw [hmain, MainPc.phase, if_pos rfl] at hsane
      obtain ⟨hstop, hjoined⟩ : n.stop = true ∧ ∀ th ∈ n.threads.take k, th.pc = .ended :=
        hsane.holds
      dsimp only at hs
      cases hk : n.threads[k]? with
      | some th =>
          rw [hk] at hs
          dsimp only at hs
          split_ifs at hs with hended
          cases hs
          refine ⟨safe_of_main _ _,
            h.goOn port (fun q hq => ?_) (fun n' hn' => ?_) hsound⟩
          · simp [hmain, MainPc.phase, hq.symm]
          · cases hn.symm.trans hn'
            rw [MainPc.phase, if_pos rfl]
            refine hsane.advance (fun _ => rfl) ⟨hstop, fun u hu => ?_⟩
            rw [List.take_add_one, hk] at hu
            rcases List.mem_append.mp hu with hu | hu
            · exact hjoined u hu
            · cases List.mem_singleton.mp hu
              exact hended
      | none =>
          rw [hk] at hs
          cases hs
          -- every thread has been joined, so from here on nobody uses the node
          have hall : n.Quiet := by
            rw [List.take_of_length_le (List.getElem?_eq_none_iff.mp hk)] at hjoined
            exact hjoined
          refine ⟨safe_of_main _ _,
            h.goOn port (fun q hq => ?_) (fun n' hn' => ?_) ?_⟩
          · cases n.created <;> simp [hmain, MainPc.phase, hq.symm]
          · cases hn.symm.trans hn'
            cases hcreated : n.created with
            | true =>
                rw [if_pos rfl, MainPc.phase, if_pos rfl]
                exact hsane.advance (fun _ => rfl) hall
            | false =>
                rw [if_neg Bool.false_ne_true, MainPc.phase, if_pos rfl]
                exact hsane.advance (fun h => absurd (hcreated.symm.trans h) nofun) hall
          · cases hcreated : n.created with
            | true => simp [MainPc.Sound, created, hn, hcreated]
            | false => exact hsound

theorem Sane.destroyFind (h : s.Sane) (hmain : s.main = .destroyFind port)
    (hs : s.mainStep stays = some (s', events)) :
    HostStep.Safe ⟨s, .main stays, events, s'⟩ ∧ s'.Sane := by
  have hsound := h.main
  unfold Host.mainStep at hs
  rw [hmain] at hs hsound
  obtain ⟨n, hn, hs⟩ := Option.map_eq_some_iff.mp hs
  have hsane := h.nodes port n hn
  rw [hmain, MainPc.phase, if_pos rfl] at hsane
  have hfind : n.table.find port = true := by
    rw [hsane.table, if_pos (created_of hn hsound)]
    simp [NodeTable.find, Phase.table]
  rw [hfind, if_pos rfl] at hs
  cases hs
  refine ⟨safe_of_main _ _, h.goOn port (fun q hq => ?_) (fun n' hn' => ?_) hsound⟩
  · simp [hmain, MainPc.phase]
  · cases hn.symm.trans hn'
    rw [MainPc.phase, if_pos rfl]
    exact hsane

theorem Sane.destroyDelete (h : s.Sane) (hmain : s.main = .destroyDelete port)
    (hs : s.mainStep stays = some (s', events)) :
    HostStep.Safe ⟨s, .main stays, events, s'⟩ ∧ s'.Sane := by
  have hsound := h.main
  unfold Host.mainStep at hs
  rw [hmain] at hs hsound
  obtain ⟨n, hn, hs⟩ := Option.map_eq_some_iff.mp hs
  have hsane := h.nodes port n hn
  rw [hmain, MainPc.phase, if_pos rfl] at hsane
  have hcreated := created_of hn hsound
  have htable : n.table = ⟨[(port, some 0)], [0], 1⟩ := by
    rw [hsane.table, if_pos hcreated]
    rfl
  have hsubscript : n.table.subscript port = (n.table, some 0) := by
    rw [htable]
    simp [NodeTable.subscript]
  have hdelete : n.table.delete (some 0) = ⟨[(port, some 0)], [], 1⟩ := by
    rw [htable]
    simp [NodeTable.delete]
  dsimp only at hs
  rw [hsubscript] at hs
  dsimp only at hs
  rw [hdelete] at hs
  cases hs
  refine ⟨safe_of_node _ hn rfl (fun ev hev => ?_) (.inr hsane.holds),
    h.put (fun q hq => ?_) ⟨?_, ?_, hsane.threads⟩ ?_⟩
  · rw [List.mem_singleton.mp hev]
    exact .delete (htable ▸ List.mem_singleton_self 0) hsane.holds
  · simp [hmain, MainPc.phase, hq.symm]
  · dsimp only
    rw [if_pos hcreated, MainPc.phase, if_pos rfl]
    rfl
  · rw [MainPc.phase, if_pos rfl]
    exact hsane.holds
  · simp [MainPc.Sound, created, setNode, hcreated]

theorem Sane.destroyErase (h : s.Sane) (hmain : s.main = .destroyErase port)
    (hs : s.mainStep stays = some (s', events)) :
    HostStep.Safe ⟨s, .main stays, events, s'⟩ ∧ s'.Sane := by
  have hsound := h.main
  unfold Host.mainStep at hs
  rw [hmain] at hs hsound
  obtain ⟨n, hn, hs⟩ := Option.map_eq_some_iff.mp hs
  have hsane := h.nodes port n hn
  rw [hmain, MainPc.phase, if_pos rfl] at hsane
  have hcreated := created_of hn hsound
  have herase : n.table.erase port = ⟨[], [], 1⟩ := by
    rw [hsane.table, if_pos hcreated]
    simp [NodeTable.erase, Phase.table]
  dsimp only at hs
  rw [herase] at hs
  cases hs
  refine ⟨safe_of_node _ hn rfl nofun (.inr hsane.holds),
    h.put (fun q hq => ?_) ⟨?_, ?_, hsane.threads⟩ ?_⟩
  · simp [hmain, MainPc.phase, hq.symm]
  · dsimp only
    rw [if_pos hcreated, MainPc.phase, if_pos rfl]
    rfl
  · rw [MainPc.phase, if_pos rfl]
    exact hsane.holds
  · simp [MainPc.Sound, created, setNode]

theorem Sane.mainStep (h : s.Sane) (hs : s.mainStep stays = some (s', events)) :
    HostStep.Safe ⟨s, .main stays, events, s'⟩ ∧ s'.Sane := by
  cases hmain : s.main with
  | idle =>
      unfold Host.mainStep at hs
      rw [hmain] at hs
      cases hs
  | initFind port => exact h.initFind hmain hs
  | initEmplace port => exact h.initEmplace hmain hs
  | spawn port rest => exact h.spawn hmain hs
  | call port e pc => exact h.callStep hmain hs
  | stop port pc => exact h.stop hmain hs
  | join port k => exact h.join hmain hs
  | destroyFind port => exact h.destroyFind hmain hs
  | destroyDelete port => exact h.destroyDelete hmain hs
  | destroyErase port => exact h.destroyErase hmain hs
  | free port =>
      unfold Host.mainStep at hs
      rw [hmain] at hs
      cases hs
      exact h.free hmain

theorem Sane.thread {k : ℕ} (h : s.Sane)
    (hs : s.step (.thread port k stays) = some (s', events)) :
    HostStep.Safe ⟨s, .thread port k stays, events, s'⟩ ∧ s'.Sane := by
  unfold Host.step at hs
  dsimp only at hs
  cases hn : s.nodes port with
  | none =>
      rw [hn] at hs
      cases hs
  | some n =>
      rw [hn] at hs
      dsimp only at hs
      cases hk : n.threads[k]? with
      | none =>
          rw [hk] at hs
          cases hs
      | some th =>
          rw [hk] at hs
          obtain ⟨⟨table, th', evs⟩, hth, heq⟩ := Option.map_eq_some_iff.mp hs
          cases heq
          obtain ⟨rfl, hsane, hevents⟩ := (h.nodes port n hn).thread hk hth
          have hsame : (s.setNode port { n with threads := n.threads.set k th' }).created =
              s.created := created_setNode hn rfl
          refine ⟨safe_of_node _ hn rfl (fun ev hev => ?_) (.inl rfl),
            h.put (m := s.main) (fun _ _ => rfl) hsane (hsame.symm ▸ h.main)⟩
          obtain ⟨rfl, hlive⟩ := hevents ev hev
          exact .access _ hlive

/-! ## What the main thread begins while it is idle -/

theorem Sane.getInstance {created : Bool} (h : s.Sane)
    (hs : s.step (.getInstance port created) = some (s', events)) :
    HostStep.Safe ⟨s, .getInstance port created, events, s'⟩ ∧ s'.Sane := by
  unfold Host.step at hs
  dsimp only at hs
  split at hs
  · next hmain hn =>
    cases hs
    refine ⟨safe_of_new _ hn rfl, h.put (fun q hq => ?_) ?_ ?_⟩
    · rw [hmain]
      cases created <;> simp [MainPc.phase, hq.symm]
    · cases created with
      | true =>
          rw [if_pos rfl, MainPc.phase, if_pos rfl]
          exact ⟨rfl, rfl, nofun⟩
      | false => exact ⟨rfl, trivial, nofun⟩
    · cases created with
      | true => simp [MainPc.Sound, Host.created, setNode]
      | false => exact ⟨by simp [Host.created, setNode], by decide⟩
  · cases hs
    exact ⟨safe_of_main _ _, h⟩
  · cases hs

theorem Sane.call {e : Ecall} (h : s.Sane) (a : HostAction)
    (hs : s.call port e = some (s', events)) : HostStep.Safe ⟨s, a, events, s'⟩ ∧ s'.Sane := by
  unfold Host.call at hs
  split at hs
  · next n hmain hn =>
    cases hs
    refine ⟨safe_of_main _ _, h.goOn port (fun q _ => ?_) (fun k hk => ?_) ?_⟩
    · rw [hmain]
      cases n.created <;> rfl
    · have hsane := h.nodes port k hk
      rw [hmain] at hsane
      cases n.created <;> exact hsane
    · cases hcreated : n.created with
      | true => exact ⟨by simp [created, hn, hcreated], trivial⟩
      | false => trivial
  · cases hs

theorem Sane.launch {l : Launch} (h : s.Sane) (hs : s.step (.launch port l) = some (s', events)) :
    HostStep.Safe ⟨s, .launch port l, events, s'⟩ ∧ s'.Sane := by
  unfold Host.step at hs
  dsimp only at hs
  split at hs
  · next n hmain hn =>
    cases hs
    have hsane := h.nodes port n hn
    rw [hmain] at hsane
    refine ⟨safe_of_node _ hn rfl nofun (.inl rfl),
      h.put (m := s.main) (fun _ _ => rfl) ?_ ?_⟩
    · rw [hmain]
      refine ⟨hsane.table, trivial, fun u hu => ?_⟩
      rcases List.mem_append.mp hu with hu | hu
      · exact hsane.threads u hu
      · rw [List.mem_singleton.mp hu]
        exact l.thread_sound n.created
    · rw [hmain]
      trivial
  · cases hs

theorem Sane.destroyInstance (h : s.Sane)
    (hs : s.step (.destroyInstance port) = some (s', events)) :
    HostStep.Safe ⟨s, .destroyInstance port, events, s'⟩ ∧ s'.Sane := by
  unfold Host.step at hs
  dsimp only at hs
  split at hs
  · next n hmain hn =>
    cases hs
    have hsane := h.nodes port n hn
    rw [hmain] at hsane
    refine ⟨safe_of_node _ hn rfl nofun (.inl rfl), h.put (fun q hq => ?_) ?_ ?_⟩
    · rw [hmain]
      cases n.created <;> simp [MainPc.phase, hq.symm]
    · cases hcreated : n.created with
      | true =>
          rw [if_pos rfl]
          rw [MainPc.phase, if_pos rfl]
          exact ⟨by rw [hsane.table, hcreated]; rfl, rfl, hcreated ▸ hsane.threads⟩
      | false =>
          rw [if_neg Bool.false_ne_true, MainPc.phase, if_pos rfl]
          exact ⟨by rw [hsane.table, hcreated]; rfl, ⟨rfl, nofun⟩,
            hcreated ▸ hsane.threads⟩
    · cases hcreated : n.created with
      | true => exact ⟨by simp [created, setNode], trivial⟩
      | false => simp [MainPc.Sound, created, setNode]
  · cases hs
    exact ⟨safe_of_main _ _, h⟩
  · cases hs

theorem Sane.step {a : HostAction} (h : s.Sane) (hs : s.step a = some (s', events)) :
    HostStep.Safe ⟨s, a, events, s'⟩ ∧ s'.Sane := by
  cases a with
  | getInstance port created => exact h.getInstance hs
  | addSibling port => exact h.call _ hs
  | getTimestamp port => exact h.call _ hs
  | launch port l => exact h.launch hs
  | destroyInstance port => exact h.destroyInstance hs
  | main stays => exact h.mainStep hs
  | thread port k stays => exact h.thread hs

theorem sane_initial : initial.Sane := ⟨nofun, trivial⟩

end Host

-- ---------------------------------------------------------------------------
-- Runs
-- ---------------------------------------------------------------------------

section Lifecycle

variable {s : Host} {tr : List HostStep}

theorem HostRun.sane (h : HostRun .initial tr s) : s.Sane :=
  h.invariant (fun _ hs hsane => (hsane.step hs).2) Host.sane_initial

/-- However the threads and the main thread take turns, no step of them uses, deletes or leaves
    behind a node that it should not. -/
theorem lifecycle_safe (h : HostRun .initial tr s) : ∀ t ∈ tr, t.Safe := by
  intro t ht
  obtain ⟨before, after, rfl⟩ := List.append_of_mem ht
  obtain ⟨hbefore, hs, -⟩ := h.split_at
  exact ((HostRun.sane hbefore).step hs).1

end Lifecycle

namespace Scenario

/-- A thread makes its one call and ends. -/
def oneCall (port : UInt16) (k : ℕ) : List HostAction :=
  List.replicate 5 (.thread port k false)

/-- A node is made, with its four tasks. -/
def made (port : UInt16) : List HostAction :=
  .getInstance port true :: List.replicate 7 (.main false)

/-- A node is asked for the time while a task runs, and destroyed. -/
def wholeLife (port : UInt16) : List HostAction :=
  made port ++ [.thread port 3 false] ++
    .getTimestamp port :: List.replicate 3 (.main false) ++
    .destroyInstance port :: List.replicate 3 (.main false) ++
    oneCall port 0 ++ oneCall port 1 ++ oneCall port 2 ++ List.replicate 4 (.thread port 3 false) ++
    List.replicate 9 (.main false)

end Scenario

open Scenario in
/-- The theorem at a run in which the node is deleted and the `Node` is freed. -/
theorem lifecycle_safe_wholeLife :
    ∃ tr s, HostRun .initial tr s ∧ .delete 12345 (some 0) ∈ tr.flatMap Lts.Transition.events ∧
      s.nodes 12345 = none ∧ ∀ t ∈ tr, t.Safe := by
  obtain ⟨tr, s, hrun, hdeleted, hfreed⟩ := Lts.exists_run_of_exec Host.step .initial
    (wholeLife 12345)
    (fun tr s => .delete 12345 (some 0) ∈ tr.flatMap Lts.Transition.events ∧
      s.nodes 12345 = none) (by decide +kernel)
  exact ⟨tr, s, hrun, hdeleted, hfreed, lifecycle_safe hrun⟩

end TriHaRd
