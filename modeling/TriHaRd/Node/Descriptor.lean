-- SUMMARY: The descriptor that a node has in its member sock, over any sequence of calls and any answers of the system.
import TriHaRd.Node.Socket
import Mathlib.Logic.Function.Basic

/-!
# The descriptor of a node

The operations of the calls act on a table of the open descriptors of the
process. The node shares it with everything else that the process runs, which
may open and close descriptors between the calls, and is given the numbers that
the node has closed. Here the calls come one after the other, and the locks do
not matter.
-/

namespace TriHaRd

open Lts

/-- Who has opened a descriptor. -/
inductive Holder where
  /-- The node; `bound` is whether the descriptor is bound to its port. -/
  | node (bound : Bool)
  | other
deriving DecidableEq, Repr

/-- The member `sock`, the descriptors that are open, and those that the node has closed and has
    not been given again. -/
structure Descriptors where
  sock : ℤ
  table : ℤ → Option Holder
  closed : List ℤ

namespace Descriptors

/-- Before the constructor sets up the socket: `sock(-1)`, and nothing of the node is open. -/
def Initial (w : Descriptors) : Prop :=
  w.sock = -1 ∧ (∀ fd bound, w.table fd ≠ some (.node bound)) ∧ w.closed = []

/-- `sock` is negative, or an open descriptor of the node that is bound to its port. -/
def Valid (w : Descriptors) : Prop :=
  w.sock < 0 ∨ w.table w.sock = some (.node true)

instance (w : Descriptors) : Decidable w.Valid := inferInstanceAs (Decidable (_ ∨ _))

-- ---------------------------------------------------------------------------
-- Operations
-- ---------------------------------------------------------------------------

/-- `none` means that the system does not answer so: `socket` does not return a descriptor that is
    open. The event is a descriptor that the node has closed before. -/
def op (w : Descriptors) : SocketOp → Option (Descriptors × List ℤ)
  | .socket fd =>
    if fd < 0 then some ({ w with sock := fd }, [])
    else if (w.table fd).isSome then none
    else some ({
      sock := fd
      table := Function.update w.table fd (some (.node false))
      closed := w.closed.filter (· ≠ fd) }, [])
  | .bind status =>
    if 0 ≤ status ∧ w.table w.sock = some (.node false) then
      some ({ w with table := Function.update w.table w.sock (some (.node true)) }, [])
    else some (w, [])
  | .close =>
    if w.sock < 0 then some (w, [])
    else some ({ w with
      table := Function.update w.table w.sock none
      closed := w.sock :: w.closed }, if w.sock ∈ w.closed then [w.sock] else [])
  | .clear => some ({ w with sock := -1 }, [])
  | _ => some (w, [])

def perform (w : Descriptors) : List SocketOp → Option (Descriptors × List ℤ)
  | [] => some (w, [])
  | o :: ops =>
    match w.op o with
    | none => none
    | some (w', es) => (w'.perform ops).map fun (u, fs) => (u, es ++ fs)

end Descriptors

/-- An operation of the node, from its call to its return, or something that happens elsewhere in
    the process. -/
inductive DescriptorAction where
  /-- By the constructor. The error paths of the other calls make their own. -/
  | setupSocket (a : SetupAnswers)
  | sendMessage (rounds : List SendRound)
  | addSibling (node : ENode) (addr : Addr) (sendto : Answer)
  | recvIteration (a : RecvAnswers)
  /-- The end of `stop_tasks`. -/
  | stopTasks
  | openElsewhere (fd : ℤ)
  | closeElsewhere (fd : ℤ)
deriving DecidableEq, Repr

/-- The call of the node. -/
def DescriptorAction.call (sock : ℤ) : DescriptorAction → Call
  | .setupSocket a => TriHaRd.setupSocket a
  | .sendMessage rounds => sendMessageCall sock rounds
  | .addSibling node addr sendto => node.addSiblingCall addr sendto
  | .recvIteration a => TriHaRd.recvIteration sock { a with sock := sock }
  | .stopTasks => ⟨[.wrlock, .close, .clear, .unlock], some success⟩
  | .openElsewhere _ | .closeElsewhere _ => ⟨[], some success⟩

namespace Descriptors

/-- `none` means that the call does not return with these answers. -/
def step (w : Descriptors) : DescriptorAction → Option (Descriptors × List ℤ)
  | .openElsewhere fd =>
    if (w.table fd).isSome then none
    else some ({ w with table := Function.update w.table fd (some .other) }, [])
  | .closeElsewhere fd =>
    if w.table fd = some .other then some ({ w with table := Function.update w.table fd none }, [])
    else none
  | a =>
    let c := a.call w.sock
    if c.retval.isSome then w.perform c.ops else none

end Descriptors

abbrev DescriptorStep := Lts.Transition Descriptors DescriptorAction ℤ

abbrev DescriptorRun : Descriptors → List DescriptorStep → Descriptors → Prop :=
  Lts.Run Descriptors.step

/-- The step leaves `sock` valid, and closes nothing twice. -/
def DescriptorStep.Safe (t : DescriptorStep) : Prop :=
  t.post.Valid ∧ t.events = []

/-- The operations have a `bind` that fails. -/
def BindFails (ops : List SocketOp) : Prop :=
  ∃ status, status < 0 ∧ .bind status ∈ ops

/-- No `bind` of the call fails, and no `sendto` of `add_sibling` on a socket does. -/
def DescriptorStep.Unharmed (t : DescriptorStep) : Prop :=
  ¬ BindFails (t.act.call t.pre.sock).ops ∧
    ∀ node addr sendto, t.act = .addSibling node addr sendto →
      .sendto ∈ (t.act.call t.pre.sock).ops → sendto.isError = true → t.pre.sock < 0

-- ---------------------------------------------------------------------------
-- Sequences of operations
-- ---------------------------------------------------------------------------

theorem bindFails_append {ops ops' : List SocketOp} :
    BindFails (ops ++ ops') ↔ BindFails ops ∨ BindFails ops' := by
  simp only [BindFails, List.mem_append]
  grind

/-- The operation leaves the member and the descriptors as they are. -/
def SocketOp.isNeutral : SocketOp → Bool
  | .socket _ | .bind _ | .close | .clear => false
  | _ => true

theorem bindFails_neutral {idle : List SocketOp} (h : idle.all SocketOp.isNeutral)
    (ops : List SocketOp) : BindFails (idle ++ ops) ↔ BindFails ops := by
  have hidle : ¬ BindFails idle := by
    rintro ⟨status, _, hmem⟩
    cases List.all_eq_true.mp h _ hmem
  rw [bindFails_append, or_iff_right hidle]

@[simp] theorem not_bindFails_nil : ¬ BindFails [] := by
  simp [BindFails]

theorem bindFails_setupSocket (a : SetupAnswers) :
    BindFails (setupSocket a).ops ↔ 0 ≤ a.socket ∧ a.bind < 0 := by
  unfold setupSocket BindFails
  split_ifs with hsocket hbind
  · simp [hsocket]
  · simp [hbind, not_lt.mp hsocket]
  · simp [hbind]

namespace Descriptors

variable {w u : Descriptors} {es : List ℤ}

/-- What the node has closed is not open for the node. -/
def Sound (w : Descriptors) : Prop :=
  ∀ fd ∈ w.closed, ∀ bound, w.table fd ≠ some (.node bound)

/-- `sock` is a descriptor that the node has closed. -/
def Dangling (w : Descriptors) : Prop :=
  0 ≤ w.sock ∧ w.sock ∈ w.closed

instance (w : Descriptors) : Decidable w.Dangling := inferInstanceAs (Decidable (_ ∧ _))

theorem Dangling.not_valid (h : w.Dangling) (hsound : w.Sound) : ¬ w.Valid := by
  rintro (hsock | hbound)
  · exact absurd hsock (not_lt.mpr h.1)
  · exact hsound w.sock h.2 true hbound

theorem perform_cons {o : SocketOp} {ops : List SocketOp} :
    w.perform (o :: ops) = some (u, es) ↔
      ∃ m es₁ es₂, w.op o = some (m, es₁) ∧ m.perform ops = some (u, es₂) ∧ es = es₁ ++ es₂ := by
  rw [perform]
  cases hop : w.op o with
  | none => simp
  | some r =>
      obtain ⟨m, es₁⟩ := r
      dsimp only
      rw [Option.map_eq_some_iff]
      constructor
      · rintro ⟨⟨u', es₂⟩, hrest, heq⟩
        cases heq
        exact ⟨m, es₁, es₂, rfl, hrest, rfl⟩
      · rintro ⟨_, _, es₂, ⟨rfl, rfl⟩, hrest, rfl⟩
        exact ⟨(u, es₂), hrest, rfl⟩

theorem perform_append {ops ops' : List SocketOp} :
    w.perform (ops ++ ops') = some (u, es) ↔
      ∃ m es₁ es₂, w.perform ops = some (m, es₁) ∧ m.perform ops' = some (u, es₂) ∧
        es = es₁ ++ es₂ := by
  induction ops generalizing w es with
  | nil => simp [perform]
  | cons o ops ih =>
      simp only [List.cons_append, perform_cons, ih]
      constructor
      · rintro ⟨m, es₁, _, hop, ⟨m', es₂, es₃, hops, hops', rfl⟩, rfl⟩
        exact ⟨m', es₁ ++ es₂, es₃, ⟨m, es₁, es₂, hop, hops, rfl⟩, hops', by simp⟩
      · rintro ⟨m', _, es₃, ⟨m, es₁, es₂, hop, hops, rfl⟩, hops', rfl⟩
        exact ⟨m, es₁, es₂ ++ es₃, hop, ⟨m', es₂, es₃, hops, hops', rfl⟩, by simp⟩

theorem perform_neutral {idle : List SocketOp} (h : idle.all SocketOp.isNeutral)
    (w : Descriptors) (ops : List SocketOp) : w.perform (idle ++ ops) = w.perform ops := by
  induction idle with
  | nil => rfl
  | cons o idle ih =>
      obtain ⟨ho, hidle⟩ := Bool.and_eq_true_iff.mp h
      have hop : w.op o = some (w, []) := by cases o <;> first | rfl | cases ho
      rw [List.cons_append, perform, hop]
      simp [ih hidle]

theorem op_sound {o : SocketOp} (h : w.op o = some (u, es)) (hsound : w.Sound) : u.Sound := by
  cases o with
  | socket fd =>
      simp only [op] at h
      split_ifs at h <;> cases h
      · exact hsound
      · intro d hd bound
        obtain ⟨hclosed, hne⟩ := List.mem_filter.mp hd
        dsimp only
        rw [Function.update_of_ne (by simpa using hne)]
        exact hsound d hclosed bound
  | bind status =>
      simp only [op] at h
      split_ifs at h with hbind <;> cases h
      · intro d hd bound
        have hne : d ≠ w.sock := by
          rintro rfl
          exact hsound _ hd false hbind.2
        dsimp only
        rw [Function.update_of_ne hne]
        exact hsound d hd bound
      · exact hsound
  | close =>
      simp only [op] at h
      split_ifs at h with hsock <;> cases h
      · exact hsound
      all_goals
        intro d hd bound
        dsimp only
        by_cases hne : d = w.sock
        · rw [hne, Function.update_self]
          simp
        · rw [Function.update_of_ne hne]
          exact hsound d ((List.mem_cons.mp hd).resolve_left hne) bound
  | clear => cases h; exact hsound
  | _ => cases h; exact hsound

theorem perform_sound {ops : List SocketOp} (h : w.perform ops = some (u, es)) (hsound : w.Sound) :
    u.Sound := by
  induction ops generalizing w es with
  | nil => cases h; exact hsound
  | cons o ops ih =>
      obtain ⟨m, es₁, es₂, hop, hrest, _⟩ := perform_cons.mp h
      exact ih hrest (op_sound hop hsound)

/-! ## The calls -/

/-- The calls are safe unless a `bind` fails. Then they leave a dangling descriptor, or have closed
    one twice. -/
structure BindDecides (ops : List SocketOp) (u : Descriptors) (es : List ℤ) : Prop where
  harmed : BindFails ops → u.Dangling ∨ es ≠ []
  safe : ¬ BindFails ops → u.Valid ∧ es = []

theorem BindDecides.iff {ops : List SocketOp} (h : BindDecides ops u es) (hsound : u.Sound) :
    u.Valid ∧ es = [] ↔ ¬ BindFails ops := by
  refine ⟨?_, h.safe⟩
  rintro ⟨hvalid, hnone⟩ hfails
  rcases h.harmed hfails with hdangling | hagain
  · exact hdangling.not_valid hsound hvalid
  · exact hagain hnone

/-- Operations that leave everything as it is. -/
theorem BindDecides.refl (hvalid : w.Valid) {ops : List SocketOp} (hops : ¬ BindFails ops) :
    BindDecides ops w [] :=
  ⟨fun h => absurd h hops, fun _ => ⟨hvalid, rfl⟩⟩

/-- A `setup_socket` closes nothing twice. If its `bind` fails it leaves in `sock` the descriptor
    that it has closed. -/
theorem setupSocket_spec {a : SetupAnswers} (h : w.perform (setupSocket a).ops = some (u, es)) :
    es = [] ∧ (BindFails (setupSocket a).ops → u.Dangling) ∧
      (¬ BindFails (setupSocket a).ops → u.Valid) := by
  rw [bindFails_setupSocket]
  unfold setupSocket at h
  by_cases hsocket : a.socket < 0
  · simp only [hsocket, if_true, perform, op, Option.map_some, Option.some.injEq,
      Prod.mk.injEq] at h
    obtain ⟨rfl, rfl⟩ := h
    exact ⟨rfl, fun hb => absurd hsocket (not_lt.mpr hb.1), fun _ => .inl hsocket⟩
  have hfree : w.table a.socket = none := by
    by_contra hopen
    rw [if_neg hsocket] at h
    split_ifs at h <;> simp [hsocket, perform, op, Option.isSome_iff_ne_none.mpr hopen] at h
  by_cases hbind : a.bind < 0
  · simp [hsocket, hbind, not_le.mpr hbind, perform, op, hfree] at h
    obtain ⟨rfl, rfl⟩ := h
    exact ⟨rfl, fun _ => ⟨not_lt.mp hsocket, List.mem_cons_self⟩,
      fun hb => absurd ⟨not_lt.mp hsocket, hbind⟩ hb⟩
  · simp [hsocket, hbind, not_lt.mp hbind, perform, op, hfree] at h
    obtain ⟨rfl, rfl⟩ := h
    exact ⟨rfl, fun hb => absurd hb.2 hbind, fun _ => .inr (by simp)⟩

/-- The error paths close the socket and forget it. -/
theorem perform_close {ops : List SocketOp}
    (h : w.perform (.close :: .clear :: ops) = some (u, es)) :
    ∃ es', es = (if w.Dangling then [w.sock] else []) ++ es' ∧
      ∃ m : Descriptors, m.sock = -1 ∧ m.perform ops = some (u, es') := by
  obtain ⟨m, es₁, _, hclose, hclear, rfl⟩ := perform_cons.mp h
  obtain ⟨m', _, es₂, hop, hrest, rfl⟩ := perform_cons.mp hclear
  cases hop
  refine ⟨es₂, ?_, _, rfl, hrest⟩
  have hagain : es₁ = if w.Dangling then [w.sock] else [] := by
    simp only [op] at hclose
    split_ifs at hclose with hsock hclosed <;> cases hclose
    · rw [if_neg fun hd => absurd hsock (not_lt.mpr hd.1)]
    · rw [if_pos ⟨not_lt.mp hsock, hclosed⟩]
    · rw [if_neg fun hd => hclosed hd.2]
  rw [hagain]
  rfl

/-- Then they set up another. -/
theorem recreate_spec {a : SetupAnswers} {idle : List SocketOp}
    (hidle : idle.all SocketOp.isNeutral)
    (h : w.perform (.close :: .clear :: idle ++ (setupSocket a).ops) = some (u, es)) :
    es = (if w.Dangling then [w.sock] else []) ∧ (BindFails (setupSocket a).ops → u.Dangling) ∧
      (¬ BindFails (setupSocket a).ops → u.Valid) := by
  obtain ⟨es', rfl, m, _, hsetup⟩ := perform_close h
  obtain ⟨rfl, hspec⟩ := setupSocket_spec (perform_neutral hidle m _ ▸ hsetup)
  exact ⟨List.append_nil _, hspec⟩

/-- A round that has the socket set up again. -/
theorem round_of_fatal {r : SendRound} (hfatal : r.sendto.isFatal = true)
    (h : w.perform (.sendto :: r.ops) = some (u, es)) :
    es = (if w.Dangling then [w.sock] else []) ∧ (BindFails r.ops → u.Dangling) ∧
      (¬ BindFails r.ops → u.Valid) := by
  rw [SendRound.ops, if_pos hfatal] at h ⊢
  have hbinds : BindFails ([.unlock, .load, .wrlock, .close, .clear, .unlock] ++
      (setupSocket r.setup).ops) ↔ BindFails (setupSocket r.setup).ops := by
    simp [BindFails]
  have hround : w.perform ([.sendto, .unlock, .load, .wrlock] ++
      (.close :: .clear :: [.unlock] ++ (setupSocket r.setup).ops)) = some (u, es) := h
  rw [perform_neutral (by decide)] at hround
  have hspec := recreate_spec (by decide) hround
  rwa [← hbinds] at hspec

/-- Any other round. -/
theorem round_of_not_fatal {r : SendRound} (hfatal : ¬ r.sendto.isFatal = true)
    (h : w.perform (.sendto :: r.ops) = some (u, es)) :
    es = [] ∧ ¬ BindFails r.ops ∧ u = w := by
  rw [SendRound.ops, if_neg hfatal] at h ⊢
  rw [← List.append_nil (_ :: _), perform_neutral (by decide)] at h
  cases h
  exact ⟨rfl, by simp [BindFails], rfl⟩

/-- The loop of `sendMessage` leads from a dangling descriptor to a dangling one, or closes it
    again. -/
theorem sendLoop_dangling {rounds : List SendRound} (hdangling : w.Dangling)
    (hreturns : (sendLoop rounds).retval.isSome)
    (h : w.perform (sendLoop rounds).ops = some (u, es)) : u.Dangling ∨ es ≠ [] := by
  induction rounds generalizing w es with
  | nil => cases hreturns
  | cons r rounds ih =>
      simp only [sendLoop, Call.after] at h hreturns
      obtain ⟨m, es₁, es₂, hround, hrest, rfl⟩ := perform_append.mp h
      by_cases hfatal : r.sendto.isFatal = true
      · rw [(round_of_fatal hfatal hround).1, if_pos hdangling]
        exact .inr (by simp)
      · obtain ⟨rfl, _, rfl⟩ := round_of_not_fatal hfatal hround
        split_ifs at hrest hreturns
        · exact ih hdangling hreturns hrest
        · cases hrest
          exact .inl hdangling

/-- From a valid descriptor it leads to a valid one, unless a `bind` fails. -/
theorem sendLoop_spec {rounds : List SendRound} (hsound : w.Sound) (hvalid : w.Valid)
    (hreturns : (sendLoop rounds).retval.isSome)
    (h : w.perform (sendLoop rounds).ops = some (u, es)) :
    BindDecides (sendLoop rounds).ops u es := by
  induction rounds generalizing w es with
  | nil => cases hreturns
  | cons r rounds ih =>
      simp only [sendLoop, Call.after] at h hreturns ⊢
      obtain ⟨m, es₁, es₂, hround, hrest, rfl⟩ := perform_append.mp h
      have hm : m.Sound := perform_sound hround hsound
      have hclean : es₁ = [] ∧ (BindFails r.ops → m.Dangling) ∧ (¬ BindFails r.ops → m.Valid) := by
        by_cases hfatal : r.sendto.isFatal = true
        · obtain ⟨hes, hspec⟩ := round_of_fatal hfatal hround
          rw [if_neg fun hd => hd.not_valid hsound hvalid] at hes
          exact ⟨hes, hspec⟩
        · obtain ⟨hes, hbinds, rfl⟩ := round_of_not_fatal hfatal hround
          exact ⟨hes, fun hb => absurd hb hbinds, fun _ => hvalid⟩
      obtain ⟨rfl, hdangling, hbound⟩ := hclean
      have hbinds (ops : List SocketOp) :
          BindFails ((.sendto :: r.ops) ++ ops) ↔ BindFails r.ops ∨ BindFails ops :=
        bindFails_append.trans (or_congr_left
          (bindFails_neutral (by decide : [SocketOp.sendto].all SocketOp.isNeutral) r.ops))
      rw [List.nil_append]
      by_cases hfails : BindFails r.ops
      · refine ⟨fun _ => ?_, fun hnot => absurd ((hbinds _).mpr (.inl hfails)) hnot⟩
        split_ifs at hrest hreturns
        · exact sendLoop_dangling (hdangling hfails) hreturns hrest
        · cases hrest
          exact .inl (hdangling hfails)
      · split_ifs at hrest hreturns ⊢
        · obtain ⟨hharmed, hsafe⟩ := ih hm (hbound hfails) hreturns hrest
          exact ⟨fun hb => hharmed (((hbinds _).mp hb).resolve_left hfails),
            fun hb => hsafe fun hrest => hb ((hbinds _).mpr (.inr hrest))⟩
        · cases hrest
          apply BindDecides.refl (hbound hfails)
          intro hb
          exact ((hbinds _).mp hb).elim hfails not_bindFails_nil

/-- Neutral operations before. -/
theorem BindDecides.after {idle ops : List SocketOp} (hidle : idle.all SocketOp.isNeutral)
    (h : BindDecides ops u es) : BindDecides (idle ++ ops) u es := by
  obtain ⟨hharmed, hsafe⟩ := h
  rw [← bindFails_neutral hidle] at hharmed hsafe
  exact ⟨hharmed, hsafe⟩

theorem sendMessage_spec {rounds : List SendRound} (hsound : w.Sound) (hvalid : w.Valid)
    (hreturns : (sendMessageCall w.sock rounds).retval.isSome)
    (h : w.perform (sendMessageCall w.sock rounds).ops = some (u, es)) :
    BindDecides (sendMessageCall w.sock rounds).ops u es := by
  unfold sendMessageCall at h hreturns ⊢
  split_ifs at h hreturns ⊢
  · cases h
    exact .refl hvalid (by simp [BindFails])
  · rw [Call.after, perform_neutral (by decide)] at h
    exact (sendLoop_spec hsound hvalid hreturns h).after (by decide)

/-! ## The steps -/

theorem stopTasks_spec (hsound : w.Sound) (hvalid : w.Valid)
    (h : w.perform [.wrlock, .close, .clear, .unlock] = some (u, es)) : u.Valid ∧ es = [] := by
  have hclose : w.perform ([.wrlock] ++ [.close, .clear, .unlock]) = some (u, es) := h
  rw [perform_neutral (by decide)] at hclose
  obtain ⟨es', rfl, m, hsock, hrest⟩ := perform_close hclose
  cases hrest
  rw [if_neg fun hd => hd.not_valid hsound hvalid]
  exact ⟨.inl (by rw [hsock]; decide), rfl⟩

/-- `add_sibling` leaves its socket closed if its `sendto` fails. -/
theorem addSibling_spec {node : ENode} {addr : Addr} {sendto : Answer} (hsound : w.Sound)
    (hvalid : w.Valid) (h : w.perform (node.addSiblingCall addr sendto).ops = some (u, es)) :
    u.Valid ∧ es = [] ↔ ¬ BindFails (node.addSiblingCall addr sendto).ops ∧
      (.sendto ∈ (node.addSiblingCall addr sendto).ops → sendto.isError = true → w.sock < 0) := by
  unfold ENode.addSiblingCall at h ⊢
  split_ifs at h ⊢ with hself hknown herror
  · cases h
    simp [hvalid]
  · cases h
    simp [hvalid]
  · have hclose : w.perform ([.sendto, .wrlock] ++ [.close, .unlock]) = some (u, es) := h
    rw [perform_neutral (by decide)] at hclose
    obtain ⟨m, es₁, es₂, hop, hunlock, rfl⟩ := perform_cons.mp hclose
    cases hunlock
    by_cases hsock : w.sock < 0
    · simp only [op, if_pos hsock] at hop
      cases hop
      simp [hvalid, hsock, BindFails]
    · have hdangling : u.Dangling ∧ u.Sound := by
        refine ⟨?_, op_sound hop hsound⟩
        simp only [op, if_neg hsock] at hop
        cases hop
        exact ⟨not_lt.mp hsock, List.mem_cons_self⟩
      apply iff_of_false
      · intro hsafe
        exact hdangling.1.not_valid hdangling.2 hsafe.1
      · intro hb
        exact hsock (hb.2 (by simp) herror)
  · cases h
    simp [hvalid, herror, BindFails]

theorem recvIteration_spec {a : RecvAnswers} (hsound : w.Sound) (hvalid : w.Valid)
    (hsame : a.sock = w.sock) (hreturns : (recvIteration w.sock a).retval.isSome)
    (h : w.perform (recvIteration w.sock a).ops = some (u, es)) :
    BindDecides (recvIteration w.sock a).ops u es := by
  unfold recvIteration at h hreturns ⊢
  by_cases hsock : w.sock < 0
  · rw [if_pos hsock] at h ⊢
    cases h
    exact .refl hvalid (by simp [BindFails])
  rw [if_neg hsock] at h hreturns ⊢
  rw [Call.after, perform_neutral (by decide)] at h
  refine .after (by decide) ?_
  split_ifs at h hreturns ⊢ with herror hfatal hstatus
  · have hrecreate : w.perform (.close :: .clear :: [] ++ (setupSocket a.setup).ops) =
        some (u, es) := h
    have hbinds : BindFails ([.close, .clear] ++ (setupSocket a.setup).ops) ↔
        BindFails (setupSocket a.setup).ops := by
      simp [BindFails]
    obtain ⟨hes, hharmed, hbound⟩ := recreate_spec rfl hrecreate
    rw [if_neg fun hd => hd.not_valid hsound hvalid] at hes
    exact ⟨fun hb => .inl (hharmed (hbinds.mp hb)),
      fun hb => ⟨hbound fun hsetup => hb (hbinds.mpr hsetup), hes⟩⟩
  · cases h
    exact .refl hvalid not_bindFails_nil
  · unfold ENode.handleMessageCall at h hreturns ⊢
    split_ifs at h hreturns ⊢
    · rw [hsame] at h hreturns ⊢
      exact sendMessage_spec hsound hvalid hreturns h
    · cases h
      exact .refl hvalid not_bindFails_nil
  · cases h
    exact .refl hvalid not_bindFails_nil

/-- What happens elsewhere in the process leaves the node's descriptor as it is. -/
theorem elsewhere_spec {a : DescriptorAction}
    (ha : ∃ fd, a = .openElsewhere fd ∨ a = .closeElsewhere fd) (h : w.step a = some (u, es)) :
    es = [] ∧ (w.Valid → u.Valid) ∧ (w.Sound → u.Sound) := by
  obtain ⟨fd, ha⟩ := ha
  have hkeep : u.sock = w.sock ∧ u.closed = w.closed ∧ es = [] ∧
      (∀ d bound, u.table d = some (.node bound) ↔ w.table d = some (.node bound)) := by
    rcases ha with rfl | rfl
    · simp only [step] at h
      split_ifs at h with hopen
      cases h
      refine ⟨rfl, rfl, rfl, ?_⟩
      intro d bound
      dsimp only
      by_cases hd : d = fd
      · have hnone : w.table fd = none := by simpa using hopen
        rw [hd, Function.update_self, hnone]
        simp
      · rw [Function.update_of_ne hd]
    · simp only [step] at h
      split_ifs at h with hother
      cases h
      refine ⟨rfl, rfl, rfl, ?_⟩
      intro d bound
      dsimp only
      by_cases hd : d = fd
      · rw [hd, Function.update_self, hother]
        simp
      · rw [Function.update_of_ne hd]
  obtain ⟨hsock, hclosed, hes, htable⟩ := hkeep
  refine ⟨hes, ?_, ?_⟩
  · intro hvalid
    unfold Valid
    rwa [hsock, htable]
  · intro hsound d hd bound
    rw [ne_eq, htable]
    exact hsound d (hclosed ▸ hd) bound

theorem step_sound {t : DescriptorStep} (hs : t.IsStep step) (hsound : t.pre.Sound) :
    t.post.Sound := by
  unfold Lts.Transition.IsStep at hs
  cases hact : t.act with
  | openElsewhere fd =>
      rw [hact] at hs
      exact (elsewhere_spec ⟨fd, .inl rfl⟩ hs).2.2 hsound
  | closeElsewhere fd =>
      rw [hact] at hs
      exact (elsewhere_spec ⟨fd, .inr rfl⟩ hs).2.2 hsound
  | _ =>
      rw [hact] at hs
      simp only [step] at hs
      split_ifs at hs
      exact perform_sound hs hsound

/-- A step other than `add_sibling` is safe unless a `bind` fails. -/
theorem step_decides {a : DescriptorAction} (hsound : w.Sound) (hvalid : w.Valid)
    (ha : ∀ node addr sendto, a ≠ .addSibling node addr sendto) (h : w.step a = some (u, es)) :
    BindDecides (a.call w.sock).ops u es := by
  cases a with
  | addSibling node addr sendto => exact absurd rfl (ha node addr sendto)
  | setupSocket a =>
      obtain ⟨_, hperform⟩ := Option.ite_none_right_eq_some.mp h
      obtain ⟨hes, hharmed, hbound⟩ := setupSocket_spec hperform
      exact ⟨fun hb => .inl (hharmed hb), fun hb => ⟨hbound hb, hes⟩⟩
  | sendMessage rounds =>
      obtain ⟨hreturns, hperform⟩ := Option.ite_none_right_eq_some.mp h
      exact sendMessage_spec hsound hvalid hreturns hperform
  | recvIteration a =>
      obtain ⟨hreturns, hperform⟩ := Option.ite_none_right_eq_some.mp h
      exact recvIteration_spec hsound hvalid rfl hreturns hperform
  | stopTasks =>
      have hperform : w.perform [.wrlock, .close, .clear, .unlock] = some (u, es) := h
      exact ⟨fun hb => by simp [BindFails, DescriptorAction.call] at hb,
        fun _ => stopTasks_spec hsound hvalid hperform⟩
  | openElsewhere fd =>
      obtain ⟨hes, hkeep, _⟩ := elsewhere_spec ⟨fd, .inl rfl⟩ h
      exact ⟨fun hb => absurd hb not_bindFails_nil, fun _ => ⟨hkeep hvalid, hes⟩⟩
  | closeElsewhere fd =>
      obtain ⟨hes, hkeep, _⟩ := elsewhere_spec ⟨fd, .inr rfl⟩ h
      exact ⟨fun hb => absurd hb not_bindFails_nil, fun _ => ⟨hkeep hvalid, hes⟩⟩

/-- From a valid descriptor, a step is safe exactly when it is unharmed. -/
theorem safe_iff_unharmed {t : DescriptorStep} (hs : t.IsStep step) (hsound : t.pre.Sound)
    (hvalid : t.pre.Valid) : t.Safe ↔ t.Unharmed := by
  have hpost := step_sound hs hsound
  by_cases ha : ∀ node addr sendto, t.act ≠ .addSibling node addr sendto
  · refine ((step_decides hsound hvalid ha hs).iff hpost).trans (iff_of_eq ?_)
    simp [DescriptorStep.Unharmed, ha]
  · push Not at ha
    obtain ⟨node, addr, sendto, hact⟩ := ha
    rw [Lts.Transition.IsStep, hact] at hs
    obtain ⟨_, hperform⟩ := Option.ite_none_right_eq_some.mp hs
    rw [DescriptorStep.Unharmed, hact]
    refine (addSibling_spec hsound hvalid hperform).trans (and_congr_right fun _ => ?_)
    constructor
    · rintro h _ _ _ ⟨⟩
      exact h
    · exact fun h => h node addr sendto rfl

theorem Initial.sound (h : w.Initial) : w.Sound := by
  intro fd hfd
  rw [h.2.2] at hfd
  cases hfd

theorem Initial.valid (h : w.Initial) : w.Valid := .inl (by rw [h.1]; decide)

end Descriptors

open Descriptors

/-- In every run of calls of a node, from before its constructor on, with any answers of the
    system: `sock` is valid in every state between them, and no call closes a descriptor that the
    node has already closed, exactly when no `bind` fails and no `add_sibling` fails to send on a
    socket. -/
theorem descriptors_safe_iff {w₀ w : Descriptors} {tr : List DescriptorStep}
    (hinit : w₀.Initial) (hrun : DescriptorRun w₀ tr w) :
    (∀ t ∈ tr, t.Safe) ↔ ∀ t ∈ tr, t.Unharmed := by
  rw [← EachStep.iff_forall_mem, ← EachStep.iff_forall_mem]
  apply hrun.eachStep_iff (I := fun _ w => w.Sound ∧ w.Valid) ⟨hinit.sound, hinit.valid⟩
  · intro _ t hs hinv
    exact safe_iff_unharmed hs hinv.1 hinv.2
  · intro _ t hs hinv hsafe
    exact ⟨step_sound hs hinv.1, hsafe.1⟩

namespace Scenario

/-- Nothing is open. -/
def nothingOpen : Descriptors := ⟨-1, fun _ => none, []⟩

theorem initial_nothingOpen : nothingOpen.Initial :=
  ⟨rfl, fun _ _ => nofun, rfl⟩

/-- `socket` returns `fd`, which is then bound. -/
def bound (fd : ℤ) : SetupAnswers := ⟨fd, 0, 0⟩

/-- The constructor, a send that is tried again and then breaks the socket, and the end of
    `stop_tasks`. Something else is given the number that the node has closed. -/
def brokenSend : List DescriptorAction :=
  [.setupSocket (bound 3),
    .sendMessage [⟨⟨-1, eagain⟩, bound 4, false⟩, ⟨⟨-1, 32⟩, bound 4, false⟩],
    .openElsewhere 3, .stopTasks]

end Scenario

instance (t : DescriptorStep) : Decidable t.Safe := inferInstanceAs (Decidable (_ ∧ _))

open Scenario in
/-- The theorem at a run that sets up the socket again. -/
theorem descriptors_safe_iff_brokenSend :
    ∃ tr w, DescriptorRun nothingOpen tr w ∧ tr.map Lts.Transition.act = brokenSend ∧
      (∀ t ∈ tr, t.Safe) ∧ ∀ t ∈ tr, t.Unharmed := by
  obtain ⟨tr, w, hrun, hw⟩ := exists_run_of_exec Descriptors.step nothingOpen brokenSend
    (fun tr _ => tr.map Lts.Transition.act = brokenSend ∧ ∀ t ∈ tr, DescriptorStep.Safe t)
    (by decide +kernel)
  obtain ⟨hacts, hsafe⟩ := hw
  exact ⟨tr, w, hrun, hacts, hsafe, (descriptors_safe_iff initial_nothingOpen hrun).mp hsafe⟩

open Scenario in
/-- An `add_sibling` that fails to send closes the socket, and `stop_tasks` closes it again. -/
theorem closes_twice :
    ¬ ∀ (w₀ w : Descriptors) (tr : List DescriptorStep), w₀.Initial → DescriptorRun w₀ tr w →
        ∀ t ∈ tr, t.Safe := by
  intro h
  obtain ⟨tr, w, hrun, hw⟩ := exists_run_of_exec Descriptors.step nothingOpen
    [.setupSocket (bound 3), .addSibling boot.node peerB ⟨-1, 101⟩, .stopTasks]
    (fun tr _ => ¬ ∀ t ∈ tr, DescriptorStep.Safe t) (by decide +kernel)
  exact hw (h _ _ _ initial_nothingOpen hrun)

end TriHaRd
