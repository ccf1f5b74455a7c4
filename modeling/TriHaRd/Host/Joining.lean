-- SUMMARY: The application cannot get stuck: from wherever it is, the main thread can come back, through every join.
import TriHaRd.Base.Reach
import TriHaRd.Host.Lifecycle
import Mathlib.Algebra.GroupWithZero.Nat

/-!
# Joining

A `join` waits for a thread for as long as it runs. Every thread that a `Node` starts makes so many
calls and no more, or ends when it sees `stop`, which the destructor sets before it joins. If the
methods return, the steps that are left until the main thread is idle get fewer.
-/

namespace TriHaRd

-- ---------------------------------------------------------------------------
-- What is left to do
-- ---------------------------------------------------------------------------

/-- How many steps an entry point has left if its method returns at once. -/
def EcallPc.rest : EcallPc → ℕ
  | .find => 3
  | .subscript => 2
  | .method _ => 1

def ThreadPc.rest : ThreadPc → ℕ
  | .head => 1
  | .inside pc => pc.rest + 1
  | .ended => 0

/-- How many steps a thread has left once the `Node` has been asked to stop. -/
def HostThread.rest (th : HostThread) : ℕ :=
  -- a call that is still to be made leads back to the head in four steps
  4 * th.rounds.getD 0 + th.pc.rest

def HostNode.rest (n : HostNode) (k : ℕ) : ℕ :=
  n.threads.length - k + (n.threads.map HostThread.rest).sum

/-- How many steps there are until the main thread is idle, if `joins` says it for the threads that
    it joins. -/
def MainPc.rest (joins : UInt16 → ℕ → ℕ) : MainPc → ℕ
  | .idle => 0
  | .initFind _ => tasks.length + 3
  | .initEmplace _ => tasks.length + 2
  | .spawn _ rest => rest.length + 1
  | .call _ _ pc => pc.rest
  | .stop port pc => pc.rest + joins port 0 + 5
  | .join port k => joins port k + 5
  | .destroyFind _ => 4
  | .destroyDelete _ => 3
  | .destroyErase _ => 2
  | .free _ => 1

def Host.joins (s : Host) (port : UInt16) (k : ℕ) : ℕ := (s.nodes port).elim 0 fun n => n.rest k

def Host.rest (s : Host) : ℕ := s.main.rest s.joins

theorem EcallPc.rest_pos (pc : EcallPc) : 0 < pc.rest := by
  cases pc <;> simp [rest]

theorem Ecall.step_rest (e : Ecall) (port : UInt16) (t : NodeTable) (pc : EcallPc) :
    ∀ pc' ∈ (e.step port t false pc).2.1, pc'.rest < pc.rest := by
  intro pc' hpc'
  cases pc with
  | find =>
      simp only [step, Option.mem_ite_none_right, Option.mem_some] at hpc'
      simp [← hpc'.2, EcallPc.rest]
  | subscript =>
      cases hpc'
      simp [EcallPc.rest]
  | method node => cases hpc'

/-- A thread that has not ended can go on, and comes nearer to its end. -/
theorem HostThread.exists_step {th : HostThread} {n : HostNode} (port : UInt16)
    (hends : th.rounds ≠ none ∨ th.heedsStop = true) (hstop : n.stop = true)
    (hpc : th.pc ≠ .ended) :
    ∃ table th' events, th.step port n false = some (table, th', events) ∧ th'.rest < th.rest := by
  cases hth : th.pc with
  | head =>
      by_cases hlast : th.rounds = some 0 ∨ (th.heedsStop ∧ n.stop)
      · refine ⟨n.table, { th with pc := .ended }, [], ?_, ?_⟩
        · rw [step, hth]
          exact if_pos hlast
        · simp [rest, hth, ThreadPc.rest]
      · obtain ⟨r, hrounds⟩ : ∃ r, th.rounds = some (r + 1) := by
          cases hrounds : th.rounds with
          | none => exact absurd (.inr ⟨hends.resolve_left (· hrounds), hstop⟩) hlast
          | some r =>
              cases r with
              | zero => exact absurd (.inl hrounds) hlast
              | succ r => exact ⟨r, rfl⟩
        refine ⟨n.table, { th with
          rounds := some r, pc := if n.created then .inside .find else .head }, [], ?_, ?_⟩
        · rw [step, hth]
          dsimp only
          rw [if_neg hlast, hrounds]
          rfl
        · cases n.created with
          | true =>
              simp [rest, hth, hrounds, ThreadPc.rest, EcallPc.rest]
              omega
          | false => simp [rest, hth, hrounds, ThreadPc.rest]
  | inside pc =>
      refine ⟨_, _, _, step_inside hth port n false, ?_⟩
      have hless := th.ecall.step_rest port n.table pc
      cases hnext : (th.ecall.step port n.table false pc).2.1 with
      | none => simp [rest, hth, ThreadPc.rest, pc.rest_pos]
      | some pc' => simpa [rest, hth, hnext, ThreadPc.rest] using hless pc' hnext
  | ended => exact absurd hth hpc

theorem HostNode.rest_set {n n' : HostNode} {k j : ℕ} {th th' : HostThread}
    (hk : n.threads[k]? = some th) (hthreads : n'.threads = n.threads.set k th')
    (hless : th'.rest < th.rest) : n'.rest j < n.rest j := by
  obtain ⟨hlt, rfl⟩ := List.getElem?_eq_some_iff.mp hk
  have hsplit : n.threads.map HostThread.rest = (n.threads.take k).map HostThread.rest ++
      n.threads[k].rest :: (n.threads.drop (k + 1)).map HostThread.rest := by
    rw [← List.map_cons, ← List.map_append, List.getElem_cons_drop, List.take_append_drop]
  rw [rest, rest, hthreads, List.length_set, List.set_eq_take_append_cons_drop, if_pos hlt, hsplit]
  simp only [List.map_append, List.map_cons, List.sum_append, List.sum_cons]
  omega

namespace Host

variable {s : Host} {port : UInt16}

theorem exists_node (h : s.created port ≠ none) : ∃ n, s.nodes port = some n := by
  cases hn : s.nodes port with
  | none => exact absurd (by rw [created, hn]; rfl) h
  | some n => exact ⟨n, rfl⟩

theorem exists_node_of_true (h : s.created port = some true) : ∃ n, s.nodes port = some n :=
  exists_node (h ▸ Option.some_ne_none true)

theorem joins_setNode {n n' : HostNode} (hn : s.nodes port = some n)
    (hthreads : n'.threads = n.threads) : (s.setNode port n').joins = s.joins := by
  funext q k
  obtain rfl | hq := eq_or_ne q port
  · simp [joins, setNode, hn, HostNode.rest, hthreads]
  · simp [joins, setNode, Function.update_of_ne hq]

theorem exists_step_of_main {m : MainPc} {r : Host × List HostEvent} (hmain : s.main = m)
    (hs : mainStep { s with main := m } false = some r) (hless : r.1.rest < m.rest s.joins) :
    ∃ a s' events, s.step a = some (s', events) ∧ s'.rest < s.rest := by
  subst hmain
  exact ⟨.main false, r.1, r.2, hs, hless⟩

/-- A thread that is waited for can go on, and its calls are bounded or it heeds the stop. -/
theorem Sane.exists_step_of_join {k : ℕ} (h : s.Sane) (hmain : s.main = .join port k) :
    ∃ a s' events, s.step a = some (s', events) ∧ s'.rest < s.rest := by
  have hsound := h.main
  rw [hmain] at hsound
  obtain ⟨n, hn⟩ := exists_node hsound
  have hsane := h.nodes port n hn
  rw [hmain, MainPc.phase, if_pos rfl] at hsane
  have hstop : n.stop = true := hsane.holds.1
  have hjoins (j : ℕ) : s.joins port j = n.rest j := by
    rw [joins, hn]
    rfl
  cases hk : n.threads[k]? with
  | none =>
      refine exists_step_of_main hmain (r := ({ s with
        main := if n.created then .destroyFind port else .free port }, [])) ?_ ?_
      · dsimp only [Host.mainStep]
        rw [hn]
        dsimp only
        rw [hk]
      · rw [rest]
        cases n.created <;> simp [MainPc.rest]
  | some th =>
      have hmem : th ∈ n.threads := List.mem_of_getElem? hk
      by_cases hended : th.pc = .ended
      · refine exists_step_of_main hmain (r := ({ s with main := .join port (k + 1) }, [])) ?_ ?_
        · dsimp only [Host.mainStep]
          rw [hn]
          dsimp only
          rw [hk]
          exact if_pos hended
        · have hlt := (List.getElem?_eq_some_iff.mp hk).1
          change s.joins port (k + 1) + 5 < s.joins port k + 5
          rw [hjoins, hjoins, HostNode.rest, HostNode.rest]
          omega
      · obtain ⟨table, th', events, hth, hless⟩ :=
          HostThread.exists_step port (hsane.threads th hmem).ends hstop hended
        let n' : HostNode := { n with table := table, threads := n.threads.set k th' }
        have hjoins' : (s.setNode port n').joins port k = n'.rest k := by simp [joins, setNode]
        refine ⟨.thread port k false, s.setNode port n', events, ?_, ?_⟩
        · dsimp only [Host.step]
          rw [hn]
          dsimp only
          rw [hk]
          dsimp only
          rw [hth]
          rfl
        · have hmain' : (s.setNode port n').main = .join port k := hmain
          rw [rest, rest, hmain, hmain', MainPc.rest, MainPc.rest, hjoins, hjoins']
          exact Nat.add_lt_add_right (HostNode.rest_set hk rfl hless) 5

/-- As long as the main thread is busy, it or the thread that it waits for can go on. -/
theorem Sane.exists_step (h : s.Sane) (hbusy : s.main ≠ .idle) :
    ∃ a s' events, s.step a = some (s', events) ∧ s'.rest < s.rest := by
  have hsound := h.main
  cases hmain : s.main with
  | idle => exact absurd hmain hbusy
  | initFind port | destroyFind port =>
      rw [hmain] at hsound
      obtain ⟨n, hn⟩ := exists_node_of_true hsound
      refine exists_step_of_main hmain (congrArg (Option.map _) hn) ?_
      rw [rest]
      dsimp only
      split <;> simp [MainPc.rest]
  | initEmplace port | destroyDelete port | destroyErase port =>
      rw [hmain] at hsound
      obtain ⟨n, hn⟩ := exists_node_of_true hsound
      exact exists_step_of_main hmain (congrArg (Option.map _) hn) (Nat.lt_succ_self _)
  | spawn port rest =>
      rw [hmain] at hsound
      cases rest with
      | nil => exact exists_step_of_main hmain rfl Nat.zero_lt_one
      | cons th rest =>
          obtain ⟨n, hn⟩ := exists_node hsound.1
          exact exists_step_of_main hmain (congrArg (Option.map _) hn) (Nat.lt_succ_self _)
  | call port e pc =>
      rw [hmain] at hsound
      obtain ⟨n, hn⟩ := exists_node_of_true hsound.1
      refine exists_step_of_main hmain (congrArg (Option.map _) hn) ?_
      have hless := e.step_rest port n.table pc
      beta_reduce
      generalize e.step port n.table false pc = r at hless
      obtain ⟨table, next, events⟩ := r
      cases next with
      | none => exact pc.rest_pos
      | some pc' => exact hless pc' rfl
  | stop port pc =>
      rw [hmain] at hsound
      obtain ⟨n, hn⟩ := exists_node_of_true hsound.1
      refine exists_step_of_main hmain (congrArg (Option.map _) hn) ?_
      have hless := Ecall.stop.step_rest port n.table pc
      beta_reduce
      generalize Ecall.stop.step port n.table false pc = r at hless
      obtain ⟨table, next, events⟩ := r
      have hjoins : (s.setNode port { n with table := table }).joins = s.joins :=
        joins_setNode hn rfl
      cases next with
      | none =>
          change (s.setNode port { n with table := table }).joins port 0 + 5 <
            pc.rest + s.joins port 0 + 5
          rw [hjoins]
          have hpos := pc.rest_pos
          omega
      | some pc' =>
          change pc'.rest + (s.setNode port { n with table := table }).joins port 0 + 5 <
            pc.rest + s.joins port 0 + 5
          rw [hjoins]
          have hlt : pc'.rest < pc.rest := hless pc' rfl
          omega
  | join port k => exact h.exists_step_of_join hmain
  | free port => exact exists_step_of_main hmain rfl Nat.zero_lt_one

end Host

/-- From wherever the application is, the main thread can come back from what it has begun. -/
theorem lifecycle_returns {tr : List HostStep} {s : Host} (h : HostRun .initial tr s) :
    Lts.CanReach Host.step (fun u => u.main = .idle) s := by
  refine Lts.canReach_of_measure (I := Host.Sane) Host.rest (fun u hsane hbusy => ?_)
    (HostRun.sane h)
  obtain ⟨a, u', events, hs, hless⟩ := hsane.exists_step hbusy
  exact ⟨a, u', events, hs, (hsane.step hs).2, hless⟩

open Scenario in
/-- The theorem where the destructor waits for a thread that polls without end. -/
theorem lifecycle_returns_polling :
    ∃ tr s, HostRun .initial tr s ∧ s.main = .join 12345 0 ∧
      Lts.CanReach Host.step (fun u => u.main = .idle) s := by
  obtain ⟨tr, s, hrun, hjoins⟩ := Lts.exists_run_of_exec Host.step .initial
    (made 12345 ++ .launch 12345 (.pollTimestamp (-1)) :: .thread 12345 4 false ::
      .destroyInstance 12345 :: List.replicate 3 (.main false))
    (fun _ s => s.main = .join 12345 0) (by decide +kernel)
  exact ⟨tr, s, hrun, hjoins, lifecycle_returns hrun⟩

end TriHaRd
