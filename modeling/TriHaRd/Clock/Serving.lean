-- SUMMARY: When the timestamps that clients receive come from a node that is fit to serve them.
import TriHaRd.Clock.Gate

/-!
# Serving

The wait loop of `get_timestamp` tests one flag after the other, and then the TSC.
Nothing keeps a flag from changing between its test and the return: an AEX sets
`tainted`, and its own store to `tsc` then lets the client go. The loop also ends
when `stop` is requested. The clock is then read as well, and the call reports
`SUCCESS`.
-/

namespace TriHaRd

open Lts SharedMemory

/-- The node is calibrated, trusts its clock, and is not tainted. -/
structure Trustworthy (s : ENode) : Prop where
  calibCount : s.calibCount = true
  clockState : s.clockState = .taConsistent
  tainted : s.tainted = false

theorem trustworthy_of_good {s : ENode} (h : ∀ f : Flag, f.good s = true) : Trustworthy s where
  calibCount := h .calibCount
  clockState := by
    have hclock : (s.clockState != .taInconsistent) = true := h .clockState
    cases hs : s.clockState with
    | taConsistent => rfl
    | taInconsistent => simp [hs] at hclock
  tainted := by simpa [Flag.good] using h .tainted

/-- If the step returns a timestamp to a client, the node is fit to serve it. -/
def ServesTrustworthy (t : Access) : Prop :=
  servedIn t.events ≠ [] → Trustworthy t.pre.mem.toENode

/-- The store gives the flag the value that keeps clients out. -/
def Store.spoils : Store → Flag → Bool
  | .calibCount b, .calibCount => !b
  | .clockState x, .clockState => x == .taInconsistent
  | .tainted b, .tainted => b
  | _, _ => false

theorem Store.good_exec {op : Store} {f : Flag} {s : Memory} (h : f.good s.toENode = true)
    (hop : op.spoils f = false) : f.good (op.exec s).1.toENode = true := by
  cases op <;> cases f <;> first | exact h | simpa [Store.exec, Flag.good, spoils] using hop

/-- No client finds `stop` set that a flag holds back, and no flag is spoilt between its test by a
    client and the client's return. -/
structure Unspoilt (b : Build) (t : Access) : Prop where
  held : ∀ op, t.access? (node b) = some (.stopTest true, op) → t.pre.mem.stop = false
  flags : ∀ place op, t.access? (node b) = some (place, some op) → ∀ f, op.spoils f = true →
    ∀ p, StandsBy t p → p.found f = false

/-- A client counts on the flags that it has found good. -/
def servingTerms : Terms where
  relied f s := f.good s.toENode = true
  judged := False
  unheld := True
  apart := False
  relied_read f s _ _ h := by cases f <;> exact h

theorem AllKeep.serving_step {b : Build} {t : Access} (hs : t.IsStep (node b).step)
    (hunspoilt : Unspoilt b t) (h : AllKeep b servingTerms t.pre) :
    AllKeep b servingTerms t.post ∧ ServesTrustworthy t := by
  obtain ⟨place, op, haccess, hmem, hevents⟩ := access_cases hs
  have hknows : Knows servingTerms place t.pre.mem := by
    refine ⟨fun f hgood => hgood, ?_, fun h => h.elim⟩
    rintro _ rfl
    exact hunspoilt.held op haccess
  obtain ⟨hkeeps, hkept⟩ := h.step hs haccess hmem hknows
  refine ⟨hkept ⟨fun p hp f hfound hgood => ?_, fun h => h.elim, fun h => h.elim, fun h => h.elim⟩,
    fun hserved => ?_⟩
  · rw [hmem]
    cases op with
    | none => exact hgood
    | some op =>
        refine Store.good_exec hgood ?_
        by_contra hspoils
        have hfound' := hunspoilt.flags place op haccess f (by simpa using hspoils) p hp
        rw [hfound'] at hfound
        cases hfound
  · obtain ⟨ts, hts⟩ := List.exists_mem_of_ne_nil _ hserved
    rw [mem_servedIn, hevents] at hts
    cases op with
    | none => cases hts
    | some op =>
        obtain rfl := (Store.served_mem_exec _).mp hts
        obtain ⟨r, _, hrelied, hfit, _⟩ := hkeeps.served ts rfl
        exact trustworthy_of_good (hrelied (hfit trivial))

/-- In every run whose steps spoil no flag for a client, all timestamps are served by a node
    that is fit for it. -/
theorem serves_trustworthy {b : Build} {c₀ c : NodePool} {tr : List Access} (hinit : c₀.Initial)
    (hrun : Interleaving b c₀ tr c) (hunspoilt : ∀ t ∈ tr, Unspoilt b t) :
    ∀ t ∈ tr, ServesTrustworthy t := by
  intro t ht
  have hpre := (Run.invariant_at (I := AllKeep b servingTerms)
    (fun t hs h hkeep => (hkeep.serving_step hs h).1) hrun hunspoilt
    (allKeep_of_initial hinit) t ht).1
  exact (hpre.serving_step (hrun.isStep ht) (hunspoilt t ht)).2

namespace Scenario

/-- A node without siblings is calibrated, trained and calibrated again. Then it trusts its clock. -/
def trusted : List Action :=
  calibrated.drop 2 ++
    List.replicate 24 (.recv (driftAnswer ⟨1005, 0⟩) ⟨"127.0.0.1", 12340⟩ (reading 0)) ++
    [.monitor (reading 10000000000), .monitor (reading 11000000000)] ++
    List.replicate 2 (.recv (driftAnswer ⟨1005, 500000000⟩) ⟨"127.0.0.1", 12340⟩ (reading 0)) ++
    List.replicate 3 (.monitor (reading 11000000000)) ++
    ((List.range 10).flatMap fun i =>
      countingRound ((i + 11) * 1000000000) ((i + 12) * 1000000000)) ++
    List.replicate 2 (.monitor (reading 21000000000))

/-- It serves two reads, half a second apart. -/
def twoReads : List (Slice NodeThread Outside) :=
  trusted.filterMap Action.turn? ++
    [call 0] ++ (countingRound 21000000000 22000000000).filterMap Action.turn? ++ [pass 0] ++
    [call 0] ++ (countingRound 22000000000 23000000000).filterMap Action.turn? ++ [pass 0]

end Scenario

set_option maxRecDepth 10000 in
open Scenario in
/-- The theorem at a node that serves two reads. -/
theorem serves_trustworthy_twoReads :
    ∃ tr c, Interleaving .aexNotify pool tr c ∧
      (servedIn (tr.flatMap Transition.events)).length = 2 ∧ ∀ t ∈ tr, ServesTrustworthy t := by
  have hend : ((afterTurns .aexNotify (fun _ s place _ => place != .stopTest true || !s.stop)
      twoReads).any fun r => decide ((servedIn r.1).length = 2)) = true := by decide +kernel
  obtain ⟨r, hturns, hr⟩ := (Option.any_eq_true _ _).mp hend
  obtain ⟨tr, hrun, hevents, halone⟩ := exists_run_of_afterTurns hturns
  refine ⟨tr, _, hrun, by rw [hevents]; exact of_decide_eq_true hr, ?_⟩
  refine serves_trustworthy initial_pool hrun fun t ht => ⟨fun op hop => ?_, ?_⟩
  · obtain ⟨place', op', haccess, hP, _⟩ := halone t ht
    obtain ⟨rfl, rfl⟩ := Prod.mk.inj (Option.some.inj (haccess.symm.trans hop))
    simpa using hP
  · exact fun _ _ _ _ _ p hp => absurd hp (not_standsBy_of_alone (halone t ht) p)

open Scenario in
/-- A client that waits for the first calibration is served its timestamp when `stop` is requested. -/
theorem stop_serves :
    ¬ ∀ (b : Build) (c₀ c : NodePool) (tr : List Access), c₀.Initial → Interleaving b c₀ tr c →
        ∀ t ∈ tr, ServesTrustworthy t := by
  intro h
  obtain ⟨tr, c, hrun, t, ht, hserved, hcalib⟩ := exists_run_of_exec (node .aexNotify).step pool
    ([call 0, ⟨.application 0, ⟨reading 0, .stopTasks⟩⟩] ++ List.replicate 12 (pass 0))
    (fun tr _ => ∃ t ∈ tr, servedIn t.events ≠ [] ∧ t.pre.mem.calibCount = false)
    (by decide +kernel)
  have hfit := h .aexNotify pool c tr initial_pool hrun t ht hserved
  rw [hfit.calibCount] at hcalib
  cases hcalib

end TriHaRd
