-- SUMMARY: When clients are kept out while the node trains its frequency.
import TriHaRd.Node.Soundness
import TriHaRd.Clock.Moves

/-!
# The gate in FREQ_STATE

A node in `FREQ_STATE` serves no client because its `clock_state` is
`TA_INCONSISTENT_STATE`. The constructor sets both, and case 'D' keeps them
together. A discalibration sets `node_state` only. It breaks the relation if the
node trusts its clock then, or is about to: case 'D' tests `node_state` before it
stores its verdict, and a client tests `clock_state` before it returns.
-/

namespace TriHaRd

open Lts SharedMemory

/-- In `FREQ_STATE` the node does not trust its clock, and no unforced read gets through. -/
def GatedInFreq (s : ENode) : Prop :=
  s.nodeState = .freq → s.clockState = .taInconsistent ∧ ∀ memTsc, s.unready memTsc = true

theorem gatedInFreq_iff (s : ENode) :
    GatedInFreq s ↔ (s.nodeState = .freq → s.clockState = .taInconsistent) := by
  refine ⟨fun h hfreq => (h hfreq).1, fun h hfreq => ⟨h hfreq, fun memTsc => ?_⟩⟩
  simp [ENode.unready, h hfreq]

/-- A client returns that has found nothing to keep it out. -/
def ReturnsFit (b : Build) (t : Access) : Prop :=
  ∃ r ts, t.access? (node b) = some (.returning r, some (.event (.served ts))) ∧ r.fit = true

/-- The step is the store of `FREQ_STATE` by a discalibration. -/
def StoresFreq (b : Build) (t : Access) : Prop :=
  ∃ place, t.access? (node b) = some (place, some (.nodeState .freq))

/-- Nobody trusts the clock of the node, or is about to: `clock_state` says so, no handler of a
    Drift answer stands between its test of `node_state` and its verdict, and no client between its
    test of `clock_state` and its return. -/
structure Distrusted (t : Access) : Prop where
  clockState : t.pre.mem.clockState = .taInconsistent
  judging : ¬ StandsBy t .judging
  client : ∀ p, StandsBy t p → p.found .clockState = false

/-- A client that has found `clock_state` good counts on the node to stay out of `FREQ_STATE`. -/
def gateTerms : Terms where
  relied f s := f = .clockState → s.nodeState ≠ .freq
  judged := True
  unheld := False
  apart := False
  relied_read _ _ _ _ h := h

/-- `FREQ_STATE` is entered by its store alone. -/
theorem stores_of_freq {op : Option Store} {s : Memory} (h : s.nodeState ≠ .freq)
    (hpost : (perform Store.exec op s).1.nodeState = .freq) : op = some (.nodeState .freq) := by
  cases op with
  | none => exact absurd hpost h
  | some op =>
      have hexec : (op.exec s).1.nodeState = .freq := hpost
      by_cases hop : ∃ x, op = .nodeState x
      · obtain ⟨x, rfl⟩ := hop
        rw [show x = .freq from hexec]
      · rw [Store.exec_nodeState _ fun x hx => hop ⟨x, hx⟩] at hexec
        exact absurd hexec h

/-- The states stay together if the verdict is stored outside `FREQ_STATE`, and `FREQ_STATE` with
    the clock distrusted. -/
theorem gate_perform {op : Option Store} {s : Memory}
    (h : s.nodeState = .freq → s.clockState = .taInconsistent)
    (hverdict : op = some (.clockState .taConsistent) → s.nodeState ≠ .freq)
    (hfreq : op = some (.nodeState .freq) → s.clockState = .taInconsistent)
    (hpost : (perform Store.exec op s).1.nodeState = .freq) :
    (perform Store.exec op s).1.clockState = .taInconsistent := by
  by_cases hstore : op = some (.nodeState .freq)
  · rw [hstore]
    exact hfreq hstore
  · have hstate : s.nodeState = .freq := by
      by_contra hne
      exact hstore (stores_of_freq hne hpost)
    cases op with
    | none => exact h hstate
    | some op =>
        show (op.exec s).1.clockState = .taInconsistent
        by_cases hclock : ∃ x, op = .clockState x
        · obtain ⟨x, rfl⟩ := hclock
          cases x with
          | taConsistent => exact absurd hstate (hverdict rfl)
          | taInconsistent => rfl
        · rw [Store.exec_clockState _ fun x hx => hclock ⟨x, hx⟩]
          exact h hstate

/-- The gate, and the threads that keep it. -/
structure Gated (b : Build) (c : NodePool) : Prop where
  keep : AllKeep b gateTerms c
  gate : c.mem.nodeState = .freq → c.mem.clockState = .taInconsistent

theorem gated_of_initial {b : Build} {c : NodePool} (h : c.Initial) : Gated b c := by
  refine ⟨allKeep_of_initial h, ?_⟩
  obtain ⟨_, _, _, _, _, _, _, rfl⟩ := h
  exact fun _ => rfl

/-- A step keeps the gate, and lets no client through in `FREQ_STATE`, unless it discalibrates a
    node that somebody trusts. -/
theorem Gated.step {b : Build} {t : Access} (hs : t.IsStep (node b).step)
    (hdis : StoresFreq b t → Distrusted t) (h : Gated b t.pre) :
    Gated b t.post ∧ (ReturnsFit b t → t.pre.mem.nodeState ≠ .freq) := by
  obtain ⟨place, op, haccess, hmem, _⟩ := access_cases hs
  have hknows : Knows gateTerms place t.pre.mem := by
    refine ⟨?_, fun h => h.elim, fun h => h.elim⟩
    rintro f hgood rfl hfreq
    simp [Flag.good, h.gate hfreq] at hgood
  obtain ⟨hkeeps, hkept⟩ := h.keep.step hs haccess hmem hknows
  have hstored (hop : op = some (.nodeState .freq)) : Distrusted t :=
    hdis ⟨place, by rw [haccess, hop]⟩
  refine ⟨⟨hkept ⟨?_, ?_, fun h => h.elim, fun h => h.elim⟩, ?_⟩, ?_⟩
  · rintro p hp f hfound hrelied rfl hpost
    rw [hmem] at hpost
    have hdistrusted := hstored (stores_of_freq (hrelied rfl) hpost)
    rw [hdistrusted.client p hp] at hfound
    cases hfound
  · exact fun _ hop _ => (hstored hop).judging
  · rw [hmem]
    exact gate_perform h.gate (hkeeps.clockState trivial) fun hop => (hstored hop).clockState
  · rintro ⟨r, ts, hreturn, hfit⟩
    obtain ⟨rfl, rfl⟩ := Prod.mk.inj (Option.some.inj (haccess.symm.trans hreturn))
    obtain ⟨r', hr, hrelied, _⟩ := hkeeps.served ts rfl
    obtain rfl := Place.returning.inj hr
    exact hrelied hfit .clockState rfl

/-- In every run whose discalibrations find a node that nobody trusts, the gate holds in all
    states, and no client that it has let through returns in `FREQ_STATE`. -/
theorem gated_in_freq {b : Build} {c₀ c : NodePool} {tr : List Access} (hinit : c₀.Initial)
    (hrun : Interleaving b c₀ tr c) (hdis : ∀ t ∈ tr, StoresFreq b t → Distrusted t) :
    GatedInFreq c₀.mem.toENode ∧ ∀ t ∈ tr, GatedInFreq t.post.mem.toENode ∧
      (ReturnsFit b t → t.pre.mem.nodeState ≠ .freq) := by
  have hgated := gated_of_initial (b := b) hinit
  refine ⟨(gatedInFreq_iff _).mpr hgated.gate, fun t ht => ?_⟩
  have hpre := (Run.invariant_at (I := Gated b) (fun t hs hoff h => (h.step hs hoff).1) hrun hdis
    hgated t ht).1
  obtain ⟨hpost, hreturn⟩ := hpre.step (hrun.isStep ht) (hdis t ht)
  exact ⟨(gatedInFreq_iff _).mpr hpost.gate, hreturn⟩

namespace Scenario

/-- A calibrated node in its training that counts two iterations in the next round. -/
def discalibrated : List Action :=
  calibrated ++ [.monitor (reading 10000000000), .monitor (reading 10500000000),
    .monitor (reading 12000000000), .monitor (reading 12000000000)]

/-- The store of `FREQ_STATE` finds a node that does not trust its clock. -/
def gatedStore (s : Memory) (op : Option Store) : Bool :=
  decide (op = some (.nodeState .freq) → s.clockState = .taInconsistent)

end Scenario

/-- While the others rest, nobody stands by. -/
theorem not_standsBy_of_alone {b : Build} {P : NodeThread → Memory → Place → Option Store → Bool}
    {t : Access} (h : Step.Alone (node b) P t) (p : Place) : ¬ StandsBy t p := by
  obtain ⟨_, _, _, _, hrest⟩ := h
  rintro ⟨j, hj, hp⟩
  rw [hrest j hj] at hp
  cases hp

set_option maxRecDepth 10000 in
open Scenario in
/-- The theorem at that node, which has not trusted its clock yet. -/
theorem gated_in_freq_training :
    ∃ tr c, Interleaving .aexNotify pool tr c ∧ c.mem.calibCount = false ∧
      ∀ t ∈ tr, GatedInFreq t.post.mem.toENode := by
  have hend : ((afterTurns .aexNotify (fun _ s _ op => gatedStore s op)
      (discalibrated.filterMap Action.turn?)).any fun r => !r.2.2.calibCount) = true := by
    decide +kernel
  obtain ⟨r, hturns, hcalib⟩ := (Option.any_eq_true _ _).mp hend
  obtain ⟨tr, hrun, _, halone⟩ := exists_run_of_afterTurns hturns
  refine ⟨tr, _, hrun, by simpa [Pool.resting] using hcalib, fun t ht => ?_⟩
  refine ((gated_in_freq initial_pool hrun fun t ht hstore => ?_).2 t ht).1
  obtain ⟨place, hop⟩ := hstore
  have hnobody := not_standsBy_of_alone (halone t ht)
  refine ⟨?_, hnobody _, fun p hp => absurd hp (hnobody p)⟩
  obtain ⟨place', op', haccess, hP, _⟩ := halone t ht
  obtain ⟨rfl, rfl⟩ := Prod.mk.inj (Option.some.inj (haccess.symm.trans hop))
  exact of_decide_eq_true hP rfl

set_option maxRecDepth 10000 in
open Scenario in
/-- The trained node is discalibrated. Once it has counted its rounds anew it serves clients,
    although it is in `FREQ_STATE`. -/
theorem serves_in_freq :
    ¬ ∀ (b : Build) (c₀ c : NodePool) (tr : List Access), c₀.Initial → Interleaving b c₀ tr c →
        GatedInFreq c.mem.toENode := by
  intro h
  have hend : ((afterTurns .aexNotify (fun _ _ _ _ => true)
      ((miscounted ++ recounting).filterMap Action.turn?)).any fun r =>
        decide (r.2.2.nodeState = .freq ∧ r.2.2.unready 0 = false)) = true := by decide +kernel
  obtain ⟨r, hturns, hr⟩ := (Option.any_eq_true _ _).mp hend
  obtain ⟨hfreq, hready⟩ := of_decide_eq_true hr
  obtain ⟨tr, hrun, _⟩ := exists_run_of_afterTurns hturns
  have hgate := h .aexNotify pool _ tr initial_pool hrun hfreq
  exact absurd (hgate.2 0) (by simp [Pool.resting, hready])

end TriHaRd
