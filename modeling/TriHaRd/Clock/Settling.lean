-- SUMMARY: How many answers the node spends in SPIK_STATE and in FREQ_STATE, and for how long it trains.
import TriHaRd.Clock.Moves
import TriHaRd.Clock.Passes
import Mathlib.Algebra.Order.Floor.Semiring

/-!
# Settling

Each answer in `SPIK_STATE` and in `FREQ_STATE` adds its poll interval to the pass
counter, and both states are left when the counter reaches `STEP_OUT_THRESHOLD_S`.
So neither lasts. In `FREQ_STATE` the counter already holds the interval of the
answer that starts the training, and possibly what `SPIK_STATE` has left, so that
the training itself is always shorter than the threshold.
-/

namespace TriHaRd

open Lts

variable {b : Build} {s₀ s s' : System} {tr : List NodeStep} {t : NodeStep} {mode : NodeState}

-- ---------------------------------------------------------------------------
-- The number of answers until the node settles
-- ---------------------------------------------------------------------------

/-- The states in which `select_clock` handles the Drift messages of a history, in their order. -/
def answers (tr : List NodeStep) : List NodeState := tr.filterMap NodeStep.selects

/-- The step is an answer in `mode` that leaves the node in `SYNC_STATE` with no passes counted. -/
def Settles (mode : NodeState) (t : NodeStep) : Prop :=
  t.selects = some mode ∧ t.post.node.nodeState = .sync ∧ t.post.node.statics.passCount = 0

/-- Fewer than `bound` answers, all of them handled in `mode`. -/
def ShortIn (mode : NodeState) (bound : ℕ) (tr : List NodeStep) : Prop :=
  (∀ m ∈ answers tr, m = mode) ∧ (answers tr).length < bound

/-- All answers are handled in `mode` until one of the first `bound` settles, if the history has
    that many. -/
def SettlesWithin (mode : NodeState) (bound : ℕ) (tr : List NodeStep) : Prop :=
  ShortIn mode bound tr ∨
    ∃ before t after, tr = before ++ t :: after ∧ ShortIn mode bound before ∧ Settles mode t

/-- `r` answers in `mode` are enough to reach the threshold from `p`, and to end a training that
    has not started yet. -/
structure Passes.Budget (mode : NodeState) (p : Passes) (r : ℕ) : Prop where
  pos : 0 < r
  enough : stepOutThresholdS ≤ p.passCount + r * p.interval
  start : mode = .freq → p.enterFreq = true → 2 ≤ r

namespace Passes

variable {p : Passes} {r : ℕ}

theorem Budget.detect (h : Budget mode p r) (spike : Bool) : Budget mode (p.detect spike) r where
  pos := h.pos
  enough := by
    rw [detect_passCount, detect_interval]
    exact h.enough
  start := by
    rw [detect_enterFreq]
    exact h.start

/-- An answer that does not reach the threshold is not the last one. -/
theorem Budget.one_lt (h : Budget mode p r)
    (hshort : ¬ p.passCount + p.interval ≥ stepOutThresholdS) : 1 < r := by
  have hpos := h.pos
  have henough := h.enough
  by_contra hone
  obtain rfl : r = 1 := by omega
  rw [Nat.cast_one, one_mul] at henough
  exact hshort henough

/-- It has counted one interval, and one answer less remains. -/
theorem Budget.count (h : Budget mode p r) (hmore : 1 < r) {q : Passes}
    (hcount : q.passCount = p.passCount + p.interval) (hinterval : q.interval = p.interval)
    (henter : mode = .freq → q.enterFreq = false) : Budget mode q (r - 1) := by
  obtain ⟨n, rfl⟩ : ∃ n, r = n + 1 := ⟨r - 1, by omega⟩
  have henough := h.enough
  push_cast at henough
  refine ⟨by omega, ?_, fun hfreq htrue => ?_⟩
  · rw [hcount, hinterval, Nat.add_sub_cancel]
    linarith
  · rw [henter hfreq] at htrue
    cases htrue

/-- An answer handled in `mode` settles, or leaves the node there with one answer less to go. -/
theorem Budget.answer (h : Budget mode p r) (hmode : mode ≠ .sync) (hstate : p.nodeState = mode)
    (small : Bool) :
    ((p.select small).nodeState = .sync ∧ (p.select small).passCount = 0) ∨
      (p.select small).nodeState = mode ∧ Budget mode (p.select small) (r - 1) := by
  unfold select
  cases mode with
  | sync => exact absurd rfl hmode
  | spik =>
      simp only [hstate]
      split_ifs with hends
      · exact .inl ⟨rfl, rfl⟩
      · exact .inr ⟨rfl, h.count (h.one_lt fun hreached => hends (.inr hreached)) rfl rfl nofun⟩
  | freq =>
      simp only [hstate]
      split_ifs with hfirst hends
      · exact .inr ⟨rfl, h.count (h.start rfl hfirst) rfl rfl fun _ => rfl⟩
      · exact .inl ⟨rfl, rfl⟩
      · exact .inr ⟨rfl, h.count (h.one_lt hends) rfl rfl fun _ => by simpa using hfirst⟩

end Passes

theorem answers_cons (t : NodeStep) (tr : List NodeStep) :
    answers (t :: tr) = t.selects.toList ++ answers tr := by
  cases h : t.selects <;> simp [answers, h]

theorem ShortIn.cons_none {bound : ℕ} (hselects : t.selects = none) (h : ShortIn mode bound tr) :
    ShortIn mode bound (t :: tr) := by
  rwa [ShortIn, answers_cons, hselects, Option.toList_none, List.nil_append]

theorem ShortIn.cons_some {bound : ℕ} (hselects : t.selects = some mode) (hpos : 0 < bound)
    (h : ShortIn mode (bound - 1) tr) : ShortIn mode bound (t :: tr) := by
  obtain ⟨hmodes, hlength⟩ := h
  rw [ShortIn, answers_cons, hselects, Option.toList_some, List.singleton_append]
  refine ⟨List.forall_mem_cons.mpr ⟨rfl, hmodes⟩, ?_⟩
  rw [List.length_cons]
  omega

theorem SettlesWithin.cons {r r' : ℕ} (h : SettlesWithin mode r' tr)
    (hshort : ∀ tr, ShortIn mode r' tr → ShortIn mode r (t :: tr)) :
    SettlesWithin mode r (t :: tr) := by
  rcases h with hall | ⟨before, u, after, rfl, hbefore, hsettles⟩
  · exact .inl (hshort tr hall)
  · exact .inr ⟨t :: before, u, after, rfl, hshort before hbefore, hsettles⟩

/-- A run without discalibrations settles within the budget of its first state. -/
theorem settlesWithin_of_budget {r : ℕ} (hmode : mode ≠ .sync) (hrun : NodeRun b s tr s')
    (hdis : ∀ t ∈ tr, ¬ Discalibrates t.pre t.act) (hbudget : s.node.passes.Budget mode r)
    (hfirst : s.node.nodeState = mode ∨ ∀ m ∈ (answers tr).head?, m = mode) :
    SettlesWithin mode r tr := by
  induction tr generalizing s r with
  | nil => exact .inl ⟨by simp [answers], hbudget.pos⟩
  | cons t tr ih =>
      obtain ⟨rfl, hstep, hrest⟩ := hrun.of_cons
      have hdis' : ∀ u ∈ tr, ¬ Discalibrates u.pre u.act := fun u hu =>
        hdis u (List.mem_cons_of_mem t hu)
      rw [answers_cons] at hfirst
      cases NodeStep.passMove hstep with
      | keep hselects hpost =>
          rw [hselects] at hfirst
          have hstate : t.post.node.nodeState = t.pre.node.nodeState :=
            congrArg Passes.nodeState hpost
          rw [← hpost] at hbudget
          rw [← hstate] at hfirst
          exact (ih hrest hdis' hbudget hfirst).cons fun _ => .cons_none hselects
      | discalibrate hdiscalibrates _ _ =>
          exact absurd hdiscalibrates (hdis t List.mem_cons_self)
      | answer spike small hselects hpost =>
          have hdetect : (t.pre.node.passes.detect spike).nodeState = mode := by
            rcases hfirst with hstate | hhead
            · rw [Passes.detect_of_ne_sync]
              · exact hstate
              · exact fun hsync => hmode (hstate.symm.trans hsync)
            · rw [hselects] at hhead
              exact hhead _ rfl
          have hanswers : t.selects = some mode := by rw [hselects, hdetect]
          have hmove := (hbudget.detect spike).answer hmode hdetect small
          rw [← hpost] at hmove
          rcases hmove with ⟨hsync, hcount⟩ | ⟨hstate, hbudget'⟩
          · refine .inr ⟨[], t, tr, rfl, ?_, hanswers, hsync, hcount⟩
            exact ⟨by simp [answers], hbudget.pos⟩
          · exact (ih hrest hdis' hbudget' (.inl hstate)).cons fun _ =>
              .cons_some hanswers hbudget.pos

/-- The number of answers whose poll intervals reach the threshold, `e` being the exponent. -/
def thresholdAnswers (e : ℕ) : ℕ := ⌈(stepOutThresholdS : ℚ) / 2 ^ e⌉₊

theorem thresholdAnswers_pos (e : ℕ) : 0 < thresholdAnswers e := by
  have hthreshold : (0 : ℚ) < stepOutThresholdS := by norm_num [stepOutThresholdS]
  unfold thresholdAnswers
  positivity

theorem stepOutThresholdS_le_mul (e : ℕ) : stepOutThresholdS ≤ thresholdAnswers e * 2 ^ e := by
  have hceil : (stepOutThresholdS : ℚ) / 2 ^ e ≤ thresholdAnswers e := Nat.le_ceil _
  rw [div_le_iff₀ (by positivity)] at hceil
  exact_mod_cast hceil

namespace Passes

variable {p : Passes} {r : ℕ}

/-- The counter of a sound state counts towards the threshold, so that it needs no more answers
    than an empty one. -/
theorem Sound.budget (h : Sound p) (hmode : mode = .freq → 2 ≤ r)
    (hr : thresholdAnswers p.pollExponent ≤ r) : Budget mode p r where
  pos := (thresholdAnswers_pos p.pollExponent).trans_le hr
  enough := by
    have hcount := h.passCount_nonneg
    have hthreshold : stepOutThresholdS ≤ r * p.interval := by
      calc stepOutThresholdS
          ≤ thresholdAnswers p.pollExponent * p.interval := stepOutThresholdS_le_mul _
        _ ≤ r * p.interval :=
          mul_le_mul_of_nonneg_right (by exact_mod_cast hr) p.interval_pos.le
    omega
  start := fun hfreq _ => hmode hfreq

end Passes

/-- From every reachable state and without discalibrations, `SPIK_STATE` lasts no more answers than
    reach the threshold, and `FREQ_STATE` no more than these and the one that starts the
    training. -/
theorem settles_within (hreach : s.Reachable b) (hrun : NodeRun b s tr s')
    (hdis : ∀ t ∈ tr, ¬ Discalibrates t.pre t.act) :
    ((answers tr).head? = some .spik →
        SettlesWithin .spik (thresholdAnswers s.node.pollExponent) tr) ∧
      ((answers tr).head? = some .freq →
        SettlesWithin .freq (max 2 (thresholdAnswers s.node.pollExponent)) tr) := by
  have hsound := Passes.Sound.of_reachable hreach
  constructor
  · intro hspik
    apply settlesWithin_of_budget (by simp) hrun hdis
    · exact hsound.budget nofun (le_refl _)
    · exact .inr fun m hm => Option.some.inj (hm.symm.trans hspik)
  · intro hfreq
    apply settlesWithin_of_budget (by simp) hrun hdis
    · exact hsound.budget (fun _ => le_max_left _ _) (le_max_right _ _)
    · exact .inr fun m hm => Option.some.inj (hm.symm.trans hfreq)

theorem not_discalibrates_of_selects (h : t.selects ≠ none) : ¬ Discalibrates t.pre t.act := by
  rintro ⟨amb, _, _, hact, _⟩
  simp [NodeStep.selects, hact] at h

set_option maxRecDepth 10000 in
open Scenario in
/-- The theorem at a node that gets as many answers as its first training takes. -/
theorem settles_within_trained :
    ∃ tr s, NodeRun .aexNotify Scenario.boot tr s ∧ s.node.nodeState = .sync ∧
      (answers tr).length = 25 ∧ SettlesWithin .freq 25 tr := by
  obtain ⟨tr, s, hrun, hs⟩ := exists_run_of_exec (System.step .aexNotify) Scenario.boot
    (List.replicate 25 (.recv (driftAnswer ⟨1005, 0⟩) ⟨"127.0.0.1", 12340⟩ (reading 0)))
    (fun tr s => s.node.nodeState = .sync ∧ (answers tr).length = 25 ∧
      (answers tr).head? = some .freq ∧ ∀ t ∈ tr, NodeStep.selects t ≠ none) (by decide +kernel)
  obtain ⟨hsync, hlength, hfirst, hselects⟩ := hs
  have hbound : max 2 (thresholdAnswers Scenario.boot.node.pollExponent) = 25 := by
    change max 2 ⌈((100 : ℤ) : ℚ) / 2 ^ 2⌉₊ = 25
    norm_num
  have hsettles := (settles_within ⟨Scenario.boot, [], initial_boot, .refl⟩ hrun
    fun t ht => not_discalibrates_of_selects (hselects t ht)).2 hfirst
  rw [hbound] at hsettles
  exact ⟨tr, s, hrun, hsync, hlength, hsettles⟩

-- ---------------------------------------------------------------------------
-- The length of the training
-- ---------------------------------------------------------------------------

/-- The step is an answer that records `train_start_ts`. -/
def NodeStep.startsTraining (t : NodeStep) : Bool :=
  decide (t.selects = some .freq) && t.pre.node.statics.enterFreq

/-- The step is an answer that ends the training. -/
def NodeStep.endsTraining (t : NodeStep) : Bool := t.selects.isSome && t.pre.node.endsTraining

/-- The poll intervals, in seconds, of the Drift messages handled since the one that last recorded
    `train_start_ts`. -/
def trainedFor (tr : List NodeStep) : ℤ :=
  tr.foldl (fun sum t =>
    if t.startsTraining then 0
    else if t.selects.isSome then sum + t.pre.node.timeConstant
    else sum) 0

/-- If the step ends the training, the threshold has been reached since the training started. -/
def TrainsLongEnough (past : List NodeStep) (t : NodeStep) : Prop :=
  NodeStep.endsTraining t = true → stepOutThresholdS ≤ trainedFor (past ++ [t])

instance (past : List NodeStep) (t : NodeStep) : Decidable (TrainsLongEnough past t) :=
  inferInstanceAs (Decidable (_ → stepOutThresholdS ≤ trainedFor (past ++ [t])))

instance : DecidablePred (Function.uncurry TrainsLongEnough) := fun r =>
  inferInstanceAs (Decidable (TrainsLongEnough r.1 r.2))

namespace Passes

variable {p : Passes} {sum : ℤ}

/-- What an answer handled in `p` makes of the sum. -/
def train (p : Passes) (sum : ℤ) : ℤ :=
  if p.nodeState = .freq ∧ p.enterFreq = true then 0 else sum + p.interval

/-- During a training the counter is at least one interval ahead of the sum, and exactly one in the
    first training. -/
structure Training (sum : ℤ) (p : Passes) : Prop where
  sum_nonneg : 0 ≤ sum
  counted : p.enterFreq = false → sum + p.interval ≤ p.passCount
  first : p.enterFreq = false → p.pollExponent = 2 → p.passCount = sum + p.interval
  below : p.enterFreq = false → sum + p.interval < stepOutThresholdS

theorem Training.of_enterFreq (henter : p.enterFreq = true) (hsum : 0 ≤ sum) : Training sum p where
  sum_nonneg := hsum
  counted := by simp [henter]
  first := by simp [henter]
  below := by simp [henter]

theorem Training.detect (h : Training sum p) (spike : Bool) : Training sum (p.detect spike) where
  sum_nonneg := h.sum_nonneg
  counted := by simpa using h.counted
  first := by simpa using h.first
  below := by simpa using h.below

/-- Both exponents that occur have an interval below the threshold. -/
theorem Sound.interval_lt (h : Sound p) : p.interval < stepOutThresholdS := by
  rcases h.pollExponent with hmin | ⟨hfirst, -⟩
  · rw [interval, hmin]
    decide
  · rw [interval, hfirst]
    decide

theorem Sound.enterFreq_of_ne_freq (h : Sound p) (hstate : p.nodeState ≠ .freq) :
    p.enterFreq = true := by
  by_contra henter
  exact hstate (h.training (Bool.eq_false_iff.mpr henter))

theorem select_enterFreq (h : p.nodeState ≠ .freq) (small : Bool) :
    (p.select small).enterFreq = p.enterFreq := by
  unfold Passes.select
  split
  case h_1 => rfl
  case h_2 => split_ifs <;> rfl
  case h_3 hfreq => exact absurd hfreq h

theorem Training.answer (h : Training sum p) (hsound : Sound p) (small : Bool) :
    Training (p.train sum) (p.select small) := by
  have hsum := h.sum_nonneg
  have hcount := hsound.passCount_nonneg
  have hpos := p.interval_pos
  cases hstate : p.nodeState with
  | freq =>
      cases henter : p.enterFreq with
      | true =>
          simp only [train, Passes.select, hstate, henter, and_self, if_true]
          refine ⟨le_refl _, fun _ => ?_, fun _ hfirst => ?_, fun _ => ?_⟩
          · dsimp only [interval] at hcount ⊢
            omega
          · rcases hsound.pollExponent with hmin | ⟨-, -, hzero⟩
            · rw [hmin] at hfirst
              cases hfirst
            · dsimp only [interval]
              rw [hzero henter]
          · rw [zero_add]
            exact hsound.interval_lt
      | false =>
          have hcounted := h.counted henter
          have hbelow := h.below henter
          simp only [train, Passes.select, hstate, henter, Bool.false_eq_true, and_false, if_false]
          split_ifs with hends
          · exact .of_enterFreq rfl (by omega)
          · -- the counter is below the threshold, and the sum one interval behind it
            refine ⟨by omega, fun _ => ?_, fun _ hfirst => ?_, fun _ => ?_⟩
            · exact add_le_add_left hcounted p.interval
            · exact congrArg (· + p.interval) (h.first henter hfirst)
            · change sum + p.interval + p.interval < stepOutThresholdS
              omega
  | sync | spik =>
      have hother : p.nodeState ≠ .freq := by simp [hstate]
      have htrain : p.train sum = sum + p.interval := by simp [train, hstate]
      apply Training.of_enterFreq
      · rw [select_enterFreq hother]
        exact hsound.enterFreq_of_ne_freq hother
      · rw [htrain]
        omega

end Passes

theorem trainedFor_snoc (tr : List NodeStep) (t : NodeStep) : trainedFor (tr ++ [t]) =
    if t.startsTraining then 0
    else if t.selects.isSome then trainedFor tr + t.pre.node.timeConstant
    else trainedFor tr := by
  rw [trainedFor, List.foldl_append]
  rfl

theorem trainedFor_snoc_none (h : t.selects = none) : trainedFor (tr ++ [t]) = trainedFor tr := by
  simp [trainedFor_snoc, NodeStep.startsTraining, h]

theorem trainedFor_snoc_answer {spike : Bool}
    (h : t.selects = some (t.pre.node.passes.detect spike).nodeState) :
    trainedFor (tr ++ [t]) = (t.pre.node.passes.detect spike).train (trainedFor tr) := by
  have henter : (t.pre.node.passes.detect spike).enterFreq = t.pre.node.statics.enterFreq :=
    Passes.detect_enterFreq spike _
  have hinterval : (t.pre.node.passes.detect spike).interval = t.pre.node.timeConstant :=
    Passes.detect_interval spike _
  rw [trainedFor_snoc, NodeStep.startsTraining, h, Passes.train, henter, hinterval]
  simp

/-- The counter and the sum after one more step. -/
theorem Passes.Training.step (hs : t.IsStep (System.step b)) (hsound : t.pre.node.passes.Sound)
    (h : t.pre.node.passes.Training (trainedFor tr)) :
    t.post.node.passes.Training (trainedFor (tr ++ [t])) := by
  cases NodeStep.passMove hs with
  | answer spike small hselects hpost =>
      rw [hpost, trainedFor_snoc_answer hselects]
      exact (h.detect spike).answer (hsound.detect spike) small
  | discalibrate _ hselects hpost =>
      rw [hpost, trainedFor_snoc_none hselects]
      exact ⟨h.sum_nonneg, h.counted, h.first, h.below⟩
  | keep hselects hpost =>
      rw [hpost, trainedFor_snoc_none hselects]
      exact h

/-- A training ends before the threshold has been reached since its start. -/
theorem trainedFor_lt_of_endsTraining (h : t.pre.node.passes.Training (trainedFor tr))
    (hends : t.endsTraining = true) : trainedFor (tr ++ [t]) < stepOutThresholdS := by
  simp only [NodeStep.endsTraining, ENode.endsTraining, Bool.and_eq_true, Bool.not_eq_true',
    decide_eq_true_eq] at hends
  obtain ⟨hselects, ⟨_, henter⟩, _⟩ := hends
  rw [trainedFor_snoc, NodeStep.startsTraining, henter, Bool.and_false, if_neg (by simp),
    if_pos hselects]
  exact h.below henter

/-- With the interval of the message that starts it, a training is long enough. -/
theorem le_trainedFor_of_endsTraining (hsound : t.pre.node.passes.Sound)
    (h : t.pre.node.passes.Training (trainedFor tr)) (hends : t.endsTraining = true) :
    stepOutThresholdS ≤ t.pre.node.timeConstant + trainedFor (tr ++ [t]) := by
  simp only [NodeStep.endsTraining, ENode.endsTraining, Bool.and_eq_true, Bool.not_eq_true',
    decide_eq_true_eq] at hends
  obtain ⟨hselects, ⟨_, henter⟩, hreached⟩ := hends
  have hsum := h.sum_nonneg
  rw [trainedFor_snoc, NodeStep.startsTraining, henter, Bool.and_false, if_neg (by simp),
    if_pos hselects]
  rcases hsound.pollExponent with hmin | ⟨hfirst, -⟩
  · have hinterval : t.pre.node.timeConstant = 2 ^ minPollExponent := congrArg (2 ^ ·) hmin
    rw [hinterval]
    simp only [minPollExponent, stepOutThresholdS]
    omega
  · have hcount : t.pre.node.statics.passCount = trainedFor tr + t.pre.node.timeConstant :=
      h.first henter hfirst
    omega

theorem training_of_initial (hinit : s.Initial) : s.node.passes.Training (trainedFor []) := by
  obtain ⟨_, _, _, _, _, _, _, rfl⟩ := hinit
  exact .of_enterFreq rfl (le_refl _)

/-- In every run, each training is long enough once the message that starts it counts. -/
theorem trained_with_start (hinit : s₀.Initial) (hrun : NodeRun b s₀ tr s) :
    EachStep (fun past t => NodeStep.endsTraining t = true →
      stepOutThresholdS ≤ t.pre.node.timeConstant + trainedFor (past ++ [t])) tr := by
  refine (hrun.history (I := fun past s => EachStep _ past ∧ s.node.passes.Sound ∧
    s.node.passes.Training (trainedFor past)) (fun past t hs h => ?_) ⟨.nil, ?_, ?_⟩).1
  · obtain ⟨hall, hsound, htraining⟩ := h
    exact ⟨hall.snoc (le_trainedFor_of_endsTraining hsound htraining), hsound.step hs,
      htraining.step hs hsound⟩
  · exact .of_initial hinit
  · exact training_of_initial hinit

/-- In every run, each training lasts until the threshold has been reached since its start exactly
    when no training ends. -/
theorem trains_long_enough_iff (hinit : s₀.Initial) (hrun : NodeRun b s₀ tr s) :
    EachStep TrainsLongEnough tr ↔ ∀ t ∈ tr, NodeStep.endsTraining t = false := by
  rw [← EachStep.iff_forall_mem]
  refine hrun.eachStep_iff (I := fun past s =>
    s.node.passes.Sound ∧ s.node.passes.Training (trainedFor past))
    ⟨.of_initial hinit, training_of_initial hinit⟩ (fun past t _ h => ?_)
    fun past t hs h _ => ⟨h.1.step hs, h.2.step hs h.1⟩
  rw [← Bool.not_eq_true]
  constructor
  · intro hlong hends
    exact absurd (hlong hends) (not_le.mpr (trainedFor_lt_of_endsTraining h.2 hends))
  · intro hnot hends
    exact absurd hends hnot

set_option maxRecDepth 10000 in
open Scenario in
/-- The theorem at the training of the node. -/
theorem trains_long_enough_iff_training :
    ∃ tr s, NodeRun .aexNotify Scenario.boot tr s ∧ s.node.clockState = .taConsistent ∧
      ¬ EachStep TrainsLongEnough tr := by
  obtain ⟨tr, s, hrun, hs⟩ := exists_run_of_exec (System.step .aexNotify) Scenario.boot miscounted
    (fun tr s => s.node.clockState = .taConsistent ∧ ¬ ∀ t ∈ tr, NodeStep.endsTraining t = false)
    (by decide +kernel)
  obtain ⟨htrust, hends⟩ := hs
  exact ⟨tr, s, hrun, htrust, (trains_long_enough_iff initial_boot hrun).not.mpr hends⟩

set_option maxRecDepth 10000 in
open Scenario in
/-- The first training of a node ends with the 24th answer after the one that started it, each
    worth four seconds. -/
theorem trained_too_short :
    ¬ ∀ (b : Build) (s₀ s : System) (tr : List NodeStep), s₀.Initial → NodeRun b s₀ tr s →
        EachStep TrainsLongEnough tr := by
  intro h
  obtain ⟨tr, t, hrun, hstep, -, ht⟩ := exists_step_of_exec (System.step .aexNotify)
    Scenario.boot (calibrated ++
      List.replicate 24 (.recv (driftAnswer ⟨1005, 0⟩) ⟨"127.0.0.1", 12340⟩ (reading 0)) ++
      [.monitor (reading 10000000000), .monitor (reading 10500000000),
        .monitor (reading 12000000000)])
    (.recv (driftAnswer ⟨1006, 0⟩) ⟨"127.0.0.1", 12340⟩ (reading 0))
    (fun tr t => ¬ TrainsLongEnough tr t ∧ trainedFor (tr ++ [t]) = 96) (by decide +kernel)
  exact ht.1 (h .aexNotify _ _ _ initial_boot (.snoc hrun hstep)).last

end TriHaRd
