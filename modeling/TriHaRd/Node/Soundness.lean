-- SUMMARY: Every program of a node keeps the contract.
import TriHaRd.Node.Contract

/-!
# The programs keep the contract

Most programs make only accesses that the contract does not mention. The others
read the clock, step it, store a verdict on it, or wait for it.
-/

namespace TriHaRd

open Truncate SharedMemory Lts

namespace Code

-- ---------------------------------------------------------------------------
-- Mild programs
-- ---------------------------------------------------------------------------

section Mild

variable {Q : Unit → Prop} (hQ : Q ())

theorem mild_sendMessage {Q : ℤ → Prop} (hQ : ∀ retval, Q retval) (buff : List UInt8) (dst : Addr) :
    (sendMessage buff dst).Each Mild Q := by
  simp [sendMessage, get, put, Store.mild, hQ]

include hQ in
theorem mild_sendEach (buff : List UInt8) (siblings : List Peer) :
    (sendEach buff siblings).Each Mild Q := by
  induction siblings with
  | nil => simpa [sendEach] using hQ
  | cons peer siblings ih =>
      simp only [sendEach, Prog.each_bind]
      exact mild_sendMessage (fun _ => ih) buff peer.toAddr

include hQ in
theorem mild_addSibling (addr : Addr) (sendOk : Bool) : (addSibling addr sendOk).Each Mild Q := by
  simp [addSibling, get, put, Prog.store, Store.mild, hQ]

include hQ in
theorem mild_handleSibling (src : Addr) : (handleSibling src).Each Mild Q := by
  simp [handleSibling, get, put, Prog.store, Store.mild, hQ]

include hQ in
theorem mild_handleUntaint (buff : List UInt8) (src : Addr) :
    (handleUntaint buff src).Each Mild Q := by
  simp [handleUntaint, recordUntaint, countQuorum, get, put, Prog.store, Store.mild, hQ]

include hQ in
theorem mild_aexHandler : aexHandler.Each Mild Q := by
  simp [aexHandler, get, put, rdtscp, Prog.store, Store.mild, hQ]

include hQ in
theorem mild_selfTaint : selfTaint.Each Mild Q := by
  simp [selfTaint, countAex, get, put, Prog.store, Store.mild, hQ]

theorem mild_discalibrated {Q : Bool → Prop} (hQ : ∀ off, Q off) (memTotalAexCount : ℤ) :
    (discalibrated memTotalAexCount).Each Mild Q := by
  simp [discalibrated, get, hQ]

include hQ in
theorem mild_endCounting (memTotalAexCount : ℤ) : (endCounting memTotalAexCount).Each Mild Q := by
  simp [endCounting, get, put, Prog.store, Store.mild, hQ, mild_selfTaint, mild_discalibrated]

include hQ in
theorem mild_endPolling (b : Build) (delta : ℤ) : (endPolling b delta).Each Mild Q := by
  simp [endPolling, countAex, get, put, Prog.store, Store.mild, hQ, mild_selfTaint]

theorem mild_enterRound {Q : MonitorPc → Prop} (hQ : ∀ pc, pc ≠ .start → Q pc) (b : Build)
    (caller : Caller) : (enterRound b caller).Each Mild Q := by
  cases b <;> simp [enterRound, get, rdtscp, hQ]

end Mild

-- ---------------------------------------------------------------------------
-- Sections of the clock
-- ---------------------------------------------------------------------------

variable {T : Terms} {i : NodeThread} {s : Memory}

/-- What a client has found that reads the clock as `r`. -/
structure Carries (T : Terms) (r : Reader) (s : Memory) : Prop where
  flags : r.fit = true → ∀ f, T.relied f s
  stop : ∀ held, r = .released held → s.stop = true

theorem carries_task : Carries T .task s where
  flags h := by cases h
  stop _ h := by cases h

theorem Carries.relies {r : Reader} {s' : Memory} {place : Place} (h : Carries T r s)
    (hplace : ∀ f, place.found f = r.fit) (hs : Relies T i (some place) s s') :
    Carries T r s' where
  flags hfit f := hs.flags place rfl f ((hplace f).trans hfit) (h.flags hfit f)
  stop held hr := hs.stop (h.stop held hr)

theorem Carries.read {r : Reader} (h : Carries T r s) (tscRef : ℤ) (tsRef : Timespec) :
    Carries T r { s with tscRef := tscRef, tsRef := tsRef } where
  flags hfit f := T.relied_read f s tscRef tsRef (h.flags hfit f)
  stop := h.stop

/-- A read of the clock returns what it leaves in `ts_ref`. -/
theorem sound_readClock {r : Reader} (h : Carries T r s) :
    Sound T i (fun ts s' => Carries T r s' ∧ (T.apart → s'.started = true → ts.ns = s'.tsRef.ns))
      (readClock r) s := by
  unfold readClock
  refine Sound.load fun s₁ h₁ _ _ => Sound.load fun s₂ h₂ k₂ _ => Sound.load fun s₃ h₃ k₃ _ =>
    Sound.load fun s₄ h₄ _ _ => Sound.load fun s₅ h₅ k₅ _ => Sound.load fun s₆ h₆ _ _ =>
    Sound.load fun s₇ h₇ k₇ _ => Sound.store fun s₈ h₈ _ =>
    ⟨?_, Sound.store fun s₉ h₉ _ => ⟨?_, ?_⟩⟩
  -- from the first access on, the others leave the clock alone
  · refine .of_calm (by simp [Store.calm]) fun hT => ⟨by simp, fun v hv => ⟨rfl, fun hs => ?_⟩,
      by simp, by simp, by simp⟩
    obtain ⟨_, _, hstarted, htsc⟩ := (h₇.trans h₈).clock hT _ rfl rfl
    obtain rfl := Store.tscRef.inj (Option.some.inj hv)
    rw [(k₇.time hT).2.1, add_zero]
    exact htsc (hstarted.symm.trans hs)
  · refine .of_calm (by simp [Store.calm]) fun hT => ⟨fun ts hts => ⟨rfl, fun hs _ => ?_⟩, by simp,
      by simp, by simp, by simp⟩
    obtain rfl := Store.tsRef.inj (Option.some.inj hts)
    obtain ⟨htsRef₉, _, hstarted₉, _⟩ := h₉.clock hT _ rfl rfl
    obtain ⟨htsRef₂, _, hstarted₂, _⟩ := h₂.clock hT _ rfl rfl
    obtain ⟨_, htscRef₄, _, _⟩ := (h₃.trans h₄).clock hT _ rfl rfl
    obtain ⟨_, _, hstarted₅, _⟩ := ((h₃.trans h₄).trans h₅).clock hT _ rfl rfl
    obtain ⟨htsRef₈, _, hstarted₈, _⟩ :=
      (((((h₃.trans h₄).trans h₅).trans h₆).trans h₇).trans h₈).clock hT _ rfl rfl
    have hs₂ : s₂.started = true := hstarted₈.symm.trans (hstarted₉.symm.trans hs)
    have hfreq : 0 < s₅.tscFreq := ((k₅.time hT).2.2 (hstarted₅.trans hs₂)).1
    have helapsed : s₄.tscRef ≤ s₂.tsc + s₃.tscOffset := by
      rw [htscRef₄, (k₃.time hT).2.1, add_zero]
      exact ((k₂.time hT).2.2 hs₂).2.1
    have hforward : 0 ≤ truncate ((s₂.tsc + s₃.tscOffset - s₄.tscRef : ℤ) / s₅.tscFreq) := by
      refine truncate_nonneg (div_nonneg ?_ hfreq.le)
      exact_mod_cast sub_nonneg.mpr helapsed
    have hsame : s₉.tsRef = s₁.tsRef := htsRef₉.trans (htsRef₈.trans htsRef₂)
    rw [hsame, Timespec.ns_addNsec]
    omega
  · refine ⟨?_, fun _ _ => rfl⟩
    have hread := (h.relies (fun _ => rfl) h₁).relies (fun _ => rfl)
      ((((((h₂.trans h₃).trans h₄).trans h₅).trans h₆).trans h₇).trans h₈)
    exact ((hread.read _ s₈.tsRef).relies (fun _ => rfl) h₉).read s₉.tscRef _

/-- A client that is let out returns what it reads. -/
theorem sound_serve {r : Reader} {Q : Option Timespec → Memory → Prop} (hQ : ∀ ts s, Q ts s)
    (hr : r ≠ .task) (h : Carries T r s) (hunheld : T.unheld → r.fit = true) :
    Sound T i Q (awaitClock.serve r) s := by
  unfold awaitClock.serve
  refine Prog.safe_bind.mpr ((sound_readClock h).mono fun ts s' ⟨hcarries, hts⟩ => ?_)
  refine Sound.store fun s'' hs k => ⟨?_, hQ _ _⟩
  have hcarries' := hcarries.relies (fun _ => rfl) hs
  constructor
  case served =>
    intro ts' hts'
    refine ⟨r, rfl, hcarries'.flags, hunheld, fun hT hstarted => ?_⟩
    cases r with
    | task => exact absurd rfl hr
    | satisfied => rfl
    | released held =>
        have hstop := hcarries'.stop held rfl
        rw [((k.time hT).2.2 hstarted).2.2] at hstop
        cases hstop
  case time =>
    refine fun hT => ⟨by simp, by simp, by simp, by simp, fun ts' hts' hstarted => ?_⟩
    obtain ⟨htsRef, _, hsame, _⟩ := hs.clock hT _ rfl rfl
    obtain rfl := Event.served.inj (Store.event.inj (Option.some.inj hts'))
    rw [htsRef]
    exact hts hT (hsame.symm.trans hstarted)
  all_goals simp

/-- `should_stop()` lets a client out. -/
theorem sound_orStop {held : Bool} {Q : Option Timespec → Memory → Prop} (hQ : ∀ ts s, Q ts s)
    (h : held = false → ∀ f, T.relied f s) : Sound T i Q (awaitClock.orStop held) s := by
  unfold awaitClock.orStop
  refine Sound.load fun s' hs k _ => Sound.ite (fun hstop => ?_) fun _ => hQ _ _
  refine sound_serve hQ (by simp) ⟨fun hfit f => ?_, fun _ _ => hstop⟩ fun hunheld => ?_
  · have hheld : held = false := by simpa [Reader.fit] using hfit
    exact hs.flags _ rfl f (by simp [Place.found, hheld]) (h hheld f)
  · cases held with
    | false => rfl
    | true =>
        rw [k.unheld hunheld rfl] at hstop
        cases hstop

/-- Each test of a flag that lets the client go on adds to what it counts on. -/
theorem sound_awaitClock {Q : Option Timespec → Memory → Prop} (hQ : ∀ ts s, Q ts s) (memTsc : ℤ) :
    Sound T i Q (awaitClock memTsc) s := by
  unfold awaitClock
  have hheld (s : Memory) : Sound T i Q (awaitClock.orStop true) s := sound_orStop hQ (by simp)
  refine Sound.load fun s₁ _ k₁ _ => Sound.ite (fun _ => hheld s₁) fun hcalib => ?_
  refine Sound.load fun s₂ h₂ k₂ _ => Sound.ite (fun _ => hheld s₂) fun hclock => ?_
  refine Sound.load fun s₃ h₃ k₃ _ => Sound.ite (fun _ => hheld s₃) fun htainted => ?_
  have hgood₁ : T.relied .calibCount s₁ := k₁.relied .calibCount (by simpa [Flag.good] using hcalib)
  have hgood₂ : T.relied .clockState s₂ := k₂.relied .clockState (by simpa [Flag.good] using hclock)
  have hgood₃ : T.relied .tainted s₃ := k₃.relied .tainted (by simpa [Flag.good] using htainted)
  have hall : ∀ f, T.relied f s₃ := by
    intro f
    cases f with
    | calibCount => exact h₃.flags _ rfl _ rfl (h₂.flags _ rfl _ rfl hgood₁)
    | clockState => exact h₃.flags _ rfl _ rfl hgood₂
    | tainted => exact hgood₃
  refine Sound.load fun s₄ h₄ _ _ => ?_
  have hall₄ : ∀ f, T.relied f s₄ := fun f => h₄.flags _ rfl f rfl (hall f)
  refine Sound.ite (fun _ => sound_orStop hQ fun _ => hall₄) fun _ => ?_
  refine Sound.load fun s₅ h₅ _ _ => Sound.load fun s₆ h₆ _ _ => ?_
  have hall₆ : ∀ f, T.relied f s₆ := fun f => (h₅.trans h₆).flags _ rfl f rfl (hall₄ f)
  refine Sound.ite (fun _ => sound_orStop hQ fun _ => hall₆) fun _ => ?_
  exact sound_serve hQ (by simp) ⟨fun _ => hall₆, fun _ h => by cases h⟩ fun _ => rfl

/-- An honest node has no shadow clock. -/
theorem sound_shadowTscUpdate {Q : Unit → Memory → Prop} (hQ : ∀ s, Q () s) :
    Sound T i Q shadowTscUpdate s := by
  unfold shadowTscUpdate
  refine Sound.load fun s₁ _ k₁ _ => Sound.ite (fun hattacker => ?_) fun _ => hQ _
  have hT : ¬ T.apart := fun hT => Bool.false_ne_true ((k₁.time hT).1.symm.trans hattacker)
  have hcalm {place : Place} {op : Store} (hop : op.calm = true) (s : Memory) :
      Keeps T i place (some op) s := .of_calm (by simpa using hop) fun h => absurd h hT
  refine Sound.load fun _ _ _ _ => Sound.load fun _ _ _ _ => Sound.load fun _ _ _ _ =>
    Sound.store fun _ _ _ => ⟨hcalm rfl _, Sound.load fun _ _ _ _ => Sound.store fun _ _ _ =>
    ⟨hcalm rfl _, Sound.load fun _ _ _ _ => Sound.store fun _ _ _ => ⟨hcalm rfl _, ?_⟩⟩⟩
  exact Sound.of_mild_any (fun _ => hQ) (by simp [get, put, Prog.store, Store.mild])

-- ---------------------------------------------------------------------------
-- Stepping the clock
-- ---------------------------------------------------------------------------

/-- Outside `FREQ_STATE` the offset is not negative. -/
def Forward (s : Memory) : Prop := s.nodeState ≠ .freq → 0 ≤ s.clockOffset.ns

/-- Only the receiver's own thread sets the offset, and leaves `FREQ_STATE`. -/
theorem Forward.relies {s' : Memory} {place : Option Place} (h : Forward s)
    (hs : Relies T .receiver place s s') : Forward s' := by
  obtain ⟨hoffset, hfreq⟩ := hs.receiver rfl
  intro hstate
  rw [hoffset]
  exact h (mt hfreq hstate)

theorem sound_stepClock {Q : Unit → Memory → Prop} (hQ : ∀ s, Q () s) (h : Forward s) :
    Sound T .receiver Q stepClock s := by
  unfold stepClock
  refine Sound.load fun s₁ h₁ _ _ => Sound.load fun s₂ h₂ _ _ => Sound.store fun s₃ h₃ _ => ⟨?_, ?_⟩
  · refine .of_calm (by simp [Store.calm]) fun hT => ⟨fun ts hts => ⟨rfl, fun _ hstate => ?_⟩,
      by simp, by simp, by simp, by simp⟩
    obtain rfl := Store.tsRef.inj (Option.some.inj hts)
    obtain ⟨htsRef, _⟩ := (h₂.trans h₃).clock hT _ rfl rfl
    have hforward := ((h.relies h₁).relies h₂).relies h₃ hstate
    rw [htsRef, Timespec.ns_add, ← (h₃.receiver rfl).1]
    omega
  · refine Sound.store fun s₄ _ _ => ⟨?_, ?_⟩
    · constructor
      case time => exact fun _ => ⟨by simp, by simp, by simp, by simp, by simp⟩
      all_goals simp
    · exact Sound.of_mild_any (fun _ => hQ) (by simp [get, put, Prog.store, Store.mild])

theorem sound_disciplineClock {Q : Unit → Memory → Prop} (hQ : ∀ s, Q () s) :
    Sound T .receiver Q disciplineClock s := by
  unfold disciplineClock
  refine Sound.get fun _ _ => Sound.get fun _ _ => Sound.get fun _ _ => Sound.get fun _ _ => ?_
  refine Sound.mild (R := fun _ => True) (by simp [get, put, Prog.store, Store.mild])
    fun _ _ _ => ?_
  refine Sound.get fun _ _ => Sound.get fun _ _ => Sound.get fun _ _ => Sound.put rfl fun _ _ =>
    Sound.get fun s _ => Prog.safe_bind.mpr ?_
  have hrest (s : Memory) : Sound T .receiver Q (do
      let tsc ← get (·.tsc)
      put (.lastUpdateTsc tsc)) s := by
    exact Sound.of_mild_any (fun _ => hQ) (by simp [get, put, Prog.store, Store.mild])
  refine Sound.ite (fun hpos => sound_stepClock hrest fun _ => ?_) fun _ => hrest s
  have hns := (Timespec.lt_iff_ns ⟨0, 0⟩ s.clockOffset).mp hpos
  exact le_of_lt (by simpa [Timespec.ns] using hns)

/-- What case 'D' stores in `node_state` is up to it. -/
theorem keeps_nodeState {place : Place} (x : NodeState) :
    Keeps T .receiver place (some (.nodeState x)) s := by
  constructor
  case time => exact fun _ => ⟨by simp, by simp, by simp, by simp, by simp⟩
  all_goals simp

/-- The end of a step that takes the node to `SYNC_STATE`. -/
theorem sound_enterSync {Q : Unit → Memory → Prop} (hQ : ∀ s, Q () s) :
    Sound T .receiver Q (do
      put (.passCount 0)
      put (.nodeState .sync)) s :=
  Sound.put rfl fun _ _ => Sound.act fun _ _ _ => ⟨keeps_nodeState _, fun _ => hQ _⟩

theorem sound_selectClockSync {Q : Unit → Memory → Prop} (hQ : ∀ s, Q () s) :
    Sound T .receiver Q selectClockSync s := by
  unfold selectClockSync
  refine Prog.safe_bind.mpr (sound_disciplineClock fun s => ?_)
  exact Sound.of_mild_any (fun _ => hQ) (by simp [get, put, Prog.store, Store.mild])

theorem sound_selectClockSpik {Q : Unit → Memory → Prop} (hQ : ∀ s, Q () s) (timeConstant : ℤ) :
    Sound T .receiver Q (selectClockSpik timeConstant) s := by
  unfold selectClockSpik
  refine Sound.get fun _ _ => Sound.put rfl fun _ _ => Sound.get fun s₁ _ => ?_
  refine Sound.ite (fun _ => sound_enterSync hQ) fun hfloor => Sound.get fun s₂ h₂ => ?_
  refine Sound.ite (fun _ => Prog.safe_bind.mpr ?_) fun _ => hQ _
  refine sound_stepClock (fun _ => sound_enterSync hQ) (Forward.relies (s := s₁) (fun _ => ?_) h₂)
  rw [Timespec.le_iff_ns, not_le] at hfloor
  have hns : clockFloorNs < s₁.clockOffset.ns := by simpa [Timespec.ns] using hfloor
  rw [clockFloorNs] at hns
  omega

/-- In `FREQ_STATE` the clock may be stepped back. -/
theorem forward_of_freq (h : s.nodeState = .freq) : Forward s := fun hstate => absurd h hstate

theorem sound_finishTraining {Q : Unit → Memory → Prop} (hQ : ∀ s, Q () s)
    (h : s.nodeState = .freq) : Sound T .receiver Q finishTraining s := by
  unfold finishTraining
  refine Sound.get fun s₁ h₁ => Sound.get fun s₂ h₂ => Sound.put rfl fun s₃ h₃ =>
    Sound.get fun s₄ h₄ => Sound.get fun s₅ h₅ => Sound.get fun s₆ h₆ =>
    Sound.put rfl fun s₇ h₇ => ?_
  have hfreq₃ : s₃.nodeState = .freq := (((h₁.trans h₂).trans h₃).receiver rfl).2 h
  have hfreq₇ : s₇.nodeState = .freq :=
    (((((h₄.trans h₅).trans h₆).trans h₇)).receiver rfl).2 hfreq₃
  refine Prog.safe_bind.mpr (sound_stepClock (fun s => ?_) (forward_of_freq hfreq₇))
  refine Sound.put rfl fun _ _ => Sound.put rfl fun _ _ => Sound.store fun _ _ _ =>
    ⟨keeps_nodeState _, ?_⟩
  exact Sound.of_mild_any (fun _ => hQ) (by simp [put, Prog.store, Store.mild])

theorem sound_selectClockFreq {Q : Unit → Memory → Prop} (hQ : ∀ s, Q () s) (timeConstant : ℤ)
    (h : s.nodeState = .freq) : Sound T .receiver Q (selectClockFreq timeConstant) s := by
  unfold selectClockFreq
  refine Sound.get fun s₁ h₁ => Sound.put rfl fun s₂ h₂ => Sound.get fun s₃ h₃ => ?_
  have hfreq₂ : s₂.nodeState = .freq := ((h₁.trans h₂).receiver rfl).2 h
  have hfreq₃ : s₃.nodeState = .freq := (h₃.receiver rfl).2 hfreq₂
  refine Sound.ite (fun _ => Prog.safe_bind.mpr ?_) fun _ => Sound.get fun s₄ h₄ => ?_
  · refine sound_stepClock (fun s => ?_) (forward_of_freq hfreq₃)
    exact Sound.of_mild_any (fun _ => hQ) (by simp [get, put, Prog.store, Store.mild])
  · exact Sound.ite (fun _ => sound_finishTraining hQ ((h₄.receiver rfl).2 hfreq₃)) fun _ => hQ _

theorem sound_selectClock {Q : Unit → Memory → Prop} (hQ : ∀ s, Q () s) :
    Sound T .receiver Q selectClock s := by
  unfold selectClock
  refine Sound.get fun _ _ => Sound.get fun s₁ _ => ?_
  cases hstate : s₁.nodeState with
  | sync => exact sound_selectClockSync hQ
  | spik => exact sound_selectClockSpik hQ _
  | freq => exact sound_selectClockFreq hQ _ hstate

-- ---------------------------------------------------------------------------
-- Messages
-- ---------------------------------------------------------------------------

theorem sound_detectSpike {Q : Unit → Memory → Prop} (hQ : ∀ s, Q () s) :
    Sound T .receiver Q detectSpike s := by
  unfold detectSpike
  refine Sound.get fun _ _ => Sound.ite (fun _ => Sound.get fun _ _ => ?_) fun _ => hQ _
  exact Sound.ite (fun _ => Sound.act fun _ _ _ => ⟨keeps_nodeState _, fun _ => hQ _⟩) fun _ => hQ _

/-- The verdict is stored outside `FREQ_STATE` as long as the others do not enter it after the
    test. -/
theorem sound_judgeClock {Q : Unit → Memory → Prop} (hQ : ∀ s, Q () s) :
    Sound T .receiver Q judgeClock s := by
  unfold judgeClock
  refine Sound.get fun s₁ _ => Sound.ite (fun hstate => ?_) fun _ => hQ _
  refine Sound.load fun s₂ h₂ _ _ => Sound.load fun s₃ h₃ _ _ => ?_
  have hjudged {s₄ : Memory} (h₄ : Relies T .receiver (some .judging) s₃ s₄) (x : ClockState) :
      Keeps T .receiver .judging (some (.clockState x)) s₄ := by
    constructor
    case clockState => exact fun hT _ => ((h₂.trans h₃).trans h₄).judging hT rfl hstate
    case time => exact fun _ => ⟨by simp, by simp, by simp, by simp, by simp⟩
    all_goals simp
  exact Sound.ite (fun _ => Sound.act fun _ h₄ _ => ⟨hjudged h₄ _, fun _ => hQ _⟩)
    fun _ => Sound.act fun _ h₄ _ => ⟨hjudged h₄ _, fun _ => hQ _⟩

theorem sound_handleDrift {Q : Unit → Memory → Prop} (hQ : ∀ s, Q () s) (buff : List UInt8) :
    Sound T .receiver Q (handleDrift buff) s := by
  unfold handleDrift
  refine Sound.ite (fun _ => ?_) fun _ => hQ _
  refine Prog.safe_bind.mpr (sound_shadowTscUpdate fun s₁ => ?_)
  refine Prog.safe_bind.mpr ((sound_readClock carries_task).mono fun ts s₂ _ => ?_)
  refine Sound.store fun s₃ _ _ => ⟨?_, ?_⟩
  · constructor
    case time => exact fun _ => ⟨by simp, by simp, by simp, by simp, by simp⟩
    all_goals simp
  refine Prog.safe_bind.mpr (sound_detectSpike fun _ => ?_)
  refine Prog.safe_bind.mpr (sound_judgeClock fun _ => ?_)
  refine Prog.safe_bind.mpr (sound_selectClock fun _ => ?_)
  exact Sound.of_mild_any (fun _ => hQ) (by simp [get, put, Prog.store, Store.mild])

theorem sound_handleTainted {Q : ℤ → Memory → Prop} (hQ : ∀ retval s, Q retval s)
    (buff : List UInt8) (src : Addr) : Sound T i Q (handleTainted buff src) s := by
  unfold handleTainted
  refine Sound.get fun s₁ _ => ?_
  split
  case h_1 => exact hQ _ _
  case h_2 sibling _ =>
    refine Sound.ite (fun _ => hQ _ _) fun _ => Sound.get fun s₂ _ => ?_
    refine Sound.ite (fun _ => Prog.safe_bind.mpr ?_) fun _ => hQ _ _
    have hanswer (s : Memory) : Sound T i Q (do
        let recTs ← readClock .task
        let msg := readTainted buff
        let sibling ← get fun s => (Table.lookup Peer.toAddr src s.siblings).getD sibling
        let xmtTs ← readClock .task
        sendMessage
          (buildUntaint msg.count sibling.lastTsIsConsistent.2 msg.orgTs recTs xmtTs) src) s := by
      refine Prog.safe_bind.mpr ((sound_readClock carries_task).mono fun _ _ _ => ?_)
      refine Sound.get fun _ _ => ?_
      refine Prog.safe_bind.mpr ((sound_readClock carries_task).mono fun _ _ _ => ?_)
      exact Sound.of_mild_any hQ (mild_sendMessage (fun _ => trivial) _ _)
    exact Sound.ite (fun _ => sound_shadowTscUpdate hanswer) fun _ => hanswer s₂

theorem sound_handleMessage {Q : ℤ → Memory → Prop} (hQ : ∀ retval s, Q retval s)
    (buff : List UInt8) (src : Addr) : Sound T .receiver Q (handleMessage buff src) s := by
  unfold handleMessage
  split
  case h_1 => exact hQ _ _
  case h_2 tag tail =>
    have hmild {p : Code Unit} (hp : p.Each Mild fun _ => True) (s : Memory) :
        Sound T .receiver Q (p >>= fun _ => .ret success) s :=
      Sound.mild hp fun _ s _ => hQ success s
    refine Sound.ite (fun _ => hmild (mild_handleSibling trivial src) s) fun _ => ?_
    refine Sound.ite (fun _ => sound_handleTainted hQ _ src) fun _ => ?_
    refine Sound.ite (fun _ => hmild (mild_handleUntaint trivial _ src) s) fun _ => ?_
    refine Sound.ite (fun _ => Prog.safe_bind.mpr (sound_handleDrift (fun s => hQ success s) _))
      fun _ => ?_
    exact Sound.of_mild_any hQ (mild_sendMessage (fun _ => trivial) _ _)

theorem sound_sendRecvDriftMessage {Q : Unit → Memory → Prop} (hQ : ∀ s, Q () s)
    (sleepTimeMs sleepMs : ℤ) : Sound T i Q (sendRecvDriftMessage sleepTimeMs sleepMs) s := by
  unfold sendRecvDriftMessage
  refine Sound.get fun _ _ => Prog.safe_bind.mpr (sound_shadowTscUpdate fun _ => ?_)
  refine Prog.safe_bind.mpr ((sound_readClock carries_task).mono fun _ _ _ => ?_)
  refine Sound.of_mild_any (fun _ => hQ) ?_
  simp [get, put, Prog.store, Store.mild, mild_sendMessage]

theorem sound_sendTaintedMessages {Q : Unit → Memory → Prop} (hQ : ∀ s, Q () s) :
    Sound T i Q sendTaintedMessages s := by
  unfold sendTaintedMessages
  refine Sound.get fun _ _ => Prog.safe_bind.mpr ?_
  refine (sound_readClock carries_task).mono fun _ _ _ => ?_
  exact Sound.of_mild_any (fun _ => hQ) (by simp [get, put, Prog.store, Store.mild, mild_sendEach])

-- ---------------------------------------------------------------------------
-- The tasks
-- ---------------------------------------------------------------------------

theorem sound_ntp {Q : Unit → Memory → Prop} (hQ : ∀ s, Q () s) : Sound T i Q ntp s := by
  unfold ntp
  refine Sound.get fun _ _ => Sound.put rfl fun _ _ => Sound.get fun _ _ => Sound.get fun _ _ => ?_
  refine Sound.ite (fun _ => Sound.put rfl fun _ _ => Sound.get fun _ _ => ?_) fun _ => hQ _
  exact sound_sendRecvDriftMessage hQ _ _

theorem sound_monitorNtp {Q : Unit → Memory → Prop} (hQ : ∀ s, Q () s) :
    Sound T i Q monitorNtp s := by
  unfold monitorNtp
  have hrest (s : Memory) : Sound T i Q (do
      let ntpStep ← get (·.statics.ntpStep)
      put (.ntpStep (ntpStep + 1))) s := by
    exact Sound.of_mild_any (fun _ => hQ) (by simp [get, put, Prog.store, Store.mild])
  refine Sound.get fun s₁ _ => Prog.safe_bind.mpr (Sound.ite (fun _ => ?_) fun _ => hrest s₁)
  exact Prog.safe_bind.mpr (sound_ntp fun _ => Sound.act fun _ _ _ =>
    ⟨.of_mild (mild_some.mpr rfl), fun _ => hrest _⟩)

/-- The monitor starts the clock, and nobody else. -/
theorem sound_initClock {Q : Unit → Memory → Prop} (hQ : ∀ s, Q () s) (h : s.started = false) :
    Sound T .monitor Q initClock s := by
  unfold initClock
  refine Sound.load fun s₁ h₁ _ _ => Sound.store fun s₂ h₂ _ => ⟨?_, Sound.load fun s₃ h₃ _ _ =>
    Sound.store fun s₄ h₄ _ => ⟨?_, Sound.load fun s₅ h₅ _ _ => Sound.store fun s₆ h₆ _ =>
    ⟨?_, ?_⟩⟩⟩
  · have hstarted : s₂.started = false := (h₂.monitor rfl).trans ((h₁.monitor rfl).trans h)
    refine .of_calm (by simp [Store.calm]) fun _ => ⟨fun _ _ => ⟨rfl, fun hs => ?_⟩, by simp,
      by simp, by simp, by simp⟩
    rw [hstarted] at hs
    cases hs
  · have hstarted : s₄.started = false :=
      ((h₃.trans h₄).monitor rfl).trans ((h₂.monitor rfl).trans ((h₁.monitor rfl).trans h))
    refine .of_calm (by simp [Store.calm]) fun _ => ⟨by simp, fun _ _ => ⟨rfl, fun hs => ?_⟩,
      by simp, by simp, by simp⟩
    rw [hstarted] at hs
    cases hs
  · constructor
    case time =>
      refine fun hT => ⟨by simp, by simp, fun v hv => ⟨rfl, ?_⟩, by simp, by simp⟩
      obtain rfl := Store.initTsc.inj (Option.some.inj hv)
      exact (h₆.clock hT _ rfl rfl).2.1.le
    all_goals simp
  · exact Sound.of_mild_any (fun _ => hQ) (by simp [get, put, Prog.store, Store.mild])

theorem sound_monitor {Q : MonitorPc → Memory → Prop} (hQ : ∀ pc s, pc ≠ .start → Q pc s)
    (b : Build) {pc : MonitorPc} (h : pc = .start → s.started = false) :
    Sound T .monitor Q (monitor b pc) s := by
  have hmild {p : Code MonitorPc} (hp : p.Each Mild (· ≠ .start)) (s : Memory) :
      Sound T .monitor Q p s := (Sound.of_mild hp s).mono fun pc s hpc => hQ pc s hpc
  cases pc with
  | start => exact Prog.safe_bind.mpr (sound_initClock (fun s => hQ _ s (by simp)) (h rfl))
  | calibrateDrift =>
      exact Prog.safe_bind.mpr (sound_sendRecvDriftMessage (fun s => hQ _ s (by simp)) 0 0)
  | returned caller =>
      cases caller with
      | monitor => exact Prog.safe_bind.mpr (sound_monitorNtp fun s => hQ _ s (by simp))
      | calibrate i addCountSum =>
          refine hmild ?_ s
          simp [monitor, get, put, Store.mild]
  | counted caller memTotalAexCount =>
      refine hmild ?_ s
      simp [monitor, mild_endCounting]
  | polling caller stopTsc a =>
      refine hmild ?_ s
      simp [monitor, get, put, rdtscp, Store.mild, mild_endPolling]
  | loop =>
      refine hmild ?_ s
      simp [monitor, shouldStop, get, put, Store.mild, mild_enterRound]
  | calibrateCount i addCountSum =>
      refine hmild ?_ s
      simp [monitor, calibrated, shouldStop, get, put, Store.mild, mild_enterRound]
  | _ =>
      refine hmild ?_ s
      simp [monitor, put, rdtscp, Store.mild]

theorem sound_refresh {Q : RefreshPc → Memory → Prop} (hQ : ∀ pc s, Q pc s) (pc : RefreshPc) :
    Sound T i Q (refresh pc) s := by
  cases pc with
  | roundStart =>
      exact Prog.safe_bind.mpr (sound_shadowTscUpdate fun s => Sound.get fun _ _ => hQ _ _)
  | send memTotalAexCount =>
      exact Prog.safe_bind.mpr (sound_sendTaintedMessages fun s => Sound.get fun _ _ => hQ _ _)
  | _ =>
      refine Sound.of_mild_any hQ ?_
      simp [refresh, roundEnd, shouldStop, get, put, Store.mild]

theorem sound_loopRecvfrom {Q : Rest → Memory → Prop} (hdeaf : ∀ s, Q .deaf s)
    (hlistening : ∀ s, Q .listening s) : Sound T .receiver Q loopRecvfrom s := by
  have hleave (s : Memory) : Sound T .receiver Q loopRecvfrom.leave s :=
    Sound.put rfl fun _ _ => hdeaf _
  refine Sound.get fun s₁ _ => Sound.ite (fun _ => hleave s₁) fun _ => Sound.get fun s₂ _ => ?_
  refine Sound.ite (fun _ => hdeaf _) fun _ => Sound.load fun s₃ _ _ w => ?_
  split
  case h_1 payload src _ =>
    refine Prog.safe_bind.mpr (sound_handleMessage (fun retval s => ?_) payload src)
    exact Sound.ite (fun _ => hlistening s) fun _ => hleave s
  case h_2 => exact Sound.put rfl fun _ _ => Sound.put rfl fun _ _ => hlistening _
  case h_3 => exact hlistening _

end Code

open Code

variable {T : Terms} {i : NodeThread} {s : Memory}

/-- Where a thread may rest. The monitor is before its first step only as long as the clock has not
    started. -/
def NodeThread.MayRest (i : NodeThread) (rest : Rest) (s : Memory) : Prop :=
  match i, rest with
  | .monitor, .monitor pc => pc = .start → s.started = false
  | .handler _, .handler | .refresh, .refresh _ | .receiver, .listening | .receiver, .deaf
  | .trigger, .trigger | .trigger, .triggerDone | .application _, .application
  | .client _, .idle | .client _, .waiting _ => True
  | _, _ => False

/-- Every thread keeps the contract, whatever it does next. -/
theorem sound_body (b : Build) {rest : Rest} (h : i.MayRest rest s) (w : Outside) :
    Sound T i i.MayRest (body b rest w) s := by
  have hmild {p : Code Rest} {R : Rest → Prop} (hp : p.Each Mild R)
      (hR : ∀ k s, R k → i.MayRest k s) : Sound T i i.MayRest p s :=
    (Sound.of_mild hp s).mono fun k s hk => hR k s hk
  cases i with
  | monitor =>
      cases rest with
      | monitor pc =>
          exact Prog.safe_bind.mpr (sound_monitor (fun pc _ hpc h => absurd h hpc) b h)
      | _ => cases h
  | handler depth =>
      cases rest with
      | handler =>
          refine hmild (R := (· = .handler)) ?_ (by rintro _ _ rfl; trivial)
          simp [body, mild_aexHandler]
      | _ => cases h
  | refresh =>
      cases rest with
      | refresh pc => exact Prog.safe_bind.mpr (sound_refresh (fun _ _ => trivial) pc)
      | _ => cases h
  | receiver =>
      cases rest with
      | listening => exact sound_loopRecvfrom (fun _ => trivial) fun _ => trivial
      | deaf => exact h
      | _ => cases h
  | trigger =>
      cases rest with
      | trigger =>
          refine hmild (R := fun k => k = .trigger ∨ k = .triggerDone) ?_
            (by rintro _ _ (rfl | rfl) <;> trivial)
          simp [body, untaintTrigger, shouldStop, get, put, Store.mild]
      | triggerDone => exact h
      | _ => cases h
  | application n =>
      cases rest with
      | application =>
          refine hmild (R := (· = .application)) ?_ (by rintro _ _ rfl; trivial)
          simp only [body]
          split <;> simp [put, Store.mild, mild_addSibling]
      | _ => cases h
  | client n =>
      cases rest with
      | idle =>
          refine hmild (R := fun k => k = .idle ∨ ∃ memTsc, k = .waiting memTsc) ?_
            (by rintro _ _ (rfl | ⟨_, rfl⟩) <;> trivial)
          simp [body, get]
      | waiting memTsc =>
          refine Prog.safe_bind.mpr (sound_awaitClock (fun ts s => ?_) memTsc)
          cases ts <;> trivial
      | _ => cases h

-- ---------------------------------------------------------------------------
-- Runs
-- ---------------------------------------------------------------------------

/-- The other threads do not move the monitor's clock to its start. -/
theorem mayRest_stable {s' : Memory} {rest : Rest} (h : i.MayRest rest s)
    (hs : Relies T i none s s') : i.MayRest rest s' := by
  cases i with
  | monitor =>
      cases rest with
      | monitor pc => exact fun hpc => (hs.monitor rfl).trans (h hpc)
      | _ => cases h
  | _ => cases rest <;> exact h

/-- All threads of the node keep the contract from here on. -/
abbrev AllKeep (b : Build) (T : Terms) (c : NodePool) : Prop :=
  Kept (node b) (contract T) NodeThread.MayRest c

theorem allKeep_of_initial {b : Build} {c : NodePool} (h : c.Initial) : AllKeep b T c := by
  obtain ⟨_, _, _, _, _, _, _, rfl⟩ := h
  intro i
  show i.MayRest i.rest _
  cases i with
  | monitor => exact fun _ => rfl
  | _ => trivial

/-- Another thread than the one that moves stands at the place. -/
def StandsBy (t : Access) (p : Place) : Prop :=
  ∃ j, j ≠ t.act.thread ∧ (t.pre.threads j).place? = some p

/-- What a step has to leave alone, apart from what its thread guarantees. -/
structure Respects (T : Terms) (t : Access) (place : Place) (op : Option Store) : Prop where
  flags : ∀ p, StandsBy t p → ∀ f, p.found f = true →
    T.relied f t.pre.mem → T.relied f t.post.mem
  judging : T.judged → op = some (.nodeState .freq) → t.pre.mem.nodeState ≠ .freq →
    ¬ StandsBy t .judging
  time : T.apart → place.ofClock = true → ∀ p, StandsBy t p → p.within = false
  tsc : T.apart → t.pre.mem.started = true → t.pre.mem.tsc ≤ t.post.mem.tsc

/-- What the others rely on, a step leaves alone that respects them. -/
theorem Respects.relies {t : Access} {place : Place} {op : Store}
    (h : Respects T t place (some op)) (hkeeps : Keeps T t.act.thread place (some op) t.pre.mem)
    (hmem : t.post.mem = (op.exec t.pre.mem).1) {j : NodeThread} (hj : j ≠ t.act.thread) :
    Relies T j (t.pre.threads j).place? t.pre.mem t.post.mem where
  flags p hp f hf hs := h.flags p ⟨j, hj, hp⟩ f hf hs
  judging hT hplace hstate hpost := by
    by_cases hop : ∃ x, op = .nodeState x
    · obtain ⟨x, rfl⟩ := hop
      rw [hmem] at hpost
      obtain rfl : x = .freq := hpost
      exact h.judging hT rfl hstate ⟨j, hj, hplace⟩
    · rw [hmem, Store.exec_nodeState _ fun x hx => hop ⟨x, hx⟩] at hpost
      exact hstate hpost
  receiver hi := by
    have hother : t.act.thread ≠ .receiver := fun hthread => hj (hi.trans hthread.symm)
    constructor
    · rw [hmem, Store.exec_clockOffset]
      exact fun ts hts => hother (hkeeps.clockOffset ts (congrArg some hts))
    · intro hfreq
      by_cases hop : ∃ x, op = .nodeState x
      · obtain ⟨x, rfl⟩ := hop
        rw [hmem]
        exact (hkeeps.nodeState x rfl).resolve_left hother
      · rw [hmem, Store.exec_nodeState _ fun x hx => hop ⟨x, hx⟩]
        exact hfreq
  monitor hi := by
    rw [hmem, Store.exec_started]
    exact fun v hv => hj (hi.trans (hkeeps.initTsc v (congrArg some hv)).symm)
  stop hs := by
    rw [hmem]
    exact Store.exec_stop _ hs
  clock hT p hp hwithin := by
    have hclock : place.ofClock ≠ true := fun hclock => by
      rw [h.time hT hclock p ⟨j, hj, hp⟩] at hwithin
      cases hwithin
    have htime := hkeeps.time hT
    refine ⟨?_, ?_, ?_, h.tsc hT⟩
    · rw [hmem, Store.exec_tsRef]
      exact fun ts hts => hclock (htime.tsRef ts (congrArg some hts)).1
    · rw [hmem, Store.exec_tscRef]
      exact fun v hv => hclock (htime.tscRef v (congrArg some hv)).1
    · rw [hmem, Store.exec_started]
      exact fun v hv => hclock (htime.initTsc v (congrArg some hv)).1

/-- What a step of the node does to the memory, and what it shows. -/
theorem access_cases {b : Build} {t : Access} (hs : t.IsStep (node b).step) : ∃ place op,
    t.access? (node b) = some (place, op) ∧
      t.post.mem = (perform Store.exec op t.pre.mem).1 ∧
      t.events = (perform Store.exec op t.pre.mem).2 := by
  obtain ⟨place, op, _, _, haccess, _, hmem, hevents, _⟩ := Step.cases hs
  exact ⟨place, op, haccess, hmem, hevents⟩

/-- A step that respects the others keeps all contracts. -/
theorem AllKeep.step {b : Build} {t : Access} (h : AllKeep b T t.pre) (hs : t.IsStep (node b).step)
    {place : Place} {op : Option Store} (haccess : t.access? (node b) = some (place, op))
    (hmem : t.post.mem = (perform Store.exec op t.pre.mem).1) (hknows : Knows T place t.pre.mem) :
    Keeps T t.act.thread place op t.pre.mem ∧ (Respects T t place op → AllKeep b T t.post) := by
  obtain ⟨hkeeps, hkept⟩ := Kept.step h hs (fun i k w s hQ => sound_body b hQ w)
    (fun i k s s' hQ => mayRest_stable hQ) haccess hknows
  refine ⟨hkeeps, fun hrespects => hkept fun j hj => ?_⟩
  cases op with
  | none =>
      rw [show t.post.mem = t.pre.mem from hmem]
      exact .refl
  | some op => exact hrespects.relies hkeeps hmem hj

end TriHaRd
