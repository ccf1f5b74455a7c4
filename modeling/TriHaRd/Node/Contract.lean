-- SUMMARY: What the threads of a node rely on between two accesses and guarantee of each, and that all their programs keep to it.
import TriHaRd.Node.Interleaving

/-!
# The contract

No lock stands between the tests of the wait loop and the return of a timestamp,
between the test of `node_state` and the verdict that follows from it, or around the
accesses to `ts_ref` and `tsc_ref`. Each of these is safe as far as the other threads
leave alone what has been read.

`Terms` says which of it a run may count on. The contract is the same for all of
them: every thread keeps it whenever the others keep what it relies on.
-/

namespace TriHaRd

open SharedMemory Lts

/-- What a run may count on. -/
structure Terms where
  /-- What a client counts on once it has found a flag good. -/
  relied : Flag → Memory → Prop
  /-- That the node does not go to `FREQ_STATE` before a verdict is stored. -/
  judged : Prop
  /-- That `stop` is not set when a client asks that a flag holds back. -/
  unheld : Prop
  /-- That the node is honest, and no section of the clock overlaps another. -/
  apart : Prop
  /-- A read of the clock does not matter to what the clients count on. -/
  relied_read : ∀ f (s : Memory) tscRef tsRef, relied f s →
    relied f { s with tscRef := tscRef, tsRef := tsRef }

/-- What the other threads leave alone while a thread stands at a place, or rests. -/
structure Relies (T : Terms) (i : NodeThread) (place : Option Place) (s s' : Memory) : Prop where
  flags : ∀ p ∈ place, ∀ f, p.found f = true → T.relied f s → T.relied f s'
  judging : T.judged → place = some .judging → s.nodeState ≠ .freq → s'.nodeState ≠ .freq
  receiver : i = .receiver →
    s'.clockOffset = s.clockOffset ∧ (s.nodeState = .freq → s'.nodeState = .freq)
  monitor : i = .monitor → s'.started = s.started
  stop : s.stop = true → s'.stop = true
  clock : T.apart → ∀ p ∈ place, p.within = true →
    s'.tsRef = s.tsRef ∧ s'.tscRef = s.tscRef ∧ s'.started = s.started ∧
      (s.started = true → s.tsc ≤ s'.tsc)

/-- What an access to the clock keeps to. -/
structure KeepsTime (place : Place) (op : Option Store) (s : Memory) : Prop where
  tsRef : ∀ ts, op = some (.tsRef ts) → place.ofClock = true ∧
    (s.started = true → s.nodeState ≠ .freq → s.tsRef.ns ≤ ts.ns)
  tscRef : ∀ v, op = some (.tscRef v) → place.ofClock = true ∧ (s.started = true → v ≤ s.tsc)
  initTsc : ∀ v, op = some (.initTsc v) → place.ofClock = true ∧ s.tscRef ≤ v
  tscOffset : ∀ n, op ≠ some (.tscOffset n)
  served : ∀ ts, op = some (.event (.served ts)) → s.started = true → ts.ns = s.tsRef.ns

/-- What an access keeps to. -/
structure Keeps (T : Terms) (i : NodeThread) (place : Place) (op : Option Store) (s : Memory) :
    Prop where
  clockState : T.judged → op = some (.clockState .taConsistent) → s.nodeState ≠ .freq
  served : ∀ ts, op = some (.event (.served ts)) → ∃ r, place = .returning r ∧
    (r.fit = true → ∀ f, T.relied f s) ∧ (T.unheld → r.fit = true) ∧
      (T.apart → s.started = true → r.fit = true)
  nodeState : ∀ x, op = some (.nodeState x) → i = .receiver ∨ x = .freq
  clockOffset : ∀ ts, op = some (.clockOffset ts) → i = .receiver
  initTsc : ∀ v, op = some (.initTsc v) → i = .monitor
  time : T.apart → KeepsTime place op s

/-- What a thread knows of the memory when it makes an access. -/
structure Knows (T : Terms) (place : Place) (s : Memory) : Prop where
  relied : ∀ f, f.good s.toENode = true → T.relied f s
  unheld : T.unheld → place = .stopTest true → s.stop = false
  time : T.apart → s.attacker = false ∧ s.tscOffset = 0 ∧
    (s.started = true → 0 < s.tscFreq ∧ s.tscRef ≤ s.tsc ∧ s.stop = false)

def contract (T : Terms) (i : NodeThread) : Contract Place Store Memory where
  rely := Relies T i
  guarantee := Keeps T i
  known := Knows T

/-- The program keeps the contract from here on, and ends with `Q`. -/
abbrev Sound {α : Type} (T : Terms) (i : NodeThread) (Q : α → Memory → Prop) (p : Code α)
    (s : Memory) : Prop :=
  p.Safe Store.exec (contract T i) Q s

-- ---------------------------------------------------------------------------
-- Relying
-- ---------------------------------------------------------------------------

namespace Relies

variable {T : Terms} {i : NodeThread} {place : Option Place} {s s' s'' : Memory}

theorem refl : Relies T i place s s where
  flags _ _ _ _ h := h
  judging _ _ h := h
  receiver _ := ⟨rfl, id⟩
  monitor _ := rfl
  stop h := h
  clock _ _ _ _ := ⟨rfl, rfl, rfl, fun _ => le_refl _⟩

theorem trans (h : Relies T i place s s') (h' : Relies T i place s' s'') :
    Relies T i place s s'' where
  flags p hp f hf hs := h'.flags p hp f hf (h.flags p hp f hf hs)
  judging hT hp hs := h'.judging hT hp (h.judging hT hp hs)
  receiver hi :=
    ⟨(h'.receiver hi).1.trans (h.receiver hi).1, fun hs => (h'.receiver hi).2 ((h.receiver hi).2 hs)⟩
  monitor hi := (h'.monitor hi).trans (h.monitor hi)
  stop hs := h'.stop (h.stop hs)
  clock hT p hp hwithin := by
    obtain ⟨htsRef, htscRef, hstarted, htsc⟩ := h.clock hT p hp hwithin
    obtain ⟨htsRef', htscRef', hstarted', htsc'⟩ := h'.clock hT p hp hwithin
    refine ⟨htsRef'.trans htsRef, htscRef'.trans htscRef, hstarted'.trans hstarted, fun hs => ?_⟩
    exact (htsc hs).trans (htsc' (hstarted.trans hs))

theorem of_star (h : Relation.ReflTransGen (Relies T i place) s s') : Relies T i place s s' := by
  induction h with
  | refl => exact refl
  | tail _ hlast ih => exact ih.trans hlast

end Relies

-- ---------------------------------------------------------------------------
-- Accesses that matter to nobody
-- ---------------------------------------------------------------------------

/-- The stores that the contract does not mention. -/
def Store.mild : Store → Bool
  | .nodeState x => x == .freq
  | .clockState x => x != .taConsistent
  | .event (.served _) => false
  | .clockOffset _ | .initTsc _ | .tscOffset _ | .tscRef _ | .tsRef _ => false
  | _ => true

/-- The same with the stores of a read of the clock, and of an attacker's shadow. -/
def Store.calm : Store → Bool
  | .tscOffset _ | .tscRef _ | .tsRef _ => true
  | op => op.mild

def Mild (_ : Place) (op : Option Store) : Prop := ∀ o ∈ op, o.mild = true

theorem Keeps.of_calm {T : Terms} {i : NodeThread} {place : Place} {op : Option Store} {s : Memory}
    (h : ∀ o ∈ op, o.calm = true) (htime : T.apart → KeepsTime place op s) :
    Keeps T i place op s where
  clockState _ hop := by simp [hop, Store.calm, Store.mild] at h
  served ts hop := by simp [hop, Store.calm, Store.mild] at h
  nodeState x hop := by
    right
    simpa [hop, Store.calm, Store.mild] using h
  clockOffset ts hop := by simp [hop, Store.calm, Store.mild] at h
  initTsc v hop := by simp [hop, Store.calm, Store.mild] at h
  time := htime

theorem Keeps.of_mild {T : Terms} {i : NodeThread} {place : Place} {op : Option Store} {s : Memory}
    (h : Mild place op) : Keeps T i place op s := by
  refine .of_calm (fun o ho => ?_) fun _ => ⟨?_, ?_, ?_, ?_, ?_⟩
  · have hmild := h o ho
    cases o <;> first | exact hmild | rfl
  all_goals
    intro v hop
    simp [hop, Mild, Store.mild] at h

@[simp] theorem mild_none {place : Place} : Mild place none := by
  intro o ho
  cases ho

@[simp] theorem mild_some {place : Place} {op : Store} : Mild place (some op) ↔ op.mild = true := by
  simp [Mild]

-- ---------------------------------------------------------------------------
-- What a store leaves alone
-- ---------------------------------------------------------------------------

namespace Store

variable {op : Store} (s : Memory)

theorem exec_nodeState (h : ∀ x, op ≠ .nodeState x) : (op.exec s).1.nodeState = s.nodeState := by
  cases op <;> first | rfl | exact absurd rfl (h _)

theorem exec_clockState (h : ∀ x, op ≠ .clockState x) : (op.exec s).1.clockState = s.clockState := by
  cases op <;> first | rfl | exact absurd rfl (h _)

theorem exec_clockOffset (h : ∀ ts, op ≠ .clockOffset ts) :
    (op.exec s).1.clockOffset = s.clockOffset := by
  cases op <;> first | rfl | exact absurd rfl (h _)

theorem exec_started (h : ∀ v, op ≠ .initTsc v) : (op.exec s).1.started = s.started := by
  cases op <;> first | rfl | exact absurd rfl (h _)

theorem exec_tsRef (h : ∀ ts, op ≠ .tsRef ts) : (op.exec s).1.tsRef = s.tsRef := by
  cases op <;> first | rfl | exact absurd rfl (h _)

theorem exec_tscRef (h : ∀ v, op ≠ .tscRef v) : (op.exec s).1.tscRef = s.tscRef := by
  cases op <;> first | rfl | exact absurd rfl (h _)

theorem exec_tscOffset (h : ∀ n, op ≠ .tscOffset n) : (op.exec s).1.tscOffset = s.tscOffset := by
  cases op <;> first | rfl | exact absurd rfl (h _)

theorem exec_attacker : (op.exec s).1.attacker = s.attacker := by
  cases op <;> rfl

/-- `stop` is never taken back. -/
theorem exec_stop (h : s.stop = true) : (op.exec s).1.stop = true := by
  cases op <;> first | exact h | rfl

/-- Only the stores to `tsc` move it. -/
theorem exec_tsc (h : ∀ v, op ≠ .tsc v) (hinit : ∀ v, op ≠ .initTsc v) :
    (op.exec s).1.tsc = s.tsc := by
  cases op <;> first | rfl | exact absurd rfl (h _) | exact absurd rfl (hinit _)

/-- A timestamp is served by the event that shows it. -/
theorem served_mem_exec {ts : Timespec} :
    .served ts ∈ (op.exec s).2 ↔ op = .event (.served ts) := by
  cases op with
  | event e => simp [exec, eq_comm]
  | tainted b => cases b <;> simp [exec]
  | _ => simp [exec]

end Store

-- ---------------------------------------------------------------------------
-- One access after the other
-- ---------------------------------------------------------------------------

namespace Sound

variable {T : Terms} {i : NodeThread} {α β : Type} {Q : α → Memory → Prop} {s : Memory}

theorem act {place : Place} {op : Option Store} {next : Outside → Memory → Code α}
    (h : ∀ s', Relies T i (some place) s s' → Knows T place s' → Keeps T i place op s' ∧
      ∀ w, Sound T i Q (next w s') (perform Store.exec op s').1) :
    Sound T i Q (.act place op next) s := by
  intro s' hs hknows w
  obtain ⟨hkeeps, hnext⟩ := h s' (.of_star hs) hknows
  exact ⟨hkeeps, hnext w⟩

theorem load {place : Place} {f : Outside → Memory → β} {k : β → Code α}
    (h : ∀ s', Relies T i (some place) s s' → Knows T place s' →
      ∀ w, Sound T i Q (k (f w s')) s') : Sound T i Q (.load place f >>= k) s :=
  act fun s' hs hknows => ⟨.of_mild mild_none, h s' hs hknows⟩

theorem store {place : Place} {op : Store} {k : Unit → Code α}
    (h : ∀ s', Relies T i (some place) s s' → Knows T place s' → Keeps T i place (some op) s' ∧
      Sound T i Q (k ()) (op.exec s').1) : Sound T i Q (.store place op >>= k) s :=
  act fun s' hs hknows => ⟨(h s' hs hknows).1, fun _ => (h s' hs hknows).2⟩

theorem get {f : Memory → β} {k : β → Code α} (h : ∀ s', Relies T i (some .plain) s s' →
    Sound T i Q (k (f s')) s') : Sound T i Q (TriHaRd.get f >>= k) s :=
  load fun s' hs _ _ => h s' hs

theorem put {op : Store} {k : Unit → Code α} (hop : op.mild = true)
    (h : ∀ s', Relies T i (some .plain) s s' → Sound T i Q (k ()) (op.exec s').1) :
    Sound T i Q (TriHaRd.put op >>= k) s :=
  store fun s' hs _ => ⟨.of_mild (mild_some.mpr hop), h s' hs⟩

theorem ite {c : Prop} [Decidable c] {p q : Code α} (hp : c → Sound T i Q p s)
    (hq : ¬ c → Sound T i Q q s) : Sound T i Q (if c then p else q) s := by
  split_ifs with hc
  · exact hp hc
  · exact hq hc

/-- A program of mild accesses is safe, and what it ends with holds of its result. -/
theorem of_mild {p : Code α} {Q : α → Prop} (h : p.Each Mild Q) (s : Memory) :
    Sound T i (fun a _ => Q a) p s :=
  Prog.Each.safe h (fun _ _ _ hmild _ => Keeps.of_mild hmild) s

/-- Where nobody cares what a mild program ends with. -/
theorem of_mild_any {p : Code α} (hQ : ∀ a s, Q a s) (h : p.Each Mild fun _ => True) :
    Sound T i Q p s :=
  (of_mild h s).mono fun a s _ => hQ a s

/-- What follows a mild program may only count on its result. -/
theorem mild {p : Code β} {k : β → Code α} {R : β → Prop} (hp : p.Each Mild R)
    (h : ∀ b s', R b → Sound T i Q (k b) s') : Sound T i Q (p >>= k) s :=
  Prog.safe_bind.mpr ((of_mild hp s).mono h)

end Sound

end TriHaRd
