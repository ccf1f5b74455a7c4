-- SUMMARY: Two nodes constructed on different memories, and when they behave in the same way.
import TriHaRd.Isolation.Footprint

/-!
# Leftover memory

The constructor leaves eleven members to what the memory held. `monitor` sets the
four readings before its first round, and four others are set by the steps that
use them. Nobody sets `calib_msg_count`. A node behaves as it would on another
memory as long as it uses none of the eleven in which the memories differ before
something has been stored there.
-/

namespace TriHaRd

open Lts

/-- The step uses no member in which the memories have left different values, unless something
    has been stored there since. -/
def UsesNoLeftover (b : Build) (mem mem' : ENode) (past : List ShutdownStep)
    (t : ShutdownStep) : Prop :=
  ∀ m : Member, m.isStatic = false → t.pre.uses b t.act m = true →
    mem.contents m = mem'.contents m ∨ ∃ u ∈ past, u.pre.fixes b u.act m = true

instance (b : Build) (mem mem' : ENode) :
    DecidablePred (Function.uncurry (UsesNoLeftover b mem mem')) := fun (past, t) =>
  inferInstanceAs (Decidable (∀ m : Member, m.isStatic = false → t.pre.uses b t.act m = true →
    mem.contents m = mem'.contents m ∨ ∃ u ∈ past, u.pre.fixes b u.act m = true))

/-- The two steps have the same label and show the same, and leave every task of the one where
    that of the other is. -/
structure SameBehaviour (t t' : ShutdownStep) : Prop where
  act : t'.act = t.act
  events : t'.events = t.events
  monitor : t'.post.system.monitor = t.post.system.monitor
  refresh : t'.post.system.refresh = t.post.system.refresh
  listening : t'.post.system.listening = t.post.system.listening
  stopTasks : t'.post.pc = t.post.pc

theorem SameBehaviour.of_alike {t t' : ShutdownStep} (h : Confined.Alike Shutdown.lens t t') :
    SameBehaviour t t' := by
  obtain ⟨hact, hevents, _, y, hpost⟩ := h
  rw [Shutdown.lens] at hpost
  refine ⟨hact, hevents, ?_, ?_, ?_, ?_⟩ <;> rw [hpost] <;> rfl

section

variable {b : Build} {mem mem' : ENode} {port : UInt16} {tscFreq shadowTscFreq : ℚ}
  {sleepAttackMs : ℤ} {timeAuthority : Addr} {fd : ℤ}

/-- The constructor leaves to the memory what is not static. -/
theorem contents_construct (mem : ENode) {m : Member} (hm : m.isStatic = false) :
    (ENode.construct mem .init port tscFreq shadowTscFreq sleepAttackMs timeAuthority fd).contents
      m = mem.contents m := by
  cases m <;> first | rfl | cases hm

/-- A fresh enclave sets what is static. -/
theorem contents_construct_static (mem mem' : ENode) {m : Member} (hm : m.isStatic = true) :
    (ENode.construct mem .init port tscFreq shadowTscFreq sleepAttackMs timeAuthority fd).contents
        m =
      (ENode.construct mem' .init port tscFreq shadowTscFreq sleepAttackMs timeAuthority
        fd).contents m := by
  cases m <;> first | rfl | cases hm

end

namespace Scenario

/-- Memory that held a count of 100 uninterrupted rounds. -/
def counting : ENode := { zeroed with nbUninterrRounds := 100 }

/-- A node constructed on the memory. -/
def constructedOn (mem : ENode) : Shutdown :=
  .initial (.boot (.construct mem .init 12345 2 2 0 ⟨"127.0.0.1", 12340⟩ 3))

/-- The first round of a calibration, with an interruption or without, and the round after it. -/
def firstRounds (interrupted : Bool) : List ShutdownAction :=
  List.map .task ([.monitor (reading 0), .monitor (reading 0), .monitor (reading 0)] ++
    (if interrupted then [.aex (reading 500)] else []) ++
    [.monitor (reading 1000000000), .monitor (reading 1000000000),
      .monitor (reading 1000000000)] ++ countingRound 1000000000 2000000000)

end Scenario

end TriHaRd
