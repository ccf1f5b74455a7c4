-- SUMMARY: A register that keeps its newest entry: what a sequence of writes leaves in it.
import Mathlib.Order.Bounds.Basic
import Mathlib.Order.MinMax
import Mathlib.Data.List.Induction

/-!
# Registers

A register holds one entry, and entries have a stamp. A write replaces the entry
if its stamp is greater, so that of several writes with one stamp only the first
can be kept, and a write that is repeated does nothing.
-/

namespace Register

variable {α κ : Type*} [LinearOrder κ] {stamp : α → κ} {r w : α} {ws : List α}

/-- The register after the write `w`. -/
def write (stamp : α → κ) (r w : α) : α :=
  if stamp r < stamp w then w else r

/-- The register after the writes `ws`, in this order. -/
def writes (stamp : α → κ) (r : α) (ws : List α) : α :=
  ws.foldl (write stamp) r

theorem write_of_newer (h : stamp r < stamp w) : write stamp r w = w := if_pos h

theorem write_of_replayed (h : stamp w ≤ stamp r) : write stamp r w = r := if_neg (not_lt.mpr h)

@[simp] theorem writes_nil : writes stamp r [] = r := rfl

theorem writes_singleton : writes stamp r [w] = write stamp r w := rfl

theorem writes_snoc : writes stamp r (ws ++ [w]) = write stamp (writes stamp r ws) w := by
  simp [writes]

theorem stamp_write (stamp : α → κ) (r w : α) : stamp (write stamp r w) = max (stamp r) (stamp w) := by
  rcases lt_or_ge (stamp r) (stamp w) with h | h
  · rw [write_of_newer h, max_eq_right h.le]
  · rw [write_of_replayed h, max_eq_left h]

/-- The stamp ends as the greatest one seen. -/
theorem stamp_writes_isGreatest (stamp : α → κ) (r : α) (ws : List α) :
    IsGreatest {k | k = stamp r ∨ ∃ w ∈ ws, stamp w = k} (stamp (writes stamp r ws)) := by
  induction ws using List.reverseRecOn with
  | nil =>
      refine ⟨.inl rfl, ?_⟩
      rintro k (rfl | ⟨w, hw, _⟩)
      · exact le_refl _
      · cases hw
  | append_singleton ws w ih =>
      obtain ⟨hmem, hup⟩ := ih
      rw [writes_snoc, stamp_write stamp]
      constructor
      · rcases max_choice (stamp (writes stamp r ws)) (stamp w) with h | h
        · rw [h]
          exact hmem.imp_right fun ⟨u, hu, hk⟩ => ⟨u, List.mem_append_left _ hu, hk⟩
        · rw [h]
          exact .inr ⟨w, by simp, rfl⟩
      · rintro k (rfl | ⟨u, hu, rfl⟩)
        · exact (hup (.inl rfl)).trans (le_max_left _ _)
        · rcases List.mem_append.mp hu with hu | hu
          · exact (hup (.inr ⟨u, hu, rfl⟩)).trans (le_max_left _ _)
          · rw [List.mem_singleton.mp hu]
            exact le_max_right _ _

/-- The entry that is kept is the old one, or the first write with its stamp. -/
theorem writes_eq_or_first (stamp : α → κ) (r : α) (ws : List α) : writes stamp r ws = r ∨
    stamp r < stamp (writes stamp r ws) ∧ ∃ before after,
      ws = before ++ writes stamp r ws :: after ∧
        ∀ u ∈ before, stamp u < stamp (writes stamp r ws) := by
  induction ws using List.reverseRecOn with
  | nil => exact .inl rfl
  | append_singleton ws w ih =>
      rw [writes_snoc]
      rcases lt_or_ge (stamp (writes stamp r ws)) (stamp w) with h | h
      · -- a newer entry is the first with its stamp, as the stamp was smaller all along
        rw [write_of_newer h]
        obtain ⟨_, hup⟩ := stamp_writes_isGreatest stamp r ws
        refine .inr ⟨(hup (.inl rfl)).trans_lt h, ws, [], rfl, ?_⟩
        intro u hu
        exact (hup (.inr ⟨u, hu, rfl⟩)).trans_lt h
      · rw [write_of_replayed h]
        refine ih.imp_right ?_
        rintro ⟨hlt, before, after, hsplit, hbefore⟩
        refine ⟨hlt, before, after ++ [w], ?_, hbefore⟩
        rw [← List.cons_append, ← List.append_assoc, ← hsplit]

/-- An entry whose stamp did not change did not change. -/
theorem writes_eq_of_stamp_eq (h : stamp (writes stamp r ws) = stamp r) : writes stamp r ws = r := by
  rcases writes_eq_or_first stamp r ws with heq | ⟨hlt, _⟩
  · exact heq
  · exact absurd h hlt.ne'

end Register
