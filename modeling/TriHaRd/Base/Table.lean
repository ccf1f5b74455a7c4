-- SUMMARY: Lists as tables with keys: looking an entry up, overwriting it, and counting the entries that meet a condition.
import Mathlib.Data.List.Basic
import Mathlib.Data.List.Nodup
import Mathlib.Data.List.Perm.Subperm

/-!
# Tables

A table is a list whose entries have a key. `lookup` and `update` act on the
first entry with the key, which is the only one when the keys are distinct.
-/

namespace Table

section Keys

variable {α κ : Type*} [DecidableEq κ] {key : α → κ} {k : κ} {f : α → α} {l : List α}

/-- The first entry with the key `k`. -/
def lookup (key : α → κ) (k : κ) (l : List α) : Option α :=
  l.find? fun x => key x = k

/-- The table with its first entry with the key `k` replaced by `f` of it. -/
def update (key : α → κ) (k : κ) (f : α → α) (l : List α) : List α :=
  l.replaceF fun x => if key x = k then some (f x) else none

/-! ## Looking up -/

theorem lookup_cons (x : α) (l : List α) :
    lookup key k (x :: l) = if key x = k then some x else lookup key k l := by
  by_cases h : key x = k <;> simp [lookup, h]

theorem mem_of_lookup {x : α} (h : lookup key k l = some x) : x ∈ l :=
  List.mem_of_find?_eq_some h

theorem key_of_lookup {x : α} (h : lookup key k l = some x) : key x = k := by
  simpa using List.find?_some h

theorem lookup_eq_none_iff : lookup key k l = none ↔ ∀ x ∈ l, key x ≠ k := by
  simp [lookup]

/-- With distinct keys, every entry is found under its own key. -/
theorem lookup_of_mem {x : α} (hnodup : (l.map key).Nodup) (hx : x ∈ l) :
    lookup key (key x) l = some x := by
  induction l with
  | nil => cases hx
  | cons y l ih =>
      rw [List.map_cons, List.nodup_cons] at hnodup
      rw [lookup_cons]
      rcases List.mem_cons.mp hx with rfl | hmem
      · rw [if_pos rfl]
      · have hne : key y ≠ key x := fun heq => hnodup.1 (heq ▸ List.mem_map_of_mem hmem)
        rw [if_neg hne, ih hnodup.2 hmem]

/-! ## Overwriting -/

theorem update_cons (x : α) (l : List α) :
    update key k f (x :: l) = if key x = k then f x :: l else x :: update key k f l := by
  by_cases h : key x = k <;> simp [update, h]

@[simp] theorem length_update (key : α → κ) (k : κ) (f : α → α) (l : List α) :
    (update key k f l).length = l.length := by
  induction l with
  | nil => rfl
  | cons x l ih =>
      rw [update_cons]
      split
      · rfl
      · rw [List.length_cons, List.length_cons, ih]

/-- Replacing an entry by itself changes nothing. -/
theorem update_eq_self (h : ∀ x, lookup key k l = some x → f x = x) : update key k f l = l := by
  induction l with
  | nil => rfl
  | cons x l ih =>
      rw [update_cons]
      split
      case isTrue hx => rw [h x (by rw [lookup_cons, if_pos hx])]
      case isFalse hx =>
        rw [ih fun y hy => h y (by rw [lookup_cons, if_neg hx, hy])]

/-- Only what replaces the entry counts. -/
theorem update_congr {g : α → α} (h : ∀ x, lookup key k l = some x → f x = g x) :
    update key k f l = update key k g l := by
  induction l with
  | nil => rfl
  | cons x l ih =>
      rw [update_cons, update_cons]
      split
      case isTrue hx => rw [h x (by rw [lookup_cons, if_pos hx])]
      case isFalse hx =>
        rw [ih fun y hy => h y (by rw [lookup_cons, if_neg hx, hy])]

/-- Overwriting an entry twice. -/
theorem update_update {g : α → α} (hf : ∀ x, key (f x) = key x) :
    update key k g (update key k f l) = update key k (g ∘ f) l := by
  induction l with
  | nil => rfl
  | cons x l ih =>
      by_cases hx : key x = k
      · simp only [update_cons, if_pos hx, hf, Function.comp_apply]
      · simp only [update_cons, if_neg hx, ih]

theorem map_key_update (hf : ∀ x, key (f x) = key x) : (update key k f l).map key = l.map key := by
  induction l with
  | nil => rfl
  | cons x l ih =>
      rw [update_cons]
      split
      · rw [List.map_cons, List.map_cons, hf]
      · rw [List.map_cons, List.map_cons, ih]

/-- The entry that is overwritten is found with its new contents, the others as they were. -/
theorem lookup_update (hf : ∀ x, key (f x) = key x) (k' : κ) :
    lookup key k' (update key k f l) =
      if k' = k then (lookup key k l).map f else lookup key k' l := by
  induction l with
  | nil => simp [update, lookup]
  | cons x l ih =>
      rw [update_cons]
      by_cases hx : key x = k
      · by_cases hk : k' = k
        · simp [lookup_cons, hx, hf, hk]
        · have hne : key x ≠ k' := fun heq => hk (heq.symm.trans hx)
          simp [lookup_cons, hx, hf, hk, Ne.symm hk]
      · rw [if_neg hx, lookup_cons, lookup_cons, lookup_cons, ih, if_neg hx]
        by_cases hk : k' = k
        · simp [hk, hx]
        · simp [hk]

/-- With distinct keys, overwriting acts on each entry by itself. -/
theorem update_eq_map (hnodup : (l.map key).Nodup) :
    update key k f l = l.map fun x => if key x = k then f x else x := by
  induction l with
  | nil => rfl
  | cons x l ih =>
      rw [List.map_cons, List.nodup_cons] at hnodup
      rw [update_cons, List.map_cons]
      split
      case isTrue hx =>
        have hrest : ∀ y ∈ l, key y ≠ k := fun y hy heq =>
          hnodup.1 ((hx.trans heq.symm) ▸ List.mem_map_of_mem hy)
        rw [List.map_congr_left fun y hy => if_neg (hrest y hy), List.map_id']
      case isFalse hx => rw [ih hnodup.2]

/-- Every entry of the new table is an old one, or the one that was overwritten. -/
theorem mem_update {y : α} (h : y ∈ update key k f l) :
    y ∈ l ∨ ∃ x, lookup key k l = some x ∧ y = f x := by
  induction l with
  | nil => exact .inl h
  | cons x l ih =>
      rw [update_cons] at h
      split at h
      case isTrue hx =>
        rcases List.mem_cons.mp h with rfl | hmem
        · exact .inr ⟨x, by rw [lookup_cons, if_pos hx], rfl⟩
        · exact .inl (List.mem_cons_of_mem x hmem)
      case isFalse hx =>
        rcases List.mem_cons.mp h with rfl | hmem
        · exact .inl List.mem_cons_self
        · rcases ih hmem with hold | ⟨z, hz, rfl⟩
          · exact .inl (List.mem_cons_of_mem x hold)
          · exact .inr ⟨z, by rw [lookup_cons, if_neg hx, hz], rfl⟩

/-- A new key at the end keeps the keys distinct. -/
theorem nodup_keys_append {x : α} (hnodup : (l.map key).Nodup) (hx : lookup key (key x) l = none) :
    ((l ++ [x]).map key).Nodup := by
  rw [List.map_append, List.map_singleton]
  refine List.nodup_append.mpr ⟨hnodup, List.nodup_singleton _, ?_⟩
  intro a ha b hb heq
  rw [List.mem_singleton.mp hb] at heq
  obtain ⟨y, hy, rfl⟩ := List.mem_map.mp ha
  exact lookup_eq_none_iff.mp hx y hy heq

end Keys

/-! ## Counting -/

section Counting

variable {α κ : Type*} {key : α → κ} {l : List α}

/-- A condition that no two different entries meet. -/
def AtMostOne (p : α → Prop) (l : List α) : Prop :=
  ∀ x ∈ l, ∀ y ∈ l, p x → p y → x = y

theorem countP_le_one_iff {p : α → Bool} (hnodup : l.Nodup) :
    l.countP p ≤ 1 ↔ AtMostOne (fun x => p x = true) l := by
  have hfilter := hnodup.filter p
  have hlength : l.countP p = (l.filter p).length := List.countP_eq_length_filter
  constructor
  · intro h x hx y hy hpx hpy
    have hmx : x ∈ l.filter p := List.mem_filter.mpr ⟨hx, hpx⟩
    have hmy : y ∈ l.filter p := List.mem_filter.mpr ⟨hy, hpy⟩
    match hl : l.filter p, hmx, hmy with
    | [z], hmx, hmy => exact (List.mem_singleton.mp hmx).trans (List.mem_singleton.mp hmy).symm
    | _ :: _ :: _, _, _ => simp [hlength, hl] at h
  · intro h
    match hl : l.filter p with
    | [] => simp [hlength, hl]
    | [_] => simp [hlength, hl]
    | x :: y :: rest =>
        have hmx := List.mem_filter.mp (hl ▸ List.mem_cons_self : x ∈ l.filter p)
        have hmy := List.mem_filter.mp
          (hl ▸ List.mem_cons_of_mem x List.mem_cons_self : y ∈ l.filter p)
        have heq : x = y := h x hmx.1 y hmy.1 hmx.2 hmy.2
        rw [hl, heq] at hfilter
        simp at hfilter

/-- All entries but one meet a condition just when no two different entries fail it. -/
theorem length_sub_one_le_countP_iff {p : α → Bool} (hnodup : l.Nodup) :
    l.length - 1 ≤ l.countP p ↔ AtMostOne (fun x => p x = false) l := by
  have hsum := List.length_eq_countP_add_countP p (l := l)
  have hnot := countP_le_one_iff (p := fun x => !p x) hnodup
  simp only [Bool.not_eq_eq_eq_not, Bool.not_true] at hnot
  simp only [Bool.not_eq_true, Bool.decide_eq_false] at hsum
  rw [← hnot]
  omega

/-- A list of different keys whose entries meet the condition is no longer than the count. -/
theorem length_le_countP (key : α → κ) {p : α → Bool} {ks : List κ} (hnodup : ks.Nodup)
    (h : ∀ k ∈ ks, ∃ x ∈ l, key x = k ∧ p x = true) : ks.length ≤ l.countP p := by
  have hsub : ks ⊆ (l.filter p).map key := by
    intro k hk
    obtain ⟨x, hx, rfl, hp⟩ := h k hk
    exact List.mem_map_of_mem (List.mem_filter.mpr ⟨hx, hp⟩)
  calc ks.length ≤ ((l.filter p).map key).length := (hnodup.subperm hsub).length_le
    _ = l.countP p := by rw [List.length_map, ← List.countP_eq_length_filter]

/-! Two conditions may each fail for one entry only, and still fail together for two. -/

/-- Different entries `a` and `b` are the only ones that fail `p` and `q`, in this order. -/
def SplitBy (p q : α → Bool) (l : List α) : Prop :=
  ∃ a ∈ l, ∃ b ∈ l, a ≠ b ∧ (∀ x ∈ l, p x = true ↔ x ≠ a) ∧ (∀ x ∈ l, q x = true ↔ x ≠ b)

theorem splitBy_of_not_atMostOne {p q : α → Bool} (hp : AtMostOne (fun x => p x = false) l)
    (hq : AtMostOne (fun x => q x = false) l)
    (hboth : ¬ AtMostOne (fun x => (p x && q x) = false) l) : SplitBy p q l := by
  simp only [AtMostOne, not_forall] at hboth
  obtain ⟨x, hx, y, hy, hfx, hfy, hne⟩ := hboth
  have honly : ∀ r : α → Bool, AtMostOne (fun x => r x = false) l → ∀ a ∈ l, r a = false →
      ∀ z ∈ l, r z = true ↔ z ≠ a := by
    intro r hr a ha hfa z hz
    constructor
    · rintro htrue rfl
      exact Bool.false_ne_true (hfa.symm.trans htrue)
    · intro hza
      by_contra hfalse
      exact hza (hr z hz a ha (Bool.eq_false_iff.mpr hfalse) hfa)
  cases hpx : p x with
  | false =>
      have hpy : p y = true := (honly p hp x hx hpx y hy).mpr (Ne.symm hne)
      have hqy : q y = false := by simpa [hpy] using hfy
      exact ⟨x, hx, y, hy, hne, honly p hp x hx hpx, honly q hq y hy hqy⟩
  | true =>
      have hqx : q x = false := by simpa [hpx] using hfx
      have hqy : q y = true := (honly q hq x hx hqx y hy).mpr (Ne.symm hne)
      have hpy : p y = false := by simpa [hqy] using hfy
      exact ⟨y, hy, x, hx, Ne.symm hne, honly p hp y hy hpy, honly q hq x hx hqx⟩

theorem SplitBy.atMostOne {p q : α → Bool} (h : SplitBy p q l) :
    AtMostOne (fun x => p x = false) l ∧ AtMostOne (fun x => q x = false) l ∧
      ¬ AtMostOne (fun x => (p x && q x) = false) l := by
  obtain ⟨a, ha, b, hb, hne, hp, hq⟩ := h
  have honly : ∀ (r : α → Bool) c, (∀ x ∈ l, r x = true ↔ x ≠ c) →
      ∀ x ∈ l, r x = false → x = c := by
    intro r c hr x hx hfalse
    by_contra hxc
    exact Bool.false_ne_true (hfalse.symm.trans ((hr x hx).mpr hxc))
  have hpa : p a = false := Bool.eq_false_iff.mpr fun htrue => (hp a ha).mp htrue rfl
  have hqb : q b = false := Bool.eq_false_iff.mpr fun htrue => (hq b hb).mp htrue rfl
  refine ⟨?_, ?_, ?_⟩
  · intro x hx y hy hfx hfy
    exact (honly p a hp x hx hfx).trans (honly p a hp y hy hfy).symm
  · intro x hx y hy hfx hfy
    exact (honly q b hq x hx hfx).trans (honly q b hq y hy hfy).symm
  · intro hone
    exact hne (hone a ha b hb (by simp [hpa]) (by simp [hqb]))

/-- When two counts are each one short of the table at most, and how far that is from
    counting the entries that meet both conditions. -/
theorem counts_without_common_iff {p q : α → Bool} (hnodup : l.Nodup) (hne : l ≠ []) :
    (l.length ≤ l.countP p + 1 ∧ l.length ≤ l.countP q + 1 ∧
        ¬ max 1 (l.length - 1) ≤ l.countP fun x => p x && q x) ↔
      (l.length = 1 ∧ ∃ x ∈ l, (p x && q x) = false) ∨ SplitBy p q l := by
  have hlength : 0 < l.length := List.length_pos_iff.mpr hne
  have hp := length_sub_one_le_countP_iff (p := p) hnodup
  have hq := length_sub_one_le_countP_iff (p := q) hnodup
  have hboth := length_sub_one_le_countP_iff (p := fun x => p x && q x) hnodup
  by_cases hone : l.length = 1
  · obtain ⟨x, rfl⟩ := List.length_eq_one_iff.mp hone
    have hnosplit : ¬ SplitBy p q [x] := by
      rintro ⟨a, ha, b, hb, hab, _⟩
      exact hab ((List.mem_singleton.mp ha).trans (List.mem_singleton.mp hb).symm)
    simp [hnosplit, List.countP_cons]
  · have hmax : max 1 (l.length - 1) = l.length - 1 := by omega
    rw [hmax, hboth]
    constructor
    · rintro ⟨hcp, hcq, hcommon⟩
      exact .inr (splitBy_of_not_atMostOne (hp.mp (by omega)) (hq.mp (by omega)) hcommon)
    · rintro (⟨h, _⟩ | hsplit)
      · exact absurd h hone
      · obtain ⟨hap, haq, hcommon⟩ := hsplit.atMostOne
        have hcp := hp.mpr hap
        have hcq := hq.mpr haq
        exact ⟨by omega, by omega, hcommon⟩

end Counting

end Table
