-- SUMMARY: Hexadecimal text, with separators between the bytes, and the longest such prefix of a text.
import Mathlib.Data.Fintype.Basic
import Mathlib.Data.List.Basic

/-!
# Hexadecimal text

A byte is two digits, of either case. Separators may stand between two bytes, not between the
digits of one.
-/

namespace Hex

/-- The value of a digit in ASCII. -/
def digit (c : UInt8) : Option UInt8 :=
  if 0x30 ≤ c ∧ c ≤ 0x39 then some (c - 0x30)
  else if 0x41 ≤ c ∧ c ≤ 0x46 then some (c - 0x37)
  else if 0x61 ≤ c ∧ c ≤ 0x66 then some (c - 0x57)
  else none

/-- The digits of a byte. -/
def digits (b : UInt8) : List UInt8 :=
  let ascii (n : UInt8) : UInt8 := if n < 10 then 0x30 + n else 0x57 + n
  [ascii (b / 16), ascii (b % 16)]

/-- The text stands for the bytes. -/
inductive Spells (sep : UInt8 → Prop) : List UInt8 → List UInt8 → Prop where
  | nil : Spells sep [] []
  | skip {c : UInt8} {text bytes : List UInt8} (hdigit : digit c = none) (hsep : sep c)
      (h : Spells sep text bytes) : Spells sep (c :: text) bytes
  | byte {hi lo high low : UInt8} {text bytes : List UInt8} (hhigh : digit hi = some high)
      (hlow : digit lo = some low) (h : Spells sep text bytes) :
      Spells sep (hi :: lo :: text) ((16 * high + low) :: bytes)

/-- Neither a byte nor a separator comes next. -/
def Ends (sep : UInt8 → Prop) (rest : List UInt8) : Prop :=
  ∀ c ∈ rest.head?, digit c = none ∧ ¬ sep c

/-- One digit comes next that is not the first half of a byte. -/
def Odd (rest : List UInt8) : Prop :=
  ∃ c tail, rest = c :: tail ∧ (digit c).isSome ∧ ∀ d ∈ tail.head?, digit d = none

/-- Another byte comes next. -/
def Another (rest : List UInt8) : Prop := ∃ c tail, rest = c :: tail ∧ (digit c).isSome

/-- A fact about all bytes can be decided. -/
theorem forall_byte {P : UInt8 → Prop} (h : ∀ n : Fin 256, P (UInt8.ofFin n)) (b : UInt8) : P b :=
  h b.toFin

theorem digits_byte (b : UInt8) : ∃ hi lo, digits b = [hi, lo] ∧ digit hi = some (b / 16) ∧
    digit lo = some (b % 16) ∧ 16 * (b / 16) + b % 16 = b := by
  have hhalves : ∀ b : UInt8, digit (digits b)[0]! = some (b / 16) ∧
      digit (digits b)[1]! = some (b % 16) ∧ 16 * (b / 16) + b % 16 = b :=
    forall_byte (by decide +kernel)
  exact ⟨_, _, rfl, hhalves b⟩

theorem spells_digits (sep : UInt8 → Prop) (bytes : List UInt8) :
    Spells sep (bytes.flatMap digits) bytes := by
  induction bytes with
  | nil => exact .nil
  | cons b bytes ih =>
      obtain ⟨hi, lo, hdigits, hhigh, hlow, hbyte⟩ := digits_byte b
      have hspells := Spells.byte hhigh hlow ih
      rw [hbyte] at hspells
      rwa [List.flatMap_cons, hdigits]

theorem length_digits (bytes : List UInt8) : (bytes.flatMap digits).length = 2 * bytes.length := by
  induction bytes with
  | nil => rfl
  | cons b bytes ih =>
      rw [List.flatMap_cons, List.length_append, ih, List.length_cons, digits]
      simp only [List.length_cons, List.length_nil]
      omega

/-- Where the reading of a text ends if there is room for so many bytes. -/
theorem exists_spelling (sep : UInt8 → Prop) [DecidablePred sep] (room : ℕ) (text : List UInt8) :
    ∃ read rest bytes, text = read ++ rest ∧ Spells sep read bytes ∧ bytes.length ≤ room ∧
      (Ends sep rest ∨ bytes.length = room ∧ Another rest ∨ bytes.length < room ∧ Odd rest) := by
  match text with
  | [] => exact ⟨[], [], [], rfl, .nil, Nat.zero_le _, .inl nofun⟩
  | c :: text =>
      cases hdigit : digit c with
      | none =>
          by_cases hsep : sep c
          · obtain ⟨read, rest, bytes, rfl, hspells, hroom, hend⟩ := exists_spelling sep room text
            exact ⟨c :: read, rest, bytes, rfl, .skip hdigit hsep hspells, hroom, hend⟩
          · refine ⟨[], c :: text, [], rfl, .nil, Nat.zero_le _, .inl fun d hd => ?_⟩
            cases hd
            exact ⟨hdigit, hsep⟩
      | some high =>
          have hsome : (digit c).isSome := by rw [hdigit]; rfl
          cases room with
          | zero => exact ⟨[], _, [], rfl, .nil, Nat.le_refl _,
              .inr (.inl ⟨rfl, c, text, rfl, hsome⟩)⟩
          | succ room =>
              match text with
              | [] =>
                  exact ⟨[], _, [], rfl, .nil, Nat.zero_le _,
                    .inr (.inr ⟨Nat.succ_pos _, c, [], rfl, hsome, nofun⟩)⟩
              | d :: text =>
                  cases hlow : digit d with
                  | none =>
                      refine ⟨[], _, [], rfl, .nil, Nat.zero_le _,
                        .inr (.inr ⟨Nat.succ_pos _, c, d :: text, rfl, hsome, fun e he => ?_⟩)⟩
                      cases he
                      exact hlow
                  | some low =>
                      obtain ⟨read, rest, bytes, rfl, hspells, hroom, hend⟩ :=
                        exists_spelling sep room text
                      refine ⟨c :: d :: read, rest, _, rfl, .byte hdigit hlow hspells,
                        Nat.succ_le_succ hroom, hend.imp_right (.imp ?_ ?_)⟩
                      · exact fun h => ⟨congrArg Nat.succ h.1, h.2⟩
                      · exact fun h => ⟨Nat.succ_lt_succ h.1, h.2⟩
termination_by text.length

end Hex
