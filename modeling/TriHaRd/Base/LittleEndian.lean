-- SUMMARY: Little-endian fixed-width encodings of naturals and two's-complement integers, and reading a field at an offset.
import Mathlib.Algebra.Order.Ring.Int
import Mathlib.Tactic.Ring

/-!
# Little-endian fields

A record that is copied to a byte buffer member by member is a concatenation of
fixed-width little-endian fields. `toBytes`/`ofBytes` are the unsigned ones,
`encodeInt`/`decodeInt` the two's-complement ones. `fieldAt` reads the bytes of a
field at an offset.
-/

namespace LittleEndian

/-- The `w` low bytes of `n`, least significant first. -/
def toBytes : ℕ → ℕ → List UInt8
  | 0, _ => []
  | w + 1, n => UInt8.ofNat (n % 256) :: toBytes w (n / 256)

/-- The number whose bytes, least significant first, are given. -/
def ofBytes : List UInt8 → ℕ
  | [] => 0
  | b :: bs => b.toNat + 256 * ofBytes bs

@[simp] theorem length_toBytes (w n : ℕ) : (toBytes w n).length = w := by
  induction w generalizing n with
  | zero => rfl
  | succ w ih => simp [toBytes, ih]

theorem ofBytes_toBytes (w n : ℕ) : ofBytes (toBytes w n) = n % 256 ^ w := by
  induction w generalizing n with
  | zero => simp [toBytes, ofBytes, Nat.mod_one]
  | succ w ih =>
      have hbyte : (UInt8.ofNat (n % 256)).toNat = n % 256 := by
        rw [UInt8.toNat_ofNat']
        exact Nat.mod_eq_of_lt (Nat.mod_lt n (by decide))
      rw [toBytes, ofBytes, ih, hbyte, pow_succ', Nat.mod_mul]

/-! ## Two's complement -/

/-- The `w`-byte two's-complement representation of `x`. -/
def encodeInt (w : ℕ) (x : ℤ) : List UInt8 :=
  toBytes w (x % (256 ^ w : ℕ)).toNat

/-- The integer that `w` bytes represent in two's complement. -/
def decodeInt (w : ℕ) (bs : List UInt8) : ℤ :=
  Int.bmod (ofBytes bs) (256 ^ w)

@[simp] theorem length_encodeInt (w : ℕ) (x : ℤ) : (encodeInt w x).length = w :=
  length_toBytes _ _

/-- Decoding gives back the integer, reduced to the range of `w` bytes. -/
theorem decodeInt_encodeInt (w : ℕ) (x : ℤ) :
    decodeInt w (encodeInt w x) = Int.bmod x (256 ^ w) := by
  have hpos : (0 : ℤ) < (256 ^ w : ℕ) := Int.natCast_pos.mpr (Nat.pow_pos (by decide))
  have hnonneg : 0 ≤ x % (256 ^ w : ℕ) := Int.emod_nonneg x hpos.ne'
  have hlt : (x % (256 ^ w : ℕ)).toNat < 256 ^ w := by
    have := Int.emod_lt_of_pos x hpos
    omega
  rw [decodeInt, encodeInt, ofBytes_toBytes, Nat.mod_eq_of_lt hlt, Int.toNat_of_nonneg hnonneg,
    Int.emod_bmod]

/-! ## Fields of a buffer -/

/-- The `len` bytes of the buffer from offset `off` on. -/
def fieldAt (buff : List UInt8) (off len : ℕ) : List UInt8 :=
  (buff.drop off).take len

/-- A field that is laid out after `init` is read back at the length of `init`. -/
theorem fieldAt_append {init field rest : List UInt8} {off len : ℕ}
    (hoff : init.length = off) (hlen : field.length = len) :
    fieldAt (init ++ (field ++ rest)) off len = field := by
  subst hoff hlen
  simp [fieldAt]

/-- A field does not depend on what follows the buffer. -/
theorem fieldAt_append_left {buff : List UInt8} {off len : ℕ} (h : off + len ≤ buff.length)
    (rest : List UInt8) : fieldAt (buff ++ rest) off len = fieldAt buff off len := by
  have hlen : len ≤ (buff.drop off).length := by
    rw [List.length_drop]
    omega
  rw [fieldAt, fieldAt, List.drop_append_of_le_length (by omega),
    List.take_append_of_le_length hlen]

end LittleEndian
