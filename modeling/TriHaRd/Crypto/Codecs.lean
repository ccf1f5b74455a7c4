-- SUMMARY: The conversions between bytes and hexadecimal text with which the parties get their key, with arithmetic in place of branches.
import TriHaRd.Base.Hex

/-!
# Codecs

The constructor and the Time Authority read the key from a string constant with `sodium_hex2bin`.
The functions compare a character with the digits by subtracting and shifting: a difference that
wraps around has ones in its upper bytes. An `unsigned char` takes part in this as a 32-bit value.
-/

namespace TriHaRd.Codecs

open Hex

-- ---------------------------------------------------------------------------
-- sodium_bin2hex
-- ---------------------------------------------------------------------------

/-- `(unsigned char) (87U + n + (((n - 10U) >> 8) & ~38U))` -/
def hexDigit (n : UInt32) : UInt8 :=
  ((87 : UInt32) + n + (((n - 10) >>> 8) &&& ~~~(38 : UInt32))).toUInt8

/-- A round of the loop of `sodium_bin2hex`. -/
def hexByte (v : UInt8) : List UInt8 :=
  let c := (v &&& 0xf).toUInt32
  let b := (v >>> 4).toUInt32
  let x := (hexDigit c).toUInt32 <<< 8 ||| (hexDigit b).toUInt32
  [x.toUInt8, (x >>> 8).toUInt8]

/-- `SIZE_MAX` -/
def sizeMax : ℕ := 18446744073709551615

/-- `sodium_bin2hex`, with the array `hex` before and after. `none` is `sodium_misuse`. -/
def sodiumBin2hex (hex : List UInt8) (hexMaxlen : ℕ) (bin : List UInt8) : Option (List UInt8) :=
  if bin.length ≥ sizeMax / 2 ∨ hexMaxlen ≤ bin.length * 2 then none
  else some (bin.flatMap hexByte ++ [0] ++ hex.drop (bin.length * 2 + 1))

-- ---------------------------------------------------------------------------
-- sodium_hex2bin
-- ---------------------------------------------------------------------------

/-- The variables of `sodium_hex2bin`, and the array that it writes to. -/
structure Hex2bin where
  bin : List UInt8
  binPos : ℕ
  hexPos : ℕ
  ret : ℤ
  cAcc : UInt8
  state : UInt8
deriving DecidableEq, Repr

/-- `ignore != NULL && strchr(ignore, c) != NULL`. The zero at the end of the string counts. -/
def Ignored (ignore : Option (List UInt8)) (c : UInt8) : Prop :=
  ∃ chars ∈ ignore, c ∈ chars ∨ c = 0

instance (ignore : Option (List UInt8)) : DecidablePred (Ignored ignore) := fun c =>
  match ignore with
  | none => isFalse fun ⟨_, h, _⟩ => nomatch h
  | some chars => decidable_of_iff (c ∈ chars ∨ c = 0) (by simp [Ignored])

def cNum (c : UInt8) : UInt8 := c ^^^ 48

def cNum0 (c : UInt8) : UInt8 := (((cNum c).toUInt32 - 10) >>> 8).toUInt8

def cAlpha (c : UInt8) : UInt8 := ((c.toUInt32 &&& ~~~32) - 55).toUInt8

def cAlpha0 (c : UInt8) : UInt8 :=
  ((((cAlpha c).toUInt32 - 10) ^^^ ((cAlpha c).toUInt32 - 16)) >>> 8).toUInt8

def cVal (c : UInt8) : UInt8 := (cNum0 c &&& cNum c) ||| (cAlpha0 c &&& cAlpha c)

/-- The loop, on what is left of `hex`. -/
def hex2binLoop (binMaxlen : ℕ) (ignore : Option (List UInt8)) : List UInt8 → Hex2bin → Hex2bin
  | [], s => s
  | c :: hex, s =>
    if cNum0 c ||| cAlpha0 c = 0 then
      if s.state = 0 ∧ Ignored ignore c then
        hex2binLoop binMaxlen ignore hex { s with hexPos := s.hexPos + 1 }
      else s
    else if s.binPos ≥ binMaxlen then { s with ret := -1 }
    else
      let s :=
        if s.state = 0 then { s with cAcc := cVal c * 16 }
        else { s with bin := s.bin.set s.binPos (s.cAcc ||| cVal c), binPos := s.binPos + 1 }
      hex2binLoop binMaxlen ignore hex { s with state := ~~~s.state, hexPos := s.hexPos + 1 }

/-- `sodium_hex2bin`. In the end `binPos` is what goes to `bin_len`, if that is not `NULL`, and
    `hexPos` where `hex_end` points to, if `hexEnd` says that it is not. -/
def sodiumHex2bin (bin : List UInt8) (binMaxlen : ℕ) (hex : List UInt8)
    (ignore : Option (List UInt8)) (hexEnd : Bool) : Hex2bin :=
  let s := hex2binLoop binMaxlen ignore hex ⟨bin, 0, 0, 0, 0, 0⟩
  let s := if s.state ≠ 0 then { s with hexPos := s.hexPos - 1, ret := -1 } else s
  let s := if s.ret ≠ 0 then { s with binPos := 0 } else s
  if !hexEnd ∧ s.hexPos ≠ hex.length then { s with ret := -1 } else s

/-- The call has returned 0, with so many characters read and the bytes in front of what was in the
    array `bin`. -/
def Hex2bin.Yields (r : Hex2bin) (bin bytes : List UInt8) (k : ℕ) : Prop :=
  r.ret = 0 ∧ r.binPos = bytes.length ∧ r.bin = bytes ++ bin.drop bytes.length ∧ r.hexPos = k

-- ---------------------------------------------------------------------------
-- Characters
-- ---------------------------------------------------------------------------

theorem digit_eq_none_iff (c : UInt8) : digit c = none ↔ cNum0 c ||| cAlpha0 c = 0 :=
  forall_byte (P := fun c => digit c = none ↔ cNum0 c ||| cAlpha0 c = 0) (by decide +kernel) c

theorem cVal_of_digit (c : UInt8) : ∀ v ∈ digit c, cVal c = v ∧ v < 16 :=
  forall_byte (P := fun c => ∀ v ∈ digit c, cVal c = v ∧ v < 16) (by decide +kernel) c

theorem hexByte_eq (v : UInt8) : hexByte v = digits v :=
  forall_byte (P := fun v => hexByte v = digits v) (by decide +kernel) v

theorem shift_or_low {v w : UInt8} (hv : v < 16) (hw : w < 16) : v * 16 ||| w = 16 * v + w := by
  have hall : ∀ a b : Fin 16,
      UInt8.ofNat a * 16 ||| UInt8.ofNat b = 16 * UInt8.ofNat a + UInt8.ofNat b := by decide +kernel
  have heq := hall ⟨v.toNat, hv⟩ ⟨w.toNat, hw⟩
  simpa using heq

-- ---------------------------------------------------------------------------
-- The loop
-- ---------------------------------------------------------------------------

section Loop

variable {binMaxlen : ℕ} {ignore : Option (List UInt8)} {text bytes rest : List UInt8} {s : Hex2bin}

/-- The array with some bytes written at a position. -/
def overwrite (bin : List UInt8) (pos : ℕ) (bytes : List UInt8) : List UInt8 :=
  bin.take pos ++ (bytes ++ bin.drop (pos + bytes.length))

theorem overwrite_set {bin : List UInt8} {pos : ℕ} (h : pos < bin.length) (x : UInt8)
    (bytes : List UInt8) : overwrite (bin.set pos x) (pos + 1) bytes =
      overwrite bin pos (x :: bytes) := by
  have htake : (bin.set pos x).take (pos + 1) = bin.take pos ++ [x] := by
    rw [List.set_eq_take_append_cons_drop, if_pos h, List.take_append, List.length_take,
      Nat.min_eq_left h.le, List.take_of_length_le (by rw [List.length_take]; omega),
      Nat.add_sub_cancel_left]
    rfl
  rw [overwrite, overwrite, htake, List.drop_set_of_lt (by omega), List.append_assoc,
    List.length_cons, Nat.add_assoc, Nat.add_comm 1]
  rfl

/-- The variables after some text that stands for some bytes. -/
def Hex2bin.after (s : Hex2bin) (text bytes : List UInt8) (cAcc : UInt8) : Hex2bin :=
  { s with
    bin := overwrite s.bin s.binPos bytes
    binPos := s.binPos + bytes.length
    hexPos := s.hexPos + text.length
    cAcc := cAcc }

theorem loop_skip {c : UInt8} (hstate : s.state = 0) (hdigit : digit c = none)
    (hignored : Ignored ignore c) (rest : List UInt8) :
    hex2binLoop binMaxlen ignore (c :: rest) s =
      hex2binLoop binMaxlen ignore rest { s with hexPos := s.hexPos + 1 } := by
  rw [hex2binLoop, if_pos ((digit_eq_none_iff c).mp hdigit), if_pos ⟨hstate, hignored⟩]

theorem loop_high {c v : UInt8} (hstate : s.state = 0) (hdigit : digit c = some v)
    (hroom : s.binPos < binMaxlen) (rest : List UInt8) :
    hex2binLoop binMaxlen ignore (c :: rest) s = hex2binLoop binMaxlen ignore rest
      { s with cAcc := v * 16, state := 255, hexPos := s.hexPos + 1 } := by
  have hsome : ¬ cNum0 c ||| cAlpha0 c = 0 := by
    rw [← digit_eq_none_iff, hdigit]
    exact Option.some_ne_none v
  rw [hex2binLoop, if_neg hsome, if_neg (by omega), (cVal_of_digit c v hdigit).1]
  simp only [hstate, if_true]
  rfl

theorem loop_low {c v : UInt8} (hstate : s.state = 255) (hdigit : digit c = some v)
    (hroom : s.binPos < binMaxlen) (rest : List UInt8) :
    hex2binLoop binMaxlen ignore (c :: rest) s = hex2binLoop binMaxlen ignore rest
      { s with
        bin := s.bin.set s.binPos (s.cAcc ||| v)
        binPos := s.binPos + 1
        state := 0
        hexPos := s.hexPos + 1 } := by
  have hsome : ¬ cNum0 c ||| cAlpha0 c = 0 := by
    rw [← digit_eq_none_iff, hdigit]
    exact Option.some_ne_none v
  have hne : ¬ (255 : UInt8) = 0 := by decide
  rw [hex2binLoop, if_neg hsome, if_neg (by omega), (cVal_of_digit c v hdigit).1]
  simp only [hstate, if_neg hne]
  rfl

/-- Text that stands for bytes is read to its end if there is room for them. -/
theorem loop_spells (h : Spells (Ignored ignore) text bytes) (hstate : s.state = 0)
    (hroom : s.binPos + bytes.length ≤ binMaxlen) (hbin : binMaxlen ≤ s.bin.length)
    (rest : List UInt8) :
    ∃ cAcc, hex2binLoop binMaxlen ignore (text ++ rest) s =
      hex2binLoop binMaxlen ignore rest (s.after text bytes cAcc) := by
  induction h generalizing s with
  | nil =>
      refine ⟨s.cAcc, ?_⟩
      simp [Hex2bin.after, overwrite]
  | @skip c text bytes hdigit hignored _ ih =>
      obtain ⟨cAcc, hloop⟩ := ih (s := { s with hexPos := s.hexPos + 1 }) hstate hroom hbin
      refine ⟨cAcc, ?_⟩
      rw [List.cons_append, loop_skip hstate hdigit hignored, hloop]
      simp only [Hex2bin.after, List.length_cons]
      rw [Nat.add_assoc, Nat.add_comm 1]
  | @byte hi lo high low text bytes hhigh hlow _ ih =>
      rw [List.length_cons] at hroom
      have hvalue : high * 16 ||| low = 16 * high + low :=
        shift_or_low (cVal_of_digit hi high hhigh).2 (cVal_of_digit lo low hlow).2
      obtain ⟨cAcc, hloop⟩ := ih (s := ⟨s.bin.set s.binPos (16 * high + low), s.binPos + 1,
        s.hexPos + 1 + 1, s.ret, high * 16, 0⟩) rfl (by simp only; omega)
        (by rwa [List.length_set])
      refine ⟨cAcc, ?_⟩
      rw [List.cons_append, List.cons_append, loop_high hstate hhigh (by omega),
        loop_low rfl hlow (by simp only; omega)]
      simp only [hvalue]
      rw [hloop]
      have hlt : s.binPos < s.bin.length := by omega
      simp only [Hex2bin.after, List.length_cons, hstate, overwrite_set hlt]
      rw [Nat.add_assoc s.binPos, Nat.add_comm 1, Nat.add_assoc s.hexPos, Nat.add_assoc s.hexPos,
        Nat.add_comm (1 + 1)]

theorem loop_ends (h : Ends (Ignored ignore) rest) :
    hex2binLoop binMaxlen ignore rest s = s := by
  cases rest with
  | nil => rfl
  | cons c rest =>
      obtain ⟨hdigit, hignored⟩ := h c rfl
      rw [hex2binLoop, if_pos ((digit_eq_none_iff c).mp hdigit), if_neg fun hand => hignored hand.2]

theorem loop_odd (ignore : Option (List UInt8)) (hstate : s.state = 0)
    (hroom : s.binPos < binMaxlen) (h : Odd rest) :
    ∃ cAcc, hex2binLoop binMaxlen ignore rest s =
      { s with cAcc := cAcc, state := 255, hexPos := s.hexPos + 1 } := by
  obtain ⟨c, tail, rfl, hsome, htail⟩ := h
  obtain ⟨v, hdigit⟩ := Option.isSome_iff_exists.mp hsome
  refine ⟨v * 16, ?_⟩
  rw [loop_high hstate hdigit hroom]
  cases tail with
  | nil => rfl
  | cons d tail =>
      have hne : ¬ (255 : UInt8) = 0 := by decide
      rw [hex2binLoop, if_pos ((digit_eq_none_iff d).mp (htail d rfl)),
        if_neg fun hand => hne hand.1]

theorem loop_full (hroom : binMaxlen ≤ s.binPos) (h : Another rest) :
    hex2binLoop binMaxlen ignore rest s = { s with ret := -1 } := by
  obtain ⟨c, tail, rfl, hsome⟩ := h
  have hdigit : ¬ cNum0 c ||| cAlpha0 c = 0 := by
    rw [← digit_eq_none_iff]
    exact Option.ne_none_iff_isSome.mpr hsome
  rw [hex2binLoop, if_neg hdigit, if_pos hroom]

end Loop

-- ---------------------------------------------------------------------------
-- What is accepted
-- ---------------------------------------------------------------------------

section Accepted

variable {bin text rest bytes : List UInt8} {binMaxlen : ℕ} {ignore : Option (List UInt8)}

theorem hex2bin_of_ends (hbin : binMaxlen ≤ bin.length)
    (hspells : Spells (Ignored ignore) text bytes) (hroom : bytes.length ≤ binMaxlen)
    (hends : Ends (Ignored ignore) rest) (hexEnd : Bool) :
    let r := sodiumHex2bin bin binMaxlen (text ++ rest) ignore hexEnd
    r.ret = (if !hexEnd ∧ rest ≠ [] then -1 else 0) ∧ r.binPos = bytes.length ∧
      r.bin = bytes ++ bin.drop bytes.length ∧ r.hexPos = text.length := by
  obtain ⟨cAcc, hloop⟩ := loop_spells (s := ⟨bin, 0, 0, 0, 0, 0⟩) hspells rfl
    (by simpa using hroom) hbin rest
  rw [loop_ends hends] at hloop
  have hrest : text.length ≠ (text ++ rest).length ↔ rest ≠ [] := by
    rw [List.length_append, ← List.length_pos_iff]
    omega
  simp only [sodiumHex2bin, hloop, Hex2bin.after, overwrite, Nat.zero_add, hrest, ne_eq,
    not_true, if_false, List.take_zero, List.nil_append]
  split <;> exact ⟨rfl, rfl, rfl, rfl⟩

/-- Half a byte, or a byte too many, is an error. -/
theorem hex2bin_of_error (hbin : binMaxlen ≤ bin.length)
    (hspells : Spells (Ignored ignore) text bytes) (hroom : bytes.length ≤ binMaxlen)
    (herror : bytes.length = binMaxlen ∧ Another rest ∨ bytes.length < binMaxlen ∧ Odd rest)
    (hexEnd : Bool) :
    (sodiumHex2bin bin binMaxlen (text ++ rest) ignore hexEnd).ret = -1 := by
  obtain ⟨cAcc, hloop⟩ := loop_spells (s := ⟨bin, 0, 0, 0, 0, 0⟩) hspells rfl
    (by simpa using hroom) hbin rest
  rcases herror with ⟨hfull, hanother⟩ | ⟨hlt, hodd⟩
  · rw [loop_full (by simp [Hex2bin.after, hfull]) hanother] at hloop
    simp only [sodiumHex2bin, hloop, Hex2bin.after]
    split_ifs <;> rfl
  · obtain ⟨cAcc', hhalf⟩ := loop_odd ignore
      (s := Hex2bin.after ⟨bin, 0, 0, 0, 0, 0⟩ text bytes cAcc) rfl
      (by simpa [Hex2bin.after] using hlt) hodd
    rw [hhalf] at hloop
    simp only [sodiumHex2bin, hloop, Hex2bin.after]
    split_ifs <;> first | rfl | contradiction

/-- `sodium_hex2bin` succeeds with some bytes, having read so much of the text, if and only if
    that much of the text stands for the bytes, they fit, and no more can be read. Without
    `hex_end` that has to be the whole text. -/
theorem hex2bin_accepts_iff {hex : List UInt8} (hbin : binMaxlen ≤ bin.length)
    (ignore : Option (List UInt8)) (hexEnd : Bool) (bytes : List UInt8) (k : ℕ) :
    (sodiumHex2bin bin binMaxlen hex ignore hexEnd).Yields bin bytes k ↔
      k ≤ hex.length ∧ Spells (Ignored ignore) (hex.take k) bytes ∧ bytes.length ≤ binMaxlen ∧
        Ends (Ignored ignore) (hex.drop k) ∧ (hexEnd = false → k = hex.length) := by
  constructor
  · rintro ⟨hret, hbinPos, hbytes, hhexPos⟩
    obtain ⟨text, rest, bytes', rfl, hspells, hroom, hends | herror⟩ :=
      exists_spelling (Ignored ignore) binMaxlen hex
    · obtain ⟨hret', hbinPos', hbytes', hhexPos'⟩ :=
        hex2bin_of_ends hbin hspells hroom hends hexEnd
      have hlength : bytes.length = bytes'.length := hbinPos.symm.trans hbinPos'
      obtain rfl : bytes = bytes' :=
        (List.append_inj (hbytes.symm.trans hbytes') hlength).1
      obtain rfl : k = text.length := hhexPos.symm.trans hhexPos'
      have hwhole := hret.symm.trans hret'
      refine ⟨by simp, by rwa [List.take_left], hroom, by rwa [List.drop_left], fun hnone => ?_⟩
      by_contra hlt
      have hne : rest ≠ [] := by
        rintro rfl
        exact hlt (by simp)
      rw [if_pos ⟨by simpa using hnone, hne⟩] at hwhole
      cases hwhole
    · exact absurd (hret.symm.trans (hex2bin_of_error hbin hspells hroom herror hexEnd)) (by decide)
  · rintro ⟨hk, hspells, hroom, hends, hwhole⟩
    have hresult := hex2bin_of_ends hbin hspells hroom hends hexEnd
    have hrest : ¬ ((!hexEnd) = true ∧ hex.drop k ≠ []) := by
      rintro ⟨hnone, hne⟩
      rw [hwhole (by simpa using hnone), List.drop_length] at hne
      exact hne rfl
    rw [List.take_append_drop, if_neg hrest, List.length_take, Nat.min_eq_left hk] at hresult
    exact hresult

/-- The theorem at `0a:1B`, where colons are ignored. -/
theorem hex2bin_accepts_iff_colon :
    (sodiumHex2bin [7, 8, 9] 2 [0x30, 0x61, 0x3A, 0x31, 0x42] (some [0x3A]) false).Yields
      [7, 8, 9] [0x0A, 0x1B] 5 := by
  refine (hex2bin_accepts_iff (by decide) (some [0x3A]) false [0x0A, 0x1B] 5).mpr
    ⟨by decide, ?_, by decide, nofun, fun _ => rfl⟩
  have hcolon : Ignored (some [0x3A]) 0x3A := by decide
  have hspells : Spells (Ignored (some [0x3A])) [0x30, 0x61, 0x3A, 0x31, 0x42]
      [16 * 0 + 10, 16 * 1 + 11] := .byte rfl rfl (.skip rfl hcolon (.byte rfl rfl .nil))
  exact hspells

/-- What `sodium_bin2hex` writes, `sodium_hex2bin` reads, whatever it is told to ignore. -/
theorem hex2bin_bin2hex {hexMaxlen : ℕ} (hex : List UInt8) (hlength : bytes.length < sizeMax / 2)
    (hhex : bytes.length * 2 < hexMaxlen) (hroom : bytes.length ≤ binMaxlen)
    (hbin : binMaxlen ≤ bin.length) (ignore : Option (List UInt8)) (hexEnd : Bool) :
    ∃ out, sodiumBin2hex hex hexMaxlen bytes = some out ∧ out[bytes.length * 2]? = some 0 ∧
      (sodiumHex2bin bin binMaxlen (out.take (bytes.length * 2)) ignore hexEnd).Yields bin bytes
        (bytes.length * 2) := by
  have htext : bytes.flatMap hexByte = bytes.flatMap digits := by
    rw [show hexByte = digits from funext hexByte_eq]
  have htextLength : (bytes.flatMap digits).length = bytes.length * 2 := by
    rw [length_digits, Nat.mul_comm]
  refine ⟨_, if_neg (by omega), ?_, ?_⟩
  · rw [htext, List.append_assoc, List.getElem?_append_right htextLength.le, htextLength,
      Nat.sub_self]
    rfl
  · rw [htext, List.append_assoc, ← htextLength, List.take_left]
    have hends : Ends (Ignored ignore) [] := nofun
    have hresult := hex2bin_of_ends hbin (spells_digits (Ignored ignore) bytes) hroom hends hexEnd
    rw [List.append_nil, if_neg fun h => h.2 rfl] at hresult
    exact hresult

/-- The theorem at two bytes. -/
theorem hex2bin_bin2hex_twoBytes :
    ∃ out, sodiumBin2hex (List.replicate 5 0) 5 [0xB5, 0x2C] = some out ∧ out[4]? = some 0 ∧
      (sodiumHex2bin [0, 0] 2 (out.take 4) none false).Yields [0, 0] [0xB5, 0x2C] 4 :=
  hex2bin_bin2hex _ (by decide) (by decide) (by decide) (by decide) none false

end Accepted

end TriHaRd.Codecs
