-- SUMMARY: The vendored AES-256-GCM as the node calls it, with the tag behind the ciphertext.
import TriHaRd.Base.Aead
import TriHaRd.Crypto.Aes256Gcm

/-!
# Sealed messages

`crypto_aead_aes256gcm_encrypt` puts the tag behind the ciphertext, and
`crypto_aead_aes256gcm_decrypt` takes it off again. Up to the longest message that the code
allows they are the two directions of the mode in `Base/Gcm.lean`.
-/

namespace TriHaRd.Aesni

open Aes Gcm

-- ---------------------------------------------------------------------------
-- Tags at the end
-- ---------------------------------------------------------------------------

/-- `crypto_aead_aes256gcm_encrypt`, with the output and `*clen_p` -/
def aes256gcmEncrypt (m ad npub k : List UInt8) : Option (List UInt8 × ℕ) :=
  encryptAfternm m ad npub (beforenm k)

/-- `crypto_aead_aes256gcm_decrypt_afternm`, with the return code, `*mlen_p` and the buffer -/
def decryptAfternm (m : Option (List UInt8)) (c ad npub : List UInt8) (ctx : Aes256gcmState) :
    Option (ℤ × ℕ × Option (List UInt8)) :=
  if c.length ≥ 16 then
    let clen := c.length - 16
    (decryptDetachedAfternm m (c.take clen) (c.drop clen) ad npub ctx).map
      fun (ret, m) => (ret, if ret = 0 then clen else 0, m)
  else some (-1, 0, m)

/-- `crypto_aead_aes256gcm_decrypt` -/
def aes256gcmDecrypt (m : Option (List UInt8)) (c ad npub k : List UInt8) :
    Option (ℤ × ℕ × Option (List UInt8)) :=
  decryptAfternm m c ad npub (beforenm k)

/-- The ciphertext of AES-256-GCM and its tag. -/
def sealed (key npub ad m : List UInt8) : List UInt8 :=
  (Gcm.encrypt (cipher key) npub ad m).1 ++ (Gcm.encrypt (cipher key) npub ad m).2

/-- The message that has been sealed. -/
def unsealed (key npub ad c : List UInt8) : Option (List UInt8) :=
  if 16 ≤ c.length then
    Gcm.decrypt (cipher key) npub ad (c.take (c.length - 16)) (c.drop (c.length - 16))
  else none

section Sealed

variable {key npub ad m c : List UInt8}

@[simp] theorem length_sealed (key npub ad m : List UInt8) :
    (sealed key npub ad m).length = m.length + 16 := by
  simp [sealed, Gcm.encrypt]

theorem unsealed_eq_some_iff : unsealed key npub ad c = some m ↔ sealed key npub ad m = c := by
  rw [unsealed, Option.ite_none_right_eq_some, decrypt_eq_some_iff]
  constructor
  · rintro ⟨_, h⟩
    rw [sealed, h, List.take_append_drop]
  · rintro rfl
    have hlength : (sealed key npub ad m).length - 16 =
        (Gcm.encrypt (cipher key) npub ad m).1.length := by
      simp [Gcm.encrypt]
    refine ⟨by simp, ?_⟩
    rw [hlength, sealed, List.take_left, List.drop_left]

theorem length_of_unsealed (h : unsealed key npub ad c = some m) : c.length = m.length + 16 := by
  rw [← unsealed_eq_some_iff.mp h, length_sealed]

/-- What the decryption does to a buffer. -/
theorem decryptAfternm_eq (buffer : Option (List UInt8)) (key npub ad : List UInt8)
    (hc : c.length ≤ messagebytesMax + 16) :
    decryptAfternm buffer c ad npub (beforenm key) =
      some (match unsealed key npub ad c with
        | some m => (0, m.length, buffer.map fun b => m ++ b.drop m.length)
        | none => (-1, 0, buffer.map fun b =>
            List.replicate (c.length - 16) 0 ++ b.drop (c.length - 16))) := by
  rw [decryptAfternm]
  by_cases hlength : 16 ≤ c.length
  · have hclen : (c.take (c.length - 16)).length = c.length - 16 := by
      rw [List.length_take]
      omega
    have hmac : (c.drop (c.length - 16)).length = 16 := by
      rw [List.length_drop]
      omega
    rw [if_pos hlength]
    dsimp only
    rw [decryptDetachedAfternm_eq key npub buffer _ ad hmac, hclen, if_neg (by omega)]
    cases hm : unsealed key npub ad c with
    | none =>
        rw [unsealed, if_pos hlength] at hm
        rw [hm]
        rfl
    | some m =>
        have hmlen := length_of_unsealed hm
        rw [unsealed, if_pos hlength] at hm
        rw [hm, show c.length - 16 = m.length by omega]
        rfl
  · rw [if_neg hlength, unsealed, if_neg hlength, show c.length - 16 = 0 by omega]
    cases buffer <;> simp

theorem aes256gcmEncrypt_of_le (h : m.length ≤ messagebytesMax) :
    aes256gcmEncrypt m ad npub key = some (sealed key npub ad m, m.length + 16) := by
  rw [aes256gcmEncrypt, encryptAfternm, encryptDetachedAfternm_eq, if_neg (by omega)]
  rfl

theorem aes256gcmEncrypt_eq_some_iff (hc : c.length ≤ messagebytesMax + 16) :
    aes256gcmEncrypt m ad npub key = some (c, c.length) ↔ unsealed key npub ad c = some m := by
  rw [unsealed_eq_some_iff]
  constructor
  · intro h
    by_cases hle : m.length ≤ messagebytesMax
    · rw [aes256gcmEncrypt_of_le hle, Option.some.injEq, Prod.mk.injEq] at h
      exact h.1
    · rw [aes256gcmEncrypt, encryptAfternm, encryptDetachedAfternm_eq, if_pos (by omega)] at h
      cases h
  · rintro rfl
    rw [length_sealed] at hc ⊢
    exact aes256gcmEncrypt_of_le (by omega)

/-- The loops over eight and four blocks, the multiplications with one reduction and the key
    expansion with shuffles come to the encryption of the mode, for every key, nonce, associated
    data and message. -/
theorem encrypt_gcm (key npub ad m : List UInt8) :
    aes256gcmEncrypt m ad npub key =
      if m.length > messagebytesMax then none
      else some (sealed key npub ad m, (sealed key npub ad m).length) := by
  rw [length_sealed, aes256gcmEncrypt, encryptAfternm, encryptDetachedAfternm_eq]
  split <;> rfl

/-- The decryption writes a message to the buffer if and only if the encryption of that message
    gives what is decrypted. Otherwise it fails, and writes zeros. The rest of the buffer stays
    as it is. -/
theorem decrypt_iff_encrypt (buffer key npub ad : List UInt8)
    (hc : c.length ≤ messagebytesMax + 16) :
    (∀ m, aes256gcmDecrypt (some buffer) c ad npub key =
        some (0, m.length, some (m ++ buffer.drop m.length)) ↔
      aes256gcmEncrypt m ad npub key = some (c, c.length)) ∧
    ((∀ m, aes256gcmEncrypt m ad npub key ≠ some (c, c.length)) →
      aes256gcmDecrypt (some buffer) c ad npub key =
        some (-1, 0, some (List.replicate (c.length - 16) 0 ++ buffer.drop (c.length - 16)))) := by
  simp only [aes256gcmEncrypt_eq_some_iff hc, ne_eq, aes256gcmDecrypt, decryptAfternm_eq _ _ _ _ hc]
  cases hm : unsealed key npub ad c with
  | none => simp
  | some m =>
      refine ⟨fun m' => ?_, fun h => absurd rfl (h m)⟩
      simp only [Option.map_some, Option.some.injEq, Prod.mk.injEq, true_and]
      constructor
      · rintro ⟨hlength, hbytes⟩
        exact (List.append_inj hbytes hlength).1
      · rintro rfl
        exact ⟨rfl, rfl⟩

/-- The theorem at two sealed bytes and a buffer of three. -/
theorem decrypt_iff_encrypt_twoBytes :
    aes256gcmDecrypt (some [7, 8, 9]) (sealed (List.replicate 32 0) (List.replicate 12 0) [] [1, 2])
      [] (List.replicate 12 0) (List.replicate 32 0) = some (0, 2, some [1, 2, 9]) := by
  have hlength : (sealed (List.replicate 32 0) (List.replicate 12 0) [] [1, 2]).length = 18 :=
    length_sealed _ _ _ _
  have hbound : (2 : ℕ) ≤ messagebytesMax := by
    rw [messagebytesMax]
    omega
  refine ((decrypt_iff_encrypt [7, 8, 9] _ _ [] (by rw [hlength]; omega)).1 [1, 2]).mpr ?_
  rw [hlength]
  exact aes256gcmEncrypt_of_le hbound

/-- Under one nonce, two ciphertexts tell the sum of their messages. -/
theorem take_xorBytes_sealed {x y : List UInt8} (key npub ad : List UInt8)
    (h : x.length = y.length) :
    (xorBytes (sealed key npub ad x) (sealed key npub ad y)).take x.length = xorBytes x y := by
  rw [xorBytes, List.take_zipWith, ← xorBytes, sealed, sealed, Gcm.encrypt, Gcm.encrypt]
  dsimp only
  rw [List.take_left' (length_gctr ..), h, List.take_left' (length_gctr ..), xorBytes_gctr]

/-- Under one nonce, three sealed messages give a fourth. -/
theorem sealed_xorBytes {x y z : List UInt8} (key npub ad : List UInt8)
    (hy : x.length = y.length) (hz : x.length = z.length) :
    sealed key npub ad (xorBytes (xorBytes x y) z) =
      xorBytes (xorBytes (sealed key npub ad x) (sealed key npub ad y)) (sealed key npub ad z) := by
  rw [sealed, encrypt_xorBytes _ _ ad hy hz, sealed, sealed, sealed]
  have hcipher (m : List UInt8) : (Gcm.encrypt (cipher key) npub ad m).1.length = m.length :=
    length_gctr ..
  have htag (m : List UInt8) : (Gcm.encrypt (cipher key) npub ad m).2.length = 16 :=
    length_tag ..
  simp only [xorBytes]
  rw [List.zipWith_append (by rw [hcipher, hcipher, hy]), List.zipWith_append]
  rw [List.length_zipWith, hcipher, hcipher, hcipher, ← hy, ← hz, Nat.min_self]

end Sealed

/-- The cipher under one key and one nonce, for the parties that take it as a parameter. -/
def gcmAead (key npub : List UInt8) : Aead where
  encrypt := sealed key npub []
  decrypt := unsealed key npub []
  decrypt_encrypt _ := unsealed_eq_some_iff.mpr rfl
  length_of_decrypt := length_of_unsealed

end TriHaRd.Aesni
