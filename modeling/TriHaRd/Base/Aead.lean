-- SUMMARY: Authenticated encryption under one key and one nonce, as an interface with its laws and an instance that evaluates.
import Mathlib.Data.List.Basic

/-!
# Authenticated encryption

With the key and the nonce fixed, encryption is a function of the message.
Decryption undoes it, and a ciphertext is longer than its message by the tag.
-/

structure Aead where
  encrypt : List UInt8 → List UInt8
  decrypt : List UInt8 → Option (List UInt8)
  decrypt_encrypt : ∀ m, decrypt (encrypt m) = some m
  length_of_decrypt : ∀ {c m}, decrypt c = some m → c.length = m.length + 16

namespace Aead

/-- The message followed by a tag of zeros. It hides nothing, and serves to run schedules. -/
def zeroTag : Aead where
  encrypt m := m ++ List.replicate 16 0
  decrypt c :=
    if c.drop (c.length - 16) = List.replicate 16 0 then some (c.take (c.length - 16)) else none
  decrypt_encrypt m := by simp
  length_of_decrypt := by
    intro c m h
    rw [Option.ite_none_right_eq_some] at h
    obtain ⟨htag, hm⟩ := h
    have hlength : c.length - (c.length - 16) = 16 := by
      simpa using congrArg List.length htag
    rw [← Option.some.inj hm, List.length_take]
    omega

end Aead
