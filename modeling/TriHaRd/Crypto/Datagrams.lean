-- SUMMARY: The receive loop with the vendored AES-256-GCM: what a node handles, and what one nonce for all messages gives away.
import TriHaRd.Crypto.Sealing
import TriHaRd.Node.Receive

/-!
# Datagrams under the vendored cipher

Here the cipher of the receive loop is the one in the repository, with the key and the nonce that
a node has. Neither of them ever changes, so that the mode is used with one nonce for all
messages.
-/

namespace TriHaRd

open Aesni Gcm

/-- `crypto_aead_aes256gcm_decrypt_detached_afternm` as the receive loop calls it. A datagram that
    is too long for the mode does not fit the loop's array. -/
def gcmDetached (key nonce : List UInt8) : DecryptDetached := fun c mac m =>
  match decryptDetachedAfternm (some m) c mac [] nonce (beforenm key) with
  | some (ret, some m) => (ret, m)
  | _ => (-1, m)

/-- The action of the node that a datagram comes to, if it is a sealed message. -/
def RawAction.opened (key nonce : List UInt8) : RawAction → Option Action
  | .recvfrom datagram src _ amb =>
    (unsealed key nonce [] (datagram.take recvBuffLen)).map fun m => .recv m src amb
  | .other a => some a

def RawStep.opened (key nonce : List UInt8) (t : RawStep) : Option NodeStep :=
  (t.act.opened key nonce).map fun a => ⟨t.pre, a, t.events, t.post⟩

-- ---------------------------------------------------------------------------
-- One datagram
-- ---------------------------------------------------------------------------

variable {key nonce : List UInt8} {b : Build} {datagram stack m : List UInt8}

theorem recvBuffLen_le_messagebytesMax : recvBuffLen ≤ messagebytesMax := by
  rw [recvBuffLen, messagebytesMax]
  omega

theorem gcmDetached_eq {c mac : List UInt8} (key nonce stack : List UInt8)
    (hc : c.length ≤ messagebytesMax) (hmac : mac.length = 16) :
    gcmDetached key nonce c mac stack =
      match Gcm.decrypt (Aes.cipher key) nonce [] c mac with
      | some m => (0, m ++ stack.drop c.length)
      | none => (-1, List.replicate c.length 0 ++ stack.drop c.length) := by
  unfold gcmDetached
  rw [decryptDetachedAfternm_eq key nonce (some stack) c [] hmac, if_neg (by omega)]
  cases Gcm.decrypt (Aes.cipher key) nonce [] c mac <;> rfl

theorem aes256gcmDecrypt_gcmDetached {c : List UInt8} (key nonce stack : List UInt8)
    (hc : c.length ≤ recvBuffLen) :
    aes256gcmDecrypt (gcmDetached key nonce) stack c =
      match unsealed key nonce [] c with
      | some m => ⟨0, m.length, m ++ stack.drop m.length⟩
      | none => ⟨-1, 0, List.replicate (c.length - 16) 0 ++ stack.drop (c.length - 16)⟩ := by
  have hmax := recvBuffLen_le_messagebytesMax
  rw [aes256gcmDecrypt, aes256gcmABytes]
  by_cases hlength : c.length ≥ 16
  · have hclen : (c.take (c.length - 16)).length = c.length - 16 := by
      rw [List.length_take]
      omega
    have hmac : (c.drop (c.length - 16)).length = 16 := by
      rw [List.length_drop]
      omega
    have hdetached := gcmDetached_eq key nonce stack (hclen.trans_le (by omega)) hmac
    rw [hclen] at hdetached
    simp only [if_pos hlength, hdetached]
    cases hm : unsealed key nonce [] c with
    | none =>
        rw [unsealed, if_pos hlength] at hm
        rw [hm]
        rfl
    | some m =>
        have hmlen := length_of_unsealed hm
        rw [unsealed, if_pos hlength] at hm
        rw [hm, show c.length - 16 = m.length by omega]
        rfl
  · rw [if_neg hlength, unsealed, if_neg hlength, show c.length - 16 = 0 by omega]
    rfl

/-- `decrypt` finds the message that has been sealed, or fails. -/
theorem decrypt_gcmDetached {c : List UInt8} (key nonce stack : List UInt8)
    (hc : c.length ≤ recvBuffLen) :
    decrypt (gcmDetached key nonce) stack c =
      match unsealed key nonce [] c with
      | some m => ⟨0, m.length, m ++ stack.drop m.length⟩
      | none => ⟨-1, 0, List.replicate (c.length - 16) 0 ++ stack.drop (c.length - 16)⟩ := by
  simp only [decrypt, aes256gcmDecrypt_gcmDetached key nonce stack hc]
  cases unsealed key nonce [] c <;> rfl

theorem length_received_le (datagram : List UInt8) :
    (datagram.take recvBuffLen).length ≤ recvBuffLen := by
  rw [List.length_take]
  exact Nat.min_le_left _ _

/-- The node handles the message of a sealed datagram, and nothing of what the stack held. -/
theorem shown_gcmDetached (key nonce : List UInt8) :
    RawAction.shown (gcmDetached key nonce) = RawAction.opened key nonce := by
  funext a
  cases a with
  | recvfrom datagram src stack amb =>
      have heq := decrypt_gcmDetached key nonce stack (length_received_le datagram)
      simp only [RawAction.shown, RawAction.opened, Authenticates, handedOver, decryptDatagram, heq]
      cases unsealed key nonce [] (datagram.take recvBuffLen) <;> simp
  | other a => rfl

/-- A datagram that is a sealed message is handled as that message. -/
theorem rawStep_of_sealed (s : System) (src : Addr) (stack : List UInt8) (amb : Ambient)
    (h : m.length + 16 ≤ recvBuffLen) :
    System.rawStep (gcmDetached key nonce) b s (.recvfrom (sealed key nonce [] m) src stack amb) =
      System.step b s (.recv m src amb) := by
  have hwhole : (sealed key nonce [] m).take recvBuffLen = sealed key nonce [] m :=
    List.take_of_length_le (by rwa [length_sealed])
  have hopened : RawAction.opened key nonce (.recvfrom (sealed key nonce [] m) src stack amb) =
      some (.recv m src amb) := by
    rw [RawAction.opened, hwhole, unsealed_eq_some_iff.mpr rfl]
    rfl
  rw [← shown_gcmDetached, RawAction.shown, Option.ite_none_right_eq_some] at hopened
  obtain ⟨hauthentic, hrecv⟩ := hopened
  rw [System.rawStep_of_authenticates hauthentic, Option.some.inj hrecv]

-- ---------------------------------------------------------------------------
-- Runs
-- ---------------------------------------------------------------------------

/-- In every run on raw datagrams the node handles a message if and only if the vendored
    encryption of that message is what it has received. All other datagrams change nothing and
    send nothing, whatever they are and whatever the stack holds, and without them the run is one
    of the node with the same messages. -/
theorem handles_encrypted {s₀ s : System} {tr : List RawStep}
    (hrun : RawRun (gcmDetached key nonce) b s₀ tr s) :
    (∀ t ∈ tr, ∀ datagram src stack amb, t.act = .recvfrom datagram src stack amb →
      let received := datagram.take recvBuffLen
      (∀ m, Aesni.aes256gcmEncrypt m [] nonce key = some (received, received.length) ↔
        t.opened key nonce = some ⟨t.pre, .recv m src amb, t.events, t.post⟩) ∧
      ((∀ m, Aesni.aes256gcmEncrypt m [] nonce key ≠ some (received, received.length)) →
        t.post = t.pre ∧ t.events = [])) ∧
    NodeRun b s₀ (tr.filterMap (RawStep.opened key nonce)) s ∧
    (tr.filterMap (RawStep.opened key nonce)).flatMap Lts.Transition.events =
      tr.flatMap Lts.Transition.events := by
  have hopened := shown_gcmDetached key nonce
  have hmax := recvBuffLen_le_messagebytesMax
  refine ⟨fun t ht datagram src stack amb hact => ?_, Lts.Run.hide (fun t u hs hu => ?_)
    (fun t hs hnone => ?_) hrun⟩
  · have hreceived := length_received_le datagram
    have hiff (m : List UInt8) : Aesni.aes256gcmEncrypt m [] nonce key =
        some (datagram.take recvBuffLen, (datagram.take recvBuffLen).length) ↔
        unsealed key nonce [] (datagram.take recvBuffLen) = some m :=
      aes256gcmEncrypt_eq_some_iff (by omega)
    refine ⟨fun m => ?_, fun hnone => ?_⟩
    · rw [hiff, RawStep.opened, hact, RawAction.opened]
      cases unsealed key nonce [] (datagram.take recvBuffLen) <;> simp
    · refine RawStep.post_of_forged (hrun.isStep ht) ?_
      rw [← RawAction.shown_eq_none_iff, hopened, hact, RawAction.opened, Option.map_eq_none_iff,
        Option.eq_none_iff_forall_ne_some]
      exact fun m hm => hnone m ((hiff m).mpr hm)
  · obtain ⟨a, ha, rfl⟩ := Option.map_eq_some_iff.mp hu
    exact ⟨rfl, rfl, rfl, RawStep.isStep_of_shown hs (hopened ▸ ha)⟩
  · refine RawStep.post_of_forged hs (RawAction.shown_eq_none_iff.mp ?_)
    rw [hopened]
    exact Option.map_eq_none_iff.mp hnone

open Scenario in
/-- The theorem at a sealed 'Sibling' message. -/
theorem handles_encrypted_sibling :
    ∃ tr s, RawRun (gcmDetached (List.replicate 32 0) (List.replicate 12 0)) .aexNotify
        Scenario.boot tr s ∧
      s.node.siblings = [Peer.new peerB] ∧
      NodeRun .aexNotify Scenario.boot
        (tr.filterMap (RawStep.opened (List.replicate 32 0) (List.replicate 12 0))) s := by
  have hstep : (System.step .aexNotify Scenario.boot (.recv siblingStr peerB (reading 0))).any
      (·.1.node.siblings = [Peer.new peerB]) = true := by decide +kernel
  rw [Option.any_eq_true] at hstep
  obtain ⟨⟨s, events⟩, hstep, hsiblings⟩ := hstep
  let t : RawStep := ⟨Scenario.boot, .recvfrom (sealed (List.replicate 32 0) (List.replicate 12 0)
    [] siblingStr) peerB [] (reading 0), events, s⟩
  have hrun : RawRun (gcmDetached (List.replicate 32 0) (List.replicate 12 0)) .aexNotify
      Scenario.boot ([] ++ [t]) s :=
    .snoc .refl ((rawStep_of_sealed Scenario.boot peerB [] (reading 0) (by decide)).trans hstep)
  exact ⟨_, s, hrun, of_decide_eq_true hsiblings, (handles_encrypted hrun).2.1⟩

-- ---------------------------------------------------------------------------
-- One nonce
-- ---------------------------------------------------------------------------

/-- Who has seen three encryptions of messages of one length under the nonce knows the sums of
    their messages, and can make every node with that nonce handle the sum of all three. -/
theorem reused_nonce_forges {x y z cx cy cz : List UInt8}
    (hx : Aesni.aes256gcmEncrypt x [] nonce key = some (cx, cx.length))
    (hy : Aesni.aes256gcmEncrypt y [] nonce key = some (cy, cy.length))
    (hz : Aesni.aes256gcmEncrypt z [] nonce key = some (cz, cz.length))
    (hxy : x.length = y.length) (hxz : x.length = z.length) (hfit : x.length + 16 ≤ recvBuffLen) :
    (xorBytes cx cy).take x.length = xorBytes x y ∧
    ∀ (b : Build) (s : System) (src : Addr) (stack : List UInt8) (amb : Ambient),
      System.rawStep (gcmDetached key nonce) b s
          (.recvfrom (xorBytes (xorBytes cx cy) cz) src stack amb) =
        System.step b s (.recv (xorBytes (xorBytes x y) z) src amb) := by
  have hmax := recvBuffLen_le_messagebytesMax
  have hsealed {m c : List UInt8} (hm : m.length = x.length)
      (h : Aesni.aes256gcmEncrypt m [] nonce key = some (c, c.length)) :
      c = sealed key nonce [] m := by
    rw [aes256gcmEncrypt_of_le (by omega)] at h
    exact (Prod.mk.inj (Option.some.inj h)).1.symm
  rw [hsealed rfl hx, hsealed hxy.symm hy, hsealed hxz.symm hz]
  refine ⟨take_xorBytes_sealed key nonce [] hxy, fun b s src stack amb => ?_⟩
  have hsum : (xorBytes x y).length = x.length := length_xorBytes hxy
  rw [← sealed_xorBytes key nonce [] hxy hxz]
  refine rawStep_of_sealed s src stack amb ?_
  rwa [length_xorBytes (hsum.trans hxz), hsum]

/-- An answer to the fifth request, received and sent at `t` seconds. -/
def Scenario.answerAt (t : ℤ) : List UInt8 :=
  buildDriftReply 5 0 ⟨1, 0⟩ ⟨t, 0⟩ ⟨t, 0⟩ (List.replicate 16 0)

open Scenario in
/-- The theorem at the answers from 1000, 2000 and 4000 seconds: a node handles one from 2968
    seconds, which nobody has sent. -/
theorem reused_nonce_forges_answer :
    let key : List UInt8 := List.replicate 32 0
    let nonce : List UInt8 := List.replicate 12 0
    ∃ c₁ c₂ c₃, Aesni.aes256gcmEncrypt (answerAt 1000) [] nonce key = some (c₁, c₁.length) ∧
      Aesni.aes256gcmEncrypt (answerAt 2000) [] nonce key = some (c₂, c₂.length) ∧
      Aesni.aes256gcmEncrypt (answerAt 4000) [] nonce key = some (c₃, c₃.length) ∧
      System.rawStep (gcmDetached key nonce) .aexNotify Scenario.boot
          (.recvfrom (xorBytes (xorBytes c₁ c₂) c₃) peerB [] (reading 0)) =
        System.step .aexNotify Scenario.boot (.recv (answerAt 2968) peerB (reading 0)) := by
  intro key nonce
  have hlength (t : ℤ) : (answerAt t).length = 81 := length_buildDriftReply _ _ _ _ _ rfl
  have hencrypt (t : ℤ) : Aesni.aes256gcmEncrypt (answerAt t) [] nonce key =
      some (sealed key nonce [] (answerAt t), (sealed key nonce [] (answerAt t)).length) := by
    rw [length_sealed]
    refine aes256gcmEncrypt_of_le ?_
    rw [hlength, messagebytesMax]
    omega
  have hsum : xorBytes (xorBytes (answerAt 1000) (answerAt 2000)) (answerAt 4000) =
      answerAt 2968 := by decide +kernel
  have hforged := (reused_nonce_forges (hencrypt 1000) (hencrypt 2000) (hencrypt 4000)
    ((hlength _).trans (hlength _).symm) ((hlength _).trans (hlength _).symm)
    (by rw [hlength]; decide)).2
  rw [hsum] at hforged
  exact ⟨_, _, _, hencrypt 1000, hencrypt 2000, hencrypt 4000, hforged _ _ _ _ _⟩

end TriHaRd
