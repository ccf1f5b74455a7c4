-- SUMMARY: The receive loop on raw datagrams: decryption into a stack buffer, and the steps of a node with it.
import TriHaRd.Node.System

/-!
# loop_recvfrom

An iteration of `loop_recvfrom` decrypts what it has received into an array on
its stack and hands that array to `handle_message`, with the length that the
decryption reports, whether it succeeds or not.

Of the cipher, `crypto_aead_aes256gcm_decrypt_detached_afternm` is a parameter,
under the fixed key and nonce. The functions around it are the vendored ones.
-/

namespace TriHaRd

/-- `sizeof(buff)` of `loop_recvfrom`, and of `buff_dec`. -/
def recvBuffLen : ℕ := 1024

/-- `crypto_aead_aes256gcm_ABYTES` -/
def aes256gcmABytes : ℕ := 16

/-- The ciphertext, the tag and the contents of the output buffer give the return code and what
    the buffer holds afterwards. -/
abbrev DecryptDetached := List UInt8 → List UInt8 → List UInt8 → ℤ × List UInt8

/-- What `decrypt` leaves: its return code, `*dlen` and the output buffer. -/
structure Decryption where
  retval : ℤ
  dlen : ℕ
  decrypted : List UInt8
deriving DecidableEq, Repr

/-- `crypto_aead_aes256gcm_decrypt_afternm` -/
def aes256gcmDecrypt (detached : DecryptDetached) (m c : List UInt8) : Decryption :=
  if c.length ≥ aes256gcmABytes then
    let clen := c.length - aes256gcmABytes
    let (ret, m) := detached (c.take clen) (c.drop clen) m
    ⟨ret, if ret = 0 then clen else 0, m⟩
  else ⟨-1, 0, m⟩

/-- `ENode::decrypt` -/
def decrypt (detached : DecryptDetached) (decrypted ciphertext : List UInt8) : Decryption :=
  let r := aes256gcmDecrypt detached decrypted ciphertext
  if r.retval ≠ 0 then { r with retval := -1 } else { r with retval := 0 }

/-- An iteration of the loop with a datagram, or any other action of the node. A `recvfrom` that
    times out does nothing and is no step. `stack` is what `buff_dec` held before. -/
inductive RawAction where
  | recvfrom (datagram : List UInt8) (src : Addr) (stack : List UInt8) (amb : Ambient)
  | other (a : Action)
deriving DecidableEq, Repr

/-- What the decryption of the datagram leaves. `recvfrom` cuts it off at the end of `buff`. -/
def decryptDatagram (detached : DecryptDetached) (datagram stack : List UInt8) : Decryption :=
  decrypt detached stack (datagram.take recvBuffLen)

/-- What `handle_message` gets to see of `buff_dec`. -/
def handedOver (detached : DecryptDetached) (datagram stack : List UInt8) : List UInt8 :=
  let d := decryptDatagram detached datagram stack
  d.decrypted.take d.dlen

namespace System

/-- `none` means that the action cannot be taken now. -/
def rawStep (detached : DecryptDetached) (b : Build) (s : System) :
    RawAction → Option (System × List Event)
  | .recvfrom datagram src stack amb =>
    if s.listening ∧ 0 ≤ s.node.sock then
      let readStatus := (datagram.take recvBuffLen).length
      if readStatus > 0 then
        -- the code of a failed decryption is overwritten
        let out := s.node.handleMessage (handedOver detached datagram stack) src amb
        if out.retval = success then some ({ s with node := out.node }, out.events)
        else some ({ s with
          node := { out.node with readfromStopped := true }
          listening := false }, out.events)
      else some (s, [])
    else none
  | .other (.recv _ _ _) => none
  | .other a => step b s a

end System

/-- The steps of a node on raw datagrams. -/
abbrev RawStep := Lts.Transition System RawAction Event

abbrev RawRun (detached : DecryptDetached) (b : Build) : System → List RawStep → System → Prop :=
  Lts.Run (System.rawStep detached b)

-- ---------------------------------------------------------------------------
-- Datagrams that do not authenticate
-- ---------------------------------------------------------------------------

/-- The datagram is long enough and its tag is right. -/
def Authenticates (detached : DecryptDetached) (datagram stack : List UInt8) : Prop :=
  (decryptDatagram detached datagram stack).retval = 0

instance (detached : DecryptDetached) (datagram stack : List UInt8) :
    Decidable (Authenticates detached datagram stack) :=
  inferInstanceAs (Decidable (_ = _))

variable {detached : DecryptDetached} {b : Build} {s : System} {datagram stack : List UInt8}

theorem dlen_of_failed {m c : List UInt8} (h : (decrypt detached m c).retval ≠ 0) :
    (decrypt detached m c).dlen = 0 := by
  unfold decrypt aes256gcmDecrypt at h ⊢
  dsimp only at h ⊢
  split_ifs at h ⊢ <;> first | rfl | exact absurd rfl h

/-- A failed decryption hands over an empty message, whatever the buffer holds. -/
theorem handedOver_of_failed (h : ¬ Authenticates detached datagram stack) :
    handedOver detached datagram stack = [] := by
  rw [handedOver, decryptDatagram, dlen_of_failed h, List.take_zero]

theorem length_of_authenticates (h : Authenticates detached datagram stack) :
    0 < (datagram.take recvBuffLen).length := by
  by_contra hempty
  have hnil : datagram.take recvBuffLen = [] := List.length_eq_zero_iff.mp (by omega)
  rw [Authenticates, decryptDatagram, hnil] at h
  simp [decrypt, aes256gcmDecrypt, aes256gcmABytes] at h

namespace System

/-- An iteration with a datagram that does not authenticate changes and shows nothing, and the
    loop goes on. -/
theorem rawStep_of_failed (h : ¬ Authenticates detached datagram stack) (b : Build) (s : System)
    (src : Addr) (amb : Ambient) :
    rawStep detached b s (.recvfrom datagram src stack amb) =
      if s.listening ∧ 0 ≤ s.node.sock then some (s, []) else none := by
  simp only [rawStep, handedOver_of_failed h, ENode.handleMessage, Outcome.quiet, if_true, ite_self]

/-- An iteration with a datagram that authenticates handles its plaintext. -/
theorem rawStep_of_authenticates (h : Authenticates detached datagram stack) (b : Build)
    (s : System) (src : Addr) (amb : Ambient) :
    rawStep detached b s (.recvfrom datagram src stack amb) =
      step b s (.recv (handedOver detached datagram stack) src amb) := by
  simp only [rawStep, step, gt_iff_lt, length_of_authenticates h, if_true]

end System

/-- What the network of the other modules shows of the action: the plaintext of a datagram that
    authenticates. -/
def RawAction.shown (detached : DecryptDetached) : RawAction → Option Action
  | .recvfrom datagram src stack amb =>
    if Authenticates detached datagram stack then
      some (.recv (handedOver detached datagram stack) src amb)
    else none
  | .other a => some a

/-- Does the step receive a datagram that does not authenticate? -/
def RawAction.IsForged (detached : DecryptDetached) : RawAction → Prop
  | .recvfrom datagram _ stack _ => ¬ Authenticates detached datagram stack
  | .other _ => False

instance : DecidablePred (RawAction.IsForged detached) := fun a => by
  unfold RawAction.IsForged
  split <;> infer_instance

theorem RawAction.shown_eq_none_iff {a : RawAction} :
    a.shown detached = none ↔ a.IsForged detached := by
  cases a with
  | recvfrom datagram src stack amb => simp [shown, IsForged]
  | other a => simp [shown, IsForged]

/-- A step with a forged datagram does nothing. -/
theorem RawStep.post_of_forged {t : RawStep} (hs : t.IsStep (System.rawStep detached b))
    (h : t.act.IsForged detached) : t.post = t.pre ∧ t.events = [] := by
  unfold Lts.Transition.IsStep at hs
  cases hact : t.act with
  | recvfrom datagram src stack amb =>
      rw [hact] at h hs
      rw [System.rawStep_of_failed h] at hs
      split_ifs at hs
      obtain ⟨hpost, hevents⟩ := Prod.mk.inj (Option.some.inj hs)
      exact ⟨hpost.symm, hevents.symm⟩
  | other a =>
      rw [hact] at h
      cases h

/-- All other steps are steps of the node. -/
theorem RawStep.isStep_of_shown {t : RawStep} {a : Action}
    (hs : t.IsStep (System.rawStep detached b)) (h : t.act.shown detached = some a) :
    (⟨t.pre, a, t.events, t.post⟩ : NodeStep).IsStep (System.step b) := by
  unfold Lts.Transition.IsStep at hs ⊢
  cases hact : t.act with
  | recvfrom datagram src stack amb =>
      rw [hact] at h hs
      rw [RawAction.shown, Option.ite_none_right_eq_some] at h
      obtain ⟨hauthentic, ha⟩ := h
      obtain rfl := Option.some.inj ha
      rwa [System.rawStep_of_authenticates hauthentic] at hs
  | other a' =>
      rw [hact] at h hs
      obtain rfl : a' = a := Option.some.inj h
      cases a' with
      | recv => cases hs
      | _ => exact hs

/-- The step of the node, if the step is not one with a forged datagram. -/
def RawStep.shown (detached : DecryptDetached) (t : RawStep) : Option NodeStep :=
  (t.act.shown detached).map fun a => ⟨t.pre, a, t.events, t.post⟩

/-- In every run on raw datagrams, forged ones leave the node as it is, send nothing and keep the
    receive loop going. Without them the run is one to the same state, with the same messages,
    and the node handles exactly the plaintexts of the others. -/
theorem forged_inert {s₀ s : System} {tr : List RawStep} (hrun : RawRun detached b s₀ tr s) :
    (∀ t ∈ tr, t.act.IsForged detached → t.post = t.pre ∧ t.events = []) ∧
    (∀ datagram src stack amb, ¬ Authenticates detached datagram stack → s.listening = true →
      0 ≤ s.node.sock → handedOver detached datagram stack = [] ∧
        System.rawStep detached b s (.recvfrom datagram src stack amb) = some (s, [])) ∧
    (RawRun detached b s₀ (tr.filter fun t => ¬ t.act.IsForged detached) s ∧
      (tr.filter fun t => ¬ t.act.IsForged detached).flatMap Lts.Transition.events =
        tr.flatMap Lts.Transition.events) ∧
    NodeRun b s₀ (tr.filterMap (RawStep.shown detached)) s := by
  refine ⟨fun t ht h => RawStep.post_of_forged (hrun.isStep ht) h, ?_, ?_, ?_⟩
  · intro datagram src stack amb hforged hlistening hsock
    refine ⟨handedOver_of_failed hforged, ?_⟩
    rw [System.rawStep_of_failed hforged, if_pos ⟨hlistening, hsock⟩]
  · rw [← List.filterMap_eq_filter]
    refine Lts.Run.hide (fun t u hs hu => ?_) (fun t hs hnone => ?_) hrun
    · obtain ⟨rfl, _⟩ := Option.guard_eq_some_iff.mp hu
      exact ⟨rfl, rfl, rfl, hs⟩
    · refine RawStep.post_of_forged hs ?_
      simpa using Option.guard_eq_none_iff.mp hnone
  · refine (Lts.Run.hide (fun t u hs hu => ?_) (fun t hs hnone => ?_) hrun).1
    · obtain ⟨a, ha, rfl⟩ := Option.map_eq_some_iff.mp hu
      exact ⟨rfl, rfl, rfl, RawStep.isStep_of_shown hs ha⟩
    · exact RawStep.post_of_forged hs
        (RawAction.shown_eq_none_iff.mp (Option.map_eq_none_iff.mp hnone))

namespace Scenario

/-- A cipher that encrypts with zeros and accepts the tag of zeros. Like the vendored one, it
    clears the output buffer when the tag is wrong. -/
def zeroDetached : DecryptDetached := fun c mac m =>
  if mac = List.replicate aes256gcmABytes 0 then (0, c ++ m.drop c.length)
  else (-1, List.replicate c.length 0 ++ m.drop c.length)

/-- A datagram that is too short, one with a wrong tag, and a 'Sibling' message. The stack holds
    a 'Sibling' message each time. -/
def forgeries : List RawAction :=
  [.recvfrom [0x53] peerC siblingStr (reading 0),
    .recvfrom (siblingStr ++ List.replicate 16 1) peerC siblingStr (reading 0),
    .recvfrom (siblingStr ++ List.replicate 16 0) peerB siblingStr (reading 0)]

end Scenario

open Scenario in
/-- The theorem at three datagrams, of which the last authenticates. -/
theorem forged_inert_sibling :
    ∃ tr s, RawRun zeroDetached .aexNotify Scenario.boot tr s ∧
      s.node.siblings = [Peer.new peerB] ∧ s.listening = true ∧
      ∃ tr', tr'.map Lts.Transition.act = [.recv siblingStr peerB (reading 0)] ∧
        NodeRun .aexNotify Scenario.boot tr' s := by
  obtain ⟨tr, s, hrun, hs⟩ := Lts.exists_run_of_exec (System.rawStep zeroDetached .aexNotify)
    Scenario.boot forgeries
    (fun tr s => s.node.siblings = [Peer.new peerB] ∧ s.listening = true ∧
      (tr.filterMap (RawStep.shown zeroDetached)).map Lts.Transition.act =
        [.recv siblingStr peerB (reading 0)]) (by decide +kernel)
  obtain ⟨hsiblings, hlistening, hacts⟩ := hs
  exact ⟨tr, s, hrun, hsiblings, hlistening, _, hacts, (forged_inert hrun).2.2.2⟩

end TriHaRd
