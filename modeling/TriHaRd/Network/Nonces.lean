-- SUMMARY: The nonces of the nodes and of the Time Authority, what is encrypted with them, and who can decrypt it.
import TriHaRd.Network.Origin
import TriHaRd.Network.Speaking

/-!
# Nonces

All parties share one key. A node encrypts with its member `nonce`, and the Time
Authority with zeros. `incrementNonce` zeroes the member at its first call in an
enclave and leaves it alone afterwards. A second node of an enclave keeps what
its memory held.

The constructor encrypts a test message and decrypts it again. Every other
encryption is of a message to a peer. What a party receives it decrypts with its
own nonce, and a datagram that does not decrypt is not handled.
-/

namespace TriHaRd

open Lts

abbrev Nonce := List UInt8

/-- `crypto_aead_aes256gcm_NPUBBYTES` zeros, the nonce of the Time Authority. -/
def zeroNonce : Nonce := List.replicate 12 0

/-- `incrementNonce` on its static `init` and the member `nonce`. The increment is commented out. -/
def incrementNonce (init : Bool) (nonce : Nonce) : Bool × Nonce :=
  if !init then (true, zeroNonce) else (init, nonce)

/-- The message of `test_encdec`, with the zero at its end. -/
def testMsg : List UInt8 := [0x48, 0x65, 0x6C, 0x6C, 0x6F, 0x21, 0x00]

variable {ι κ : Type*}

/-- A call of `crypto_aead_aes256gcm_encrypt`. The Time Authority is the sender `none`, and the
    test message goes nowhere. -/
structure Encryption (ι : Type*) where
  sender : Option ι
  dst : Option Addr
  nonce : Nonce
  plaintext : List UInt8
deriving DecidableEq

/-- The network, the static of `incrementNonce` in each enclave, and the nonce of each node that
    has been constructed. -/
structure Keyed (ι κ : Type*) where
  net : Network ι
  init : κ → Bool
  nonces : ι → Option Nonce

inductive KeyedAction (ι : Type*) where
  /-- `ecall_init` constructs node `i`, whose member `nonce` lies where the memory holds `mem`. -/
  | construct (i : ι) (mem : Nonce)
  | act (a : NetAction ι)

namespace Keyed

/-- The encryptions of a node, one call of `encrypt` after the other. -/
def encryptAll (sender : ι) (init : Bool) (nonce : Nonce) :
    List Packet → (Bool × Nonce) × List (Encryption ι)
  | [] => ((init, nonce), [])
  | q :: qs =>
    let (init, nonce) := incrementNonce init nonce
    let (final, rest) := encryptAll sender init nonce qs
    (final, ⟨some sender, some q.dst, nonce, q.payload⟩ :: rest)

/-- What a step of the network encrypts. `add_sibling` encrypts before it sends. -/
def plaintexts (n : Network ι) (a : NetAction ι) (sent : List (Sent ι)) : List Packet :=
  match a with
  | .node i (.addSibling addr _) => (((n.nodes i).node.addSibling addr true).2.filterMap fun
      | .sent q => some q
      | _ => none)
  | _ => sent.map Sent.toPacket

/-- The node that acts, or none if it is the Time Authority. -/
def actor : NetAction ι → Option ι
  | .node i _ => some i
  | .deliver i _ _ _ => some i
  | .authority _ _ _ _ _ => none

/-- The nonce of a party, if it exists. -/
def nonceOf (s : Keyed ι κ) : Option ι → Option Nonce
  | none => some zeroNonce
  | some i => s.nonces i

/-- A party with the nonce can decrypt what the sender has encrypted. -/
def opens (aead : Nonce → Aead) (s : Keyed ι κ) (nonce : Nonce) (d : Sent ι) : Bool :=
  match s.nonceOf d.sender with
  | none => false
  | some sender => (aead nonce).decrypt ((aead sender).encrypt d.payload) == some d.payload

/-- The party with the nonce can decrypt the datagram that the action is about. -/
def accepts (aead : Nonce → Aead) (s : Keyed ι κ) (nonce : Nonce) : NetAction ι → Bool
  | .node _ _ => true
  | .deliver _ k _ _ => s.net.pool[k]?.any (s.opens aead nonce)
  | .authority k _ _ _ _ => s.net.pool[k]?.any (s.opens aead nonce)

variable [DecidableEq ι] [DecidableEq κ]

/-- `enclave` is where each node is hosted. `none` means that the action cannot be taken now. -/
def step (aead : Nonce → Aead) (enclave : ι → κ) (b : Build) (s : Keyed ι κ) :
    KeyedAction ι → Option (Keyed ι κ × List (Encryption ι))
  | .construct i mem =>
    if (s.nonces i).isSome then none
    else
      let (init, nonce) := incrementNonce (s.init (enclave i)) mem
      -- the encryption of `test_encdec`
      let (init, nonce) := incrementNonce init nonce
      some ({ s with
        init := Function.update s.init (enclave i) init
        nonces := Function.update s.nonces i (some nonce) },
        [⟨some i, none, nonce, testMsg⟩])
  | .act a =>
    match s.nonceOf (actor a) with
    | none => none
    | some nonce =>
      if !s.accepts aead nonce a then none
      else match s.net.step b a with
        | none => none
        | some (net, sent) =>
          match actor a with
          | none => some ({ s with net := net },
              (plaintexts s.net a sent).map fun q => ⟨none, some q.dst, zeroNonce, q.payload⟩)
          | some i =>
            let ((init, nonce), encryptions) :=
              encryptAll i (s.init (enclave i)) nonce (plaintexts s.net a sent)
            some ({
              net := net
              init := Function.update s.init (enclave i) init
              nonces := Function.update s.nonces i (some nonce) }, encryptions)

/-- No node has been constructed and nothing has been sent. -/
def Fresh (s : Keyed ι κ) : Prop :=
  s.net.pool = [] ∧ (∀ e, s.init e = false) ∧ ∀ i, s.nonces i = none

end Keyed

abbrev KeyedStep (ι κ : Type*) := Lts.Transition (Keyed ι κ) (KeyedAction ι) (Encryption ι)

abbrev KeyedRun [DecidableEq ι] [DecidableEq κ] (aead : Nonce → Aead) (enclave : ι → κ)
    (b : Build) : Keyed ι κ → List (KeyedStep ι κ) → Keyed ι κ → Prop :=
  Lts.Run (Keyed.step aead enclave b)

/-- All encryptions of a history. -/
def encryptions (tr : List (KeyedStep ι κ)) : List (Encryption ι) :=
  tr.flatMap Lts.Transition.events

/-- No nonce is used for two different plaintexts. -/
def NonceUnique (es : List (Encryption ι)) : Prop :=
  ∀ e ∈ es, ∀ e' ∈ es, e.plaintext ≠ e'.plaintext → e.nonce ≠ e'.nonce

/-- The nonce is that of a party that reads what is encrypted: the node itself if it is the test
    message, else a node at the address that it goes to, or the Time Authority. -/
def Reads (addr : ι → Addr) (authority : Addr) (s : Keyed ι κ) (e : Encryption ι)
    (nonce : Nonce) : Prop :=
  match e.dst with
  | none => nonce = e.nonce
  | some dst => (∃ i, addr i = dst ∧ s.nonces i = some nonce) ∨ dst = authority ∧ nonce = zeroNonce

/-- Every receiver of the message can decrypt it. -/
def Decryptable (aead : Nonce → Aead) (addr : ι → Addr) (authority : Addr) (s : Keyed ι κ)
    (e : Encryption ι) : Prop :=
  ∀ nonce, Reads addr authority s e nonce →
    (aead nonce).decrypt ((aead e.nonce).encrypt e.plaintext) = some e.plaintext

/-- A message is sent by a node that speaks, or by the Time Authority. -/
def Network.Speaks (n : Network ι) : NetAction ι → Prop
  | .node i a => (n.nodes i).Speaks a
  | .deliver i k src amb => ∃ d, n.pool[k]? = some d ∧ (n.nodes i).Speaks (.recv d.payload src amb)
  | .authority _ _ _ _ _ => True

/-- The step is that of a constructor, or one of the network without a message to send. -/
def KeyedStep.Silent (t : KeyedStep ι κ) : Prop :=
  ∀ a, t.act = .act a → ¬ t.pre.net.Speaks a

-- ---------------------------------------------------------------------------
-- One step
-- ---------------------------------------------------------------------------

/-- After the first call in the enclave, `encrypt` leaves the nonce as it is. -/
theorem Keyed.encryptAll_true (sender : ι) (nonce : Nonce) (qs : List Packet) :
    encryptAll sender true nonce qs =
      ((true, nonce), qs.map fun q => ⟨some sender, some q.dst, nonce, q.payload⟩) := by
  induction qs with
  | nil => rfl
  | cons q qs ih => simp [encryptAll, incrementNonce, ih]

namespace Keyed

variable [DecidableEq ι] [DecidableEq κ] {aead : Nonce → Aead} {enclave : ι → κ} {b : Build}
  {s s' : Keyed ι κ} {es : List (Encryption ι)}

/-- The enclave of every node has called `incrementNonce`. -/
def Inited (enclave : ι → κ) (s : Keyed ι κ) : Prop :=
  ∀ i nonce, s.nonces i = some nonce → s.init (enclave i) = true

/-- A constructor gives its node a nonce for good and encrypts the test message with it. Any other
    step is one of the network, with the messages encrypted under the nonce of who acts. -/
theorem step_cases {a : KeyedAction ι} (hinited : s.Inited enclave)
    (h : s.step aead enclave b a = some (s', es)) :
    (∃ i mem nonce, a = .construct i mem ∧ s.nonces i = none ∧
      nonce = (if s.init (enclave i) then mem else zeroNonce) ∧
      s' = { s with
        init := Function.update s.init (enclave i) true
        nonces := Function.update s.nonces i (some nonce) } ∧
      es = [⟨some i, none, nonce, testMsg⟩]) ∨
    (∃ x nonce net sent, a = .act x ∧ s.nonceOf (actor x) = some nonce ∧
      s.net.step b x = some (net, sent) ∧ s' = { s with net := net } ∧
      es = (plaintexts s.net x sent).map fun q => ⟨actor x, some q.dst, nonce, q.payload⟩) := by
  cases a with
  | construct i mem =>
      simp only [step] at h
      split at h
      case isTrue => cases h
      case isFalse hnew =>
        refine .inl ⟨i, mem, _, rfl, by simpa using hnew, rfl, ?_⟩
        cases hinit : s.init (enclave i) <;> simp [hinit, incrementNonce] at h <;>
          exact ⟨h.1.symm, h.2.symm⟩
  | act x =>
      simp only [step] at h
      split at h
      case h_1 => cases h
      case h_2 nonce hnonce =>
        split at h
        case isTrue => cases h
        case isFalse =>
          split at h
          case h_1 => cases h
          case h_2 net sent hnet =>
            refine .inr ⟨x, nonce, net, sent, rfl, hnonce, hnet, ?_⟩
            cases hactor : actor x with
            | none =>
                rw [hactor] at hnonce
                obtain rfl : zeroNonce = nonce := Option.some.inj hnonce
                rw [hactor] at h
                cases h
                exact ⟨rfl, rfl⟩
            | some i =>
                rw [hactor] at hnonce
                have hinit : s.init (enclave i) = true := hinited i nonce hnonce
                have hnonces : s.nonces i = some nonce := hnonce
                simp only [hactor, hinit, encryptAll_true] at h
                rw [← hinit, Function.update_eq_self, ← hnonces, Function.update_eq_self] at h
                cases h
                exact ⟨rfl, rfl⟩

/-- A nonce after a constructor is the one it has given its node, or is an old one. -/
theorem nonces_of_update {nonces : ι → Option Nonce} {i j : ι} {nonce n : Nonce}
    (h : Function.update nonces i (some nonce) j = some n) :
    j = i ∧ n = nonce ∨ nonces j = some n := by
  by_cases hj : j = i
  · rw [hj, Function.update_self] at h
    exact .inl ⟨hj, (Option.some.inj h).symm⟩
  · rw [Function.update_of_ne hj] at h
    exact .inr h

theorem Inited.step {t : KeyedStep ι κ} (hs : t.IsStep (Keyed.step aead enclave b))
    (h : t.pre.Inited enclave) : t.post.Inited enclave := by
  rcases step_cases h hs with ⟨i, mem, nonce, _, _, _, hpost, _⟩ |
    ⟨x, nonce, net, sent, _, _, _, hpost, _⟩
  · rw [hpost]
    intro j n hn
    dsimp only
    rcases nonces_of_update hn with ⟨rfl, _⟩ | hn
    · rw [Function.update_self]
    · by_cases henclave : enclave j = enclave i
      · rw [henclave, Function.update_self]
      · rw [Function.update_of_ne henclave]
        exact h j n hn
  · rw [hpost]
    exact h

end Keyed

-- ---------------------------------------------------------------------------
-- Messages differ from the test message
-- ---------------------------------------------------------------------------

/-- A step of the network adds to the pool what it shows. -/
theorem Network.pool_of_step [DecidableEq ι] {b : Build} {n n' : Network ι} {a : NetAction ι}
    {sent : List (Sent ι)} (h : n.step b a = some (n', sent)) : n'.pool = n.pool ++ sent := by
  have hact {i : ι} {x : Action} {cause : Option ℕ} (hx : n.act b i x cause = some (n', sent)) :
      n'.pool = n.pool ++ sent := by
    unfold Network.act at hx
    split at hx
    · cases hx
    · cases hx
      rfl
  unfold Network.step at h
  split at h
  · cases h
  · exact hact h
  · split at h
    · cases h
    · exact hact h
  · split at h
    · cases h
    · cases h
      rfl

/-- The first byte of the test message is no letter. -/
theorem ne_testMsg_of_head {payload : List UInt8} {letter : UInt8}
    (hletter : letter ∈ [letterS, letterT, letterU, letterD])
    (hhead : payload.head? = some letter) : payload ≠ testMsg := by
  rintro rfl
  obtain rfl : 0x48 = letter := Option.some.inj hhead
  revert hletter
  decide

namespace Keyed

variable [DecidableEq ι] {b : Build} {n n' : Network ι}

/-- What a step encrypts is never the test message. -/
theorem plaintext_ne_testMsg {a : NetAction ι} {sent : List (Sent ι)} (htraced : n.Traced)
    (h : n.step b a = some (n', sent)) : ∀ q ∈ plaintexts n a sent, q.payload ≠ testMsg := by
  have hsent : ∀ q ∈ sent.map Sent.toPacket, q.payload ≠ testMsg := by
    intro q hq
    obtain ⟨d, hd, rfl⟩ := List.mem_map.mp hq
    have hpost : n'.Traced := Network.Traced.step (t := ⟨n, a, sent, n'⟩) h htraced
    have hpool : d ∈ n'.pool := by
      rw [Network.pool_of_step h]
      exact List.mem_append_right _ hd
    obtain ⟨letter, hletter, hhead⟩ := (hpost d hpool).head_mem
    exact ne_testMsg_of_head hletter hhead
  unfold plaintexts
  split
  · intro q hq
    obtain ⟨e, he, hq⟩ := List.mem_filterMap.mp hq
    cases e with
    | sent q' =>
        obtain rfl := Option.some.inj hq
        cases ENode.addSibling_sends he with
        | drift hhead => exact ne_testMsg_of_head (by simp) hhead
        | sibling => exact ne_testMsg_of_head (by simp) head_siblingStr
    | _ => cases hq
  · exact hsent

/-- `add_sibling` sends what it encrypts, if its `sendto` succeeds. -/
theorem addSibling_events (s : ENode) (addr : Addr) (sendOk : Bool) :
    (s.addSibling addr sendOk).2 = if sendOk then (s.addSibling addr true).2 else [] := by
  unfold ENode.addSibling
  split_ifs <;> first | rfl | contradiction

/-- A step that sends a datagram encrypts one. -/
theorem plaintexts_ne_nil {a : NetAction ι} {sent : List (Sent ι)}
    (h : n.step b a = some (n', sent)) (hsent : sent ≠ []) : plaintexts n a sent ≠ [] := by
  unfold plaintexts
  split
  case h_1 i addr sendOk =>
    have hes : sent = Network.sentBy i none ((n.nodes i).node.addSibling addr sendOk).2 := by
      cases h
      rfl
    rw [hes, addSibling_events] at hsent
    intro hnil
    refine hsent ?_
    split
    · rw [Network.sentBy, List.filterMap_eq_nil_iff]
      intro e he
      have hnone := List.filterMap_eq_nil_iff.mp hnil e he
      cases e <;> first | rfl | cases hnone
    · rfl
  case h_2 => exact fun hnil => hsent (List.map_eq_nil_iff.mp hnil)

omit [DecidableEq ι] in
theorem filterMap_ne_nil {β : Type*} {f : Event → Option β}
    (hf : ∀ e, f e ≠ none ↔ ∃ q, e = .sent q) (es : List Event) :
    es.filterMap f ≠ [] ↔ HasMessage es := by
  rw [ne_eq, List.filterMap_eq_nil_iff]
  push Not
  constructor
  · rintro ⟨e, he, hsome⟩
    obtain ⟨q, rfl⟩ := (hf e).mp hsome
    exact ⟨q, he⟩
  · rintro ⟨q, hq⟩
    exact ⟨_, hq, (hf _).mpr ⟨q, rfl⟩⟩

theorem sentBy_of_act {i : ι} {x : Action} {cause : Option ℕ} {sent : List (Sent ι)}
    (h : n.act b i x cause = some (n', sent)) :
    ∃ s es, (n.nodes i).step b x = some (s, es) ∧ sent = Network.sentBy i cause es := by
  unfold Network.act at h
  split at h
  · cases h
  · cases h
    exact ⟨_, _, ‹_›, rfl⟩

/-- A step of a node, other than `add_sibling`, shows what it encrypts. -/
theorem sent_ne_nil_iff {i : ι} {x : Action} {cause : Option ℕ} {sent : List (Sent ι)}
    (h : n.act b i x cause = some (n', sent)) (hx : ∀ addr sendOk, x ≠ .addSibling addr sendOk) :
    sent ≠ [] ↔ (n.nodes i).Speaks x := by
  obtain ⟨s, es, hs, rfl⟩ := sentBy_of_act h
  rw [Network.sentBy, filterMap_ne_nil fun e => by cases e <;> simp]
  exact (System.hasMessage_iff_speaks hs).trans (and_iff_left fun addr => hx addr false)

/-- A step encrypts a message exactly when somebody speaks. -/
theorem plaintexts_ne_nil_iff {a : NetAction ι} {sent : List (Sent ι)}
    (h : n.step b a = some (n', sent)) : plaintexts n a sent ≠ [] ↔ n.Speaks a := by
  unfold plaintexts
  split
  case h_1 i addr sendOk =>
    rw [filterMap_ne_nil fun e => by cases e <;> simp, ENode.hasMessage_addSibling]
    exact and_iff_left rfl
  case h_2 hgreets =>
    rw [ne_eq, List.map_eq_nil_iff]
    cases a with
    | node i x =>
        have hact : n.act b i x none = some (n', sent) := by
          cases x <;> first | exact h | cases h
        exact sent_ne_nil_iff hact fun addr sendOk hx => hgreets i addr sendOk (by rw [hx])
    | deliver i k src amb =>
        simp only [Network.step] at h
        split at h
        case h_1 => cases h
        case h_2 d hd =>
          rw [← ne_eq, sent_ne_nil_iff h fun _ _ => nofun]
          exact ⟨fun hspeaks => ⟨d, hd, hspeaks⟩, fun ⟨d', hd', hspeaks⟩ =>
            Option.some.inj (hd.symm.trans hd') ▸ hspeaks⟩
    | authority k src stack recTs xmtTs =>
        simp only [Network.step] at h
        split at h
        case h_1 => cases h
        case h_2 =>
          cases h
          exact iff_of_true (by simp) trivial

/-- A silent step encrypts at most the test message of a constructor. -/
theorem silent_iff [DecidableEq κ] {aead : Nonce → Aead} {enclave : ι → κ} {t : KeyedStep ι κ}
    (hs : t.IsStep (Keyed.step aead enclave b)) (h : t.pre.Inited enclave) :
    KeyedStep.Silent t ↔ ∀ e ∈ t.events, e.dst = none := by
  rcases step_cases h hs with ⟨i, mem, nonce, hact, _, _, _, hes⟩ |
    ⟨x, nonce, net, sent, hact, _, hnet, _, hes⟩
  · refine iff_of_true ?_ (by simp [hes])
    intro a ha
    rw [hact] at ha
    cases ha
  · have hspeaks := plaintexts_ne_nil_iff hnet
    rw [hes]
    constructor
    · intro hsilent e he
      obtain ⟨q, hq, _⟩ := List.mem_map.mp he
      exact absurd (hspeaks.mp (List.ne_nil_of_mem hq)) (hsilent x hact)
    · intro hnone a ha hspeak
      obtain rfl : x = a := KeyedAction.act.inj (hact.symm.trans ha)
      obtain ⟨q, hq⟩ := List.exists_mem_of_ne_nil _ (hspeaks.mpr hspeak)
      cases hnone _ (List.mem_map_of_mem hq)

end Keyed

-- ---------------------------------------------------------------------------
-- Reuse
-- ---------------------------------------------------------------------------

theorem NonceUnique.of_append {es es' : List (Encryption ι)} (h : NonceUnique (es ++ es')) :
    NonceUnique es := fun e he e' he' =>
  h e (List.mem_append_left _ he) e' (List.mem_append_left _ he')

theorem encryptions_snoc (past : List (KeyedStep ι κ)) (t : KeyedStep ι κ) :
    encryptions (past ++ [t]) = encryptions past ++ t.events := by
  simp [encryptions]

/-- Every node has encrypted the test message with its nonce. Once something has been sent, a nonce
    has been used twice. -/
structure Tested (enclave : ι → κ) (past : List (KeyedStep ι κ)) (s : Keyed ι κ) : Prop where
  inited : s.Inited enclave
  traced : s.net.Traced
  tested (i : ι) (nonce : Nonce) (h : s.nonces i = some nonce) :
    ∃ e ∈ encryptions past, e.nonce = nonce ∧ e.plaintext = testMsg
  reused : s.net.pool ≠ [] → ¬ NonceUnique (encryptions past)

theorem Tested.fresh {enclave : ι → κ} {s : Keyed ι κ} (h : s.Fresh) : Tested enclave [] s := by
  obtain ⟨hpool, _, hnonces⟩ := h
  refine ⟨?_, ?_, ?_, fun hne => absurd hpool hne⟩
  · intro i nonce hi
    rw [hnonces] at hi
    cases hi
  · simp [Network.Traced, hpool]
  · intro i nonce hi
    rw [hnonces] at hi
    cases hi

section Reuse

variable [DecidableEq ι] [DecidableEq κ] {aead : Nonce → Aead} {enclave : ι → κ} {b : Build}

/-- The first message of a node repeats the nonce of its test message. The Time Authority only
    answers messages. -/
theorem not_unique_of_message {past : List (KeyedStep ι κ)} {t : KeyedStep ι κ}
    (hs : t.IsStep (Keyed.step aead enclave b)) (h : Tested enclave past t.pre)
    {e : Encryption ι} (he : e ∈ t.events) (hdst : e.dst ≠ none) :
    ¬ NonceUnique (encryptions (past ++ [t])) := by
  rw [encryptions_snoc]
  intro hunique
  rcases Keyed.step_cases h.inited hs with ⟨i, mem, nonce, _, _, _, _, hes⟩ |
    ⟨x, nonce, net, sent, _, hnonce, hnet, _, hes⟩
  · rw [hes] at he
    rw [List.mem_singleton.mp he] at hdst
    exact hdst rfl
  · cases hactor : Keyed.actor x with
    | none =>
        refine h.reused ?_ hunique.of_append
        cases x with
        | authority k src stack recTs xmtTs =>
            rintro hpool
            simp [Network.step, hpool] at hnet
        | _ => cases hactor
    | some i =>
        rw [hactor] at hnonce
        obtain ⟨e', he', hsame, htest⟩ := h.tested i nonce hnonce
        rw [hes] at he
        obtain ⟨q, hq, rfl⟩ := List.mem_map.mp he
        refine hunique _ (List.mem_append_right _ (hes ▸ List.mem_map_of_mem hq)) e'
          (List.mem_append_left _ he') ?_ hsame.symm
        rw [htest]
        exact Keyed.plaintext_ne_testMsg h.traced hnet q hq

theorem Tested.step {past : List (KeyedStep ι κ)} {t : KeyedStep ι κ}
    (hs : t.IsStep (Keyed.step aead enclave b)) (h : Tested enclave past t.pre) :
    Tested enclave (past ++ [t]) t.post := by
  have hold {e : Encryption ι} (he : e ∈ encryptions past) : e ∈ encryptions (past ++ [t]) := by
    rw [encryptions_snoc]
    exact List.mem_append_left _ he
  have hinited := h.inited.step hs
  rcases Keyed.step_cases h.inited hs with ⟨i, mem, nonce, _, _, _, hpost, hes⟩ |
    ⟨x, nonce, net, sent, _, hnonce, hnet, hpost, hes⟩
  · refine ⟨hinited, by rw [hpost]; exact h.traced, ?_, ?_⟩
    · intro j n hn
      rw [hpost] at hn
      rcases Keyed.nonces_of_update hn with ⟨_, rfl⟩ | hn
      · refine ⟨⟨some i, none, n, testMsg⟩, ?_, rfl, rfl⟩
        rw [encryptions_snoc, hes]
        exact List.mem_append_right _ List.mem_cons_self
      · obtain ⟨e, he, htest⟩ := h.tested j n hn
        exact ⟨e, hold he, htest⟩
    · rw [hpost, encryptions_snoc]
      exact fun hpool hunique => h.reused hpool hunique.of_append
  · refine ⟨hinited, ?_, ?_, ?_⟩
    · rw [hpost]
      exact Network.Traced.step (t := ⟨t.pre.net, x, sent, net⟩) hnet h.traced
    · intro j n hn
      rw [hpost] at hn
      obtain ⟨e, he, htest⟩ := h.tested j n hn
      exact ⟨e, hold he, htest⟩
    · intro hpool
      rw [hpost] at hpool
      dsimp only at hpool
      rw [Network.pool_of_step hnet] at hpool
      by_cases hsent : sent = []
      · rw [hsent, List.append_nil] at hpool
        rw [encryptions_snoc]
        exact fun hunique => h.reused hpool hunique.of_append
      · obtain ⟨q, hq⟩ := List.exists_mem_of_ne_nil _ (Keyed.plaintexts_ne_nil hnet hsent)
        exact not_unique_of_message hs h (hes ▸ List.mem_map_of_mem hq)
          (Option.some_ne_none _)

/-- The encryptions of a step are of messages, but for that of a constructor. -/
theorem plaintext_of_dst {t : KeyedStep ι κ} (hs : t.IsStep (Keyed.step aead enclave b))
    (h : t.pre.Inited enclave) {e : Encryption ι} (he : e ∈ t.events) (hdst : e.dst = none) :
    e.plaintext = testMsg := by
  rcases Keyed.step_cases h hs with ⟨i, mem, nonce, _, _, _, _, hes⟩ |
    ⟨x, nonce, net, sent, _, _, _, _, hes⟩
  · rw [hes] at he
    rw [List.mem_singleton.mp he]
  · rw [hes] at he
    obtain ⟨q, _, rfl⟩ := List.mem_map.mp he
    cases hdst

/-- In every run of any number of nodes, in any enclaves, and the Time Authority: no nonce is used
    for two plaintexts, and every receiver can decrypt what it is sent, exactly when nobody
    sends a message. -/
theorem nonce_unique_iff {addr : ι → Addr} {authority : Addr} {s₀ s : Keyed ι κ}
    {tr : List (KeyedStep ι κ)} (hfresh : s₀.Fresh) (hrun : KeyedRun aead enclave b s₀ tr s) :
    (NonceUnique (encryptions tr) ∧
        ∀ e ∈ encryptions tr, Decryptable aead addr authority s e) ↔
      ∀ t ∈ tr, KeyedStep.Silent t := by
  have hat : ∀ before t after, tr = before ++ t :: after → Tested enclave before t.pre := by
    rintro before t after rfl
    exact hrun.split_at.1.history (fun _ _ hs h => h.step hs) (.fresh hfresh)
  constructor
  · rintro ⟨hunique, _⟩ t ht
    obtain ⟨before, after, rfl⟩ := List.append_of_mem ht
    rw [Keyed.silent_iff (hrun.isStep ht) (hat before t after rfl).inited]
    intro e he
    by_contra hdst
    refine not_unique_of_message (hrun.isStep ht) (hat before t after rfl) he hdst ?_
    rw [← List.singleton_append, ← List.append_assoc, encryptions, List.flatMap_append] at hunique
    exact hunique.of_append
  · intro hnothing
    have htest : ∀ e ∈ encryptions tr, e.dst = none ∧ e.plaintext = testMsg := by
      intro e he
      obtain ⟨t, ht, he⟩ := List.mem_flatMap.mp he
      obtain ⟨before, after, hsplit⟩ := List.append_of_mem ht
      have hinited := (hat before t after hsplit).inited
      have hdst := (Keyed.silent_iff (hrun.isStep ht) hinited).mp (hnothing t ht) e he
      exact ⟨hdst, plaintext_of_dst (hrun.isStep ht) hinited he hdst⟩
    constructor
    · intro e he e' he' hne
      refine absurd ?_ hne
      rw [(htest e he).2, (htest e' he').2]
    · intro e he nonce hreads
      rw [Reads, (htest e he).1] at hreads
      rw [hreads]
      exact (aead e.nonce).decrypt_encrypt _

/-- All nonces are those of the Time Authority, those of past encryptions too. An enclave that has
    called `incrementNonce` hosts a node. -/
structure Zeroed (enclave : ι → κ) (past : List (KeyedStep ι κ)) (s : Keyed ι κ) : Prop where
  inited : s.Inited enclave
  hosting (i : ι) (h : s.init (enclave i) = true) : s.nonces i ≠ none
  zero (i : ι) (nonce : Nonce) (h : s.nonces i = some nonce) : nonce = zeroNonce
  past (e : Encryption ι) (h : e ∈ encryptions past) : e.nonce = zeroNonce

omit [DecidableEq ι] [DecidableEq κ] in
theorem Zeroed.fresh {s : Keyed ι κ} (h : s.Fresh) : Zeroed enclave [] s := by
  obtain ⟨_, hinit, hnonces⟩ := h
  refine ⟨?_, ?_, ?_, ?_⟩
  · intro i nonce hi
    rw [hnonces] at hi
    cases hi
  · intro i hi
    rw [hinit] at hi
    cases hi
  · intro i nonce hi
    rw [hnonces] at hi
    cases hi
  · intro e he
    cases he

/-- A constructor that is the first in its enclave zeroes its nonce. -/
theorem Zeroed.step (halone : Function.Injective enclave) {past : List (KeyedStep ι κ)}
    {t : KeyedStep ι κ} (hs : t.IsStep (Keyed.step aead enclave b))
    (h : Zeroed enclave past t.pre) : Zeroed enclave (past ++ [t]) t.post := by
  have hinited := h.inited.step hs
  rcases Keyed.step_cases h.inited hs with ⟨i, mem, nonce, _, hnew, hnonce, hpost, hes⟩ |
    ⟨x, nonce, net, sent, _, hnonce, hnet, hpost, hes⟩
  · have hfirst : t.pre.init (enclave i) ≠ true := fun hinit => h.hosting i hinit hnew
    rw [if_neg hfirst] at hnonce
    refine ⟨hinited, ?_, ?_, ?_⟩
    · intro j hj
      rw [hpost] at hj ⊢
      dsimp only at hj ⊢
      by_cases hji : j = i
      · rw [hji, Function.update_self]
        exact Option.some_ne_none _
      · rw [Function.update_of_ne (fun henclave => hji (halone henclave))] at hj
        rw [Function.update_of_ne hji]
        exact h.hosting j hj
    · intro j n hn
      rw [hpost] at hn
      rcases Keyed.nonces_of_update hn with ⟨_, rfl⟩ | hn
      · exact hnonce
      · exact h.zero j n hn
    · intro e he
      rw [encryptions_snoc, hes, List.mem_append, List.mem_singleton] at he
      rcases he with he | rfl
      · exact h.past e he
      · exact hnonce
  · refine ⟨hinited, ?_, ?_, ?_⟩
    · rw [hpost]
      exact h.hosting
    · rw [hpost]
      exact h.zero
    · intro e he
      rw [encryptions_snoc, hes, List.mem_append] at he
      rcases he with he | he
      · exact h.past e he
      · obtain ⟨q, _, rfl⟩ := List.mem_map.mp he
        cases hactor : Keyed.actor x with
        | none =>
            rw [hactor] at hnonce
            exact (Option.some.inj hnonce).symm
        | some i =>
            rw [hactor] at hnonce
            exact h.zero i nonce hnonce

/-- Where every node has an enclave of its own, everybody can decrypt everything. -/
theorem decryptable_of_alone (halone : Function.Injective enclave) {addr : ι → Addr}
    {authority : Addr} {s₀ s : Keyed ι κ} {tr : List (KeyedStep ι κ)} (hfresh : s₀.Fresh)
    (hrun : KeyedRun aead enclave b s₀ tr s) :
    ∀ e ∈ encryptions tr, Decryptable aead addr authority s e := by
  have hzeroed : Zeroed enclave tr s :=
    hrun.history (fun _ _ hs h => h.step halone hs) (.fresh hfresh)
  intro e he nonce hreads
  have hsame : nonce = e.nonce := by
    unfold Reads at hreads
    split at hreads
    · exact hreads
    · rw [hzeroed.past e he]
      rcases hreads with ⟨i, _, hi⟩ | ⟨_, hauthority⟩
      · exact hzeroed.zero i nonce hi
      · exact hauthority
  rw [hsame]
  exact (aead e.nonce).decrypt_encrypt _

end Reuse

namespace Scenario

/-- Nothing has been sent between two nodes, and neither is constructed. -/
def unkeyed : Keyed Bool Unit where
  net := ⟨fun _ => boot, []⟩
  init _ := false
  nonces _ := none

end Scenario

open Scenario in
/-- The theorem at two nodes of one enclave. The second keeps the nonce that it finds. -/
theorem nonce_unique_iff_tested :
    ∃ tr s, KeyedRun (fun _ => .zeroTag) (fun _ => ()) .aexNotify unkeyed tr s ∧
      s.nonces false ≠ s.nonces true ∧ NonceUnique (encryptions tr) ∧
      ∀ e ∈ encryptions tr,
        Decryptable (fun _ => .zeroTag) (fun _ => peerB) authorityAddr s e := by
  obtain ⟨tr, s, hrun, hs⟩ := exists_run_of_exec
    (Keyed.step (fun _ => .zeroTag) (fun _ => ()) .aexNotify) unkeyed
    [.construct false [], .construct true (List.replicate 12 1)]
    (fun tr s => s.nonces false ≠ s.nonces true ∧
      ∀ t ∈ tr, (t.act matches .construct _ _) = true) (by decide +kernel)
  obtain ⟨hdiffer, hconstruct⟩ := hs
  have hsilent : ∀ t ∈ tr, KeyedStep.Silent t := by
    intro t ht a ha
    have hmatch := hconstruct t ht
    rw [ha] at hmatch
    cases hmatch
  exact ⟨tr, s, hrun, hdiffer,
    (nonce_unique_iff ⟨rfl, fun _ => rfl, fun _ => rfl⟩ hrun).mpr hsilent⟩

open Scenario in
/-- A node that is alone in its enclave and adds a sibling: it encrypts the test message and
    "Sibling" with the same nonce. -/
theorem nonce_reused :
    ¬ ∀ (aead : Nonce → Aead) (enclave : Bool → Unit) (b : Build) (addr : Bool → Addr)
      (authority : Addr) (s₀ s : Keyed Bool Unit) (tr : List (KeyedStep Bool Unit)),
      s₀.Fresh → KeyedRun aead enclave b s₀ tr s →
        NonceUnique (encryptions tr) ∧
          ∀ e ∈ encryptions tr, Decryptable aead addr authority s e := by
  intro h
  obtain ⟨tr, s, hrun, hs⟩ := exists_run_of_exec
    (Keyed.step (fun _ => .zeroTag) (fun _ => ()) .aexNotify) unkeyed
    [.construct false [], .act (.node false (.addSibling peerB true))]
    (fun tr _ => ⟨some false, none, zeroNonce, testMsg⟩ ∈ encryptions tr ∧
      ⟨some false, some peerB, zeroNonce, siblingStr⟩ ∈ encryptions tr) (by decide +kernel)
  obtain ⟨htest, hsibling⟩ := hs
  have hfresh : unkeyed.Fresh := ⟨rfl, fun _ => rfl, fun _ => rfl⟩
  have hunique := (h _ _ _ (fun _ => peerB) authorityAddr _ _ _ hfresh hrun).1
  exact hunique _ htest _ hsibling (by decide) rfl

end TriHaRd
