-- SUMMARY: The messages that answer messages, and when every order of their deliveries comes to an end.
import TriHaRd.Base.Progress
import TriHaRd.Network.Sends
import TriHaRd.Node.Frame
import TriHaRd.Node.Receive
import Mathlib.Algebra.BigOperators.Group.List.Basic
import Mathlib.Algebra.Order.BigOperators.Group.List
import Mathlib.Data.List.Perm.Basic
import Mathlib.Logic.Function.Basic

/-!
# Message cascades

A message that is delivered may be answered, and the answer may be answered
again. The network here hands a message over once and at the source address of
the node that sent it. Besides the deliveries, the nodes may do all that sends
nothing: no round, poll or `add_sibling` starts another cascade.

A 'Tainted' message is answered with an 'Untaint' one, and that is the end of it. A
payload with any other first byte than the four letters goes back to where it
came from.
-/

namespace TriHaRd

open Lts

variable {ι : Type*}

/-- A message between two addresses. -/
structure Flight where
  src : Addr
  dst : Addr
  payload : List UInt8
deriving DecidableEq, Repr

/-- The datagram of the message, with its tag, is not cut off by `recvfrom`. -/
def Flight.Fits (f : Flight) : Prop := f.payload.length + aes256gcmABytes ≤ recvBuffLen

instance (f : Flight) : Decidable f.Fits := inferInstanceAs (Decidable (_ ≤ _))

/-- The nodes, and the messages on their way between them. -/
structure Traffic (ι : Type*) where
  nodes : ι → System
  flights : List Flight

inductive TrafficAction (ι : Type*) where
  /-- Message `k` arrives at node `i`. -/
  | deliver (i : ι) (k : ℕ) (amb : Ambient)
  | lose (k : ℕ)
  /-- Node `i` does something that sends nothing. -/
  | other (i : ι) (a : Action)

def TrafficAction.IsDelivery : TrafficAction ι → Prop
  | .deliver _ _ _ => True
  | _ => False

/-- The datagrams among the events of a step. -/
def packets (es : List Event) : List Packet :=
  es.filterMap fun
    | .sent q => some q
    | _ => none

/-- `handle_message` sends the payload back. -/
def isUnknown : List UInt8 → Bool
  | [] => false
  | tag :: _ => tag ∉ [letterS, letterT, letterU, letterD]

namespace Traffic

variable [DecidableEq ι]

/-- The nodes have the addresses `addr`. A message to a node that does not receive is dropped, and so
    is one that is cut off, because it does not authenticate then. -/
def step (addr : ι → Addr) (b : Build) (n : Traffic ι) :
    TrafficAction ι → Option (Traffic ι × List Flight)
  | .deliver i k amb =>
    match n.flights[k]? with
    | none => none
    | some f =>
      if addr i ≠ f.dst then none
      else if ¬ f.Fits then some ({ n with flights := n.flights.eraseIdx k }, [])
      else match System.step b (n.nodes i) (.recv f.payload f.src amb) with
        | none => some ({ n with flights := n.flights.eraseIdx k }, [])
        | some (s, es) =>
          let answers := (packets es).map fun q => ⟨addr i, q.dst, q.payload⟩
          some (⟨Function.update n.nodes i s, n.flights.eraseIdx k ++ answers⟩, answers)
  | .lose k =>
    if k < n.flights.length then some ({ n with flights := n.flights.eraseIdx k }, []) else none
  | .other _ (.recv _ _ _) => none
  | .other i a =>
    match System.step b (n.nodes i) a with
    | none => none
    | some (s, es) =>
      if packets es = [] then some ({ n with nodes := Function.update n.nodes i s }, []) else none

end Traffic

abbrev TrafficStep (ι : Type*) := Lts.Transition (Traffic ι) (TrafficAction ι) Flight

abbrev TrafficRun [DecidableEq ι] (addr : ι → Addr) (b : Build) :
    Traffic ι → List (TrafficStep ι) → Traffic ι → Prop :=
  Lts.Run (Traffic.step addr b)

/-- A node that receives has the address. -/
def LiveAt (addr : ι → Addr) (nodes : ι → System) (a : Addr) : Prop :=
  ∃ i, addr i = a ∧ (nodes i).Receives

/-- The messages are between addresses of the nodes. -/
def Traffic.Between (addr : ι → Addr) (n : Traffic ι) : Prop :=
  ∀ f ∈ n.flights, (∃ i, addr i = f.src) ∧ ∃ i, addr i = f.dst

/-- The message has an unknown first byte, is short enough to be received whole, and goes between nodes
    that receive. -/
def Flight.Bounces (addr : ι → Addr) (nodes : ι → System) (f : Flight) : Prop :=
  isUnknown f.payload = true ∧ f.Fits ∧ LiveAt addr nodes f.src ∧ LiveAt addr nodes f.dst

/-- Every order of deliveries comes to an end: no run takes infinitely many, and as long as a
    message is in flight another one can be made. -/
def Traffic.Settles [DecidableEq ι] (addr : ι → Addr) (b : Build) (n : Traffic ι) : Prop :=
  Exhausts (Traffic.step addr b) TrafficAction.IsDelivery n ∧
    ∀ tr n', TrafficRun addr b n tr n' → n'.flights ≠ [] →
      ∃ a n'' es, TrafficAction.IsDelivery a ∧ n'.step addr b a = some (n'', es)

-- ---------------------------------------------------------------------------
-- One delivery
-- ---------------------------------------------------------------------------

theorem packets_eq_nil {es : List Event} (h : ∀ q, Event.sent q ∉ es) : packets es = [] := by
  apply List.filterMap_eq_nil_iff.mpr
  intro e he
  cases e with
  | sent q => exact absurd he (h q)
  | _ => rfl

theorem packets_append (es es' : List Event) : packets (es ++ es') = packets es ++ packets es' :=
  List.filterMap_append

/-- `sendMessage` sends its datagram, if it has a socket. -/
theorem packets_sendMessage (s : ENode) (buff : List UInt8) (dst : Addr) :
    packets (s.sendMessage buff dst).1 = if s.sock < 0 then [] else [⟨dst, buff⟩] := by
  unfold ENode.sendMessage
  split <;> rfl

/-- What a handler answers to the payload that has come from `src`: nothing, an 'Untaint' message
    to a 'Tainted' one, or an unknown payload itself. -/
def Replying (payload : List UInt8) (src : Addr) (qs : List Packet) : Prop :=
  qs = [] ∨ ∃ q, qs = [q] ∧ q.dst = src ∧
    (payload.head? = some letterT ∧ q.payload.head? = some letterU ∨
      isUnknown payload = true ∧ q.payload = payload)

theorem isUnknown_of_head {payload : List UInt8} {letter : UInt8}
    (hletter : letter ∈ [letterS, letterT, letterU, letterD])
    (hhead : payload.head? = some letter) : isUnknown payload = false := by
  obtain ⟨tail, rfl⟩ := List.head?_eq_some_iff.mp hhead
  simp only [isUnknown, decide_eq_false_iff_not, not_not]
  exact hletter

theorem ENode.handleTainted_answers (s : ENode) {payload : List UInt8} (src : Addr) (amb : Ambient)
    (hhead : payload.head? = some letterT) :
    Replying payload src (packets (s.handleTainted payload src amb).events) := by
  unfold handleTainted
  split
  case h_1 => exact .inl rfl
  case h_2 sibling _ =>
    split
    case isTrue => exact .inl rfl
    split
    case isFalse => exact .inl rfl
    have hshadow : packets
        (if sibling.port = 12346 then s.shadowTscUpdate amb.osTime else (s, [])).2 = [] := by
      split
      · exact packets_eq_nil (s.shadowTscUpdate_sends_nothing amb.osTime)
      · rfl
    generalize (if sibling.port = 12346 then s.shadowTscUpdate amb.osTime else (s, [])) = r
      at hshadow ⊢
    dsimp only
    rw [packets_append, hshadow, List.nil_append, packets_sendMessage]
    split
    · exact .inl rfl
    · exact .inr ⟨_, rfl, rfl, .inl ⟨hhead, head_buildUntaint _ _ _ _ _⟩⟩

theorem ENode.handleMessage_answers (s : ENode) (payload : List UInt8) (src : Addr)
    (amb : Ambient) : Replying payload src (packets (s.handleMessage payload src amb).events) := by
  cases payload with
  | nil => exact .inl rfl
  | cons tag tail =>
      simp only [handleMessage]
      split_ifs with hS hT hU hD
      · exact .inl rfl
      · exact s.handleTainted_answers src amb (by rw [hT]; rfl)
      · exact .inl rfl
      · exact .inl (packets_eq_nil (s.handleDrift_sends_nothing _ amb))
      · rw [packets_sendMessage]
        split
        · exact .inl rfl
        · exact .inr ⟨_, rfl, rfl, .inr ⟨by simp [isUnknown, hS, hT, hU, hD], rfl⟩⟩

/-- A node that receives an unknown payload sends it back, and is left as it was. -/
theorem System.recv_of_unknown {b : Build} {s : System} (h : s.Receives) {payload : List UInt8}
    (hunknown : isUnknown payload = true) (src : Addr) (amb : Ambient) :
    System.step b s (.recv payload src amb) = some (s, [.sent ⟨src, payload⟩]) := by
  cases payload with
  | nil => cases hunknown
  | cons tag tail =>
      have htag : tag ≠ letterS ∧ tag ≠ letterT ∧ tag ≠ letterU ∧ tag ≠ letterD := by
        simpa [isUnknown] using hunknown
      obtain ⟨hS, hT, hU, hD⟩ := htag
      have hsent : s.node.handleMessage (tag :: tail) src amb =
          ⟨s.node, [.sent ⟨src, tag :: tail⟩], success⟩ := by
        simp [ENode.handleMessage, hS, hT, hU, hD, ENode.sendMessage, not_lt.mpr h.2]
      simp only [System.step]
      rw [if_pos ⟨h.1, h.2⟩, hsent]
      rfl

/-- A message that is handled was received, and shows what its handler shows. -/
theorem System.of_recv {b : Build} {s s' : System} {payload : List UInt8} {src : Addr}
    {amb : Ambient} {es : List Event}
    (hs : System.step b s (.recv payload src amb) = some (s', es)) :
    s.Receives ∧ es = (s.node.handleMessage payload src amb).events := by
  simp only [System.step] at hs
  split at hs
  case isTrue hreceives =>
    refine ⟨hreceives, ?_⟩
    split at hs <;> cases hs <;> rfl
  case isFalse => cases hs

namespace Traffic

variable [DecidableEq ι] {addr : ι → Addr} {b : Build} {n n' : Traffic ι}

/-- What a step does to the traffic: it changes one node, if any, and a delivery or a loss takes a
    message away. A delivery may add the answer of a node that received the message. -/
inductive Effect (addr : ι → Addr) (b : Build) (n : Traffic ι) :
    TrafficAction ι → Traffic ι → Prop where
  | answered (i : ι) (k : ℕ) (amb : Ambient) (f : Flight) (s : System) (qs : List Packet)
      (hk : n.flights[k]? = some f) (haddr : addr i = f.dst) (hfits : f.Fits)
      (hreceives : (n.nodes i).Receives)
      (hstill : s.Receives → (n.nodes i).Receives) (hanswers : Replying f.payload f.src qs) :
      Effect addr b n (.deliver i k amb) ⟨Function.update n.nodes i s,
        n.flights.eraseIdx k ++ qs.map fun q => ⟨addr i, q.dst, q.payload⟩⟩
  | dropped (i : ι) (k : ℕ) (amb : Ambient) (hk : k < n.flights.length) :
      Effect addr b n (.deliver i k amb) { n with flights := n.flights.eraseIdx k }
  | lost (k : ℕ) (hk : k < n.flights.length) :
      Effect addr b n (.lose k) { n with flights := n.flights.eraseIdx k }
  | other (i : ι) (a : Action) (s : System) (hstill : s.Receives → (n.nodes i).Receives) :
      Effect addr b n (.other i a) { n with nodes := Function.update n.nodes i s }

theorem effect_of_step {a : TrafficAction ι} {es : List Flight}
    (h : n.step addr b a = some (n', es)) : Effect addr b n a n' := by
  cases a with
  | deliver i k amb =>
      simp only [step] at h
      split at h
      case h_1 => cases h
      case h_2 f hk =>
        split at h
        case isTrue => cases h
        case isFalse haddr =>
          split at h
          case isTrue =>
            cases h
            exact .dropped i k amb (List.getElem?_eq_some_iff.mp hk).1
          case isFalse hfits =>
            split at h
            case h_1 =>
              cases h
              exact .dropped i k amb (List.getElem?_eq_some_iff.mp hk).1
            case h_2 s es' hs =>
              cases h
              obtain ⟨hreceives, rfl⟩ := System.of_recv hs
              exact .answered i k amb f s _ hk (not_not.mp haddr) (not_not.mp hfits) hreceives
                (System.receives_of_step hs) ((n.nodes i).node.handleMessage_answers _ _ _)
  | lose k =>
      simp only [step] at h
      split at h
      case isTrue hk =>
        cases h
        exact .lost k hk
      case isFalse => cases h
  | other i a =>
      have hother : (match System.step b (n.nodes i) a with
          | none => none
          | some (s, es) => if packets es = [] then
              some (({ n with nodes := Function.update n.nodes i s } : Traffic ι),
                ([] : List Flight))
            else none) = some (n', es) := by
        cases a with
        | recv => cases h
        | _ => exact h
      split at hother
      case h_1 => cases hother
      case h_2 s es' hs =>
        split at hother
        · cases hother
          exact .other i a s (System.receives_of_step hs)
        · cases hother

/-! ## The measure -/

/-- Nobody receives at an address where nobody did before. -/
theorem liveAt_of_update {i : ι} {s : System} (hstill : s.Receives → (n.nodes i).Receives)
    {a : Addr} (h : LiveAt addr (Function.update n.nodes i s) a) : LiveAt addr n.nodes a := by
  obtain ⟨j, haddr, hreceives⟩ := h
  by_cases hj : j = i
  · rw [hj, Function.update_self] at hreceives
    exact ⟨i, hj ▸ haddr, hstill hreceives⟩
  · rw [Function.update_of_ne hj] at hreceives
    exact ⟨j, haddr, hreceives⟩

end Traffic

open Classical in
/-- How many more deliveries the message can lead to, itself included, if it does not bounce. -/
noncomputable def Flight.weight (addr : ι → Addr) (nodes : ι → System) (f : Flight) : ℕ :=
  if isUnknown f.payload = true then if LiveAt addr nodes f.dst then 2 else 1
  else if f.payload.head? = some letterT then 2 else 1

noncomputable def Traffic.weight (addr : ι → Addr) (n : Traffic ι) : ℕ :=
  (n.flights.map (Flight.weight addr n.nodes)).sum

namespace Flight

variable {addr : ι → Addr} {nodes nodes' : ι → System} {f : Flight}

theorem weight_pos : 0 < f.weight addr nodes := by
  unfold weight
  split_ifs <;> decide

theorem weight_mono (h : ∀ a, LiveAt addr nodes' a → LiveAt addr nodes a) :
    f.weight addr nodes' ≤ f.weight addr nodes := by
  unfold weight
  split_ifs with hunknown hlive' hlive hT
  · exact le_refl _
  · exact absurd (h _ hlive') hlive
  · decide
  · exact le_refl _
  · exact le_refl _
  · exact le_refl _

theorem bounces_mono (h : ∀ a, LiveAt addr nodes' a → LiveAt addr nodes a)
    (hbounces : f.Bounces addr nodes') : f.Bounces addr nodes :=
  ⟨hbounces.1, hbounces.2.1, h _ hbounces.2.2.1, h _ hbounces.2.2.2⟩

/-- The answer weighs less than the message, and does not bounce if the message does not. -/
theorem weight_answers {i : ι} {qs : List Packet} (hanswers : Replying f.payload f.src qs)
    (hfits : f.Fits) (hlive : LiveAt addr nodes f.dst) (hcalm : ¬ f.Bounces addr nodes)
    (hstill : ∀ a, LiveAt addr nodes' a → LiveAt addr nodes a) :
    ((qs.map fun q => (⟨addr i, q.dst, q.payload⟩ : Flight)).map (weight addr nodes')).sum <
        f.weight addr nodes ∧
      ∀ g ∈ qs.map fun q => (⟨addr i, q.dst, q.payload⟩ : Flight), ¬ g.Bounces addr nodes' := by
  rcases hanswers with rfl | ⟨q, rfl, hdst, ⟨hT, hU⟩ | ⟨hunknown, hpayload⟩⟩
  · simp [weight_pos]
  · have hf : isUnknown f.payload = false := isUnknown_of_head (by simp) hT
    have hq : isUnknown q.payload = false := isUnknown_of_head (by simp) hU
    have hne : letterU ≠ letterT := by decide
    simp [weight, Bounces, hf, hq, hT, hU, hne]
  · have hdead : ¬ LiveAt addr nodes' f.src := fun h =>
      hcalm ⟨hunknown, hfits, hstill _ h, hlive⟩
    simp [weight, Bounces, hunknown, hpayload, hdst, hdead, hlive]

end Flight

namespace Traffic

variable {addr : ι → Addr} {b : Build} {n n' : Traffic ι}

theorem sum_eraseIdx (w : Flight → ℕ) {fs : List Flight} {k : ℕ} (hk : k < fs.length) :
    (fs.map w).sum = w fs[k] + ((fs.eraseIdx k).map w).sum := by
  rw [← ((List.getElem_cons_eraseIdx_perm hk).map w).sum_eq]
  simp

/-- No message in flight bounces. -/
def Calm (addr : ι → Addr) (n : Traffic ι) : Prop :=
  ∀ f ∈ n.flights, ¬ f.Bounces addr n.nodes

/-- Taking a message away keeps the calm, and makes the traffic lighter. -/
theorem calm_eraseIdx {k : ℕ} (hk : k < n.flights.length) (hcalm : n.Calm addr) :
    Calm addr { n with flights := n.flights.eraseIdx k } ∧
      weight addr { n with flights := n.flights.eraseIdx k } < n.weight addr := by
  refine ⟨fun f hf => hcalm f (List.mem_of_mem_eraseIdx hf), ?_⟩
  rw [weight, weight, sum_eraseIdx _ hk]
  exact Nat.lt_add_of_pos_left Flight.weight_pos

variable [DecidableEq ι]

/-- Every delivery makes a calm traffic lighter, and nothing else makes it heavier. -/
theorem Effect.measure {a : TrafficAction ι} (h : Effect addr b n a n') (hcalm : n.Calm addr) :
    n'.Calm addr ∧ n'.weight addr ≤ n.weight addr ∧
      (a.IsDelivery → n'.weight addr < n.weight addr) := by
  cases h with
  | answered i k amb f s qs hk haddr hfits hreceives hstill hanswers =>
      obtain ⟨hlength, hget⟩ := List.getElem?_eq_some_iff.mp hk
      have hmono (a : Addr) : LiveAt addr (Function.update n.nodes i s) a → LiveAt addr n.nodes a :=
        liveAt_of_update hstill
      have hcalmf := hcalm f (List.mem_of_getElem? hk)
      obtain ⟨hlighter, hanswered⟩ := Flight.weight_answers (i := i) hanswers hfits
        ⟨i, haddr, hreceives⟩ hcalmf hmono
      have hlt : weight addr ⟨Function.update n.nodes i s,
          n.flights.eraseIdx k ++ qs.map fun q => ⟨addr i, q.dst, q.payload⟩⟩ < n.weight addr := by
        rw [weight, weight, sum_eraseIdx _ hlength, hget, List.map_append, List.sum_append,
          Nat.add_comm]
        apply Nat.add_lt_add_of_lt_of_le hlighter
        exact List.sum_le_sum fun g _ => Flight.weight_mono hmono
      refine ⟨?_, hlt.le, fun _ => hlt⟩
      intro g hg
      rcases List.mem_append.mp hg with hold | hnew
      · intro hb
        exact hcalm g (List.mem_of_mem_eraseIdx hold) (Flight.bounces_mono hmono hb)
      · exact hanswered g hnew
  | dropped i k amb hk =>
      obtain ⟨hcalm', hlt⟩ := calm_eraseIdx hk hcalm
      exact ⟨hcalm', hlt.le, fun _ => hlt⟩
  | lost k hk =>
      obtain ⟨hcalm', hlt⟩ := calm_eraseIdx hk hcalm
      exact ⟨hcalm', hlt.le, fun _ => hlt⟩
  | other i a s hstill =>
      have hmono (a : Addr) : LiveAt addr (Function.update n.nodes i s) a → LiveAt addr n.nodes a :=
        liveAt_of_update hstill
      refine ⟨?_, ?_, False.elim⟩
      · intro f hf hb
        exact hcalm f hf (Flight.bounces_mono hmono hb)
      · exact List.sum_le_sum fun f _ => Flight.weight_mono hmono

/-! ## Progress -/

/-- Messages stay between addresses of the nodes. -/
theorem Effect.between {a : TrafficAction ι} (h : Effect addr b n a n')
    (hbetween : n.Between addr) : n'.Between addr := by
  cases h with
  | answered i k amb f s qs hk haddr hfits hreceives hstill hanswers =>
      intro g hg
      rcases List.mem_append.mp hg with hold | hnew
      · exact hbetween g (List.mem_of_mem_eraseIdx hold)
      · obtain ⟨q, hq, rfl⟩ := List.mem_map.mp hnew
        rcases hanswers with rfl | ⟨q', rfl, hdst, _⟩
        · cases hq
        · obtain rfl := List.mem_singleton.mp hq
          refine ⟨⟨i, rfl⟩, ?_⟩
          rw [hdst]
          exact (hbetween f (List.mem_of_getElem? hk)).1
  | dropped | lost => exact fun f hf => hbetween f (List.mem_of_mem_eraseIdx hf)
  | other => exact hbetween

/-- As long as a message is in flight, it can be delivered. -/
theorem exists_delivery (hbetween : n.Between addr) (h : n.flights ≠ []) :
    ∃ a n'' es, TrafficAction.IsDelivery a ∧ n.step addr b a = some (n'', es) := by
  obtain ⟨f, rest, hflights⟩ := List.exists_cons_of_ne_nil h
  obtain ⟨_, i, haddr⟩ := hbetween f (by rw [hflights]; exact List.mem_cons_self)
  have hfirst : n.flights[0]? = some f := by rw [hflights, List.getElem?_cons_zero]
  refine ⟨.deliver i 0 ⟨0, ⟨0, 0⟩, ⟨0, 0⟩⟩, ?_⟩
  simp only [step, hfirst, haddr, ne_eq, not_true, if_false]
  split
  case isTrue => exact ⟨_, _, trivial, rfl⟩
  case isFalse =>
    split
    · exact ⟨_, _, trivial, rfl⟩
    · exact ⟨_, _, trivial, rfl⟩

/-- A message that bounces is delivered, and is in flight again the other way. -/
theorem advances_of_bounces (h : ∃ f ∈ n.flights, f.Bounces addr n.nodes) :
    ∃ n', Advances (step addr b) TrafficAction.IsDelivery n' n ∧
      ∃ f ∈ n'.flights, f.Bounces addr n'.nodes := by
  obtain ⟨f, hf, hunknown, hfits, hsrc, i, haddr, hreceives⟩ := h
  obtain ⟨k, hk⟩ := List.mem_iff_getElem?.mp hf
  let back : Flight := ⟨f.dst, f.src, f.payload⟩
  have hstep : n.step addr b (.deliver i k ⟨0, ⟨0, 0⟩, ⟨0, 0⟩⟩) =
      some (⟨n.nodes, n.flights.eraseIdx k ++ [back]⟩, [back]) := by
    simp only [step, hk, haddr, hfits, ne_eq, not_true, if_false,
      System.recv_of_unknown hreceives hunknown, Function.update_eq_self]
    rfl
  exact ⟨_, .of_step hstep trivial, back, List.mem_append_right _ List.mem_cons_self, hunknown,
    hfits, ⟨i, haddr, hreceives⟩, hsrc⟩

theorem not_settles_of_bounces (h : ∃ f ∈ n.flights, f.Bounces addr n.nodes) :
    ¬ n.Settles addr b := fun hsettles =>
  not_exhausts_of_recurrent (J := fun n => ∃ f ∈ n.flights, f.Bounces addr n.nodes)
    (fun _ hn => advances_of_bounces hn) h hsettles.1

/-- For any nodes and any messages in flight between their addresses: every order of deliveries
    ends, with no message in flight, exactly when no message with an unknown first byte that can be
    received whole is in flight between two nodes that receive. -/
theorem settles_iff (hbetween : n.Between addr) :
    n.Settles addr b ↔ ∀ f ∈ n.flights, ¬ f.Bounces addr n.nodes := by
  constructor
  · intro hsettles f hf hbounces
    exact not_settles_of_bounces ⟨f, hf, hbounces⟩ hsettles
  · intro hcalm
    refine ⟨exhausts_of_measure (I := Calm addr) (weight addr) ?_ hcalm, ?_⟩
    · exact fun t hs hpre => (effect_of_step hs).measure hpre
    · intro tr n' hrun hflights
      have hkept : n'.Between addr :=
        hrun.invariant (fun t hs hpre => (effect_of_step hs).between hpre) hbetween
      exact exists_delivery hkept hflights

end Traffic

namespace Scenario

/-- Two nodes with sockets, and a message from the first to the second. -/
def pair (payload : List UInt8) : Traffic Bool where
  nodes second := if second then
      .boot (ENode.construct zeroed .init 12346 2 2 0 ⟨"127.0.0.1", 12340⟩ 3)
    else boot
  flights := [⟨⟨"127.0.0.1", 12345⟩, peerB, payload⟩]

def pairAddr (second : Bool) : Addr := if second then peerB else ⟨"127.0.0.1", 12345⟩

theorem pair_between (payload : List UInt8) : (pair payload).Between pairAddr := by
  intro f hf
  obtain rfl := List.mem_singleton.mp hf
  exact ⟨⟨false, rfl⟩, ⟨true, rfl⟩⟩

end Scenario

open Scenario in
/-- The theorem at a 'Sibling' message. -/
theorem settles_iff_sibling : (pair siblingStr).Settles pairAddr .aexNotify := by
  apply (Traffic.settles_iff (pair_between siblingStr)).mpr
  intro f hf hbounces
  obtain rfl := List.mem_singleton.mp hf
  exact absurd hbounces.1 (by decide)

open Scenario in
/-- A message of one unknown byte goes to and fro for ever. -/
theorem bounces_forever :
    ¬ ∀ (addr : Bool → Addr) (b : Build) (n : Traffic Bool), n.Between addr → n.Settles addr b := by
  intro h
  refine Traffic.not_settles_of_bounces ?_ (h pairAddr .aexNotify (pair [0x58]) (pair_between _))
  exact ⟨_, List.mem_cons_self, by decide, by decide, ⟨false, rfl, by decide⟩,
    ⟨true, rfl, by decide⟩⟩

end TriHaRd
